import Pharos.Sample
import Pharos.Validator.Run

/-
  This file determines when the validator client signs for the fork of its messages.

  The client takes the fork of the beacon node's head for the fork of the slot, and votes in the
  form of Electra only if the version is exactly that of Electra. So it is right as long as no fork
  lies between the head and the slot, and as no fork has come after Electra.

  Main theorems:
  * `client_signs_for_fork_iff`
-/

----
-- Logs of the Client
----

namespace Pharos.Validator

open SigningSpec DomainSpec Checks List Sample

variable (S : Type) [BeaconSpec S] [SigningSpec S] [DomainSpec S]

section

def SigningType.domainType : SigningType → DomainType
| .blockV2 => .beaconProposer
| .attestation => .beaconAttester
| .randaoReveal => .randao
| .aggregationSlot => .selectionProof
| .aggregateAndProof => .aggregateAndProof
| .syncCommitteeMessage => .syncCommittee
| .syncCommitteeSelectionProof =>
  .syncCommitteeSelectionProof
| .syncCommitteeContributionAndProof => .contributionAndProof

/- The domain of a request is that of a fork version. -/
structure SigningRequest.Under (fork : ForkContext) (request : SigningRequest) : Prop where
  forkInfo : request.forkInfo = fork
  signingRoot : request.signingRoot = computeSigningRoot S (request.object.treeHashRoot S)
    (computeDomain S request.signingType.domainType
    fork.currentVersion fork.genesisValidatorsRoot)

def SignsUnder (fork : ForkContext) (log : List ClientEvent) : Prop :=
  ∀ request answer, .signed request answer ∈ log → request.Under S fork

/-
  All votes have the form of Electra: their index is zero, and with a signature they are submitted
  one by one.
-/
structure VotesSingly (log : List ClientEvent) : Prop where
  zeroed : ∀ request answer data, .signed request answer ∈ log →
    request.object = .attestationData data → data.index = 0
  submitted : ∀ request signature data, .signed request (some signature) ∈ log →
    request.object = .attestationData data → ∃ committeeIndex attesterIndex,
    .submitted (.singleAttestations [⟨committeeIndex, attesterIndex, data, signature⟩]) ∈ log
  only : ∀ list, .submitted (.attestations list) ∉ log

theorem additive_votesSingly : Additive VotesSingly := by
  constructor
  · constructor
    · intro req ans data hSigned
      exact absurd hSigned not_mem_nil
    · intro req sig data hSigned
      exact absurd hSigned not_mem_nil
    · intro list
      exact not_mem_nil
  · intro a b hFst hSnd
    constructor
    · intro req ans data hSigned hObject
      rcases mem_append.mp hSigned with hOld | hNew
      · exact hFst.zeroed req ans data hOld hObject
      · exact hSnd.zeroed req ans data hNew hObject
    · intro req sig data hSigned hObject
      rcases mem_append.mp hSigned with hOld | hNew
      · rcases hFst.submitted req sig data hOld hObject with ⟨committee, attester, hSent⟩
        exact ⟨committee, attester, mem_append_left _ hSent⟩
      · rcases hSnd.submitted req sig data hNew hObject with ⟨committee, attester, hSent⟩
        exact ⟨committee, attester, mem_append_right _ hSent⟩
    · intro list hSent
      rcases mem_append.mp hSent with hOld | hNew
      · exact hFst.only list hOld
      · exact hSnd.only list hNew

theorem votesSingly_signed {req : SigningRequest} (ans : Option BLSSignature)
    (hNoVote : ∀ data, req.object ≠ .attestationData data) :
    VotesSingly [.signed req ans] := by
  have hNone : ∀ x other data, .signed x other ∈ [ClientEvent.signed req ans] →
      x.object ≠ .attestationData data := by
    intro x other data hSigned
    rw [mem_singleton] at hSigned
    injection hSigned with hReq
    rw [hReq]
    exact hNoVote data
  constructor
  · intro x other data hSigned hObject
    exact absurd hObject (hNone x other data hSigned)
  · intro x sig data hSigned hObject
    exact absurd hObject (hNone x _ data hSigned)
  · intro list hSent
    exact absurd hSent (by simp)

theorem votesSingly_submitted {submission : Submission}
    (hNoVote : ∀ list, submission ≠ .attestations list) : VotesSingly [.submitted submission] := by
  constructor
  · intro req ans data hSigned
    exact absurd hSigned (by simp)
  · intro req sig data hSigned
    exact absurd hSigned (by simp)
  · intro list hSent
    rw [mem_singleton] at hSent
    injection hSent with hSubmission
    exact hNoVote list hSubmission.symm

theorem votesSingly_vote {req : SigningRequest} {data : AttestationData}
    (hObject : req.object = .attestationData data) (hZero : data.index = 0)
    {ans : Option BLSSignature} {log : List ClientEvent} (hLog : VotesSingly log)
    (hSent : ∀ sig, ans = some sig → ∃ committeeIndex attesterIndex,
      .submitted (.singleAttestations [⟨committeeIndex, attesterIndex, data, sig⟩]) ∈ log) :
    VotesSingly (.signed req ans :: log) := by
  constructor
  · intro x otherAnswer otherData hSigned hx
    rcases mem_cons.mp hSigned with hHere | hLater
    · injection hHere with hReq
      rw [hReq, hObject] at hx
      injection hx with hData
      rw [← hData]
      exact hZero
    · exact hLog.zeroed x otherAnswer otherData hLater hx
  · intro x sig otherData hSigned hx
    rcases mem_cons.mp hSigned with hHere | hLater
    · injection hHere with hReq hAnswer
      rw [hReq, hObject] at hx
      injection hx with hData
      rcases hSent sig hAnswer.symm with ⟨committee, attester, hMem⟩
      rw [← hData]
      exact ⟨committee, attester, mem_cons_of_mem _ hMem⟩
    · rcases hLog.submitted x sig otherData hLater hx with ⟨committee, attester, hMem⟩
      exact ⟨committee, attester, mem_cons_of_mem _ hMem⟩
  · intro list hMem
    rcases mem_cons.mp hMem with hHere | hLater
    · exact ClientEvent.noConfusion hHere
    · exact hLog.only list hLater

def Follows (fork : ForkContext) (isElectra : Bool) (log : List ClientEvent) : Prop :=
  SignsUnder S fork log ∧ (isElectra = true → VotesSingly log)

variable {S}

variable {fork : ForkContext} {electra : Bool}

theorem additive_follows : Additive (Follows S fork electra) := by
  constructor
  · refine ⟨?_, fun _ => additive_votesSingly.nil⟩
    intro req ans hSigned
    exact absurd hSigned not_mem_nil
  · intro a b hFst hSnd
    constructor
    · intro req ans hSigned
      rcases mem_append.mp hSigned with hOld | hNew
      · exact hFst.1 req ans hOld
      · exact hSnd.1 req ans hNew
    · intro hElectra
      exact additive_votesSingly.append _ _ (hFst.2 hElectra) (hSnd.2 hElectra)

instance : Fact (Additive (Follows S fork electra)) :=
  ⟨additive_follows⟩

end

----
-- Duties
----

section

variable {S : Type} [BeaconSpec S] [SigningSpec S] [DomainSpec S]
variable {fork : ForkContext} {electra : Bool} {req : SigningRequest}

theorem leaves_submitted {submission : Submission}
    (hNoVote : ∀ list, submission ≠ .attestations list) :
    Leaves (Follows S fork electra) (note (.submitted submission) : Duty Unit) := by
  refine leaves_note ⟨?_, fun _ => votesSingly_submitted hNoVote⟩
  intro req ans hSigned
  exact absurd hSigned (by simp)

theorem signsUnder_singleton (hUnder : req.Under S fork) (ans : Option BLSSignature) :
    SignsUnder S fork [.signed req ans] := by
  intro x otherAnswer hSigned
  rw [mem_singleton] at hSigned
  injection hSigned with hReq
  rw [hReq]
  exact hUnder

variable {e : ValidatorEntry}

theorem sign_of_none (hAnswer : e.signer req = none) (client : Client) :
    e.sign req client = ⟨.error .signer, client, [.signed req none]⟩ := by
  unfold ValidatorEntry.sign
  rw [note_bind, hAnswer]
  rfl

theorem sign_of_some {sig : BLSSignature} (hAnswer : e.signer req = some sig)
    (client : Client) :
    e.sign req client = ⟨.ok sig, client, [.signed req (some sig)]⟩ := by
  unfold ValidatorEntry.sign
  rw [note_bind, hAnswer]
  rfl

theorem leaves_sign (signingType : SigningType) {object : SigningObject}
    (hNoVote : ∀ data, object ≠ .attestationData data) :
    Leaves (Follows S fork electra)
      (e.sign (SigningRequest.new S signingType signingType.domainType object fork)) := by
  intro client
  have hEvent : ∀ ans, Follows S fork electra [.signed (SigningRequest.new S signingType
      signingType.domainType object fork) ans] :=
    fun ans => ⟨signsUnder_singleton ⟨rfl, rfl⟩ ans,
      fun _ => votesSingly_signed ans hNoVote⟩
  cases hAnswer : e.signer (SigningRequest.new S signingType _ object fork) with
  | none =>
    rw [sign_of_none hAnswer]
    exact hEvent none
  | some sig =>
    rw [sign_of_some hAnswer]
    exact hEvent (some sig)

variable {client : Client}

section

variable (check : Slashing.SqliteSlashingProtection →
  Except Slashing.SlashingError Slashing.SqliteSlashingProtection)

theorem recordFirst_of_ok {s' : Slashing.SqliteSlashingProtection}
    (hOk : check client.slashingDb = .ok s') :
    recordFirst check client = ⟨.ok (), { client with slashingDb := s' }, []⟩ := by
  unfold recordFirst
  rw [asks_bind, hOk]
  rfl

theorem recordFirst_of_error {error : Slashing.SlashingError}
    (hErr : check client.slashingDb = .error error) :
    recordFirst check client = ⟨.error (.slashing error), client, []⟩ := by
  unfold recordFirst
  rw [asks_bind, hErr]
  rfl

theorem leaves_recordFirst : Leaves (Follows S fork electra) (recordFirst check) := by
  intro client
  cases hCheck : check client.slashingDb with
  | ok s' =>
    rw [recordFirst_of_ok check hCheck]
    exact additive_follows.nil
  | error error =>
    rw [recordFirst_of_error check hCheck]
    exact additive_follows.nil

end

variable (S) in
theorem signAttestation_of_recorded {data : AttestationData} {src tgt : Epoch}
    {s' : Slashing.SqliteSlashingProtection}
    (hRecorded : recordOfVote S e data src tgt fork client.slashingDb = .ok s') :
    signAttestation S e data src tgt fork client = e.sign
        (SigningRequest.new S .attestation .beaconAttester (.attestationData data) fork)
        { client with slashingDb := s' } := by
  have hRec := recordFirst_of_ok _ hRecorded
  unfold signAttestation
  rw [bind_of_ok (congrArg Answer.outcome hRec), hRec]
  rfl

variable (S) in
theorem signAttestation_cases (e : ValidatorEntry) (data : AttestationData)
    (src tgt : Epoch) (fork : ForkContext) (client : Client) :
    let req :=
      SigningRequest.new S .attestation .beaconAttester (.attestationData data) fork
    (∃ error, signAttestation S e data src tgt fork client =
        ⟨.error (.slashing error), client, []⟩) ∨
      (∃ s', signAttestation S e data src tgt fork client =
        ⟨.error .signer, s', [.signed req none]⟩) ∨
      ∃ s' sig, signAttestation S e data src tgt fork client =
        ⟨.ok sig, s', [.signed req (some sig)]⟩ := by
  intro req
  cases hRecorded : recordOfVote S e data src tgt fork client.slashingDb with
  | ok s' =>
    right
    rw [signAttestation_of_recorded S hRecorded]
    cases hAnswer : e.signer req with
    | none => exact .inl ⟨_, sign_of_none hAnswer _⟩
    | some sig => exact .inr ⟨_, sig, sign_of_some hAnswer _⟩
  | error error =>
    left
    refine ⟨error, ?_⟩
    have hRec := recordFirst_of_error _ hRecorded
    unfold signAttestation
    rw [bind_of_error (congrArg Answer.outcome hRec), hRec]

theorem leaves_signAttestation_bind {data : AttestationData} {Value : Type}
    {xs : BLSSignature → Duty Value} (hZero : electra = true → data.index = 0)
    {submission : BLSSignature → Submission}
    (hSubmission : electra = true → ∀ sig, ∃ committeeIndex attesterIndex,
      submission sig = .singleAttestations [⟨committeeIndex, attesterIndex, data, sig⟩])
    (hxs : ∀ sig, Leaves (Follows S fork electra) (xs sig)) {src tgt : Epoch} :
    Leaves (Follows S fork electra)
      (do
        let sig ← signAttestation S e data src tgt fork
        note (.submitted (submission sig))
        xs sig) := by
  intro client
  rcases signAttestation_cases S e data src tgt fork client with
    ⟨error, hAnswer⟩ | ⟨s', hAnswer⟩ | ⟨s', sig, hAnswer⟩
  · rw [bind_of_error (congrArg Answer.outcome hAnswer), hAnswer]
    exact additive_follows.nil
  · rw [bind_of_error (congrArg Answer.outcome hAnswer), hAnswer]
    refine ⟨signsUnder_singleton ⟨rfl, rfl⟩ none, fun hElectra => ?_⟩
    apply votesSingly_vote rfl (hZero hElectra) additive_votesSingly.nil
    intro sig hSome
    cases hSome
  · rw [bind_of_ok (congrArg Answer.outcome hAnswer), hAnswer, note_bind]
    rcases hxs sig s' with ⟨hSigns, hVotes⟩
    constructor
    · intro x otherAnswer hSigned
      rcases mem_cons.mp hSigned with hHere | hLater
      · injection hHere with hReq
        rw [hReq]
        exact ⟨rfl, rfl⟩
      · rcases mem_cons.mp hLater with hSent | hRestLog
        · exact ClientEvent.noConfusion hSent
        · exact hSigns x otherAnswer hRestLog
    · intro hElectra
      rcases hSubmission hElectra sig with ⟨committee, attester, hSingle⟩
      rw [hSingle]
      apply votesSingly_vote rfl (hZero hElectra)
      · apply additive_votesSingly.append [_]
        · exact votesSingly_submitted (by simp)
        · exact hVotes hElectra
      · intro x hx
        cases hx
        exact ⟨committee, attester, mem_cons_self⟩

variable {bn : BeaconNode} {duty : AttesterDuty} {slot : Slot} {epoch : Epoch} {root : Root}

theorem leaves_runProposer :
    Leaves (Follows S fork electra) (runProposer S bn e slot epoch fork) := by
  refine leaves_bind (leaves_sign .randaoReveal nofun) fun randao => ?_
  refine leaves_orStop_bind fun blk => ?_
  refine leaves_bind ?_ fun sig => leaves_submitted nofun
  refine leaves_bind (leaves_recordFirst _) fun _ => ?_
  exact leaves_sign .blockV2 nofun

theorem leaves_runAggregator : Leaves (Follows S fork electra)
    (runAggregator S bn e duty slot fork electra root) := by
  refine leaves_bind (leaves_sign .aggregationSlot nofun) fun proof => ?_
  refine leaves_stopIf_bind ?_
  split
  all_goals
    refine leaves_orStop_bind fun aggregate => ?_
    refine leaves_bind (leaves_sign .aggregateAndProof nofun) fun sig => ?_
    refine leaves_bind (leaves_submitted nofun) fun _ => ?_
    exact leaves_submitted nofun

theorem leaves_runAttester :
    Leaves (Follows S fork electra) (runAttester S bn e duty slot fork electra) := by
  refine leaves_orStop_bind fun attData => ?_
  refine leaves_signAttestation_bind ?_ ?_ ?_
  · intro hElectra
    rw [if_pos hElectra]
  · intro hElectra sig
    rw [if_pos hElectra]
    exact ⟨_, _, rfl⟩
  · intro sig
    exact leaves_runAggregator

section

variable [CommitteeSpec S]

theorem leaves_runContribution {syncCommitteeIndex : Nat} : Leaves (Follows S fork electra)
    (runContribution S bn e slot fork root syncCommitteeIndex) := by
  refine leaves_bind (leaves_sign .syncCommitteeSelectionProof nofun) fun proof => ?_
  refine leaves_stopIf_bind ?_
  refine leaves_orStop_bind fun contribution => ?_
  refine leaves_bind (leaves_sign .syncCommitteeContributionAndProof nofun) fun sig => ?_
  exact leaves_pure _

theorem leaves_runSyncCommittee {syncDuties : List SyncDuty} : Leaves (Follows S fork electra)
    (runSyncCommittee S bn e syncDuties slot fork root) := by
  refine leaves_orStop_bind fun duty => ?_
  refine leaves_bind (leaves_sign .syncCommitteeMessage nofun) fun sig => ?_
  refine leaves_bind (leaves_submitted nofun) fun _ => ?_
  refine leaves_stopIf_bind ?_
  refine leaves_bind (leaves_attemptEach (fun _ =>
    leaves_runContribution) _) fun contributions => ?_
  split
  · refine leaves_bind (leaves_submitted nofun) fun _ => ?_
    exact leaves_submitted nofun
  · exact leaves_submitted nofun

end

theorem leaves_unlessHeldOff {duty : Duty Unit}
    (hDuty : Leaves (Follows S fork electra) duty) :
    Leaves (Follows S fork electra) (unlessHeldOff e epoch duty) := by
  refine leaves_asks_bind fun guard => ?_
  exact leaves_stopIf_bind hDuty

variable (S) in
theorem leaves_runVcSlot [CommitteeSpec S] (cfg : VcConfig) (genesis : Root)
    (vals : List ValidatorEntry) {version : Version} (hFork : bn.getFork = some version)
    (duties : HashMap Epoch EpochDuties) (nowMs : Nat) :
    Leaves (Follows S ⟨version, genesis⟩ (cfg.electraForkVersion = some version))
      (runVcSlot S cfg genesis vals bn duties nowMs) := by
  refine leaves_modify_bind ?_
  refine leaves_orStop_bind fun sync => ?_
  refine leaves_stopIf_bind ?_
  rw [hFork]
  intro client
  rw [orStop_some_bind]
  revert client
  refine leaves_orStop_bind fun dutiesForSlot => ?_
  refine leaves_bind ?_ fun _ => ?_
  · apply leaves_attempt
    refine leaves_orStop_bind fun pk => ?_
    refine leaves_orStop_bind fun e => ?_
    exact leaves_unlessHeldOff leaves_runProposer
  refine leaves_bind ?_ fun _ => ?_
  · refine leaves_attemptEach (fun duty => ?_) _
    refine leaves_orStop_bind fun e => ?_
    exact leaves_unlessHeldOff leaves_runAttester
  refine leaves_orStop_bind fun headBlockRoot => ?_
  refine leaves_bind ?_ fun _ => leaves_pure ()
  refine leaves_attemptEach (fun e => ?_) _
  exact leaves_unlessHeldOff leaves_runSyncCommittee

end

----
-- A Vote
----

section

variable {S : Type} [BeaconSpec S]
variable [SigningSpec S] [CommitteeSpec S] [DomainSpec S]

def Client.advance (client : Client) (epoch : Epoch) : Client :=
  { client with doppelganger := client.doppelganger.advance epoch }

variable {bn : BeaconNode} {vals : List ValidatorEntry} {client : Client}

omit [CommitteeSpec S] in
theorem proposerPath_of_no_duty {duties : EpochDuties} {slot : Slot}
    (hNoDuty : duties.proposer.lookup slot = none) {epoch : Epoch} {fork : ForkContext} :
    proposerPath S bn vals duties slot epoch fork client = ⟨.error .notDue, client, []⟩ := by
  unfold proposerPath
  rw [hNoDuty]
  rfl

omit [CommitteeSpec S] in
theorem attesterPath_of_entry {duty : AttesterDuty} {e : ValidatorEntry}
    (hRow : (entryBy vals fun e => e.index = duty.validatorIndex) = some e)
    {epoch : Epoch} (hMaySign : client.doppelganger.maySign e.pubkeyHex epoch = true)
    {slot : Slot} {fork : ForkContext} {electra : Bool} :
    attesterPath S bn vals slot epoch fork electra duty client =
      runAttester S bn e duty slot fork electra client := by
  unfold attesterPath unlessHeldOff
  rw [hRow, orStop_some_bind, asks_bind, hMaySign]
  rfl

theorem mem_log_runVcSlot {cfg : VcConfig} {genesis : Root}
    {duties : HashMap Epoch EpochDuties} {nowMs : Nat} {sync : SyncingData} {version : Version}
    {dutiesForSlot : EpochDuties} {duty : AttesterDuty} {more : List AttesterDuty}
    {e : ValidatorEntry} (hSync : bn.getSyncing = some sync)
    (hHealthy : (sync.isSyncing || sync.isOptimistic || sync.elOffline) = false)
    (hFork : bn.getFork = some version)
    (hDuties : duties.lookup (cfg.epochOf (cfg.currentSlot nowMs)) = some dutiesForSlot)
    (hNoProposal : dutiesForSlot.proposer.lookup (cfg.currentSlot nowMs) = none)
    (hAttester : dutiesForSlot.attester.lookup (cfg.currentSlot nowMs) = some (duty :: more))
    (hRow : (entryBy vals fun e => e.index = duty.validatorIndex) = some e)
    (hMaySign : (client.advance (cfg.epochOf (cfg.currentSlot nowMs))).doppelganger.maySign
      e.pubkeyHex
      (cfg.epochOf (cfg.currentSlot nowMs)) = true) {event : ClientEvent}
    (hEvent : event ∈ (runAttester S bn e duty (cfg.currentSlot nowMs)
      ⟨version, genesis⟩
      (cfg.electraForkVersion = some version)
      (client.advance (cfg.epochOf (cfg.currentSlot nowMs)))).log) :
    event ∈ (runVcSlot S cfg genesis vals bn duties nowMs client).log := by
  unfold runVcSlot
  rw [modify_bind, hSync, orStop_some_bind, stopIf_bind_of_false hHealthy, hFork, orStop_some_bind,
    hDuties, orStop_some_bind]
  apply mem_append_right
  rw [state_attempt, proposerPath_of_no_duty hNoProposal, hAttester]
  apply mem_log_bind
  apply mem_log_bind
  change event ∈ (attesterPath S _ _ _ _ _ _ _ (client.advance _)).log
  rw [attesterPath_of_entry hRow hMaySign]
  exact hEvent

/- A client of one validator that may sign at once. -/
def votingClient : Client :=
  ⟨Slashing.SqliteSlashingProtection.fresh, ⟨false, ∅⟩⟩

def votingEntry : ValidatorEntry :=
  ⟨0, "", fun _ => some 0⟩

def votingNode (version : Version) : BeaconNode where
  getSyncing := some ⟨false, false, false⟩
  getFork := some version
  produceBlockV3 _ _ := none
  getAttestationData slot index := some ⟨slot, index, 0, ⟨0, 0⟩, ⟨0, 0⟩⟩
  getAggregateAttestation _ _ := none
  getAggregateAttestationV2 _ _ := none
  getHeadBlockRoot := none
  submitSyncCommitteeMessages _ := false
  getSyncCommitteeContribution _ _ _ := none

def votingDuty : AttesterDuty :=
  ⟨0, 0, 1, 1, 0⟩

def votingDuties (slot : Slot) (epoch : Epoch) : HashMap Epoch EpochDuties :=
  AList.singleton epoch ⟨∅, AList.singleton slot [votingDuty], []⟩

omit [CommitteeSpec S] in
variable (S) in
theorem log_runAttester_voting (version : Version) (slot : Slot) (fork : ForkContext)
    (electra : Bool) (hFresh : client.slashingDb = Slashing.SqliteSlashingProtection.fresh) :
    ∃ req submission xs,
      req.forkInfo = fork ∧ (electra = false → ∃ list, submission = .attestations list) ∧
        (runAttester S (votingNode version) votingEntry votingDuty slot fork electra client).log =
          .signed req (some 0) :: .submitted submission :: xs := by
  unfold runAttester
  have hData : (votingNode version).getAttestationData slot votingDuty.committeeIndex =
      some ⟨slot, 0, 0, ⟨0, 0⟩, ⟨0, 0⟩⟩ := rfl
  rw [hData, orStop_some_bind]
  have hNever :
      ∀ data : AttestationData, ∃ s', signAttestation S votingEntry data 0 0 fork client =
        ⟨.ok 0, s', [.signed (SigningRequest.new S .attestation .beaconAttester
        (.attestationData data) fork) (some 0)]⟩ := by
    intro data
    have hRecorded :
        ∃ s', recordOfVote S votingEntry data 0 0 fork client.slashingDb = .ok s' := by
      rw [hFresh]
      exact ⟨_, rfl⟩
    rcases hRecorded with ⟨s', hRecorded⟩
    rw [signAttestation_of_recorded S hRecorded]
    exact ⟨_, sign_of_some rfl _⟩
  rcases hNever (if electra = true then
    ⟨slot, 0, 0, ⟨0, 0⟩, ⟨0, 0⟩⟩ else
    ⟨slot, 0, 0, ⟨0, 0⟩, ⟨0, 0⟩⟩) with ⟨s', hSigned⟩
  rw [bind_of_ok (congrArg Answer.outcome hSigned), hSigned, note_bind]
  refine ⟨_, _, _, rfl, ?_, rfl⟩
  intro hPlain
  rw [hPlain]
  exact ⟨_, rfl⟩

variable (S) in
theorem mem_log_voting (cfg : VcConfig) (genesis : Root) (version : Version)
    (nowMs : Nat) :
    let slot := cfg.currentSlot nowMs
    let log :=
      (runVcSlot S cfg genesis
        [votingEntry] (votingNode version)
        (votingDuties slot (cfg.epochOf slot)) nowMs
        votingClient).log
    (∃ req ans, req.forkInfo = ⟨version, genesis⟩ ∧ .signed req ans ∈ log) ∧
      (cfg.electraForkVersion ≠ some version → ∃ list, .submitted (.attestations list) ∈ log) := by
  intro slot log
  have hFresh : (votingClient.advance (cfg.epochOf slot)).slashingDb =
      Slashing.SqliteSlashingProtection.fresh :=
    rfl
  have hDuties : (votingDuties slot (cfg.epochOf slot)).lookup (cfg.epochOf slot) =
      some ⟨∅, AList.singleton slot [votingDuty], []⟩ := by
    simp [votingDuties, HashTable.lookup_singleton]
  have hAttester :
      (AList.singleton slot [votingDuty] : HashMap Slot (List AttesterDuty)).lookup slot =
        some [votingDuty] := by
    simp [HashTable.lookup_singleton]
  rcases log_runAttester_voting S version slot ⟨version, genesis⟩
      (cfg.electraForkVersion = some version) hFresh with
    ⟨req, submission, xs, hFork, hPlain, hLog⟩
  have hLogged : ∀ event ∈ ClientEvent.signed req (some 0) ::
        .submitted submission :: xs, event ∈ log := by
    intro event hEvent
    rw [← hLog] at hEvent
    exact mem_log_runVcSlot rfl rfl rfl hDuties rfl hAttester rfl rfl hEvent
  constructor
  · exact ⟨req, some 0, hFork, hLogged _ mem_cons_self⟩
  · intro hx
    rcases hPlain (decide_eq_false hx) with ⟨list, hList⟩
    refine ⟨list, hLogged _ ?_⟩
    rw [hList]
    exact mem_cons_of_mem _ mem_cons_self

end

----
-- Main Theorem
----

section

variable (S : Type) [BeaconSpec S]
variable [SigningSpec S] [CommitteeSpec S] [DomainSpec S]

/-
  The turn that begins at a time signs all it signs under the version that is scheduled for its
  epoch, and from Electra on it votes in the form of Electra.
-/
def SignsForSchedule (schedule : ForkSchedule) (config : VcConfig) (genesisValidatorsRoot : Root)
    (nowMs : Nat) (log : List ClientEvent) : Prop :=
  let epoch := config.epochOf (config.currentSlot nowMs)
  SignsUnder S ⟨schedule.currentForkVersion epoch, genesisValidatorsRoot⟩ log ∧
    (schedule.electraForkEpoch ≤ epoch → VotesSingly log)

/-
  With a head at some slot, the client is right for any validators and duties, and whatever else the
  node answers, exactly if the version of the head is the version of the slot, and from Electra on
  it is that of Electra.
-/
theorem client_signs_for_fork_iff (schedule : ForkSchedule) (config : VcConfig) (nowMs : Nat)
    (headSlot : Slot) :
    let epoch := config.epochOf (config.currentSlot nowMs)
    let headVersion := schedule.currentForkVersion (config.epochOf headSlot)
    (∀ genesis vals bn duties client, bn.getFork = some headVersion →
        SignsForSchedule S schedule config genesis nowMs
          (runVcSlot S config genesis vals bn duties nowMs client).log) ↔
      headVersion = schedule.currentForkVersion epoch ∧
        (schedule.electraForkEpoch ≤ epoch → config.electraForkVersion = some headVersion) := by
  intro epoch headVersion
  constructor
  · intro hRight
    rcases mem_log_voting S config 0 headVersion nowMs with ⟨⟨req, ans, hInfo, hSigned⟩, hPlain⟩
    rcases hRight 0 [votingEntry] (votingNode headVersion) (votingDuties _ _) votingClient rfl with
      ⟨hSigns, hVotes⟩
    constructor
    · have hUnder := (hSigns req ans hSigned).forkInfo
      rw [hInfo] at hUnder
      exact congrArg ForkContext.currentVersion hUnder
    · intro hElectra
      by_contra hx
      rcases hPlain hx with ⟨list, hSent⟩
      exact (hVotes hElectra).only list hSent
  · rintro ⟨hEq, hForm⟩ genesis vals bn duties client hFork
    rcases leaves_runVcSlot S config genesis vals hFork duties nowMs client with
      ⟨hSigns, hVotes⟩
    rw [hEq] at hSigns
    refine ⟨hSigns, fun hElectra => hVotes ?_⟩
    exact decide_eq_true (hForm hElectra)

end

----
-- Sample
----

def sixForks : ForkSchedule :=
  ⟨0, 1, 1, 2, 2, 3, 3, 4, 4, 5, 5, 6, 6⟩

def mainnetClock : VcConfig :=
  ⟨0, 32, 12000, some 5⟩

/- Slot 161 is the second one of Electra. -/
theorem client_signs_for_fork_iff_inElectra : mainnetClock.currentSlot 1920000 = 161 ∧
      SignsForSchedule ChainState sixForks mainnetClock 0 1920000
        (runVcSlot ChainState mainnetClock 0
          [votingEntry] (votingNode 5) (votingDuties 161 5)
          1920000 votingClient).log := by
  refine ⟨by decide, ?_⟩
  have hCond := (client_signs_for_fork_iff ChainState sixForks mainnetClock 1920000
    160).mpr (by decide)
  exact hCond 0 [votingEntry] (votingNode 5) (votingDuties 161 5) votingClient rfl

/-
  In the first slot of Electra, with a head in the slot before it, the vote is signed under the
  version of Deneb. In Fulu, with a head in Fulu, it is not submitted in the form of Electra.
-/
theorem client_signs_for_other_fork :
    ¬ SignsForSchedule ChainState sixForks mainnetClock 0 1908000
        (runVcSlot ChainState mainnetClock 0 [votingEntry]
          (votingNode (sixForks.currentForkVersion (mainnetClock.epochOf 159)))
          (votingDuties 160 5) 1908000 votingClient).log ∧
      ¬ SignsForSchedule ChainState sixForks mainnetClock 0 2316000
          (runVcSlot ChainState mainnetClock 0 [votingEntry]
            (votingNode (sixForks.currentForkVersion (mainnetClock.epochOf 193)))
            (votingDuties 194 6) 2316000
            votingClient).log := by
  constructor
  · intro hRight
    rcases (mem_log_voting ChainState mainnetClock 0 4 1908000).1 with ⟨req, ans, hInfo, hSigned⟩
    have hUnder := (hRight.1 req ans hSigned).forkInfo
    rw [hInfo] at hUnder
    exact absurd hUnder (by decide)
  · intro hRight
    rcases (mem_log_voting ChainState mainnetClock 0 6 2316000).2 (by decide) with ⟨list, hSent⟩
    exact (hRight.2 (by decide)).only list hSent

end Pharos.Validator
