import Pharos.Gossip.SyncCommittee

/-
  This file proves what validation reads and writes. Two hosts that differ only in the cache of
  proposers answer a vote in the same way, and a state is advanced only to the slot of the vote.
-/

----
-- Votes
----

namespace Pharos.Gossip

variable {caches :
  HashMap (Slot × Root) ValidatorIndex → HashMap (Slot × Root) ValidatorIndex → Prop}
variable {S : Type} [BeaconSpec S]

section

/- The messages that belong to a slot, apart from blocks. -/
inductive Vote where
  | attestation (subnet : SubnetId) (att : Attestation)
  | singleAttestation (subnet : SubnetId) (att : SingleAttestation)
  | aggregate (saap : SignedAggregateAndProof Attestation)
  | aggregateElectra (saap : SignedAggregateAndProof ElectraAttestation)
  | syncMessage (subnet : SubnetId) (msg : SyncCommitteeMessage)
  | contribution (signed : SignedContributionAndProof)

namespace Vote

def slot : Vote → Slot
| .attestation _ att => att.data.slot
| .singleAttestation _ att => att.data.slot
| .aggregate saap => saap.message.aggregate.data.slot
| .aggregateElectra saap => saap.message.aggregate.data.slot
| .syncMessage _ msg => msg.slot
| .contribution signed => signed.message.contribution.slot

def forSyncCommittee : Vote → Bool
| .syncMessage _ _ => true
| .contribution _ => true
| _ => false

end Vote

variable {S : Type} [BeaconSpec S] [CommitteeSpec S] [SigningSpec S]

def validateVote : Vote → Validation S Unit
| .attestation subnet att => validateAttestation subnet att
| .singleAttestation subnet att =>
  validateSingleAttestation subnet att
| .aggregate saap => validateAggregateAndProof saap
| .aggregateElectra saap =>
  validateAggregateAndProofElectra saap
| .syncMessage subnet msg =>
  validateSyncCommitteeMessage subnet msg
| .contribution signed =>
  validateSyncCommitteeContributionAndProof signed

end

----
-- Similar Hosts
----

section

open Checks

variable {S : Type}

/-
  Two hosts that agree on everything but the cache of proposers, and have the store, the settings
  and the clock of a third.
-/
structure Similar
    (caches : HashMap (Slot × Root) ValidatorIndex → HashMap (Slot × Root) ValidatorIndex → Prop)
    (origin left right : Host S) : Prop where
  frame : left = { right with proposerCache := left.proposerCache }
  caches : caches left.proposerCache right.proposerCache
  store : right.forkChoice = origin.forkChoice
  config : right.runtimeCfg = origin.runtimeCfg
  clock : right.nowMs = origin.nowMs

/- A write that the cache of proposers has no part in. -/
structure LeavesView (write : Host S → Host S) : Prop where
  frame : ∀ host cache,
    write { host with proposerCache := cache } = { write host with proposerCache := cache }
  cache : ∀ host, (write host).proposerCache = host.proposerCache
  store : ∀ host, (write host).forkChoice = host.forkChoice
  config : ∀ host, (write host).runtimeCfg = host.runtimeCfg
  clock : ∀ host, (write host).nowMs = host.nowMs

variable {origin left right : Host S}

namespace Similar

theorem read_eq {Value : Type} {read : Host S → Value} (hFrame : ∀ host cache,
      read { host with proposerCache := cache } = read host)
    (hSim : Similar caches origin left right) :
    read left = read right := by
  rw [hSim.frame]
  exact hFrame right left.proposerCache

theorem forkChoice_eq (hSim : Similar caches origin left right) :
    left.forkChoice = origin.forkChoice ∧ right.forkChoice = origin.forkChoice := by
  refine ⟨Eq.trans ?_ hSim.store, hSim.store⟩
  exact hSim.read_eq fun _ _ => rfl

theorem isNotCurrentSlot_eq (hSim : Similar caches origin left right) (slot : Slot) :
    left.isNotCurrentSlot slot = origin.isNotCurrentSlot slot ∧
      right.isNotCurrentSlot slot = origin.isNotCurrentSlot slot := by
  have hRight : right.isNotCurrentSlot slot = origin.isNotCurrentSlot slot := by
    unfold Host.isNotCurrentSlot Host.isFutureSlot Host.slotStartMs
    rw [hSim.store, hSim.config, hSim.clock]
  refine ⟨Eq.trans ?_ hRight, hRight⟩
  rw [hSim.frame]
  rfl

theorem write {write : Host S → Host S} (hWrite : LeavesView write)
    (hSim : Similar caches origin left right) :
    Similar caches origin (write left) (write right) := by
  have hLeft := hWrite.cache left
  constructor
  · rw [hLeft]
    calc
      write left = write { right with
            proposerCache := left.proposerCache } :=
        congrArg write hSim.frame
      _ = _ := hWrite.frame right left.proposerCache
  · rw [hLeft, hWrite.cache right]
    exact hSim.caches
  · rw [hWrite.store right]
    exact hSim.store
  · rw [hWrite.config right]
    exact hSim.config
  · rw [hWrite.clock right]
    exact hSim.clock

end Similar

section

variable {allowed : Slot → Prop} {Value Other : Type}

theorem sound_read_bind {read : Host S → Value} {xs : Value → Validation S Other}
    (hxs : ∀ v, Sound (Similar caches origin) allowed (xs v))
    (hFrame : ∀ host cache, read { host with proposerCache := cache } = read host := by
      exact fun _ _ => rfl) :
    Sound (Similar caches origin) allowed (asks read >>= xs) :=
  sound_bind (sound_asks fun _ _ => Similar.read_eq hFrame) hxs

theorem sound_forkChoice_bind {xs : ForkChoice.Store S → Validation S Other}
    (hxs : Sound (Similar caches origin) allowed (xs origin.forkChoice)) :
    Sound (Similar caches origin) allowed (asks Host.forkChoice >>= xs) :=
  sound_asks_known_bind (fun _ _ hSim => hSim.forkChoice_eq) hxs

theorem sound_write {write : Host S → Host S} (hWrite : LeavesView write := by
      exact ⟨fun _ _ => rfl, fun _ => rfl, fun _ => rfl, fun _ => rfl, fun _ => rfl⟩) :
    Sound (Similar caches origin) allowed (modify write : Validation S Unit) :=
  sound_modify fun _ _ hSim => hSim.write hWrite

end

end

----
-- Lookups
----

section

open BeaconSpec CommitteeSpec Checks

def Host.Advances (host : Host S) (slot : Slot) : Prop :=
  ∃ state, host.forkChoice.blockStates.lookup (ForkChoice.getHead host.forkChoice) = some state ∧
    stateSlot state < slot

instance (host : Host S) (slot : Slot) : Decidable (host.Advances slot) :=
  decidable_of_iff
    ((host.forkChoice.blockStates.lookup (ForkChoice.getHead host.forkChoice)).any
      fun state => stateSlot state < slot)
    (by simp [Host.Advances, Option.any_eq_true])

variable {origin : Host S} {allowed : Slot → Prop}

theorem sound_advanceTo {s : S} {slot : Slot}
    (hAllowed : stateSlot s < slot → allowed slot) :
    Sound (Similar caches origin) allowed (advanceTo s slot) := by
  unfold advanceTo
  split
  · rename_i hPre
    refine sound_bind (sound_note (hAllowed hPre)) fun _ => ?_
    exact sound_pure _
  · exact sound_pure _

variable {slot : Slot}

theorem sound_headStateAtSlot (hAllowed : origin.Advances slot → allowed slot) :
    Sound (Similar caches origin) allowed (headStateAtSlot slot) := by
  refine sound_forkChoice_bind ?_
  cases hHead : origin.forkChoice.blockStates.lookup (ForkChoice.getHead origin.forkChoice) with
  | none => exact sound_pure _
  | some s =>
    apply sound_advanceTo
    intro hPre
    exact hAllowed ⟨s, hHead, hPre⟩

theorem sound_lookupOrComputeCommittee [CommitteeSpec S] {i : CommitteeIndex}
    (hAllowed : origin.Advances slot → allowed slot) :
    Sound (Similar caches origin) allowed (lookupOrComputeCommittee slot i) := by
  refine sound_forkChoice_bind ?_
  refine sound_read_bind fun cached => ?_
  cases cached with
  | some committee => exact sound_pure _
  | none =>
  cases hHead : origin.forkChoice.blockStates.lookup (ForkChoice.getHead origin.forkChoice) with
  | none => exact sound_pure _
  | some s =>
    have hAdvance : stateSlot s < slot → allowed slot := by
      intro hPre
      exact hAllowed ⟨s, hHead, hPre⟩
    refine sound_bind (sound_advanceTo hAdvance) fun advanced => ?_
    cases advanced with
    | none => exact sound_pure _
    | some advancedState =>
      exact sound_bind sound_write fun _ => sound_pure _

end

----
-- Validators
----

open BeaconSpec CommitteeSpec SigningSpec Checks

variable {origin : Host S} {allowed : Slot → Prop}

theorem sound_checkPropagationRange (label : String) (slot : Slot) :
    Sound (Similar caches origin) allowed (checkPropagationRange label slot) := by
  refine sound_read_bind fun inRange => ?_
  exact sound_stopIf _ _

theorem sound_checkVotedBlock (label : String) (data : AttestationData) :
    Sound (Similar caches origin) allowed (checkVotedBlock label data) := by
  refine sound_read_bind fun failed => ?_
  apply sound_check
  refine sound_forkChoice_bind ?_
  apply sound_check
  apply sound_check
  apply sound_check
  exact sound_stopIf _ _

omit [BeaconSpec S] in
theorem sound_checkAggregatorSignatures [SigningSpec S] (label : String) (headState : S)
    (data : AttestationData) (pk : BLSPubkey) (messageRoot : Root)
    (selectionProof sig : BLSSignature) :
    Sound (Similar caches origin) allowed (checkAggregatorSignatures label headState data pk
      messageRoot selectionProof sig) := by
  apply sound_check
  exact sound_stopIf _ _

variable [CommitteeSpec S] [SigningSpec S] {subnet : SubnetId}

theorem sound_validateAttestation {att : Attestation}
    (hAllowed : origin.Advances att.data.slot → allowed att.data.slot) :
    Sound (Similar caches origin) allowed (validateAttestation subnet att) := by
  refine sound_bind_orStop (sound_headStateAtSlot hAllowed) fun headState => ?_
  apply sound_check
  apply sound_check
  refine sound_bind (sound_checkPropagationRange _ _) fun _ => ?_
  apply sound_check
  apply sound_check
  refine sound_bind_orStop (sound_lookupOrComputeCommittee hAllowed) fun committee => ?_
  apply sound_check
  refine sound_read_bind fun seen => ?_
  apply sound_check
  apply sound_check
  refine sound_bind (sound_checkVotedBlock _ _) fun _ => ?_
  exact sound_bind sound_write fun _ => sound_write

theorem sound_validateSingleAttestation {att : SingleAttestation}
    (hAllowed : origin.Advances att.data.slot → allowed att.data.slot) :
    Sound (Similar caches origin) allowed (validateSingleAttestation subnet att) := by
  refine sound_bind_orStop (sound_headStateAtSlot hAllowed) fun headState => ?_
  apply sound_check
  apply sound_check
  apply sound_check
  refine sound_bind (sound_checkPropagationRange _ _) fun _ => ?_
  apply sound_check
  refine sound_bind_orStop (sound_lookupOrComputeCommittee hAllowed) fun committee => ?_
  apply sound_check
  refine sound_read_bind fun seen => ?_
  apply sound_check
  refine sound_orStop_bind fun pk => ?_
  apply sound_check
  refine sound_bind (sound_checkVotedBlock _ _) fun _ => ?_
  exact sound_write

theorem sound_validateAggregateAndProof {saap : SignedAggregateAndProof Attestation} (hAllowed :
      origin.Advances saap.message.aggregate.data.slot → allowed saap.message.aggregate.data.slot) :
    Sound (Similar caches origin) allowed (validateAggregateAndProof saap) := by
  refine sound_bind_orStop (sound_headStateAtSlot hAllowed) fun headState => ?_
  apply sound_check
  refine sound_bind (sound_checkPropagationRange _ _) fun _ => ?_
  apply sound_check
  refine sound_bind_orStop (sound_lookupOrComputeCommittee hAllowed) fun committee => ?_
  apply sound_check
  apply sound_check
  refine sound_read_bind fun old => ?_
  apply sound_check
  refine sound_read_bind fun seen => ?_
  apply sound_check
  apply sound_check
  apply sound_check
  refine sound_orStop_bind fun pk => ?_
  refine sound_bind (sound_checkAggregatorSignatures _ _ _ _ _ _ _) fun _ => ?_
  apply sound_check
  refine sound_bind (sound_checkVotedBlock _ _) fun _ => ?_
  exact sound_bind sound_write fun _ => sound_write

theorem sound_validateAggregateAndProofElectra {saap : SignedAggregateAndProof ElectraAttestation}
    (hAllowed :
      origin.Advances saap.message.aggregate.data.slot → allowed saap.message.aggregate.data.slot) :
    Sound (Similar caches origin) allowed (validateAggregateAndProofElectra saap) := by
  refine sound_bind_orStop (sound_headStateAtSlot hAllowed) fun headState => ?_
  apply sound_check
  apply sound_check
  apply sound_check
  refine sound_bind (sound_checkPropagationRange _ _) fun _ => ?_
  apply sound_check
  refine sound_bind_orStop (sound_lookupOrComputeCommittee hAllowed) fun committee => ?_
  apply sound_check
  apply sound_check
  refine sound_read_bind fun old => ?_
  apply sound_check
  refine sound_read_bind fun seen => ?_
  apply sound_check
  apply sound_check
  apply sound_check
  refine sound_orStop_bind fun pk => ?_
  refine sound_bind (sound_checkAggregatorSignatures _ _ _ _ _ _ _) fun _ => ?_
  apply sound_check
  apply sound_check
  refine sound_bind (sound_checkVotedBlock _ _) fun _ => ?_
  exact sound_write

theorem sound_validateSyncCommitteeMessage {msg : SyncCommitteeMessage}
    (hAllowed : origin.isNotCurrentSlot msg.slot = false → origin.Advances msg.slot →
      allowed msg.slot) :
    Sound (Similar caches origin) allowed (validateSyncCommitteeMessage subnet msg) := by
  refine sound_asks_known_bind (fun _ _ hSim => hSim.isNotCurrentSlot_eq _) ?_
  refine sound_stopIf_bind fun hCur => ?_
  refine sound_bind_orStop (sound_headStateAtSlot (hAllowed hCur)) fun headState => ?_
  apply sound_check
  refine sound_orStop_bind fun pk => ?_
  refine sound_orStop_bind fun committees => ?_
  apply sound_check
  refine sound_read_bind fun seen => ?_
  apply sound_check
  apply sound_check
  exact sound_write

theorem sound_validateSyncCommitteeContributionAndProof {signed : SignedContributionAndProof}
    (hAllowed : origin.isNotCurrentSlot signed.message.contribution.slot = false →
      origin.Advances signed.message.contribution.slot → allowed signed.message.contribution.slot) :
    Sound (Similar caches origin) allowed (validateSyncCommitteeContributionAndProof signed) := by
  refine sound_asks_known_bind (fun _ _ hSim => hSim.isNotCurrentSlot_eq _) ?_
  refine sound_stopIf_bind fun hCur => ?_
  apply sound_check
  apply sound_check
  apply sound_check
  refine sound_bind_orStop (sound_headStateAtSlot (hAllowed hCur)) fun headState => ?_
  apply sound_check
  refine sound_orStop_bind fun pk => ?_
  refine sound_orStop_bind fun committees => ?_
  apply sound_check
  refine sound_read_bind fun old => ?_
  apply sound_check
  refine sound_read_bind fun seen => ?_
  apply sound_check
  apply sound_check
  apply sound_check
  apply sound_check
  exact sound_write

theorem sound_validateVote {vote : Vote}
    (hAllowed : (vote.forSyncCommittee = true → origin.isNotCurrentSlot vote.slot = false) →
      origin.Advances vote.slot → allowed vote.slot) :
    Sound (Similar caches origin) allowed (validateVote vote) := by
  cases vote with
  | attestation subnet att =>
    exact sound_validateAttestation (hAllowed fun hSync => Bool.noConfusion hSync)
  | singleAttestation subnet att =>
    exact sound_validateSingleAttestation (hAllowed fun hSync => Bool.noConfusion hSync)
  | aggregate saap =>
    exact sound_validateAggregateAndProof (hAllowed fun hSync => Bool.noConfusion hSync)
  | aggregateElectra saap =>
    exact sound_validateAggregateAndProofElectra (hAllowed fun hSync => Bool.noConfusion hSync)
  | syncMessage subnet msg =>
    exact sound_validateSyncCommitteeMessage fun hCur => hAllowed fun _ => hCur
  | contribution signed =>
    exact sound_validateSyncCommitteeContributionAndProof fun hCur => hAllowed fun _ => hCur

end Pharos.Gossip
