import Pharos.Gossip.ClockBound
import Pharos.Lib.Insertion

/-
  This file determines when copies of a block with a wrong signature are without effect on the
  verdicts about blocks that build on it and votes for it.

  A copy that fails is remembered by the root of its message, which is the root of the block itself.
  A copy is harmless if the root is remembered already, or if the node does not get to look at the
  copy.

  Main theorems:
  * `forged_copies_harmless_iff`
-/

----
-- Expected Proposers
----

namespace Pharos.Gossip

open BeaconSpec CommitteeSpec SigningSpec Checks List

variable {S : Type} [BeaconSpec S] [CommitteeSpec S] [SigningSpec S]

section

variable {S : Type} [BeaconSpec S]

def advancedState (state : S) (slot : Slot) : Option S :=
  if stateSlot state < slot then (processSlotsFork state slot).toOption else some state

theorem advanceTo_apply (s : S) (slot : Slot) (host : Host S) :
    ∃ log, advanceTo s slot host = ⟨.ok (advancedState s slot), host, log⟩ := by
  unfold advanceTo advancedState
  by_cases hPre : stateSlot s < slot
  · rw [if_pos hPre, if_pos hPre]
    exact ⟨_, rfl⟩
  · rw [if_neg hPre, if_neg hPre]
    exact ⟨_, rfl⟩

variable [CommitteeSpec S]

def expectedProposer (fc : ForkChoice.Store S) (slot : Slot) (parentRoot : Root) :
    Option (ValidatorIndex × S) :=
  (fc.blockStates.lookup parentRoot).bind fun parentState =>
    (advancedState parentState slot).map fun state =>
      (proposerIndexOf state, state)

theorem expectedProposer_eq_some {fc : ForkChoice.Store S} {slot : Slot} {pr : Root}
    {y : ValidatorIndex × S} (hGot : expectedProposer fc slot pr = some y) :
    ∃ parentState, fc.blockStates.lookup pr = some parentState ∧
      advancedState parentState slot = some y.2 := by
  rcases Option.bind_eq_some_iff.mp hGot with ⟨parentState, hPar, hMap⟩
  rcases Option.map_eq_some_iff.mp hMap with ⟨s, hs, rfl⟩
  exact ⟨parentState, hPar, hs⟩

variable (stateOf : Root → Option S)

def StatesFrom (fc : ForkChoice.Store S) : Prop :=
  ∀ root state, fc.blockStates.lookup root = some state → stateOf root = some state

def ProposersFrom (cache : HashMap (Slot × Root) ValidatorIndex) : Prop :=
  ∀ slot parentRoot index parentState state, cache.lookup (slot, parentRoot) = some index →
    stateOf parentRoot = some parentState →
    advancedState parentState slot = some state → index = proposerIndexOf state

structure Coherent (host : Host S) : Prop where
  states : StatesFrom stateOf host.forkChoice
  proposers : ProposersFrom stateOf host.proposerCache

variable {stateOf}

theorem ProposersFrom.insert {cache : HashMap (Slot × Root) ValidatorIndex}
    (hCache : ProposersFrom stateOf cache) {slot : Slot} {pr : Root}
    {parentState s : S} (hPar : stateOf pr = some parentState)
    (hs : advancedState parentState slot = some s) :
    ProposersFrom stateOf (cache.insert (slot, pr) (proposerIndexOf s)) := by
  intro otherSlot otherRoot i otherParent x hLookup hOtherParent hx
  rcases HashTable.lookup_insert_cases hLookup with ⟨hEq, rfl⟩ | ⟨_, hLookup⟩
  · rw [Prod.mk.injEq] at hEq
    rw [hEq.2, hPar] at hOtherParent
    rw [hEq.1, ← Option.some.inj hOtherParent, hs] at hx
    rw [Option.some.inj hx]
  · exact hCache otherSlot otherRoot i otherParent x hLookup hOtherParent hx

theorem lookupOrComputeExpectedProposer_apply {host : Host S} (hHost : Coherent stateOf host)
    (slot : Slot) (pr : Root) :
    ∃ cache log,
      ProposersFrom stateOf cache ∧
        lookupOrComputeExpectedProposer slot pr host =
          ⟨.ok (expectedProposer host.forkChoice slot pr),
            { host with proposerCache := cache }, log⟩ := by
  unfold lookupOrComputeExpectedProposer expectedProposer
  rw [asks_bind]
  cases hPar : host.forkChoice.blockStates.lookup pr with
  | none => exact ⟨host.proposerCache, [], hHost.proposers, rfl⟩
  | some parentState =>
    have hStateOf := hHost.states pr parentState hPar
    rcases advanceTo_apply parentState slot host with ⟨log, hAdvance⟩
    dsimp only
    rw [asks_bind, bind_of_ok (congrArg Answer.outcome hAdvance), hAdvance]
    dsimp only [Option.bind_some]
    cases hs : advancedState parentState slot with
    | none => exact ⟨host.proposerCache, log ++ [], hHost.proposers, rfl⟩
    | some s =>
      cases hCached : host.proposerCache.lookup (slot, pr) with
      | some i =>
        have hIdx := hHost.proposers slot pr i parentState s hCached hStateOf hs
        refine ⟨host.proposerCache, log ++ [], hHost.proposers, ?_⟩
        rw [hIdx]
        rfl
      | none => exact ⟨_, log ++ [], hHost.proposers.insert hStateOf hs, rfl⟩

end

----
-- Copies
----

section

variable {S : Type}

def Host.markInvalid (host : Host S) (root : Root) : Host S :=
  { host with invalidBlockRoots := insert root host.invalidBlockRoots }

variable {host : Host S}

theorem gate_rejectIf {bad : Bool} {r : Root} {reason : String} :
    Gate (bad = false) (rejectIf bad r reason) host (host.markInvalid r) := by
  cases bad with
  | false => exact .inl ⟨rfl, rfl⟩
  | true => exact .inr ⟨nofun, .reject reason, rfl⟩

variable [BeaconSpec S]

/- The node gets to look at a block itself. -/
structure Host.Reaches (host : Host S) (block : BeaconBlock) : Prop where
  parent : block.parentRoot ∉ host.invalidBlockRoots
  started : host.isFutureBlock block = false
  unfinalized : computeStartSlotAtEpoch S host.forkChoice.finalizedCheckpoint.epoch < block.slot
  unseen : (block.slot, block.proposerIndex) ∉ host.seenBlockProposers
  inRange : proposerOutOfRange host.forkChoice block = false
  known : block.parentRoot ∈ host.forkChoice.blocks
  hasState : block.parentRoot ∈ host.forkChoice.blockStates
  elValid : parentElInvalid host.forkChoice block = false

theorem checkSurroundings_gate (host : Host S) (blk : BeaconBlock) :
    Gate (host.Reaches blk) (checkSurroundings blk) host host := by
  have hGate : Gate _ (checkSurroundings blk) host host :=
    gate_stopIf.bind <| gate_stopIf.bind <| gate_stopIf.bind <| gate_stopIf.bind <|
      gate_stopIf.bind <| gate_stopIf.bind <| gate_stopIf.bind gate_stopIf
  refine (congrArg (Gate · _ _ _) (propext ?_)).mp hGate
  simp only [decide_eq_false_iff_not, not_le, not_not]
  constructor
  · rintro ⟨hPar, hFuture, hFin, hSeen, hRange, hIn, hs, hBad⟩
    exact ⟨hPar, hFuture, hFin, hSeen, hRange, hIn, hs, hBad⟩
  · rintro ⟨hPar, hFuture, hFin, hSeen, hRange, hIn, hs, hBad⟩
    exact ⟨hPar, hFuture, hFin, hSeen, hRange, hIn, hs, hBad⟩

variable [CommitteeSpec S]

def Host.Fails (host : Host S) (block : BeaconBlock) : Prop :=
  notAfterParent host.forkChoice block = true ∨
    finalizedNotAncestor host.forkChoice block.parentRoot = true ∨
    tooManyCommitments host.runtimeCfg block = true ∨
    wrongTimestamp host.forkChoice host.runtimeCfg block = true

theorem checkContents_gate (host : Host S) (blk : BeaconBlock) :
    Gate (¬host.Fails blk) (checkContents blk) host
      (host.markInvalid (treeHashRoot S blk)) := by
  have hGate : Gate _ (checkContents blk) host (host.markInvalid (treeHashRoot S blk)) :=
    gate_rejectIf.bind <| gate_rejectIf.bind <| gate_rejectIf.bind gate_rejectIf
  refine (congrArg (Gate · _ _ _) (propext ?_)).mp hGate
  simp [Host.Fails, asks]

/-
  A copy with a wrong signature is remembered: the node looks at it, and it fails a check, or the
  proposer is found.
-/
def Host.Marks (host : Host S) (block : BeaconBlock) : Prop :=
  host.Reaches block ∧ (host.Fails block ∨
    (expectedProposer host.forkChoice block.slot block.parentRoot).isSome = true)

def Host.Harmless (host : Host S) (block : BeaconBlock) : Prop :=
  treeHashRoot S block ∈ host.invalidBlockRoots ∨ ¬ host.Marks block

variable [SigningSpec S] (stateOf : Root → Option S)

/- The signature is not the proposer's. -/
def Forged (signedBlock : SignedBeaconBlock) : Prop :=
  ∀ parentState state pubkey, stateOf signedBlock.message.parentRoot = some parentState →
    advancedState parentState signedBlock.message.slot = some state →
    validatorPubkey state signedBlock.message.proposerIndex = some pubkey →
      proposerSignatureValid state pubkey signedBlock = false

variable {stateOf} {signed : SignedBeaconBlock}

omit [CommitteeSpec S] in
theorem checkSignature_of_invalid {expected : ValidatorIndex × S}
    (hBad : ∀ pk, validatorPubkey expected.2 signed.message.proposerIndex = some pk →
      proposerSignatureValid expected.2 pk signed = false) (host : Host S) :
    ∃ reason, checkSignature expected signed host = ⟨.error (.reject reason),
      host.markInvalid (treeHashRoot S signed.message), []⟩ := by
  unfold checkSignature
  by_cases hx : expected.1 ≠ signed.message.proposerIndex
  · rw [decide_eq_true hx]
    exact ⟨_, rfl⟩
  · rw [decide_eq_false hx]
    cases hPubkey : validatorPubkey expected.2 signed.message.proposerIndex with
    | none => exact ⟨_, rfl⟩
    | some pk =>
      dsimp only
      rw [hBad pk hPubkey]
      exact ⟨_, rfl⟩

theorem checkProposer_of_forged (hHost : Coherent stateOf host)
    (hForged : Forged stateOf signed) :
    ∃ cache verdict log,
      ProposersFrom stateOf cache ∧
        checkProposer signed host = ⟨.error verdict,
            if (expectedProposer host.forkChoice signed.message.slot
                signed.message.parentRoot).isSome then
              { host with
                proposerCache := cache }.markInvalid (treeHashRoot S signed.message)
            else { host with proposerCache := cache }, log⟩ := by
  rcases lookupOrComputeExpectedProposer_apply hHost signed.message.slot
      signed.message.parentRoot with
    ⟨cache, log, hCache, hLookup⟩
  unfold checkProposer
  rw [bind_of_ok (congrArg Answer.outcome hLookup), hLookup]
  cases hExpected : expectedProposer host.forkChoice signed.message.slot
      signed.message.parentRoot with
  | none => exact ⟨cache, _, _, hCache, rfl⟩
  | some y =>
    rcases expectedProposer_eq_some hExpected with ⟨parentState, hPar, hs⟩
    have hStateOf := hHost.states _ _ hPar
    rcases checkSignature_of_invalid
        (fun pk => hForged parentState y.2 pk hStateOf hs)
        { host with proposerCache := cache } with
      ⟨reason, hReject⟩
    refine ⟨cache, .reject reason, log ++ [], hCache, ?_⟩
    rw [orStop_some_bind, hReject]
    rfl

/-
  What a forged copy leaves behind: the root, if the node gets to look at the copy, and perhaps an
  entry for the proposer.
-/
theorem validateBeaconBlock_of_forged (hHost : Coherent stateOf host)
    (hForged : Forged stateOf signed) :
    ∃ cache,
      ProposersFrom stateOf cache ∧
        (host.Marks signed.message →
          (validateBeaconBlock signed host).state = { host with
              proposerCache := cache }.markInvalid (treeHashRoot S signed.message)) ∧
        (¬ host.Marks signed.message →
          (validateBeaconBlock signed host).state = { host with proposerCache := cache }) := by
  unfold validateBeaconBlock Host.Marks
  rcases checkSurroundings_gate host signed.message with ⟨hReaches, hOk⟩ | ⟨hStops, verdict, hErr⟩
  swap
  · refine ⟨host.proposerCache, hHost.proposers, ?_, ?_⟩
    · intro hMarks
      exact absurd hMarks.1 hStops
    · intro _
      rw [bind_of_error (congrArg Answer.outcome hErr), hErr]
  rw [bind_of_ok (congrArg Answer.outcome hOk), hOk]
  rcases checkContents_gate host signed.message with ⟨hPasses, hOk⟩ | ⟨hFails, verdict, hReject⟩
  swap
  · refine ⟨host.proposerCache, hHost.proposers, ?_, ?_⟩
    · intro _
      rw [bind_of_error (congrArg Answer.outcome hReject), hReject]
    · intro hNot
      exact absurd ⟨hReaches, .inl (not_not.mp hFails)⟩ hNot
  rcases checkProposer_of_forged hHost hForged with ⟨cache, verdict, log, hCache, hErr⟩
  have hs : ((checkContents signed.message >>= fun _ =>
        checkProposer signed >>= fun _ =>
          modify fun host =>
            { host with
              seenBlockProposers := insert (signed.message.slot,
                signed.message.proposerIndex) host.seenBlockProposers }) host).state =
        (checkProposer signed host).state := by
    rw [bind_of_ok (congrArg Answer.outcome hOk), hOk,
      bind_of_error (congrArg Answer.outcome hErr), hErr]
  refine ⟨cache, hCache, ?_, ?_⟩
  · intro hMarks
    have hSome := hMarks.2.resolve_left hPasses
    refine Eq.trans hs ?_
    rw [hErr]
    exact if_pos hSome
  · intro hNot
    have hNone : ¬ (expectedProposer host.forkChoice signed.message.slot
        signed.message.parentRoot).isSome = true := fun hSome => hNot ⟨hReaches, .inr hSome⟩
    refine Eq.trans hs ?_
    rw [hErr]
    exact if_neg hNone

end

----
-- Blocks on Similar Hosts
----

section

variable {S : Type} [BeaconSpec S]

def SimilarProposers [CommitteeSpec S] (stateOf : Root → Option S) (origin : Host S) :
    Host S → Host S → Prop :=
  Similar (fun left right => ProposersFrom stateOf left ∧ ProposersFrom stateOf right) origin

section

variable {caches :
  HashMap (Slot × Root) ValidatorIndex → HashMap (Slot × Root) ValidatorIndex → Prop}
variable {origin : Host S} {allowed : Slot → Prop}

theorem sound_checkSurroundings (blk : BeaconBlock) :
    Sound (Similar caches origin) allowed (checkSurroundings blk) := by
  refine sound_forkChoice_bind ?_
  refine sound_read_bind fun _ => ?_
  apply sound_check
  refine sound_read_bind fun _ => ?_
  apply sound_check
  apply sound_check
  refine sound_read_bind fun _ => ?_
  apply sound_check
  apply sound_check
  apply sound_check
  apply sound_check
  exact sound_stopIf _ _

omit [BeaconSpec S] in
theorem sound_rejectIf (bad : Bool) (r : Root) (reason : String) :
    Sound (Similar caches origin) allowed (rejectIf bad r reason) := by
  cases bad with
  | false => exact sound_pure ()
  | true =>
    exact sound_bind sound_write fun _ => sound_stop _

theorem sound_checkContents [CommitteeSpec S] (blk : BeaconBlock) :
    Sound (Similar caches origin) allowed (checkContents blk) := by
  refine sound_forkChoice_bind ?_
  refine sound_read_bind fun _ => ?_
  refine sound_bind (sound_rejectIf _ _ _) fun _ => ?_
  refine sound_bind (sound_rejectIf _ _ _) fun _ => ?_
  refine sound_bind (sound_rejectIf _ _ _) fun _ => ?_
  exact sound_rejectIf _ _ _

theorem sound_checkSignature [SigningSpec S] (expected : ValidatorIndex × S)
    (signed : SignedBeaconBlock) :
    Sound (Similar caches origin) allowed (checkSignature expected signed) := by
  refine sound_bind (sound_rejectIf _ _ _) fun _ => ?_
  cases validatorPubkey expected.2 signed.message.proposerIndex with
  | none | some pk => exact sound_rejectIf _ _ _

end

variable [CommitteeSpec S] {stateOf : Root → Option S} {origin : Host S}
variable (hOrigin : StatesFrom stateOf origin.forkChoice)
include hOrigin

theorem SimilarProposers.coherent
    {left right : Host S} (hSim : SimilarProposers stateOf origin left right) :
    Coherent stateOf left ∧ Coherent stateOf right := by
  rcases hSim.forkChoice_eq with ⟨hLeft, hRight⟩
  constructor
  · refine ⟨?_, hSim.caches.1⟩
    rw [hLeft]
    exact hOrigin
  · refine ⟨?_, hSim.caches.2⟩
    rw [hRight]
    exact hOrigin

theorem sound_lookupOrComputeExpectedProposer
    (slot : Slot) (pr : Root) :
    Sound (SimilarProposers stateOf origin) (fun _ => True)
      (lookupOrComputeExpectedProposer slot pr) := by
  intro left right hSim
  rcases hSim.coherent hOrigin with ⟨hLeft, hRight⟩
  rcases hSim.forkChoice_eq with ⟨hLeftStore, hRightStore⟩
  rcases lookupOrComputeExpectedProposer_apply hLeft slot pr with
    ⟨leftCache, leftLog, hLeftCache, hLeftAnswer⟩
  rcases lookupOrComputeExpectedProposer_apply hRight slot pr with
    ⟨rightCache, rightLog, hRightCache, hRightAnswer⟩
  rw [hLeftAnswer, hRightAnswer]
  refine ⟨?_, ?_, fun _ _ => trivial⟩
  · rw [hLeftStore, hRightStore]
  · refine ⟨?_, ⟨hLeftCache, hRightCache⟩, hSim.store, hSim.config, hSim.clock⟩
    rw [hSim.frame]

variable [SigningSpec S]

theorem sound_validateBeaconBlock
    (signed : SignedBeaconBlock) :
    Sound (SimilarProposers stateOf origin) (fun _ => True) (validateBeaconBlock signed) := by
  refine sound_bind (sound_checkSurroundings _) fun _ => ?_
  refine sound_bind (sound_checkContents _) fun _ => ?_
  refine sound_bind ?_ fun _ => ?_
  · refine sound_bind (sound_lookupOrComputeExpectedProposer hOrigin _ _) fun y => ?_
    refine sound_orStop_bind fun expected => ?_
    exact sound_checkSignature _ _
  · exact sound_write

omit hOrigin

end

----
-- Runs
----

section

inductive GossipMessage where
  | block (signedBlock : SignedBeaconBlock)
  | vote (vote : Vote)

def validateMessage : GossipMessage → Validation S Unit
| .block signedBlock => validateBeaconBlock signedBlock
| .vote vote => validateVote vote

def Vote.votedRoot : Vote → Option Root
| .attestation _ att => some att.data.beaconBlockRoot
| .singleAttestation _ att => some att.data.beaconBlockRoot
| .aggregate saap =>
  some saap.message.aggregate.data.beaconBlockRoot
| .aggregateElectra saap =>
  some saap.message.aggregate.data.beaconBlockRoot
| .syncMessage _ _ => none
| .contribution _ => none

/-
  A message comes in, or the rest of the node goes on: the clock moves, blocks come to the store and
  leave it, and so do operations to the pools. The state that belongs to a root is always the same.
-/
inductive GossipEvent (stateOf : Root → Option S) where
  | message (message : GossipMessage)
  | environment (forkChoice : ForkChoice.Store S) (states : StatesFrom stateOf forkChoice)
      (nowMs : Nat)
      (opPools : Pools.OperationPools)

variable {stateOf : Root → Option S}

def gossipStep (host : Host S) : GossipEvent stateOf → Host S × Option GossipVerdict
| .message message =>
  let answer := validateMessage message host
  (answer.state, some (verdictOf answer.outcome))
| .environment forkChoice _ nowMs opPools =>
  ({ host with
      forkChoice := forkChoice
      nowMs := nowMs
      opPools := opPools },
    none)

def concerns (root : Root) : GossipEvent stateOf → Bool
| .message (.block signedBlock) =>
  signedBlock.message.parentRoot = root
| .message (.vote vote) => vote.votedRoot = some root
| .environment _ _ _ _ => false

def IsForgedCopy (block : BeaconBlock) (event : GossipEvent stateOf) : Prop :=
  ∃ signedBlock,
    event = .message (.block signedBlock) ∧ signedBlock.message = block ∧ Forged stateOf signedBlock

/- The relation of the two runs. -/
def SameButProposers (stateOf : Root → Option S) (left right : Host S) : Prop :=
  StatesFrom stateOf right.forkChoice ∧ SimilarProposers stateOf right left right

variable {host : Host S}

omit [SigningSpec S] in
theorem SameButProposers.refl (hHost : Coherent stateOf host) :
    SameButProposers stateOf host host :=
  ⟨hHost.states, rfl, ⟨hHost.proposers, hHost.proposers⟩, rfl, rfl, rfl⟩

variable {left right : Host S}

/- One event is answered alike, and the hosts stay alike. -/
theorem gossipStep_related (hEq : SameButProposers stateOf left right)
    (event : GossipEvent stateOf) :
    (gossipStep left event).2 = (gossipStep right event).2 ∧
      SameButProposers stateOf (gossipStep left event).1 (gossipStep right event).1 := by
  rcases hEq with ⟨hStates, hSim⟩
  cases event with
  | environment forkChoice states nowMs opPools =>
    refine ⟨rfl, states, ?_, hSim.caches, rfl, rfl, rfl⟩
    rw [hSim.frame]
    rfl
  | message msg =>
    have hSound : Sound (SimilarProposers stateOf right) (fun _ =>
        True) (validateMessage msg : Validation S Unit) := by
      cases msg with
      | block signed => exact sound_validateBeaconBlock hStates signed
      | vote vote => exact sound_validateVote fun _ _ => trivial
    rcases hSound left right hSim with ⟨hOutcome, hPost, _⟩
    refine ⟨congrArg (fun outcome => some (verdictOf outcome)) hOutcome, ?_⟩
    exact ⟨(hPost.coherent hStates).2.states, hPost.frame, hPost.caches, rfl, rfl, rfl⟩

theorem coherent_gossipStep (hHost : Coherent stateOf host) (event : GossipEvent stateOf) :
    Coherent stateOf (gossipStep host event).1 := by
  have hPost := (gossipStep_related (SameButProposers.refl hHost) event).2
  exact ⟨hPost.1, hPost.2.caches.2⟩

variable {blk : BeaconBlock}

theorem sameButProposers_of_harmless (hEq : SameButProposers stateOf left right)
    {event : GossipEvent stateOf} (hCopy : IsForgedCopy blk event)
    (hHarmless : left.Harmless blk) :
    SameButProposers stateOf (gossipStep left event).1 right := by
  rcases hCopy with ⟨signed, rfl, rfl, hForged⟩
  rcases hEq with ⟨hStates, hSim⟩
  have hLeft := (hSim.coherent hStates).1
  rcases validateBeaconBlock_of_forged hLeft hForged with ⟨cache, hCache, hMarked, hUnmarked⟩
  have hPost : (gossipStep left (.message (.block signed) : GossipEvent stateOf)).1 =
      { left with proposerCache := cache } := by
    change (validateBeaconBlock signed left).state = _
    by_cases hMarks : left.Marks signed.message
    · -- The root is there already.
      have hIn := hHarmless.resolve_right (not_not.mpr hMarks)
      rw [hMarked hMarks]
      unfold Host.markInvalid
      rw [Finset.insert_eq_of_mem hIn]
    · exact hUnmarked hMarks
  rw [hPost]
  refine ⟨hStates, ?_, ⟨hCache, hSim.caches.2⟩, rfl, rfl, rfl⟩
  rw [hSim.frame]

theorem verdict_of_stop {signed : SignedBeaconBlock} {verdict : GossipVerdict}
    (hStop : checkSurroundings signed.message host = ⟨.error verdict, host, []⟩) :
    (gossipStep host (.message (.block signed) : GossipEvent stateOf)).2 = some verdict := by
  change some (verdictOf (validateBeaconBlock signed host).outcome) = _
  unfold validateBeaconBlock
  rw [bind_of_error (congrArg Answer.outcome hStop)]
  rfl

omit [CommitteeSpec S] [SigningSpec S] in
theorem checkSurroundings_of_first_slot (hPar : blk.parentRoot ∉ host.invalidBlockRoots)
    (hSlot : blk.slot = 0) :
    checkSurroundings blk host = ⟨.error (.ignore "block: from future slot"), host, []⟩ ∨
      checkSurroundings blk host = ⟨.error (.ignore "block: not greater than finalized slot"), host,
          []⟩ := by
  unfold checkSurroundings
  rw [asks_bind, asks_bind, stopIf_bind_of_false (decide_eq_false hPar), asks_bind]
  by_cases hFuture : host.isFutureBlock blk = true
  · left
    exact stopIf_bind_of_true hFuture _ _ _
  · right
    rw [Bool.not_eq_true] at hFuture
    rw [stopIf_bind_of_false hFuture]
    apply stopIf_bind_of_true
    rw [hSlot]
    exact decide_eq_true (Nat.zero_le _)

def firstSlotChild (root : Root) : SignedBeaconBlock where
  message :=
    { forkVariant := .phase0
      slot := 0
      proposerIndex := 0
      parentRoot := root
      stateRoot := defaultRoot
      executionBlockHash := none
      executionParentHash := none
      executionTimestamp := none
      attestations := []
      blobKzgCommitments := [] }
  signature := 0

theorem verdict_firstSlotChild_ne {clean marked : Host S} {r : Root}
    (hClean : r ∉ clean.invalidBlockRoots) (hMarked : r ∈ marked.invalidBlockRoots) :
    (gossipStep clean (.message (.block (firstSlotChild r)) : GossipEvent stateOf)).2 ≠
      (gossipStep marked (.message (.block (firstSlotChild r)) : GossipEvent stateOf)).2 := by
  have hLast : checkSurroundings (firstSlotChild r).message marked = _ :=
    stopIf_bind_of_true (decide_eq_true hMarked) _ _ _
  have hFst := checkSurroundings_of_first_slot (show (firstSlotChild r).message.parentRoot ∉
    clean.invalidBlockRoots from hClean) rfl
  rw [verdict_of_stop hLast]
  unfold invalidParentVerdict
  rcases hFst with hEarly | hLate
  · rw [verdict_of_stop hEarly]
    split
    · decide
    · decide
  · rw [verdict_of_stop hLate]
    split
    · decide
    · decide

theorem mem_invalidBlockRoots_of_copy (hHost : Coherent stateOf host)
    {event : GossipEvent stateOf} (hCopy : IsForgedCopy blk event) (hMarks : host.Marks blk) :
    treeHashRoot S blk ∈ (gossipStep host event).1.invalidBlockRoots := by
  rcases hCopy with ⟨signed, rfl, rfl, hForged⟩
  rcases validateBeaconBlock_of_forged hHost hForged with ⟨cache, _, hMarked, _⟩
  change _ ∈ (validateBeaconBlock signed host).state.invalidBlockRoots
  rw [hMarked hMarks]
  exact Finset.mem_insert_self _ _

end

----
-- Main Theorem
----

section

open Insertion

variable {stateOf : Root → Option S}

/-
  However a run goes on after any part of it, the forged copies in it are without effect on the
  verdicts about the block exactly if every copy is harmless when it comes.
-/
theorem forged_copies_harmless_iff {host : Host S} (hHost : Coherent stateOf host)
    (block : BeaconBlock) {events : List (GossipEvent stateOf × Bool)}
    (hCopies : ∀ entry ∈ events, entry.2 = true → IsForgedCopy block entry.1) :
    (∀ past rest, events = past ++ rest →
        ∀ future : List (GossipEvent stateOf),
          keptOutputs gossipStep (concerns (treeHashRoot S block)) host (past ++ unmarked future) =
            outputs gossipStep (concerns (treeHashRoot S block)) host (kept past ++ future)) ↔
      Meet gossipStep (fun host _ => host.Harmless block) host events := by
  constructor
  · intro hVerdicts
    apply meet_of_forall_split
    intro past copy rest hSplit
    -- Both with the copy and without it, a block on top of the
    -- root gets the verdict of the run without copies.
    have hCopy : IsForgedCopy block copy := by
      apply hCopies (copy, true) _ rfl
      rw [hSplit]
      exact mem_append_right _ mem_cons_self
    have hAt : Coherent stateOf (after (stepMarked gossipStep) host past) :=
        invariant (Coherent stateOf) (fun _ event hPre =>
          coherent_gossipStep hPre event) hHost past
    by_contra hHarm
    unfold Host.Harmless at hHarm
    rw [not_or, not_not] at hHarm
    rcases hHarm with ⟨hClean, hMarks⟩
    have hMarked := mem_invalidBlockRoots_of_copy hAt hCopy hMarks
    have hPre := hVerdicts past _ hSplit
      [.message (.block (firstSlotChild (treeHashRoot S block)))]
    have hPost := hVerdicts (past ++ [(copy, true)]) rest (by rw [hSplit, append_assoc]; rfl)
      [.message (.block (firstSlotChild (treeHashRoot S block)))]
    rw [kept_append, kept_inserted, append_nil] at hPost
    apply verdict_firstSlotChild_ne hClean hMarked
    apply probe_eq _ (hPre.trans hPost.symm)
    exact decide_eq_true rfl
  · intro hHarmless past rest hSplit future
    rw [hSplit] at hHarmless
    have hPast := meet_append_unmarked (meet_of_append hHarmless) future
    have hInserted :
        ∀ entry ∈ past ++ unmarked future, entry.2 = true → IsForgedCopy block entry.1 := by
      intro entry hRow hMark
      rcases mem_append.mp hRow with hOld | hNew
      · apply hCopies entry _ hMark
        rw [hSplit]
        exact mem_append_left _ hOld
      · rcases mem_map.mp hNew with ⟨event, _, rfl⟩
        exact Bool.noConfusion hMark
    rw [outputs_eq (SameButProposers stateOf) (fun _ _ event hEq =>
      gossipStep_related hEq event) (fun _ _ _ hEq hCopy =>
        sameButProposers_of_harmless hEq hCopy)
      hInserted hPast (SameButProposers.refl hHost), kept_append, kept_unmarked]

end

----
-- Sample
----

open Insertion

open Sample

def copiedBlock : BeaconBlock :=
  child anchorRoot 1 0 []

def copiedRoot : Root :=
  treeHashRoot copiedBlock

def copiedState : ChainState :=
  postState anchorState copiedBlock

def sampleStateOf (root : Root) : Option ChainState :=
  if root = anchorRoot then
    some anchorState
  else if root = copiedRoot then
    some copiedState
  else
    none

def genuine (block : BeaconBlock) : GossipEvent sampleStateOf :=
  .message (.block ⟨block, treeHashRoot block⟩)

def forgedCopy : GossipEvent sampleStateOf :=
  .message (.block (signed copiedBlock))

def storeAfterCopied : ForkChoice.Store ChainState :=
  let store := ForkChoice.getForkchoiceStore anchorState anchorBlock
  { store with
    blocks := store.blocks.insert copiedRoot copiedBlock
    blockStates := store.blockStates.insert copiedRoot copiedState
    payloadStatuses := store.payloadStatuses.insert copiedRoot .valid }

theorem statesFrom_anchorStore : StatesFrom sampleStateOf
      (ForkChoice.getForkchoiceStore anchorState anchorBlock) := by
  intro r s hLookup
  rcases HashTable.lookup_singleton_iff.mp hLookup with ⟨rfl, rfl⟩
  rfl

theorem statesFrom_storeAfterCopied : StatesFrom sampleStateOf storeAfterCopied := by
  intro r s hLookup
  rcases HashTable.lookup_insert_cases hLookup with ⟨rfl, rfl⟩ | ⟨_, hLookup⟩
  · rfl
  · exact statesFrom_anchorStore r s hLookup

/- The block is imported, and the next slot begins. -/
def copiedImported : GossipEvent sampleStateOf :=
  .environment storeAfterCopied statesFrom_storeAfterCopied 24000 Pools.OperationPools.new

theorem coherent_hostAt (nowMs : Nat) : Coherent sampleStateOf (hostAt nowMs) := by
  refine ⟨statesFrom_anchorStore, ?_⟩
  intro slot pr i parentState s hCached
  exact absurd hCached (by simp [hostAt, Host.new])

theorem isForgedCopy_forgedCopy : IsForgedCopy copiedBlock forgedCopy := by
  refine ⟨_, rfl, rfl, ?_⟩
  intro parentState s pk _ _ _
  rfl

/- Once the block itself was accepted, a copy is harmless. -/
theorem forged_copies_harmless_iff_late : IsForgedCopy copiedBlock forgedCopy ∧
      keptOutputs gossipStep (concerns copiedRoot) (hostAt 12000)
          ([(genuine copiedBlock, false), (forgedCopy, true), (copiedImported, false)] ++
            unmarked [genuine (child copiedRoot 2 0 [])]) =
        outputs gossipStep (concerns copiedRoot) (hostAt 12000)
          [genuine copiedBlock, copiedImported, genuine (child copiedRoot 2 0 [])] := by
  refine ⟨isForgedCopy_forgedCopy, ?_⟩
  apply (forged_copies_harmless_iff (coherent_hostAt 12000)
    copiedBlock _).mpr _ _ [] (append_nil _).symm
  · intro e hRow hMark
    simp only [mem_cons, not_mem_nil, or_false] at hRow
    rcases hRow with rfl | rfl | rfl
    · exact Bool.noConfusion hMark
    · exact isForgedCopy_forgedCopy
    · exact Bool.noConfusion hMark
  · refine ⟨fun hMark => Bool.noConfusion hMark, ?_, fun hMark => Bool.noConfusion hMark, trivial⟩
    -- Slot and proposer have been seen.
    intro _
    right
    rintro ⟨hReaches, _⟩
    apply hReaches.unseen
    decide

/- A copy that comes before the block itself makes the node ignore the blocks on top of it. -/
theorem forged_copy_poisons_block : IsForgedCopy copiedBlock forgedCopy ∧
      keptOutputs gossipStep (concerns copiedRoot) (hostAt 12000)
          [(forgedCopy, true), (genuine copiedBlock, false), (copiedImported, false),
            (genuine (child copiedRoot 2 0 []), false)] =
        [some (.ignore "block: parent invalid with known EL result")] ∧
      outputs gossipStep (concerns copiedRoot) (hostAt 12000)
          [genuine copiedBlock, copiedImported, genuine (child copiedRoot 2 0 [])] =
        [some .accept] := by
  refine ⟨isForgedCopy_forgedCopy, ?_, ?_⟩
  · decide
  · decide

end Pharos.Gossip
