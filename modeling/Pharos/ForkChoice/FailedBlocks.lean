import Pharos.ForkChoice.Clock
import Pharos.ForkChoice.Linear
import Pharos.ForkChoice.LmdGhost
import Pharos.Stf.Justification

/-
  This file says what a call of `onBlock` that fails leaves behind. The last step of the call can
  fail when the block is already in the store, and then nothing is taken back.

  Whether two stores are the same is a matter of what their maps answer, not of the order of the
  entries. The head does not depend on that order either.

  Main theorems:
  * `onBlock_fails_unchanged_iff`
-/

----
-- Contents of a Store
----

namespace Pharos.ForkChoice

variable {S : Type}

/- Every field is the same, maps by what they answer. -/
structure SameContents (store other : Store S) : Prop where
  time : other.time = store.time
  genesisTime : other.genesisTime = store.genesisTime
  justifiedCheckpoint : other.justifiedCheckpoint = store.justifiedCheckpoint
  finalizedCheckpoint : other.finalizedCheckpoint = store.finalizedCheckpoint
  unrealizedJustifiedCheckpoint :
    other.unrealizedJustifiedCheckpoint = store.unrealizedJustifiedCheckpoint
  unrealizedFinalizedCheckpoint :
    other.unrealizedFinalizedCheckpoint = store.unrealizedFinalizedCheckpoint
  proposerBoostRoot : other.proposerBoostRoot = store.proposerBoostRoot
  equivocatingIndices : other.equivocatingIndices = store.equivocatingIndices
  blocks : ∀ root, other.blocks.lookup root = store.blocks.lookup root
  blockStates : ∀ root, other.blockStates.lookup root = store.blockStates.lookup root
  blockTimeliness : ∀ root, other.blockTimeliness.lookup root = store.blockTimeliness.lookup root
  checkpointStates : ∀ checkpoint,
    other.checkpointStates.lookup checkpoint = store.checkpointStates.lookup checkpoint
  latestMessages : ∀ index, other.latestMessages.lookup index = store.latestMessages.lookup index
  unrealizedJustifications :
    ∀ root, other.unrealizedJustifications.lookup root = store.unrealizedJustifications.lookup root
  payloadStatuses : ∀ root, other.payloadStatuses.lookup root = store.payloadStatuses.lookup root
  terminalTotalDifficulty : other.terminalTotalDifficulty = store.terminalTotalDifficulty
  terminalBlockHash : other.terminalBlockHash = store.terminalBlockHash
  terminalBlockHashActivationEpoch :
    other.terminalBlockHashActivationEpoch = store.terminalBlockHashActivationEpoch
  secondsPerSlot : other.secondsPerSlot = store.secondsPerSlot

namespace SameContents

variable {store x : Store S}

theorem refl (store : Store S) : SameContents store store := by
  constructor <;> first | rfl | exact fun _ => rfl

variable (hEq : SameContents store x)
include hEq

theorem mem_blocks_iff (r : Root) : r ∈ x.blocks ↔ r ∈ store.blocks := by
  rw [← AList.lookup_isSome, hEq.blocks, AList.lookup_isSome]

theorem mem_childrenIndex_iff (r c : Root) :
    c ∈ childrenIndex x.blocks r ↔ c ∈ childrenIndex store.blocks r := by
  rw [ForkChoice.mem_childrenIndex_iff, ForkChoice.mem_childrenIndex_iff, parentOf, parentOf,
    hEq.blocks]

theorem isInvalid_iff (r : Root) : x.IsInvalid r ↔ store.IsInvalid r := by
  unfold Store.IsInvalid
  rw [hEq.payloadStatuses]

theorem getAncestor_eq (r : Root) (slot : Slot) : getAncestor x r slot = getAncestor store r slot :=
  getAncestor_congr hEq.blocks r slot

theorem votesFor_eq (r : Root) (i : ValidatorIndex) : votesFor x r i = votesFor store r i := by
  unfold votesFor blockSlotOrZero
  rw [hEq.equivocatingIndices, hEq.latestMessages, hEq.blocks]
  simp only [hEq.getAncestor_eq]

theorem effectiveBase_eq : effectiveBase x = effectiveBase store := by
  unfold effectiveBase
  rw [hEq.justifiedCheckpoint, hEq.finalizedCheckpoint]
  simp only [hEq.mem_blocks_iff]

variable [BeaconSpec S]

theorem getCurrentSlot_eq : getCurrentSlot x = getCurrentSlot store :=
  getCurrentSlot_congr hEq.time hEq.genesisTime hEq.secondsPerSlot

theorem getCurrentStoreEpoch_eq : getCurrentStoreEpoch x = getCurrentStoreEpoch store :=
  getCurrentStoreEpoch_congr hEq.time hEq.genesisTime hEq.secondsPerSlot

theorem getWeight_eq (r : Root) : getWeight x r = getWeight store r := by
  have hJust : justifiedState x = justifiedState store := by
    unfold justifiedState
    rw [hEq.justifiedCheckpoint, hEq.checkpointStates]
  have hVotes : votesFor x r = votesFor store r := funext (hEq.votesFor_eq r)
  unfold getWeight getWeightWith activeIndicesForJustified
    getProposerScore getAttestationScore attestingBalances blockSlotOrZero
  rw [hJust, hEq.proposerBoostRoot, hVotes, hEq.blocks]
  simp only [hEq.getAncestor_eq]

theorem getVotingSource_eq (r : Root) : getVotingSource x r = getVotingSource store r := by
  unfold getVotingSource
  rw [hEq.blocks, hEq.getCurrentStoreEpoch_eq, hEq.unrealizedJustifications, hEq.blockStates]

theorem isViableLeaf_eq (r : Root) : isViableLeaf x r = isViableLeaf store r := by
  unfold isViableLeaf getCheckpointBlock
  rw [hEq.getCurrentStoreEpoch_eq, hEq.getVotingSource_eq,
    hEq.justifiedCheckpoint, hEq.finalizedCheckpoint]
  simp only [hEq.getAncestor_eq]

omit hEq

end SameContents

end Pharos.ForkChoice

----
-- The Head of the Contents
----

namespace Pharos.ForkChoice.SameContents

variable {S : Type} [BeaconSpec S] {store x : Store S}

section

variable (hEq : SameContents store x)
include hEq

theorem levelViable_iff (viable : Root → Prop) (r : Root) :
    LevelViable x (childrenIndex x.blocks r) viable r ↔
      LevelViable store (childrenIndex store.blocks r) viable r := by
  have hNil : childrenIndex x.blocks r = [] ↔ childrenIndex store.blocks r = [] := by
    simp only [List.eq_nil_iff_forall_not_mem, hEq.mem_childrenIndex_iff]
  unfold LevelViable
  simp only [hEq.mem_blocks_iff, hEq.isInvalid_iff, hNil,
    hEq.isViableLeaf_eq, hEq.mem_childrenIndex_iff]

theorem levelKept_iff (viable : Root → Prop) (kept : Root → Root → Prop) (r y : Root) :
    LevelKept x (childrenIndex x.blocks r) viable kept r y ↔
      LevelKept store (childrenIndex store.blocks r) viable kept r y := by
  unfold LevelKept
  simp only [hEq.mem_blocks_iff, hEq.isInvalid_iff, hEq.levelViable_iff, hEq.mem_childrenIndex_iff]

theorem exists_filterSpec (fuel : Nat) (r : Root) : ∃ viable kept, ∀ s,
      FilterSpec store viable kept s (filterBlockTree store fuel r s) ∧
      FilterSpec x viable kept s (filterBlockTree x fuel r s) := by
  induction fuel generalizing r with
  | zero =>
    refine ⟨False, fun _ => False, ?_⟩
    simp [FilterSpec, filterBlockTree]
  | succ fuel ih =>
    choose viable kept hSpec using ih
    refine ⟨LevelViable store (childrenIndex store.blocks r) viable r,
        LevelKept store (childrenIndex store.blocks r) viable kept r, fun s =>
        ⟨?_, ?_⟩⟩
    · exact filterSpec_filterLevel (fun c _ blks => (hSpec c blks).1) r s
    · have hLevel := filterSpec_filterLevel (fun c (_ : c ∈
        childrenIndex x.blocks r) blks => (hSpec c blks).2) r s
      rw [FilterSpec, hEq.levelViable_iff] at hLevel
      simp only [hEq.levelKept_iff] at hLevel
      exact hLevel

theorem lookup_filtered_eq (r : Root) :
    (getFilteredBlockTree x).lookup r = (getFilteredBlockTree store).lookup r := by
  unfold getFilteredBlockTree
  rw [hEq.effectiveBase_eq, HashTable.length_keys_congr hEq.blocks]
  rcases hEq.exists_filterSpec (store.blocks.keys.length + 1) (effectiveBase store) with
    ⟨viable, kept, hSpec⟩
  rcases hSpec ∅ with ⟨hStore, hx⟩
  by_cases hKept : kept r
  · rw [(hStore.2 r).1 hKept, (hx.2 r).1 hKept, hEq.blocks]
  · rw [(hStore.2 r).2 hKept, (hx.2 r).2 hKept]

theorem nextHead_eq (head : Root) : nextHead x head = nextHead store head := by
  have hChildren : ∀ c, c ∈ childrenIndex (getFilteredBlockTree x) head ↔ c ∈
      childrenIndex (getFilteredBlockTree store) head := by
    intro c
    rw [ForkChoice.mem_childrenIndex_iff, ForkChoice.mem_childrenIndex_iff, parentOf, parentOf,
      hEq.lookup_filtered_eq]
  unfold nextHead
  rw [HeadSearch.heaviest_congr hChildren]
  unfold heaviest
  simp only [hEq.getWeight_eq]

theorem getHead_eq : getHead x = getHead store := by
  rw [getHead_eq_follow, getHead_eq_follow, hEq.effectiveBase_eq, funext hEq.nextHead_eq,
    HashTable.length_keys_congr hEq.blocks]

end

end Pharos.ForkChoice.SameContents

----
-- The Boost
----

namespace Pharos.ForkChoice

section

open BeaconSpec

variable {S : Type} [BeaconSpec S]

def TakesBoost (store : Store S) (root : Root) : Prop :=
  store.blockTimeliness.lookup root = some true ∧ store.proposerBoostRoot = defaultRoot ∧
    root ≠ defaultRoot ∧
    ∃ headState, store.blockStates.lookup (getHead store) = some headState ∧ ∃ advanced,
      processSlotsFork headState (getCurrentSlot store) = .ok advanced ∧
      ∃ block, store.blocks.lookup root = some block ∧
      block.proposerIndex = getBeaconProposerIndex advanced

theorem SameContents.takesBoost_iff {store x : Store S} (hEq : SameContents store x)
    (r : Root) : TakesBoost x r ↔ TakesBoost store r := by
  unfold TakesBoost
  rw [hEq.getHead_eq]
  simp only [hEq.blockTimeliness, hEq.proposerBoostRoot,
    hEq.blockStates, hEq.getCurrentSlot_eq, hEq.blocks]

theorem proposerBoostRoot_stays_iff (store : Store S) (r : Root) :
    (updateProposerBoostRoot store r).proposerBoostRoot = store.proposerBoostRoot ↔
      ¬ TakesBoost store r := by
  unfold updateProposerBoostRoot TakesBoost
  by_cases hTimely : store.blockTimeliness.lookup r = some true
  · by_cases hFst : store.proposerBoostRoot = defaultRoot
    · cases hHead : store.blockStates.lookup (getHead store) with
      | none => simp [hTimely, hFst]
      | some headState =>
        cases hAdvance : processSlotsFork headState (getCurrentSlot store) with
        | error src => simp [hTimely, hFst, hAdvance]
        | ok advanced =>
          cases hBlk : store.blocks.lookup r with
          | none => simp [hTimely, hFst, hAdvance]
          | some blk =>
            by_cases hProposer : blk.proposerIndex = getBeaconProposerIndex advanced
            · simp [hTimely, hFst, hAdvance, hProposer]
            · simp [hTimely, hFst, hAdvance, hProposer]
    · simp [hFst]
  · have hLate : (store.blockTimeliness.lookup r).getD false = false := by
      cases hLookup : store.blockTimeliness.lookup r with
      | none => rfl
      | some timely =>
        cases timely with
        | false => rfl
        | true => exact absurd hLookup hTimely
    simp [hTimely, hLate]

----
-- Accepting a Block
----

def isTimelyAt (store : Store S) (slot : Slot) (now : Nat) : Bool :=
  getCurrentSlot { store with time := now } = slot ∧
    timeIntoCurrentSlotMs { store with time := now } <
      getSlotComponentDurationMs S (attestationDueBps S)

def recordBlock (store : Store S) (block : BeaconBlock) (postState : S) (now : Nat) :
    Store S :=
  let blockRoot := treeHashRoot S block
  { store with
    blocks := store.blocks.insert blockRoot block
    blockStates := store.blockStates.insert blockRoot postState
    payloadStatuses :=
      if blockRoot ∈ store.payloadStatuses then
        store.payloadStatuses
      else
        store.payloadStatuses.insert blockRoot .notValidated
    blockTimeliness := store.blockTimeliness.insert blockRoot (isTimelyAt store block.slot now) }

variable {store : Store S} {block : BeaconBlock} {postState : S} {now : Nat}

theorem acceptBlock_eq : acceptBlock store block postState now = updateCheckpoints
        (updateProposerBoostRoot (recordBlock store block postState now) (treeHashRoot S block))
        (currentJustifiedCheckpoint postState)
        (BeaconSpec.finalizedCheckpoint postState) := by
  have hSlot :
      ∀ inserted : Store S, inserted.blocks = store.blocks.insert (treeHashRoot S block)
        block → blockSlotOrZero inserted (treeHashRoot S block) = block.slot := by
    intro inserted hBlks
    rw [blockSlotOrZero, hBlks, AList.lookup_insert]
    rfl
  unfold acceptBlock recordBlock Store.markPayloadStatusIfAbsent
  dsimp only [insertBlock]
  by_cases hSaid : treeHashRoot S block ∈ store.payloadStatuses
  · simp only [hSaid, if_true, recordBlockTimeliness]
    rw [hSlot _ rfl]
    rfl
  · simp only [hSaid, if_false, recordBlockTimeliness, Store.markPayloadStatus]
    rw [hSlot _ rfl]
    rfl

/- Everything that accepting a block writes is there. -/
structure HasBlock (store : Store S) (block : BeaconBlock) (postState : S)
    (now : Nat) : Prop where
  stored : store.blocks.lookup (treeHashRoot S block) = some block
  withState : store.blockStates.lookup (treeHashRoot S block) = some postState
  verdict : treeHashRoot S block ∈ store.payloadStatuses
  timeliness :
    store.blockTimeliness.lookup (treeHashRoot S block) = some (isTimelyAt store block.slot now)
  boost : ¬ TakesBoost store (treeHashRoot S block)
  justified : ¬ (currentJustifiedCheckpoint postState).epoch > store.justifiedCheckpoint.epoch
  finalized : ¬ (BeaconSpec.finalizedCheckpoint postState).epoch > store.finalizedCheckpoint.epoch

theorem sameContents_recordBlock
    (hBlk : store.blocks.lookup (treeHashRoot S block) = some block)
    (hs : store.blockStates.lookup (treeHashRoot S block) = some postState)
    (hSaid : treeHashRoot S block ∈ store.payloadStatuses)
    (hTimely : store.blockTimeliness.lookup (treeHashRoot S block) =
      some (isTimelyAt store block.slot now)) :
    SameContents store (recordBlock store block postState now) := by
  constructor <;> try rfl
  · exact HashTable.lookup_insert_self hBlk
  · exact HashTable.lookup_insert_self hs
  · exact HashTable.lookup_insert_self hTimely
  · exact fun _ => rfl
  · exact fun _ => rfl
  · exact fun _ => rfl
  · intro r
    simp only [recordBlock, hSaid, if_true]

theorem sameContents_acceptBlock_iff : SameContents store (acceptBlock store block postState now) ↔
      HasBlock store block postState now := by
  rw [acceptBlock_eq, updateProposerBoostRoot_eq]
  constructor
  · intro hEq
    have hBlk := hEq.blocks (treeHashRoot S block)
    have hs := hEq.blockStates (treeHashRoot S block)
    have hTimely := hEq.blockTimeliness (treeHashRoot S block)
    have hSaid := hEq.payloadStatuses (treeHashRoot S block)
    simp only [updateCheckpoints, recordBlock, AList.lookup_insert] at hBlk hs hTimely hSaid
    have hMarked : treeHashRoot S block ∈ store.payloadStatuses := by
      by_contra hAbsent
      rw [if_neg hAbsent, AList.lookup_insert, AList.lookup_eq_none.mpr hAbsent] at hSaid
      cases hSaid
    have hRecorded : SameContents store (recordBlock store block postState now) :=
        sameContents_recordBlock hBlk.symm hs.symm hMarked hTimely.symm
    refine ⟨hBlk.symm, hs.symm, hMarked, hTimely.symm, ?_, ?_, ?_⟩
    · rw [← hRecorded.takesBoost_iff, ← proposerBoostRoot_stays_iff]
      exact hEq.proposerBoostRoot
    · exact takeOver_eq_iff.mp hEq.justifiedCheckpoint
    · exact takeOver_eq_iff.mp hEq.finalizedCheckpoint
  · intro hHas
    have hRecorded : SameContents store (recordBlock store block postState now) :=
        sameContents_recordBlock hHas.stored hHas.withState hHas.verdict hHas.timeliness
    have hBoost : (updateProposerBoostRoot (recordBlock store block postState now)
        (treeHashRoot S block)).proposerBoostRoot = store.proposerBoostRoot :=
        (proposerBoostRoot_stays_iff _ _).mpr ((hRecorded.takesBoost_iff _).not.mpr hHas.boost)
    exact
      { hRecorded with
        proposerBoostRoot := hBoost
        justifiedCheckpoint := takeOver_eq_iff.mpr hHas.justified
        finalizedCheckpoint := takeOver_eq_iff.mpr hHas.finalized }

end

----
-- Calls that Fail
----

section

open BeaconSpec

variable {S : Type} [BeaconSpec S]

/-
  A call of `onBlock` that fails leaves the store as it was: a check refuses the block before it is
  added, or the tip can be pulled up and the call does not fail, or there is nothing to add.
-/
def LeavesStore (store : Store S) (block : BeaconBlock) (postState : S) (now : Nat)
    (powProvider : PowBlockProvider) : Prop :=
  (∃ refusal, validateOnBlock store block powProvider = .error refusal) ∨
    (∃ pulledUp, processJustificationAndFinalization postState = .ok pulledUp) ∨
    HasBlock store block postState now

variable {store : Store S} {signedBlock : SignedBeaconBlock}
variable {postState : S} {now : Nat} {powProvider : PowBlockProvider}

/- Exactly when a call that fails leaves every field of the store as it was. -/
theorem onBlock_fails_unchanged_iff (store : Store S) (signedBlock : SignedBeaconBlock)
    (postState : S) (now : Nat) (powProvider : PowBlockProvider) :
    (∀ refusal,
      (onBlock store signedBlock postState now powProvider).2 = .error refusal →
        SameContents store (onBlock store signedBlock postState now powProvider).1) ↔
      LeavesStore store signedBlock.message postState now powProvider := by
  unfold LeavesStore
  cases hValid : validateOnBlock store signedBlock.message powProvider with
  | error refusal =>
    refine iff_of_true ?_ (.inl ⟨refusal, rfl⟩)
    intro _ _
    have hStay : (onBlock store signedBlock postState now powProvider).1 = store := by
      unfold onBlock
      simp only [hValid]
    rw [hStay]
    exact SameContents.refl store
  | ok done =>
    cases hPull : processJustificationAndFinalization postState with
    | ok pulledUp =>
      refine iff_of_true ?_ (.inr (.inl ⟨pulledUp, rfl⟩))
      intro refusal hFails
      rw [onBlock_of_pullUp_ok hValid hPull] at hFails
      cases hFails
    | error src =>
      rw [onBlock_of_pullUp_error hValid hPull]
      simp only [reduceCtorEq, exists_false, false_or, ← sameContents_acceptBlock_iff]
      constructor
      · intro hEq
        exact hEq _ rfl
      · intro hEq _ _
        exact hEq

end

----
-- A Single Small Validator
----

open Stf.Justification

/- A chain, with what its votes have justified. -/
structure WeighedState where
  chain : Sample.ChainState
  justification : JustificationState
deriving DecidableEq

def weighedPreset : EpochPreset where
  slotsPerEpoch := 4
  slotsPerHistoricalRoot := 8
  slotsPerEpoch_pos := Nat.succ_pos 3

def noVotes : TargetBalances :=
  ⟨1, 1, 1⟩

open Sample

def advanceSlot (state : WeighedState) : WeighedState :=
  let root := (latestBlock state.chain).2
  { chain := { state.chain with slot := state.chain.slot + 1 }
    justification :=
      { state.justification with
        slot := state.chain.slot + 1
        blockRoots := state.justification.blockRoots.set (state.chain.slot % 8) root } }

def weighVotes (state : WeighedState) : Except Pharos.EpochProcessingError WeighedState :=
  match processJustificationAndFinalization weighedPreset .altair state.justification noVotes with
  | .error .blockRootUnavailable => .error (.failed "block root unavailable for epoch")
  | .ok justification => .ok { state with justification }

/- The only validator has the balance of one increment. -/
instance : BeaconSpec WeighedState where
  slotsPerEpoch := 4
  slotDurationMs := 12000
  attestationDueBps := 3333
  basisPoints := 10000
  effectiveBalanceIncrement := 1
  treeHashRoot := treeHashRoot
  stateTreeHashRoot state :=
    (latestBlock state.chain).2 + state.chain.slot
  stateSlot state := state.chain.slot
  latestBlock state := latestBlock state.chain
  genesisTime _ := 0
  currentJustifiedCheckpoint state :=
    state.justification.currentJustifiedCheckpoint
  finalizedCheckpoint state :=
    state.justification.finalizedCheckpoint
  validators _ := [⟨1, false, 0, 100⟩]
  isMergeTransitionBlock _ _ := false
  getBeaconProposerIndex _ := 0
  getAttestingIndices _ _ := []
  isValidIndexedAttestation _ _ := true
  processSlot state := .ok (advanceSlot state)
  processBlock _ state signedBlock :=
    match processBlock state.chain signedBlock.message with
    | .error source => .error source
    | .ok chain => .ok { state with chain }
  processJustificationAndFinalization := weighVotes

def weighedAnchor : WeighedState where
  chain := anchorState
  justification :=
    { slot := 0
      blockRoots := List.replicate 8 anchorRoot
      justificationBits := Vector.replicate 4 false
      previousJustifiedCheckpoint := ⟨0, anchorRoot⟩
      currentJustifiedCheckpoint := ⟨0, anchorRoot⟩
      finalizedCheckpoint := ⟨0, anchorRoot⟩ }

def epochStartBlock : BeaconBlock :=
  child anchorRoot 8 0 []

def epochStartRoot : Root :=
  treeHashRoot epochStartBlock

def epochStartState : WeighedState :=
  let advanced := advanceSlot^[8] weighedAnchor
  { advanced with chain := postState anchorState epochStartBlock }

def epochStartStore : Store WeighedState :=
  onTick (getForkchoiceStore weighedAnchor anchorBlock) 96

/-
  The state of the block is that of the state transition. The votes of the epoch that has just begun
  justify it, as no vote weighs as much as the validator, but it has no block root yet. The call
  fails, and the block stays in the store.
-/
theorem onBlock_fails_and_keeps_block :
    stateTransition weighedAnchor (signed epochStartBlock) true = .ok epochStartState ∧
    (onBlock epochStartStore (signed epochStartBlock) epochStartState 96 fun _ => .ok none).2 =
      .error (.epochProcessing (.failed "block root unavailable for epoch")) ∧
    epochStartStore.blocks.lookup epochStartRoot = none ∧
    (onBlock epochStartStore (signed epochStartBlock) epochStartState 96
        fun _ => .ok none).1.blocks.lookup epochStartRoot =
      some epochStartBlock := by
  refine ⟨?_, ?_, ?_, ?_⟩
  · decide +kernel
  · decide +kernel
  · decide +kernel
  · decide +kernel

end Pharos.ForkChoice
