import Pharos.ForkChoice.Optimistic
import Pharos.Lib.Run
import Pharos.Sample

/-
  This file implements the driver of the execution engine: it records what the execution layer
  answers about payloads, and publishes a new head when an answer moves it.

  Main theorems:
  * `valid_reaches_ancestors_iff`
-/

----
-- Heads for the Execution Layer
----

namespace Pharos.Node

open ForkChoice Forest
open BeaconSpec

variable {S : Type} [BeaconSpec S]

/- A head together with the hashes of its payloads. -/
structure HeadChange where
  headRoot : Root
  headSlot : Slot
  headBlockHash : Hash256
  safeBlockHash : Hash256
  finalizedBlockHash : Hash256
deriving DecidableEq, Repr

/- The payload at the justified epoch of the head's chain. -/
def computeSafeBlockHash (store : Store S) : Hash256 :=
  let head := getHead store
  let safeRoot := getCheckpointBlock store head store.justifiedCheckpoint.epoch
  executionBlockHashAtRoot store (latestVerifiedAncestor store safeRoot)

def computeFinalizedBlockHash (store : Store S) : Hash256 :=
  executionBlockHashAtRoot store (latestVerifiedAncestor store store.finalizedCheckpoint.root)

/- The store, and the head published last. -/
structure EngineDriver (S : Type) where
  store : Store S
  head : Option HeadChange

variable (driver : EngineDriver S)

def maybeEmitHeadChange (newHead prevHead : Root) : EngineDriver S :=
  if newHead = prevHead then
    driver
  else
    let store := driver.store
    { driver with
      head := some
        { headRoot := newHead
          headSlot := blockSlotOrZero store newHead
          headBlockHash := executionBlockHashAtRoot store newHead
          safeBlockHash := computeSafeBlockHash store
          finalizedBlockHash := computeFinalizedBlockHash store } }

----
-- Answers of the Execution Layer
----

inductive PayloadStatusStatus where
  | valid
  | invalid
  | invalidBlockHash
  | syncing
  | accepted
deriving DecidableEq, Repr

/- An answer; a hash that does not parse counts as none. -/
structure PayloadStatusV1 where
  status : PayloadStatusStatus
  latestValidHash : Option Hash256
deriving DecidableEq, Repr

/- A call that brought no answer. -/
inductive EngineCallError where
  | join (reason : String)
  | engine (reason : String)
deriving DecidableEq, Repr

abbrev EngineAnswer :=
  Except EngineCallError PayloadStatusV1

/-
  The block is the first with a payload, judged by the state of its parent, and by the blocks when
  there is none.
-/
def isMergeTransition (store : Store S) (root : Root) : Bool :=
  match store.blocks.lookup root with
  | none => false
  | some block =>
  match store.blockStates.lookup block.parentRoot with
  | some parentState => isMergeTransitionBlock parentState block
  | none =>
    let parentIsExec :=
      ((store.blocks.lookup block.parentRoot).map blockIsExecutionEnabled).getD false
    blockIsExecutionEnabled block && !parentIsExec

/- Check the terminal block again; the worker may be lost. -/
def revalidateMergeBlock (store : Store S) (root : Root)
    (powProvider : Option PowBlockProvider) : Option (Except ValidateMergeBlockError Unit) :=
  let block := store.blocks.lookup root
  let payloadParentHash := (block.bind BeaconBlock.executionParentHash).getD defaultHash
  let blockSlot := (block.map BeaconBlock.slot).getD 0
  powProvider.map fun provider =>
    validateMergeBlock payloadParentHash (computeEpochAtSlot S blockSlot) store.terminalBlockHash
      store.terminalBlockHashActivationEpoch
      store.terminalTotalDifficulty provider

def markValid (root : Root) : EngineDriver S :=
  { driver with store := promoteValidAncestors (driver.store.markPayloadStatus root .valid) root }

def invalidate (root : Root) (latestValidHash : Option Hash256)
    (prevHead : Root) : EngineDriver S :=
  let store := applyInvalidPayload driver.store root latestValidHash
  maybeEmitHeadChange { driver with store } (getHead store) prevHead

def publishedHead : Root :=
  (driver.head.map HeadChange.headRoot).getD defaultRoot

def onNewPayload (blockRoot : Root) (answer : EngineAnswer)
    (powProvider : Option PowBlockProvider) : EngineDriver S :=
  let undecided : EngineDriver S :=
    { driver with store := driver.store.markPayloadStatus blockRoot .notValidated }
  match answer with
  | .error _ => undecided
  | .ok ⟨.valid, _⟩ =>
    if isMergeTransition driver.store blockRoot then
      match revalidateMergeBlock driver.store blockRoot powProvider with
      | none => driver
      | some (.ok ()) => markValid driver blockRoot
      -- The terminal block is still unknown.
      | some (.error (.powBlockNotFound _)) => driver
      | some (.error _) => invalidate driver blockRoot none (publishedHead driver)
    else
      markValid driver blockRoot
  | .ok ⟨.invalid, latestValidHash⟩
  | .ok ⟨.invalidBlockHash, latestValidHash⟩ =>
    invalidate driver blockRoot latestValidHash (publishedHead driver)
  | .ok ⟨.syncing, _⟩
  | .ok ⟨.accepted, _⟩ => undecided

/-
  Record what `engine_forkchoiceUpdated` answered for a head. Only a rejection says something about
  a payload.
-/
def onForkchoiceUpdated (change : HeadChange) (answer : EngineAnswer) : EngineDriver S :=
  match answer with
  | .ok ⟨.invalid, latestValidHash⟩
  | .ok ⟨.invalidBlockHash, latestValidHash⟩ =>
    invalidate driver change.headRoot latestValidHash change.headRoot
  | .ok ⟨.valid, _⟩
  | .ok ⟨.syncing, _⟩
  | .ok ⟨.accepted, _⟩
  | .error _ => driver

----
-- What an Answer Does to the Store
----

section

variable {driver : EngineDriver S}

@[simp] theorem store_maybeEmitHeadChange (newHead prevHead : Root) :
    (maybeEmitHeadChange driver newHead prevHead).store = driver.store := by
  unfold maybeEmitHeadChange
  split
  · rfl
  · rfl

@[simp] theorem store_invalidate (r prevHead : Root) (valid : Option Hash256) :
    (invalidate driver r valid prevHead).store = applyInvalidPayload driver.store r valid := by
  unfold invalidate
  rw [store_maybeEmitHeadChange]

omit [BeaconSpec S] in
/- The block is valid already when the promotion starts, so that no ancestor is promoted. -/
@[simp] theorem store_markValid (r : Root) :
    (markValid driver r).store = driver.store.markPayloadStatus r .valid := by
  simp [markValid, promoteValidAncestors, promoteFrom, lookup_mark]

def openVerdict (store : Store S) (root : Root) (answer : EngineAnswer)
    (powProvider : Option PowBlockProvider) : Option PayloadStatus :=
  match answer with
  | .error _ => some .notValidated
  | .ok ⟨.valid, _⟩ =>
    if isMergeTransition store root then
      match revalidateMergeBlock store root powProvider with
      | some (.ok ()) => some .valid
      | _ => none
    else
      some .valid
  | .ok ⟨.invalid, _⟩
  | .ok ⟨.invalidBlockHash, _⟩ => none
  | .ok ⟨.syncing, _⟩
  | .ok ⟨.accepted, _⟩ => some .notValidated

variable (driver : EngineDriver S)

theorem store_onNewPayload (r : Root) (ans : EngineAnswer) (pow : Option PowBlockProvider) :
    let s' := (onNewPayload driver r ans pow).store
    let verdict := openVerdict driver.store r ans pow
    (∃ status, verdict = some status ∧ status ≠ .invalid ∧ s' =
        driver.store.markPayloadStatus r status) ∨ verdict = none ∧
        (s' = driver.store ∨ ∃ valid, s' =
        applyInvalidPayload driver.store r valid) := by
  have hMarked : (markValid driver r).store = driver.store.markPayloadStatus r .valid :=
      store_markValid r
  unfold onNewPayload openVerdict
  split
  · exact .inl ⟨.notValidated, rfl, by simp, rfl⟩
  · by_cases hMerge : isMergeTransition driver.store r = true
    · rw [if_pos hMerge, if_pos hMerge]
      cases revalidateMergeBlock driver.store r pow with
      | none => exact .inr ⟨rfl, .inl rfl⟩
      | some checked =>
        cases checked with
        | ok done => exact .inl ⟨.valid, rfl, by simp, hMarked⟩
        | error src =>
          refine .inr ⟨rfl, ?_⟩
          split
          · exact .inl rfl
          · rename_i hNone
            cases hNone
          · exact .inl rfl
          · exact .inr ⟨none, store_invalidate _ _ _⟩
    · rw [if_neg hMerge, if_neg hMerge]
      exact .inl ⟨.valid, rfl, by simp, hMarked⟩
  · exact .inr ⟨rfl, .inr ⟨_, store_invalidate _ _ _⟩⟩
  · exact .inr ⟨rfl, .inr ⟨_, store_invalidate _ _ _⟩⟩
  · exact .inl ⟨.notValidated, rfl, by simp, rfl⟩
  · exact .inl ⟨.notValidated, rfl, by simp, rfl⟩

theorem store_onForkchoiceUpdated (change : HeadChange) (ans : EngineAnswer) :
    let s' := (onForkchoiceUpdated driver change ans).store
    s' = driver.store ∨ ∃ valid, s' = applyInvalidPayload driver.store
      change.headRoot valid := by
  unfold onForkchoiceUpdated
  split
  · exact .inr ⟨_, store_invalidate _ _ _⟩
  · exact .inr ⟨_, store_invalidate _ _ _⟩
  · exact .inl rfl
  · exact .inl rfl
  · exact .inl rfl
  · exact .inl rfl

end

----
-- Runs of the Driver
----

/- What happens to the store while the driver runs. -/
inductive Action (S : Type) where
  | tick (time : Nat)
  | block (signedBlock : SignedBeaconBlock) (postState : S) (now : Nat)
      (powProvider : PowBlockProvider)
  | newPayload (blockRoot : Root) (answer : EngineAnswer) (powProvider : Option PowBlockProvider)
  | forkchoiceUpdated (change : HeadChange) (answer : EngineAnswer)

def start (anchorState : S) (anchorBlock : BeaconBlock) : EngineDriver S where
  store := getForkchoiceStore anchorState anchorBlock
  head := none

variable (driver : EngineDriver S)

def step : Action S → Except ForkChoiceError (EngineDriver S)
| .tick time =>
  .ok { driver with store := onTick driver.store time }
| .block signedBlock postState now powProvider =>
  match onBlock driver.store signedBlock postState now powProvider with
  | (after, .ok ()) => .ok { driver with store := after }
  | (_, .error refusal) => .error refusal
| .newPayload blockRoot answer powProvider =>
  .ok (onNewPayload driver blockRoot answer powProvider)
| .forkchoiceUpdated change answer =>
  .ok (onForkchoiceUpdated driver change answer)

def Action.block? : Action S → Option BeaconBlock
| .block signedBlock _ _ _ => some signedBlock.message
| _ => none

theorem step_block_ok_iff {driver s' : EngineDriver S} {signed : SignedBeaconBlock}
    {post : S} {now : Nat} {pow : PowBlockProvider} :
    step driver (.block signed post now pow) = .ok s' ↔
      (onBlock driver.store signed post now pow).2 = .ok () ∧
        { driver with
          store := (onBlock driver.store signed post now pow).1 } = s' := by
  unfold step
  dsimp only
  cases onBlock driver.store signed post now pow with
  | mk added res =>
    cases res with
    | error e | ok done => simp

----
-- Valid Payloads
----

/- A block and all its known ancestors are verified. -/
structure ChainVerified (store : Store S) (root : Root) : Prop where
  decided : ∀ ancestor block, Ancestor (parentOf store.blocks) ancestor root →
    store.blocks.lookup ancestor = some block →
    store.payloadStatuses.lookup ancestor = some .valid ∨ blockIsExecutionEnabled block = false
  notOptimistic : ∀ ancestor,
    Ancestor (parentOf store.blocks) ancestor root → isOptimistic store ancestor = false
  latest : latestVerifiedAncestor store root = root

omit [BeaconSpec S] in
/- The verdicts alone decide. -/
theorem chainVerified_iff {st : Store S} {r : Root} : ChainVerified st r ↔
      ∀ anc blk, Ancestor (parentOf st.blocks) anc r →
        st.blocks.lookup anc = some blk →
          st.payloadStatuses.lookup anc = some .valid ∨ blockIsExecutionEnabled blk = false := by
  constructor
  · intro hVerified
    exact hVerified.decided
  · intro hDecided
    have hNotOptimistic : ∀ anc, Ancestor (parentOf st.blocks) anc r →
        isOptimistic st anc = false := by
      intro anc hAnc
      cases hBlk : st.blocks.lookup anc with
      | none => simp [isOptimistic, hBlk]
      | some blk =>
        exact (isOptimistic_eq_false_iff hBlk).mpr (hDecided anc blk hAnc hBlk)
    exact ⟨hDecided, hNotOptimistic, latestVerifiedAncestor_of_verified
      (hNotOptimistic r (Ancestor.refl r))⟩

/-
  After a valid payload the chain of its block is verified exactly when the proper ancestors were so
  before: the answer reaches the block alone.
-/
theorem valid_reaches_ancestors_iff (driver : EngineDriver S) {root : Root}
    (hNotMerge : isMergeTransition driver.store root = false) (latestValidHash : Option Hash256)
    (powProvider : Option PowBlockProvider) :
    ChainVerified (onNewPayload driver root (.ok ⟨.valid, latestValidHash⟩) powProvider).store
        root ↔
      ∀ ancestor block, Ancestor (parentOf driver.store.blocks) ancestor root → ancestor ≠ root →
        driver.store.blocks.lookup ancestor = some block →
          driver.store.payloadStatuses.lookup ancestor = some .valid ∨
            blockIsExecutionEnabled block = false := by
  have hStore : (onNewPayload driver root (.ok ⟨.valid, latestValidHash⟩) powProvider).store =
      driver.store.markPayloadStatus root .valid := by
    simp [onNewPayload, hNotMerge]
  rw [hStore, chainVerified_iff]
  simp only [blocks_mark, lookup_mark]
  constructor
  · intro hDecided ancestor block hAnc hProper hBlk
    have hHere := hDecided ancestor block hAnc hBlk
    rw [if_neg hProper] at hHere
    exact hHere
  · intro hPre ancestor block hAnc hBlk
    by_cases hEq : ancestor = root
    · rw [if_pos hEq]
      exact .inl rfl
    · rw [if_neg hEq]
      exact hPre ancestor block hAnc hEq hBlk

----
-- Two Blocks in a Row
----

def noPowBlocks : PowBlockProvider :=
  fun _ => .ok none

open Sample

def firstBlock : BeaconBlock :=
  child anchorRoot 1 1 []

def firstRoot : Root :=
  treeHashRoot firstBlock

def firstState : ChainState :=
  postState anchorState firstBlock

def secondBlock : BeaconBlock :=
  child firstRoot 2 1 []

def secondRoot : Root :=
  treeHashRoot secondBlock

def addFirst : Action ChainState :=
  .block (signed firstBlock) firstState 40 noPowBlocks

def addSecond : Action ChainState :=
  .block (signed secondBlock) (postState firstState secondBlock) 40 noPowBlocks

def reachedBy (actions : List (Action ChainState)) : EngineDriver ChainState :=
  Run.final step (start anchorState anchorBlock) (.tick 40 :: actions)

/- A block on the anchor is verified by a valid answer. -/
theorem valid_reaches_ancestors_firstBlock :
    isMergeTransition (reachedBy [addFirst]).store firstRoot = false ∧ ChainVerified
      (onNewPayload (reachedBy [addFirst]) firstRoot
      (.ok ⟨.valid, none⟩) none).store firstRoot := by
  refine ⟨by decide, ?_⟩
  refine (valid_reaches_ancestors_iff (reachedBy [addFirst]) (by decide) none none).mpr ?_
  intro anc blk hAnc hProper hBlk
  rcases hAnc.cases_child with hEq | ⟨up, hUp, hxs⟩
  · exact absurd hEq hProper
  · have hAnchor : up = anchorRoot := Option.some.inj (hUp.symm.trans (by decide))
    rw [hAnchor] at hxs
    rcases hxs.cases_child with hEq | ⟨above, hAbove, hTop⟩
    · rw [hEq]
      exact .inl (by decide)
    · have hDefault : above = defaultRoot := Option.some.inj (hAbove.symm.trans (by decide))
      have hUnknown : (reachedBy [addFirst]).store.blocks.lookup defaultRoot = none := by
        decide
      rw [hDefault] at hTop
      rcases hTop.cases_child with hEq | ⟨beyond, hBeyond, _⟩
      · rw [hEq, hUnknown] at hBlk
        cases hBlk
      · cases hBeyond

/- The parent of a valid block stays optimistic. -/
theorem valid_leaves_parent_optimistic :
    let before := reachedBy [addFirst, addSecond]
    let s' := onNewPayload before secondRoot (.ok ⟨.valid, none⟩) none
    (secondRoot ∈ before.store.blocks ∧ isMergeTransition before.store secondRoot = false ∧
        ∀ r ∈ before.store.payloadStatuses.keys, ¬before.store.IsInvalid r) ∧
      isOptimistic s'.store firstRoot = true ∧
      ¬ChainVerified s'.store secondRoot := by
  refine ⟨by decide, by decide, ?_⟩
  intro hVerified
  have hFst := hVerified.notOptimistic firstRoot (Ancestor.of_parent (by decide))
  exact absurd hFst (by decide)

end Pharos.Node
