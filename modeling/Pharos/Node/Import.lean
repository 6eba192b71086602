import Pharos.Node.EngineDriver
import Pharos.Storage.Db

/-
  This file implements the import of a block: the checks and the state transition, the fork-choice
  handlers, and the batch that is written to the database.
-/

----
-- Inputs and Results
----

namespace Pharos.Node

open BeaconSpec ForkChoice Storage

variable {S : Type} [BeaconSpec S]

inductive DataAvailabilityVerdict where
  | available
  | notAvailable
  | irrelevant
deriving DecidableEq, Repr

/-
  What the engine said about the payload during the state transition, which fails on an invalid
  payload.
-/
inductive PayloadVerificationStatus where
  | valid
  | notValidated
deriving DecidableEq, Repr

/-
  What an import learns from outside. The second verdict on the data is the one after the engine's
  blobs were stored, and is absent when the engine does not have them all.
-/
structure ImportInputs where
  dataVerdict : DataAvailabilityVerdict
  refetchedVerdict : Option DataAvailabilityVerdict
  payloadStatus : Option PayloadVerificationStatus
  validateResult : Bool
  now : Nat
  powProvider : PowBlockProvider

inductive ImportError where
  | missingParentState
  | stateTransition (source : StateTransitionError)
  | forkChoice (source : ForkChoiceError)
  | headMissing (root : Root)
  | dataNotAvailable
  | notOptimisticCandidate (blockSlot currentSlot : Slot)
  | alreadyImported (root : Root)
deriving DecidableEq, Repr

structure ImportOutcome (S : Type) where
  headChange : HeadChange
  blockRoot : Root
  postState : S

/- The store in memory and the database. -/
structure NodeState (S : Type) where
  store : Store S
  db : Db S

----
-- Import
----

section

def isDataAvailable (inputs : ImportInputs) : Bool :=
  match inputs.dataVerdict with
  | .available => true
  | .irrelevant => true
  | .notAvailable =>
    match inputs.refetchedVerdict with
    | none => false
    | some verdict => verdict ≠ .notAvailable

variable (store : Store S)

def optimisticGate (block : BeaconBlock)
    (payloadStatus : Option PayloadVerificationStatus) : Except ImportError Unit :=
  if payloadStatus = some .notValidated then
    let currentSlot := getCurrentSlot store
    let candidate := isOptimisticCandidateBlock store currentSlot block.parentRoot block.slot
    if block.slot ≤ currentSlot ∧ candidate = false then
      .error (.notOptimisticCandidate block.slot currentSlot)
    else
      .ok ()
  else
    .ok ()

section

variable (signedBlock : SignedBeaconBlock)

def prepareImport (inputs : ImportInputs) : Except ImportError S :=
  let block := signedBlock.message
  match store.blockStates.lookup block.parentRoot with
  | none => .error .missingParentState
  | some preState =>
    if treeHashRoot S block ∈ store.blocks then
      .error (.alreadyImported (treeHashRoot S block))
    else if isDataAvailable inputs = false then
      .error .dataNotAvailable
    else
      match stateTransition preState signedBlock inputs.validateResult with
      | .error source => .error (.stateTransition source)
      | .ok postState =>
        match optimisticGate store block inputs.payloadStatus with
        | .error refusal => .error refusal
        | .ok () => .ok postState

/- Move the clock forward, by at most one slot's work. -/
def nudgeClock (now : Nat) : Store S :=
  if now > store.time then onTickPerSlot store now else store

def announceHead : Except ImportError HeadChange :=
  let headRoot := getHead store
  match store.blocks.lookup headRoot with
  | none => .error (.headMissing headRoot)
  | some headBlock =>
    .ok
      { headRoot
        headSlot := headBlock.slot
        headBlockHash := headBlock.executionBlockHash.getD defaultHash
        safeBlockHash := computeSafeBlockHash store
        finalizedBlockHash := computeFinalizedBlockHash store }

def forkChoiceSnapshot (headRoot : Root) (blockSlot : Slot) : ForkChoiceSnapshot where
  justifiedCheckpoint := store.justifiedCheckpoint
  finalizedCheckpoint := store.finalizedCheckpoint
  unrealizedJustifiedCheckpoint := store.unrealizedJustifiedCheckpoint
  unrealizedFinalizedCheckpoint := store.unrealizedFinalizedCheckpoint
  proposerBoostRoot := store.proposerBoostRoot
  lastKnownTime := store.time
  genesisTime := store.genesisTime
  headRoot
  headSlot := ((store.blocks.lookup headRoot).map BeaconBlock.slot).getD blockSlot

def persistBatch (postState : S) (headRoot : Root) : BlockTransition S :=
  let block := signedBlock.message
  let blockRoot : Root := treeHashRoot S block
  let decided :=
    store.payloadStatuses.lookup blockRoot = some .valid ∨
      store.payloadStatuses.lookup blockRoot = some .invalid
  { block := some (blockRoot, signedBlock)
    state :=
      if block.slot % slotsPerEpoch S = 0 then some (block.stateRoot, postState) else none
    forkchoice := some (forkChoiceSnapshot store headRoot block.slot)
    slotIndex := some (block.slot, blockRoot)
    payloadStatus :=
      if blockIsExecutionEnabled block ∧ ¬decided then some (blockRoot, .notValidated) else none
    stateSummary := some (blockRoot, ⟨block.slot, block.stateRoot, block.parentRoot⟩)
    metadata :=
      { headStateRoot :=
          if headRoot = blockRoot then some block.stateRoot else none } }

def seedPayloadStatus (block : BeaconBlock) : Store S :=
  if blockIsExecutionEnabled block then
    store.markPayloadStatusIfAbsent (treeHashRoot S block) .notValidated
  else
    store

/-
  Import a block. A failure after the checks can leave the store changed, and the database as it
  was.
-/
def importBlock (node : NodeState S) (signedBlock : SignedBeaconBlock) (inputs : ImportInputs) :
    NodeState S × Except ImportError (ImportOutcome S) :=
  match prepareImport node.store signedBlock inputs with
  | .error refusal => (node, .error refusal)
  | .ok postState =>
  match onBlock (nudgeClock node.store inputs.now) signedBlock
      postState inputs.now inputs.powProvider with
  | (store, .error source) => ({ node with store }, .error (.forkChoice source))
  | (store, .ok ()) =>
  match announceHead store with
  | .error refusal => ({ node with store }, .error refusal)
  | .ok headChange =>
    let seeded := seedPayloadStatus store signedBlock.message
    let batch := persistBatch seeded signedBlock postState headChange.headRoot
    ({ store := seeded, db := node.db.writeBlockTransition batch },
      .ok ⟨headChange, treeHashRoot S signedBlock.message, postState⟩)

----
-- Anchors
----

def anchored (anchorState : S) (anchorBlock : BeaconBlock) (db : Db S) :
    NodeState S where
  store := getForkchoiceStore anchorState anchorBlock
  db := db

/-
  A trusted block and its state, with their roots. Fetching one checks that the block is the latest
  of the state and names the state.
-/
structure CheckpointAnchor (S : Type) [BeaconSpec S] where
  state : S
  stateRoot : Root
  signedBlock : SignedBeaconBlock
  blockRoot : Root
  stateRoot_eq : stateTreeHashRoot state = stateRoot
  header_eq : latestBlock state = (signedBlock.message.slot, blockRoot)
  blockRoot_eq : treeHashRoot S signedBlock.message = blockRoot
  slot_eq : signedBlock.message.slot = stateSlot state
  blockStateRoot_eq : signedBlock.message.stateRoot = stateRoot

/- The anchor counts as finalized at its epoch, and as justified at the first epoch of the chain. -/
def anchorSnapshot (anchor : CheckpointAnchor S) : ForkChoiceSnapshot :=
  let slot : Slot := stateSlot anchor.state
  let finalized : Checkpoint := ⟨computeEpochAtSlot S slot, anchor.blockRoot⟩
  let justified : Checkpoint := ⟨genesisEpoch, anchor.blockRoot⟩
  { justifiedCheckpoint := justified
    finalizedCheckpoint := finalized
    unrealizedJustifiedCheckpoint := justified
    unrealizedFinalizedCheckpoint := finalized
    proposerBoostRoot := defaultRoot
    lastKnownTime := genesisTime anchor.state + slot * (slotDurationMs S / 1000)
    genesisTime := genesisTime anchor.state
    headRoot := anchor.blockRoot
    headSlot := slot }

def applyAnchor (anchor : CheckpointAnchor S) (db : Db S) : Db S :=
  let slot : Slot := stateSlot anchor.state
  db.writeBlockTransition
    { block := some (anchor.blockRoot, anchor.signedBlock)
      state := some (anchor.stateRoot, anchor.state)
      forkchoice := some (anchorSnapshot anchor)
      slotIndex := some (slot, anchor.blockRoot)
      payloadStatus := some (anchor.blockRoot, .valid)
      metadata :=
        { splitSlot := some slot, anchorSlot := some slot } }

----
-- Imports That Succeed
----

/- What the checks before the import establish. -/
structure Prepared (validateResult : Bool) (postState : S) : Prop where
  transition : ∃ preState, store.blockStates.lookup signedBlock.message.parentRoot = some preState ∧
    stateTransition preState signedBlock validateResult = .ok postState
  fresh : treeHashRoot S signedBlock.message ∉ store.blocks

end

variable {st : Store S} {signedBlock : SignedBeaconBlock} {ins : ImportInputs}

theorem prepareImport_ok {postState : S}
    (hOk : prepareImport st signedBlock ins = .ok postState) :
    Prepared st signedBlock ins.validateResult postState ∧ isDataAvailable ins = true := by
  unfold prepareImport at hOk
  dsimp only at hOk
  split at hOk
  · cases hOk
  · rename_i pre hPre
    split at hOk
    · cases hOk
    · rename_i hFresh
      split at hOk
      · cases hOk
      · rename_i hAvail
        split at hOk
        · cases hOk
        · rename_i post hTrans
          split at hOk
          · cases hOk
          · cases hOk
            exact ⟨⟨⟨pre, hPre, hTrans⟩, hFresh⟩, Bool.eq_true_of_not_eq_false hAvail⟩

@[simp] theorem knowledge_nudgeClock (st : Store S) (now : Nat) :
    (nudgeClock st now).knowledge = st.knowledge := by
  unfold nudgeClock
  split
  · exact knowledge_onTickPerSlot now
  · rfl

theorem advance_nudgeClock (st : Store S) (now : Nat) :
    CheckpointsAdvance st (nudgeClock st now) := by
  unfold nudgeClock
  split
  · exact advance_onTickPerSlot now
  · exact CheckpointsAdvance.refl st

/- The verdict has been seeded when the block was added. -/
theorem seedPayloadStatus_eq {blk : BeaconBlock}
    (hIn : treeHashRoot S blk ∈ st.payloadStatuses) :
    seedPayloadStatus st blk = st := by
  unfold seedPayloadStatus Store.markPayloadStatusIfAbsent
  by_cases hLive : blockIsExecutionEnabled blk = true
  · simp only [hLive, hIn, if_true]
  · rw [if_neg hLive]

/- What a successful import leaves behind. -/
structure Imported [BeaconSpec S] (before after : NodeState S)
    (signedBlock : SignedBeaconBlock) (validateResult : Bool) (postState : S) : Prop where
  prepared : Prepared before.store signedBlock validateResult postState
  knowledge : after.store.knowledge = before.store.knowledge.addBlock signedBlock.message postState
  pastFinalized :
    computeStartSlotAtEpoch S before.store.finalizedEpoch < signedBlock.message.slot
  finalizedEpoch : before.store.finalizedEpoch ≤ after.store.finalizedEpoch
  persisted : ∃ headRoot, after.db =
    before.db.writeBlockTransition (persistBatch after.store signedBlock postState headRoot)

variable {outcome : ImportOutcome S}

theorem importBlock_eq_ok {node s' : NodeState S}
    (hOk : importBlock node signedBlock ins = (s', .ok outcome)) :
    prepareImport node.store signedBlock ins = .ok outcome.postState ∧
      onBlock (nudgeClock node.store ins.now) signedBlock
          outcome.postState ins.now ins.powProvider =
        (s'.store, .ok ()) ∧
      announceHead s'.store = .ok outcome.headChange ∧
      s'.db = node.db.writeBlockTransition
        (persistBatch s'.store signedBlock outcome.postState outcome.headChange.headRoot) := by
  unfold importBlock at hOk
  split at hOk
  · exact absurd (congrArg Prod.snd hOk) (by simp)
  · rename_i post hPrep
    split at hOk
    · exact absurd (congrArg Prod.snd hOk) (by simp)
    · rename_i st hAdd
      split at hOk
      · exact absurd (congrArg Prod.snd hOk) (by simp)
      · rename_i change hHead
        have hOn := onBlock_ok (congrArg Prod.snd hAdd)
        rw [hAdd] at hOn
        have hIn : treeHashRoot S signedBlock.message ∈ st.payloadStatuses :=
          HashTable.mem_iff.mpr ⟨_, (statuses_of_add hOn.2 _).trans (if_pos rfl)⟩
        rw [seedPayloadStatus_eq hIn] at hOk
        rcases Prod.mk.inj hOk with ⟨hPost, hOutcome⟩
        rw [← hPost, ← Except.ok.inj hOutcome]
        exact ⟨hPrep, hAdd, hHead, rfl⟩

theorem importBlock_ok {node s' : NodeState S}
    (hOk : importBlock node signedBlock ins = (s', .ok outcome)) :
    Imported node s' signedBlock ins.validateResult outcome.postState := by
  rcases importBlock_eq_ok hOk with ⟨hPrep, hAdd, _, hDb⟩
  have hOn := onBlock_ok (congrArg Prod.snd hAdd)
  rw [hAdd, knowledge_nudgeClock] at hOn
  have hFin := advance_onBlock (congrArg Prod.snd hAdd)
  rw [hAdd] at hFin
  have hNudged := (advance_nudgeClock node.store ins.now).finalized
  exact
    { prepared := (prepareImport_ok hPrep).1
      knowledge := hOn.2
      pastFinalized := lt_of_le_of_lt (Nat.mul_le_mul_right _ hNudged) hFin.1
      finalizedEpoch := le_trans hNudged hFin.2.finalized
      persisted := ⟨outcome.headChange.headRoot, hDb⟩ }

/-
  What an import leaves behind, also when it fails: nothing new, or the block in memory, or in the
  database as well.
-/
theorem importBlock_cases (node : NodeState S) (signedBlock : SignedBeaconBlock)
    (ins : ImportInputs) :
    let s' := (importBlock node signedBlock ins).1
    (s'.store.knowledge = node.store.knowledge ∧ s'.db = node.db) ∨
      ∃ post,
        Prepared node.store signedBlock ins.validateResult post ∧
          s'.store.knowledge = node.store.knowledge.addBlock signedBlock.message post ∧
          (s'.db = node.db ∨ ∃ headRoot, s'.db = node.db.writeBlockTransition
            (persistBatch s'.store signedBlock post headRoot)) := by
  cases hImport : importBlock node signedBlock ins with
  | mk s' res =>
  cases res with
  | ok outcome =>
    have hImp := importBlock_ok hImport
    exact .inr ⟨outcome.postState, hImp.prepared, hImp.knowledge, .inr hImp.persisted⟩
  | error e =>
    unfold importBlock at hImport
    split at hImport
    · rw [← (Prod.mk.inj hImport).1]
      exact .inl ⟨rfl, rfl⟩
    · rename_i post hPrep
      have hBlk := onBlock_cases (nudgeClock node.store ins.now) signedBlock
        post ins.now ins.powProvider
      rw [knowledge_nudgeClock] at hBlk
      have hStore : s'.store = (onBlock (nudgeClock node.store ins.now) signedBlock post ins.now
              ins.powProvider).1 ∧
          s'.db = node.db := by
        split at hImport
        · rename_i st src hAdd
          rw [← (Prod.mk.inj hImport).1, hAdd]
          exact ⟨rfl, rfl⟩
        · rename_i st hAdd
          split at hImport
          · rw [← (Prod.mk.inj hImport).1, hAdd]
            exact ⟨rfl, rfl⟩
          · exact absurd (Prod.mk.inj hImport).2 (by simp)
      rw [← hStore.1] at hBlk
      rcases hBlk with hEq | ⟨_, hAdd⟩
      · left
        rw [hEq, knowledge_nudgeClock]
        exact ⟨rfl, hStore.2⟩
      · exact .inr ⟨post, (prepareImport_ok hPrep).1, hAdd, .inl hStore.2⟩

theorem announceHead_ok {change : HeadChange} (hOk : announceHead st = .ok change) :
    change.headRoot = getHead st ∧ getHead st ∈ st.blocks := by
  unfold announceHead at hOk
  dsimp only at hOk
  split at hOk
  · cases hOk
  · rename_i headBlock hIn
    cases hOk
    exact ⟨rfl, HashTable.mem_iff.mpr ⟨_, hIn⟩⟩

theorem importBlock_saves {node s' : NodeState S}
    (hOk : importBlock node signedBlock ins = (s', .ok outcome)) :
    getHead s'.store ∈ s'.store.blocks ∧ s'.db.forkchoice =
      some (forkChoiceSnapshot s'.store (getHead s'.store) signedBlock.message.slot) := by
  rcases importBlock_eq_ok hOk with ⟨_, _, hHead, hDb⟩
  rcases announceHead_ok hHead with ⟨hr, hIn⟩
  refine ⟨hIn, ?_⟩
  rw [hDb, hr]
  rfl

namespace Imported

variable {s s' : NodeState S}
variable {validate : Bool} {post : S}

section

variable (hImp : Imported s s' signedBlock validate post)
include hImp

theorem blocks : s'.store.blocks =
      s.store.blocks.insert (treeHashRoot S signedBlock.message) signedBlock.message :=
  congrArg Knowledge.blocks hImp.knowledge

theorem blockStates : s'.store.blockStates =
      s.store.blockStates.insert (treeHashRoot S signedBlock.message) post :=
  congrArg Knowledge.blockStates hImp.knowledge

theorem dbBlocks : s'.db.blocks =
      s.db.blocks.insert (treeHashRoot S signedBlock.message) signedBlock := by
  rcases hImp.persisted with ⟨headRoot, hDb⟩
  rw [hDb]
  rfl

theorem slotToBlockRoot :
    s'.db.slotToBlockRoot = s.db.slotToBlockRoot.insert signedBlock.message.slot
      (treeHashRoot S signedBlock.message) := by
  rcases hImp.persisted with ⟨headRoot, hDb⟩
  rw [hDb]
  rfl

theorem blockRootToSlot : s'.db.blockRootToSlot =
      s.db.blockRootToSlot.insert (treeHashRoot S signedBlock.message)
        signedBlock.message.slot := by
  rcases hImp.persisted with ⟨headRoot, hDb⟩
  rw [hDb]
  rfl

theorem restorePoints : s'.db.restorePoints = s.db.restorePoints := by
  rcases hImp.persisted with ⟨headRoot, hDb⟩
  rw [hDb]
  rfl

theorem stateSummary :
    s'.db.stateSummary = s.db.stateSummary.insert (treeHashRoot S signedBlock.message)
      ⟨signedBlock.message.slot, signedBlock.message.stateRoot,
      signedBlock.message.parentRoot⟩ := by
  rcases hImp.persisted with ⟨headRoot, hDb⟩
  rw [hDb]
  rfl

theorem states : s'.db.states =
      if signedBlock.message.slot % slotsPerEpoch S = 0 then
        s.db.states.insert signedBlock.message.stateRoot post
      else s.db.states := by
  rcases hImp.persisted with ⟨headRoot, hDb⟩
  rw [hDb]
  show HashTable.putOptional s.db.states (if _ then some _ else none) = _
  split
  · rfl
  · rfl

/- Imports do not touch what the freezer has written. -/
theorem frozen :
    s'.db.coldBlocks = s.db.coldBlocks ∧ s'.db.coldStates = s.db.coldStates ∧
      s'.db.splitSlotOrZero = s.db.splitSlotOrZero := by
  rcases hImp.persisted with ⟨headRoot, hDb⟩
  rw [hDb]
  exact ⟨rfl, rfl, rfl⟩

end

end Imported

end

----
-- Runs of the Node
----

/- What happens to a node that only follows the chain. -/
inductive NodeAction where
  | tick (time : Nat)
  | importBlock (signedBlock : SignedBeaconBlock) (inputs : ImportInputs)

def NodeAction.block? : NodeAction → Option BeaconBlock
| .tick _ => none
| .importBlock signedBlock _ => some signedBlock.message

def nodeStep (node : NodeState S) : NodeAction → Except ImportError (NodeState S)
| .tick time =>
  .ok { node with store := onTick node.store time }
| .importBlock signedBlock inputs =>
  match importBlock node signedBlock inputs with
  | (after, .ok _) => .ok after
  | (_, .error refusal) => .error refusal

theorem nodeStep_importBlock_ok {node s' : NodeState S} {signed : SignedBeaconBlock}
    {ins : ImportInputs} (hStep : nodeStep node (.importBlock signed ins) = .ok s') :
    ∃ outcome, importBlock node signed ins = (s', .ok outcome) := by
  unfold nodeStep at hStep
  dsimp only at hStep
  cases hImport : importBlock node signed ins with
  | mk s res =>
    rw [hImport] at hStep
    cases res with
    | error e => cases hStep
    | ok outcome =>
      cases hStep
      exact ⟨outcome, rfl⟩

theorem nodeStep_ok {node s' : NodeState S} {act : NodeAction}
    (hStep : nodeStep node act = .ok s') :
    (act.block? = none ∧ s'.store.knowledge = node.store.knowledge ∧
        node.store.finalizedEpoch ≤ s'.store.finalizedEpoch ∧
        s'.db = node.db) ∨
      ∃ signed ins post, act = .importBlock signed ins ∧
        Imported node s' signed ins.validateResult post := by
  cases act with
  | tick t =>
    have hPost := Except.ok.inj hStep
    rw [← hPost]
    exact .inl ⟨rfl, knowledge_onTick t, (advance_onTick t).finalized, rfl⟩
  | importBlock signed ins =>
    rcases nodeStep_importBlock_ok hStep with ⟨outcome, hImport⟩
    exact .inr ⟨signed, ins, outcome.postState, rfl, importBlock_ok hImport⟩

def importedBlocks (node : NodeState S) (actions : List NodeAction) : List BeaconBlock :=
  (Run.accepted nodeStep node actions).filterMap NodeAction.block?

theorem imports_invariant (Inv : List BeaconBlock → NodeState S → Prop)
    {acts : List NodeAction}
    (hClock : ∀ blks (s s' : NodeState S), Inv blks s → s'.store.knowledge = s.store.knowledge →
      s'.db = s.db → Inv blks s')
    (hImport :
      ∀ blks (s s' : NodeState S) signed ins post, Inv blks s → .importBlock signed ins ∈ acts →
        Imported s s' signed ins.validateResult post →
          Inv (blks ++ [signed.message]) s') {node : NodeState S}
    {blks : List BeaconBlock} (hStart : Inv blks node) :
    Inv (blks ++ importedBlocks node acts) (Run.final nodeStep node acts) := by
  refine Run.history_of_step (fun s past => Inv (blks ++ past.filterMap NodeAction.block?) s) ?_
    (by simpa using hStart)
  intro s past act s' hAction hPre hStep
  rcases nodeStep_ok hStep with ⟨hNone, hEq, _, hDb⟩ | ⟨signed, ins, post, rfl, hImp⟩
  · have hPast : (past ++ [act]).filterMap NodeAction.block? =
        past.filterMap NodeAction.block? := by
      simp [hNone]
    rw [hPast]
    exact hClock _ s s' hPre hEq hDb
  · rw [List.filterMap_append, ← List.append_assoc]
    exact hImport _ s s' signed ins post hPre hAction hImp

end Pharos.Node
