import Pharos.ForkChoice.Runs
import Pharos.Node.Rehydration

/-
  This file describes the states that a store keeps for its checkpoints: when the one that weighs
  the votes is there, and when they are the states at the start of their epochs.

  Blocks move the justified checkpoint, but only votes bring a state for it, and the node hands no
  votes to its store. A restart takes the states of blocks as they are.

  Main theorems:
  * `justified_has_weights`
  * `checkpoint_states_advanced`
-/

----
-- A Justified Checkpoint That Stays
----

namespace Pharos.ForkChoice

open BeaconSpec

variable {S : Type} {store : Store S} {checkpoint : Checkpoint}

/- A checkpoint is justified, and none would be after it. -/
structure JustifiedAt (checkpoint : Checkpoint) (store : Store S) : Prop where
  justified : store.justifiedCheckpoint = checkpoint
  unrealized : store.unrealizedJustifiedCheckpoint = checkpoint

variable (hAt : JustifiedAt checkpoint store)
include hAt

theorem JustifiedAt.updateCheckpoints
    {justified : Checkpoint} (hEarly : justified.epoch ≤ checkpoint.epoch)
    (final : Checkpoint) :
    JustifiedAt checkpoint (updateCheckpoints store justified final) := by
  refine ⟨?_, hAt.unrealized⟩
  show (if _ then _ else _) = _
  rw [hAt.justified, if_neg (not_lt.mpr hEarly)]

theorem JustifiedAt.updateUnrealized {justified : Checkpoint}
    (hEarly : justified.epoch ≤ checkpoint.epoch) (final : Checkpoint) :
    JustifiedAt checkpoint (updateUnrealizedCheckpoints store justified final) := by
  refine ⟨hAt.justified, ?_⟩
  show (if _ then _ else _) = _
  rw [hAt.unrealized, if_neg (not_lt.mpr hEarly)]

variable [BeaconSpec S]

theorem JustifiedAt.onTickPerSlot (t : Nat) : JustifiedAt checkpoint (onTickPerSlot store t) := by
  unfold ForkChoice.onTickPerSlot
  dsimp only
  split
  · split
    · apply JustifiedAt.updateCheckpoints
      · exact ⟨hAt.justified, hAt.unrealized⟩
      · exact le_of_eq (congrArg Checkpoint.epoch hAt.unrealized)
    · exact ⟨hAt.justified, hAt.unrealized⟩
  · exact ⟨hAt.justified, hAt.unrealized⟩

theorem JustifiedAt.onTick (t : Nat) : JustifiedAt checkpoint (onTick store t) :=
  onTick_induction hAt (fun _ t hAt => hAt.onTickPerSlot t) t

theorem JustifiedAt.updateProposerBoostRoot (r : Root) :
    JustifiedAt checkpoint (updateProposerBoostRoot store r) := by
  rw [updateProposerBoostRoot_eq]
  exact ⟨hAt.justified, hAt.unrealized⟩

def JustifiesUpTo (epoch : Epoch) (state : S) : Prop :=
  (currentJustifiedCheckpoint state).epoch ≤ epoch ∧ ∀ pulledUp,
    processJustificationAndFinalization state = .ok pulledUp →
    (currentJustifiedCheckpoint pulledUp).epoch ≤ epoch

theorem JustifiedAt.acceptBlock {post : S}
    (hUpTo : JustifiesUpTo checkpoint.epoch post) (blk : BeaconBlock) (now : Nat) :
    JustifiedAt checkpoint (acceptBlock store blk post now) := by
  have hMarked : JustifiedAt checkpoint ((insertBlock store blk
      post).markPayloadStatusIfAbsent (treeHashRoot S blk) .notValidated) := by
    unfold Store.markPayloadStatusIfAbsent
    split
    · exact ⟨hAt.justified, hAt.unrealized⟩
    · exact ⟨hAt.justified, hAt.unrealized⟩
  refine JustifiedAt.updateCheckpoints ?_ hUpTo.1 _
  apply JustifiedAt.updateProposerBoostRoot
  exact ⟨hMarked.justified, hMarked.unrealized⟩

theorem JustifiedAt.computePulledUpTip {r : Root}
    {s : S} (hs : store.blockStates.lookup r = some s)
    (hUpTo : JustifiesUpTo checkpoint.epoch s) {s' : Store S}
    (hOk : computePulledUpTip store r = .ok s') : JustifiedAt checkpoint s' := by
  unfold ForkChoice.computePulledUpTip at hOk
  rw [hs] at hOk
  dsimp only at hOk
  split at hOk
  · cases hOk
  · rename_i pulledUp hPulled
    have hEarly := hUpTo.2 pulledUp hPulled
    have hUnrealized : JustifiedAt checkpoint (updateUnrealizedCheckpoints { store with
            unrealizedJustifications := store.unrealizedJustifications.insert r
              (currentJustifiedCheckpoint pulledUp) }
          (currentJustifiedCheckpoint pulledUp)
          (BeaconSpec.finalizedCheckpoint pulledUp)) := by
      refine JustifiedAt.updateUnrealized ?_ hEarly _
      exact ⟨hAt.justified, hAt.unrealized⟩
    split at hOk
    · cases hOk
      exact hUnrealized.updateCheckpoints hEarly _
    · cases hOk
      exact hUnrealized

/- A block is added, refused, or added and then refused. -/
theorem JustifiedAt.onBlock {post : S}
    (hUpTo : JustifiesUpTo checkpoint.epoch post) (signed : SignedBeaconBlock)
    (now : Nat) (pow : PowBlockProvider) :
    JustifiedAt checkpoint (onBlock store signed post now pow).1 := by
  unfold ForkChoice.onBlock
  dsimp only
  split
  · exact hAt
  · have hAccepted := hAt.acceptBlock hUpTo signed.message now
    split
    · exact hAccepted
    · rename_i pulledUp hPulled
      exact hAccepted.computePulledUpTip (lookup_blockStates_acceptBlock _ _ _) hUpTo hPulled

omit hAt

end Pharos.ForkChoice

----
-- What an Import Leaves Behind
----

namespace Pharos.Node

open BeaconSpec ForkChoice Storage

variable {S : Type} [BeaconSpec S]

def nodeEffect (node : NodeState S) : NodeAction → NodeState S
| .tick time =>
  { node with store := onTick node.store time }
| .importBlock signedBlock inputs =>
  (importBlock node signedBlock inputs).1

/- Every call is made; none is left out of the run. -/
def effectStep (node : NodeState S) (action : NodeAction) :
    Except ImportError (NodeState S) :=
  .ok (nodeEffect node action)

def WeighsVotes (store : Store S) : Prop :=
  store.justifiedCheckpoint.root ∈ store.blocks → store.justifiedCheckpoint ∈ store.checkpointStates

def JustifiesNoLater (epoch : Epoch) (node : NodeState S) : NodeAction → Prop
| .tick _ => True
| .importBlock signedBlock inputs =>
  ∀ preState postState,
    node.store.blockStates.lookup signedBlock.message.parentRoot = some preState →
    stateTransition preState signedBlock inputs.validateResult = .ok postState →
      JustifiesUpTo epoch postState

theorem checkpointStates_nodeEffect (node : NodeState S) (act : NodeAction) :
    (nodeEffect node act).store.checkpointStates = node.store.checkpointStates := by
  cases act with
  | tick t => exact congrArg Knowledge.checkpointStates (knowledge_onTick t)
  | importBlock signed ins =>
    rcases importBlock_cases node signed ins with ⟨hEq, _⟩ | ⟨post, _, hAdd, _⟩
    · exact congrArg Knowledge.checkpointStates hEq
    · exact congrArg Knowledge.checkpointStates hAdd

theorem justifiedAt_nodeEffect {node : NodeState S} {cp : Checkpoint}
    {act : NodeAction} (hAt : JustifiedAt cp node.store)
    (hLater : JustifiesNoLater cp.epoch node act) :
    JustifiedAt cp (nodeEffect node act).store := by
  cases act with
  | tick t => exact hAt.onTick t
  | importBlock signed ins =>
    show JustifiedAt cp (importBlock node signed ins).1.store
    unfold importBlock
    split
    · exact hAt
    · rename_i post hPrep
      rcases (prepareImport_ok hPrep).1.transition with ⟨pre, hPreState, hTrans⟩
      have hUpTo := hLater pre post hPreState hTrans
      have hNudged : JustifiedAt cp (nudgeClock node.store ins.now) := by
        unfold nudgeClock
        split
        · exact hAt.onTickPerSlot _
        · exact hAt
      have hAdd := hNudged.onBlock hUpTo signed ins.now ins.powProvider
      split
      · rename_i st src hOn
        rw [hOn] at hAdd
        exact hAdd
      · rename_i st hOn
        rw [hOn] at hAdd
        split
        · exact hAdd
        · unfold seedPayloadStatus Store.markPayloadStatusIfAbsent
          split
          · split
            · exact hAdd
            · exact ⟨hAdd.justified, hAdd.unrealized⟩
          · exact hAdd

/-
  In every run of a node from an anchor, the votes have a weight at any time, as long as no block
  that comes justifies an epoch after that of the anchor.
-/
theorem justified_has_weights (anchorState : S) (anchorBlock : BeaconBlock) (db : Db S)
    (actions : List NodeAction)
    (hLater : Run.StepsMeet effectStep (JustifiesNoLater (getCurrentEpoch anchorState))
      (anchored anchorState anchorBlock db) actions) :
    ∀ past rest, actions = past ++ rest →
      WeighsVotes (Run.final effectStep (anchored anchorState anchorBlock db) past).store := by
  intro past rest hActions
  rw [hActions, Run.stepsMeet_append] at hLater
  let cp : Checkpoint := ⟨getCurrentEpoch anchorState, treeHashRoot S anchorBlock⟩
  let Weighed : NodeState S → Prop := fun node =>
    JustifiedAt cp node.store ∧ cp ∈ node.store.checkpointStates
  have hWeighed : Weighed (Run.final effectStep (anchored anchorState anchorBlock db) past) := by
    refine Run.invariant Weighed ?_ hLater.1 ?_
    · rintro s act s' _ ⟨hAt, hIn⟩ hHere hStep
      cases hStep
      refine ⟨justifiedAt_nodeEffect hAt hHere, ?_⟩
      rw [checkpointStates_nodeEffect]
      exact hIn
    · refine ⟨⟨rfl, rfl⟩, ?_⟩
      exact AList.mem_keys.mpr (List.mem_singleton_self _)
  intro _
  rw [hWeighed.1.justified]
  exact hWeighed.2

/- A block on the anchor, in the first epoch. -/
theorem justified_has_weights_firstBlock :
    WeighsVotes (Run.final effectStep syncedNode (importAll 12 [lowerSibling])).store := by
  refine justified_has_weights Sample.anchorState Sample.anchorBlock
    (applyAnchor sampleAnchor (Db.empty Sample.ChainState)) (importAll 12 [lowerSibling]) ⟨trivial,
    ?_, trivial⟩ (importAll 12 [lowerSibling]) [] rfl
  intro pre post hPreState hTrans
  have hAnchor : Sample.anchorState = pre := Option.some.inj hPreState
  rw [← hAnchor] at hTrans
  cases hTrans
  refine ⟨by decide, ?_⟩
  intro pulledUp hPulled
  cases hPulled
  decide

/-
  The third block justifies the epoch of the first; then no state is there for the justified
  checkpoint, and no block has any weight.
-/
theorem justified_without_weights :
    let reached :=
      Run.final effectStep syncedNode (importAll 160 [epochBlock, innerBlock, secondEpochBlock])
    reached.store.justifiedCheckpoint = ⟨1, Sample.treeHashRoot epochBlock⟩ ∧
        ¬WeighsVotes reached.store ∧ reached.store.blocks.keys.map (getWeight reached.store) =
        [0, 0, 0, 0] := by
  refine ⟨by decide, ?_, by decide⟩
  intro hWeighs
  exact absurd (hWeighs (by decide)) (by decide)

end Pharos.Node

----
-- States at the Start of Their Epochs
----

namespace Pharos.ForkChoice

open BeaconSpec

variable {S : Type} [BeaconSpec S]

def StatesAdvanced (store : Store S) : Prop :=
  ∀ checkpoint state, store.checkpointStates.lookup checkpoint = some state → ∃ blockState,
    store.blockStates.lookup checkpoint.root = some blockState ∧
    processSlotsFork blockState (computeStartSlotAtEpoch S checkpoint.epoch) = .ok state

def SameState (store : Store S) : StoreAction S → Prop
| .block signedBlock postState _ _ =>
  ∀ state,
    store.blockStates.lookup (treeHashRoot S signedBlock.message) = some state → state = postState
| _ => True

theorem processSlotsFork_of_le {s : S} {slot : Slot} (hPast : slot ≤ stateSlot s) :
    processSlotsFork s slot = .ok s := by
  rw [processSlotsFork_eq, Nat.sub_eq_zero_of_le hPast, processSlots_zero]

variable {store : Store S} {s' : Store S}

variable (hAdv : StatesAdvanced store)
include hAdv

theorem StatesAdvanced.of_knowledge
    (hKnow : s'.knowledge = store.knowledge) : StatesAdvanced s' := by
  have hStates := states_of_same hKnow
  have hCheckpoints : s'.checkpointStates = store.checkpointStates :=
      congrArg Knowledge.checkpointStates hKnow
  intro cp s hs
  rw [hCheckpoints] at hs
  rw [hStates]
  exact hAdv cp s hs

theorem StatesAdvanced.addBlock {blk : BeaconBlock} {post : S}
    (hEq : ∀ s, store.blockStates.lookup (treeHashRoot S blk) = some s → s = post)
    (hKnow : s'.knowledge = store.knowledge.addBlock blk post) :
    StatesAdvanced s' := by
  have hStates := states_of_add hKnow
  have hCheckpoints : s'.checkpointStates = store.checkpointStates :=
      congrArg Knowledge.checkpointStates hKnow
  intro cp s hs
  rw [hCheckpoints] at hs
  rcases hAdv cp s hs with ⟨blockState, hBlockState, hSlots⟩
  refine ⟨blockState, ?_, hSlots⟩
  rw [hStates]
  by_cases hr : cp.root = treeHashRoot S blk
  · rw [hr] at hBlockState
    rw [hr, AList.lookup_insert, hEq blockState hBlockState]
  · rw [AList.lookup_insert_ne hr]
    exact hBlockState

theorem StatesAdvanced.voted {tgt : Checkpoint}
    (hVoted : Voted store s' tgt) : StatesAdvanced s' := by
  rcases hVoted with ⟨states, messages, hStates, rfl⟩
  cases hStates with
  | kept => exact hAdv
  | added hNew hBase hSlots =>
    intro cp s hs
    rcases HashTable.lookup_insert_cases hs with ⟨rfl, rfl⟩ | ⟨_, hs⟩
    · exact ⟨_, hBase, hSlots⟩
    · exact hAdv cp s hs

variable [SigningSpec S] [CommitteeSpec S]

/- Every call keeps the states, be it accepted or refused. -/
theorem statesAdvanced_storeEffect {act : StoreAction S}
    (hEq : SameState store act) : StatesAdvanced (storeEffect store act) := by
  cases act with
  | tick t => exact hAdv.of_knowledge (knowledge_onTick t)
  | block signed post now pow =>
    rcases onBlock_cases store signed post now pow with hRefused | ⟨_, hAdd⟩
    · exact hAdv.of_knowledge (congrArg Store.knowledge hRefused)
    · exact hAdv.addBlock hEq hAdd
  | attestation att isFromBlock =>
    exact hAdv.voted (counted_onAttestation store att isFromBlock).voted
  | electraAttestation att isFromBlock =>
    exact hAdv.voted (counted_onAttestationElectra store att isFromBlock).voted
  | attesterSlashing attesterSlashing =>
    unfold storeEffect
    dsimp only
    split
    · rename_i s' hOk
      rcases onAttesterSlashing_ok hOk with ⟨indices, rfl⟩
      exact hAdv
    · exact hAdv

/- Every call is made; none is left out of the run. -/
def storeEffectStep (store : Store S) (action : StoreAction S) :
    Except ForkChoiceError (Store S) :=
  .ok (storeEffect store action)

theorem statesAdvanced_final {acts : List (StoreAction S)}
    (hEq : Run.StepsMeet storeEffectStep SameState store acts) :
    StatesAdvanced (Run.final storeEffectStep store acts) := by
  refine Run.invariant StatesAdvanced ?_ hEq hAdv
  intro s act s' _ hPre hHere hStep
  cases hStep
  exact statesAdvanced_storeEffect hPre hHere

omit hAdv

omit [SigningSpec S] [CommitteeSpec S] in
theorem statesAdvanced_anchored (anchorState : S) (anchorBlock : BeaconBlock) :
    StatesAdvanced (getForkchoiceStore anchorState anchorBlock) := by
  intro cp s hs
  rcases HashTable.lookup_singleton_iff.mp hs with ⟨rfl, rfl⟩
  refine ⟨_, HashTable.lookup_singleton_iff.mpr ⟨rfl, rfl⟩, ?_⟩
  exact processSlotsFork_of_le (Nat.div_mul_le_self _ _)

end Pharos.ForkChoice

----
-- States after a Restart
----

namespace Pharos.Node

section

open BeaconSpec ForkChoice Storage

variable {S : Type} [BeaconSpec S]

/-
  The database keeps slots: an index entry leads to a block that is not before its slot, a state
  that is stored for a block or under a slot is not before it, and a hot block has its own root as
  its key.
-/
structure SlotsKept (db : Db S) : Prop where
  indexed : ∀ slot root signedBlock, db.blockRootAtSlot slot = some root →
    db.getBlockHotOrCold root = some signedBlock → slot ≤ signedBlock.message.slot
  stored : ∀ root signedBlock state, db.getBlockHotOrCold root = some signedBlock →
    db.states.lookup signedBlock.message.stateRoot = some state →
    signedBlock.message.slot ≤ stateSlot state
  restorePoint : ∀ slot state, db.coldStates.lookup slot = some state → slot ≤ stateSlot state
  named : ∀ root signedBlock slot, db.getBlockHotOrCold root = some signedBlock →
    namesState db signedBlock.message.stateRoot slot → signedBlock.message.slot ≤ slot
  keyed : ∀ root signedBlock,
    db.blocks.lookup root = some signedBlock → treeHashRoot S signedBlock.message = root

def EpochsStarted (db : Db S) (snapshot : ForkChoiceSnapshot) : Prop :=
  ∀ checkpoint ∈ [snapshot.justifiedCheckpoint, snapshot.finalizedCheckpoint], ∀ signedBlock,
    db.getBlockHotOrCold checkpoint.root = some signedBlock →
    computeStartSlotAtEpoch S checkpoint.epoch ≤ signedBlock.message.slot

section Replay

variable [LawfulBeaconSpec S] {db : Db S} {state : S}

variable (hKept : SlotsKept db)
include hKept

theorem slot_le_inlineReplaySlot {s' : S} {slot : Slot}
    (hOk : inlineReplaySlot db state slot = .ok s') : slot ≤ stateSlot s' := by
  have hEmpty : replayEmptySlot state slot = .ok s' → slot ≤ stateSlot s' := by
    intro hOk
    rw [slot_processSlotsFork (Outcome.mapError_ok_iff.mp hOk)]
    exact le_max_right _ _
  unfold inlineReplaySlot at hOk
  split at hOk
  · exact hEmpty hOk
  · rename_i blockRoot hIdx
    split at hOk
    · exact hEmpty hOk
    · rename_i signed hBlk
      rcases stateTransition_ok_iff.mp (Outcome.mapError_ok_iff.mp hOk) with ⟨advanced, _, hProc⟩
      rw [(LawfulBeaconSpec.slot_processBlock hProc).2.1]
      exact hKept.indexed slot blockRoot signed hIdx hBlk

theorem slot_le_inlineReplayTo {s' : S}
    {startSlot tgt : Slot} (hStart : startSlot ≤ stateSlot state)
    (hOk : inlineReplayTo db state startSlot tgt = .ok s') :
    tgt ≤ stateSlot s' := by
  rcases le_or_gt tgt startSlot with hPast | hAhead
  · rw [inlineReplayTo_past state hPast] at hOk
    cases hOk
    exact le_trans hPast hStart
  · rcases Nat.exists_eq_succ_of_ne_zero (Nat.ne_zero_of_lt hAhead) with ⟨last, rfl⟩
    rw [inlineReplayTo_trans state (Nat.le_of_lt_succ hAhead) (Nat.le_succ last)] at hOk
    rcases Outcome.bind_ok_iff.mp hOk with ⟨s, _, hOk⟩
    rw [inlineReplayTo_succ] at hOk
    exact slot_le_inlineReplaySlot hKept hOk

variable {signedBlock : SignedBeaconBlock}

theorem slot_le_loadStateHotOrCold {r : Root}
    (hBlk : db.getBlockHotOrCold r = some signedBlock) {searchUpTo : Slot}
    (hs : loadStateHotOrCold db signedBlock.message.stateRoot searchUpTo = some state) :
    signedBlock.message.slot ≤ stateSlot state := by
  rcases loadStateHotOrCold_some hs with hStored |
    ⟨restoreSlot, coldState, slot, hCold, _, hNames, hOk⟩
  · exact hKept.stored r signedBlock state hBlk hStored
  · exact le_trans (hKept.named r signedBlock slot hBlk hNames)
      (slot_le_inlineReplayTo hKept (hKept.restorePoint restoreSlot coldState hCold) hOk)

/- The states that are rebuilt are not before their blocks, nor is the one from which to replay. -/
structure NotBefore (db : Db S) (rebuilt : Rehydration S) : Prop where
  states : ∀ root state, rebuilt.blockStates.lookup root = some state → ∃ signedBlock,
    db.getBlockHotOrCold root = some signedBlock ∧ signedBlock.message.slot ≤ stateSlot state
  replayAnchor : rebuilt.replayAnchor.slot ≤ stateSlot rebuilt.replayAnchor.state

variable {anchorRoot : Root}

theorem notBefore_rehydrateBlock {rebuilt : Rehydration S}
    (hPre : NotBefore db rebuilt) {k : Root} (hHot : db.blocks.lookup k = some signedBlock) :
    NotBefore db (rehydrateBlock db anchorRoot rebuilt signedBlock) := by
  have hStored :
      db.getBlockHotOrCold (treeHashRoot S signedBlock.message) = some signedBlock := by
    rw [hKept.keyed k signedBlock hHot]
    unfold Db.getBlockHotOrCold
    rw [hHot]
    rfl
  have hWith : ∀ blocks state,
      signedBlock.message.slot ≤ stateSlot state →
        NotBefore db
          { blocks
            blockStates := rebuilt.blockStates.insert (treeHashRoot S signedBlock.message) state
            replayAnchor := ⟨treeHashRoot S signedBlock.message, state,
              signedBlock.message.slot⟩ } := by
    intro blocks state hSlot
    refine ⟨?_, hSlot⟩
    intro r x hx
    rcases HashTable.lookup_insert_cases hx with ⟨rfl, rfl⟩ | ⟨_, hx⟩
    · exact ⟨signedBlock, hStored, hSlot⟩
    · exact hPre.states r x hx
  unfold rehydrateBlock
  dsimp only
  split
  · exact hPre
  · split
    · rename_i state hs
      exact hWith _ state (hKept.stored _ signedBlock state hStored hs)
    · split
      · rename_i replayed hReplayed
        exact hWith _ replayed (slot_le_inlineReplayTo hKept hPre.replayAnchor hReplayed)
      · exact ⟨hPre.states, hPre.replayAnchor⟩

omit hKept

omit [BeaconSpec S] [LawfulBeaconSpec S] in
theorem exists_key_of_mem_getBlocksByRange {startSlot : Slot} {n : Nat}
    (hMem : signedBlock ∈ db.getBlocksByRange startSlot n) :
    ∃ k, db.blocks.lookup k = some signedBlock := by
  rcases List.mem_filterMap.mp hMem with ⟨slot, _, hBd⟩
  rcases Option.bind_eq_some_iff.mp hBd with ⟨k, _, hKey⟩
  exact ⟨k, hKey⟩

omit [LawfulBeaconSpec S] in
theorem notBefore_seedRehydration {anchorSigned : SignedBeaconBlock} {anchorState : S}
    (hBlk : db.getBlockHotOrCold anchorRoot = some anchorSigned)
    (hSlot : anchorSigned.message.slot ≤ stateSlot anchorState) :
    NotBefore db (seedRehydration anchorRoot anchorSigned.message anchorState) := by
  refine ⟨?_, hSlot⟩
  intro r state hs
  rcases HashTable.lookup_singleton_iff.mp hs with ⟨rfl, rfl⟩
  exact ⟨anchorSigned, hBlk, hSlot⟩

omit [BeaconSpec S] [LawfulBeaconSpec S] in
theorem lookup_rehydrateCheckpointStates {snap : ForkChoiceSnapshot}
    {blockStates : HashMap Root S} {cp : Checkpoint}
    (hs : (rehydrateCheckpointStates snap blockStates).lookup cp = some state) :
    cp ∈ [snap.justifiedCheckpoint, snap.finalizedCheckpoint] ∧
      blockStates.lookup cp.root = some state := by
  have hInsert {states : HashMap Checkpoint S} {known s}
      (hKnown : blockStates.lookup known.root = some s)
      (hGot : (states.insert known s).lookup cp = some state) :
      cp = known ∧ blockStates.lookup cp.root = some state ∨ states.lookup cp = some state := by
    rcases HashTable.lookup_insert_cases hGot with ⟨rfl, rfl⟩ | ⟨_, hOld⟩
    · exact .inl ⟨rfl, hKnown⟩
    · exact .inr hOld
  unfold rehydrateCheckpointStates at hs
  dsimp only at hs
  split at hs
  · split at hs
    · cases hs
    · grind [AList.lookup_empty]
  · split at hs
    · grind [AList.lookup_empty]
    · grind [AList.lookup_empty]

theorem statesAdvanced_rehydrate (hKept : SlotsKept db) {snap : ForkChoiceSnapshot}
    (hStarted : EpochsStarted db snap) {secondsPerSlot : Nat} {st : Store S}
    (hOk : rehydrateForkChoiceStore db snap secondsPerSlot = .ok st) :
    StatesAdvanced st := by
  unfold rehydrateForkChoiceStore at hOk
  dsimp only at hOk
  split at hOk
  · cases hOk
  · rename_i anchorSigned hSigned
    split at hOk
    · cases hOk
    · rename_i anchorState hLoaded
      have hSeed := notBefore_seedRehydration hSigned (slot_le_loadStateHotOrCold hKept hSigned
        hLoaded)
      cases hOk
      intro cp state hs
      rcases lookup_rehydrateCheckpointStates hs with ⟨hMem, hBlockState⟩
      refine ⟨state, hBlockState, ?_⟩
      apply processSlotsFork_of_le
      have hRebuilt : ∃ signedBlock, db.getBlockHotOrCold cp.root = some signedBlock ∧
          signedBlock.message.slot ≤ stateSlot state := by
        split at hBlockState
        · refine (List.foldlRecOn _ _ hSeed ?_).states _ state hBlockState
          intro rebuilt hPre signedBlock hRange
          rcases exists_key_of_mem_getBlocksByRange hRange with ⟨k, hHot⟩
          exact notBefore_rehydrateBlock hKept hPre hHot
        · exact hSeed.states _ state hBlockState
      rcases hRebuilt with ⟨signedBlock, hBlk, hSlot⟩
      exact le_trans (hStarted cp hMem signedBlock hBlk) hSlot

end Replay

theorem ChainOnDisk.slotsKept {anchorSlot : Slot} {ls : List (Link S)} {db : Db S}
    (hDisk : ChainOnDisk anchorSlot ls db) (hChain : Chain ls) : SlotsKept db := by
  constructor
  case indexed =>
    intro slot r signed hIdx hBlk
    rcases (hDisk.indexed slot r).mp hIdx with ⟨l, hLink, hSlot, hr⟩
    have hAvail := hDisk.available l hLink
    rw [hr, hBlk] at hAvail
    rw [Option.some.inj hAvail, ← hSlot]
    exact le_rfl
  case stored =>
    intro r signed s hBlk hs
    rcases hDisk.known hBlk with ⟨l, hLink, _, rfl⟩
    rw [hDisk.state l hLink s hs, hChain.postSlot l hLink]
    exact le_rfl
  case restorePoint =>
    intro slot s hs
    rcases hDisk.coldState slot s hs with ⟨l, hLink, hSlot, hPost⟩
    rw [← hPost, hChain.postSlot l hLink, hSlot]
  case named =>
    intro r signed slot hBlk hNames
    rcases hDisk.known hBlk with ⟨l, hLink, _, rfl⟩
    exact le_of_eq (hDisk.slot_of_namesState hChain hLink hNames)
  case keyed =>
    intro r signed hBlk
    rcases hDisk.hotKnown r signed hBlk with ⟨l, _, hr, rfl⟩
    exact hr

end

----
-- Runs from Any Start
----

open BeaconSpec ForkChoice Storage

/- Where a store comes from. -/
inductive Origin (S : Type) where
  | anchor (anchorState : S) (anchorBlock : BeaconBlock)
  | restart (db : Db S) (snapshot : ForkChoiceSnapshot) (secondsPerSlot : Nat)

variable {S : Type} [BeaconSpec S]

namespace Origin

def store : Origin S → Except StorageError (Store S)
| .anchor anchorState anchorBlock =>
  .ok (getForkchoiceStore anchorState anchorBlock)
| .restart db snapshot secondsPerSlot =>
  rehydrateForkChoiceStore db snapshot secondsPerSlot

def EpochsStarted : Origin S → Prop
| .anchor _ _ => True
| .restart db snapshot _ =>
  SlotsKept db ∧ Node.EpochsStarted db snapshot

end Origin

variable [LawfulBeaconSpec S] [SigningSpec S] [CommitteeSpec S]

/-
  In every run of the handlers from an anchor or a restart, the states of checkpoints are those of
  their blocks advanced to the start of the epoch, if at the restart the blocks of the two
  checkpoints are not before it.
-/
theorem checkpoint_states_advanced (origin : Origin S) (store : Store S)
    (hOrigin : origin.store = .ok store) (hStarted : origin.EpochsStarted)
    (actions : List (ForkChoice.StoreAction S))
    (hSame : Run.StepsMeet storeEffectStep SameState store actions) :
    ∀ past rest,
      actions = past ++ rest → StatesAdvanced (Run.final storeEffectStep store past) := by
  intro past rest hActions
  rw [hActions, Run.stepsMeet_append] at hSame
  refine statesAdvanced_final ?_ hSame.1
  cases origin with
  | anchor anchorState anchorBlock =>
    cases hOrigin
    exact statesAdvanced_anchored _ _
  | restart db snap secondsPerSlot =>
    exact statesAdvanced_rehydrate hStarted.1 hStarted.2 hOrigin

/- Every epoch starts with a block. -/
def followWithoutGap : List ServiceAction :=
  followAll 160 [epochBlock, innerBlock, secondEpochBlock]

theorem checkpoint_states_advanced_followWithoutGap :
    let reached := Run.final (serviceStep 1) syncedNode followWithoutGap
    ∃ snap st, reached.db.forkchoice = some snap ∧
      rehydrateForkChoiceStore reached.db snap 12 = .ok st ∧
      snap.finalizedCheckpoint = ⟨1, Sample.treeHashRoot epochBlock⟩ ∧ StatesAdvanced st := by
  have hUnforked :
      Unforked Sample.ChainState (serviceHistory 1 sampleAnchor syncedNode followWithoutGap) :=
    ⟨by decide, by decide, by decide⟩
  rcases kept_final startsAt_syncedNode (fun _ _ => validateResult_of_mem_followAll) hUnforked with
    ⟨xs, _, hKept⟩
  let epochStart : Checkpoint := ⟨1, Sample.treeHashRoot epochBlock⟩
  have hRestart : ∃ snap st,
        (Run.final (serviceStep 1) syncedNode followWithoutGap).db.forkchoice = some snap ∧
        rehydrateForkChoiceStore (Run.final (serviceStep 1) syncedNode followWithoutGap).db
          snap 12 = .ok st ∧
        snap.justifiedCheckpoint = epochStart ∧ snap.finalizedCheckpoint = epochStart ∧
        (Run.final (serviceStep 1) syncedNode followWithoutGap).db.getBlockHotOrCold
          epochStart.root = some (Sample.signed epochBlock) :=
    ⟨_, _, rfl, rfl, rfl, rfl, rfl⟩
  rcases hRestart with ⟨snap, st, hSnapshot, hOk, hJust, hFin, hStored⟩
  refine ⟨snap, st, hSnapshot, hOk, hFin, ?_⟩
  refine checkpoint_states_advanced (.restart _ snap 12) st hOk
    ⟨hKept.onDisk.slotsKept hKept.chain, ?_⟩ [] trivial [] [] rfl
  intro cp hMem signed hBlk
  have hEq : cp = epochStart := by
    rcases List.mem_cons.mp hMem with hFst | hSnd
    · exact hFst.trans hJust
    · exact (List.mem_singleton.mp hSnd).trans hFin
  rw [hEq] at hBlk ⊢
  rw [← Option.some.inj (hStored.symm.trans hBlk)]
  decide

def lateBlock : BeaconBlock :=
  Sample.child (Sample.treeHashRoot epochBlock) 12 1 []

/-
  The finalized epoch started without a block. After a restart its checkpoint has the state of a
  block an epoch earlier.
-/
theorem restart_leaves_state_behind :
    let reached := Run.final (serviceStep 1) syncedNode (followAll 160 [epochBlock, lateBlock])
    ∃ snap st, reached.db.forkchoice = some snap ∧
      rehydrateForkChoiceStore reached.db snap 12 = .ok st ∧
      snap.finalizedCheckpoint = ⟨2, Sample.treeHashRoot epochBlock⟩ ∧
      st.checkpointStates.lookup snap.finalizedCheckpoint =
        some (Sample.postState Sample.anchorState epochBlock) ∧
      ¬StatesAdvanced st := by
  refine ⟨_, _, rfl, rfl, rfl, rfl, ?_⟩
  intro hAdv
  rcases hAdv ⟨2, Sample.treeHashRoot epochBlock⟩ (Sample.postState Sample.anchorState
      epochBlock) rfl with
    ⟨blockState, hBlockState, hSlots⟩
  have hEp : Sample.postState Sample.anchorState epochBlock = blockState :=
      Option.some.inj hBlockState
  rw [← hEp] at hSlots
  exact absurd (Except.ok.inj hSlots) (by decide)

end Pharos.Node
