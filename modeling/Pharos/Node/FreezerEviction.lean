import Pharos.ForkChoice.Eviction
import Pharos.ForkChoice.Runs
import Pharos.Node.ChainOnDisk

/-
  This file says when the fork choice notices that the freezer has evicted the blocks up to the
  finalized slot.

  The finalized block is evicted as well. The search for the head is lost if it starts there, and no
  child of the block is accepted any more.

  Main theorems:
  * `freezer_eviction_invisible_iff`
-/

----
-- Reachable Stores
----

namespace Pharos.Node

open BeaconSpec ForkChoice Storage
open HashTable

variable {S : Type} [BeaconSpec S]

/-
  What changes the store of a node: the clock, imports, votes, slashings, verdicts on payloads, and
  the freezer.
-/
inductive StoreAction where
  | tick (time : Nat)
  | importBlock (signedBlock : SignedBeaconBlock) (inputs : ImportInputs)
  | attest (attestation : Attestation) (isFromBlock : Bool)
  | attestElectra (attestation : ElectraAttestation) (isFromBlock : Bool)
  | slash (attesterSlashing : AttesterSlashing)
  | verdict (root : Root) (status : PayloadStatus)
  | freeze

def StoreAction.block? : StoreAction → Option BeaconBlock
| .importBlock signedBlock _ => some signedBlock.message
| _ => none

theorem StoreAction.eq_importBlock {act : StoreAction} {blk : BeaconBlock}
    (hOffers : act.block? = some blk) :
    ∃ signed ins, act = .importBlock signed ins := by
  cases act with
  | importBlock signed ins => exact ⟨signed, ins, rfl⟩
  | _ => exact absurd hOffers (by simp [StoreAction.block?])

def storeStep [SigningSpec S] [CommitteeSpec S] (intervalEpochs : Nat) (node : NodeState S) :
    StoreAction → NodeState S
| .tick time =>
  { node with store := onTick node.store time }
| .importBlock signedBlock inputs =>
  (importBlock node signedBlock inputs).1
| .attest attestation isFromBlock =>
  { node with store := (onAttestation node.store attestation isFromBlock).1 }
| .attestElectra attestation isFromBlock =>
  { node with store := (onAttestationElectra node.store attestation isFromBlock).1 }
| .slash attesterSlashing =>
  match onAttesterSlashing node.store attesterSlashing with
  | .ok store => { node with store }
  | .error _ => node
| .verdict root status =>
  { node with store := node.store.markPayloadStatus root status }
| .freeze => freezerStep intervalEpochs node

def runStore [SigningSpec S] [CommitteeSpec S] (intervalEpochs : Nat) (node : NodeState S)
    (actions : List StoreAction) : NodeState S :=
  actions.foldl (storeStep intervalEpochs) node

def offeredBlocks (anchor : CheckpointAnchor S) (actions : List StoreAction) :
    List BeaconBlock :=
  anchor.signedBlock.message :: actions.filterMap StoreAction.block?

variable (S) in
def DistinctRoots (blocks : List BeaconBlock) : Prop :=
  ∀ block ∈ blocks, ∀ other ∈ blocks, treeHashRoot S block = treeHashRoot S other → block = other

instance (blocks : List BeaconBlock) : Decidable (DistinctRoots S blocks) :=
  inferInstanceAs (Decidable (∀ block ∈ blocks, ∀ other ∈ blocks, _))

def evictedRoots (intervalEpochs : Nat) (node : NodeState S) : List Root :=
  let splitSlot := node.db.splitSlotOrZero
  let finalizedSlot := saturatingMul node.store.finalizedEpoch (slotsPerEpoch S)
  let batch := migrationBatch node.db splitSlot finalizedSlot intervalEpochs
  let migrated := batch.pruneBlockRoots ++ batch.pruneOrphanBlockRoots
  if finalizedSlot ≤ splitSlot ∨ migrated = [] then
    []
  else
    migrated ++ (node.store.blocks.entries.filter fun entry =>
        entry.2.slot < finalizedSlot).map Sigma.fst

theorem store_freezerStep (interval : Nat) (node : NodeState S) :
    (freezerStep interval node).store =
      if evictedRoots interval node = [] then node.store
      else node.store.evict (evictedRoots interval node) := by
  unfold freezerStep freezeTo evictedRoots evictFinalizedFromFc Store.finalizedEpoch
  dsimp only
  split
  · rename_i hDone
    simp only [hDone, true_or, if_true]
  · rename_i hAhead
    simp only [hAhead, false_or]
    split
    · rename_i hNone
      have hNil := List.isEmpty_iff.mp hNone
      simp only [hNil, if_true]
    · rename_i hSome
      have hCons := mt List.isEmpty_iff.mpr hSome
      simp only [hCons, if_false]
      rw [if_neg]
      intro hNil
      exact hCons (List.append_eq_nil_iff.mp hNil).1

----
-- Invariants
----

section

/-
  The stored blocks are among some, each after its parent, and none has a root of lower rank than
  the first one. States are at the blocks whose roots they have.
-/
structure Ordered (rank : Root → Nat) (first : BeaconBlock) (blocks : List BeaconBlock)
    (store : Store S) : Prop where
  keyed : KeyedByRoot S blocks store.blocks
  parents : ∀ root block, store.blocks.lookup root = some block →
    rank (treeHashRoot S first) ≤ rank root ∧ (block = first ∨ ∃ parent ∈ blocks,
    treeHashRoot S parent = block.parentRoot ∧ parent.slot < block.slot)
  states : ∀ root state, store.blockStates.lookup root = some state →
    rank (treeHashRoot S first) ≤ rank root ∧
    ∃ block ∈ blocks, treeHashRoot S block = root ∧ (latestBlock state).1 = block.slot

/- What the index has after the split is still in memory. -/
structure IndexedInMemory (node : NodeState S) : Prop where
  bySlot : ∀ slot root, node.db.blockRootAtSlot slot = some root → node.db.splitSlotOrZero < slot →
    ∃ block, node.store.blocks.lookup root = some block ∧ block.slot = slot
  byRoot : ∀ root slot, node.db.blockRootToSlot.lookup root = some slot →
    node.db.splitSlotOrZero < slot →
    ∃ block, node.store.blocks.lookup root = some block ∧ block.slot = slot

abbrev HeldAt (store : Store S) (root : Root) (slot : Slot) : Prop :=
  ∃ block, store.blocks.lookup root = some block ∧ block.slot = slot

variable {rank : Root → Nat} {a : BeaconBlock} {blks : List BeaconBlock}
variable {interval : Nat} {node s' : NodeState S}

namespace Ordered

theorem mono {st x : Store S} (hOrdered : Ordered rank a blks st) (hBlks :
      ∀ r blk, x.blocks.lookup r = some blk → st.blocks.lookup r = some blk)
    (hStates : ∀ r s, x.blockStates.lookup r = some s → st.blockStates.lookup r = some s) :
    Ordered rank a blks x where
  keyed r blk hBlk :=
    hOrdered.keyed r blk (hBlks r blk hBlk)
  parents r blk hBlk :=
    hOrdered.parents r blk (hBlks r blk hBlk)
  states r s hs :=
    hOrdered.states r s (hStates r s hs)

/- Among blocks without cycles or collisions. -/
theorem slotsIncrease {st : Store S} (hOrdered : Ordered rank a blks st)
    (hFst : rank a.parentRoot < rank (treeHashRoot S a))
    (hDistinct : DistinctRoots S blks) : SlotsIncrease st.blocks := by
  intro r blk par hBlk hPar
  rcases (hOrdered.parents r blk hBlk).2 with hIsFst | ⟨known, hIn, hr, hLess⟩
  · have hAbove := (hOrdered.parents _ par hPar).1
    rw [hIsFst] at hAbove
    exact absurd hFst (not_lt.mpr hAbove)
  · rcases hOrdered.keyed _ par hPar with ⟨hMem, hParentRoot⟩
    rw [hDistinct par hMem known hIn (hParentRoot.trans hr.symm)]
    exact hLess

variable [LawfulBeaconSpec S]

open HashTable

theorem imported {st x : Store S} (hOrdered : Ordered rank a blks st)
    {signed : SignedBeaconBlock} {post : S} (hMem : signed.message ∈ blks)
    (hRank : rank signed.message.parentRoot < rank (treeHashRoot S signed.message))
    (hPrep : Prepared st signed true post)
    (hKnow : x.knowledge = st.knowledge.addBlock signed.message post) :
    Ordered rank a blks x := by
  have hBlks := blocks_of_add hKnow
  have hStates := states_of_add hKnow
  rcases hPrep.transition with ⟨pre, hPre, hTrans⟩
  have hApplied := stateTransition_ok hTrans
  rcases hOrdered.states _ pre hPre with ⟨hAbove, par, hPar, hr, hSlot⟩
  have hHigh := le_of_lt (lt_of_le_of_lt hAbove hRank)
  constructor
  · rw [hBlks]
    exact hOrdered.keyed.insert hMem
  · intro r blk hBlk
    rw [hBlks] at hBlk
    rcases lookup_insert_cases hBlk with ⟨rfl, rfl⟩ | ⟨_, hBlk⟩
    · refine ⟨hHigh, .inr ⟨par, hPar, hr, ?_⟩⟩
      rw [← hSlot]
      exact hApplied.newer
    · exact hOrdered.parents r blk hBlk
  · intro r s hs
    rw [hStates] at hs
    rcases lookup_insert_cases hs with ⟨rfl, rfl⟩ | ⟨_, hs⟩
    · rw [hApplied.latest]
      exact ⟨hHigh, _, hMem, rfl, rfl⟩
    · exact hOrdered.states r s hs

end Ordered

namespace IndexedInMemory

section

variable (hIndexed : IndexedInMemory node)
include hIndexed

omit [BeaconSpec S] in
theorem of_eq (hBlks : s'.store.blocks = node.store.blocks)
    (hDb : s'.db = node.db) : IndexedInMemory s' := by
  constructor
  · rw [hBlks, hDb]
    exact hIndexed.bySlot
  · rw [hBlks, hDb]
    exact hIndexed.byRoot

theorem imported {signed : SignedBeaconBlock}
    {validate : Bool} {post : S}
    (hPrep : Prepared node.store signed validate post)
    (hKnow : s'.store.knowledge = node.store.knowledge.addBlock signed.message post)
    (hDb : s'.db = node.db ∨ ∃ headRoot, s'.db =
      node.db.writeBlockTransition (persistBatch s'.store signed post headRoot)) :
    IndexedInMemory s' := by
  have hBlks := blocks_of_add hKnow
  have hOld : ∀ r slot, HeldAt node.store r slot → HeldAt s'.store r slot := by
    rintro r slot ⟨blk, hBlk, hSlot⟩
    refine ⟨blk, ?_, hSlot⟩
    rw [hBlks, AList.lookup_insert_ne]
    · exact hBlk
    · intro hr
      apply hPrep.fresh
      exact hr ▸ mem_iff.mpr ⟨_, hBlk⟩
  have hOwn : HeldAt s'.store (treeHashRoot S signed.message) signed.message.slot := by
    rw [HeldAt, hBlks]
    exact ⟨_, AList.lookup_insert _, rfl⟩
  rcases hDb with hEq | ⟨headRoot, hWritten⟩
  · constructor
    · rw [hEq]
      intro slot r hr hPost
      exact hOld r slot (hIndexed.bySlot slot r hr hPost)
    · rw [hEq]
      intro r slot hSlot hPost
      exact hOld r slot (hIndexed.byRoot r slot hSlot hPost)
  · rw [show s' = ⟨s'.store, s'.db⟩ from rfl, hWritten]
    constructor
    · intro slot r hr hPost
      rcases lookup_insert_cases hr with ⟨rfl, rfl⟩ | ⟨_, hr⟩
      · exact hOwn
      · exact hOld r slot (hIndexed.bySlot slot r hr hPost)
    · intro r slot hSlot hPost
      rcases lookup_insert_cases hSlot with ⟨rfl, rfl⟩ | ⟨_, hSlot⟩
      · exact hOwn
      · exact hOld r slot (hIndexed.byRoot r slot hSlot hPost)

/- The first slot of the finalized epoch, up to which the freezer migrates. -/
abbrev finalizedSlot (node : NodeState S) : Nat :=
  saturatingMul node.store.finalizedEpoch (slotsPerEpoch S)

theorem evictsUpTo
    (hSome : evictedRoots interval node ≠ []) :
    EvictsUpTo node.store (evictedRoots interval node) (finalizedSlot node) := by
  unfold evictedRoots at hSome ⊢
  dsimp only at hSome ⊢
  split at hSome
  · exact absurd rfl hSome
  · rename_i hBoth
    rw [if_neg hBoth]
    constructor
    · intro r hr blk hBlk
      have hAt : ∀ slot ≤ finalizedSlot node, HeldAt node.store r slot →
          blk.slot ≤ finalizedSlot node := by
        rintro slot hUpTo ⟨known, hIn, hSlot⟩
        rw [hBlk] at hIn
        rw [Option.some.inj hIn, hSlot]
        exact hUpTo
      rcases List.mem_append.mp hr with hMigrated | hOld
      · rcases List.mem_append.mp hMigrated with hCanonical | hOrphan
        · rcases mem_pruneBlockRoots_iff.mp hCanonical with ⟨signed, hCold⟩
          rcases (mem_coldBlocks_iff.mp hCold).1 with ⟨slot, hPost, hUpTo, hIdx⟩
          exact hAt slot hUpTo (hIndexed.bySlot slot r hIdx hPost)
        · rcases mem_orphansInRange hOrphan with ⟨slot, hIdx, hPost, hUpTo, _⟩
          exact hAt slot hUpTo (hIndexed.byRoot r slot hIdx hPost)
      · rcases List.mem_map.mp hOld with ⟨e, hRow, hKey⟩
        rcases List.mem_filter.mp hRow with ⟨hMem, hLess⟩
        have hGot := AList.mem_lookup_iff.mpr hMem
        rw [hKey] at hGot
        rw [Option.some.inj (hBlk.symm.trans hGot)]
        exact le_of_lt (of_decide_eq_true hLess)
    · intro r blk hBlk hLess
      apply List.mem_append_right
      refine List.mem_map.mpr ⟨⟨r, blk⟩, ?_, rfl⟩
      exact List.mem_filter.mpr ⟨AList.mem_lookup_iff.mp hBlk, decide_eq_true hLess⟩

end

end IndexedInMemory

end

----
-- Whole Runs
----

section

variable {rank : Root → Nat}
variable {a : BeaconBlock} {blks : List BeaconBlock}
variable {intervalEpochs : Nat} {node : NodeState S}

theorem lookup_freezerStep (intervalEpochs : Nat) (node : NodeState S) : (∀ r blk,
      (freezerStep intervalEpochs node).store.blocks.lookup r = some blk →
        node.store.blocks.lookup r = some blk) ∧
      ∀ r s, (freezerStep intervalEpochs node).store.blockStates.lookup r = some s →
        node.store.blockStates.lookup r = some s := by
  rw [store_freezerStep]
  split
  · exact ⟨fun _ _ => id, fun _ _ => id⟩
  · constructor
    · intro r blk hBlk
      exact lookup_of_deleteAll hBlk
    · intro r s hs
      exact lookup_of_deleteAll hs

theorem IndexedInMemory.lookup_frozen (hIndexed : IndexedInMemory node) {r : Root}
    {blk : BeaconBlock} (hBlk : node.store.blocks.lookup r = some blk)
    (hPost : finalizedSlot node < blk.slot) :
    (freezerStep intervalEpochs node).store.blocks.lookup r = some blk := by
  rw [store_freezerStep]
  split
  · exact hBlk
  · rename_i hSome
    rw [lookup_blocks_evict, if_neg]
    · exact hBlk
    · intro hMem
      have hLow := (hIndexed.evictsUpTo hSome).low r hMem blk hBlk
      exact absurd hPost (not_lt.mpr hLow)

/- The split moves to the finalized slot, or stays. -/
theorem IndexedInMemory.frozen (hIndexed : IndexedInMemory node) :
    IndexedInMemory (freezerStep intervalEpochs node) := by
  by_cases hDone : finalizedSlot node ≤ node.db.splitSlotOrZero
  · have hEq : freezerStep intervalEpochs node = node := by
      exact if_pos hDone
    rw [hEq]
    exact hIndexed
  · have hDb : (freezerStep intervalEpochs node).db = node.db.migrateToCold
        (migrationBatch node.db node.db.splitSlotOrZero (finalizedSlot node) intervalEpochs) := by
      unfold freezerStep
      rw [db_freezeTo]
      exact if_neg hDone
    have hStill : ∀ r slot, finalizedSlot node < slot → HeldAt node.store r slot →
        HeldAt (freezerStep intervalEpochs node).store r slot := by
      rintro r slot hPost ⟨blk, hBlk, hSlot⟩
      refine ⟨blk, hIndexed.lookup_frozen hBlk ?_, hSlot⟩
      rw [hSlot]
      exact hPost
    have hPast : ∀ slot : Nat, finalizedSlot node < slot → node.db.splitSlotOrZero < slot :=
      fun slot hPost => lt_trans (not_le.mp hDone) hPost
    constructor
    · rw [hDb]
      intro slot r hr hPost
      exact hStill r slot hPost (hIndexed.bySlot slot r hr (hPast slot hPost))
    · rw [hDb]
      intro r slot hSlot hPost
      exact hStill r slot hPost
        (hIndexed.byRoot r slot (lookup_of_deleteAll hSlot) (hPast slot hPost))

variable {anchor : CheckpointAnchor S}

theorem StartsAt.ordered (hStart : StartsAt anchor node) (rank : Root → Nat)
    (hMem : anchor.signedBlock.message ∈ blks) :
    Ordered rank anchor.signedBlock.message blks node.store := by
  have hOnly :
      ∀ r blk, node.store.blocks.lookup r = some blk →
        r = anchor.blockRoot ∧ blk = anchor.signedBlock.message := by
    intro r blk hBlk
    rw [hStart.blocks] at hBlk
    exact (lookup_singleton_iff.mp hBlk).imp_right Eq.symm
  constructor
  · intro r blk hBlk
    rcases hOnly r blk hBlk with ⟨hr, hIs⟩
    rw [hr, hIs]
    exact ⟨hMem, anchor.blockRoot_eq⟩
  · intro r blk hBlk
    rcases hOnly r blk hBlk with ⟨hr, hIs⟩
    rw [hr, anchor.blockRoot_eq]
    exact ⟨le_refl _, .inl hIs⟩
  · intro r s hs
    rw [hStart.blockStates] at hs
    rcases lookup_singleton_iff.mp hs with ⟨rfl, rfl⟩
    rw [anchor.header_eq, anchor.blockRoot_eq]
    exact ⟨le_refl _, _, hMem, anchor.blockRoot_eq, rfl⟩

theorem StartsAt.indexedInMemory (hStart : StartsAt anchor node) : IndexedInMemory node := by
  have hSplit : node.db.splitSlotOrZero = (anchorLink anchor).slot := by
    rw [hStart.db, slot_anchorLink]
    rfl
  constructor
  · intro slot r hr hPost
    rcases (hStart.indexOnDisk.indexed slot r).mp hr with ⟨l, hLink, hSlot, _⟩
    rw [List.mem_singleton.mp hLink, ← hSplit] at hSlot
    exact absurd hPost (not_lt.mpr (ge_of_eq hSlot))
  · intro r slot hr hPost
    rcases (hStart.indexOnDisk.slotOf r slot).mp hr with ⟨l, hLink, _, hSlot⟩
    rw [List.mem_singleton.mp hLink, ← hSplit] at hSlot
    exact absurd hPost (not_lt.mpr (ge_of_eq hSlot))

theorem kept_of_voted {st : Store S} {target : Checkpoint} (hVoted : Voted node.store st target) :
    st.blocks = node.store.blocks ∧ st.blockStates = node.store.blockStates := by
  rcases hVoted with ⟨states, messages, _, rfl⟩
  exact ⟨rfl, rfl⟩

variable [SigningSpec S] [CommitteeSpec S]

theorem storeStep_keeps (intervalEpochs : Nat) (node : NodeState S) {act : StoreAction}
    (hNone : act.block? = none) (hNotFreeze : act ≠ .freeze) :
    let s' := storeStep intervalEpochs node act
    s'.store.blocks = node.store.blocks ∧ s'.store.blockStates = node.store.blockStates ∧
      s'.db = node.db := by
  cases act with
  | tick t =>
    have hEq : (onTick node.store t).knowledge = node.store.knowledge :=
      knowledge_onTick t
    exact ⟨blocks_of_same hEq, states_of_same hEq, rfl⟩
  | importBlock signed ins => exact absurd hNone (by simp [StoreAction.block?])
  | attest att isFromBlock =>
    have hKept := kept_of_voted (counted_onAttestation node.store att isFromBlock).voted
    exact ⟨hKept.1, hKept.2, rfl⟩
  | attestElectra att isFromBlock =>
    have hKept := kept_of_voted (counted_onAttestationElectra node.store att isFromBlock).voted
    exact ⟨hKept.1, hKept.2, rfl⟩
  | slash attesterSlashing =>
    dsimp only [storeStep]
    cases hResult : onAttesterSlashing node.store attesterSlashing with
    | error e => exact ⟨rfl, rfl, rfl⟩
    | ok st =>
      rcases onAttesterSlashing_ok hResult with ⟨indices, rfl⟩
      exact ⟨rfl, rfl, rfl⟩
  | verdict r status => exact ⟨rfl, rfl, rfl⟩
  | freeze => exact absurd rfl hNotFreeze

variable [LawfulBeaconSpec S]

theorem storeStep_invariant {act : StoreAction}
    (hNode : Ordered rank a blks node.store ∧ IndexedInMemory node)
    (hRank : ∀ blk ∈ blks, rank blk.parentRoot < rank (treeHashRoot S blk))
    (hBlk : ∀ blk, act.block? = some blk → blk ∈ blks)
    (hChecked : ∀ signed ins, act = .importBlock signed ins → ins.validateResult = true) :
    Ordered rank a blks (storeStep intervalEpochs node act).store ∧
      IndexedInMemory (storeStep intervalEpochs node act) := by
  rcases hNode with ⟨hOrdered, hIndexed⟩
  by_cases hFreeze : act = .freeze
  · rw [hFreeze]
    rcases lookup_freezerStep intervalEpochs node with ⟨hBlks, hStates⟩
    exact ⟨hOrdered.mono hBlks hStates, hIndexed.frozen⟩
  · cases hOffers : act.block? with
    | none =>
      rcases storeStep_keeps intervalEpochs node hOffers hFreeze with ⟨hBlks, hStates, hDb⟩
      exact ⟨hOrdered.mono (by simp [hBlks]) (by simp [hStates]), hIndexed.of_eq hBlks hDb⟩
    | some blk =>
      rcases StoreAction.eq_importBlock hOffers with ⟨signed, ins, rfl⟩
      have hMem := hBlk _ rfl
      rcases importBlock_cases node signed ins with ⟨hEq, hDb⟩ | ⟨post, hPrep, hAdd, hDb⟩
      · have hBlks := blocks_of_same hEq
        have hStates := states_of_same hEq
        exact ⟨hOrdered.mono (by simp [storeStep, hBlks]) (by simp [storeStep, hStates]),
          hIndexed.of_eq hBlks hDb⟩
      · refine ⟨?_, hIndexed.imported hPrep hAdd hDb⟩
        rw [hChecked signed ins rfl] at hPrep
        exact hOrdered.imported hMem (hRank _ hMem) hPrep hAdd

theorem runStore_invariant (hStart : StartsAt anchor node) (intervalEpochs : Nat)
    {acts : List StoreAction}
    (hChecked : ∀ signed ins, .importBlock signed ins ∈ acts → ins.validateResult = true)
    (hRank : ∀ blk ∈ offeredBlocks anchor acts, rank blk.parentRoot < rank (treeHashRoot S blk)) :
    Ordered rank anchor.signedBlock.message (offeredBlocks anchor acts)
        (runStore intervalEpochs node acts).store ∧
      IndexedInMemory (runStore intervalEpochs node acts) := by
  refine List.foldlRecOn (motive := fun t : NodeState S =>
      Ordered rank anchor.signedBlock.message (offeredBlocks anchor acts) t.store ∧
          IndexedInMemory t)
    acts (storeStep intervalEpochs) ?_ ?_
  · exact ⟨hStart.ordered rank List.mem_cons_self, hStart.indexedInMemory⟩
  · intro s hPre act hAction
    apply storeStep_invariant hPre hRank
    · intro blk hOffers
      exact List.mem_cons_of_mem _ (List.mem_filterMap.mpr ⟨act, hAction, hOffers⟩)
    · intro signed ins hImports
      exact hChecked signed ins (hImports ▸ hAction)

/-
  A step of the freezer, after any history of the store. If the finalized block is on the chain of
  the head, the head stays exactly if the search for it does. The blocks that are accepted are those
  that were, without the children of evicted blocks.
-/
theorem freezer_eviction_invisible_iff (anchor : CheckpointAnchor S) (node : NodeState S)
    (hStart : StartsAt anchor node) (intervalEpochs : Nat) (actions : List StoreAction)
    (hChecked : ∀ signedBlock inputs, .importBlock signedBlock inputs ∈ actions →
      inputs.validateResult = true)
    (hDistinct : DistinctRoots S (offeredBlocks anchor actions))
    (hLinked : HashLinked S (offeredBlocks anchor actions)) :
    let reached := runStore intervalEpochs node actions
    let st := reached.store
    let evicted := (freezerStep intervalEpochs reached).store
    let rs := evictedRoots intervalEpochs reached
    (Forest.Ancestor (parentOf st.blocks) st.finalizedCheckpoint.root (getHead st) →
      (getHead evicted = getHead st ↔ SearchStays st rs)) ∧
      ∀ signedBlock post now pow,
        (onBlock evicted signedBlock post now pow).2 = .ok () ↔
          (onBlock st signedBlock post now pow).2 = .ok () ∧
            signedBlock.message.parentRoot ∉ rs := by
  rcases hLinked with ⟨rank, hRank⟩
  rcases runStore_invariant hStart intervalEpochs hChecked hRank with ⟨hOrdered, hIndexed⟩
  have hSlots := hOrdered.slotsIncrease (hRank _ List.mem_cons_self) hDistinct
  dsimp only
  rw [store_freezerStep]
  by_cases hNone : evictedRoots intervalEpochs (runStore intervalEpochs node actions) = []
  · rw [if_pos hNone, hNone]
    refine ⟨?_, ?_⟩
    · intro _
      exact iff_of_true rfl (.inr (.inl List.not_mem_nil))
    · intro signedBlock post now pow
      exact (and_iff_left List.not_mem_nil).symm
  · rw [if_neg hNone]
    have hEvicts := hIndexed.evictsUpTo hNone
    have hBd : saturatingMul (runStore intervalEpochs node actions).store.finalizedEpoch
          (slotsPerEpoch S) ≤
        computeStartSlotAtEpoch S (runStore intervalEpochs node
          actions).store.finalizedCheckpoint.epoch :=
      min_le_left _ _
    refine ⟨?_, ?_⟩
    · intro hOnChain
      exact hEvicts.getHead_eq_iff hSlots hBd hOnChain
    · intro signedBlock post now pow
      exact hEvicts.onBlock_isOk_iff hSlots.parentLinked hBd signedBlock post now pow

end

----
-- A Finalized Block That Is Evicted
----

open Sample

def justifiedBlock : BeaconBlock :=
  child anchorRoot 4 1 []

def justifiedRoot : Root :=
  treeHashRoot justifiedBlock

def finalizingTip : BeaconBlock :=
  child justifiedRoot 9 1 []

def lateChild : BeaconBlock :=
  child justifiedRoot 10 2 []

/- Both blocks are imported at slot 10. -/
def finalizeFirst : List StoreAction :=
  [.tick 120,
    .importBlock (signed justifiedBlock) { verifiedInputs with now := 120 },
    .importBlock (signed finalizingTip) { verifiedInputs with now := 120 }]

theorem finalizeFirst_checked : ∀ signed ins,
      .importBlock signed ins ∈ finalizeFirst → ins.validateResult = true := by
  intro signed ins hMem
  simp only [finalizeFirst, List.mem_cons, StoreAction.importBlock.injEq, List.not_mem_nil,
    or_false, reduceCtorEq, false_or] at hMem
  rcases hMem with ⟨_, hInputs⟩ | ⟨_, hInputs⟩
  · rw [hInputs]
    rfl
  · rw [hInputs]
    rfl

/- The condition, at the step that evicts the block. -/
theorem freezer_eviction_invisible_iff_finalizeFirst :
    let reached := runStore 1 syncedNode finalizeFirst
    let st := reached.store
    let evicted := (freezerStep 1 reached).store
    let rs := evictedRoots 1 reached
    (Forest.Ancestor (parentOf st.blocks) st.finalizedCheckpoint.root (getHead st) →
      (getHead evicted = getHead st ↔ SearchStays st rs)) ∧
      ∀ signed post now pow,
        (onBlock evicted signed post now pow).2 = .ok () ↔
          (onBlock st signed post now pow).2 = .ok () ∧ signed.message.parentRoot ∉ rs :=
  freezer_eviction_invisible_iff sampleAnchor syncedNode
    startsAt_syncedNode 1 finalizeFirst finalizeFirst_checked
    (by decide) (hashLinked _)

/-
  The block is both justified and finalized. When it is evicted it becomes the head although it is
  unknown, and a child of it that was accepted is refused.
-/
theorem freezer_evicts_base :
    let reached := runStore 1 syncedNode finalizeFirst
    let st := reached.store
    let evicted := (freezerStep 1 reached).store
    let accepts (st : Store Sample.ChainState) :=
      (onBlock st (signed lateChild)
        (postState (postState anchorState justifiedBlock) lateChild) 120 noPowBlocks).2
    st.finalizedCheckpoint = ⟨1, justifiedRoot⟩ ∧
      isOnChain st.blocks justifiedRoot (getHead st) = true ∧
      getHead st = treeHashRoot finalizingTip ∧
      getHead evicted = justifiedRoot ∧
      justifiedRoot ∉ evicted.blocks ∧
      accepts st = .ok () ∧
      accepts evicted = .error (.missingBlock justifiedRoot) :=
  ⟨by decide, by decide, by decide, by decide, by decide, by decide, by decide⟩

end Pharos.Node
