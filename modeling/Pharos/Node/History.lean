import Pharos.Node.Import

/-
  This file describes what a run of imports from an anchor leaves in the store and in the database,
  by the blocks that were imported and their order.
-/

----
-- Blocks in the Order of Import
----

namespace Pharos.Node

open BeaconSpec ForkChoice HashTable Storage AList

variable {S : Type} [BeaconSpec S]

def latestAtSlot (blocks : List BeaconBlock) (slot : Slot) : Option BeaconBlock :=
  (blocks.filter fun block => block.slot = slot).getLast?

theorem latestAtSlot_append (blks : List BeaconBlock) (blk : BeaconBlock) (slot : Slot) :
    latestAtSlot (blks ++ [blk]) slot = if slot = blk.slot then some blk
      else latestAtSlot blks slot := by
  unfold latestAtSlot
  by_cases hSlot : slot = blk.slot
  · simp [hSlot]
  · simp [hSlot, Ne.symm hSlot]

variable {blks : List BeaconBlock}

theorem mem_of_latestAtSlot {blk : BeaconBlock} {slot : Slot}
    (hLatest : latestAtSlot blks slot = some blk) : blk ∈ blks ∧ blk.slot = slot := by
  have hMem := List.mem_of_getLast? hLatest
  rw [List.mem_filter] at hMem
  exact ⟨hMem.1, of_decide_eq_true hMem.2⟩

theorem latestAtSlot_eq_none_iff {slot : Slot} :
    latestAtSlot blks slot = none ↔ ∀ blk ∈ blks, blk.slot ≠ slot := by
  unfold latestAtSlot
  simp

variable (anchor : CheckpointAnchor S)

/- A node that has been set up with an anchor. -/
structure StartsAt (node : NodeState S) : Prop where
  blocks : node.store.blocks = AList.singleton anchor.blockRoot anchor.signedBlock.message
  blockStates : node.store.blockStates = AList.singleton anchor.blockRoot anchor.state
  db : node.db = applyAnchor anchor (Db.empty S)

/- A known block that is on the chain of a tip. -/
structure ChainBlock (store : Store S) (tip : Root) (block : BeaconBlock) : Prop where
  known : store.blocks.lookup (treeHashRoot S block) = some block
  onChain : Forest.Ancestor (parentOf store.blocks) (treeHashRoot S block) tip

def history (node : NodeState S) (actions : List NodeAction) : List BeaconBlock :=
  [anchor.signedBlock.message] ++ importedBlocks node actions

----
-- Store and Database
----

section

/-
  A node that has imported some blocks in some order. The index entry of a slot is that of the last
  of its blocks.
-/
structure Followed (blocks : List BeaconBlock) (node : NodeState S) : Prop where
  distinct : (blocks.map (treeHashRoot S)).Nodup
  keyed : KeyedByRoot S blocks node.store.blocks
  stored : ∀ block ∈ blocks, node.store.blocks.lookup (treeHashRoot S block) = some block
  stateKnown : ∀ root ∈ node.store.blockStates, root ∈ node.store.blocks
  onDisk : ∀ block ∈ blocks, ∃ signedBlock,
    node.db.blocks.lookup (treeHashRoot S block) = some signedBlock ∧
    signedBlock.message = block
  diskKnown : ∀ root ∈ node.db.blocks, root ∈ node.store.blocks
  slotOnDisk :
    ∀ block ∈ blocks, node.db.blockRootToSlot.lookup (treeHashRoot S block) = some block.slot
  slotKnown : ∀ root ∈ node.db.blockRootToSlot, root ∈ node.store.blocks
  indexed :
    ∀ slot, node.db.blockRootAtSlot slot = (latestAtSlot blocks slot).map (treeHashRoot S)
  noRestorePoints : node.db.restorePoints = ∅

namespace Followed

variable {blks : List BeaconBlock} {node s s' : NodeState S} {blk : BeaconBlock}

theorem eq_of_root (hFol : Followed blks node) {x : BeaconBlock}
    (hBlk : blk ∈ blks) (hx : x ∈ blks)
    (hr : treeHashRoot S blk = treeHashRoot S x) : blk = x := by
  have hStored := hFol.stored blk hBlk
  rw [hr, hFol.stored x hx] at hStored
  exact (Option.some.inj hStored).symm

theorem indexed_iff (hFol : Followed blks node) (hBlk : blk ∈ blks) :
    node.db.blockRootAtSlot blk.slot = some (treeHashRoot S blk) ↔
      latestAtSlot blks blk.slot = some blk := by
  rw [hFol.indexed]
  constructor
  · intro hIndexed
    rcases Option.map_eq_some_iff.mp hIndexed with ⟨latest, hLatest, hr⟩
    have hEq := hFol.eq_of_root (mem_of_latestAtSlot hLatest).1 hBlk hr
    rw [hLatest, hEq]
  · intro hLatest
    rw [hLatest]
    rfl

theorem clock (hFol : Followed blks s)
    (hEq : s'.store.knowledge = s.store.knowledge) (hDb : s'.db = s.db) :
    Followed blks s' := by
  have hBlks := blocks_of_same hEq
  have hStates := states_of_same hEq
  exact
    { distinct := hFol.distinct
      keyed := hBlks ▸ hFol.keyed
      stored := hBlks ▸ hFol.stored
      stateKnown := by
        rw [hBlks, hStates]
        exact hFol.stateKnown
      onDisk := hDb ▸ hFol.onDisk
      diskKnown := by
        rw [hDb, hBlks]
        exact hFol.diskKnown
      slotOnDisk := hDb ▸ hFol.slotOnDisk
      slotKnown := by
        rw [hDb, hBlks]
        exact hFol.slotKnown
      indexed := hDb ▸ hFol.indexed
      noRestorePoints := hDb ▸ hFol.noRestorePoints }

variable {signed : SignedBeaconBlock} {validate : Bool} {post : S}

theorem root_ne (hFol : Followed blks s)
    (hImp : Imported s s' signed validate post)
    (hBlk : blk ∈ blks) :
    treeHashRoot S blk ≠ treeHashRoot S signed.message := by
  intro hr
  apply hImp.prepared.fresh
  exact hr ▸ HashTable.mem_iff.mpr ⟨_, hFol.stored blk hBlk⟩

theorem imported (hFol : Followed blks s)
    (hImp : Imported s s' signed validate post) :
    Followed (blks ++ [signed.message]) s' := by
  have hCases :
      ∀ blk ∈ blks ++ [signed.message], (blk ∈ blks ∧ treeHashRoot S blk ≠
        treeHashRoot S signed.message) ∨ blk = signed.message := by
    intro blk hBlk
    rcases List.mem_append.mp hBlk with hOld | hNew
    · exact .inl ⟨hOld, hFol.root_ne hImp hOld⟩
    · exact .inr (List.mem_singleton.mp hNew)
  constructor
  · rw [List.map_append, List.nodup_append]
    refine ⟨hFol.distinct, List.nodup_singleton _, ?_⟩
    intro r hOld x hNew
    rcases List.mem_map.mp hOld with ⟨blk, hBlk, hr⟩
    rw [← hr, List.mem_singleton.mp hNew]
    exact hFol.root_ne hImp hBlk
  · rw [hImp.blocks]
    apply KeyedByRoot.insert
    · apply hFol.keyed.mono
      intro blk hBlk
      exact List.mem_append_left _ hBlk
    · exact List.mem_append_right _ (List.mem_singleton_self signed.message)
  · intro blk hBlk
    rw [hImp.blocks]
    rcases hCases blk hBlk with ⟨hOld, hNe⟩ | hNew
    · rw [lookup_insert_ne hNe]
      exact hFol.stored blk hOld
    · rw [hNew, lookup_insert]
  · intro r hr
    rw [hImp.blockStates, mem_insert] at hr
    rw [hImp.blocks, mem_insert]
    exact hr.imp_right (hFol.stateKnown r)
  · intro blk hBlk
    rw [hImp.dbBlocks]
    rcases hCases blk hBlk with ⟨hOld, hNe⟩ | hNew
    · rw [lookup_insert_ne hNe]
      exact hFol.onDisk blk hOld
    · rw [hNew, lookup_insert]
      exact ⟨signed, rfl, rfl⟩
  · intro r hr
    rw [hImp.dbBlocks, mem_insert] at hr
    rw [hImp.blocks, mem_insert]
    exact hr.imp_right (hFol.diskKnown r)
  · intro blk hBlk
    rw [hImp.blockRootToSlot]
    rcases hCases blk hBlk with ⟨hOld, hNe⟩ | hNew
    · rw [lookup_insert_ne hNe]
      exact hFol.slotOnDisk blk hOld
    · rw [hNew, lookup_insert]
  · intro r hr
    rw [hImp.blockRootToSlot, mem_insert] at hr
    rw [hImp.blocks, mem_insert]
    exact hr.imp_right (hFol.slotKnown r)
  · intro slot
    unfold Db.blockRootAtSlot
    rw [hImp.slotToBlockRoot, latestAtSlot_append]
    by_cases hSlot : slot = signed.message.slot
    · rw [if_pos hSlot, hSlot, lookup_insert]
      rfl
    · rw [if_neg hSlot, lookup_insert_ne hSlot]
      exact hFol.indexed slot
  · rw [hImp.restorePoints]
    exact hFol.noRestorePoints

end Followed

variable {anchor : CheckpointAnchor S} {node : NodeState S}

theorem StartsAt.followed (hStart : StartsAt anchor node) :
    Followed [anchor.signedBlock.message] node := by
  have hDb := hStart.db
  have hIn : ∀ r, r = anchor.blockRoot → r ∈ node.store.blocks := by
    intro r hr
    rw [hStart.blocks, ← lookup_isSome, lookup_singleton, if_pos hr]
    rfl
  constructor
  · exact List.nodup_singleton _
  · intro r blk hBlk
    rw [hStart.blocks] at hBlk
    rcases lookup_singleton_iff.mp hBlk with ⟨rfl, rfl⟩
    exact ⟨List.mem_singleton_self _, anchor.blockRoot_eq⟩
  · intro blk hBlk
    rw [List.mem_singleton.mp hBlk, anchor.blockRoot_eq,
      hStart.blocks, lookup_singleton, if_pos rfl]
  · intro r hr
    rw [hStart.blockStates] at hr
    rw [hStart.blocks]
    exact hr
  · intro blk hBlk
    rw [List.mem_singleton.mp hBlk, anchor.blockRoot_eq, hDb]
    exact ⟨anchor.signedBlock, lookup_insert _, rfl⟩
  · intro r hr
    rw [hDb] at hr
    apply hIn
    exact ((mem_insert _).mp hr).resolve_right (notMem_empty r)
  · intro blk hBlk
    rw [List.mem_singleton.mp hBlk, anchor.blockRoot_eq, hDb, anchor.slot_eq]
    exact lookup_insert _
  · intro r hr
    rw [hDb] at hr
    apply hIn
    exact ((mem_insert _).mp hr).resolve_right (notMem_empty r)
  · intro slot
    rw [hDb]
    show (putOptional (∅ : HashMap Slot Root)
      (some (stateSlot anchor.state, anchor.blockRoot))).lookup slot = _
    rw [lookup_putOptional_some, ← List.nil_append [anchor.signedBlock.message],
      latestAtSlot_append, anchor.slot_eq]
    by_cases hSlot : slot = stateSlot anchor.state
    · rw [if_pos hSlot, if_pos hSlot, Option.map_some, anchor.blockRoot_eq]
    · rw [if_neg hSlot, if_neg hSlot]
      rfl
  · rw [hDb]
    rfl

theorem followed_final (hStart : StartsAt anchor node) (acts : List NodeAction) :
    Followed (history anchor node acts) (Run.final nodeStep node acts) := by
  refine imports_invariant Followed ?_ ?_ hStart.followed
  · intro blks s s' hPre hEq hDb
    exact hPre.clock hEq hDb
  · intro blks s s' signed ins post hPre _ hImp
    exact hPre.imported hImp

end

----
-- States
----

variable (anchor : CheckpointAnchor S)

/-
  A known block with its state, which is that of the anchor or the result of applying the block to
  the state of its parent.
-/
structure Derived (node : NodeState S)
    (signedBlock : SignedBeaconBlock) (postState : S) : Prop where
  onDisk : node.db.blocks.lookup (treeHashRoot S signedBlock.message) = some signedBlock
  state : node.store.blockStates.lookup (treeHashRoot S signedBlock.message) = some postState
  origin : (signedBlock = anchor.signedBlock ∧ postState = anchor.state) ∨ ∃ preState,
    node.store.blockStates.lookup signedBlock.message.parentRoot = some preState ∧
    Applied preState postState signedBlock

def AllDerived (blocks : List BeaconBlock) (node : NodeState S) : Prop :=
  ∀ block ∈ blocks,
    ∃ signedBlock postState, signedBlock.message = block ∧ Derived anchor node signedBlock postState

namespace Derived

variable {anchor : CheckpointAnchor S} {node : NodeState S}
variable {signed : SignedBeaconBlock} {post : S}

theorem slot (hDerived : Derived anchor node signed post) :
    stateSlot post = signed.message.slot := by
  rcases hDerived.origin with ⟨hBlk, hs⟩ | ⟨pre, _, hApplied⟩
  · rw [hBlk, hs, anchor.slot_eq]
  · exact hApplied.slot

theorem latest (hDerived : Derived anchor node signed post) :
    latestBlock post = (signed.message.slot, treeHashRoot S signed.message) := by
  rcases hDerived.origin with ⟨hBlk, hs⟩ | ⟨pre, _, hApplied⟩
  · rw [hBlk, hs, anchor.header_eq, anchor.blockRoot_eq]
  · exact hApplied.latest

end Derived

section

variable {anchor : CheckpointAnchor S} {s₁ s' : NodeState S} {post y : S}
variable {signed x : SignedBeaconBlock} {validate : Bool} (hImp : Imported s₁ s' x validate y)
variable (hIn : ∀ r ∈ s₁.store.blockStates, r ∈ s₁.store.blocks)
include hImp hIn

theorem Imported.old_state {r : Root} {s : S} (hs : s₁.store.blockStates.lookup r = some s) :
    r ≠ treeHashRoot S x.message ∧ s'.store.blockStates.lookup r = some s := by
  have hNe : r ≠ treeHashRoot S x.message := by
    intro hr
    apply hImp.prepared.fresh
    rw [← hr]
    apply hIn
    exact HashTable.mem_iff.mpr ⟨_, hs⟩
  rw [hImp.blockStates, lookup_insert_ne hNe]
  exact ⟨hNe, hs⟩

theorem Derived.imported (hDerived : Derived anchor s₁ signed post) :
    Derived anchor s' signed post := by
  have hHere := hImp.old_state hIn hDerived.state
  constructor
  · rw [hImp.dbBlocks, lookup_insert_ne hHere.1]
    exact hDerived.onDisk
  · exact hHere.2
  · apply hDerived.origin.imp_right
    rintro ⟨pre, hPre, hApplied⟩
    exact ⟨pre, (hImp.old_state hIn hPre).2, hApplied⟩

end

theorem AllDerived.of_lookup {anchor : CheckpointAnchor S}
    {node : NodeState S} (hDerived : AllDerived anchor blks node)
    (hFol : Followed blks node) {blk : BeaconBlock} {post : S}
    (hIn : node.store.blocks.lookup (treeHashRoot S blk) = some blk)
    (hs : node.store.blockStates.lookup (treeHashRoot S blk) = some post) :
    stateSlot post = blk.slot ∧ latestBlock post = (blk.slot, treeHashRoot S blk) := by
  rcases hDerived blk (hFol.keyed _ blk hIn).1 with ⟨signed, y, hMsg, hHere⟩
  have hGot := hHere.state
  rw [hMsg, hs] at hGot
  rw [Option.some.inj hGot, hHere.slot, hHere.latest, hMsg]
  exact ⟨rfl, rfl⟩

variable [LawfulBeaconSpec S] {anchor : CheckpointAnchor S} {node : NodeState S}

theorem derived_final (hStart : StartsAt anchor node) {acts : List NodeAction}
    (hChecked : ∀ signed ins, .importBlock signed ins ∈ acts → ins.validateResult = true) :
    AllDerived anchor (history anchor node acts) (Run.final nodeStep node acts) := by
  have hFst : Followed [anchor.signedBlock.message] node ∧
      AllDerived anchor [anchor.signedBlock.message] node := by
    refine ⟨hStart.followed, ?_⟩
    intro blk hBlk
    refine ⟨anchor.signedBlock, anchor.state, (List.mem_singleton.mp hBlk).symm, ?_, ?_,
      .inl ⟨rfl, rfl⟩⟩
    · rw [hStart.db, anchor.blockRoot_eq]
      exact lookup_insert _
    · rw [hStart.blockStates, anchor.blockRoot_eq, lookup_singleton, if_pos rfl]
  refine (imports_invariant (fun blks t => Followed blks t ∧ AllDerived anchor blks t) ?_ ?_ hFst).2
  · intro blks s s' hBefore hEq hDb
    refine ⟨hBefore.1.clock hEq hDb, ?_⟩
    intro blk hBlk
    have hStates := states_of_same hEq
    rcases hBefore.2 blk hBlk with ⟨signed, post, hMsg, hDerived⟩
    refine ⟨signed, post, hMsg, ?_, ?_, ?_⟩
    · rw [hDb]
      exact hDerived.onDisk
    · rw [hStates]
      exact hDerived.state
    · rw [hStates]
      exact hDerived.origin
  · intro blks s s' signed ins post hBefore hAction hImp
    have hPost := hBefore.1.imported hImp
    refine ⟨hPost, ?_⟩
    intro blk hBlk
    rcases List.mem_append.mp hBlk with hOld | hNew
    · rcases hBefore.2 blk hOld with ⟨oldBlock, oldState, hMsg, hDerived⟩
      exact ⟨oldBlock, oldState, hMsg, hDerived.imported hImp hBefore.1.stateKnown⟩
    · rcases hImp.prepared.transition with ⟨pre, hPre, hTrans⟩
      rw [hChecked signed ins hAction] at hTrans
      have hPar := (hImp.old_state hBefore.1.stateKnown hPre).2
      refine ⟨signed, post, (List.mem_singleton.mp hNew).symm, ?_, ?_,
        .inr ⟨pre, hPar, stateTransition_ok hTrans⟩⟩
      · rw [hImp.dbBlocks, lookup_insert]
      · rw [hImp.blockStates, lookup_insert]

end Pharos.Node
