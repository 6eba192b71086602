import Pharos.Node.Chain
import Pharos.Node.RestorePoints

/-
  This file describes the database of a node that follows a chain without forks, while the freezer
  moves a part of it to the cold families.
-/

----
-- Chains in the Database
----

namespace Pharos.Node

open BeaconSpec HashTable Storage List AList

section

variable {S : Type} [BeaconSpec S]

/-
  A slot whose block is not frozen: that of the anchor, which the freezer never moves, or one after
  the split.
-/
def IsHot (db : Db S) (anchorSlot slot : Slot) : Prop :=
  slot = anchorSlot ∨ db.splitSlotOrZero < slot

instance (db : Db S) (anchorSlot slot : Slot) : Decidable (IsHot db anchorSlot slot) :=
  inferInstanceAs (Decidable (_ ∨ _))

/- The index leads to the blocks of a chain, and back. -/
structure IndexOnDisk (links : List (Link S)) (db : Db S) : Prop where
  indexed : ∀ slot root,
    db.blockRootAtSlot slot = some root ↔ ∃ link ∈ links, link.slot = slot ∧ link.root = root
  slotOf : ∀ root slot, db.blockRootToSlot.lookup root = some slot ↔
    ∃ link ∈ links, link.root = root ∧ link.slot = slot

/-
  The blocks of a chain and no others are in the database, and those that are not frozen are hot.
-/
structure BlocksOnDisk (anchorSlot : Slot) (links : List (Link S)) (db : Db S) : Prop where
  available : ∀ link ∈ links, db.getBlockHotOrCold link.root = some link.signedBlock
  hot :
    ∀ link ∈ links,
      db.blocks.lookup link.root = if IsHot db anchorSlot link.slot then some link.signedBlock
        else none
  hotKnown : ∀ root signedBlock, db.blocks.lookup root = some signedBlock →
    ∃ link ∈ links, link.root = root ∧ link.signedBlock = signedBlock
  coldKnown : ∀ root signedBlock, db.coldBlocks.lookup root = some signedBlock →
    ∃ link ∈ links, link.root = root ∧ link.signedBlock = signedBlock

/-
  The states in the database are those of a chain. As long as a block is not frozen, its full state
  is there exactly at the anchor and at epoch boundaries.
-/
structure StatesOnDisk (anchorSlot : Slot) (links : List (Link S)) (db : Db S) : Prop where
  summary : ∀ link ∈ links, ∀ found,
    db.stateSummary.lookup link.root = some found → found.stateRoot = link.stateRoot
  state :
    ∀ link ∈ links, ∀ found, db.states.lookup link.stateRoot = some found → found = link.postState
  hotState :
    ∀ link ∈ links,
      IsHot db anchorSlot link.slot →
        db.states.lookup link.stateRoot =
          if link.slot = anchorSlot ∨ link.slot % slotsPerEpoch S = 0 then some link.postState
          else none
  stateKnown : ∀ root ∈ db.states, ∃ link ∈ links, link.stateRoot = root
  coldState : ∀ slot found, db.coldStates.lookup slot = some found →
    ∃ link ∈ links, link.slot = slot ∧ link.postState = found

/- A database with a chain and nothing else. -/
structure ChainOnDisk (anchorSlot : Slot) (links : List (Link S)) (db : Db S) : Prop
    extends IndexOnDisk links db, BlocksOnDisk anchorSlot links db,
      StatesOnDisk anchorSlot links db where
  anchored : anchorSlot ≤ db.splitSlotOrZero

namespace IndexOnDisk

variable {ls : List (Link S)} {db : Db S}

theorem indexed_of_mem (hIdx : IndexOnDisk ls db) {l : Link S} (hLink : l ∈ ls) :
    db.blockRootAtSlot l.slot = some l.root :=
  (hIdx.indexed _ _).mpr ⟨l, hLink, rfl, rfl⟩

theorem orphansInRange_eq_nil (hIdx : IndexOnDisk ls db) (splitSlot fin : Slot) :
    orphansInRange db splitSlot fin = [] := by
  rw [eq_nil_iff_forall_not_mem]
  intro e hRow
  rcases mem_orphansInRange (mem_map_of_mem hRow) with ⟨slot, hSlot, _, _, hNot⟩
  rcases (hIdx.slotOf _ slot).mp hSlot with ⟨l, hLink, hr, hAt⟩
  exact hNot ((hIdx.indexed slot _).mpr ⟨l, hLink, hAt, hr⟩)

end IndexOnDisk

theorem BlocksOnDisk.known {anchorSlot : Slot} {ls : List (Link S)} {db : Db S}
    (hDisk : BlocksOnDisk anchorSlot ls db) {r : Root} {signed : SignedBeaconBlock}
    (hBlk : db.getBlockHotOrCold r = some signed) :
    ∃ l ∈ ls, l.root = r ∧ l.signedBlock = signed := by
  rcases (Option.orElse_eq_some _ _ _).mp hBlk with hHot | ⟨_, hCold⟩
  · exact hDisk.hotKnown r signed hHot
  · exact hDisk.coldKnown r signed hCold

end

----
-- Starting
----

section

variable {S : Type} [BeaconSpec S] {anchor : CheckpointAnchor S}
variable {node : NodeState S}

namespace StartsAt

section

variable (hStart : StartsAt anchor node)
include hStart

theorem indexOnDisk : IndexOnDisk [anchorLink anchor] node.db := by
  constructor
  · intro slot r
    rw [hStart.db]
    show (putOptional (∅ : HashMap Slot Root)
      (some (stateSlot anchor.state, anchor.blockRoot))).lookup slot = _ ↔ _
    rw [lookup_putOptional_some, ← slot_anchorLink, ← root_anchorLink]
    simp [eq_comm]
  · intro r slot
    rw [hStart.db]
    show (putOptional (∅ : HashMap Root Slot)
      (some (anchor.blockRoot, stateSlot anchor.state))).lookup r = _ ↔ _
    rw [lookup_putOptional_some, ← slot_anchorLink, ← root_anchorLink]
    simp [eq_comm]

theorem blocksOnDisk : BlocksOnDisk (anchorLink anchor).slot [anchorLink anchor] node.db := by
  have hBlks : ∀ r,
        node.db.blocks.lookup r = if r = (anchorLink anchor).root then
            some anchor.signedBlock
          else
            none := by
    intro r
    rw [hStart.db, root_anchorLink]
    exact lookup_putOptional_some _ _ _ _
  constructor
  · intro l hLink
    unfold Db.getBlockHotOrCold
    rw [mem_singleton.mp hLink, hBlks, if_pos rfl]
    rfl
  · intro l hLink
    have hHot : IsHot node.db (anchorLink anchor).slot (anchorLink anchor).slot := .inl rfl
    rw [mem_singleton.mp hLink, hBlks, if_pos rfl, if_pos hHot]
    rfl
  · intro r signed hGot
    rw [hBlks] at hGot
    split at hGot
    · rename_i hr
      exact ⟨_, mem_singleton_self _, hr.symm, Option.some.inj hGot⟩
    · cases hGot
  · intro r signed hGot
    rw [hStart.db] at hGot
    exact absurd hGot (by simp [applyAnchor, Db.writeBlockTransition, Db.empty])

theorem statesOnDisk : StatesOnDisk (anchorLink anchor).slot [anchorLink anchor] node.db := by
  have hStates : ∀ r,
        node.db.states.lookup r =
          if r = (anchorLink anchor).stateRoot then
            some anchor.state
          else
            none := by
    intro r
    have hRoot : (anchorLink anchor).stateRoot = anchor.stateRoot := anchor.blockStateRoot_eq
    rw [hStart.db, hRoot]
    exact lookup_putOptional_some _ _ _ _
  constructor
  · intro l _ y hGot
    rw [hStart.db] at hGot
    exact absurd hGot (by simp [applyAnchor, Db.writeBlockTransition, putOptional, Db.empty])
  · intro l hLink y hGot
    rw [mem_singleton.mp hLink, hStates, if_pos rfl] at hGot
    rw [mem_singleton.mp hLink]
    exact (Option.some.inj hGot).symm
  · intro l hLink _
    rw [mem_singleton.mp hLink, hStates, if_pos rfl, if_pos (.inl rfl)]
    rfl
  · intro r hr
    rw [← lookup_isSome, hStates] at hr
    split at hr
    · rename_i hEq
      exact ⟨_, mem_singleton_self _, hEq.symm⟩
    · cases hr
  · intro slot y hGot
    rw [hStart.db] at hGot
    exact absurd hGot (by simp [applyAnchor, Db.writeBlockTransition, Db.empty])

theorem chainOnDisk : ChainOnDisk (anchorLink anchor).slot [anchorLink anchor] node.db where
  toIndexOnDisk := hStart.indexOnDisk
  toBlocksOnDisk := hStart.blocksOnDisk
  toStatesOnDisk := hStart.statesOnDisk
  anchored := by
    rw [hStart.db, slot_anchorLink]
    exact le_refl _

end

end StartsAt

end

----
-- Importing
----

section

variable {S : Type} [BeaconSpec S] {s s' : NodeState S}
variable {anchorSlot : Slot} {ls : List (Link S)} {l : Link S} {validate : Bool}

theorem IndexOnDisk.imported (hIdx : IndexOnDisk ls s.db)
    (hChain : Chain (ls ++ [l]))
    (hImp : Imported s s' l.signedBlock validate l.postState) :
    IndexOnDisk (ls ++ [l]) s'.db := by
  constructor
  · unfold Db.blockRootAtSlot
    rw [hImp.slotToBlockRoot]
    exact lookup_insert_iff_exists hIdx.indexed fun x hx => ne_of_lt (hChain.fresh hx).1
  · rw [hImp.blockRootToSlot]
    exact lookup_insert_iff_exists hIdx.slotOf fun x hx => (hChain.fresh hx).2.1

theorem isHot_imported_iff {signed : SignedBeaconBlock} {post : S}
    (hImp : Imported s s' signed validate post) (slot : Slot) :
    IsHot s'.db anchorSlot slot ↔ IsHot s.db anchorSlot slot := by
  unfold IsHot
  rw [hImp.frozen.2.2]

theorem BlocksOnDisk.imported (hDisk : BlocksOnDisk anchorSlot ls s.db)
    (hChain : Chain (ls ++ [l])) (hSplit : s.db.splitSlotOrZero < l.slot)
    (hImp : Imported s s' l.signedBlock validate l.postState) :
    BlocksOnDisk anchorSlot (ls ++ [l]) s'.db := by
  have hBlks : s'.db.blocks = s.db.blocks.insert l.root l.signedBlock :=
      hImp.dbBlocks
  have hCold := hImp.frozen.1
  constructor
  · intro x hx
    unfold Db.getBlockHotOrCold
    rw [hBlks, hCold]
    rcases hChain.cases_append hx with ⟨hOld, _, hr, _⟩ | hNew
    · rw [lookup_insert_ne hr]
      exact hDisk.available x hOld
    · rw [hNew, lookup_insert]
      rfl
  · intro x hx
    rw [hBlks, if_congr (isHot_imported_iff hImp _) rfl rfl]
    rcases hChain.cases_append hx with ⟨hOld, _, hr, _⟩ | hNew
    · rw [lookup_insert_ne hr]
      exact hDisk.hot x hOld
    · have hHot : IsHot s.db anchorSlot l.slot := .inr hSplit
      rw [hNew, lookup_insert, if_pos hHot]
  · intro r signed hGot
    rw [exists_mem_append_singleton]
    rw [hBlks] at hGot
    rcases HashTable.lookup_insert_cases hGot with ⟨hr, hBlk⟩ | ⟨_, hGot⟩
    · exact .inr ⟨hr.symm, hBlk.symm⟩
    · exact .inl (hDisk.hotKnown r signed hGot)
  · intro r signed hGot
    rw [hCold] at hGot
    exact exists_mem_append_singleton.mpr (.inl (hDisk.coldKnown r signed hGot))

namespace StatesOnDisk

theorem lookup_other
    (hImp : Imported s s' l.signedBlock validate l.postState)
    {r : Root} (hr : r ≠ l.stateRoot) :
    s'.db.states.lookup r = s.db.states.lookup r := by
  rw [hImp.states]
  split
  · exact lookup_insert_ne hr
  · rfl

theorem lookup_own (hDisk : StatesOnDisk anchorSlot ls s.db)
    (hChain : Chain (ls ++ [l]))
    (hImp : Imported s s' l.signedBlock validate l.postState) :
    s'.db.states.lookup l.stateRoot =
      if l.slot % slotsPerEpoch S = 0 then some l.postState
      else none := by
  rw [hImp.states]
  show (if l.slot % slotsPerEpoch S = 0 then _
    else _ : HashMap Root S).lookup l.stateRoot = _
  split
  · exact lookup_insert _
  · rw [lookup_eq_none]
    intro hIn
    rcases hDisk.stateKnown _ hIn with ⟨x, hx, hr⟩
    exact (hChain.fresh hx).2.2 hr

theorem imported (hDisk : StatesOnDisk anchorSlot ls s.db)
    (hChain : Chain (ls ++ [l])) (hNotAnchor : l.slot ≠ anchorSlot)
    (hImp : Imported s s' l.signedBlock validate l.postState) :
    StatesOnDisk anchorSlot (ls ++ [l]) s'.db := by
  have hSummary : s'.db.stateSummary = s.db.stateSummary.insert l.root ⟨l.slot,
      l.stateRoot, l.block.parentRoot⟩ := hImp.stateSummary
  have hOwn := hDisk.lookup_own hChain hImp
  constructor
  · intro x hx y hGot
    rw [hSummary] at hGot
    rcases hChain.cases_append hx with ⟨hOld, _, hr, _⟩ | hNew
    · rw [lookup_insert_ne hr] at hGot
      exact hDisk.summary x hOld y hGot
    · rw [hNew, lookup_insert] at hGot
      rw [← Option.some.inj hGot, hNew]
  · intro x hx y hGot
    rcases hChain.cases_append hx with ⟨hOld, _, _, hr⟩ | hNew
    · rw [lookup_other hImp hr] at hGot
      exact hDisk.state x hOld y hGot
    · rw [hNew, hOwn] at hGot
      split at hGot
      · rw [hNew, Option.some.inj hGot]
      · cases hGot
  · intro x hx hHot
    rcases hChain.cases_append hx with ⟨hOld, _, _, hr⟩ | hNew
    · rw [lookup_other hImp hr]
      exact hDisk.hotState x hOld ((isHot_imported_iff hImp _).mp hHot)
    · rw [hNew, hOwn]
      exact if_congr (or_iff_right hNotAnchor).symm rfl rfl
  · intro r hr
    rw [exists_mem_append_singleton]
    by_cases hEq : r = l.stateRoot
    · exact .inr hEq.symm
    · rw [← lookup_isSome, lookup_other hImp hEq, lookup_isSome] at hr
      exact .inl (hDisk.stateKnown r hr)
  · intro slot y hGot
    rw [hImp.frozen.2.1] at hGot
    exact exists_mem_append_singleton.mpr (.inl (hDisk.coldState slot y hGot))

end StatesOnDisk

theorem ChainOnDisk.imported (hDisk : ChainOnDisk anchorSlot ls s.db)
    (hChain : Chain (ls ++ [l])) (hSplit : s.db.splitSlotOrZero < l.slot)
    (hImp : Imported s s' l.signedBlock validate l.postState) :
    ChainOnDisk anchorSlot (ls ++ [l]) s'.db where
  toIndexOnDisk := hDisk.toIndexOnDisk.imported hChain hImp
  toBlocksOnDisk := hDisk.toBlocksOnDisk.imported hChain hSplit hImp
  toStatesOnDisk := by
    apply hDisk.toStatesOnDisk.imported hChain _ hImp
    exact ne_of_gt (lt_of_le_of_lt hDisk.anchored hSplit)
  anchored := by
    rw [hImp.frozen.2.2]
    exact hDisk.anchored

end

----
-- Freezing
----

variable {S : Type} [BeaconSpec S] {anchorSlot fin : Slot}
variable {ls : List (Link S)} {l : Link S} {db : Db S}

theorem IndexOnDisk.migrated (hIdx : IndexOnDisk ls db) (fin : Slot)
    (interval : Nat) :
    IndexOnDisk ls (db.migrateToCold (migrationBatch db db.splitSlotOrZero fin interval)) := by
  constructor
  · exact hIdx.indexed
  · intro r slot
    show (deleteAll db.blockRootToSlot
      ((orphansInRange db db.splitSlotOrZero fin).map Prod.fst)).lookup r = _ ↔ _
    rw [hIdx.orphansInRange_eq_nil]
    exact hIdx.slotOf r slot

theorem IndexOnDisk.lookup_outside (hIdx : IndexOnDisk ls db) (hChain : Chain ls)
    (hLink : l ∈ ls) (interval : Nat)
    (hRange : ¬(db.splitSlotOrZero < l.slot ∧ l.slot ≤ fin)) :
    let frozen := db.migrateToCold (migrationBatch db db.splitSlotOrZero fin interval)
    frozen.blocks.lookup l.root = db.blocks.lookup l.root ∧
      frozen.coldBlocks.lookup l.root = db.coldBlocks.lookup l.root := by
  apply lookup_of_outside interval ((hIdx.slotOf _ _).mpr ⟨l, hLink, rfl, rfl⟩) hRange
  intro slot hIndexed
  rcases (hIdx.indexed slot l.root).mp hIndexed with ⟨x, hx, hSlot, hr⟩
  rw [← hSlot, hChain.eq_of_root hx hLink hr]

theorem not_isHot_migrated (hAnchored : anchorSlot ≤ db.splitSlotOrZero) {slot : Slot}
    (hPost : db.splitSlotOrZero < slot) (hUpTo : slot ≤ fin) (interval : Nat) :
    ¬IsHot (db.migrateToCold (migrationBatch db db.splitSlotOrZero fin interval)) anchorSlot
      slot := by
  rintro (rfl | hLater)
  · exact absurd hPost (not_lt.mpr hAnchored)
  · exact absurd hLater (not_lt.mpr hUpTo)

namespace BlocksOnDisk

theorem lookup_inside (hDisk : BlocksOnDisk anchorSlot ls db) (hIdx : IndexOnDisk ls db)
    (hLink : l ∈ ls) (interval : Nat) (hPost : db.splitSlotOrZero < l.slot)
    (hUpTo : l.slot ≤ fin) :
    let frozen := db.migrateToCold (migrationBatch db db.splitSlotOrZero fin interval)
    frozen.blocks.lookup l.root = none ∧ frozen.coldBlocks.lookup l.root = some l.signedBlock := by
  have hHot : IsHot db anchorSlot l.slot := .inr hPost
  apply lookup_of_indexed interval hPost hUpTo (hIdx.indexed_of_mem hLink)
  rw [hDisk.hot l hLink, if_pos hHot]

theorem migrated (hDisk : BlocksOnDisk anchorSlot ls db) (hIdx : IndexOnDisk ls db)
    (hChain : Chain ls) (hAnchored : anchorSlot ≤ db.splitSlotOrZero) (interval : Nat)
    (hPast : db.splitSlotOrZero < fin) :
    BlocksOnDisk anchorSlot ls
      (db.migrateToCold (migrationBatch db db.splitSlotOrZero fin interval)) := by
  constructor
  · intro l hLink
    unfold Db.getBlockHotOrCold
    by_cases hRange : db.splitSlotOrZero < l.slot ∧ l.slot ≤ fin
    · have hMoved := hDisk.lookup_inside hIdx hLink interval hRange.1 hRange.2
      rw [hMoved.1, hMoved.2]
      rfl
    · have hStay := hIdx.lookup_outside hChain hLink interval hRange
      rw [hStay.1, hStay.2]
      exact hDisk.available l hLink
  · intro l hLink
    by_cases hRange : db.splitSlotOrZero < l.slot ∧ l.slot ≤ fin
    · rw [(hDisk.lookup_inside hIdx hLink interval hRange.1 hRange.2).1, if_neg]
      exact not_isHot_migrated hAnchored hRange.1 hRange.2 interval
    · rw [(hIdx.lookup_outside hChain hLink interval hRange).1, hDisk.hot l hLink]
      apply if_congr _ rfl rfl
      apply or_congr_right
      constructor
      · intro hPost
        exact not_le.mp fun hUpTo => hRange ⟨hPost, hUpTo⟩
      · intro hPost
        exact lt_trans hPast hPost
  · intro r signed hGot
    rw [lookup_blocks_migrateToCold] at hGot
    split at hGot
    · cases hGot
    · exact hDisk.hotKnown r signed hGot
  · intro r signed hGot
    rcases mem_of_lookup_putAll hGot with hMoved | ⟨_, hOld⟩
    · exact hDisk.hotKnown r signed (mem_coldBlocks_iff.mp hMoved).2
    · exact hDisk.coldKnown r signed hOld

end BlocksOnDisk

namespace StatesOnDisk

section

variable (hDisk : StatesOnDisk anchorSlot ls db)
include hDisk

theorem slot_of_mem_pruneStateRoots
    (hIdx : IndexOnDisk ls db) (hChain : Chain ls) {splitSlot : Slot}
    {interval : Nat} (hLink : l ∈ ls)
    (hPruned : l.stateRoot ∈ (migrationBatch db splitSlot fin interval).pruneStateRoots) :
    splitSlot < l.slot ∧ l.slot ≤ fin := by
  unfold migrationBatch at hPruned
  dsimp only at hPruned
  rw [hIdx.orphansInRange_eq_nil, filterMap_nil, append_nil] at hPruned
  rcases mem_filterMap.mp hPruned with ⟨⟨slot, r⟩, hCanonical, hs⟩
  rcases mem_canonicalRootsInRange_iff.mp hCanonical with ⟨hPost, hUpTo, hIndexed⟩
  rcases (hIdx.indexed slot r).mp hIndexed with ⟨x, hx, hSlot, hr⟩
  unfold hotBoundaryState at hs
  split at hs
  · cases hs
  · rename_i y hGot
    split at hs
    · rw [← hr] at hGot
      have hNamed := hDisk.summary x hx y hGot
      rw [Option.some.inj hs] at hNamed
      rw [hChain.eq_of_stateRoot hLink hx hNamed, hSlot]
      exact ⟨hPost, hUpTo⟩
    · cases hs

theorem link_of_indexedState
    (hIdx : IndexOnDisk ls db) {e : Slot × Root × S}
    (hRow : indexedState db e.1 = some e) :
    ∃ l ∈ ls, l.slot = e.1 ∧ l.postState = e.2.2 := by
  rcases (of_indexedState hRow).2 with ⟨r, summary, hr, hSummary, hHere⟩
  rcases (hIdx.indexed _ r).mp hr with ⟨l, hLink, hAt, hLinkRoot⟩
  rw [← hLinkRoot] at hSummary
  rw [hDisk.summary l hLink summary hSummary] at hHere
  exact ⟨l, hLink, hAt, (hDisk.state l hLink _ hHere).symm⟩

theorem migrated (hIdx : IndexOnDisk ls db)
    (hChain : Chain ls) (hAnchored : anchorSlot ≤ db.splitSlotOrZero) (interval : Nat)
    (hPast : db.splitSlotOrZero < fin) :
    StatesOnDisk anchorSlot ls
      (db.migrateToCold (migrationBatch db db.splitSlotOrZero fin interval)) := by
  constructor
  · intro l hLink y hGot
    apply hDisk.summary l hLink y
    rw [← hGot]
    show _ = (deleteAll db.stateSummary ((orphansInRange db db.splitSlotOrZero fin).map
      Prod.fst)).lookup l.root
    rw [hIdx.orphansInRange_eq_nil]
    rfl
  · intro l hLink y hGot
    exact hDisk.state l hLink y (lookup_of_deleteAll hGot)
  · intro l hLink hHot
    show (deleteAll db.states _).lookup l.stateRoot = _
    rw [lookup_deleteAll, if_neg]
    · apply hDisk.hotState l hLink
      rcases hHot with hAnchor | hPost
      · exact .inl hAnchor
      · exact .inr (lt_trans hPast hPost)
    · intro hPruned
      have hRange := hDisk.slot_of_mem_pruneStateRoots hIdx hChain hLink hPruned
      exact not_isHot_migrated hAnchored hRange.1 hRange.2 interval hHot
  · intro r hr
    rcases HashTable.mem_iff.mp hr with ⟨y, hGot⟩
    apply hDisk.stateKnown r
    exact HashTable.mem_iff.mpr ⟨_, lookup_of_deleteAll hGot⟩
  · intro slot y hGot
    rcases mem_of_lookup_putAll hGot with hNew | ⟨_, hOld⟩
    · rcases mem_map.mp hNew with ⟨e, hRow, hPair⟩
      cases hPair
      exact hDisk.link_of_indexedState hIdx (mem_selectRestorePointStates.mp hRow).1
    · exact hDisk.coldState slot y hOld

end

end StatesOnDisk

theorem ChainOnDisk.migrateTo (hChain : Chain ls) (hDisk : ChainOnDisk anchorSlot ls db)
    (interval : Nat) (fin : Slot) :
    ChainOnDisk anchorSlot ls (migrateTo interval fin db) := by
  unfold Node.migrateTo
  dsimp only
  split
  · exact hDisk
  · rename_i hNotDone
    have hPast := not_le.mp hNotDone
    exact
      { toIndexOnDisk :=
          hDisk.toIndexOnDisk.migrated _ interval
        toBlocksOnDisk := hDisk.toBlocksOnDisk.migrated hDisk.toIndexOnDisk hChain hDisk.anchored
          interval hPast
        toStatesOnDisk := hDisk.toStatesOnDisk.migrated hDisk.toIndexOnDisk hChain hDisk.anchored
          interval hPast
        anchored := le_trans hDisk.anchored (le_of_lt hPast) }

end Pharos.Node
