import Pharos.ForkChoice.LmdGhost
import Pharos.Node.Freezer

/-
  This file implements the lookup of a block by its slot, and says when the block is on the chain of
  the head.

  The blocks in memory are searched in the order in which the hash map is iterated, no matter on
  which fork they are, and then the index, which has one block for a slot.

  Main theorems:
  * `Api.block_root_for_slot_canonical_iff`
-/

----
-- Lookups by Slot
----

namespace Pharos.Api

open List BeaconSpec ForkChoice Storage Forest

variable {S : Type}

def blockRootForSlot (store : Store S) (db : Db S) (slot : Slot) : Option Root :=
  let inMemory := store.blocks.entries.findSome? fun entry =>
    if entry.2.slot = slot then some entry.1 else none
  inMemory.or (db.blockRootAtSlot slot)

def BlockAt (blocks : HashMap Root BeaconBlock) (slot : Slot) (root : Root) : Prop :=
  ∃ block, blocks.lookup root = some block ∧ block.slot = slot

/-
  Imported blocks, each after its parent, and what is kept of them: some are in memory, and the
  index has one for every slot at which there are any.
-/
structure Keeps (imported : HashMap Root BeaconBlock) (store : Store S) (db : Db S) :
    Prop where
  slots : SlotsIncrease imported
  inMemory : ∀ root block, store.blocks.lookup root = some block → imported.lookup root = some block
  indexed : ∀ slot root, db.blockRootAtSlot slot = some root → BlockAt imported slot root
  complete : ∀ slot root, BlockAt imported slot root → (db.blockRootAtSlot slot).isSome

/- What a lookup can answer in some order of iteration. -/
def Answers (store : Store S) (db : Db S) (slot : Slot) (root : Root) : Prop :=
  BlockAt store.blocks slot root ∨
    (∀ other, ¬BlockAt store.blocks slot other) ∧ db.blockRootAtSlot slot = some root

variable {imported : HashMap Root BeaconBlock} {store : Store S} {db : Db S}
variable {slot : Slot} {r : Root}

theorem forall_answers_iff {P : Root → Prop} : (∀ root, Answers store db slot root → P root) ↔
    (∀ root block, store.blocks.lookup root = some block → block.slot = slot → P root) ∧
      ((∀ root block, store.blocks.lookup root = some block → block.slot ≠ slot) →
        ∀ root, db.blockRootAtSlot slot = some root → P root) := by
  simp only [Answers, BlockAt]
  grind

theorem answers_of_perm {order : HashMap Root BeaconBlock}
    (hOrder : order.entries.Perm store.blocks.entries)
    (hFound : blockRootForSlot { store with blocks := order } db slot = some r) :
    Answers store db slot r := by
  rcases Option.or_eq_some_iff.mp hFound with hMem | ⟨hNone, hDisk⟩
  · rcases exists_of_findSome?_eq_some hMem with ⟨e, hRow, hSome⟩
    rcases Option.ite_none_right_eq_some.mp hSome with ⟨hSlot, hr⟩
    cases hr
    exact .inl ⟨e.2, AList.mem_lookup_iff.mpr (hOrder.mem_iff.mp hRow), hSlot⟩
  · refine .inr ⟨?_, hDisk⟩
    rintro x ⟨blk, hBlk, hSlot⟩
    have hRow := hOrder.mem_iff.mpr (AList.mem_lookup_iff.mp hBlk)
    simpa [hSlot] using findSome?_eq_none_iff.mp hNone _ hRow

theorem exists_order_of_answers (hAnswers : Answers store db slot r) :
    ∃ order : HashMap Root BeaconBlock, order.entries.Perm store.blocks.entries ∧
      blockRootForSlot { store with blocks := order } db slot = some r := by
  rcases hAnswers with ⟨blk, hBlk, hSlot⟩ | ⟨hNone, hDisk⟩
  · rcases HashTable.exists_order hBlk with ⟨order, xs, hEntries, hOrder⟩
    refine ⟨order, hOrder, ?_⟩
    simp [blockRootForSlot, hEntries, hSlot]
  · refine ⟨store.blocks, .refl _, Option.or_eq_some_iff.mpr (.inr ⟨?_, hDisk⟩)⟩
    rw [findSome?_eq_none_iff]
    intro e hRow
    exact if_neg fun hSlot => hNone e.1 ⟨e.2, AList.mem_lookup_iff.mpr hRow, hSlot⟩

namespace Keeps

variable (hKeeps : Keeps imported store db)
include hKeeps

theorem blockAt_of_answers (hAnswers : Answers store db slot r) : BlockAt imported slot r := by
  rcases hAnswers with ⟨blk, hBlk, hSlot⟩ | ⟨_, hDisk⟩
  · exact ⟨blk, hKeeps.inMemory r blk hBlk, hSlot⟩
  · exact hKeeps.indexed slot r hDisk

/- A chain has no two blocks at one slot. -/
theorem eq_of_blockAt {x tip : Root} (hBlk : BlockAt imported slot r)
    (hx : BlockAt imported slot x) (hAnc : Ancestor (parentOf imported) r tip)
    (hOther : Ancestor (parentOf imported) x tip) : r = x := by
  rcases hBlk with ⟨blk, hBlk, rfl⟩
  rcases hx with ⟨y, hy, hSlot⟩
  have hUnique := @getAncestor_eq_iff S { store with blocks := imported } hKeeps.slots
  rw [← (hUnique hBlk).mpr hAnc, ← hSlot, (hUnique hy).mpr hOther]

end Keeps

variable [BeaconSpec S]

variable (imported : HashMap Root BeaconBlock)

/- The block at a slot of the chain that leads to the head. -/
def CanonicalAt (store : Store S) (slot : Slot) (root : Root) : Prop :=
  BlockAt imported slot root ∧ Ancestor (parentOf imported) root (getHead store)

/- Whatever the order of iteration, the answer is the block on the chain, if there is one. -/
def LookupCanonical (store : Store S) (db : Db S) (slot : Slot) : Prop :=
  ∀ order : HashMap Root BeaconBlock, order.entries.Perm store.blocks.entries → ∀ root,
    blockRootForSlot { store with blocks := order } db slot = some root ↔
      CanonicalAt imported store slot root

/-
  A lookup is canonical exactly if no block in memory at the slot is on another fork or, where none
  is in memory, the one in the index.
-/
theorem block_root_for_slot_canonical_iff (imported : HashMap Root BeaconBlock)
    (store : Store S) (db : Db S) (hKeeps : Keeps imported store db) (slot : Slot) :
    LookupCanonical imported store db slot ↔
      (∀ root block, store.blocks.lookup root = some block → block.slot = slot →
        Ancestor (parentOf imported) root (getHead store)) ∧
      ((∀ root block, store.blocks.lookup root = some block → block.slot ≠ slot) →
        ∀ root, db.blockRootAtSlot slot = some root →
          Ancestor (parentOf imported) root (getHead store)) := by
  rw [← forall_answers_iff]
  constructor
  · intro hProperty root hAnswers
    rcases exists_order_of_answers hAnswers with ⟨order, hOrder, hFound⟩
    exact ((hProperty order hOrder root).mp hFound).2
  · intro hCond order hOrder root
    have hRight : ∀ x, blockRootForSlot { store with blocks := order } db slot = some x →
        CanonicalAt imported store slot x := by
      intro x hFound
      have hAnswers := answers_of_perm hOrder hFound
      exact ⟨hKeeps.blockAt_of_answers hAnswers, hCond x hAnswers⟩
    refine ⟨hRight root, ?_⟩
    rintro ⟨hBlk, hAnc⟩
    have hSome : (blockRootForSlot { store with blocks := order } db slot).isSome := by
      simp [blockRootForSlot, hKeeps.complete slot root hBlk]
    rcases Option.isSome_iff_exists.mp hSome with ⟨x, hFound⟩
    rw [hFound, hKeeps.eq_of_blockAt hBlk (hRight x hFound).1 hAnc (hRight x hFound).2]

----
-- Two Siblings
----

open Node

/- After imports, every block is in memory. -/
theorem keeps_final {anchor : CheckpointAnchor S} {node : NodeState S}
    (hStart : StartsAt anchor node) (acts : List NodeAction) :
    let reached := Run.final nodeStep node acts
    SlotsIncrease reached.store.blocks → Keeps reached.store.blocks reached.store reached.db := by
  intro reached hSlots
  have hFol : Followed _ reached := followed_final hStart acts
  refine ⟨hSlots, fun _ _ hBlk => hBlk, ?_, ?_⟩
  · intro slot r hDisk
    rw [hFol.indexed] at hDisk
    rcases Option.map_eq_some_iff.mp hDisk with ⟨blk, hLatest, rfl⟩
    rcases mem_of_latestAtSlot hLatest with ⟨hMem, hSlot⟩
    exact ⟨blk, hFol.stored blk hMem, hSlot⟩
  · rintro slot r ⟨blk, hBlk, hSlot⟩
    rw [hFol.indexed, Option.isSome_map, Option.isSome_iff_ne_none, ne_eq, latestAtSlot_eq_none_iff]
    exact fun hNone => hNone blk (hFol.keyed r blk hBlk).1 hSlot

def importSiblings : NodeState Sample.ChainState :=
  Run.final nodeStep syncedNode (importAll 60 [higherSibling, lowerSibling])

theorem block_root_for_slot_canonical_iff_siblings :
    let node := importSiblings
    Keeps node.store.blocks node.store node.db ∧
      (LookupCanonical node.store.blocks node.store node.db 1 →
        Ancestor (parentOf node.store.blocks) lowerRoot (getHead node.store)) := by
  have hKeeps := keeps_final startsAt_syncedNode (importAll 60 [higherSibling, lowerSibling])
    (by decide)
  refine ⟨hKeeps, fun hCanonical => ?_⟩
  have hInMemory := ((block_root_for_slot_canonical_iff _ _ _ hKeeps 1).mp hCanonical).1
  exact hInMemory lowerRoot lowerSibling (by decide) rfl

/- The sibling that is found lost the tie. -/
theorem sibling_found_at_slot :
    let node := importSiblings
    getHead node.store = higherRoot ∧ higherSibling.slot = 1 ∧
      blockRootForSlot node.store node.db 1 = some lowerRoot ∧
      isOnChain node.store.blocks lowerRoot (getHead node.store) = false := by
  decide

end Pharos.Api
