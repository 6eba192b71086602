import Pharos.Node.HeadVotes
import Pharos.Node.History

/-
  This file implements the freezer, which moves finalized blocks to the cold families of the
  database and deletes the other ones, and says when the finalized chain survives it.

  Which blocks are finalized is read off the slot index. It has one entry per slot, that of the
  block imported last.

  Main theorems:
  * `freezer_keeps_chain_iff`
-/

----
-- Restore Points
----

namespace Pharos.Node

open List BeaconSpec ForkChoice Storage

variable {S : Type} [BeaconSpec S]

/- Multiplication that stops at the largest `u64`. -/
def saturatingMul (first second : Nat) : Nat :=
  min (first * second) (2 ^ 64 - 1)

variable (S) in
def firstBoundaryAfter (splitSlot : Slot) : Slot :=
  let start := splitSlot + 1
  let remainder := start % slotsPerEpoch S
  if remainder = 0 then start else start + (slotsPerEpoch S - remainder)

section

variable (db : Db S)

def indexedState (slot : Slot) : Option (Slot × Root × S) := do
  let blockRoot ← db.blockRootAtSlot slot
  let summary ← db.stateSummary.lookup blockRoot
  let state ← db.states.lookup summary.stateRoot
  return (slot, summary.stateRoot, state)

def scanBoundary (intervalSlots : Nat)
    (found : List (Slot × Root × S) × Option (Slot × Root × S)) (slot : Slot) :
    List (Slot × Root × S) × Option (Slot × Root × S) :=
  match indexedState db slot with
  | none => found
  | some entry =>
    if intervalSlots > 0 ∧ slot % intervalSlots = 0 then
      (found.1 ++ [entry], found.2)
    else if found.2.all fun last => last.1 < slot then
      (found.1, some entry)
    else
      found

def selectRestorePointStates (splitSlot finalizedSlot : Slot)
    (intervalEpochs : Nat) : List (Slot × Root × S) :=
  let epoch := slotsPerEpoch S
  let first := firstBoundaryAfter S splitSlot
  let boundaries := range' first ((finalizedSlot + epoch - first) / epoch) epoch
  let found := boundaries.foldl (scanBoundary db (saturatingMul intervalEpochs epoch)) ([], none)
  if found.1.isEmpty then found.2.toList else found.1

----
-- Migration
----

def canonicalRootsInRange (splitSlot finalizedSlot : Slot) : List (Slot × Root) :=
  (range' (splitSlot + 1)
    (finalizedSlot - splitSlot)).filterMap fun slot =>
      (db.blockRootAtSlot slot).map fun root => (slot, root)

def hotBlocks (roots : List (Slot × Root)) : List (Root × SignedBeaconBlock) :=
  roots.filterMap fun entry =>
    (db.blocks.lookup entry.2).map fun block =>
      (entry.2, block)

def hotBoundaryState (slot : Slot) (root : Root) : Option Root :=
  match db.stateSummary.lookup root with
  | none => none
  | some summary =>
    if slot % slotsPerEpoch S = 0 ∧ summary.stateRoot ∈ db.states then
      some summary.stateRoot
    else
      none

def orphansInRange (splitSlot finalizedSlot : Slot) : List (Root × Slot) :=
  let canonicalSet := (canonicalRootsInRange db splitSlot finalizedSlot).map Prod.snd
  (db.hotBlockRootsInRange (splitSlot + 1)
    (finalizedSlot + 1)).filter fun entry =>
      entry.1 ∉ canonicalSet

def migrationBatch (splitSlot finalizedSlot : Slot) (intervalEpochs : Nat) : ColdMigrationBatch S :=
  let canonical := canonicalRootsInRange db splitSlot finalizedSlot
  let orphans := orphansInRange db splitSlot finalizedSlot
  let coldBlocks := hotBlocks db canonical
  { coldBlocks
    coldStates := selectRestorePointStates db splitSlot finalizedSlot intervalEpochs
    pruneBlockRoots := coldBlocks.map Prod.fst
    pruneStateRoots :=
      (canonical.filterMap fun entry =>
          hotBoundaryState db entry.1 entry.2) ++
        orphans.filterMap fun entry =>
          hotBoundaryState db entry.2 entry.1
    pruneOrphanBlockRoots := orphans.map Prod.fst
    splitSlot := finalizedSlot }

end

def migrateTo (intervalEpochs : Nat) (finalizedSlot : Slot) (db : Db S) : Db S :=
  let splitSlot := db.splitSlotOrZero
  if finalizedSlot ≤ splitSlot then
    db
  else
    db.migrateToCold (migrationBatch db splitSlot finalizedSlot intervalEpochs)

def evictFinalizedFromFc (store : Store S) (evictRoots : List Root) (finalizedSlot : Slot) :
    Store S :=
  if evictRoots.isEmpty then
    store
  else
    let additional :=
      (store.blocks.entries.filter fun entry =>
        entry.2.slot < finalizedSlot).map Sigma.fst
    store.evict (evictRoots ++ additional)

def freezeTo (intervalEpochs : Nat) (finalized : Checkpoint) (node : NodeState S) :
    NodeState S :=
  let splitSlot := node.db.splitSlotOrZero
  let finalizedSlot := saturatingMul finalized.epoch (slotsPerEpoch S)
  if finalizedSlot ≤ splitSlot then
    node
  else
    let batch := migrationBatch node.db splitSlot finalizedSlot intervalEpochs
    { store := evictFinalizedFromFc node.store
        (batch.pruneBlockRoots ++ batch.pruneOrphanBlockRoots)
        finalizedSlot
      db := migrateTo intervalEpochs finalizedSlot node.db }

def freezerStep (intervalEpochs : Nat) (node : NodeState S) : NodeState S :=
  freezeTo intervalEpochs node.store.finalizedCheckpoint node

theorem db_freezeTo (interval : Nat) (final : Checkpoint) (node : NodeState S) :
    (freezeTo interval final node).db =
      migrateTo interval (saturatingMul final.epoch (slotsPerEpoch S)) node.db := by
  unfold freezeTo
  dsimp only
  split
  · rename_i hDone
    unfold migrateTo
    rw [if_pos hDone]
  · rfl

----
-- What Is Moved and What Is Deleted
----

section

open HashTable

variable {S : Type} {db : Db S} {splitSlot fin : Slot} {slot : Slot} {r : Root}

theorem mem_canonicalRootsInRange_iff :
    (slot, r) ∈ canonicalRootsInRange db splitSlot fin ↔
      splitSlot < slot ∧ slot ≤ fin ∧ db.blockRootAtSlot slot = some r := by
  have hRange :
      ∀ slot split final : Nat, slot ∈ range' (split + 1) (final - split) ↔ split <
        slot ∧ slot ≤ final := by
    intro slot split final
    rw [mem_range'_1]
    omega
  unfold canonicalRootsInRange
  rw [mem_filterMap]
  constructor
  · rintro ⟨x, hx, hSome⟩
    rcases Option.map_eq_some_iff.mp hSome with ⟨y, hGot, hPair⟩
    cases hPair
    rcases (hRange _ _ _).mp hx with ⟨hPost, hUpTo⟩
    exact ⟨hPost, hUpTo, hGot⟩
  · rintro ⟨hPost, hUpTo, hIndexed⟩
    refine ⟨slot, (hRange _ _ _).mpr ⟨hPost, hUpTo⟩, ?_⟩
    rw [hIndexed]
    rfl

variable {blk : SignedBeaconBlock}

theorem mem_hotBlocks_iff {rs : List (Slot × Root)} : (r, blk) ∈ hotBlocks db rs ↔
      (∃ slot, (slot, r) ∈ rs) ∧ db.blocks.lookup r = some blk := by
  unfold hotBlocks
  rw [mem_filterMap]
  constructor
  · rintro ⟨⟨slot, y⟩, hMem, hSome⟩
    rcases Option.map_eq_some_iff.mp hSome with ⟨old, hStored, hPair⟩
    cases hPair
    exact ⟨⟨slot, hMem⟩, hStored⟩
  · rintro ⟨⟨slot, hMem⟩, hStored⟩
    refine ⟨(slot, r), hMem, ?_⟩
    rw [hStored]
    rfl

theorem mem_orphansInRange
    (hOrphan : r ∈ (orphansInRange db splitSlot fin).map Prod.fst) :
    ∃ slot, db.blockRootToSlot.lookup r = some slot ∧ splitSlot < slot ∧ slot ≤ fin ∧
      db.blockRootAtSlot slot ≠ some r := by
  rcases mem_map.mp hOrphan with ⟨⟨r, slot⟩, hMem, rfl⟩
  rcases mem_filter.mp hMem with ⟨hHot, hNot⟩
  rw [mem_hotBlockRootsInRange_iff] at hHot
  rcases hHot with ⟨hSlot, hFrom, hBelow, _⟩
  have hUpTo : slot ≤ fin := Nat.le_of_lt_succ hBelow
  refine ⟨slot, hSlot, hFrom, hUpTo, ?_⟩
  intro hIndexed
  apply of_decide_eq_true hNot
  exact mem_map.mpr ⟨(slot, r), mem_canonicalRootsInRange_iff.mpr ⟨hFrom, hUpTo, hIndexed⟩, rfl⟩

variable [BeaconSpec S] {interval : Nat}

/- The indexed blocks of the range are the ones moved. -/
theorem mem_coldBlocks_iff :
    (r, blk) ∈ (migrationBatch db splitSlot fin interval).coldBlocks ↔
      (∃ slot, splitSlot < slot ∧ slot ≤ fin ∧ db.blockRootAtSlot slot = some r) ∧
        db.blocks.lookup r = some blk := by
  show (r, blk) ∈ hotBlocks db (canonicalRootsInRange db splitSlot fin) ↔ _
  rw [mem_hotBlocks_iff]
  simp only [mem_canonicalRootsInRange_iff]

theorem mem_pruneBlockRoots_iff :
    r ∈ (migrationBatch db splitSlot fin interval).pruneBlockRoots ↔ ∃ blk,
      (r, blk) ∈ (migrationBatch db splitSlot fin interval).coldBlocks := by
  show r ∈ map Prod.fst (migrationBatch db splitSlot fin interval).coldBlocks ↔ _
  rw [mem_map]
  constructor
  · rintro ⟨⟨_, blk⟩, hMem, rfl⟩
    exact ⟨blk, hMem⟩
  · rintro ⟨blk, hMem⟩
    exact ⟨(r, blk), hMem, rfl⟩

theorem lookup_of_indexed (interval : Nat) (hPost : splitSlot < slot)
    (hUpTo : slot ≤ fin) (hIndexed : db.blockRootAtSlot slot = some r)
    (hHot : db.blocks.lookup r = some blk) :
    let frozen := db.migrateToCold (migrationBatch db splitSlot fin interval)
    frozen.blocks.lookup r = none ∧ frozen.coldBlocks.lookup r = some blk := by
  have hMoved : (r, blk) ∈ (migrationBatch db splitSlot fin
      interval).coldBlocks := mem_coldBlocks_iff.mpr ⟨⟨slot, hPost, hUpTo, hIndexed⟩, hHot⟩
  refine ⟨?_, ?_⟩
  · rw [lookup_blocks_migrateToCold, if_pos]
    exact .inr (mem_pruneBlockRoots_iff.mpr ⟨blk, hMoved⟩)
  · apply lookup_putAll_of_mem _ _ hMoved
    intro x hx
    have hStored := (mem_coldBlocks_iff.mp hx).2
    rw [hHot] at hStored
    exact (Option.some.inj hStored).symm

theorem lookup_of_outside (interval : Nat)
    (hSlot : db.blockRootToSlot.lookup r = some slot)
    (hOutside : ¬(splitSlot < slot ∧ slot ≤ fin))
    (hIdx : ∀ x, db.blockRootAtSlot x = some r → x = slot) :
    let frozen := db.migrateToCold (migrationBatch db splitSlot fin interval)
    frozen.blocks.lookup r = db.blocks.lookup r ∧
      frozen.coldBlocks.lookup r = db.coldBlocks.lookup r := by
  have hStay : ∀ blk, (r, blk) ∉ (migrationBatch db splitSlot fin interval).coldBlocks := by
    intro blk hMoved
    rcases (mem_coldBlocks_iff.mp hMoved).1 with ⟨x, hPost, hUpTo, hIndexed⟩
    rw [hIdx x hIndexed] at hPost hUpTo
    exact hOutside ⟨hPost, hUpTo⟩
  refine ⟨?_, lookup_putAll_of_not_mem _ _ hStay⟩
  rw [lookup_blocks_migrateToCold, if_neg]
  rintro (hOrphan | hMoved)
  · rcases mem_orphansInRange hOrphan with ⟨x, hx, hPost, hUpTo, _⟩
    rw [hSlot] at hx
    rw [← Option.some.inj hx] at hPost hUpTo
    exact hOutside ⟨hPost, hUpTo⟩
  · rcases mem_pruneBlockRoots_iff.mp hMoved with ⟨blk, hMem⟩
    exact hStay blk hMem

end

----
-- The Finalized Chain
----

/- A block is in the database, and its slot leads to it. -/
structure Archived (db : Db S) (block : BeaconBlock) : Prop where
  retrievable : ∃ signedBlock, db.getBlockHotOrCold (treeHashRoot S block) = some signedBlock ∧
    signedBlock.message = block
  indexed : db.blockRootAtSlot block.slot = some (treeHashRoot S block)

/- Migrating leaves the slot index as it is. -/
@[simp] theorem blockRootAtSlot_migrateTo (interval : Nat) (fin slot : Slot)
    (db : Db S) :
    (migrateTo interval fin db).blockRootAtSlot slot = db.blockRootAtSlot slot := by
  unfold migrateTo
  dsimp only
  split
  · rfl
  · rfl

theorem archived_migrateTo_iff {blks : List BeaconBlock} {node : NodeState S}
    (hFol : Followed blks node) (interval : Nat) (fin : Slot)
    {blk : BeaconBlock} (hBlk : blk ∈ blks) :
    Archived (migrateTo interval fin node.db) blk ↔ latestAtSlot blks blk.slot = some blk := by
  rw [← hFol.indexed_iff hBlk]
  constructor
  · intro hArchived
    rw [← blockRootAtSlot_migrateTo interval fin blk.slot node.db]
    exact hArchived.indexed
  · intro hIndexed
    refine ⟨?_, ?_⟩
    · rcases hFol.onDisk blk hBlk with ⟨signed, hHot, hMsg⟩
      refine ⟨signed, ?_, hMsg⟩
      have hStay : node.db.getBlockHotOrCold (treeHashRoot S blk) = some signed := by
        unfold Db.getBlockHotOrCold
        rw [hHot]
        rfl
      unfold migrateTo
      dsimp only
      split
      · exact hStay
      · by_cases hRange : node.db.splitSlotOrZero < blk.slot ∧ blk.slot ≤ fin
        · have hMoved := lookup_of_indexed interval hRange.1 hRange.2 hIndexed hHot
          unfold Db.getBlockHotOrCold
          rw [hMoved.1, hMoved.2]
          rfl
        · unfold Db.getBlockHotOrCold
          rw [(lookup_of_outside interval (hFol.slotOnDisk blk hBlk) hRange ?_).1, hHot]
          · rfl
          · -- An entry at another slot is of another block.
            intro x hx
            rw [hFol.indexed] at hx
            rcases Option.map_eq_some_iff.mp hx with ⟨latest, hLatest, hr⟩
            rcases mem_of_latestAtSlot hLatest with ⟨hMem, hSlot⟩
            rw [← hSlot, hFol.eq_of_root hMem hBlk hr]
    · rw [blockRootAtSlot_migrateTo]
      exact hIndexed

/-
  After any imports from an anchor and for any finalized checkpoint, the freezer keeps the chain of
  the finalized block exactly if each of its blocks was the last one to be imported at its slot.
-/
theorem freezer_keeps_chain_iff (anchor : CheckpointAnchor S) (node : NodeState S)
    (hStart : StartsAt anchor node) (actions : List NodeAction) (intervalEpochs : Nat)
    (finalized : Checkpoint) :
    let reached := Run.final nodeStep node actions
    let frozen := freezeTo intervalEpochs finalized reached
    (∀ blk, ChainBlock reached.store finalized.root blk → Archived frozen.db blk) ↔
      ∀ blk, ChainBlock reached.store finalized.root blk →
        latestAtSlot (history anchor node actions) blk.slot = some blk := by
  have hFol := followed_final hStart actions
  refine forall_congr' fun blk =>
    imp_congr_right fun hChain => ?_
  rw [db_freezeTo]
  apply archived_migrateTo_iff hFol
  exact (hFol.keyed _ blk hChain.known).1

----
-- Two Blocks at One Slot
----

open Sample

def sampleAnchor : CheckpointAnchor ChainState where
  state := anchorState
  stateRoot := anchorBlock.stateRoot
  signedBlock := signed anchorBlock
  blockRoot := anchorRoot
  stateRoot_eq := by decide
  header_eq := by decide
  blockRoot_eq := rfl
  slot_eq := rfl
  blockStateRoot_eq := rfl

def syncedNode : NodeState ChainState :=
  anchored anchorState anchorBlock (applyAnchor sampleAnchor (Db.empty ChainState))

theorem startsAt_syncedNode : StartsAt sampleAnchor syncedNode :=
  ⟨rfl, rfl, rfl⟩

def importAll (now : Nat) (blocks : List BeaconBlock) : List NodeAction :=
  .tick now :: blocks.map fun block =>
    .importBlock (signed block) { verifiedInputs with now }

theorem validateResult_of_mem_importAll {now : Nat} {blks : List BeaconBlock}
    {signed : SignedBeaconBlock} {ins : ImportInputs}
    (hMem : .importBlock signed ins ∈ importAll now blks) :
    ins.validateResult = true := by
  rcases mem_cons.mp hMem with hTick | hImport
  · cases hTick
  · rcases mem_map.mp hImport with ⟨blk, _, hEq⟩
    rw [← (NodeAction.importBlock.inj hEq).2]
    rfl

/- The first block of an epoch, on the lower sibling. -/
def boundaryBlock : BeaconBlock :=
  child lowerRoot 4 1 []

def boundaryRoot : Root :=
  treeHashRoot boundaryBlock

def finalizingBlock : BeaconBlock :=
  child boundaryRoot 8 1 []

/- The lower sibling comes last. -/
def importInOrder : List NodeAction :=
  importAll 120 [higherSibling, lowerSibling, boundaryBlock, finalizingBlock]

def importSiblingLate : List NodeAction :=
  importAll 120 [lowerSibling, boundaryBlock, higherSibling, finalizingBlock]

/- The condition, when the sibling comes first. -/
theorem freezer_keeps_chain_iff_importInOrder :
    let reached := Run.final nodeStep syncedNode importInOrder
    let final := reached.store.finalizedCheckpoint
    let frozen := freezeTo 1 final reached
    StartsAt sampleAnchor syncedNode ∧ final = ⟨1, boundaryRoot⟩ ∧
      frozen.db.coldBlocks.lookup lowerRoot = some (signed lowerSibling) ∧
      ((∀ blk, ChainBlock reached.store final.root blk → Archived frozen.db blk) ↔
      ∀ blk, ChainBlock reached.store final.root blk →
      latestAtSlot (history sampleAnchor syncedNode importInOrder) blk.slot = some blk) :=
  ⟨startsAt_syncedNode, by decide, by decide,
    freezer_keeps_chain_iff sampleAnchor syncedNode startsAt_syncedNode importInOrder 1 _⟩

/- A block of the finalized chain is deleted, because a sibling was imported after it. -/
theorem freezer_deletes_chain_block :
    let reached := Run.final nodeStep syncedNode importSiblingLate
    let final := reached.store.finalizedCheckpoint
    let frozen := freezerStep 1 reached
    final = ⟨1, boundaryRoot⟩ ∧ ChainBlock reached.store final.root lowerSibling ∧
      frozen.db.getBlockHotOrCold lowerRoot = none ∧ frozen.db.blockRootAtSlot 1 =
      some higherRoot := by
  have hFin : (Run.final nodeStep syncedNode importSiblingLate).store.finalizedCheckpoint =
      ⟨1, boundaryRoot⟩ := by
    decide
  refine ⟨hFin, ⟨by decide, ?_⟩, by decide, by decide⟩
  apply Forest.Ancestor.of_parent
  decide

end Pharos.Node
