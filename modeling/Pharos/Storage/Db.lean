import Pharos.ForkChoice.Store

/-
  This file implements the database: one map per column family, the hot families that imports write
  and the cold families to which finalized data moves.

  Keys of the slot families are big endian, so that iterating them is going through the slots in
  order. Reads and writes do not fail.
-/

----
-- Column Families
----

namespace Pharos.Storage

open HashTable

variable {S : Type}

structure StateSummary where
  slot : Slot
  stateRoot : Root
  parentRoot : Root
deriving DecidableEq, Repr

/- The cursors of fork choice that outlive a restart. -/
structure ForkChoiceSnapshot where
  justifiedCheckpoint : Checkpoint
  finalizedCheckpoint : Checkpoint
  unrealizedJustifiedCheckpoint : Checkpoint
  unrealizedFinalizedCheckpoint : Checkpoint
  proposerBoostRoot : Root
  lastKnownTime : Nat
  genesisTime : Nat
  headRoot : Root
  headSlot : Slot
deriving DecidableEq, Repr

/- The metadata family; a key may be absent. -/
structure Metadata where
  splitSlot : Option Slot := none
  anchorSlot : Option Slot := none
  headStateRoot : Option Root := none
deriving DecidableEq, Repr

structure Db (S : Type) where
  blocks : HashMap Root SignedBeaconBlock
  states : HashMap Root S
  forkchoice : Option ForkChoiceSnapshot
  slotToBlockRoot : HashMap Slot Root
  blockRootToSlot : HashMap Root Slot
  payloadStatus : HashMap Root PayloadStatus
  stateSummary : HashMap Root StateSummary
  coldBlocks : HashMap Root SignedBeaconBlock
  coldStates : HashMap Slot S
  restorePoints : HashMap Slot Root
  metadata : Metadata

/- A database in which nothing has been written. -/
def Db.empty (S : Type) : Db S where
  blocks := ∅
  states := ∅
  forkchoice := none
  slotToBlockRoot := ∅
  blockRootToSlot := ∅
  payloadStatus := ∅
  stateSummary := ∅
  coldBlocks := ∅
  coldStates := ∅
  restorePoints := ∅
  metadata := {}

/- What is written together with a block. -/
structure BlockTransition (S : Type) where
  block : Option (Root × SignedBeaconBlock) := none
  state : Option (Root × S) := none
  forkchoice : Option ForkChoiceSnapshot := none
  slotIndex : Option (Slot × Root) := none
  payloadStatus : Option (Root × PayloadStatus) := none
  stateSummary : Option (Root × StateSummary) := none
  metadata : Metadata := {}

namespace Db

def writeBlockTransition (db : Db S) (batch : BlockTransition S) : Db S :=
  { db with
    blocks := putOptional db.blocks batch.block
    states := putOptional db.states batch.state
    forkchoice := batch.forkchoice <|> db.forkchoice
    slotToBlockRoot := putOptional db.slotToBlockRoot batch.slotIndex
    blockRootToSlot := putOptional db.blockRootToSlot (batch.slotIndex.map Prod.swap)
    payloadStatus := putOptional db.payloadStatus batch.payloadStatus
    stateSummary := putOptional db.stateSummary batch.stateSummary
    metadata :=
      { splitSlot :=
          batch.metadata.splitSlot <|> db.metadata.splitSlot
        anchorSlot := batch.metadata.anchorSlot <|> db.metadata.anchorSlot
        headStateRoot := batch.metadata.headStateRoot <|> db.metadata.headStateRoot } }

end Db

----
-- Reads
----

namespace Db

section

variable (db : Db S)

def blockRootAtSlot (slot : Slot) : Option Root :=
  db.slotToBlockRoot.lookup slot

def getBlockHotOrCold (root : Root) : Option SignedBeaconBlock :=
  db.blocks.lookup root <|> db.coldBlocks.lookup root

def getBlocksByRange (startSlot : Slot) (count : Nat) : List SignedBeaconBlock :=
  (List.range' startSlot count).filterMap fun slot =>
    (db.blockRootAtSlot slot).bind db.blocks.lookup

def hotBlockRootsInRange (fromSlot belowSlot : Slot) : List (Root × Slot) :=
  db.blockRootToSlot.entries.filterMap fun entry =>
    if entry.2 < fromSlot ∨ entry.2 ≥ belowSlot then
      none
    else if entry.1 ∈ db.blocks then
      some (entry.1, entry.2)
    else
      none

def nearestRestorePoint (targetSlot : Slot) : Option (Slot × Root) :=
  (List.range (targetSlot + 1)).reverse.findSome? fun slot =>
    (db.restorePoints.lookup slot).map fun root => (slot, root)

def splitSlotOrZero : Slot :=
  db.metadata.splitSlot.getD 0

end

end Db

/- What one step of the freezer moves and deletes. -/
structure ColdMigrationBatch (S : Type) where
  coldBlocks : List (Root × SignedBeaconBlock)
  coldStates : List (Slot × Root × S)
  pruneBlockRoots : List Root
  pruneStateRoots : List Root
  pruneOrphanBlockRoots : List Root
  splitSlot : Slot

/- The slot index is never pruned. -/
def Db.migrateToCold (db : Db S) (batch : ColdMigrationBatch S) : Db S :=
  { db with
    coldBlocks := putAll db.coldBlocks batch.coldBlocks
    coldStates := putAll db.coldStates (batch.coldStates.map fun entry => (entry.1, entry.2.2))
    restorePoints := putAll db.restorePoints
      (batch.coldStates.map fun entry => (entry.1, entry.2.1))
    blocks := deleteAll (deleteAll db.blocks batch.pruneBlockRoots) batch.pruneOrphanBlockRoots
    blockRootToSlot := deleteAll db.blockRootToSlot batch.pruneOrphanBlockRoots
    stateSummary := deleteAll db.stateSummary batch.pruneOrphanBlockRoots
    states := deleteAll db.states batch.pruneStateRoots
    metadata := { db.metadata with splitSlot := some batch.splitSlot } }

variable {db : Db S}

theorem mem_hotBlockRootsInRange_iff {fromSlot belowSlot slot : Slot} {r : Root} :
    (r, slot) ∈ db.hotBlockRootsInRange fromSlot belowSlot ↔
      db.blockRootToSlot.lookup r = some slot ∧ fromSlot ≤ slot ∧ slot < belowSlot ∧
        r ∈ db.blocks := by
  unfold Db.hotBlockRootsInRange
  rw [List.mem_filterMap, ← Option.mem_def, AList.mem_lookup_iff]
  constructor
  · rintro ⟨e, hRow, hSome⟩
    split at hSome
    · cases hSome
    · rename_i hRange
      split at hSome
      · rename_i hHot
        cases hSome
        rw [not_or, not_lt, not_le] at hRange
        exact ⟨hRow, hRange.1, hRange.2, hHot⟩
      · cases hSome
  · rintro ⟨hRow, hFrom, hBelow, hHot⟩
    refine ⟨⟨r, slot⟩, hRow, ?_⟩
    have hRange : ¬(slot < fromSlot ∨ slot ≥ belowSlot) := by
      rw [not_or, not_lt, not_le]
      exact ⟨hFrom, hBelow⟩
    rw [if_neg hRange, if_pos hHot]

theorem lookup_blocks_migrateToCold (batch : ColdMigrationBatch S) (r : Root) :
    (db.migrateToCold batch).blocks.lookup r =
      if r ∈ batch.pruneOrphanBlockRoots ∨ r ∈ batch.pruneBlockRoots then none
      else db.blocks.lookup r := by
  show (deleteAll (deleteAll db.blocks batch.pruneBlockRoots)
    batch.pruneOrphanBlockRoots).lookup r = _
  rw [lookup_deleteAll, lookup_deleteAll]
  by_cases hOrphan : r ∈ batch.pruneOrphanBlockRoots
  · simp [hOrphan]
  · simp [hOrphan]

end Pharos.Storage
