import Pharos.Storage.Db

/-
  This file implements the search for the block with a state root, and says which blocks it finds.

  The search goes up from the anchor in batches of slots. It ends with a batch that has no block,
  even if there are blocks after it.

  Main theorems:
  * `findBlockRootByStateRoot_iff`
-/

----
-- Batches
----

namespace Pharos.Node

open Storage HashTable List

variable {S : Type} {db : Db S} {target root : Root} {start slot batches : Nat}

def batchSize : Nat := 256

def hasStateRoot (db : Db S) (target : Root) (slot : Slot) : Bool :=
  ((db.blockRootAtSlot slot).bind db.stateSummary.lookup).any (·.stateRoot = target)

/- A batch is left at its last block. -/
def scanBatches (db : Db S) (target : Root) : Nat → Slot → Option Root
| 0, _ => none
| batches + 1, slot =>
  let batch := List.range' slot batchSize
  match batch.find? (hasStateRoot db target) with
  | some found => db.blockRootAtSlot found
  | none =>
    match (batch.filter fun slot => (db.blockRootAtSlot slot).isSome).getLast? with
    | none => none
    | some lastSlot => scanBatches db target batches (lastSlot + 1)

/- A number of batches is given that the search may take. -/
def findBlockRootByStateRoot (db : Db S) (target : Root) (batches : Nat) : Option Root :=
  scanBatches db target batches (db.metadata.anchorSlot.getD 0)

/- A search comes to a slot: no block before has the state root, and no batch before is empty. -/
structure ComesTo (db : Db S) (target : Root) (start slot : Nat) : Prop where
  le : start ≤ slot
  first : ∀ early : Nat, start ≤ early → early < slot → ¬hasStateRoot db target early
  dense : ∀ early : Nat, start ≤ early → early + batchSize ≤ slot →
    ∃ next : Nat, early ≤ next ∧ next < early + batchSize ∧ (db.blockRootAtSlot next).isSome

theorem scanBatches_of_comesTo (hIndexed : db.blockRootAtSlot slot = some root)
    (hHas : hasStateRoot db target slot) (hComes : ComesTo db target start slot)
    (hBatches : slot < start + batches) : scanBatches db target batches start = some root := by
  induction batches generalizing start with
  | zero => exact absurd hComes.le (not_le.mpr hBatches)
  | succ batches ih =>
    rw [scanBatches]
    by_cases hHere : slot < start + batchSize
    · have hFound : (List.range' start batchSize).find? (hasStateRoot db target) = some slot := by
        refine find?_range'_eq_some.mpr ⟨hHas, mem_range'_1.mpr ⟨hComes.le, hHere⟩, ?_⟩
        simpa using hComes.first
      rw [hFound]
      exact hIndexed
    · have hNone : (List.range' start batchSize).find? (hasStateRoot db target) = none := by
        refine find?_eq_none.mpr fun early hEarly => ?_
        rw [mem_range'_1] at hEarly
        exact hComes.first early hEarly.1 (by omega)
      rw [hNone]
      cases hLast : ((List.range' start batchSize).filter fun slot =>
          (db.blockRootAtSlot slot).isSome).getLast? with
      | none =>
        rcases hComes.dense start le_rfl (not_lt.mp hHere) with ⟨next, hFrom, hTo, hBlk⟩
        have hEmpty := getLast?_eq_none_iff.mp hLast
        rw [filter_eq_nil_iff] at hEmpty
        exact absurd hBlk (hEmpty next (mem_range'_1.mpr ⟨hFrom, hTo⟩))
      | some lastSlot =>
        have hMem := mem_of_mem_filter (mem_of_getLast? hLast)
        rw [mem_range'_1] at hMem
        refine ih ⟨by omega, ?_, ?_⟩ (by omega)
        · exact fun early hEarly => hComes.first early (by omega)
        · exact fun early hEarly => hComes.dense early (by omega)

theorem comesTo_of_scanBatches (hFound : scanBatches db target batches start = some root) :
    ∃ slot, db.blockRootAtSlot slot = some root ∧ ComesTo db target start slot := by
  induction batches generalizing start with
  | zero => cases hFound
  | succ batches ih =>
    rw [scanBatches] at hFound
    split at hFound
    · rename_i slot hGot
      rcases find?_range'_eq_some.mp hGot with ⟨_, hMem, hFirst⟩
      rw [mem_range'_1] at hMem
      refine ⟨slot, hFound, hMem.1, by simpa using hFirst, ?_⟩
      intro early hEarly hBefore
      omega
    · rename_i hNone
      split at hFound
      · cases hFound
      · rename_i lastSlot hLast
        rcases mem_filter.mp (mem_of_getLast? hLast) with ⟨hMem, hBlk⟩
        rw [mem_range'_1] at hMem
        rcases ih hFound with ⟨slot, hIndexed, hComes⟩
        refine ⟨slot, hIndexed, by have := hComes.le; omega, ?_, ?_⟩
        · intro early hEarly hBefore
          by_cases hPast : early ≤ lastSlot
          · exact find?_eq_none.mp hNone early (mem_range'_1.mpr ⟨hEarly, by omega⟩)
          · exact hComes.first early (by omega) hBefore
        · intro early hEarly hBefore
          by_cases hPast : early ≤ lastSlot
          · exact ⟨lastSlot, hPast, by omega, hBlk⟩
          · exact hComes.dense early (by omega) hBefore

/-
  A block is found by the state root in its summary exactly if the search comes to a slot of it.
  More batches than slots up to the block are enough.
-/
theorem findBlockRootByStateRoot_iff (db : Db S) (root : Root) (summary : StateSummary)
    (batches : Nat) (hSummary : db.stateSummary.lookup root = some summary)
    (hBatches : ∀ slot, db.blockRootAtSlot slot = some root → slot < batches) :
    findBlockRootByStateRoot db summary.stateRoot batches = some root ↔
      ∃ slot, db.blockRootAtSlot slot = some root ∧
        ComesTo db summary.stateRoot (db.metadata.anchorSlot.getD 0) slot := by
  constructor
  · exact comesTo_of_scanBatches
  · rintro ⟨slot, hIndexed, hComes⟩
    refine scanBatches_of_comesTo hIndexed ?_ hComes (Nat.lt_add_left _ (hBatches slot hIndexed))
    simp [hasStateRoot, hIndexed, hSummary]

/- The first slot has a block, and the next block comes after some empty slots. -/
def gapDb (gap : Nat) : Db Unit :=
  { Db.empty Unit with
    slotToBlockRoot := putAll ∅ [(0, 1), (gap + 1, 2)]
    stateSummary := putAll ∅ [(1, ⟨0, 11, 0⟩), (2, ⟨gap + 1, 12, 1⟩)] }

theorem findBlockRootByStateRoot_iff_shortGap :
    ∃ slot, (gapDb 3).blockRootAtSlot slot = some 2 ∧ ComesTo (gapDb 3) 12 0 slot := by
  refine (findBlockRootByStateRoot_iff (gapDb 3) 2 ⟨4, 12, 1⟩ 5 (by decide) ?_).mp ?_
  · intro slot hSlot
    rcases mem_of_lookup_putAll hSlot with hMem | ⟨_, hEmpty⟩
    · simp_all
    · cases hEmpty
  · decide +kernel

theorem long_gap_hides_block :
    (gapDb 256).blockRootAtSlot 257 = some 2 ∧
      (gapDb 256).stateSummary.lookup 2 = some ⟨257, 12, 1⟩ ∧
      findBlockRootByStateRoot (gapDb 256) 12 258 = none := by
  decide +kernel

end Pharos.Node
