import Pharos.Node.Freezer

/-
  This file says which states the freezer keeps as restore points, and when there is one at most two
  intervals before every slot.

  A state is stored at the first slot of an epoch only, and only if this slot has a block.

  Main theorems:
  * `restore_points_dense_iff`
-/

----
-- Selected States
----

namespace Pharos.Node

open BeaconSpec Storage HashTable List

section

variable {S : Type} {db : Db S} {slot : Slot} {intervalSlots : Nat}
variable {entry : Slot × Root × S}

def IsMultiple (intervalSlots : Nat) (slot : Slot) : Prop :=
  intervalSlots > 0 ∧ slot % intervalSlots = 0

instance (intervalSlots : Nat) (slot : Slot) : Decidable (IsMultiple intervalSlots slot) :=
  inferInstanceAs (Decidable (_ ∧ _))

/- The slot has a block in the index, and the state after this block is stored. -/
def StateIndexed (db : Db S) (slot : Slot) : Prop :=
  ∃ blockRoot summary state, db.blockRootAtSlot slot = some blockRoot ∧
    db.stateSummary.lookup blockRoot = some summary ∧
    db.states.lookup summary.stateRoot = some state

theorem of_indexedState (hGot : indexedState db slot = some entry) :
    entry.1 = slot ∧ ∃ blockRoot summary, db.blockRootAtSlot slot = some blockRoot ∧
      db.stateSummary.lookup blockRoot = some summary ∧
      db.states.lookup summary.stateRoot = some entry.2.2 := by
  rcases Option.bind_eq_some_iff.mp hGot with ⟨blockRoot, hr, hGot⟩
  rcases Option.bind_eq_some_iff.mp hGot with ⟨summary, hSummary, hGot⟩
  rcases Option.bind_eq_some_iff.mp hGot with ⟨s, hs, hGot⟩
  cases hGot
  exact ⟨rfl, blockRoot, summary, hr, hSummary, hs⟩

theorem stateIndexed_iff : StateIndexed db slot ↔ ∃ entry, indexedState db slot = some entry := by
  constructor
  · rintro ⟨blockRoot, summary, state, hr, hSummary, hs⟩
    exact ⟨_, by simp [indexedState, hr, hSummary, hs]; rfl⟩
  · rintro ⟨entry, hGot⟩
    rcases (of_indexedState hGot).2 with ⟨blockRoot, summary, hr, hSummary, hs⟩
    exact ⟨blockRoot, summary, entry.2.2, hr, hSummary, hs⟩

theorem indexedState_of_mem {slots : List Slot} (hMem : entry ∈ slots.filterMap (indexedState db)) :
    entry.1 ∈ slots ∧ indexedState db entry.1 = some entry := by
  rcases mem_filterMap.mp hMem with ⟨slot, hSlot, hGot⟩
  rw [(of_indexedState hGot).1]
  exact ⟨hSlot, hGot⟩

theorem scan_eq {slots : List Slot} (hUp : slots.Pairwise (· < ·)) :
    slots.foldl (scanBoundary db intervalSlots) ([], none) =
      ((slots.filterMap (indexedState db)).filter (IsMultiple intervalSlots ·.1),
        ((slots.filterMap (indexedState db)).filter (¬IsMultiple intervalSlots ·.1)).getLast?) := by
  induction slots using List.reverseRecOn with
  | nil => rfl
  | append_singleton slots slot ih =>
    rcases pairwise_append.mp hUp with ⟨hUp, _, hAfter⟩
    rw [foldl_concat, ih hUp, filterMap_append, scanBoundary]
    cases hHere : indexedState db slot with
    | none => simp [hHere]
    | some entry =>
      have hSlot := (of_indexedState hHere).1
      by_cases hMultiple : IsMultiple intervalSlots slot
      · exact (if_pos hMultiple).trans (by simp [hMultiple, hHere, hSlot])
      · refine (if_neg hMultiple).trans ((if_pos ?_).trans (by simp [hMultiple, hHere, hSlot]))
        rw [Option.all_eq_true]
        intro last hLast
        have hOld := indexedState_of_mem (mem_of_mem_filter (mem_of_getLast? hLast))
        simpa using hAfter _ hOld.1 slot (mem_singleton_self slot)

theorem getLast?_eq_some_iff_of_pairwise {entries : List (Slot × Root × S)}
    (hUp : entries.Pairwise fun x y => x.1 < y.1) :
    entries.getLast? = some entry ↔ entry ∈ entries ∧ ∀ other ∈ entries, other.1 ≤ entry.1 := by
  rw [getLast?_eq_some_iff]
  constructor
  · rintro ⟨before, rfl⟩
    have hBefore := (pairwise_append.mp hUp).2.2
    grind
  · rintro ⟨hMem, hLast⟩
    rcases append_of_mem hMem with ⟨before, later, rfl⟩
    have hLater := (pairwise_cons.mp (pairwise_append.mp hUp).2.1).1
    cases later with
    | nil => exact ⟨before, rfl⟩
    | cons next _ =>
      exact absurd (hLast next (by simp)) (not_le.mpr (hLater next mem_cons_self))

/- All multiples of the interval are selected. If there are none, the last state is. -/
theorem mem_selected {entries : List (Slot × Root × S)}
    (hUp : entries.Pairwise fun x y => x.1 < y.1) :
    entry ∈ (if (entries.filter (IsMultiple intervalSlots ·.1)).isEmpty then
        (entries.filter (¬IsMultiple intervalSlots ·.1)).getLast?.toList
      else
        entries.filter (IsMultiple intervalSlots ·.1)) ↔
      entry ∈ entries ∧ (IsMultiple intervalSlots entry.1 ∨
        ∀ other ∈ entries, ¬IsMultiple intervalSlots other.1 ∧ other.1 ≤ entry.1) := by
  by_cases hNone : ∀ other ∈ entries, ¬IsMultiple intervalSlots other.1
  · have hAll : entries.filter (¬IsMultiple intervalSlots ·.1) = entries := by
      simpa using hNone
    have hNo : entries.filter (IsMultiple intervalSlots ·.1) = [] := by
      simpa using hNone
    rw [hNo, hAll, isEmpty_nil, if_pos rfl, Option.mem_toList, getLast?_eq_some_iff_of_pairwise hUp]
    grind
  · rw [if_neg, mem_filter, decide_eq_true_iff]
    · exact and_congr_right fun _ => (or_iff_left fun hLast => hNone fun o ho => (hLast o ho).1).symm
    · rw [List.isEmpty_iff, filter_eq_nil_iff]
      simpa using hNone

end

variable {S : Type} [BeaconSpec S] {db : Db S} {splitSlot fin interval : Nat}

/- The first slot of an epoch, between the split and the finalized slot, whose state is stored. -/
def IsCandidate (db : Db S) (splitSlot finalizedSlot slot : Slot) : Prop :=
  splitSlot < slot ∧ slot ≤ finalizedSlot ∧ slotsPerEpoch S ∣ slot ∧ StateIndexed db slot

/- All multiples of the interval are selected. If there are none, the last candidate is. -/
def IsSelected (db : Db S) (splitSlot finalizedSlot : Slot) (intervalEpochs : Nat)
    (slot : Slot) : Prop :=
  let intervalSlots := saturatingMul intervalEpochs (slotsPerEpoch S)
  IsCandidate db splitSlot finalizedSlot slot ∧
    (IsMultiple intervalSlots slot ∨ ∀ other, IsCandidate db splitSlot finalizedSlot other →
      ¬IsMultiple intervalSlots other ∧ other ≤ slot)

variable (S) in
def boundaries (splitSlot finalizedSlot : Slot) : List Slot :=
  let first := firstBoundaryAfter S splitSlot
  List.range' first ((finalizedSlot + slotsPerEpoch S - first) / slotsPerEpoch S) (slotsPerEpoch S)

theorem firstBoundaryAfter_eq (hPos : 0 < slotsPerEpoch S) :
    firstBoundaryAfter S splitSlot = slotsPerEpoch S * (splitSlot / slotsPerEpoch S + 1) := by
  have hNext := Nat.div_add_mod (splitSlot + 1) (slotsPerEpoch S)
  have hLt := Nat.mod_lt (splitSlot + 1) hPos
  unfold firstBoundaryAfter
  dsimp only
  rw [Nat.succ_div] at hNext
  split at hNext
  · rename_i hDvd
    rw [if_pos (Nat.mod_eq_zero_of_dvd hDvd)]
    rw [Nat.mod_eq_zero_of_dvd hDvd] at hNext
    exact hNext.symm
  · rename_i hNot
    rw [if_neg fun hZero => hNot (Nat.dvd_of_mod_eq_zero hZero), Nat.mul_succ]
    rw [Nat.add_zero] at hNext
    rw [← Nat.add_sub_assoc hLt.le]
    exact Nat.sub_eq_of_eq_add (by omega)

theorem mem_boundaries {slot : Slot} :
    slot ∈ boundaries S splitSlot fin ↔ splitSlot < slot ∧ slot ≤ fin ∧ slotsPerEpoch S ∣ slot := by
  rcases eq_zero_or_pos (slotsPerEpoch S) with hZero | hPos
  · simp only [boundaries, hZero, Nat.div_zero, range'_zero, not_mem_nil, Nat.zero_dvd, false_iff]
    rintro ⟨hAfter, _, rfl⟩
    exact Nat.not_lt_zero _ hAfter
  · have hCount : (fin + slotsPerEpoch S - slotsPerEpoch S * (splitSlot / slotsPerEpoch S + 1)) /
        slotsPerEpoch S = fin / slotsPerEpoch S - splitSlot / slotsPerEpoch S := by
      rw [Nat.mul_succ, Nat.add_sub_add_right, Nat.sub_mul_div]
    have hIn : ∀ k, splitSlot < slotsPerEpoch S * k ∧ slotsPerEpoch S * k ≤ fin ↔
        splitSlot / slotsPerEpoch S < k ∧ k ≤ fin / slotsPerEpoch S := fun k => by
      rw [Nat.div_lt_iff_lt_mul hPos, Nat.le_div_iff_mul_le hPos, Nat.mul_comm k]
    rw [boundaries, firstBoundaryAfter_eq hPos, hCount, mem_range', ← and_assoc]
    constructor
    · rintro ⟨i, hi, rfl⟩
      rw [← Nat.mul_add]
      exact ⟨(hIn _).mpr (by omega), Nat.dvd_mul_right _ _⟩
    · rintro ⟨hBetween, k, rfl⟩
      have hk := (hIn k).mp hBetween
      refine ⟨k - (splitSlot / slotsPerEpoch S + 1), by omega, ?_⟩
      rw [← Nat.mul_add, Nat.add_sub_cancel' hk.1]

theorem pairwise_boundaries : (boundaries S splitSlot fin).Pairwise (· < ·) := by
  rcases eq_zero_or_pos (slotsPerEpoch S) with hZero | hPos
  · simp [boundaries, hZero]
  · exact pairwise_lt_range' _ hPos

theorem mem_candidates {entry : Slot × Root × S} :
    entry ∈ (boundaries S splitSlot fin).filterMap (indexedState db) ↔
      indexedState db entry.1 = some entry ∧ IsCandidate db splitSlot fin entry.1 := by
  constructor
  · intro hMem
    have hGot := indexedState_of_mem hMem
    have hSlot := mem_boundaries.mp hGot.1
    exact ⟨hGot.2, hSlot.1, hSlot.2.1, hSlot.2.2, stateIndexed_iff.mpr ⟨entry, hGot.2⟩⟩
  · rintro ⟨hGot, hAfter, hLe, hDvd, _⟩
    exact mem_filterMap.mpr ⟨entry.1, mem_boundaries.mpr ⟨hAfter, hLe, hDvd⟩, hGot⟩

theorem mem_selectRestorePointStates {entry : Slot × Root × S} :
    entry ∈ selectRestorePointStates db splitSlot fin interval ↔
      indexedState db entry.1 = some entry ∧ IsSelected db splitSlot fin interval entry.1 := by
  have hUp : ((boundaries S splitSlot fin).filterMap (indexedState db)).Pairwise
      fun x y => x.1 < y.1 := by
    refine pairwise_boundaries.filterMap _ fun x y hLt e he e' he' => ?_
    rwa [(of_indexedState he).1, (of_indexedState he').1]
  unfold selectRestorePointStates
  dsimp only
  rw [← boundaries, scan_eq pairwise_boundaries, mem_selected hUp, mem_candidates, and_assoc]
  refine and_congr_right fun _ => and_congr_right fun _ => or_congr_right ?_
  constructor
  · intro hLast other hOther
    rcases stateIndexed_iff.mp hOther.2.2.2 with ⟨e, he⟩
    obtain rfl := (of_indexedState he).1
    exact hLast e (mem_candidates.mpr ⟨he, hOther⟩)
  · intro hLast e he
    exact hLast e.1 (mem_candidates.mp he).2

theorem mem_map_selectRestorePointStates {slot : Slot} :
    slot ∈ (selectRestorePointStates db splitSlot fin interval).map Prod.fst ↔
      IsSelected db splitSlot fin interval slot := by
  rw [mem_map]
  constructor
  · rintro ⟨entry, hEntry, rfl⟩
    exact (mem_selectRestorePointStates.mp hEntry).2
  · intro hSelected
    rcases stateIndexed_iff.mp hSelected.1.2.2.2 with ⟨entry, hGot⟩
    obtain rfl := (of_indexedState hGot).1
    exact ⟨entry, mem_selectRestorePointStates.mpr ⟨hGot, hSelected⟩, rfl⟩

----
-- Runs
----

/- One step of the freezer, after what other parts of the node have written. -/
structure Migration (S : Type) where
  write : Db S → Db S
  finalizedSlot : Slot
  restorePoints_write : ∀ db, (write db).restorePoints = db.restorePoints

def runFreezer (intervalEpochs : Nat) : List (Migration S) → Db S → Db S
| [], db => db
| migration :: rest, db =>
  runFreezer intervalEpochs rest
    (migrateTo intervalEpochs migration.finalizedSlot (migration.write db))

/- A slot that some step selects from what is stored before it. -/
def SelectedInRun (intervalEpochs : Nat) : List (Migration S) → Db S → Slot → Prop
| [], _, _ => False
| migration :: rest, db, slot =>
  IsSelected (migration.write db) (migration.write db).splitSlotOrZero migration.finalizedSlot
      intervalEpochs slot ∨
    SelectedInRun intervalEpochs rest
      (migrateTo intervalEpochs migration.finalizedSlot (migration.write db)) slot

/- From the first point to the last slot, a point is near. -/
def DenseUpTo (last interval : Nat) (IsPoint : Nat → Prop) : Prop :=
  ∀ first slot, IsPoint first → first ≤ slot → slot ≤ last →
    ∃ point, IsPoint point ∧ point ≤ slot ∧ slot < point + 2 * interval

theorem mem_restorePoints_migrateTo {slot : Slot} :
    slot ∈ (migrateTo interval fin db).restorePoints ↔
      slot ∈ db.restorePoints ∨ IsSelected db db.splitSlotOrZero fin interval slot := by
  unfold migrateTo
  dsimp only
  split
  · rename_i hDone
    refine (or_iff_left fun hSelected => ?_).symm
    exact absurd (hSelected.1.1.trans_le hSelected.1.2.1) (not_lt.mpr hDone)
  · refine mem_putAll.trans (or_congr_right ?_)
    rw [map_map]
    exact mem_map_selectRestorePointStates

theorem mem_restorePoints_runFreezer {migrations : List (Migration S)} {slot : Slot} :
    slot ∈ (runFreezer interval migrations db).restorePoints ↔
      slot ∈ db.restorePoints ∨ SelectedInRun interval migrations db slot := by
  induction migrations generalizing db with
  | nil => exact (or_iff_left not_false).symm
  | cons migration rest ih =>
    rw [runFreezer, ih, mem_restorePoints_migrateTo, migration.restorePoints_write, or_assoc]
    rfl

theorem denseUpTo_iff {last : Nat} {IsPoint : Nat → Prop} :
    DenseUpTo last interval IsPoint ↔ ∀ point, IsPoint point → point + 2 * interval ≤ last →
      ∃ next, IsPoint next ∧ point < next ∧ next ≤ point + 2 * interval := by
  constructor
  · intro hDense point hPoint hLast
    rcases hDense point _ hPoint (Nat.le_add_right _ _) hLast with ⟨next, hNext, hLe, hNear⟩
    exact ⟨next, hNext, Nat.lt_of_add_lt_add_right hNear, hLe⟩
  · intro hNext first slot hFirst hLe hLast
    -- From point to point, up to the last one before the slot.
    induction hGap : slot - first using Nat.strong_induction_on generalizing first with
    | _ gap ih =>
      by_cases hNear : slot < first + 2 * interval
      · exact ⟨first, hFirst, hLe, hNear⟩
      · rcases hNext first hFirst (by omega) with ⟨next, hPoint, hLater, hSoon⟩
        exact ih (slot - next) (by omega) next hPoint (by omega) rfl

/-
  There is a restore point near every slot that is final exactly if no two slots that follow each
  other among those selected are further apart than two intervals, nor the last one from the end.
-/
theorem restore_points_dense_iff (intervalEpochs : Nat) (migrations : List (Migration S)) :
    let after := runFreezer intervalEpochs migrations (Db.empty S)
    let interval := saturatingMul intervalEpochs (slotsPerEpoch S)
    let selected := SelectedInRun intervalEpochs migrations (Db.empty S)
    DenseUpTo after.splitSlotOrZero interval (· ∈ after.restorePoints) ↔
      ∀ point, selected point → point + 2 * interval ≤ after.splitSlotOrZero →
        ∃ next, selected next ∧ point < next ∧ next ≤ point + 2 * interval := by
  intro after interval selected
  have hPoints : ∀ slot, slot ∈ after.restorePoints ↔ selected slot := by
    intro slot
    refine mem_restorePoints_runFreezer.trans ?_
    exact or_iff_right (AList.notMem_empty slot)
  simp only [hPoints]
  exact denseUpTo_iff

open Sample

/- Of three epochs, only the first has a block in its first slot. -/
def skippedStarts : Migration ChainState where
  write db :=
    { db with
      slotToBlockRoot := putAll ∅ [(4, 1), (7, 2), (11, 3)]
      stateSummary := putAll ∅ [(1, ⟨4, 11, 0⟩), (2, ⟨7, 12, 1⟩), (3, ⟨11, 13, 2⟩)]
      states := putAll ∅ [(11, anchorState)] }
  finalizedSlot := 12
  restorePoints_write _ := rfl

theorem skipped_starts_leave_gap :
    let after := runFreezer 1 [skippedStarts] (Db.empty ChainState)
    ¬DenseUpTo after.splitSlotOrZero (saturatingMul 1 (slotsPerEpoch ChainState))
      (· ∈ after.restorePoints) := by
  intro after hDense
  have hKeys : after.restorePoints.keys = [4] := by
    decide +kernel
  rcases hDense 4 12 (by decide +kernel) (by decide) (by decide +kernel) with ⟨point, hMem, _, hNear⟩
  rw [AList.mem_keys, hKeys, mem_singleton] at hMem
  rw [hMem] at hNear
  exact absurd hNear (by decide)

end Pharos.Node
