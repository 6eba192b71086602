import Mathlib.Algebra.Order.Ring.Nat
import Mathlib.Data.List.Nodup
import Mathlib.Data.List.Perm.Subperm
import Mathlib.Data.List.Range

/-
  This file describes how an initial segment of the numbers is cut into consecutive slices, and maps
  that permute it.
-/

----
-- Slices
----

namespace Slices

open List

/- The places of the items that pass a test. -/
theorem nodup_filterMap_zipIdx {Item : Type} (items : List Item) (test : Item → Bool) :
    (items.zipIdx.filterMap fun e => if test e.1 then some e.2 else none).Nodup := by
  have hEq : (items.zipIdx.filterMap fun e => if test e.1 then some e.2 else none) =
      (items.zipIdx.filter fun e => test e.1).map Prod.snd := by
    rw [← filterMap_eq_map, filterMap_filter]
    rfl
  rw [hEq]
  apply Nodup.sublist (filter_sublist.map Prod.snd)
  rw [zipIdx_map_snd]
  exact nodup_range'

section

def slice (boundary : Nat → Nat) (index : Nat) : List Nat :=
  List.range' (boundary index) (boundary (index + 1) - boundary index)

variable {bound : Nat → Nat}

theorem mem_slice_iff {i n : Nat} : n ∈ slice bound i ↔ bound i ≤ n ∧ n < bound (i + 1) := by
  unfold slice
  rw [mem_range'_1]
  omega

theorem flatMap_slice (hMono : Monotone bound) (n : Nat) :
    (List.range n).flatMap (slice bound) = List.range' (bound 0) (bound n - bound 0) := by
  induction n with
  | zero => simp
  | succ n ih =>
    have hFst : bound 0 ≤ bound n := hMono (Nat.zero_le n)
    have hLast : bound n ≤ bound (n + 1) := hMono (Nat.le_succ n)
    rw [range_succ, flatMap_append, ih, flatMap_singleton]
    unfold slice
    rw [show bound n = bound 0 + 1 * (bound n - bound 0) by
          omega,
      Nat.add_sub_cancel_left, Nat.one_mul, range'_append_1]
    congr 1
    omega

theorem slice_unique (hMono : Monotone bound) {a b n : Nat}
    (hFst : n ∈ slice bound a) (hSnd : n ∈ slice bound b) :
    a = b := by
  rw [mem_slice_iff] at hFst hSnd
  apply le_antisymm
  · apply not_lt.mp
    intro hLess
    have hPre : bound (b + 1) ≤ bound a := hMono (Nat.succ_le_of_lt hLess)
    omega
  · apply not_lt.mp
    intro hLess
    have hPre : bound (a + 1) ≤ bound b := hMono (Nat.succ_le_of_lt hLess)
    omega

/- The boundaries of equal shares, as far as they are equal. -/
def share (total count index : Nat) : Nat :=
  total * index / count

theorem monotone_share (total n : Nat) : Monotone (share total n) := by
  intro a b hLe
  exact Nat.div_le_div_right (Nat.mul_le_mul_left total hLe)

@[simp] theorem share_zero (total n : Nat) : share total n 0 = 0 := by
  simp [share]

theorem share_self (total : Nat) {n : Nat} (hCount : 0 < n) : share total n n = total :=
  Nat.mul_div_cancel total hCount

theorem lt_of_mem_share {total n i number : Nat} (hIdx : i < n)
    (hMem : number ∈ slice (share total n) i) : number < total := by
  have hTop := monotone_share total n hIdx
  rw [share_self total (Nat.zero_lt_of_lt hIdx)] at hTop
  exact (mem_slice_iff.mp hMem).2.trans_le hTop

theorem flatMap_grid {Value : Type} (rows columns : Nat) (e : Nat → List Value) :
    ((List.range rows).flatMap fun row =>
        (List.range columns).flatMap fun col => e (row * columns + col)) =
      (List.range (rows * columns)).flatMap e := by
  induction rows with
  | zero => simp
  | succ rows ih =>
    rw [range_succ, flatMap_append, ih, flatMap_singleton, Nat.succ_mul,
      range_add, flatMap_append, flatMap_map]

end

----
-- Permutations
----

variable {Value Step : Type} {set : Set Value}

theorem foldl_mapsTo {step : Value → Step → Value}
    (hMaps : ∀ act, Set.MapsTo (step · act) set set) (acts : List Step) :
    Set.MapsTo (acts.foldl step) set set := by
  induction acts with
  | nil => exact Set.mapsTo_id set
  | cons act xs ih =>
    intro v hValue
    exact ih (hMaps act hValue)

theorem foldl_injOn {step : Value → Step → Value}
    (hMaps : ∀ act, Set.MapsTo (step · act) set set)
    (hInj : ∀ act, Set.InjOn (step · act) set) (acts : List Step) :
    Set.InjOn (acts.foldl step) set := by
  induction acts with
  | nil => exact Set.injOn_id set
  | cons act xs ih =>
    intro a hFst b hSnd hEq
    apply hInj act hFst hSnd
    exact ih (hMaps act hFst) (hMaps act hSnd) hEq

theorem perm_range {map : Nat → Nat} {n : Nat}
    (hMaps : Set.MapsTo map (Set.Iio n) (Set.Iio n))
    (hInj : Set.InjOn map (Set.Iio n)) :
    ((List.range n).map map).Perm (List.range n) := by
  have hNodup : ((List.range n).map map).Nodup := by
    refine List.Nodup.map_on ?_ nodup_range
    intro a hFst b hSnd hEq
    exact hInj (mem_range.mp hFst) (mem_range.mp hSnd) hEq
  have hSubset : (List.range n).map map ⊆ List.range n := by
    intro number hNumber
    rcases mem_map.mp hNumber with ⟨i, hIdx, rfl⟩
    exact mem_range.mpr (hMaps (mem_range.mp hIdx))
  apply (hNodup.subperm hSubset).perm_of_length_le
  rw [length_map]

end Slices
