import Mathlib.Algebra.BigOperators.Group.Finset.Basic
import Pharos.Lib.HashTable

/-
  This file implements sums of weights over lists: over the parts of a list, over a list of parts
  that do not overlap, and over a table of counts.
-/

----
-- Replacement
----

namespace Sums

open List

/- One summand is replaced by another. -/
theorem sum_set {vs : List Nat} {i : Nat} (hIdx : i < vs.length) (v : Nat) :
    (vs.set i v).sum + vs.getD i 0 = vs.sum + v := by
  induction vs generalizing i with
  | nil => exact absurd hIdx (Nat.not_lt_zero i)
  | cons a xs ih =>
    cases i with
    | zero =>
      simp
      omega
    | succ i =>
      have hxs := ih (Nat.lt_of_succ_lt_succ hIdx)
      simp only [set_cons_succ, sum_cons, getD_cons_succ]
      omega

theorem getD_le_sum (vs : List Nat) (i : Nat) : vs.getD i 0 ≤ vs.sum := by
  induction vs generalizing i with
  | nil => simp
  | cons a xs ih =>
    cases i with
    | zero => simp
    | succ i =>
      have hxs := ih i
      simp only [sum_cons, getD_cons_succ]
      omega

theorem sum_modify_sub {vs : List Nat} {i taken : Nat} (hLe : taken ≤ vs.getD i 0) :
    (vs.modify i (· - taken)).sum + taken = vs.sum := by
  induction vs generalizing i with
  | nil => simpa using hLe
  | cons a xs ih =>
    cases i with
    | zero =>
      have hFst : taken ≤ a := hLe
      simp only [modify_zero_cons, sum_cons]
      omega
    | succ i =>
      have hxs := ih hLe
      simp only [modify_succ_cons, sum_cons]
      omega

theorem getD_modify_sub (vs : List Nat) (i taken x : Nat) :
    (vs.modify i (· - taken)).getD x 0 = vs.getD x 0 - (if i = x then taken else 0) := by
  rw [getD_eq_getElem?_getD, getElem?_modify, getD_eq_getElem?_getD]
  by_cases hEq : i = x
  · cases vs[x]? <;> simp [hEq]
  · simp [hEq]

----
-- Rewards and Penalties
----

/- One pair after the other; nothing is taken that is not there. -/
def applyEach (balance : Nat) (deltas : List (Nat × Nat)) : Nat :=
  deltas.foldl (fun balance delta => balance + delta.1 - delta.2) balance

def applyAtOnce (balance : Nat) (deltas : List (Nat × Nat)) : Nat :=
  balance + (deltas.map Prod.fst).sum - (deltas.map Prod.snd).sum

theorem applyEach_le_iff {bal b : Nat} {deltas : List (Nat × Nat)} :
    applyEach bal deltas ≤ b ↔ applyAtOnce bal deltas ≤ b ∧
      ∀ xs, xs <:+ deltas → (xs.map Prod.fst).sum ≤ (xs.map Prod.snd).sum + b := by
  induction deltas generalizing bal with
  | nil => simp [applyEach, applyAtOnce]
  | cons delta deltas ih =>
    have hStep : applyEach bal (delta :: deltas) = applyEach (bal + delta.1 - delta.2) deltas := rfl
    simp only [hStep, ih, suffix_cons_iff, forall_eq_or_imp, applyAtOnce, map_cons, sum_cons]
    constructor
    · rintro ⟨hAtOnce, hxs⟩
      exact ⟨by omega, by omega, hxs⟩
    · rintro ⟨hAtOnce, -, hxs⟩
      have hWhole := hxs deltas suffix_rfl
      exact ⟨by omega, hxs⟩

/-
  Both ways agree exactly if, wherever the pairs are split, the penalties before are covered or the
  rewards after are used up.
-/
theorem applyAtOnce_eq_applyEach_iff {bal : Nat} {deltas : List (Nat × Nat)} :
    applyAtOnce bal deltas = applyEach bal deltas ↔ ∀ front back, deltas = front ++ back →
      (front.map Prod.snd).sum ≤ bal + (front.map Prod.fst).sum ∨
        (back.map Prod.fst).sum ≤ (back.map Prod.snd).sum := by
  have hLe := (applyEach_le_iff.mp (le_refl (applyEach bal deltas))).1
  have hSplit : ∀ front back, deltas = front ++ back →
      ((back.map Prod.fst).sum ≤ (back.map Prod.snd).sum + applyAtOnce bal deltas ↔
        (front.map Prod.snd).sum ≤ bal + (front.map Prod.fst).sum ∨
          (back.map Prod.fst).sum ≤ (back.map Prod.snd).sum) := by
    rintro front back rfl
    simp only [applyAtOnce, map_append, sum_append]
    omega
  rw [le_antisymm_iff, applyEach_le_iff]
  constructor
  · rintro ⟨-, -, hxs⟩ front back hEq
    exact (hSplit front back hEq).mp (hxs back ⟨front, hEq.symm⟩)
  · intro hAll
    refine ⟨hLe, le_rfl, ?_⟩
    rintro back ⟨front, hEq⟩
    exact (hSplit front back hEq.symm).mpr (hAll front back hEq.symm)

----
-- Sums over Parts
----

variable {Item Part : Type}

def weigh (weight : Item → Nat) (isIn : Item → Bool) (items : List Item) : Nat :=
  ((items.filter isIn).map weight).sum

variable {w : Item → Nat} {ys : List Item}

@[simp] theorem weigh_nil (isIn : Item → Bool) : weigh w isIn [] = 0 :=
  rfl

theorem weigh_cons (isIn : Item → Bool) (item : Item) : weigh w isIn (item :: ys) =
      (if isIn item then w item else 0) + weigh w isIn ys := by
  unfold weigh
  by_cases hIn : isIn item
  · simp [hIn]
  · simp [hIn]

theorem weigh_append (isIn : Item → Bool) (os : List Item) :
    weigh w isIn (ys ++ os) = weigh w isIn ys + weigh w isIn os := by
  simp [weigh]

variable {isIn : Item → Bool}

theorem weigh_eq_zero (hOut : ∀ item ∈ ys, ¬isIn item) : weigh w isIn ys = 0 := by
  unfold weigh
  rw [filter_eq_nil_iff.mpr hOut]
  rfl

theorem weigh_split {isFirst : Item → Bool} (hWithin : ∀ item, isFirst item → isIn item) :
    weigh w isFirst ys + weigh w (fun item => isIn item && !isFirst item) ys = weigh w isIn ys := by
  induction ys with
  | nil => rfl
  | cons item xs ih =>
    have hHere : (if isFirst item then w item else 0) +
            (if isIn item && !isFirst item then w item else 0) =
          if isIn item then w item else 0 := by
      by_cases hFst : isFirst item
      · simp [hFst, hWithin item hFst]
      · simp [hFst]
    rw [weigh_cons, weigh_cons, weigh_cons, ← ih, ← hHere]
    omega

theorem weigh_le_weigh {isFirst : Item → Bool} (hWithin : ∀ item, isFirst item → isIn item) :
    weigh w isFirst ys ≤ weigh w isIn ys := by
  rw [← weigh_split hWithin]
  exact Nat.le_add_right _ _

/-
  Parts of a part that do not overlap weigh no more than it does. The induction takes the first part
  out of the whole.
-/
theorem weigh_parts_le {ps : List Part} (hNodup : ps.Nodup) {isInPart : Part → Item → Bool}
    (hWithin : ∀ part ∈ ps, ∀ item, isInPart part item → isIn item)
    (hApart : ∀ part ∈ ps, ∀ x ∈ ps, ∀ item, isInPart part item → isInPart x item → part = x) :
    (ps.map fun part => weigh w (isInPart part) ys).sum ≤ weigh w isIn ys := by
  induction ps generalizing isIn with
  | nil => exact Nat.zero_le _
  | cons part xs ih =>
    rcases nodup_cons.mp hNodup with ⟨hFresh, hRestNodup⟩
    have hxs : (xs.map fun x =>
            weigh w (isInPart x) ys).sum ≤
          weigh w (fun item => isIn item && !isInPart part item) ys := by
      refine ih hRestNodup ?_ ?_
      · intro x hx item hIn
        have hOut : isInPart part item = false := by
          by_contra hBoth
          have hEq := hApart part mem_cons_self x (mem_cons_of_mem _ hx) item
            (Bool.not_eq_false _ ▸ hBoth) hIn
          exact hFresh (hEq ▸ hx)
        rw [hWithin x (mem_cons_of_mem _ hx) item hIn, hOut]
        rfl
      · intro a hFst b hSnd
        exact hApart a (mem_cons_of_mem _ hFst) b (mem_cons_of_mem _ hSnd)
    rw [map_cons, sum_cons, ← weigh_split (hWithin part mem_cons_self)]
    exact Nat.add_le_add_left hxs _

----
-- Counts
----

/- A table that counts the items of a list by their keys. -/
theorem sum_counts {Key Value : Type} [DecidableEq Key] {table : HashTable Key Value}
    {size : Value → Nat} {ys : List Key}
    (hCount : ∀ k, ((table.lookup k).map size).getD 0 = ys.count k) :
    (table.entries.map fun e => size e.2).sum = ys.length := by
  have hSizes : table.entries.map (fun e => size e.2) = table.keys.map ys.count := by
    rw [AList.keys, List.keys, map_map]
    apply map_congr_left
    intro e hRow
    rw [Function.comp_apply, ← hCount, AList.mem_lookup_iff.mpr hRow]
    rfl
  have hKeys : ∀ k ∈ (ys : Multiset Key), k ∈ table.keys.toFinset := by
    intro k hKey
    rw [mem_toFinset, ← AList.mem_keys]
    by_contra hMissing
    have hNone := hCount k
    rw [AList.lookup_eq_none.mpr hMissing] at hNone
    exact absurd hNone.symm (count_pos_iff.mpr (Multiset.mem_coe.mp hKey)).ne'
  have hSum := Multiset.sum_count_eq_card hKeys
  simp only [sum_toFinset _ table.keys_nodup, Multiset.coe_card, Multiset.coe_count] at hSum
  rw [hSizes, hSum]

end Sums
