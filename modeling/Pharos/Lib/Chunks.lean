import Mathlib.Algebra.Order.Ring.Nat
import Mathlib.Data.List.Basic

/-
  This file implements lists that are cut into chunks of one size, the last of which may be shorter,
  and what happens to the chunks when one place of the list is written.
-/

----
-- Writing a Place
----

namespace Chunks

open List

section

variable {Value : Type}

/- Write at a place, or behind the last value. -/
def put (values : List Value) (place : Nat) (value : Value) : List Value :=
  values.take place ++ value :: values.drop (place + 1)

@[simp]
theorem put_nil_zero (v : Value) : put [] 0 v = [v] :=
  rfl

@[simp]
theorem put_cons_zero (a : Value) (xs : List Value) (v : Value) : put (a :: xs) 0 v = v :: xs :=
  rfl

@[simp]
theorem put_cons_succ (a : Value) (xs : List Value) (i : Nat) (v : Value) :
    put (a :: xs) (i + 1) v = a :: put xs i v :=
  rfl

theorem put_length (vs : List Value) (v : Value) : put vs vs.length v = vs ++ [v] := by
  simp [put]

variable {vs : List Value} {i : Nat}

theorem put_of_lt (hPlace : i < vs.length) (v : Value) : put vs i v = vs.set i v := by
  rw [set_eq_take_append_cons_drop, if_pos hPlace, put]

theorem put_ne_nil (vs : List Value) (i : Nat) (v : Value) : put vs i v ≠ [] := by
  simp [put]

variable {n : Nat}

theorem getElem?_put (hLen : i ≤ vs.length) (v : Value) (j : Nat) :
    (put vs i v)[j]? = if j = i then some v else vs[j]? := by
  unfold put
  grind

theorem take_put_of_lt (hPlace : i < n) (hLen : i ≤ vs.length) (v : Value) :
    (put vs i v).take n = put (vs.take n) i v := by
  apply ext_getElem?
  intro j
  rw [getElem?_take, getElem?_put hLen, getElem?_put (by grind), getElem?_take]
  grind

theorem drop_put_of_lt (hPlace : i < n) (hLen : i ≤ vs.length) (v : Value) :
    (put vs i v).drop n = vs.drop n := by
  apply ext_getElem?
  intro j
  rw [getElem?_drop, getElem?_drop, getElem?_put hLen, if_neg (by omega)]

theorem take_put_of_le (hPlace : n ≤ i) (hLen : i ≤ vs.length) (v : Value) :
    (put vs i v).take n = vs.take n := by
  rw [put, take_append_of_le_length, take_take, min_eq_left hPlace]
  rw [length_take]
  omega

theorem drop_put_of_le (hPlace : n ≤ i) (hLen : i ≤ vs.length) (v : Value) :
    (put vs i v).drop n = put (vs.drop n) (i - n) v := by
  apply ext_getElem?
  intro j
  rw [getElem?_drop, getElem?_put hLen, getElem?_put (by grind), getElem?_drop]
  grind

end

----
-- Chunks
----

variable {Value Byte : Type}

/- Pieces of one size, the last of which may be shorter. -/
def chunks (size : Nat) (values : List Value) : List (List Value) :=
  (List.range ((values.length + size - 1) / size)).map fun i =>
    (values.drop (i * size)).take size

theorem length_chunks (size : Nat) (vs : List Value) :
    (chunks size vs).length = (vs.length + size - 1) / size := by
  simp [chunks]

variable {size : Nat}

@[simp]
theorem chunks_nil : chunks size ([] : List Value) = [] := by
  unfold chunks
  rw [length_nil, Nat.zero_add, map_eq_nil_iff, range_eq_nil, Nat.div_eq_zero_iff]
  omega

variable {vs : List Value}

section

variable (hSize : 0 < size)
include hSize

theorem chunks_of_ne_nil (hSome : vs ≠ []) :
    chunks size vs = vs.take size :: chunks size (vs.drop size) := by
  have hLen := length_pos_of_ne_nil hSome
  have hCount : (vs.length + size - 1) / size = ((vs.drop size).length + size - 1) / size + 1 := by
    rw [length_drop, ← Nat.add_div_right _ hSize]
    by_cases hLong : size ≤ vs.length
    · congr 1
      omega
    · rw [Nat.div_eq_of_lt_le (k := 1) (by omega) (by omega),
        Nat.div_eq_of_lt_le (k := 1) (by omega) (by omega)]
  unfold chunks
  rw [hCount, range_succ_eq_map, map_cons, map_map]
  simp [Function.comp_def, Nat.succ_mul, add_comm]

theorem chunks_induction {motive : List Value → Prop} (nil : motive [])
    (chunk : ∀ vs, vs ≠ [] → motive (vs.drop size) → motive vs)
    (vs : List Value) : motive vs := by
  induction hLen : vs.length using Nat.strongRecOn generalizing vs with
  | _ len ih =>
    by_cases hSome : vs = []
    · rw [hSome]
      exact nil
    · have hPositive := length_pos_of_ne_nil hSome
      apply chunk vs hSome
      apply ih (vs.drop size).length _ _ rfl
      rw [length_drop]
      omega

theorem flatten_chunks (vs : List Value) : (chunks size vs).flatten = vs := by
  induction vs using chunks_induction hSize with
  | nil => simp
  | chunk vs hSome ih =>
    rw [chunks_of_ne_nil hSize hSome, flatten_cons, ih, take_append_drop]

theorem getD_chunks (vs : List Value) (i : Nat) :
    (chunks size vs)[i]?.getD [] = (vs.drop (i * size)).take size := by
  unfold chunks
  rw [getElem?_map]
  by_cases hPlace : i < (vs.length + size - 1) / size
  · simp [getElem?_range hPlace]
  · have hPast : vs.length ≤ i * size := by
      rw [not_lt, Nat.div_le_iff_le_mul_add_pred hSize, mul_comm] at hPlace
      omega
    simp [hPlace, hPast]

theorem getElem?_chunks (vs : List Value) (i : Nat) :
    (chunks size vs)[i / size]?.bind (·[i % size]?) = vs[i]? := by
  have hBind : (chunks size vs)[i / size]?.bind (·[i % size]?) =
      ((chunks size vs)[i / size]?.getD [])[i % size]? := by
    cases (chunks size vs)[i / size]? <;> simp
  rw [hBind, getD_chunks hSize, getElem?_take_of_lt (Nat.mod_lt i hSize), getElem?_drop,
    Nat.div_add_mod']

theorem chunks_put {i : Nat} (hPlace : i ≤ vs.length) (v : Value) :
    chunks size (put vs i v) = put (chunks size vs) (i / size)
      (put ((chunks size vs)[i / size]?.getD []) (i % size) v) := by
  induction vs using chunks_induction hSize generalizing i with
  | nil =>
    rw [length_nil, Nat.le_zero] at hPlace
    subst hPlace
    rw [put_nil_zero, chunks_of_ne_nil hSize (cons_ne_nil v [])]
    cases size with
    | zero => omega
    | succ size => simp
  | chunk vs hSome ih =>
    rw [chunks_of_ne_nil hSize (put_ne_nil _ _ _), chunks_of_ne_nil hSize hSome]
    by_cases hFst : i < size
    · rw [take_put_of_lt hFst hPlace, drop_put_of_lt hFst hPlace, Nat.div_eq_of_lt hFst,
        Nat.mod_eq_of_lt hFst]
      simp
    · have hNext : i = (i - size) + size := by omega
      rw [take_put_of_le (by omega) hPlace, drop_put_of_le (by omega) hPlace]
      rw [ih (by rw [length_drop]; omega)]
      have hDiv : i / size = (i - size) / size + 1 := by
        rw [← Nat.add_div_right _ hSize, ← hNext]
      have hMod : i % size = (i - size) % size := by
        rw [← Nat.add_mod_right (i - size), ← hNext]
      rw [hDiv, hMod]
      simp

theorem length_nextChunk (vs : List Value) :
    ((chunks size vs)[vs.length / size]?.getD []).length = vs.length % size := by
  have hLess := Nat.mod_lt vs.length hSize
  rw [getD_chunks hSize, length_take, length_drop, ← Nat.mod_eq_sub_div_mul, min_eq_right hLess.le]

theorem div_le_length_chunks {i : Nat} (hPlace : i ≤ vs.length) :
    i / size ≤ (chunks size vs).length := by
  rw [length_chunks]
  apply Nat.div_le_div_right
  omega

end

variable {width : Nat}

theorem take_flatMap {encode : Value → List Byte}
    (hWidth : ∀ v, (encode v).length = width) (vs : List Value) (n : Nat) :
    (vs.flatMap encode).take (n * width) = (vs.take n).flatMap encode ∧
      (vs.flatMap encode).drop (n * width) = (vs.drop n).flatMap encode := by
  induction n generalizing vs with
  | zero => simp
  | succ n ih =>
    cases vs with
    | nil => simp
    | cons a xs =>
      rw [Nat.succ_mul, add_comm, ← hWidth a, flatMap_cons,
        take_length_add_append, drop_length_add_append, hWidth a]
      simp [ih xs]

theorem chunks_flatMap {encode : Value → List Byte}
    (hWidth : ∀ v, (encode v).length = width) (hPositive : 0 < width) (hSize : 0 < size)
    (vs : List Value) :
    chunks (size * width) (vs.flatMap encode) =
      (chunks size vs).map fun chunk => chunk.flatMap encode := by
  induction vs using chunks_induction hSize with
  | nil => simp
  | chunk vs hSome ih =>
    have hEncoded : vs.flatMap encode ≠ [] := by
      cases vs with
      | nil => exact absurd rfl hSome
      | cons a xs =>
        intro hNil
        have hLen := congrArg List.length hNil
        rw [flatMap_cons, length_append, hWidth a, length_nil] at hLen
        omega
    rcases take_flatMap hWidth vs size with ⟨hTake, hDrop⟩
    rw [chunks_of_ne_nil (mul_pos hSize hPositive) hEncoded, hTake, hDrop, ih,
        chunks_of_ne_nil hSize hSome, map_cons]

theorem chunks_one (vs : List Value) : chunks 1 vs = vs.map fun v => [v] := by
  induction vs with
  | nil => simp
  | cons a xs ih =>
    rw [chunks_of_ne_nil Nat.one_pos (cons_ne_nil a xs)]
    simp [ih]

/- As many chunks are needed for wider elements. -/
theorem chunkCount_mul (hSize : 0 < size) (hWidth : 0 < width) (n : Nat) :
    (n * width + size * width - 1) / (size * width) = (n + size - 1) / size := by
  have hLow := Nat.div_mul_le_self (n + size - 1) size
  have hHigh := Nat.lt_div_mul_add hSize (a := n + size - 1)
  generalize (n + size - 1) / size = quotient at *
  have hLowWide : (quotient * size + 1) * width ≤ (n + size) * width :=
      Nat.mul_le_mul_right width (by omega)
  have hHighWide : (n + size) * width ≤ (quotient * size + size) * width :=
      Nat.mul_le_mul_right width (by omega)
  simp only [Nat.add_mul, Nat.one_mul] at hLowWide hHighWide
  apply Nat.div_eq_of_lt_le
  · rw [← mul_assoc]
    omega
  · rw [add_mul, one_mul, ← mul_assoc]
    omega

end Chunks
