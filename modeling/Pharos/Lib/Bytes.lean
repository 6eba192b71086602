import Mathlib.Algebra.Order.Ring.Nat
import Mathlib.Data.List.Chain
import Mathlib.Data.List.Flatten

/-
  This file implements numbers as strings of bytes, the least significant first, and strings that
  are cut into pieces at given offsets.
-/

----
-- Numbers
----

namespace Bytes

open List

/- The bytes of a number, as many as are asked for. -/
def toLittleEndian : Nat → Nat → List UInt8
| 0, _ => []
| width + 1, value =>
  UInt8.ofNat (value % 256) :: toLittleEndian width (value / 256)

def ofLittleEndian : List UInt8 → Nat
| [] => 0
| byte :: rest => byte.toNat + 256 * ofLittleEndian rest

@[simp] theorem length_toLittleEndian (width v : Nat) :
    (toLittleEndian width v).length = width := by
  induction width generalizing v with
  | zero => rfl
  | succ width ih => simp [toLittleEndian, ih]

theorem ofLittleEndian_lt (bs : List UInt8) : ofLittleEndian bs < 256 ^ bs.length := by
  induction bs with
  | nil => simp [ofLittleEndian]
  | cons byte xs ih =>
    have hByte := byte.toNat_lt
    rw [ofLittleEndian, length_cons, pow_succ]
    omega

theorem ofLittleEndian_toLittleEndian {width v : Nat} (hFits : v < 256 ^ width) :
    ofLittleEndian (toLittleEndian width v) = v := by
  induction width generalizing v with
  | zero =>
    rw [toLittleEndian, ofLittleEndian]
    omega
  | succ width ih =>
    have hxs : v / 256 < 256 ^ width := by omega
    rw [toLittleEndian, ofLittleEndian, ih hxs, UInt8.toNat_ofNat']
    omega

theorem toLittleEndian_ofLittleEndian (bs : List UInt8) :
    toLittleEndian bs.length (ofLittleEndian bs) = bs := by
  induction bs with
  | nil => rfl
  | cons byte xs ih =>
    have hByte := byte.toNat_lt
    have hFst : (byte.toNat + 256 * ofLittleEndian xs) % 256 = byte.toNat := by
      omega
    have hxs : (byte.toNat + 256 * ofLittleEndian xs) / 256 = ofLittleEndian xs := by
      omega
    rw [length_cons, ofLittleEndian, toLittleEndian, hFst, hxs, ih, UInt8.ofNat_toNat]

----
-- Bits
----

def bit (place : Nat) : UInt8 :=
  1 <<< UInt8.ofNat place

def bitsFrom (place : Nat) : UInt8 :=
  ~~~(bit place - 1)

def highestBit (byte : UInt8) : Nat :=
  byte.toNat.log2

@[elab_as_elim] theorem byte_induction {motive : UInt8 → Prop}
    (all : ∀ n < 256, motive (UInt8.ofNat n)) (byte : UInt8) : motive byte := by
  rw [← @UInt8.ofNat_toNat byte]
  exact all byte.toNat byte.toNat_lt

variable {byte : UInt8}

theorem or_bit {i : Nat} (hPlace : i < 8) (hBelow : byte &&& bitsFrom i = 0) :
    byte ||| bit i ≠ 0 ∧ highestBit (byte ||| bit i) = i ∧
      (byte ||| bit i) &&& ~~~bit i = byte := by
  revert i
  induction byte using byte_induction with
  | all n hByte =>
    revert n
    decide +kernel

theorem and_not_highestBit (hByte : byte ≠ 0) :
    highestBit byte < 8 ∧ (byte &&& ~~~bit (highestBit byte)) &&& bitsFrom (highestBit byte) = 0 ∧
      (byte &&& ~~~bit (highestBit byte)) ||| bit (highestBit byte) = byte := by
  induction byte using byte_induction with
  | all n hLess =>
    revert n
    decide +kernel

theorem eq_one_of_highestBit (hByte : byte ≠ 0) (hFst : highestBit byte = 0) : byte = 1 := by
  induction byte using byte_induction with
  | all n hLess =>
    revert n
    decide +kernel

----
-- Slices of a string
----

variable {Byte : Type}

def slice (string : List Byte) (start stop : Nat) : List Byte :=
  (string.take stop).drop start

variable {string : List Byte}

theorem length_slice {s₀ stop : Nat} (hStop : stop ≤ string.length) :
    (slice string s₀ stop).length = stop - s₀ := by
  rw [slice, length_drop, length_take, min_eq_left hStop]

theorem slice_length (string : List Byte) (s₀ : Nat) :
    slice string s₀ string.length = string.drop s₀ := by
  rw [slice, take_length]

theorem slice_append_slice {s₀ mid stop : Nat} (hStart : s₀ ≤ mid)
    (hMiddle : mid ≤ stop) (hStop : stop ≤ string.length) :
    slice string s₀ mid ++ slice string mid stop = slice string s₀ stop := by
  have hFst : s₀ ≤ (string.take mid).length := by
    rw [length_take]
    omega
  unfold slice
  rw [← drop_append_of_le_length hFst]
  congr 1
  calc string.take mid ++ (string.take stop).drop mid
    _ = (string.take stop).take mid ++ (string.take stop).drop mid := by
        rw [take_take, min_eq_left hMiddle]
    _ = string.take stop := take_append_drop _ _

theorem slice_append (front piece back : List Byte) :
    slice (front ++ (piece ++ back)) front.length (front.length + piece.length) = piece := by
  unfold slice
  rw [take_length_add_append, drop_left, take_left]

theorem modify_concat_last (front : List Byte) (last : Byte) (change : Byte → Byte) :
    (front ++ [last]).modify front.length change = front ++ [change last] := by
  simp [modify_eq_take_drop]

----
-- Pieces
----

def cut (string : List Byte) : List Nat → List (List Byte)
| [] => []
| offset :: rest =>
  slice string offset (rest.head?.getD string.length) :: cut string rest

def running : Nat → List (List Byte) → List Nat
| _, [] => []
| start, piece :: rest =>
  start :: running (start + piece.length) rest

def Ascending (offsets : List Nat) (length : Nat) : Prop :=
  (offsets ++ [length]).IsChain (· ≤ ·)

/- The pieces by their places. -/
theorem cut_eq_map_range (string : List Byte) (offs : List Nat) : cut string offs =
      (List.range offs.length).map fun i =>
        slice string (offs.getD i 0) (if i + 1 < offs.length then offs.getD (i + 1) 0
          else string.length) := by
  induction offs with
  | nil => rfl
  | cons off xs ih =>
    rw [cut, ih, length_cons, range_succ_eq_map, map_cons, map_map]
    congr 1
    · cases xs with
      | nil | cons next xs => simp
    · apply map_congr_left
      simp

theorem ascending_cons_iff {off : Nat} {xs : List Nat} {len : Nat} :
    Ascending (off :: xs) len ↔ off ≤ xs.head?.getD len ∧ Ascending xs len := by
  unfold Ascending
  cases xs with
  | nil | cons next xs => simp

theorem head_le_of_ascending {offs : List Nat} {len : Nat}
    (hAsc : Ascending offs len) : offs.head?.getD len ≤ len := by
  induction offs with
  | nil => simp
  | cons off xs ih =>
    rw [ascending_cons_iff] at hAsc
    exact hAsc.1.trans (ih hAsc.2)

theorem flatten_cut {offs : List Nat} (hAsc : Ascending offs string.length) :
    (cut string offs).flatten = string.drop (offs.head?.getD string.length) := by
  induction offs with
  | nil => simp [cut]
  | cons off xs ih =>
    rw [ascending_cons_iff] at hAsc
    rw [cut, flatten_cons, ih hAsc.2, ← slice_length, ← slice_length,
      slice_append_slice hAsc.1 (head_le_of_ascending hAsc.2) le_rfl]
    rfl

theorem ascending_running (s₀ : Nat) (pieces : List (List Byte)) :
    Ascending (running s₀ pieces) (s₀ + pieces.flatten.length) := by
  induction pieces generalizing s₀ with
  | nil => simp [Ascending, running]
  | cons piece xs ih =>
    rw [running, ascending_cons_iff, flatten_cons, length_append, ← add_assoc]
    refine ⟨?_, ih (s₀ + piece.length)⟩
    cases xs with
    | nil | cons next xs => simp [running]

theorem cut_running (front : List Byte) (pieces : List (List Byte)) :
    cut (front ++ pieces.flatten) (running front.length pieces) = pieces := by
  induction pieces generalizing front with
  | nil => rfl
  | cons piece xs ih =>
    have hxs := ih (front ++ piece)
    rw [append_assoc, length_append] at hxs
    rw [running, cut, flatten_cons, hxs]
    have hEnd : (running (front.length + piece.length) xs).head?.getD (front ++
        (piece ++ xs.flatten)).length = front.length + piece.length := by
      cases xs with
      | nil | cons next xs => simp [running]
    rw [hEnd, slice_append]

end Bytes
