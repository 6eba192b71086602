import Mathlib.Tactic.Ring
import Pharos.Lib.Wire
import Pharos.Ssz.Codec

/-
  This file implements the numbers that stand in front of the payloads of requests and responses:
  seven bits a byte, the lowest first, with the high bit set on all but the last.

  Main theorems:
    * `varint_canonical`
-/

----
-- Reading and Writing
----

namespace Pharos.Network

section

open Wire

/- A stream that fails, or bytes that do not decode. -/
inductive IoError where
  | unexpectedEof
  | other (message : String)
  | sszDecode (refusal : Ssz.SszError)
deriving DecidableEq, Repr

/-
  The loop, with the number of bytes that it may still take, the number it has taken and the value
  so far.
-/
def readVarintFrom : Nat → Nat → Nat → Reader IoError Nat
| 0, _, _ => throw (.other "varint exceeds 10 bytes")
| left + 1, byteCount, value => do
    let byte ← readByte .unexpectedEof
    let shift := 7 * byteCount
    if shift = 63 ∧ byte &&& 0xFE ≠ 0 then
      throw (.other "varint overflows u64")
    else
      let value := value ||| (byte &&& 0x7F).toNat <<< shift
      if byte &&& 0x80 = 0 then
        if 0 < byteCount ∧ byte = 0 then
          throw (.other "varint is not minimally encoded")
        else
          pure value
      else
        readVarintFrom left (byteCount + 1) value

def readVarint : Reader IoError Nat :=
  readVarintFrom 10 0 0

/- The loop that writes; a `u64` takes ten bytes at most. -/
def writeVarintFrom : Nat → Nat → List UInt8
| 0, _ => []
| left + 1, value =>
  let byte := UInt8.ofNat (value &&& 0x7F)
  let rest := value >>> 7
  if rest ≠ 0 then (byte ||| 0x80) :: writeVarintFrom left rest else [byte]

def writeVarint (value : Nat) : List UInt8 :=
  writeVarintFrom 10 value

end

----
-- Bytes of Seven Bits
----

theorem last_byte : ∀ low < 128,
      UInt8.ofNat low &&& 0x80 = 0 ∧ (UInt8.ofNat low &&& 0x7F).toNat = low ∧
        (UInt8.ofNat low = 0 → low = 0) ∧
        (low < 2 → UInt8.ofNat low &&& 0xFE = 0) := by
  decide

theorem inner_byte : ∀ low < 128, (UInt8.ofNat low ||| 0x80) &&& 0x80 ≠ 0 ∧
      ((UInt8.ofNat low ||| 0x80) &&& 0x7F).toNat = low := by
  decide

theorem low_bits (v : Nat) : v &&& 0x7F = v % 128 :=
  Nat.and_two_pow_sub_one_eq_mod v 7

theorem high_bits (v : Nat) : v >>> 7 = v / 128 :=
  Nat.shiftRight_eq_div_pow v 7

/- Bits above those of a value are added to it. -/
theorem or_shiftLeft {v shift : Nat} (hLow : v < 2 ^ shift) (high : Nat) :
    v ||| high <<< shift = v + high * 2 ^ shift := by
  rw [Nat.or_comm, ← Nat.shiftLeft_add_eq_or_of_lt hLow, Nat.shiftLeft_eq, Nat.add_comm]

----
-- The Round Trip
----

open Wire

theorem pow_seven_succ (taken : Nat) : 2 ^ (7 * (taken + 1)) = 128 * 2 ^ (7 * taken) := by
  rw [Nat.mul_succ, Nat.pow_add, Nat.mul_comm]

theorem lt_two_of_tenth {v read taken : Nat} (hTenth : 7 * taken = 63)
    (hFits : read + v * 2 ^ (7 * taken) < 2 ^ 64) : v < 2 := by
  rw [hTenth] at hFits
  omega

theorem reads_readVarintFrom {left taken read v : Nat} (hLeft : left + taken = 10)
    (hRead : read < 2 ^ (7 * taken)) (hFits : read + v * 2 ^ (7 * taken) < 2 ^ 64)
    (hMore : 0 < taken → v ≠ 0) :
    Reads (readVarintFrom left taken read) (writeVarintFrom left v)
      (read + v * 2 ^ (7 * taken)) := by
  induction left generalizing taken read v with
  | zero =>
    -- ten bytes were taken, and no bits are left
    have hTen : taken = 10 := by omega
    rw [hTen] at hFits
    omega
  | succ left ih =>
    have hLow : v % 128 < 128 := Nat.mod_lt _ (by decide)
    rw [writeVarintFrom, low_bits, high_bits]
    by_cases hLast : v / 128 = 0
    · rcases last_byte _ hLow with ⟨hEnd, hBits, hZero, hTenth⟩
      have hValue : v % 128 = v := by omega
      rw [hValue] at hBits hZero hTenth hEnd ⊢
      rw [if_neg (not_not.mpr hLast), readVarintFrom, ← or_shiftLeft hRead]
      refine (reads_readByte _ _).bind ?_
      rw [if_neg fun hOver => hOver.2 (hTenth (lt_two_of_tenth hOver.1 hFits)), if_pos hEnd,
          if_neg fun hEmpty =>
          hMore hEmpty.1 (hZero hEmpty.2),
        hBits]
      exact reads_pure _
    · rcases inner_byte _ hLow with ⟨hGoesOn, hBits⟩
      have hSplit : read + v * 2 ^ (7 * taken) = read +
          v % 128 * 2 ^ (7 * taken) + v / 128 * 2 ^ (7 * (taken + 1)) := by
        conv_lhs => rw [← Nat.mod_add_div v 128]
        ring
      have hNext : read + v % 128 * 2 ^ (7 * taken) < 2 ^ (7 * (taken + 1)) := by
        have hBd : v % 128 * 2 ^ (7 * taken) ≤ 127 * 2 ^ (7 * taken) :=
            Nat.mul_le_mul_right _ (by omega)
        rw [pow_seven_succ]
        omega
      rw [if_pos hLast, readVarintFrom]
      refine (reads_readByte _ _).bind ?_
      rw [if_neg fun hOver => by
          have hSmall := lt_two_of_tenth hOver.1 hFits
          omega,
        if_neg hGoesOn, hBits, or_shiftLeft hRead, hSplit]
      apply ih (by omega) hNext _ fun _ => hLast
      rw [← hSplit]
      exact hFits

/- Every `u64` is read back. -/
theorem reads_readVarint {v : Nat} (hFits : v < 2 ^ 64) : Reads readVarint (writeVarint v) v := by
  have hReads : Reads (readVarintFrom 10 0 0) (writeVarintFrom 10 v) (0 +
      v * 2 ^ (7 * 0)) := reads_readVarintFrom rfl (by decide) (by omega) fun hNone =>
      absurd hNone (by decide)
  rw [Nat.mul_zero, pow_zero, mul_one, zero_add] at hReads
  exact hReads

----
-- What Is Read Was Written
----

theorem byte_bits (byte : UInt8) : (byte &&& 0x7F).toNat < 128 ∧
      (byte &&& 0x80 = 0 → UInt8.ofNat (byte &&& 0x7F).toNat = byte) ∧
      (byte &&& 0x80 ≠ 0 → UInt8.ofNat (byte &&& 0x7F).toNat ||| 0x80 = byte) ∧
      (byte &&& 0xFE = 0 → (byte &&& 0x7F).toNat < 2) := by
  induction byte using Bytes.byte_induction with
  | all n hByte =>
    revert n
    decide +kernel

/- The bytes that the loop takes are those that the loop writes for the bits it has read. -/
theorem written_of_readVarintFrom {left taken read v : Nat} {stream xs : List UInt8}
    (hLeft : left + taken = 10) (hRead : read < 2 ^ (7 * taken))
    (hOk : (readVarintFrom left taken read).run stream = .ok (v, xs)) :
    ∃ high, v = read + high * 2 ^ (7 * taken) ∧ v < 2 ^ 64 ∧
      (0 < taken → high ≠ 0) ∧ stream = writeVarintFrom left high ++ xs := by
  induction left generalizing taken read stream with
  | zero => cases hOk
  | succ left ih =>
    cases stream with
    | nil => cases hOk
    | cons byte stream =>
      rcases byte_bits byte with ⟨hLow, hEnd, hGoesOn, hTenth⟩
      generalize hBits : (byte &&& 0x7F).toNat = low at hLow hEnd hGoesOn hTenth
      have hNext : read + low * 2 ^ (7 * taken) < 2 ^ (7 * (taken + 1)) := by
        have hBd : low * 2 ^ (7 * taken) ≤ 127 * 2 ^ (7 * taken) :=
          Nat.mul_le_mul_right _ (by omega)
        rw [pow_seven_succ]
        omega
      change StateT.run (ite _ _ _) stream = _ at hOk
      split at hOk
      · cases hOk
      · rename_i hFits
        rw [hBits, or_shiftLeft hRead] at hOk
        split at hOk
        · rename_i hLast
          split at hOk
          · cases hOk
          · rename_i hMinimal
            cases hOk
            refine ⟨low, rfl, ?_, ?_, ?_⟩
            · by_cases hTen : 7 * taken = 63
              · have hTwo : low < 2 := hTenth (not_not.mp fun hOver => hFits ⟨hTen, hOver⟩)
                rw [hTen] at hRead ⊢
                omega
              · exact hNext.trans_le (Nat.pow_le_pow_right (by decide) (by omega))
            · rintro hInner rfl
              exact hMinimal ⟨hInner, (hEnd hLast).symm⟩
            · rw [writeVarintFrom, low_bits, high_bits, Nat.mod_eq_of_lt hLow, hEnd hLast,
                Nat.div_eq_of_lt hLow]
              rfl
        · rename_i hInner
          rcases ih (by omega) hNext hOk with ⟨high, hValue, hBd, hMore, hStream⟩
          have hHigh : (high * 128 + low) / 128 = high := by omega
          refine ⟨high * 128 + low, ?_, hBd, fun _ hNone => ?_, ?_⟩
          · rw [hValue, pow_seven_succ]
            ring
          · have hSome := hMore (Nat.succ_pos _)
            omega
          · rw [writeVarintFrom, low_bits, high_bits, hHigh, if_pos (hMore (Nat.succ_pos _)),
              Nat.mul_add_mod_of_lt hLow, hGoesOn hInner, hStream]
            rfl

/- Every `u64` is read back from what is written for it, and nothing else is read as one. -/
theorem varint_canonical :
    (∀ v < 2 ^ 64, ∀ rest, readVarint.run (writeVarint v ++ rest) = .ok (v, rest)) ∧
    ∀ stream v rest, readVarint.run stream = .ok (v, rest) →
      v < 2 ^ 64 ∧ stream = writeVarint v ++ rest := by
  refine ⟨fun v hFits rest => reads_readVarint hFits rest, fun stream v rest hOk => ?_⟩
  rcases written_of_readVarintFrom rfl (by decide) hOk with ⟨high, hValue, hBd, -, hStream⟩
  have hHigh : v = high := by omega
  rw [← hHigh] at hStream
  exact ⟨hBd, hStream⟩

end Pharos.Network
