import Pharos.Lib.Bytes
import Pharos.Lib.Outcome

/-
  This file implements the encoding of values as bytes: what every type provides, and the types that
  are one string of bytes.
-/

----
-- Codecs
----

namespace Pharos.Ssz

section

inductive SszError where
  | invalidByteLength (found expected : Nat)
  | invalidBoolByte (byte : UInt8)
  | offsetOutOfRange (offset max : Nat)
  | offsetsNotMonotonic
  | offsetIntoFixedRegion
  | extraBytes (extra : Nat)
  | incompleteData (needed found : Nat)
  | listLimitExceeded (len limit : Nat)
  | vectorLengthMismatch (found expected : Nat)
  | bitlistMissingLengthBit
  | bitlistOverflow (limit : Nat)
  | invalidBitvector
  | incompleteDecode (remaining : Nat)
  | custom (message : String)
deriving DecidableEq, Repr

def bytesPerLengthOffset : Nat :=
  4

/- What a type provides. Appending to a buffer is described by the bytes that are added to it. -/
structure Codec (Value : Type) where
  isFixedSize : Bool
  sszFixedLen : Nat
  sszBytesLen : Value → Nat
  sszAppend : Value → List UInt8
  fromSszBytes : List UInt8 → Except SszError Value

variable {Value : Type}

section

variable (codec : Codec Value)

def Codec.asSszBytes (value : Value) : List UInt8 :=
  codec.sszAppend value

/- The lengths that a codec states are those of its bytes. -/
structure Codec.Sized : Prop where
  slot : codec.isFixedSize = false → codec.sszFixedLen = bytesPerLengthOffset
  length : ∀ value, (codec.sszAppend value).length = codec.sszBytesLen value
  fixed : codec.isFixedSize = true → ∀ value, codec.sszBytesLen value = codec.sszFixedLen

/- No bytes are accepted but those that the codec writes itself. -/
structure Codec.Lawful : Prop extends codec.Sized where
  canonical : ∀ {bytes value}, codec.fromSszBytes bytes = .ok value → codec.sszAppend value = bytes

/- If these bytes are accepted, they are those of the value. -/
def Codec.CanonicalAt (bytes : List UInt8) : Prop :=
  ∀ value, codec.fromSszBytes bytes = .ok value → codec.sszAppend value = bytes

/- Values that are not too long are read back. -/
def Codec.RoundTrips : Prop :=
  ∀ value,
    (codec.sszAppend value).length < 2 ^ 32 → codec.fromSszBytes (codec.sszAppend value) = .ok value

end

end

----
-- Basic types
----

open Bytes

def boolCodec : Codec Bool where
  isFixedSize := true
  sszFixedLen := 1
  sszBytesLen _ := 1
  sszAppend value := [if value then 1 else 0]
  fromSszBytes bytes :=
    match bytes with
    | [byte] =>
      if byte = 0 then
        .ok false
      else if byte = 1 then
        .ok true
      else
        .error (.invalidBoolByte byte)
    | _ => .error (.invalidByteLength bytes.length 1)

/- The unsigned integers, and `Uint256`. -/
inductive UintWidth where
  | u8
  | u16
  | u32
  | u64
  | u128
  | u256
deriving DecidableEq, Repr

def UintWidth.bytes : UintWidth → Nat
| .u8 => 1
| .u16 => 2
| .u32 => 4
| .u64 => 8
| .u128 => 16
| .u256 => 32

def uintCodec (width : UintWidth) : Codec (Fin (256 ^ width.bytes)) where
  isFixedSize := true
  sszFixedLen := width.bytes
  sszBytesLen _ := width.bytes
  sszAppend value := toLittleEndian width.bytes value
  fromSszBytes bytes :=
    if hLength : bytes.length = width.bytes then
      .ok ⟨ofLittleEndian bytes, hLength ▸ ofLittleEndian_lt bytes⟩
    else
      .error (.invalidByteLength bytes.length width.bytes)

abbrev FixedBytes (length : Nat) :=
  { bytes : List UInt8 // bytes.length = length }

def fixedBytesCodec (length : Nat) : Codec (FixedBytes length) where
  isFixedSize := true
  sszFixedLen := length
  sszBytesLen _ := length
  sszAppend value := value.val
  fromSszBytes bytes :=
    if hLength : bytes.length = length then
      .ok ⟨bytes, hLength⟩
    else
      .error (.invalidByteLength bytes.length length)

theorem lawful_boolCodec : boolCodec.Lawful where
  slot hVar := nomatch hVar
  length _ := rfl
  fixed _ _ := rfl
  canonical := by
    intro bs v hOk
    match bs, hOk with
    | [byte], hOk =>
      by_cases hZero : byte = 0
      · rw [hZero] at hOk ⊢
        cases hOk
        rfl
      · by_cases hOne : byte = 1
        · rw [hOne] at hOk ⊢
          cases hOk
          rfl
        · simp [boolCodec, hZero, hOne] at hOk

theorem roundTrips_boolCodec : boolCodec.RoundTrips := by
  intro v _
  cases v <;> rfl

variable (width : UintWidth)

theorem lawful_uintCodec : (uintCodec width).Lawful where
  slot hVar := nomatch hVar
  length _ := length_toLittleEndian _ _
  fixed _ _ := rfl
  canonical := by
    intro bs v hOk
    by_cases hLen : bs.length = width.bytes
    · simp only [uintCodec, hLen, dite_true] at hOk ⊢
      have hValue : v.val = ofLittleEndian bs :=
        (congrArg Fin.val (Except.ok.inj hOk)).symm
      rw [hValue, ← hLen]
      exact toLittleEndian_ofLittleEndian bs
    · simp [uintCodec, hLen] at hOk

theorem roundTrips_uintCodec : (uintCodec width).RoundTrips := by
  intro v _
  have hLen := length_toLittleEndian width.bytes v
  simp only [uintCodec, hLen, dite_true, ofLittleEndian_toLittleEndian v.isLt]

variable (length : Nat)

theorem lawful_fixedBytesCodec : (fixedBytesCodec length).Lawful where
  slot hVar := nomatch hVar
  length v := v.property
  fixed _ _ := rfl
  canonical := by
    intro bs v hOk
    by_cases hLen : bs.length = length
    · simp only [fixedBytesCodec, hLen, dite_true] at hOk ⊢
      cases hOk
      rfl
    · simp [fixedBytesCodec, hLen] at hOk

theorem roundTrips_fixedBytesCodec : (fixedBytesCodec length).RoundTrips := by
  intro v _
  simp only [fixedBytesCodec, v.property, dite_true]

end Pharos.Ssz
