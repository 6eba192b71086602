import Pharos.Ssz.Codec

/-
  This file implements the collections of bits. Bits are kept in bytes, the first bit lowest, and
  the bits of the last byte that are not in use are clear. A list of bits is written with one more
  bit, which tells where it ends.
-/

----
-- Padding
----

namespace Pharos.Ssz

open Bytes List

/- The bits of the last byte that are no part of the field are clear. -/
def PaddingClear (data : List UInt8) (bits : Nat) : Prop :=
  bits % 8 = 0 ∨ data.getLastD 0 &&& bitsFrom (bits % 8) = 0
deriving Decidable

def byteLen (bits : Nat) : Nat :=
  (bits + 7) / 8

variable {last : UInt8} {bits : Nat}

theorem paddingClear_concat_iff {init : List UInt8} :
    PaddingClear (init ++ [last]) bits ↔ bits % 8 = 0 ∨ last &&& bitsFrom (bits % 8) = 0 := by
  unfold PaddingClear
  rw [getLastD_concat]

variable {data : List UInt8}

theorem exists_concat (hLen : data.length = byteLen bits) (hBits : 0 < bits) :
    ∃ init last, data = init ++ [last] ∧ init.length = (bits - 1) / 8 := by
  unfold byteLen at hLen
  have hPos : data ≠ [] := by
    rw [← length_pos_iff]
    omega
  refine ⟨data.dropLast, data.getLast hPos, (dropLast_append_getLast hPos).symm, ?_⟩
  rw [length_dropLast]
  omega

----
-- Vectors of bits
----

structure Bitvector (N : Nat) where
  data : List UInt8
  length_data : data.length = byteLen N
  padding : PaddingClear data N
deriving DecidableEq

def bitvectorCodec (N : Nat) : Codec (Bitvector N) where
  isFixedSize := true
  sszFixedLen := byteLen N
  sszBytesLen _ := byteLen N
  sszAppend value := value.data
  fromSszBytes bytes :=
    if N = 0 then
      .error .invalidBitvector
    else if hLength : bytes.length = byteLen N then
      if hPadding : PaddingClear bytes N then
        .ok ⟨bytes, hLength, hPadding⟩
      else
        .error .invalidBitvector
    else
      .error (.invalidByteLength bytes.length (byteLen N))

theorem lawful_bitvectorCodec (N : Nat) : (bitvectorCodec N).Lawful where
  slot hVar := nomatch hVar
  length v := v.length_data
  fixed _ _ := rfl
  canonical := by
    intro bs v hOk
    simp only [bitvectorCodec] at hOk ⊢
    split at hOk
    · exact nomatch hOk
    · split at hOk
      · split at hOk
        · cases hOk
          rfl
        · exact nomatch hOk
      · exact nomatch hOk

theorem roundTrips_bitvectorCodec {N : Nat} (hBits : 0 < N) : (bitvectorCodec N).RoundTrips := by
  intro v _
  simp only [bitvectorCodec, v.length_data, dite_true, v.padding, if_neg hBits.ne']

----
-- Lists of bits
----

@[ext] structure Bitlist (N : Nat) where
  data : List UInt8
  bitLen : Nat
  bitLen_le : bitLen ≤ N
  length_data : data.length = byteLen bitLen
  padding : PaddingClear data bitLen
deriving DecidableEq

/- The highest set bit marks the end. -/
def encodedBits (bytes : List UInt8) (last : UInt8) : Nat :=
  (bytes.length - 1) * 8 + highestBit last

/- The bytes without the mark. -/
def encodedData (bytes : List UInt8) (last : UInt8) : List UInt8 :=
  let bitLen := encodedBits bytes last
  let dataBytes := byteLen bitLen
  let copied := bytes.take dataBytes
  if bitLen % 8 = 0 then
    copied
  else
    copied.modify (dataBytes - 1) fun byte =>
      byte &&& ~~~bit (highestBit last)

theorem encodedData_concat (init : List UInt8) (hLast : last ≠ 0) :
    encodedData (init ++ [last]) last = if highestBit last = 0 then init
      else init ++ [last &&& ~~~bit (highestBit last)] := by
  have hPlace := (and_not_highestBit hLast).1
  have hBits : encodedBits (init ++ [last]) last = init.length * 8 + highestBit last := by
    simp [encodedBits]
  have hMod : (init.length * 8 + highestBit last) % 8 = highestBit last := by
    omega
  unfold encodedData
  dsimp only
  rw [hBits, hMod]
  by_cases hFst : highestBit last = 0
  · have hBytes : byteLen (init.length * 8 + highestBit last) = init.length := by
      unfold byteLen
      omega
    rw [if_pos hFst, if_pos hFst, hBytes, take_left]
  · have hBytes : byteLen (init.length * 8 + highestBit last) = init.length + 1 := by
      unfold byteLen
      omega
    rw [if_neg hFst, if_neg hFst, hBytes, Nat.add_sub_cancel, take_of_length_le (by simp),
      modify_concat_last]

variable {bytes : List UInt8}

theorem length_encodedData (hBytes : bytes.getLast? = some last) (hLast : last ≠ 0) :
    (encodedData bytes last).length = byteLen (encodedBits bytes last) := by
  rcases getLast?_eq_some_iff.mp hBytes with ⟨init, rfl⟩
  have hPlace := (and_not_highestBit hLast).1
  rw [encodedData_concat init hLast]
  unfold byteLen encodedBits
  rw [length_append, length_singleton]
  split
  · omega
  · rw [length_append, length_singleton]
    omega

theorem paddingClear_encodedData (hBytes : bytes.getLast? = some last) (hLast : last ≠ 0) :
    PaddingClear (encodedData bytes last) (encodedBits bytes last) := by
  rcases getLast?_eq_some_iff.mp hBytes with ⟨init, rfl⟩
  rcases and_not_highestBit hLast with ⟨hPlace, hClear, _⟩
  have hMod : encodedBits (init ++ [last]) last % 8 = highestBit last := by
    unfold encodedBits
    omega
  rw [encodedData_concat init hLast]
  split
  · rename_i hFst
    exact .inl (hMod.trans hFst)
  · rw [paddingClear_concat_iff, hMod]
    exact .inr hClear

/- The mark is set behind the last bit. -/
def appendBits (data : List UInt8) (bitLen : Nat) : List UInt8 :=
  let dataBytes := byteLen bitLen
  let out := data.take dataBytes ++ List.replicate (bitLen / 8 + 1 - dataBytes) 0
  out.modify (bitLen / 8) fun byte =>
    byte ||| bit (bitLen % 8)

/- After full bytes, the end is a byte of its own. -/
theorem appendBits_full (data : List UInt8) : appendBits data (data.length * 8) = data ++ [1] := by
  have hBytes : byteLen (data.length * 8) = data.length := by
    unfold byteLen
    omega
  unfold appendBits
  dsimp only
  rw [hBytes, take_length, Nat.mul_div_cancel _ (by omega), Nat.mul_mod_left,
    Nat.add_sub_cancel_left, replicate_one, modify_concat_last]
  rfl

theorem appendBits_concat (init : List UInt8) (last : UInt8) {i : Nat} (hPos : 0 < i)
    (hPlace : i < 8) :
    appendBits (init ++ [last]) (init.length * 8 + i) = init ++ [last ||| bit i] := by
  have hBytes : byteLen (init.length * 8 + i) = init.length + 1 := by
    unfold byteLen
    omega
  have hDiv : (init.length * 8 + i) / 8 = init.length := by
    omega
  have hMod : (init.length * 8 + i) % 8 = i := by
    omega
  unfold appendBits
  dsimp only
  rw [hBytes, hDiv, hMod, Nat.sub_self, replicate_zero, append_nil,
    take_of_length_le (by simp), modify_concat_last]

def bitlistCodec (N : Nat) : Codec (Bitlist N) where
  isFixedSize := false
  sszFixedLen := bytesPerLengthOffset
  sszBytesLen value := value.bitLen / 8 + 1
  sszAppend value := appendBits value.data value.bitLen
  fromSszBytes bytes :=
    match hBytes : bytes.getLast? with
    | none => .error .bitlistMissingLengthBit
    | some last =>
      if hLast : last = 0 then
        .error .bitlistMissingLengthBit
      else if hLimit : encodedBits bytes last ≤ N then
        .ok
          { data := encodedData bytes last
            bitLen := encodedBits bytes last
            bitLen_le := hLimit
            length_data := length_encodedData hBytes hLast
            padding := paddingClear_encodedData hBytes hLast }
      else
        .error (.bitlistOverflow N)

variable {N : Nat}

theorem fromSszBytes_concat (init : List UInt8) (hLast : last ≠ 0) (v : Bitlist N)
    (hBits : v.bitLen = encodedBits (init ++ [last]) last)
    (hData : v.data = encodedData (init ++ [last]) last) :
    (bitlistCodec N).fromSszBytes (init ++ [last]) = .ok v := by
  simp only [bitlistCodec]
  split
  · rename_i hNone
    rw [getLast?_concat] at hNone
    exact nomatch hNone
  · rename_i y hGot
    rw [getLast?_concat] at hGot
    cases hGot
    rw [dif_neg hLast, dif_pos (hBits ▸ v.bitLen_le)]
    congr 1
    exact Bitlist.ext hData.symm hBits.symm

theorem fromSszBytes_bitlist {v : Bitlist N}
    (hOk : (bitlistCodec N).fromSszBytes bytes = .ok v) :
    ∃ init last, last ≠ 0 ∧ bytes = init ++ [last] ∧
      v.bitLen = encodedBits bytes last ∧ v.data = encodedData bytes last := by
  simp only [bitlistCodec] at hOk
  split at hOk
  · exact nomatch hOk
  · rename_i last hBytes
    rcases getLast?_eq_some_iff.mp hBytes with ⟨init, hInit⟩
    split at hOk
    · exact nomatch hOk
    · rename_i hLast
      split at hOk
      · refine ⟨init, last, hLast, hInit, ?_⟩
        cases hOk
        exact ⟨rfl, rfl⟩
      · exact nomatch hOk

theorem lawful_bitlistCodec (N : Nat) : (bitlistCodec N).Lawful where
  slot _ := rfl
  length v := by
    have hLen := v.length_data
    simp only [bitlistCodec, appendBits, length_modify, length_append, length_take,
      length_replicate]
    unfold byteLen at hLen ⊢
    omega
  fixed hFix := nomatch hFix
  canonical := by
    intro bytes v hOk
    rcases fromSszBytes_bitlist hOk with ⟨init, last, hLast, rfl, hBits, hData⟩
    rcases and_not_highestBit hLast with ⟨hPlace, _, hBack⟩
    have hLen : v.bitLen = init.length * 8 + highestBit last := by
      rw [hBits]
      simp [encodedBits]
    change appendBits v.data v.bitLen = _
    rw [hData, encodedData_concat init hLast, hLen]
    by_cases hFst : highestBit last = 0
    · rw [if_pos hFst, hFst, add_zero, appendBits_full, eq_one_of_highestBit hLast hFst]
    · rw [if_neg hFst, appendBits_concat _ _ (pos_of_ne_zero hFst) hPlace, hBack]

theorem roundTrips_bitlistCodec (N : Nat) : (bitlistCodec N).RoundTrips := by
  intro v _
  change (bitlistCodec N).fromSszBytes (appendBits v.data v.bitLen) = _
  have hLen := v.length_data
  by_cases hFull : v.bitLen % 8 = 0
  · have hBits : v.bitLen = v.data.length * 8 := by
      rw [hLen]
      unfold byteLen
      omega
    have hOne : highestBit 1 = 0 := rfl
    have hLast : (1 : UInt8) ≠ 0 := by decide
    rw [hBits, appendBits_full]
    apply fromSszBytes_concat _ hLast
    · rw [hBits, encodedBits, hOne]
      simp
    · rw [encodedData_concat _ hLast, if_pos hOne]
  · rcases exists_concat hLen (by omega) with ⟨init, last, hData, hInit⟩
    have hPadding := v.padding
    rw [hData, paddingClear_concat_iff] at hPadding
    have hPlace : v.bitLen % 8 < 8 := Nat.mod_lt _ (by omega)
    have hBits : v.bitLen = init.length * 8 + v.bitLen % 8 := by
      omega
    rcases or_bit hPlace (hPadding.resolve_left hFull) with ⟨hLast, hHighest, hBack⟩
    have hAppend := appendBits_concat init last (pos_of_ne_zero hFull) hPlace
    rw [← hBits] at hAppend
    rw [hData, hAppend]
    apply fromSszBytes_concat _ hLast
    · rw [encodedBits, hHighest]
      simp only [length_append, length_singleton]
      exact hBits
    · rw [encodedData_concat _ hLast, hHighest, if_neg hFull, hBack, hData]

end Pharos.Ssz
