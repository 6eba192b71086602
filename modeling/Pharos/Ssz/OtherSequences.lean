import Pharos.Ssz.Universe

/-
  This file implements two sequences with decoders of their own: progressive lists, which have no
  limit, and arrays. Both are laid out as lists are.

  Main theorems:
  * `Ssz.ProgressiveList.canonical_iff`
  * `Ssz.FixedArray.decoding_and_length_iff`
-/

----
-- Progressive Lists
----

namespace Pharos.Ssz

open Bytes Outcome List Option

variable {Value : Type}

namespace ProgressiveList

variable (codec : Codec Value)

def sszAppend (items : List Value) : List UInt8 :=
  elemsSszAppend codec items

section

variable (bytes : List UInt8)

def announcedOffsets (count : Nat) : List Nat :=
  (List.range count).map fun i => ofLittleEndian (slice bytes (i * bytesPerLengthOffset)
    (i * bytesPerLengthOffset + bytesPerLengthOffset))

/- Elements at their offsets. The ends are checked one by one, while elements are decoded. -/
def decodeAt (offsets : List Nat) (count : Nat) : Except SszError (List Value) :=
  (List.range count).mapM fun i =>
    let start := offsets.getD i 0
    let stop := if i + 1 < count then offsets.getD (i + 1) 0 else bytes.length
    if stop < start ∨ bytes.length < stop then
      .error (.offsetOutOfRange start bytes.length)
    else
      codec.fromSszBytes (slice bytes start stop)

def fromSszBytes (codec : Codec Value) (bytes : List UInt8) : Except SszError (List Value) :=
  if bytes = [] then
    .ok []
  else if codec.isFixedSize then
    let elemSize := codec.sszFixedLen
    if elemSize = 0 then
      .error (.custom "ProgressiveList element size is 0")
    else if bytes.length % elemSize ≠ 0 then
      .error (.invalidByteLength bytes.length ((bytes.length / elemSize) * elemSize))
    else
      (List.range (bytes.length / elemSize)).mapM fun i =>
        codec.fromSszBytes (slice bytes (i * elemSize) (i * elemSize + elemSize))
  else if bytes.length < bytesPerLengthOffset then
    .error (.invalidByteLength bytes.length bytesPerLengthOffset)
  else
    let firstOffset := ofLittleEndian (slice bytes 0 bytesPerLengthOffset)
    if firstOffset % bytesPerLengthOffset ≠ 0 then
      .error (.custom s!"ProgressiveList: first offset {firstOffset} is not offset-aligned")
    else if bytes.length < firstOffset then
      .error (.offsetOutOfRange firstOffset bytes.length)
    else
      let count := firstOffset / bytesPerLengthOffset
      if bytes.length < count * bytesPerLengthOffset then
        .error (.invalidByteLength bytes.length (count * bytesPerLengthOffset))
      else
        decodeAt codec bytes (announcedOffsets bytes count) count

/- Progressive lists as elements of other sequences. -/
def progressiveCodec : Codec (List Value) where
  isFixedSize := false
  sszFixedLen := bytesPerLengthOffset
  sszBytesLen items := elemsSszBytesLen codec items
  sszAppend items := sszAppend codec items
  fromSszBytes bytes := fromSszBytes codec bytes

/- Bytes that announce no element at all, though they are not empty. -/
def ZeroOffset : Prop :=
  bytes ≠ [] ∧ ofLittleEndian (slice bytes 0 bytesPerLengthOffset) = 0

/- The pieces that are read as elements. -/
def pieces : List (List UInt8) :=
  if codec.isFixedSize then
    (List.range (bytes.length / codec.sszFixedLen)).map fun i =>
      slice bytes (i * codec.sszFixedLen) (i * codec.sszFixedLen + codec.sszFixedLen)
  else
    cut bytes (announcedOffsets bytes
      (ofLittleEndian (slice bytes 0 bytesPerLengthOffset) / bytesPerLengthOffset))

end

variable {codec : Codec Value} {bytes : List UInt8} {items : List Value}

/- Offsets whose ends pass the checks are in order. -/
theorem ascending_of_decodeAt {offs : List Nat} {n : Nat} (hCount : offs.length = n)
    (hOk : decodeAt codec bytes offs n = .ok items) :
    Ascending offs bytes.length ∧ (cut bytes offs).mapM codec.fromSszBytes = .ok items := by
  subst hCount
  have hAll := mapM_ok_iff.mp hOk
  have hStep : ∀ i < offs.length, offs.getD i 0 ≤ (if i + 1 < offs.length then
      offs.getD (i + 1) 0 else bytes.length) := by
    intro i hIdx
    have hPlace : i < (List.range offs.length).length := by rwa [length_range]
    have hItem := hAll.get hPlace (hAll.length_eq ▸ hPlace)
    simp only [get_eq_getElem, getElem_range, ite_error_ok_iff, not_or, not_lt] at hItem
    exact hItem.1.1
  refine ⟨?_, ?_⟩
  · unfold Ascending
    rw [isChain_iff_getElem]
    intro i hIdx
    rw [length_append, length_singleton] at hIdx
    have hNext := hStep i (by omega)
    have hGetD (j : Nat) (hPlace : j < offs.length) : offs.getD j 0 = offs[j] := by
      simp [hPlace]
    rw [getElem_append_left (by omega), ← hGetD i (by omega)]
    by_cases hLast : i + 1 < offs.length
    · rw [getElem_append_left hLast, ← hGetD _ hLast]
      rwa [if_pos hLast] at hNext
    · rw [getElem_append_right (by omega)]
      rw [if_neg hLast] at hNext
      simpa using hNext
  · rw [cut_eq_map_range, mapM_map, mapM_ok_iff]
    apply hAll.imp
    intro i item hItem
    exact (ite_error_ok_iff.mp hItem).2

/- The elements were read from their pieces, and the pieces fill the bytes. -/
theorem pieces_of_fromSszBytes (hSized : codec.Sized) (hNone : bytes ≠ [])
    (hSome : codec.isFixedSize = true ∨ ¬ZeroOffset bytes)
    (hOk : fromSszBytes codec bytes = .ok items) :
    ∃ n, pieces codec bytes = slicesFrom bytes 0 (List.replicate n codec.kind) ∧
      Fits bytes (List.replicate n codec.kind) ∧
      (pieces codec bytes).mapM codec.fromSszBytes = .ok items := by
  rw [fromSszBytes, if_neg hNone] at hOk
  unfold pieces
  cases hFix : codec.isFixedSize with
  | true =>
    rw [hFix, if_pos rfl] at hOk
    simp only [ite_error_ok_iff, not_not] at hOk
    rcases hOk with ⟨-, hMultiple, hAll⟩
    refine ⟨_, (slicesFrom_elems_fixed hFix _).symm, (fits_elems_fixed_iff hFix).mpr ?_, ?_⟩
    · exact (Nat.div_mul_cancel (Nat.dvd_of_mod_eq_zero hMultiple)).symm
    · rw [if_pos rfl, mapM_map]
      exact hAll
  | false =>
    have hSlot := hSized.slot hFix
    have hFst : ofLittleEndian (slice bytes 0 bytesPerLengthOffset) ≠ 0 := by
      rw [hFix] at hSome
      exact fun hZero => hSome.resolve_left Bool.false_ne_true ⟨hNone, hZero⟩
    rw [hFix, if_neg Bool.false_ne_true] at hOk
    simp only [ite_error_ok_iff, not_not, Nat.not_lt] at hOk
    rcases hOk with ⟨-, hMultiple, hRange, -, hAll⟩
    have hTable := Nat.div_mul_cancel (Nat.dvd_of_mod_eq_zero hMultiple)
    rw [if_neg Bool.false_ne_true, announcedOffsets, offsetsFrom_elems hFix hSlot]
    rw [announcedOffsets, offsetsFrom_elems hFix hSlot] at hAll
    generalize ofLittleEndian (slice bytes 0 bytesPerLengthOffset) / bytesPerLengthOffset = count
      at hAll hTable
    rcases count with _ | n
    · simp [← hTable] at hFst
    have hLen : (offsetsFrom bytes 0 (List.replicate (n + 1) codec.kind)).length = n + 1 := by
      rw [← offsetsFrom_elems hFix hSlot, length_map, length_range]
    rcases ascending_of_decodeAt hLen hAll with ⟨hAscending, hItems⟩
    refine ⟨n + 1, (slicesFrom_replicate_variable hFix bytes 0 _).2.symm, ?_, hItems⟩
    exact (fits_elems_variable_iff hFix hSlot).mpr ⟨hTable ▸ hRange, hTable.symm, hAscending⟩

/- Whatever follows a first offset of zero, there are no elements. -/
theorem items_of_zeroOffset (hVar : codec.isFixedSize = false) (hZero : ZeroOffset bytes)
    (hOk : fromSszBytes codec bytes = .ok items) : items = [] := by
  rw [fromSszBytes, if_neg hZero.1, hVar, if_neg Bool.false_ne_true] at hOk
  simp only [ite_error_ok_iff, hZero.2, Nat.zero_div] at hOk
  exact (Except.ok.inj hOk.2.2.2.2).symm

/-
  Bytes that are accepted are those of the value if they do not announce an empty list, and every
  piece of theirs that is read as an element is the bytes of that element. The second is needed
  where no offset wraps.
-/
theorem canonical_iff (hSized : codec.Sized) (hOk : fromSszBytes codec bytes = .ok items) :
    ((codec.isFixedSize = true ∨ ¬ZeroOffset bytes) ∧
        (∀ piece ∈ pieces codec bytes, codec.CanonicalAt piece) →
      sszAppend codec items = bytes) ∧
    (sszAppend codec items = bytes →
      (codec.isFixedSize = true ∨ ¬ZeroOffset bytes) ∧
        (bytes.length < 2 ^ 32 → ∀ piece ∈ pieces codec bytes, codec.CanonicalAt piece)) := by
  have hEmpty : sszAppend codec ([] : List Value) = [] := by
    rw [sszAppend, elemsSszAppend_eq hSized]
    rfl
  by_cases hNone : bytes = []
  · subst hNone
    have hItems : items = [] := (Except.ok.inj hOk).symm
    have hPieces : pieces codec [] = [] := by
      unfold pieces announcedOffsets
      split <;> simp [cut, slice, ofLittleEndian]
    simp [hItems, hEmpty, hPieces, ZeroOffset]
  · constructor
    · rintro ⟨hSome, hCanonical⟩
      rcases pieces_of_fromSszBytes hSized hNone hSome hOk with ⟨n, hSlices, hFits, hAll⟩
      rw [hSlices] at hAll hCanonical
      exact elemsSszAppend_of_fits hSized hFits hAll hCanonical
    · intro hBytes
      have hSome : codec.isFixedSize = true ∨ ¬ZeroOffset bytes := by
        by_contra! hBoth
        have hItems := items_of_zeroOffset (Bool.not_eq_true _ ▸ hBoth.1) hBoth.2 hOk
        rw [hItems, hEmpty] at hBytes
        exact hNone hBytes.symm
      refine ⟨hSome, fun hSmall => ?_⟩
      rcases pieces_of_fromSszBytes hSized hNone hSome hOk with ⟨n, hSlices, -, hAll⟩
      rw [hSlices] at hAll ⊢
      exact canonicalAt_of_elemsSszAppend hSized hSmall hAll hBytes

/- Bytes, up to four of them. -/
def shortLists : Codec { elems : List (Fin (256 ^ 1)) // elems.length ≤ 4 } :=
  listCodec (uintCodec .u8) 4

theorem canonical_iff_oneList :
    sszAppend shortLists [⟨[7], by decide⟩] = [4, 0, 0, 0, 7] := by
  have hLawful : shortLists.Lawful := lawful_listCodec (lawful_uintCodec .u8) 4
  have hOk : fromSszBytes shortLists [4, 0, 0, 0, 7] = .ok [⟨[7], by decide⟩] := rfl
  refine (canonical_iff hLawful.toSized hOk).1 ⟨Or.inr ?_, fun _ _ _ => hLawful.canonical⟩
  simp [ZeroOffset, slice, ofLittleEndian, bytesPerLengthOffset]

theorem zero_offset_accepted : fromSszBytes shortLists [0, 0, 0, 0, 7] = .ok [] ∧
      sszAppend shortLists [] ≠ [0, 0, 0, 0, 7] := by
  exact ⟨rfl, by decide⟩

-- One level down: the first offset is not zero, but that of the one element is.
example : fromSszBytes (progressiveCodec shortLists) [4, 0, 0, 0, 0, 0, 0, 0, 7] = .ok [[]] ∧
      sszAppend (progressiveCodec shortLists) [[]] = [4, 0, 0, 0] :=
  ⟨rfl, rfl⟩

end ProgressiveList

----
-- Arrays
----

namespace FixedArray

/- Out of range, a slice panics. -/
def index (bytes : List UInt8) (start stop : Nat) : Option (List UInt8) :=
  if start ≤ stop ∧ stop ≤ bytes.length then some (slice bytes start stop) else none

def sszBytesLen (codec : Codec Value) (elems : List Value) : Nat :=
  (elems.map codec.sszBytesLen).sum

def sszAppend (codec : Codec Value) (elems : List Value) : List UInt8 :=
  if codec.isFixedSize then
    elems.flatMap codec.sszAppend
  else
    let fixedRegionLen := elems.length * bytesPerLengthOffset
    let variableParts := elems.map codec.asSszBytes
    (running fixedRegionLen variableParts).flatMap (toLittleEndian bytesPerLengthOffset) ++
      variableParts.flatten

/- The elements in turn, until there is an error or a panic. -/
def decodeEach (N : Nat) (decode : Nat → Option (Except SszError Value)) :
    Option (Except SszError (List Value)) :=
  (List.range N).mapM (m := ExceptT SszError Option) fun i => ExceptT.mk (decode i)

variable (codec : Codec Value)

def decodeBetween (bytes : List UInt8) (start stop : Nat) : Option (Except SszError Value) :=
  if bytes.length < start ∨ bytes.length < stop then
    some (.error (.offsetOutOfRange start bytes.length))
  else
    (index bytes start stop).map codec.fromSszBytes

/- Without a result, the decoder panics. -/
def fromSszBytes (codec : Codec Value) (N : Nat) (bytes : List UInt8) :
    Option (Except SszError (List Value)) :=
  if codec.isFixedSize then
    let elemLen := codec.sszFixedLen
    if N = 0 then
      if bytes = [] then some (.ok []) else some (.error (.extraBytes bytes.length))
    else if 2 ^ 64 ≤ elemLen * N then
      some (.error (.custom "array byte length overflow"))
    else if bytes.length ≠ elemLen * N then
      -- The length is divided by that of an element.
      if elemLen = 0 then none
      else some (.error (.vectorLengthMismatch (bytes.length / elemLen) N))
    else
      decodeEach N fun i =>
        (index bytes (i * elemLen) (i * elemLen + elemLen)).map codec.fromSszBytes
  else if bytes = [] ∧ N = 0 then
    some (.ok [])
  else if bytes.length < bytesPerLengthOffset then
    some (.error (.incompleteData bytesPerLengthOffset bytes.length))
  else if ofLittleEndian (slice bytes 0 bytesPerLengthOffset) ≠ N * bytesPerLengthOffset then
    some (.error .offsetIntoFixedRegion)
  else do
    let offsets ← (List.range N).mapM fun i =>
      (index bytes (i * bytesPerLengthOffset) (i * bytesPerLengthOffset +
        bytesPerLengthOffset)).map ofLittleEndian
    if offsets.IsChain (· ≤ ·) then
      decodeEach N fun i => decodeBetween codec bytes (offsets.getD i 0)
        (if i + 1 < N then offsets.getD (i + 1) 0 else bytes.length)
    else
      some (.error .offsetsNotMonotonic)

/-
  The bytes on which the decoder panics: any for elements without bytes, and else those that end in
  the table of offsets that the first one announces.
-/
def Panics (N : Nat) (bytes : List UInt8) : Prop :=
  if codec.isFixedSize then
    codec.sszFixedLen = 0 ∧ bytes ≠ []
  else
    bytesPerLengthOffset ≤ bytes.length ∧ bytes.length < N * bytesPerLengthOffset ∧
      ofLittleEndian (slice bytes 0 bytesPerLengthOffset) = N * bytesPerLengthOffset

variable {codec : Codec Value} {bytes : List UInt8} {N : Nat}

theorem mapM_eq_none {Item Result : Type} {step : Item → Option Result} {ys : List Item}
    {item : Item} (hItem : item ∈ ys) (hNone : step item = none) : ys.mapM step = none := by
  induction ys with
  | nil => nomatch hItem
  | cons a xs ih =>
    rw [mapM_cons]
    rcases mem_cons.mp hItem with rfl | hxs
    · rw [hNone]
      rfl
    · rw [ih hxs]
      cases step a <;> rfl

theorem decodeEach_ne_none {decode : Nat → Option (Except SszError Value)}
    (hSteps : ∀ i < N, decode i ≠ none) : decodeEach N decode ≠ none := by
  unfold decodeEach
  have hItems : ∀ i ∈ List.range N, decode i ≠ none := by simpa using hSteps
  generalize List.range N = ys at hItems
  induction ys with
  | nil => exact some_ne_none _
  | cons i xs ih =>
    have hxs := ih fun j hIn => hItems j (.tail i hIn)
    rw [mapM_cons]
    rcases ne_none_iff_exists'.mp (hItems i (.head xs)) with ⟨a | a, hFst⟩
    · rw [hFst]
      exact some_ne_none _
    · rcases ne_none_iff_exists'.mp hxs with ⟨os | os, hOthers⟩
      · rw [hFst, hOthers]
        exact some_ne_none _
      · rw [hFst, hOthers]
        exact some_ne_none _

theorem index_eq_some {start stop : Nat} (hStart : start ≤ stop) (hStop : stop ≤ bytes.length) :
    index bytes start stop = some (slice bytes start stop) :=
  if_pos ⟨hStart, hStop⟩

theorem decodeBetween_ne_none {start stop : Nat} (hOrder : stop ≠ bytes.length → start ≤ stop) :
    decodeBetween codec bytes start stop ≠ none := by
  unfold decodeBetween
  split
  · exact some_ne_none _
  · rename_i hRange
    rw [not_or, not_lt, not_lt] at hRange
    rw [index_eq_some _ hRange.2]
    · exact some_ne_none _
    · by_cases hLast : stop = bytes.length
      · rw [hLast]
        exact hRange.1
      · exact hOrder hLast

theorem fromSszBytes_eq_none_iff (hSome : 1 ≤ N) :
    fromSszBytes codec N bytes = none ↔ Panics codec N bytes := by
  have hPositive : N ≠ 0 := ne_of_gt hSome
  unfold fromSszBytes Panics
  cases hFix : codec.isFixedSize with
  | true =>
    simp only [if_true, if_neg hPositive]
    by_cases hLong : 2 ^ 64 ≤ codec.sszFixedLen * N
    · have hSized : codec.sszFixedLen ≠ 0 := by
        intro hZero
        simp [hZero] at hLong
      rw [if_pos hLong]
      simp [hSized]
    · rw [if_neg hLong]
      by_cases hLen : bytes.length = codec.sszFixedLen * N
      · have hEach : decodeEach N (fun i => (index bytes (i * codec.sszFixedLen)
            (i * codec.sszFixedLen + codec.sszFixedLen)).map codec.fromSszBytes) ≠ none := by
          apply decodeEach_ne_none
          intro i hIdx
          rw [index_eq_some (Nat.le_add_right _ _)]
          · exact some_ne_none _
          · rw [hLen, ← Nat.succ_mul, Nat.mul_comm codec.sszFixedLen]
            exact Nat.mul_le_mul_right _ hIdx
        have hBytes (hZero : codec.sszFixedLen = 0) : bytes = [] := by
          rw [hZero, Nat.zero_mul] at hLen
          exact length_eq_zero_iff.mp hLen
        rw [if_neg (not_not.mpr hLen)]
        exact ⟨fun hNone => absurd hNone hEach, fun hEmpty => absurd (hBytes hEmpty.1) hEmpty.2⟩
      · have hBytes (hZero : codec.sszFixedLen = 0) : bytes ≠ [] := by
          intro hNil
          simp [hZero, hNil] at hLen
        by_cases hZero : codec.sszFixedLen = 0
        · simp [hZero, hBytes hZero]
        · simp [hLen, hZero]
  | false =>
    simp only [Bool.false_eq_true, if_false, hPositive, and_false]
    by_cases hShort : bytes.length < bytesPerLengthOffset
    · simp [hShort]
    · by_cases hFst : ofLittleEndian (slice bytes 0 bytesPerLengthOffset) = N * bytesPerLengthOffset
      · simp only [hShort, if_false, hFst, ne_eq, not_true_eq_false, and_true,
          not_lt.mp hShort, true_and]
        by_cases hTable : bytes.length < N * bytesPerLengthOffset
        · have hLast : N - 1 ∈ List.range N := mem_range.mpr (Nat.sub_lt hSome Nat.one_pos)
          rw [mapM_eq_none hLast]
          · simpa using hTable
          · rw [← Nat.succ_mul, Nat.succ_eq_add_one, Nat.sub_add_cancel hSome]
            simp [index, hTable]
        · rw [mapM_eq_some fun i => ofLittleEndian (slice bytes (i * bytesPerLengthOffset)
            (i * bytesPerLengthOffset + bytesPerLengthOffset))]
          · refine ⟨fun hNone => absurd hNone ?_, fun hLate => absurd hLate hTable⟩
            dsimp only [bind_eq_bind, bind_some]
            split
            · rename_i hChain
              apply decodeEach_ne_none
              intro i hIdx
              apply decodeBetween_ne_none
              by_cases hNext : i + 1 < N
              · have hStep := (isChain_iff_getElem.mp hChain) i (by simpa using hNext)
                simpa [hIdx, hNext] using fun _ => hStep
              · simp [hNext]
            · exact some_ne_none _
          · intro i hIdx
            rw [index_eq_some (Nat.le_add_right _ _)]
            · rfl
            · rw [← Nat.succ_mul]
              exact (Nat.mul_le_mul_right _ (mem_range.mp hIdx)).trans (Nat.not_lt.mp hTable)
      · simp [hShort, hFst]

theorem length_running (start : Nat) (pieces : List (List UInt8)) :
    (running start pieces).length = pieces.length := by
  induction pieces generalizing start with
  | nil => rfl
  | cons piece xs ih => simp [running, ih]

theorem length_sszAppend
    (hLength : ∀ value, (codec.sszAppend value).length = codec.sszBytesLen value)
    (es : List Value) :
    (sszAppend codec es).length = sszBytesLen codec es +
      if codec.isFixedSize then 0 else es.length * bytesPerLengthOffset := by
  have hBodies : (es.map codec.sszBytesLen).sum =
      (es.map fun x => (codec.sszAppend x).length).sum := by
    simp only [hLength]
  unfold sszAppend sszBytesLen
  rw [hBodies]
  cases codec.isFixedSize with
  | true => simp
  | false =>
    simp [length_flatMap, length_running, Function.comp_def, Codec.asSszBytes, add_comm]

/-
  The decoder panics on some bytes if and only if its elements have no bytes, or are of variable
  size and two or more. The stated length of an array is right if its elements are of fixed size.
-/
theorem decoding_and_length_iff
    (hLength : ∀ value, (codec.sszAppend value).length = codec.sszBytesLen value)
    (hSome : 1 ≤ N) :
    (∀ bytes, fromSszBytes codec N bytes = none ↔ Panics codec N bytes) ∧
      ∀ elems : List Value, elems.length = N →
        (sszBytesLen codec elems = (sszAppend codec elems).length ↔ codec.isFixedSize = true) := by
  refine ⟨fun bytes => fromSszBytes_eq_none_iff hSome, ?_⟩
  intro elems hCount
  rw [length_sszAppend hLength, hCount]
  cases codec.isFixedSize with
  | true => simp
  | false =>
    have hTable : N * bytesPerLengthOffset ≠ 0 := mul_ne_zero (ne_of_gt hSome) (by decide)
    simpa using hTable

/- A byte that may be missing. Such elements can be copied, as the decoder of arrays asks. -/
def optionalByte : Codec (Option UInt8) where
  isFixedSize := false
  sszFixedLen := bytesPerLengthOffset
  sszBytesLen value := value.toList.length
  sszAppend value := value.toList
  fromSszBytes
  | [] => .ok none
  | [byte] => .ok (some byte)
  | bytes => .error (.invalidByteLength bytes.length 1)

theorem decoding_and_length_iff_optionalByte :
    (∀ bytes, fromSszBytes optionalByte 2 bytes = none ↔ Panics optionalByte 2 bytes) ∧
      ∀ elems, elems.length = 2 →
        (sszBytesLen optionalByte elems = (sszAppend optionalByte elems).length ↔
          optionalByte.isFixedSize = true) :=
  decoding_and_length_iff (fun _ => rfl) (by decide)

theorem short_table_panics : fromSszBytes optionalByte 2 [8, 0, 0, 0] = none ∧
      sszBytesLen optionalByte [some 7, none] = 1 ∧
      sszAppend optionalByte [some 7, none] = [8, 0, 0, 0, 9, 0, 0, 0, 7] := by
  exact ⟨rfl, rfl, rfl⟩

end FixedArray

end Pharos.Ssz
