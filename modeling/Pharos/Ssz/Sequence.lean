import Mathlib.Algebra.BigOperators.Group.List.Basic
import Pharos.Ssz.Fields

/-
  This file implements the encoding of lists and vectors. Elements of fixed size follow each other,
  and for others there is a table of offsets in front, the first of which tells how many elements
  there are.
-/

----
-- Encoding
----

namespace Pharos.Ssz

open Bytes Outcome List

section

variable {Value : Type}

variable (codec : Codec Value)

section

variable (elems : List Value)

def variableElemsSszBytesLen : Nat :=
  let offsetsLen := elems.length * bytesPerLengthOffset
  let dataLen := (elems.map codec.sszBytesLen).sum
  offsetsLen + dataLen

/- Where each element starts. -/
def elemOffsets (codec : Codec Value) : Nat → List Value → List UInt8
| _, [] => []
| runningOffset, elem :: rest =>
  toLittleEndian bytesPerLengthOffset runningOffset ++
    elemOffsets codec (runningOffset + codec.sszBytesLen elem) rest

/- The table of offsets, and then the elements. -/
def encodeVariableElems : List UInt8 :=
  let fixedRegionLen := elems.length * bytesPerLengthOffset
  elemOffsets codec fixedRegionLen elems ++ elems.flatMap codec.sszAppend

def elemsSszBytesLen : Nat :=
  if codec.isFixedSize then
    elems.length * codec.sszFixedLen
  else
    variableElemsSszBytesLen codec elems

def elemsSszAppend : List UInt8 :=
  if codec.isFixedSize then elems.flatMap codec.sszAppend else encodeVariableElems codec elems

end

----
-- Decoding
----

/- Offsets point behind the table, into the bytes, and do not decrease. -/
def checkListOffsets (firstOffset total : Nat) : Option Nat → List Nat → Except SszError Unit
| _, [] => .ok ()
| prev, offset :: rest =>
  if offset < firstOffset then
    .error .offsetIntoFixedRegion
  else if total < offset then
    .error (.offsetOutOfRange offset total)
  else if offset < prev.getD offset then
    .error .offsetsNotMonotonic
  else
    checkListOffsets firstOffset total (some offset) rest

/- The length tells how many elements there are. -/
def decodeFixedItems (bytes : List UInt8) : Except SszError (List Value) :=
  let elemLen := codec.sszFixedLen
  if elemLen = 0 then
    .error (.custom "zero-size element type in list/vector")
  else if bytes.length % elemLen ≠ 0 then
    .error (.invalidByteLength bytes.length ((bytes.length / elemLen) * elemLen))
  else
    let count := bytes.length / elemLen
    (List.range count).mapM fun i =>
      codec.fromSszBytes (slice bytes (i * elemLen) (i * elemLen + elemLen))

/- The first offset tells it. An element ends where the next one starts. -/
def decodeVariableItems (bytes : List UInt8) : Except SszError (List Value) :=
  if bytes.length < bytesPerLengthOffset then
    .error (.incompleteData bytesPerLengthOffset bytes.length)
  else
    let firstOffset := ofLittleEndian (slice bytes 0 bytesPerLengthOffset)
    if firstOffset % bytesPerLengthOffset ≠ 0 then
      .error .offsetIntoFixedRegion
    else if bytes.length < firstOffset then
      .error (.offsetOutOfRange firstOffset bytes.length)
    else
      let count := firstOffset / bytesPerLengthOffset
      if count = 0 then
        if bytes ≠ [] then .error (.extraBytes bytes.length) else .ok []
      else
        let offsets := (List.range count).map fun i =>
          ofLittleEndian (slice bytes (i * bytesPerLengthOffset)
            (i * bytesPerLengthOffset + bytesPerLengthOffset))
        do
          checkListOffsets firstOffset bytes.length none offsets
          (List.range count).mapM fun i =>
            let start := offsets.getD i 0
            let stop :=
              if i + 1 < count then offsets.getD (i + 1) 0 else bytes.length
            codec.fromSszBytes (slice bytes start stop)

def decodeListItems (bytes : List UInt8) : Except SszError (List Value) :=
  if bytes = [] then
    .ok []
  else if codec.isFixedSize then
    decodeFixedItems codec bytes
  else
    decodeVariableItems codec bytes

end

section

variable {Value : Type}

variable (codec : Codec Value)

/- A list of at most `N` elements. -/
def listCodec (N : Nat) : Codec {elems : List Value // elems.length ≤ N} where
  isFixedSize := false
  sszFixedLen := bytesPerLengthOffset
  sszBytesLen elems := elemsSszBytesLen codec elems.val
  sszAppend elems := elemsSszAppend codec elems.val
  fromSszBytes bytes := do
    let items ← decodeListItems codec bytes
    if hLength : items.length ≤ N then
      .ok ⟨items, hLength⟩
    else
      .error (.listLimitExceeded items.length N)

/- A vector has exactly `N`, and is of fixed size if they are. -/
def vectorCodec (N : Nat) : Codec {elems : List Value // elems.length = N} where
  isFixedSize := codec.isFixedSize
  sszFixedLen :=
    if codec.isFixedSize then codec.sszFixedLen * N else bytesPerLengthOffset
  sszBytesLen elems := elemsSszBytesLen codec elems.val
  sszAppend elems := elemsSszAppend codec elems.val
  fromSszBytes bytes :=
    if N = 0 then
      .error (.custom "Vector[T, 0] is not a valid SSZ type")
    else do
      let items ← decodeListItems codec bytes
      if hLength : items.length = N then
        .ok ⟨items, hLength⟩
      else
        .error (.vectorLengthMismatch items.length N)

end

----
-- Elements as Parts
----

section

variable {Value : Type} {c : Codec Value}

theorem kinds_elems (c : Codec Value) (es : List Value) :
    (es.map c.part).map Part.kind = replicate es.length c.kind := by
  rw [map_map]
  exact map_const'

theorem bytes_elems (c : Codec Value) (es : List Value) :
    (es.map c.part).map Part.bytes = es.map c.sszAppend := by
  rw [map_map]
  rfl

theorem fixedLenOf_replicate (n : Nat) (kind : FieldKind) :
    fixedLenOf (replicate n kind) = n * kind.sszFixedLen := by
  simp [fixedLenOf]

/- A sequence is laid out as a container of its elements. -/
theorem elemsSszAppend_eq (hSized : c.Sized) (es : List Value) :
    elemsSszAppend c es = deriveAppend (es.map c.part) := by
  unfold elemsSszAppend deriveAppend
  rw [kinds_elems, fixedLenOf_replicate]
  cases hFix : c.isFixedSize with
  | true =>
    have hPass : ∀ off, fixedPass off (es.map c.part) = es.flatMap c.sszAppend := by
      intro off
      induction es with
      | nil => rfl
      | cons x xs ih => simp [fixedPass, Codec.part, Codec.kind, hFix, ih]
    simp [hPass, variablePass, Codec.part, Codec.kind, hFix]
  | false =>
    have hPass : ∀ off, fixedPass off (es.map c.part) = elemOffsets c off es := by
      intro off
      induction es generalizing off with
      | nil => rfl
      | cons x xs ih => simp [fixedPass, elemOffsets, Codec.part, Codec.kind, hFix, ih]
    have hSlot : c.kind.sszFixedLen = bytesPerLengthOffset := hSized.slot hFix
    rw [hSlot]
    simp [hPass, encodeVariableElems, variablePass, flatMap_map, Codec.part, Codec.kind, hFix]

theorem lawful_parts (hSized : c.Sized) (es : List Value) :
    ∀ part ∈ es.map c.part, part.Lawful := by
  intro part hPart
  rcases mem_map.mp hPart with ⟨x, -, rfl⟩
  exact hSized.part x

theorem length_elemsSszAppend (hSized : c.Sized) (es : List Value) :
    (elemsSszAppend c es).length = elemsSszBytesLen c es := by
  rw [elemsSszAppend_eq hSized, length_deriveAppend (lawful_parts hSized es)]
  unfold bytesLenOf elemsSszBytesLen variableElemsSszBytesLen
  cases hFix : c.isFixedSize with
  | true => simp [Function.comp_def, Codec.part, Codec.kind, hFix]
  | false => simp [Function.comp_def, Codec.part, Codec.kind, hFix, sum_map_add]

----
-- Slices of Elements
----

variable {kind : FieldKind}

theorem cursor_succ (cursor len : Nat) (i : Nat) :
    cursor + (i + 1) * len = cursor + len + i * len := by
  rw [Nat.succ_mul]
  omega

theorem slicesFrom_replicate_fixed (hFix : kind.isFixedSize = true) (bs : List UInt8)
    (cursor n : Nat) :
    slicesFrom bs cursor (replicate n kind) = ((List.range n).map fun i =>
          slice bs (cursor + i * kind.sszFixedLen)
            (cursor + i * kind.sszFixedLen + kind.sszFixedLen)) ∧
      offsetsFrom bs cursor (replicate n kind) = [] := by
  induction n generalizing cursor with
  | zero => exact ⟨rfl, rfl⟩
  | succ n ih =>
    rcases ih (cursor + kind.sszFixedLen) with ⟨hSlices, hOffsets⟩
    rw [replicate_succ, (slicesFrom_fixed hFix).1, (slicesFrom_fixed hFix).2, hSlices,
      hOffsets, range_succ_eq_map, map_cons, map_map]
    simp [Function.comp_def, cursor_succ]

theorem slicesFrom_replicate_variable (hVar : kind.isFixedSize = false) (bs : List UInt8)
    (cursor n : Nat) :
    offsetsFrom bs cursor (replicate n kind) = ((List.range n).map fun i =>
          ofLittleEndian (slice bs (cursor + i * kind.sszFixedLen)
            (cursor + i * kind.sszFixedLen + kind.sszFixedLen))) ∧
      slicesFrom bs cursor (replicate n kind) =
        cut bs (offsetsFrom bs cursor (replicate n kind)) := by
  induction n generalizing cursor with
  | zero => exact ⟨rfl, rfl⟩
  | succ n ih =>
    rcases ih (cursor + kind.sszFixedLen) with ⟨hOffsets, hSlices⟩
    rw [replicate_succ, (slicesFrom_variable hVar).1, (slicesFrom_variable hVar).2, hSlices]
    refine ⟨?_, rfl⟩
    rw [hOffsets, range_succ_eq_map, map_cons, map_map]
    simp [Function.comp_def, cursor_succ]

theorem checkListOffsets_some_eq (firstOffset total previous : Nat) (offs : List Nat) :
    checkListOffsets firstOffset total (some previous) offs =
      checkOffsets firstOffset total (some previous) offs := by
  induction offs generalizing previous with
  | nil => rfl
  | cons off xs ih => simp [checkListOffsets, checkOffsets, ih]

theorem checkListOffsets_none_eq (firstOffset total : Nat) (xs : List Nat) :
    checkListOffsets firstOffset total none (firstOffset :: xs) =
      checkOffsets firstOffset total none (firstOffset :: xs) := by
  simp [checkListOffsets, checkOffsets, checkListOffsets_some_eq]

variable {bs : List UInt8} {xs : List Value}

section

variable (hFix : c.isFixedSize = true)
include hFix

theorem slicesFrom_elems_fixed (n : Nat) : slicesFrom bs 0 (replicate n c.kind) =
    (List.range n).map fun i =>
      slice bs (i * c.sszFixedLen) (i * c.sszFixedLen + c.sszFixedLen) := by
  rw [(slicesFrom_replicate_fixed hFix bs 0 n).1]
  simp [Codec.kind]

/- Elements of fixed size fill the bytes. -/
theorem fits_elems_fixed_iff {n : Nat} :
    Fits bs (replicate n c.kind) ↔ bs.length = n * c.sszFixedLen := by
  have hOffsets : offsetsFrom bs 0 (replicate n c.kind) = [] :=
    (slicesFrom_replicate_fixed hFix bs 0 n).2
  have hLen : fixedLenOf (replicate n c.kind) = n * c.sszFixedLen := fixedLenOf_replicate n c.kind
  constructor
  · rintro ⟨-, hFst, -⟩
    rwa [hOffsets, hLen] at hFst
  · intro hCount
    refine ⟨hLen ▸ hCount.ge, ?_, ?_⟩
    · rw [hOffsets, hLen]
      exact hCount
    · simp [hOffsets, Ascending]

theorem decodeFixedItems_ok_iff (hSome : bs ≠ []) :
    decodeFixedItems c bs = .ok xs ↔ ∃ n, Fits bs (replicate n c.kind) ∧ (slicesFrom bs 0
      (replicate n c.kind)).mapM c.fromSszBytes = .ok xs := by
  have hLength : 0 < bs.length := length_pos_of_ne_nil hSome
  unfold decodeFixedItems
  rw [ite_error_ok_iff, ite_error_ok_iff, not_not]
  simp only [fits_elems_fixed_iff hFix, slicesFrom_elems_fixed hFix, mapM_map]
  constructor
  · rintro ⟨-, hMultiple, hAll⟩
    exact ⟨_, (Nat.div_mul_cancel (Nat.dvd_of_mod_eq_zero hMultiple)).symm, hAll⟩
  · rintro ⟨n, hCount, hAll⟩
    have hLen : c.sszFixedLen ≠ 0 := by
      intro hZero
      rw [hCount, hZero] at hLength
      exact lt_irrefl 0 hLength
    refine ⟨hLen, ?_, ?_⟩
    · rw [hCount]
      exact Nat.mul_mod_left n _
    · rw [hCount, Nat.mul_div_cancel _ (Nat.pos_of_ne_zero hLen)]
      exact hAll

end

section

variable (hVar : c.isFixedSize = false) (hSlot : c.sszFixedLen = bytesPerLengthOffset)
include hVar hSlot

theorem offsetsFrom_elems (bs : List UInt8) (n : Nat) :
    ((List.range n).map fun i => ofLittleEndian (slice bs (i * bytesPerLengthOffset)
      (i * bytesPerLengthOffset + bytesPerLengthOffset))) =
      offsetsFrom bs 0 (replicate n c.kind) := by
  have hKind : c.kind.isFixedSize = false := hVar
  rw [(slicesFrom_replicate_variable hKind bs 0 n).1]
  simp [Codec.kind, hSlot]

theorem offsetsFrom_elems_succ (bs : List UInt8) (n : Nat) :
    offsetsFrom bs 0 (replicate (n + 1) c.kind) =
      ofLittleEndian (slice bs 0 bytesPerLengthOffset) ::
      offsetsFrom bs (0 + c.kind.sszFixedLen) (replicate n c.kind) := by
  have hKind : c.kind.isFixedSize = false := hVar
  rw [replicate_succ, (slicesFrom_variable hKind).2]
  simp [Codec.kind, hSlot]

theorem slicesFrom_elems (bs : List UInt8) (n : Nat) :
    slicesFrom bs 0 (replicate n c.kind) = (List.range n).map fun i =>
      let offs := offsetsFrom bs 0 (replicate n c.kind)
      slice bs (offs.getD i 0) (if i + 1 < n then offs.getD (i + 1) 0 else bs.length) := by
  have hKind : c.kind.isFixedSize = false := hVar
  rw [(slicesFrom_replicate_variable hKind bs 0 n).2,
    cut_eq_map_range, ← offsetsFrom_elems hVar hSlot, length_map, length_range]

omit hVar in
theorem fixedLenOf_elems (n : Nat) :
    fixedLenOf (replicate n c.kind) = n * bytesPerLengthOffset := by
  rw [fixedLenOf_replicate, ← hSlot]
  rfl

/- The first offset is where the table ends, and the others follow in order. -/
theorem fits_elems_variable_iff {n : Nat} : Fits bs (replicate (n + 1) c.kind) ↔
    (n + 1) * bytesPerLengthOffset ≤ bs.length ∧
      ofLittleEndian (slice bs 0 bytesPerLengthOffset) = (n + 1) * bytesPerLengthOffset ∧
      Ascending (offsetsFrom bs 0 (replicate (n + 1) c.kind)) bs.length := by
  have hTable := fixedLenOf_elems hSlot (n + 1)
  have hHead : (offsetsFrom bs 0 (replicate (n + 1) c.kind)).head? =
      some (ofLittleEndian (slice bs 0 bytesPerLengthOffset)) := by
    rw [offsetsFrom_elems_succ hVar hSlot]
    rfl
  constructor
  · rintro ⟨hRange, hFst, hAscending⟩
    rw [hTable] at hRange
    rw [hTable, hHead] at hFst
    exact ⟨hRange, hFst, hAscending⟩
  · rintro ⟨hRange, hFst, hAscending⟩
    refine ⟨hTable ▸ hRange, ?_, hAscending⟩
    rw [hTable, hHead]
    exact hFst

theorem decodeVariableItems_ok_iff (hSome : bs ≠ []) :
    decodeVariableItems c bs = .ok xs ↔ ∃ n, Fits bs (replicate n c.kind) ∧ (slicesFrom bs 0
      (replicate n c.kind)).mapM c.fromSszBytes = .ok xs := by
  have hHead := offsetsFrom_elems_succ hVar hSlot bs
  unfold decodeVariableItems
  rw [ite_error_ok_iff, ite_error_ok_iff, ite_error_ok_iff, if_pos hSome,
    ite_error_ok_iff, bind_ok_iff, not_not, not_lt, not_lt]
  simp only [offsetsFrom_elems hVar hSlot, slicesFrom_elems hVar hSlot, mapM_map]
  constructor
  · rintro ⟨-, hMultiple, hRange, hCount, ⟨⟩, hCheck, hAll⟩
    have hFst := (Nat.div_mul_cancel (Nat.dvd_of_mod_eq_zero hMultiple)).symm
    rcases Nat.exists_eq_succ_of_ne_zero hCount with ⟨n, hSucc⟩
    rw [hSucc] at hFst hCheck hAll
    rw [Nat.succ_eq_add_one, hHead, checkListOffsets_none_eq, checkOffsets_none_ok_iff, ←
      hHead] at hCheck
    exact ⟨n + 1, (fits_elems_variable_iff hVar hSlot).mpr ⟨hFst ▸ hRange, hFst, hCheck.2⟩, hAll⟩
  · rintro ⟨n, hFits, hAll⟩
    rcases n with _ | n
    · exact absurd hFits.first (length_pos_of_ne_nil hSome).ne'
    · rcases (fits_elems_variable_iff hVar hSlot).mp hFits with ⟨hRange, hFst, hAscending⟩
      have hCount : (n + 1) * bytesPerLengthOffset / bytesPerLengthOffset = n + 1 :=
        Nat.mul_div_cancel _ (by decide)
      rw [hHead, hFst] at hAscending
      rw [hFst, hCount]
      refine ⟨?_, Nat.mul_mod_left _ _, hRange, Nat.succ_ne_zero n, (), ?_, hAll⟩
      · exact (Nat.le_mul_of_pos_left _ (Nat.succ_pos n)).trans hRange
      · rw [hHead, hFst, checkListOffsets_none_eq, checkOffsets_none_ok_iff]
        exact ⟨rfl, hAscending⟩

end

theorem decodeListItems_ok_iff (hSized : c.Sized) (hSome : bs ≠ []) :
    decodeListItems c bs = .ok xs ↔ ∃ n, Fits bs (replicate n c.kind) ∧ (slicesFrom bs 0
      (replicate n c.kind)).mapM c.fromSszBytes = .ok xs := by
  unfold decodeListItems
  rw [if_neg hSome]
  cases hFix : c.isFixedSize with
  | true =>
    exact decodeFixedItems_ok_iff hFix hSome
  | false =>
    exact decodeVariableItems_ok_iff hFix (hSized.slot hFix) hSome

end

----
-- Laws
----

variable {Value : Type} {c : Codec Value}

section

variable {xs : List Value}

section

variable (hSized : c.Sized) {bs : List UInt8} {n : Nat}
include hSized

/- Elements that are read from their slices, and encoded as before, give back the bytes. -/
theorem elemsSszAppend_of_fits (hFits : Fits bs (replicate n c.kind))
    (hAll : (slicesFrom bs 0 (replicate n c.kind)).mapM c.fromSszBytes = .ok xs)
    (hCanonical : ∀ piece ∈ slicesFrom bs 0 (replicate n c.kind), c.CanonicalAt piece) :
    elemsSszAppend c xs = bs := by
  rw [elemsSszAppend_eq hSized]
  rw [mapM_ok_iff] at hAll
  have hCount : n = xs.length := by
    rw [← hAll.length_eq, length_slicesFrom, length_replicate]
  rw [hCount, ← kinds_elems] at hFits hAll hCanonical
  apply deriveAppend_of_slices (lawful_parts hSized xs) hFits
  rw [bytes_elems, ← forall₂_eq_eq_eq, forall₂_map_right_iff, forall₂_iff_get]
  refine ⟨hAll.length_eq, fun i hPiece hItem => ?_⟩
  exact (hCanonical _ (get_mem _ ⟨i, hPiece⟩) _ (hAll.get hPiece hItem)).symm

theorem canonicalAt_of_elemsSszAppend (hSmall : bs.length < 2 ^ 32)
    (hAll : (slicesFrom bs 0 (replicate n c.kind)).mapM c.fromSszBytes = .ok xs)
    (hBytes : elemsSszAppend c xs = bs) :
    ∀ piece ∈ slicesFrom bs 0 (replicate n c.kind), c.CanonicalAt piece := by
  rw [mapM_ok_iff] at hAll
  have hCount : n = xs.length := by
    rw [← hAll.length_eq, length_slicesFrom, length_replicate]
  rw [elemsSszAppend_eq hSized] at hBytes
  subst hBytes
  have hSlices := (slices_deriveAppend (lawful_parts hSized xs) hSmall).2
  rw [kinds_elems, bytes_elems, ← hCount] at hSlices
  rw [hSlices, forall₂_map_left_iff, forall₂_same] at hAll
  rw [hSlices]
  intro piece hPiece item hItem
  rcases mem_map.mp hPiece with ⟨own, hOwn, rfl⟩
  rw [hAll own hOwn, Except.ok.injEq] at hItem
  rw [hItem]

end

variable (hLawful : c.Lawful)
include hLawful

theorem elemsSszAppend_of_decodeListItems {bs : List UInt8}
    (hOk : decodeListItems c bs = .ok xs) : elemsSszAppend c xs = bs := by
  by_cases hSome : bs = []
  · rw [decodeListItems, if_pos hSome, Except.ok.injEq] at hOk
    rw [elemsSszAppend_eq hLawful.toSized, ← hOk, hSome]
    rfl
  · rcases (decodeListItems_ok_iff hLawful.toSized hSome).mp hOk with ⟨n, hFits, hAll⟩
    exact elemsSszAppend_of_fits hLawful.toSized hFits hAll fun _ _ _ => hLawful.canonical

theorem decodeListItems_elemsSszAppend (hSized : c.sszFixedLen ≠ 0)
    (hRoundTrips : c.RoundTrips)
    (hSmall : (elemsSszAppend c xs).length < 2 ^ 32) :
    decodeListItems c (elemsSszAppend c xs) = .ok xs := by
  rw [elemsSszAppend_eq hLawful.toSized] at hSmall ⊢
  by_cases hNone : xs = []
  · rw [hNone]
    rfl
  · rcases slices_deriveAppend (lawful_parts hLawful.toSized xs) hSmall with ⟨hFits, hSlices⟩
    rw [kinds_elems] at hFits hSlices
    rw [bytes_elems] at hSlices
    have hSome : deriveAppend (xs.map c.part) ≠ [] := by
      intro hEmpty
      have hLen := hFits.length
      rw [hEmpty, fixedLenOf_replicate, length_nil, Nat.le_zero, mul_eq_zero] at hLen
      rcases hLen with hLen | hLen
      · exact hNone (length_eq_zero_iff.mp hLen)
      · exact hSized hLen
    refine (decodeListItems_ok_iff hLawful.toSized hSome).mpr ⟨xs.length, hFits, ?_⟩
    rw [mapM_ok_iff, hSlices, forall₂_map_left_iff, forall₂_same]
    intro item hItem
    have hPiece := mem_map_of_mem (f := c.sszAppend) hItem
    rw [← hSlices] at hPiece
    exact hRoundTrips item ((length_le_of_mem_slicesFrom hPiece).trans_lt hSmall)

theorem lawful_listCodec (N : Nat) : (listCodec c N).Lawful where
  slot _ := rfl
  length es := length_elemsSszAppend hLawful.toSized es.val
  fixed hFix := absurd hFix Bool.false_ne_true
  canonical := by
    intro bs es hOk
    rcases bind_ok_iff.mp hOk with ⟨xs, hItems, hxs⟩
    split at hxs
    · cases hxs
      exact elemsSszAppend_of_decodeListItems hLawful hItems
    · nomatch hxs

theorem roundTrips_listCodec (hSized : c.sszFixedLen ≠ 0) (hRoundTrips : c.RoundTrips)
    (N : Nat) : (listCodec c N).RoundTrips := by
  intro es hSmall
  refine bind_ok_iff.mpr ⟨es.val,
    decodeListItems_elemsSszAppend hLawful hSized hRoundTrips hSmall, ?_⟩
  exact dif_pos es.property

theorem lawful_vectorCodec (N : Nat) : (vectorCodec c N).Lawful where
  slot hVar := by
    simp only [vectorCodec] at hVar ⊢
    rw [hVar, if_neg Bool.false_ne_true]
  length es := length_elemsSszAppend hLawful.toSized es.val
  fixed hFix es := by
    simp only [vectorCodec] at hFix ⊢
    rw [elemsSszBytesLen, if_pos hFix, if_pos hFix, es.property, mul_comm]
  canonical := by
    intro bs es hOk
    rcases ite_error_ok_iff.mp hOk with ⟨-, hDec⟩
    rcases bind_ok_iff.mp hDec with ⟨xs, hItems, hxs⟩
    split at hxs
    · cases hxs
      exact elemsSszAppend_of_decodeListItems hLawful hItems
    · nomatch hxs

theorem roundTrips_vectorCodec (hSized : c.sszFixedLen ≠ 0) (hRoundTrips : c.RoundTrips)
    {N : Nat} (hSome : 0 < N) : (vectorCodec c N).RoundTrips := by
  intro es hSmall
  refine ite_error_ok_iff.mpr ⟨hSome.ne', ?_⟩
  refine bind_ok_iff.mpr ⟨es.val,
    decodeListItems_elemsSszAppend hLawful hSized hRoundTrips hSmall, ?_⟩
  exact dif_pos es.property

end

end Pharos.Ssz
