import Pharos.Ssz.Container

/-
  This file describes what the fields of a container and the elements of a sequence have in common:
  a table of what is in place and of offsets, and behind it the bytes that the offsets point to. The
  decoder cuts such a string into just the parts that the encoder has put together.
-/

----
-- Parts
----

namespace Pharos.Ssz

open Bytes List

/- A part states its lengths as they are. -/
structure Part.Lawful (part : Part) : Prop where
  length : part.bytes.length = part.sszBytesLen
  fixed : part.kind.isFixedSize = true → part.bytes.length = part.kind.sszFixedLen
  slot : part.kind.isFixedSize = false → part.kind.sszFixedLen = bytesPerLengthOffset

theorem Codec.Sized.part {Value : Type} {c : Codec Value} (hSized : c.Sized)
    (v : Value) :
    (c.part v).Lawful where
  length := hSized.length v
  fixed hFix := (hSized.length v).trans (hSized.fixed hFix v)
  slot := hSized.slot

/- The bytes behind the table. -/
def bodies (parts : List Part) : List (List UInt8) :=
  parts.filterMap fun part =>
    if part.kind.isFixedSize then none else some part.bytes

theorem flatten_bodies (ps : List Part) : (bodies ps).flatten = variablePass ps := by
  unfold bodies variablePass
  induction ps with
  | nil => rfl
  | cons part xs ih =>
    cases hKind : part.kind.isFixedSize <;> simp [hKind, ih]

theorem fixedLenOf_cons (kind : FieldKind) (kinds : List FieldKind) :
    fixedLenOf (kind :: kinds) = kind.sszFixedLen + fixedLenOf kinds :=
  rfl

variable {ps : List Part}

variable (hParts : ∀ part ∈ ps, part.Lawful)
include hParts

theorem length_fixedPass (off : Nat) :
    (fixedPass off ps).length = fixedLenOf (ps.map Part.kind) := by
  induction ps generalizing off with
  | nil => rfl
  | cons part xs ih =>
    rw [forall_mem_cons] at hParts
    rcases hParts with ⟨hPart, hxs⟩
    rw [map_cons, fixedLenOf_cons, fixedPass]
    cases hKind : part.kind.isFixedSize with
    | true => simp only [if_true, length_append, hPart.fixed hKind, ih hxs]
    | false =>
      simp only [Bool.false_eq_true, if_false, length_append, length_toLittleEndian,
        hPart.slot hKind, ih hxs]

theorem length_deriveAppend : (deriveAppend ps).length = bytesLenOf ps := by
  rw [deriveAppend, length_append, length_fixedPass hParts]
  induction ps with
  | nil => rfl
  | cons part xs ih =>
    rw [forall_mem_cons] at hParts
    rcases hParts with ⟨hPart, hxs⟩
    have hOthers := ih hxs
    unfold bytesLenOf variablePass at hOthers ⊢
    rw [map_cons, fixedLenOf_cons, flatMap_cons, length_append, map_cons, sum_cons, ← hOthers]
    cases hKind : part.kind.isFixedSize with
    | true =>
      simp only [if_true, length_nil]
      omega
    | false =>
      simp only [Bool.false_eq_true, if_false, hPart.length, hPart.slot hKind]
      grind

----
-- Reading the Table
----

def ReadsAt (bytes : List UInt8) : Nat → Nat → List Part → Prop
| _, _, [] => True
| cursor, offset, part :: rest =>
  let next := cursor + part.kind.sszFixedLen
  if part.kind.isFixedSize then
    slice bytes cursor next = part.bytes ∧ ReadsAt bytes next offset rest
  else
    ofLittleEndian (slice bytes cursor next) = offset ∧
      ReadsAt bytes next (offset + part.bytes.length) rest

def slotsFrom (bytes : List UInt8) : Nat → List FieldKind → List FieldSlot
| _, [] => []
| cursor, kind :: rest =>
  let next := cursor + kind.sszFixedLen
  (if kind.isFixedSize then
    .fixedSize cursor kind.sszFixedLen
  else
    .variableSize (ofLittleEndian (slice bytes cursor next)) 0) ::
    slotsFrom bytes next rest

variable {cursor off : Nat}

theorem fixedPass_of_readsAt {bs : List UInt8}
    (hReads : ReadsAt bs cursor off ps)
    (hLen : cursor + fixedLenOf (ps.map Part.kind) ≤ bs.length) :
    fixedPass off ps = slice bs cursor (cursor + fixedLenOf (ps.map Part.kind)) := by
  induction ps generalizing cursor off with
  | nil =>
    rw [map_nil, fixedLenOf, map_nil, sum_nil]
    simp [fixedPass, slice]
  | cons part xs ih =>
    rw [forall_mem_cons] at hParts
    rcases hParts with ⟨hPart, hxs⟩
    rw [map_cons, fixedLenOf_cons, ← Nat.add_assoc] at hLen ⊢
    have hJoin := slice_append_slice (Nat.le_add_right cursor part.kind.sszFixedLen)
      (Nat.le_add_right (cursor + part.kind.sszFixedLen) (fixedLenOf (xs.map Part.kind))) hLen
    rw [fixedPass, ← hJoin]
    unfold ReadsAt at hReads
    cases hKind : part.kind.isFixedSize with
    | true =>
      rw [hKind, if_pos rfl] at hReads
      rw [if_pos rfl, hReads.1, ih hxs hReads.2 hLen]
    | false =>
      rw [hKind, if_neg Bool.false_ne_true] at hReads
      rw [if_neg Bool.false_ne_true, ← hPart.length, ih hxs hReads.2 hLen, ← hReads.1]
      congr 1
      have hSlot : (slice bs cursor (cursor + part.kind.sszFixedLen)).length =
          bytesPerLengthOffset := by
        rw [length_slice (by omega), hPart.slot hKind]
        omega
      rw [← hSlot]
      exact toLittleEndian_ofLittleEndian _

theorem readsAt_fixedPass (front back : List UInt8)
    (hSmall : off + (variablePass ps).length < 2 ^ 32) :
    ReadsAt (front ++ (fixedPass off ps ++ back)) front.length off ps := by
  induction ps generalizing front off with
  | nil => trivial
  | cons part xs ih =>
    rw [forall_mem_cons] at hParts
    rcases hParts with ⟨hPart, hxs⟩
    unfold ReadsAt
    unfold variablePass at hSmall
    rw [flatMap_cons, length_append] at hSmall
    cases hKind : part.kind.isFixedSize with
    | true =>
      have hLess : off + (variablePass xs).length < 2 ^ 32 := by
        unfold variablePass
        omega
      have hOthers := ih hxs (front ++ part.bytes) hLess
      rw [if_pos rfl, fixedPass, hKind, if_pos rfl, append_assoc, ← hPart.fixed hKind]
      rw [append_assoc, length_append] at hOthers
      exact ⟨slice_append _ _ _, hOthers⟩
    | false =>
      rw [hKind] at hSmall
      rw [if_neg Bool.false_ne_true] at hSmall ⊢
      have hLess : off + part.bytes.length + (variablePass xs).length < 2 ^ 32 := by
        unfold variablePass
        omega
      have hOthers := ih hxs (front ++ toLittleEndian bytesPerLengthOffset off) hLess
      rw [fixedPass, hKind, if_neg Bool.false_ne_true, append_assoc, ← hPart.length,
        hPart.slot hKind]
      rw [append_assoc, length_append, length_toLittleEndian] at hOthers
      refine ⟨?_, hOthers⟩
      have hWord : off < 256 ^ bytesPerLengthOffset := by
        unfold bytesPerLengthOffset
        omega
      have hGot := slice_append front (toLittleEndian bytesPerLengthOffset off)
        (fixedPass (off + part.bytes.length) xs ++ back)
      rw [length_toLittleEndian] at hGot
      rw [hGot, ofLittleEndian_toLittleEndian hWord]

omit hParts

----
-- Slots
----

variable {bytes : List UInt8}

def slicesFrom (bytes : List UInt8) (cursor : Nat) (kinds : List FieldKind) : List (List UInt8) :=
  (assignEnds bytes.length (slotsFrom bytes cursor kinds)).map (FieldSlot.slice bytes)

def offsetsFrom (bytes : List UInt8) (cursor : Nat) (kinds : List FieldKind) : List Nat :=
  offsetsOf (slotsFrom bytes cursor kinds)

theorem slicesFrom_fixed {kind : FieldKind} {xs : List FieldKind}
    (hKind : kind.isFixedSize = true) :
    slicesFrom bytes cursor (kind :: xs) = slice bytes cursor (cursor + kind.sszFixedLen) ::
          slicesFrom bytes (cursor + kind.sszFixedLen) xs ∧
      offsetsFrom bytes cursor (kind :: xs) = offsetsFrom bytes (cursor + kind.sszFixedLen) xs := by
  simp [slicesFrom, offsetsFrom, slotsFrom, hKind, assignEnds, offsetsOf, FieldSlot.slice]

theorem slicesFrom_variable {kind : FieldKind} {xs : List FieldKind}
    (hKind : kind.isFixedSize = false) :
    slicesFrom bytes cursor (kind :: xs) =
        slice bytes (ofLittleEndian (slice bytes cursor (cursor + kind.sszFixedLen)))
            ((offsetsFrom bytes (cursor + kind.sszFixedLen) xs).head?.getD bytes.length) ::
          slicesFrom bytes (cursor + kind.sszFixedLen) xs ∧
      offsetsFrom bytes cursor (kind :: xs) =
        ofLittleEndian (slice bytes cursor (cursor + kind.sszFixedLen)) ::
          offsetsFrom bytes (cursor + kind.sszFixedLen) xs := by
  simp [slicesFrom, offsetsFrom, slotsFrom, hKind, assignEnds, offsetsOf, FieldSlot.slice]

theorem length_slicesFrom (bytes : List UInt8) (cursor : Nat) (kinds : List FieldKind) :
    (slicesFrom bytes cursor kinds).length = kinds.length := by
  induction kinds generalizing cursor with
  | nil => rfl
  | cons kind xs ih =>
    cases hKind : kind.isFixedSize with
    | true => simp [(slicesFrom_fixed hKind).1, ih]
    | false => simp [(slicesFrom_variable hKind).1, ih]

theorem length_le_of_mem_slicesFrom {kinds : List FieldKind} {piece : List UInt8}
    (hPiece : piece ∈ slicesFrom bytes cursor kinds) : piece.length ≤ bytes.length := by
  rcases mem_map.mp hPiece with ⟨slot, -, rfl⟩
  have hSlice : ∀ s₀ stop, (slice bytes s₀ stop).length ≤ bytes.length := by
    intro s₀ stop
    unfold slice
    rw [length_drop, length_take]
    omega
  cases slot with
  | fixedSize s₀ len | variableSize off stop => exact hSlice _ _

theorem offsetsFrom_of_readsAt (hReads : ReadsAt bytes cursor off ps) :
    offsetsFrom bytes cursor (ps.map Part.kind) = running off (bodies ps) := by
  induction ps generalizing cursor off with
  | nil => rfl
  | cons part xs ih =>
    unfold ReadsAt at hReads
    cases hKind : part.kind.isFixedSize with
    | true =>
      rw [hKind, if_pos rfl] at hReads
      rw [map_cons, (slicesFrom_fixed hKind).2, ih hReads.2]
      simp [bodies, hKind]
    | false =>
      rw [hKind, if_neg Bool.false_ne_true] at hReads
      rw [map_cons, (slicesFrom_variable hKind).2, ih hReads.2, hReads.1]
      simp [bodies, hKind, running]

theorem slicesFrom_of_readsAt (hReads : ReadsAt bytes cursor off ps)
    (hCut : cut bytes (running off (bodies ps)) = bodies ps) :
    slicesFrom bytes cursor (ps.map Part.kind) = ps.map Part.bytes := by
  induction ps generalizing cursor off with
  | nil => rfl
  | cons part xs ih =>
    unfold ReadsAt at hReads
    cases hKind : part.kind.isFixedSize with
    | true =>
      rw [hKind, if_pos rfl] at hReads
      have hEq : bodies (part :: xs) = bodies xs := by
        simp [bodies, hKind]
      rw [hEq] at hCut
      rw [map_cons, (slicesFrom_fixed hKind).1, hReads.1, ih hReads.2 hCut, map_cons]
    | false =>
      rw [hKind, if_neg Bool.false_ne_true] at hReads
      have hMore : bodies (part :: xs) = part.bytes :: bodies xs := by
        simp [bodies, hKind]
      rw [hMore, running, cut, List.cons.injEq] at hCut
      rw [map_cons, (slicesFrom_variable hKind).1, offsetsFrom_of_readsAt hReads.2,
        hReads.1, hCut.1, ih hReads.2 hCut.2, map_cons]

theorem readsAt_of_slicesFrom
    (hAsc : Ascending (offsetsFrom bytes cursor (ps.map Part.kind)) bytes.length)
    (hSlices : slicesFrom bytes cursor (ps.map Part.kind) = ps.map Part.bytes) :
    ReadsAt bytes cursor ((offsetsFrom bytes cursor (ps.map Part.kind)).head?.getD bytes.length)
        ps ∧
      bodies ps = cut bytes (offsetsFrom bytes cursor (ps.map Part.kind)) := by
  induction ps generalizing cursor with
  | nil => exact ⟨trivial, rfl⟩
  | cons part xs ih =>
    rw [map_cons] at hAsc hSlices ⊢
    unfold ReadsAt
    cases hKind : part.kind.isFixedSize with
    | true =>
      rw [(slicesFrom_fixed hKind).2] at hAsc ⊢
      rw [(slicesFrom_fixed hKind).1, map_cons, List.cons.injEq] at hSlices
      rcases ih hAsc hSlices.2 with ⟨hReads, hBodies⟩
      refine ⟨⟨hSlices.1, hReads⟩, ?_⟩
      rw [← hBodies]
      simp [bodies, hKind]
    | false =>
      rw [(slicesFrom_variable hKind).2] at hAsc ⊢
      rw [(slicesFrom_variable hKind).1, map_cons, List.cons.injEq] at hSlices
      rw [ascending_cons_iff] at hAsc
      rcases ih hAsc.2 hSlices.2 with ⟨hReads, hBodies⟩
      rw [if_neg Bool.false_ne_true, cut, ← hBodies, hSlices.1, head?_cons, Option.getD_some]
      have hNext : ofLittleEndian (slice bytes cursor (cursor + part.kind.sszFixedLen)) +
          part.bytes.length = (offsetsFrom bytes (cursor +
          part.kind.sszFixedLen) (xs.map Part.kind)).head?.getD bytes.length := by
        rw [← hSlices.1, length_slice (head_le_of_ascending hAsc.2)]
        omega
      rw [hNext]
      refine ⟨⟨rfl, hReads⟩, ?_⟩
      simp [bodies, hKind]

/-
  A string has all fields, the first offset is where the fields in place end, and the offsets go on
  in order.
-/
structure Fits (bytes : List UInt8) (kinds : List FieldKind) : Prop where
  length : fixedLenOf kinds ≤ bytes.length
  first : (offsetsFrom bytes 0 kinds).head?.getD bytes.length = fixedLenOf kinds
  ascending : Ascending (offsetsFrom bytes 0 kinds) bytes.length

/- Slices of a string, put together, are the string. -/
theorem deriveAppend_of_slices (hParts : ∀ part ∈ ps, part.Lawful)
    (hFits : Fits bytes (ps.map Part.kind))
    (hSlices : slicesFrom bytes 0 (ps.map Part.kind) = ps.map Part.bytes) :
    deriveAppend ps = bytes := by
  rcases readsAt_of_slicesFrom hFits.ascending hSlices with ⟨hReads, hBodies⟩
  have hTable := fixedPass_of_readsAt hParts hReads (by rw [zero_add]; exact hFits.length)
  rw [hFits.first, zero_add] at hTable
  rw [deriveAppend, hTable, ← flatten_bodies, hBodies, flatten_cut hFits.ascending, hFits.first]
  exact take_append_drop _ bytes

/- Parts that were put together are cut apart again. -/
theorem slices_deriveAppend (hParts : ∀ part ∈ ps, part.Lawful)
    (hSmall : (deriveAppend ps).length < 2 ^ 32) :
    Fits (deriveAppend ps) (ps.map Part.kind) ∧
      slicesFrom (deriveAppend ps) 0 (ps.map Part.kind) = ps.map Part.bytes := by
  have hTable := length_fixedPass hParts (fixedLenOf (ps.map Part.kind))
  have hTotal : (deriveAppend ps).length =
      fixedLenOf (ps.map Part.kind) + (variablePass ps).length := by
    rw [← hTable]
    exact length_append
  have hReads : ReadsAt (deriveAppend ps) 0 (fixedLenOf (ps.map Part.kind)) ps := by
    apply readsAt_fixedPass hParts [] (variablePass ps)
    rw [← hTotal]
    exact hSmall
  have hOffsets := offsetsFrom_of_readsAt hReads
  have hCut : cut (deriveAppend ps) (running (fixedLenOf (ps.map Part.kind)) (bodies ps)) =
      bodies ps := by
    have hRunning := cut_running (fixedPass (fixedLenOf (ps.map Part.kind)) ps) (bodies ps)
    rw [hTable, flatten_bodies] at hRunning
    exact hRunning
  have hAsc := ascending_running (fixedLenOf (ps.map Part.kind)) (bodies ps)
  rw [flatten_bodies, ← hTotal, ← hOffsets] at hAsc
  refine ⟨⟨by omega, ?_, hAsc⟩, slicesFrom_of_readsAt hReads hCut⟩
  rw [hOffsets]
  cases hBodies : bodies ps with
  | nil =>
    rw [← flatten_bodies, hBodies] at hTotal
    simpa [running] using hTotal
  | cons body xs => simp [running]

end Pharos.Ssz
