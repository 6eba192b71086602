import Pharos.Ssz.Codec

/-
  This file implements the encoding of containers, as it is derived from their fields. Fields of
  fixed size are written in place, and for the others there is an offset to where their bytes are,
  behind all fields.

  The decoder registers the fields of a container, resolves the offsets, and then decodes field by
  field.
-/

----
-- Encoding
----

namespace Pharos.Ssz

section

open Bytes

/- What is known of a field from its type. -/
structure FieldKind where
  isFixedSize : Bool
  sszFixedLen : Nat
deriving DecidableEq

/- A field with its value. -/
structure Part where
  kind : FieldKind
  sszBytesLen : Nat
  bytes : List UInt8

namespace Codec

variable {Value : Type}

def kind (codec : Codec Value) : FieldKind :=
  ⟨codec.isFixedSize, codec.sszFixedLen⟩

def part (codec : Codec Value) (value : Value) : Part :=
  ⟨codec.kind, codec.sszBytesLen value, codec.sszAppend value⟩

end Codec

def fixedLenOf (kinds : List FieldKind) : Nat :=
  (kinds.map FieldKind.sszFixedLen).sum

def bytesLenOf (parts : List Part) : Nat :=
  (parts.map fun part =>
    if part.kind.isFixedSize then
      part.kind.sszFixedLen
    else
      bytesPerLengthOffset + part.sszBytesLen).sum

def fixedPass : Nat → List Part → List UInt8
| _, [] => []
| offset, part :: rest =>
  if part.kind.isFixedSize then
    part.bytes ++ fixedPass offset rest
  else
    toLittleEndian bytesPerLengthOffset offset ++ fixedPass (offset + part.sszBytesLen) rest

def variablePass (parts : List Part) : List UInt8 :=
  parts.flatMap fun part =>
    if part.kind.isFixedSize then [] else part.bytes

def deriveAppend (parts : List Part) : List UInt8 :=
  let fixedLen := fixedLenOf (parts.map Part.kind)
  fixedPass fixedLen parts ++ variablePass parts

----
-- The Decoder
----

inductive FieldSlot where
  | fixedSize (start len : Nat)
  | variableSize (offset stop : Nat)
deriving DecidableEq

def FieldSlot.slice (bytes : List UInt8) : FieldSlot → List UInt8
| .fixedSize start len =>
  Bytes.slice bytes start (start + len)
| .variableSize offset stop =>
  Bytes.slice bytes offset stop

structure SszDecoder where
  bytes : List UInt8
  fixedCursor : Nat
  slots : List FieldSlot
  decodeIndex : Nat
  fixedRegionLen : Nat

namespace SszDecoder

def new (bytes : List UInt8) : SszDecoder :=
  ⟨bytes, 0, [], 0, 0⟩

section

variable (decoder : SszDecoder)

def registerType (kind : FieldKind) : Except SszError SszDecoder :=
  let start := decoder.fixedCursor
  let stop := start + kind.sszFixedLen
  if decoder.bytes.length < stop then
    .error (.incompleteData stop decoder.bytes.length)
  else
    .ok
      { decoder with
        slots := decoder.slots ++ [.fixedSize start kind.sszFixedLen]
        fixedCursor := stop }

def registerAnonymousVariableLengthItem : Except SszError SszDecoder :=
  let offsetStart := decoder.fixedCursor
  let offsetStop := offsetStart + bytesPerLengthOffset
  if decoder.bytes.length < offsetStop then
    .error (.incompleteData offsetStop decoder.bytes.length)
  else
    let offset := ofLittleEndian (slice decoder.bytes offsetStart offsetStop)
    .ok
      { decoder with
        slots := decoder.slots ++ [.variableSize offset 0]
        fixedCursor := offsetStop }

def register (kind : FieldKind) : Except SszError SszDecoder :=
  if kind.isFixedSize then
    decoder.registerType kind
  else
    decoder.registerAnonymousVariableLengthItem

end

end SszDecoder

def offsetsOf (slots : List FieldSlot) : List Nat :=
  slots.filterMap fun slot =>
    match slot with
    | .fixedSize _ _ => none
    | .variableSize offset _ => some offset

def checkOffsets (fixedLen total : Nat) : Option Nat → List Nat → Except SszError Unit
| _, [] => .ok ()
| prev, offset :: rest =>
  if prev = none ∧ offset ≠ fixedLen then
    .error .offsetIntoFixedRegion
  else if offset < fixedLen then
    .error .offsetIntoFixedRegion
  else if total < offset then
    .error (.offsetOutOfRange offset total)
  else if offset < prev.getD offset then
    .error .offsetsNotMonotonic
  else
    checkOffsets fixedLen total (some offset) rest

def assignEnds (total : Nat) : List FieldSlot → List FieldSlot
| [] => []
| .fixedSize start len :: rest =>
  .fixedSize start len :: assignEnds total rest
| .variableSize offset _ :: rest =>
  .variableSize offset ((offsetsOf rest).head?.getD total) :: assignEnds total rest

namespace SszDecoder

def maybeResolveOffsets (decoder : SszDecoder) : Except SszError SszDecoder :=
  if decoder.fixedRegionLen ≠ 0 then
    .ok decoder
  else
    let fixedLen := decoder.fixedCursor
    let total := decoder.bytes.length
    let offsets := offsetsOf decoder.slots
    if offsets = [] then
      if fixedLen ≠ total then
        .error (.extraBytes (total - fixedLen))
      else
        .ok { decoder with fixedRegionLen := fixedLen }
    else do
      checkOffsets fixedLen total none offsets
      .ok
        { decoder with
          fixedRegionLen := fixedLen
          slots := assignEnds total decoder.slots }

def decodeNext {Value : Type} (codec : Codec Value) (decoder : SszDecoder) :
    Except SszError (Value × SszDecoder) := do
  let decoder ← decoder.maybeResolveOffsets
  match decoder.slots[decoder.decodeIndex]? with
  | none =>
    .error (.custom "decode_next called more times than fields registered")
  | some slot => do
      let value ← codec.fromSszBytes (slot.slice decoder.bytes)
      .ok (value, { decoder with decodeIndex := decoder.decodeIndex + 1 })

def finish (decoder : SszDecoder) : Except SszError Unit :=
  let remaining := decoder.slots.length - decoder.decodeIndex
  if 0 < remaining then .error (.incompleteDecode remaining) else .ok ()

end SszDecoder

end

----
-- Containers
----

/- The fields that are encoded, with all their values. -/
structure FieldsCodec (Values : Type) where
  kinds : List FieldKind
  parts : Values → List Part
  decodeAll : SszDecoder → Except SszError (Values × SszDecoder)

namespace FieldsCodec

def nil : FieldsCodec Unit where
  kinds := []
  parts _ := []
  decodeAll decoder := .ok ((), decoder)

def cons {Value Values : Type} (field : Codec Value) (rest : FieldsCodec Values) :
    FieldsCodec (Value × Values) where
  kinds := field.kind :: rest.kinds
  parts values := field.part values.1 :: rest.parts values.2
  decodeAll decoder := do
    let (value, decoder) ← decoder.decodeNext field
    let (values, decoder) ← rest.decodeAll decoder
    .ok ((value, values), decoder)

end FieldsCodec

def deriveFromSszBytes {Values : Type} (fields : FieldsCodec Values) (bytes : List UInt8) :
    Except SszError Values :=
  if fields.kinds = [] then
    if bytes ≠ [] then
      .error (.extraBytes bytes.length)
    else
      (fields.decodeAll (.new bytes)).map Prod.fst
  else do
    let decoder ← fields.kinds.foldlM SszDecoder.register (.new bytes)
    let (values, decoder) ← fields.decodeAll decoder
    decoder.finish
    .ok values

def containerCodec {Values : Type} (fields : FieldsCodec Values) : Codec Values where
  isFixedSize := fields.kinds.all FieldKind.isFixedSize
  sszFixedLen :=
    if fields.kinds.all FieldKind.isFixedSize then
      fixedLenOf fields.kinds
    else
      bytesPerLengthOffset
  sszBytesLen values := bytesLenOf (fields.parts values)
  sszAppend values := deriveAppend (fields.parts values)
  fromSszBytes := deriveFromSszBytes fields

end Pharos.Ssz
