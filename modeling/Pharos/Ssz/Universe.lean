import Pharos.Ssz.Bitfield
import Pharos.Ssz.Sequence

/-
  This file describes all types that are encoded, with their values, and proves by induction over
  the types that what is encoded is read back, and that nothing else is accepted.

  Main theorems:
  * `Ssz.SszType.asSszBytes_unique`
-/

----
-- Types
----

namespace Pharos.Ssz

mutual

inductive SszType where
  | bool
  | uint (width : UintWidth)
  | fixedBytes (M : Nat)
  | bitvector (N : Nat)
  | bitlist (N : Nat)
  | vector (elem : SszType) (N : Nat)
  | list (elem : SszType) (N : Nat)
  | container (fields : SszFields)

inductive SszFields where
  | nil
  | cons (field : SszType) (rest : SszFields)

end

mutual

/- A sequence is given by its elements, whichever way they are stored. -/
def SszType.Value : SszType → Type
| .bool => Bool
| .uint width => Fin (256 ^ width.bytes)
| .fixedBytes M => FixedBytes M
| .bitvector N => Bitvector N
| .bitlist N => Bitlist N
| .vector elem N =>
  { elems : List elem.Value // elems.length = N }
| .list elem N =>
  { elems : List elem.Value // elems.length ≤ N }
| .container fields => fields.Values

def SszFields.Values : SszFields → Type
| .nil => Unit
| .cons field rest => field.Value × rest.Values

end

mutual

def SszType.codec : (type : SszType) → Codec type.Value
| .bool => boolCodec
| .uint width => uintCodec width
| .fixedBytes M => fixedBytesCodec M
| .bitvector N => bitvectorCodec N
| .bitlist N => bitlistCodec N
| .vector elem N => vectorCodec elem.codec N
| .list elem N => listCodec elem.codec N
| .container fields => containerCodec fields.codec

def SszFields.codec : (fields : SszFields) → FieldsCodec fields.Values
| .nil => FieldsCodec.nil
| .cons field rest => FieldsCodec.cons field.codec rest.codec

end

def SszType.ZeroSize (type : SszType) : Prop :=
  type.codec.isFixedSize = true ∧ type.codec.sszFixedLen = 0

mutual

def SszType.WellFormed : SszType → Prop
| .bool => True
| .uint _ => True
| .fixedBytes _ => True
| .bitvector N => 0 < N
| .bitlist _ => True
| .vector elem N =>
  elem.WellFormed ∧ ¬ elem.ZeroSize ∧ 0 < N
| .list elem _ => elem.WellFormed ∧ ¬ elem.ZeroSize
| .container fields => fields.WellFormed

def SszFields.WellFormed : SszFields → Prop
| .nil => True
| .cons field rest => field.WellFormed ∧ rest.WellFormed

end

----
-- Laws
----

mutual

theorem SszType.lawful_codec : (type : SszType) → type.codec.Lawful
| .bool => lawful_boolCodec
| .uint width => lawful_uintCodec width
| .fixedBytes M => lawful_fixedBytesCodec M
| .bitvector N => lawful_bitvectorCodec N
| .bitlist N => lawful_bitlistCodec N
| .vector x N => lawful_vectorCodec x.lawful_codec N
| .list x N => lawful_listCodec x.lawful_codec N
| .container fields => lawful_containerCodec fields.lawful_codec

theorem SszFields.lawful_codec : (fields : SszFields) → fields.codec.Lawful
| .nil => FieldsCodec.lawful_nil
| .cons field xs =>
  FieldsCodec.lawful_cons field.lawful_codec xs.lawful_codec

end

theorem SszType.sszFixedLen_ne_zero {type : SszType} (hSized : ¬ type.ZeroSize) :
    type.codec.sszFixedLen ≠ 0 := by
  intro hZero
  cases hFix : type.codec.isFixedSize with
  | true => exact hSized ⟨hFix, hZero⟩
  | false =>
    rw [type.lawful_codec.slot hFix] at hZero
    nomatch hZero

mutual

theorem SszType.roundTrips_codec : (type : SszType) → type.WellFormed → type.codec.RoundTrips
| .bool, _ => roundTrips_boolCodec
| .uint width, _ => roundTrips_uintCodec width
| .fixedBytes M, _ => roundTrips_fixedBytesCodec M
| .bitvector _, hBits => roundTrips_bitvectorCodec hBits
| .bitlist N, _ => roundTrips_bitlistCodec N
| .vector x _, ⟨hElem, hSized, hSome⟩ =>
  roundTrips_vectorCodec x.lawful_codec (SszType.sszFixedLen_ne_zero hSized)
    (x.roundTrips_codec hElem) hSome
| .list x N, ⟨hElem, hSized⟩ =>
  roundTrips_listCodec x.lawful_codec (SszType.sszFixedLen_ne_zero hSized)
    (x.roundTrips_codec hElem) N
| .container fields, hFields =>
  roundTrips_containerCodec fields.lawful_codec (fields.roundTrips_codec hFields)

theorem SszFields.roundTrips_codec :
    (fields : SszFields) → fields.WellFormed → fields.codec.RoundTrips
| .nil, _ => FieldsCodec.roundTrips_nil
| .cons field xs, ⟨hField, hxs⟩ =>
  FieldsCodec.roundTrips_cons (field.roundTrips_codec hField) (xs.roundTrips_codec hxs)

end

----
-- Encoding and Decoding
----

def nestedLists : SszType :=
  .container (.cons (.uint .u16) (.cons (.list (.list (.uint .u8) 4) 2) .nil))

def nestedListsValue : nestedLists.Value :=
  ((513 : Fin (256 ^ 2)), (⟨[⟨[(7 : Fin (256 ^ 1))], by decide⟩, ⟨[], by decide⟩], by decide⟩, ()))

def nestedListsBytes : List UInt8 :=
  [1, 2, 6, 0, 0, 0, 8, 0, 0, 0, 9, 0, 0, 0, 7]

/- Bytes that are accepted are those of the value, so no other bytes are accepted for it. -/
theorem SszType.asSszBytes_unique (type : SszType) (bytes : List UInt8) (value : type.Value)
    (hOk : type.codec.fromSszBytes bytes = .ok value) :
    type.codec.asSszBytes value = bytes ∧
      ∀ others, type.codec.fromSszBytes others = .ok value → others = bytes := by
  have hBytes := type.lawful_codec.canonical hOk
  refine ⟨hBytes, ?_⟩
  intro others hOthers
  exact (type.lawful_codec.canonical hOthers).symm.trans hBytes

theorem nestedLists_bytes_unique :
    nestedLists.codec.asSszBytes nestedListsValue = nestedListsBytes ∧ ∀ others,
      nestedLists.codec.fromSszBytes others = .ok nestedListsValue → others = nestedListsBytes :=
  SszType.asSszBytes_unique nestedLists nestedListsBytes nestedListsValue rfl

end Pharos.Ssz
