import Pharos.Ssz.BothBackends
import Pharos.Ssz.Universe

/-
  This file determines which values are read back from their bytes, whatever backends their lists
  and vectors have on each level. A list is compared by the length that it stores, but what is
  written is what it iterates over, and a tree that is not deep enough iterates over less.

  Main theorems:
  * `Ssz.SszType.read_back_iff`
-/

----
-- Storage
----

namespace Pharos.Ssz

open List

/-
  How the values of a type are stored. A value that is read is flat on all levels, `eq` is `==`, and
  a whole value has all the elements that it counts, on all levels.
-/
structure Storage {Value : Type} (codec : Codec Value) where
  Stored : Type
  flat : Value → Stored
  eq : Stored → Stored → Bool
  Whole : Stored → Prop
  sszBytesLen : Stored → Nat
  sszAppend : Stored → List UInt8
  encoded : ∀ {value stored}, eq (flat value) stored →
    sszBytesLen stored = codec.sszBytesLen value ∧ sszAppend stored = codec.sszAppend value
  whole_iff : ∀ {stored}, Whole stored ↔ ∃ value, eq (flat value) stored

structure FieldsStorage {Values : Type} (codec : FieldsCodec Values) where
  Stored : Type
  flat : Values → Stored
  eq : Stored → Stored → Bool
  Whole : Stored → Prop
  parts : Stored → List Part
  encoded : ∀ {values stored}, eq (flat values) stored → parts stored = codec.parts values
  whole_iff : ∀ {stored}, Whole stored ↔ ∃ values, eq (flat values) stored

namespace Storage

variable {Value : Type} {codec : Codec Value}

def codecOf (storage : Storage codec) : Codec storage.Stored where
  isFixedSize := codec.isFixedSize
  sszFixedLen := codec.sszFixedLen
  sszBytesLen := storage.sszBytesLen
  sszAppend := storage.sszAppend
  fromSszBytes bytes := (codec.fromSszBytes bytes).map storage.flat

instance (storage : Storage codec) : BEq storage.Stored :=
  ⟨storage.eq⟩

/- A stored value equals the one that is read. -/
def Alike (storage : Storage codec) (value : Value) (stored : storage.Stored) : Prop :=
  storage.eq (storage.flat value) stored

/- Values without lists and vectors. -/
def plain [DecidableEq Value] (codec : Codec Value) : Storage codec where
  Stored := Value
  flat := id
  eq value other := value = other
  Whole _ := True
  sszBytesLen := codec.sszBytesLen
  sszAppend := codec.sszAppend
  encoded hEq := of_decide_eq_true hEq ▸ ⟨rfl, rfl⟩
  whole_iff := iff_of_true trivial ⟨_, decide_eq_true rfl⟩

----
-- Sequences
----

section

variable (elem : Storage codec) {values : List Value} {items : List elem.Stored}

theorem elemOffsets_eq
    (hLens : items.map elem.codecOf.sszBytesLen = values.map codec.sszBytesLen) (off : Nat) :
    elemOffsets elem.codecOf off items = elemOffsets codec off values := by
  induction items generalizing values off with
  | nil => cases values <;> simp_all [elemOffsets]
  | cons item xs ih =>
    cases values with
    | nil => cases hLens
    | cons value ys =>
      rw [map_cons, map_cons, cons.injEq] at hLens
      rw [elemOffsets, elemOffsets, hLens.1, ih hLens.2]

theorem encoded_elems
    (hAll : Forall₂ elem.Alike values items) :
    elemsSszBytesLen elem.codecOf items = elemsSszBytesLen codec values ∧
      elemsSszAppend elem.codecOf items = elemsSszAppend codec values := by
  have hLens : items.map elem.codecOf.sszBytesLen = values.map codec.sszBytesLen := by
    induction hAll with
    | nil => rfl
    | cons hEq _ ih => exact congrArg₂ cons (elem.encoded hEq).1 ih
  have hBytes : items.flatMap elem.codecOf.sszAppend = values.flatMap codec.sszAppend := by
    induction hAll with
    | nil => rfl
    | cons hEq _ ih => exact congrArg₂ (· ++ ·) (elem.encoded hEq).2 (ih (cons.inj hLens).2)
  have hFixed : elem.codecOf.isFixedSize = codec.isFixedSize := rfl
  have hSlot : elem.codecOf.sszFixedLen = codec.sszFixedLen := rfl
  simp only [elemsSszBytesLen, elemsSszAppend, variableElemsSszBytesLen, encodeVariableElems,
    hFixed, hSlot, hLens, hBytes, elem.elemOffsets_eq hLens, hAll.length_eq, and_self]

theorem whole_elems_iff : (∀ item ∈ items, elem.Whole item) ↔
    ∃ values, Forall₂ elem.Alike values items := by
  induction items with
  | nil => simp
  | cons item xs ih =>
    rw [forall_mem_cons, ih, elem.whole_iff]
    simp only [forall₂_cons_right_iff]
    constructor
    · rintro ⟨⟨value, hEq⟩, values, hAll⟩
      exact ⟨_, value, values, hEq, hAll, rfl⟩
    · rintro ⟨_, value, values, hEq, hAll, -⟩
      exact ⟨⟨value, hEq⟩, values, hAll⟩

theorem beq_iff_forall₂ {others : List elem.Stored} :
    (items == others) = true ↔ Forall₂ (fun item other => elem.eq item other) items others := by
  induction items generalizing others with
  | nil => cases others <;> simp
  | cons item xs ih =>
    cases others with
    | nil => simp
    | cons other ys => exact Bool.and_eq_true_iff.trans (by rw [forall₂_cons, ← ih]; rfl)

variable (N : Nat)

def flatList (values : List Value) : SszList elem.Stored :=
  ⟨.flat (values.map elem.flat), values.length, 1⟩

theorem eq_flatList_iff {list : SszList elem.Stored} :
    SszList.eq N (elem.flatList values) list ↔ values.length = list.len ∧
      Forall₂ elem.Alike values (list.iter N) := by
  rw [SszList.eq_eq_iter, Bool.and_eq_true, decide_eq_true_iff, elem.beq_iff_forall₂]
  exact and_congr_right fun _ => forall₂_map_left_iff

def list : Storage (listCodec codec N) where
  Stored := SszList elem.Stored
  flat value := elem.flatList value.val
  eq := SszList.eq N
  Whole list := (list.iter N).length = list.len ∧ list.len ≤ N ∧
    ∀ item ∈ list.iter N, elem.Whole item
  sszBytesLen list := elemsSszBytesLen elem.codecOf (list.iter N)
  sszAppend list := elemsSszAppend elem.codecOf (list.iter N)
  encoded hEq := elem.encoded_elems ((elem.eq_flatList_iff N).mp hEq).2
  whole_iff := by
    intro list
    rw [elem.whole_elems_iff]
    constructor
    · rintro ⟨hLen, hRoom, values, hAll⟩
      have hCount := hAll.length_eq.trans hLen
      exact ⟨⟨values, hCount ▸ hRoom⟩, (elem.eq_flatList_iff N).mpr ⟨hCount, hAll⟩⟩
    · rintro ⟨⟨values, hRoom⟩, hEq⟩
      rcases (elem.eq_flatList_iff N).mp hEq with ⟨hLen, hAll⟩
      exact ⟨hAll.length_eq.symm.trans hLen, hLen ▸ hRoom, values, hAll⟩

def flatVector (values : List Value) : SszVector elem.Stored :=
  ⟨.flat (values.map elem.flat), 1⟩

theorem eq_flatVector_iff {vector : SszVector elem.Stored} :
    SszVector.eq N (elem.flatVector values) vector ↔ Forall₂ elem.Alike values (vector.iter N) := by
  rw [SszVector.eq_eq_iter, elem.beq_iff_forall₂]
  exact forall₂_map_left_iff

def vector : Storage (vectorCodec codec N) where
  Stored := SszVector elem.Stored
  flat value := elem.flatVector value.val
  eq := SszVector.eq N
  Whole vector := (vector.iter N).length = N ∧ ∀ item ∈ vector.iter N, elem.Whole item
  sszBytesLen vector := elemsSszBytesLen elem.codecOf (vector.iter N)
  sszAppend vector := elemsSszAppend elem.codecOf (vector.iter N)
  encoded hEq := elem.encoded_elems ((elem.eq_flatVector_iff N).mp hEq)
  whole_iff := by
    intro vector
    rw [elem.whole_elems_iff]
    constructor
    · rintro ⟨hLen, values, hAll⟩
      exact ⟨⟨values, hAll.length_eq.trans hLen⟩, (elem.eq_flatVector_iff N).mpr hAll⟩
    · rintro ⟨⟨values, hLen⟩, hEq⟩
      have hAll := (elem.eq_flatVector_iff N).mp hEq
      exact ⟨hAll.length_eq.symm.trans hLen, values, hAll⟩

end

----
-- Containers
----

def container {Values : Type} {codec : FieldsCodec Values} (fields : FieldsStorage codec) :
    Storage (containerCodec codec) where
  Stored := fields.Stored
  flat := fields.flat
  eq := fields.eq
  Whole := fields.Whole
  sszBytesLen stored := bytesLenOf (fields.parts stored)
  sszAppend stored := deriveAppend (fields.parts stored)
  encoded hEq := ⟨congrArg _ (fields.encoded hEq), congrArg _ (fields.encoded hEq)⟩
  whole_iff := fields.whole_iff

end Storage

namespace FieldsStorage

def nil : FieldsStorage .nil where
  Stored := Unit
  flat := id
  eq _ _ := true
  Whole _ := True
  parts _ := []
  encoded _ := rfl
  whole_iff := iff_of_true trivial ⟨(), rfl⟩

def cons {Value Values : Type} {codec : Codec Value} {codecs : FieldsCodec Values}
    (field : Storage codec) (rest : FieldsStorage codecs) :
    FieldsStorage (.cons codec codecs) where
  Stored := field.Stored × rest.Stored
  flat values := (field.flat values.1, rest.flat values.2)
  eq stored other := field.eq stored.1 other.1 && rest.eq stored.2 other.2
  Whole stored := field.Whole stored.1 ∧ rest.Whole stored.2
  parts stored := field.codecOf.part stored.1 :: rest.parts stored.2
  encoded hEq := by
    rcases Bool.and_eq_true_iff.mp hEq with ⟨hField, hRest⟩
    rcases field.encoded hField with ⟨hLen, hBytes⟩
    simp [FieldsCodec.cons, Codec.part, Codec.kind, Storage.codecOf, hLen, hBytes,
      rest.encoded hRest]
  whole_iff := by
    intro stored
    simp only [Bool.and_eq_true, field.whole_iff, rest.whole_iff, Prod.exists, exists_and_left,
      exists_and_right]

end FieldsStorage

mutual

def SszType.storage : (type : SszType) → Storage type.codec
| .bool => .plain boolCodec
| .uint width => .plain (uintCodec width)
| .fixedBytes M => .plain (fixedBytesCodec M)
| .bitvector N => .plain (bitvectorCodec N)
| .bitlist N => .plain (bitlistCodec N)
| .vector elem N => elem.storage.vector N
| .list elem N => elem.storage.list N
| .container fields => .container fields.storage

def SszFields.storage : (fields : SszFields) → FieldsStorage fields.codec
| .nil => .nil
| .cons field rest => .cons field.storage rest.storage

end

----
-- Values That Are Read Back
----

/- What is decoded from the bytes of a value equals it, and their number is known in advance. -/
def Storage.ReadsBack {Value : Type} {codec : Codec Value} (storage : Storage codec)
    (stored : storage.Stored) : Prop :=
  let bytes := storage.codecOf.asSszBytes stored
  (∃ read, storage.codecOf.fromSszBytes bytes = .ok read ∧ storage.eq read stored) ∧
    storage.codecOf.sszBytesLen stored = bytes.length

section

variable {Value : Type} {codec : Codec Value} {storage : Storage codec} {stored : storage.Stored}

theorem Storage.ReadsBack.whole (hReads : storage.ReadsBack stored) : storage.Whole stored := by
  rcases hReads with ⟨⟨read, hOk, hEq⟩, -⟩
  rcases Outcome.map_ok_iff.mp hOk with ⟨value, -, rfl⟩
  exact storage.whole_iff.mpr ⟨value, hEq⟩

theorem Storage.readsBack_of_whole (hLawful : codec.Lawful) (hRound : codec.RoundTrips)
    (hSmall : (storage.codecOf.asSszBytes stored).length < 2 ^ 32) (hWhole : storage.Whole stored) :
    storage.ReadsBack stored := by
  rcases storage.whole_iff.mp hWhole with ⟨value, hEq⟩
  rcases storage.encoded hEq with ⟨hLen, hBytes⟩
  have hSame : storage.codecOf.asSszBytes stored = codec.asSszBytes value := hBytes
  rw [hSame] at hSmall
  refine ⟨⟨storage.flat value, ?_, hEq⟩, ?_⟩
  · rw [hSame]
    exact congrArg (Except.map storage.flat) (hRound value hSmall)
  · rw [hSame]
    exact hLen.trans (hLawful.length value).symm

end

/-
  A value is read back exactly if it is whole. So is what a program makes of whole elements, if
  elements fill a chunk and the depth of a tree is computed without an overflow.
-/
theorem SszType.read_back_iff (type : SszType) :
    (∀ stored : type.storage.Stored, type.WellFormed →
      (type.storage.codecOf.asSszBytes stored).length < 2 ^ 32 →
        (type.storage.ReadsBack stored ↔ type.storage.Whole stored)) ∧
    ∀ (hash : HashConcat) (elem : ElementType type.storage.Stored) (N : Nat)
      (actions : List (SequenceAction type.storage.Stored)), elem.Admissible → elem.Fits N →
        (∀ list ∈ (listSequence hash elem N).after actions,
          (∀ item ∈ list.iter N, type.storage.Whole item) →
            (SszType.list type N).storage.Whole list) ∧
        ∀ vector ∈ (vectorSequence hash elem N).after actions,
          (∀ item ∈ vector.iter N, type.storage.Whole item) →
            (SszType.vector type N).storage.Whole vector := by
  constructor
  · intro stored hType hSmall
    exact ⟨Storage.ReadsBack.whole,
      Storage.readsBack_of_whole type.lawful_codec (type.roundTrips_codec hType) hSmall⟩
  · intro hash elem N acts hElem hFits
    constructor
    · intro list hIn hItems
      rcases (simulates_listSequence hElem hFits).exists_holds hIn with ⟨es, hHolds⟩
      exact ⟨by rw [hHolds.iter hElem, hHolds.len], hHolds.len ▸ hHolds.room, hItems⟩
    · intro vector hIn hItems
      rcases (simulates_vectorSequence hElem hFits).exists_holds hIn with ⟨es, hHolds⟩
      exact ⟨by rw [hHolds.iter hElem, hHolds.length], hItems⟩

/- A container with a list of flags. -/
def flagsField : SszType :=
  .container (.cons (.list .bool 2) .nil)

theorem read_back_iff_flagsField : ∃ stored,
    SszList.fromVecTree 2 boolElement [true, false] = .ok stored ∧
      flagsField.storage.ReadsBack (stored, ()) := by
  refine ⟨_, rfl, ((SszType.read_back_iff flagsField).1 _
    ⟨⟨trivial, fun hZero => nomatch hZero.2⟩, trivial⟩ (by decide +kernel)).mpr ⟨?_, trivial⟩⟩
  exact ((SszType.read_back_iff .bool).2 (fun left _ => left) boolElement 2
    [.fromVecTree [true, false]] admissible_boolElement
    (by unfold ElementType.Fits; decide)).1 _ (mem_singleton.mpr rfl) fun _ _ => trivial

/- Three elements of ten bytes are in a chunk, but the depth is computed for the bytes. -/
theorem short_tree_not_read_back : ∃ stored,
    SszList.fromVecTree 102 (fixedBytesElement (fun left _ => left) 10)
        (replicate 102 ⟨replicate 10 0, rfl⟩) = .ok stored ∧
      ¬(SszType.list (.fixedBytes 10) 102).storage.ReadsBack stored := by
  refine ⟨_, rfl, fun hReads => absurd hReads.whole.1 ?_⟩
  decide +kernel

end Pharos.Ssz
