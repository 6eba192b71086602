import Pharos.Ssz.Layout

/-
  This file follows the decoder through the fields of a container: what is registered, when the
  offsets are accepted, and what each field is decoded from.
-/

----
-- Registering
----

namespace Pharos.Ssz

open Bytes Outcome List

def FieldKind.Lawful (kind : FieldKind) : Prop :=
  kind.isFixedSize = false → kind.sszFixedLen = bytesPerLengthOffset

def SszDecoder.registered (decoder : SszDecoder) (kinds : List FieldKind) : SszDecoder :=
  { decoder with
    slots := decoder.slots ++ slotsFrom decoder.bytes decoder.fixedCursor kinds
    fixedCursor := decoder.fixedCursor + fixedLenOf kinds }

theorem registered_cons (dec : SszDecoder) (kind : FieldKind) (xs : List FieldKind) :
    (dec.registered [kind]).registered xs = dec.registered (kind :: xs) := by
  simp [SszDecoder.registered, slotsFrom, fixedLenOf, add_assoc]

theorem register_ok_iff {kind : FieldKind} (hKind : kind.Lawful) {dec after : SszDecoder} :
    dec.register kind = .ok after ↔
      dec.fixedCursor + kind.sszFixedLen ≤ dec.bytes.length ∧ dec.registered [kind] = after := by
  unfold SszDecoder.register SszDecoder.registerType SszDecoder.registerAnonymousVariableLengthItem
  cases hFix : kind.isFixedSize with
  | true =>
    simp only [if_true, ite_error_ok_iff, not_lt, Except.ok.injEq]
    simp [SszDecoder.registered, slotsFrom, fixedLenOf, hFix]
  | false =>
    rw [if_neg Bool.false_ne_true, ite_error_ok_iff, not_lt, Except.ok.injEq, hKind hFix]
    simp [SszDecoder.registered, slotsFrom, fixedLenOf, hFix, hKind hFix]

theorem registerAll_ok_iff {kinds : List FieldKind} (hKinds : ∀ kind ∈ kinds, kind.Lawful)
    {dec after : SszDecoder} (hCursor : dec.fixedCursor ≤ dec.bytes.length) :
    kinds.foldlM SszDecoder.register dec = .ok after ↔
      dec.fixedCursor + fixedLenOf kinds ≤ dec.bytes.length ∧ dec.registered kinds = after := by
  induction kinds generalizing dec with
  | nil => simp [SszDecoder.registered, slotsFrom, fixedLenOf, pure, Except.pure, hCursor]
  | cons kind xs ih =>
    rw [forall_mem_cons] at hKinds
    rw [foldlM_cons, bind_ok_iff]
    have hSum : fixedLenOf (kind :: xs) = kind.sszFixedLen + fixedLenOf xs := rfl
    have hOne : fixedLenOf [kind] = kind.sszFixedLen := by
      simp [fixedLenOf]
    constructor
    · rintro ⟨next, hNext, hPost⟩
      rcases (register_ok_iff hKinds.1).mp hNext with ⟨hFits, rfl⟩
      rcases (ih hKinds.2 (by
          simpa [SszDecoder.registered, hOne] using hFits)).mp hPost with ⟨hAll, rfl⟩
      rw [registered_cons]
      refine ⟨?_, rfl⟩
      simp only [SszDecoder.registered, hOne] at hAll
      omega
    · rintro ⟨hAll, rfl⟩
      refine ⟨dec.registered [kind], (register_ok_iff hKinds.1).mpr ⟨by omega, rfl⟩, ?_⟩
      have hFits : (dec.registered [kind]).fixedCursor + fixedLenOf xs ≤
          (dec.registered [kind]).bytes.length := by
        simp only [SszDecoder.registered, hOne]
        omega
      exact (ih hKinds.2 (Nat.le_of_add_right_le hFits)).mpr ⟨hFits, registered_cons dec kind xs⟩

----
-- Resolving
----

@[simp]
theorem offsetsOf_assignEnds (total : Nat) (slots : List FieldSlot) :
    offsetsOf (assignEnds total slots) = offsetsOf slots := by
  induction slots with
  | nil => rfl
  | cons slot xs ih =>
    cases slot with
    | fixedSize s₀ len | variableSize off stop => simpa [assignEnds, offsetsOf] using ih

@[simp]
theorem assignEnds_assignEnds (total : Nat) (slots : List FieldSlot) :
    assignEnds total (assignEnds total slots) = assignEnds total slots := by
  induction slots with
  | nil => rfl
  | cons slot xs ih =>
    cases slot with
    | fixedSize s₀ len | variableSize off stop => simp [assignEnds, ih]

theorem assignEnds_of_offsetsOf_eq_nil {total : Nat} {slots : List FieldSlot}
    (hNone : offsetsOf slots = []) : assignEnds total slots = slots := by
  induction slots with
  | nil => rfl
  | cons slot xs ih =>
    cases slot with
    | fixedSize s₀ len => rw [assignEnds, ih (by simpa [offsetsOf] using hNone)]
    | variableSize off stop => simp [offsetsOf] at hNone

theorem checkOffsets_some_ok_iff {fixedLen total previous : Nat}
    (hPrev : fixedLen ≤ previous) (hTotal : previous ≤ total) (offs : List Nat) :
    checkOffsets fixedLen total (some previous) offs = .ok () ↔
      Ascending (previous :: offs) total := by
  induction offs generalizing previous with
  | nil => simp [checkOffsets, Ascending, hTotal]
  | cons off xs ih =>
    rw [ascending_cons_iff, checkOffsets]
    simp only [reduceCtorEq, false_and, if_false, ite_error_ok_iff, not_lt,
      Option.getD_some, head?_cons]
    constructor
    · rintro ⟨hFix, hTotal, hOrder, hxs⟩
      exact ⟨hOrder, (ih hFix hTotal).mp hxs⟩
    · rintro ⟨hOrder, hxs⟩
      have hFits : off ≤ total := head_le_of_ascending hxs
      have hFix := hPrev.trans hOrder
      exact ⟨hFix, hFits, hOrder, (ih hFix hFits).mpr hxs⟩

theorem checkOffsets_none_ok_iff {fixedLen total off : Nat} (xs : List Nat) :
    checkOffsets fixedLen total none (off :: xs) = .ok () ↔
      off = fixedLen ∧ Ascending (off :: xs) total := by
  rw [checkOffsets]
  simp only [true_and, ite_error_ok_iff, not_lt, Option.getD_none, le_refl, not_not]
  constructor
  · rintro ⟨rfl, -, hTotal, hxs⟩
    exact ⟨rfl, (checkOffsets_some_ok_iff le_rfl hTotal xs).mp hxs⟩
  · rintro ⟨rfl, hAsc⟩
    have hTotal : off ≤ total := head_le_of_ascending hAsc
    exact ⟨rfl, le_rfl, hTotal, (checkOffsets_some_ok_iff le_rfl hTotal xs).mpr hAsc⟩

namespace SszDecoder

variable (decoder : SszDecoder)

def resolved : SszDecoder :=
  { decoder with
    fixedRegionLen := decoder.fixedCursor
    slots := assignEnds decoder.bytes.length decoder.slots }

/- The first offset is where the fields in place end. -/
def OffsetsFit : Prop :=
  (offsetsOf decoder.slots).head?.getD decoder.bytes.length = decoder.fixedCursor ∧
    Ascending (offsetsOf decoder.slots) decoder.bytes.length

def Resolved : Prop :=
  decoder.maybeResolveOffsets = .ok decoder

end SszDecoder

theorem maybeResolveOffsets_ok_iff {dec after : SszDecoder}
    (hNew : dec.fixedRegionLen = 0) :
    dec.maybeResolveOffsets = .ok after ↔ dec.OffsetsFit ∧ dec.resolved = after := by
  unfold SszDecoder.maybeResolveOffsets SszDecoder.OffsetsFit SszDecoder.resolved
  rw [if_neg (not_not.mpr hNew)]
  cases hOffsets : offsetsOf dec.slots with
  | nil =>
    rw [if_pos rfl, ite_error_ok_iff, not_not,
      Except.ok.injEq, assignEnds_of_offsetsOf_eq_nil hOffsets]
    simp [Ascending, eq_comm]
  | cons off xs =>
    rw [if_neg (cons_ne_nil off xs), bind_ok_iff, head?_cons, Option.getD_some,
      ← checkOffsets_none_ok_iff, Except.ok.injEq]
    constructor
    · rintro ⟨⟨⟩, hCheck, rfl⟩
      exact ⟨hCheck, rfl⟩
    · rintro ⟨hCheck, rfl⟩
      exact ⟨(), hCheck, rfl⟩

theorem resolved_of_maybeResolveOffsets {dec after : SszDecoder}
    (hOk : dec.maybeResolveOffsets = .ok after) : after.Resolved := by
  by_cases hNew : dec.fixedRegionLen = 0
  · rcases (maybeResolveOffsets_ok_iff hNew).mp hOk with ⟨hFit, rfl⟩
    by_cases hStill : dec.resolved.fixedRegionLen = 0
    · refine (maybeResolveOffsets_ok_iff hStill).mpr ⟨?_, ?_⟩
      · simpa [SszDecoder.OffsetsFit, SszDecoder.resolved] using hFit
      · simp [SszDecoder.resolved]
    · exact if_pos hStill
  · have hEq : dec.maybeResolveOffsets = .ok dec := if_pos hNew
    rw [hEq, Except.ok.injEq] at hOk
    rw [← hOk]
    exact hEq

----
-- Decoding
----

namespace SszDecoder

variable (decoder : SszDecoder)

def remaining : List (List UInt8) :=
  (decoder.slots.map (FieldSlot.slice decoder.bytes)).drop decoder.decodeIndex

def skip (count : Nat) : SszDecoder :=
  { decoder with decodeIndex := decoder.decodeIndex + count }

theorem maybeResolveOffsets_skip (dec : SszDecoder) (n : Nat) :
    (dec.skip n).maybeResolveOffsets = dec.maybeResolveOffsets.map (skip · n) := by
  unfold maybeResolveOffsets
  by_cases hNew : dec.fixedRegionLen = 0
  · by_cases hNone : offsetsOf dec.slots = []
    · by_cases hLen : dec.fixedCursor = dec.bytes.length
      · simp [skip, hNew, hNone, hLen, Except.map]
      · simp [skip, hNew, hNone, hLen, Except.map]
    · cases hCheck : checkOffsets dec.fixedCursor dec.bytes.length none (offsetsOf dec.slots) with
      | error error | ok done => simp [skip, hNew, hNone, hCheck, Except.map, bind, Except.bind]
  · simp [skip, hNew, Except.map]

theorem Resolved.skip {dec : SszDecoder} (hResolved : dec.Resolved) (n : Nat) :
    (dec.skip n).Resolved := by
  unfold Resolved at *
  rw [maybeResolveOffsets_skip, hResolved]
  rfl

theorem remaining_skip (dec : SszDecoder) (n : Nat) :
    (dec.skip n).remaining = dec.remaining.drop n := by
  simp [remaining, skip, drop_drop]

theorem finish_ok_iff {dec : SszDecoder} : dec.finish = .ok () ↔ dec.remaining = [] := by
  unfold finish remaining
  rw [drop_eq_nil_iff, length_map]
  rw [ite_error_ok_iff, and_iff_left rfl]
  omega

end SszDecoder

theorem decodeNext_ok_iff {Value : Type} {c : Codec Value} {dec after : SszDecoder}
    (hResolved : dec.Resolved) {v : Value} :
    dec.decodeNext c = .ok (v, after) ↔ ∃ bytes xs,
      dec.remaining = bytes :: xs ∧ c.fromSszBytes bytes = .ok v ∧
      dec.skip 1 = after := by
  unfold SszDecoder.decodeNext SszDecoder.remaining
  rw [hResolved]
  simp only [bind, Except.bind]
  cases hSlot : dec.slots[dec.decodeIndex]? with
  | none =>
    have hLen := List.getElem?_eq_none_iff.mp hSlot
    rw [← map_drop, drop_eq_nil_of_le hLen]
    simp
  | some slot =>
    rcases List.getElem?_eq_some_iff.mp hSlot with ⟨hLen, hSome⟩
    rw [← map_drop, drop_eq_getElem_cons hLen, hSome]
    cases hValue : c.fromSszBytes (slot.slice dec.bytes) with
    | error error => simp [hValue]
    | ok decoded => simp [hValue, SszDecoder.skip]

theorem decodeNext_resolve {Value : Type} (c : Codec Value) (dec : SszDecoder) :
    dec.decodeNext c = (dec.maybeResolveOffsets >>= SszDecoder.decodeNext c) := by
  cases hOk : dec.maybeResolveOffsets with
  | error error =>
    rw [SszDecoder.decodeNext, hOk]
    rfl
  | ok after =>
    have hAgain : after.maybeResolveOffsets = .ok after := resolved_of_maybeResolveOffsets hOk
    rw [SszDecoder.decodeNext, hOk]
    simp only [bind, Except.bind]
    rw [SszDecoder.decodeNext, hAgain]
    rfl

----
-- Fields
----

namespace FieldsCodec

variable {Value Values : Type}

/- The fields are decoded one after the other, from slices that are their own bytes. -/
structure Lawful (fields : FieldsCodec Values) : Prop where
  kinds : ∀ values, (fields.parts values).map Part.kind = fields.kinds
  slots : ∀ kind ∈ fields.kinds, kind.Lawful
  parts : ∀ values, ∀ part ∈ fields.parts values, part.Lawful
  resolves : fields.kinds ≠ [] →
    ∀ decoder, fields.decodeAll decoder = (decoder.maybeResolveOffsets >>= fields.decodeAll)
  canonical : ∀ {decoder values after}, decoder.Resolved →
    fields.decodeAll decoder = .ok (values, after) →
      (∃ rest, decoder.remaining = (fields.parts values).map Part.bytes ++ rest) ∧
      decoder.skip fields.kinds.length = after

/- Slices that are short enough are read back. -/
def RoundTrips (fields : FieldsCodec Values) : Prop :=
  ∀ {decoder values rest}, decoder.Resolved →
    decoder.remaining = (fields.parts values).map Part.bytes ++ rest →
    (∀ part ∈ fields.parts values, part.bytes.length < 2 ^ 32) →
    fields.decodeAll decoder = .ok (values, decoder.skip fields.kinds.length)

theorem lawful_nil : FieldsCodec.nil.Lawful where
  kinds _ := rfl
  slots := by simp [nil]
  parts := by simp [nil]
  resolves hKinds := absurd rfl hKinds
  canonical := by
    intro dec values after _ hOk
    simp only [nil, Except.ok.injEq, Prod.mk.injEq] at hOk
    exact ⟨⟨dec.remaining, rfl⟩, hOk.2⟩

theorem roundTrips_nil : FieldsCodec.nil.RoundTrips := by
  intro dec values xs _ _ _
  rfl

variable {field : Codec Value} {xs : FieldsCodec Values}

theorem cons_decodeAll_ok_iff {dec after : SszDecoder} (hResolved : dec.Resolved)
    {v : Value} {values : Values} :
    (cons field xs).decodeAll dec = .ok ((v, values), after) ↔ ∃ bytes others,
      dec.remaining = bytes :: others ∧ field.fromSszBytes bytes = .ok v ∧
      xs.decodeAll (dec.skip 1) = .ok (values, after) := by
  simp only [cons, bind_ok_iff, Except.ok.injEq, Prod.mk.injEq, Prod.exists]
  constructor
  · rintro ⟨a, next, hFst, others, last, hxs, ⟨rfl, rfl⟩, rfl⟩
    rcases (decodeNext_ok_iff hResolved).mp hFst with ⟨bytes, slices, hRemaining, hValue, rfl⟩
    exact ⟨bytes, slices, hRemaining, hValue, hxs⟩
  · rintro ⟨bytes, slices, hRemaining, hValue, hxs⟩
    exact ⟨v, dec.skip 1, (decodeNext_ok_iff hResolved).mpr ⟨bytes, slices, hRemaining,
      hValue, rfl⟩, values, after, hxs, ⟨rfl, rfl⟩, rfl⟩

theorem lawful_cons (hField : field.Lawful) (hxs : xs.Lawful) : (cons field xs).Lawful where
  kinds values := by
    simp only [cons, map_cons, hxs.kinds]
    rfl
  slots := by
    simp only [cons, forall_mem_cons]
    exact ⟨hField.slot, hxs.slots⟩
  parts values := by
    simp only [cons, forall_mem_cons]
    exact ⟨hField.part values.1, hxs.parts values.2⟩
  resolves _ dec := by
    simp only [cons]
    rw [decodeNext_resolve, bind_assoc]
  canonical := by
    rintro dec ⟨v, values⟩ after hResolved hOk
    rcases (cons_decodeAll_ok_iff hResolved).mp hOk with
      ⟨bytes, slices, hRemaining, hValue, hOthers⟩
    rcases hxs.canonical (hResolved.skip 1) hOthers with ⟨⟨others, hSlices⟩, hPost⟩
    rw [SszDecoder.remaining_skip, hRemaining, drop_one, tail_cons] at hSlices
    constructor
    · refine ⟨others, ?_⟩
      rw [hRemaining, hSlices]
      simp [cons, Codec.part, hField.canonical hValue]
    · rw [← hPost]
      simp [SszDecoder.skip, cons, add_comm, add_left_comm]

theorem roundTrips_cons (hField : field.RoundTrips) (hxs : xs.RoundTrips) :
    (cons field xs).RoundTrips := by
  rintro dec ⟨v, values⟩ others hResolved hRemaining hSmall
  simp only [cons, forall_mem_cons] at hSmall
  apply (cons_decodeAll_ok_iff hResolved).mpr
  refine ⟨_, _, hRemaining, hField v hSmall.1, ?_⟩
  have hOthers : (dec.skip 1).remaining = (xs.parts values).map Part.bytes ++ others := by
    rw [SszDecoder.remaining_skip, hRemaining]
    rfl
  rw [hxs (hResolved.skip 1) hOthers hSmall.2]
  simp [SszDecoder.skip, cons, add_comm, add_left_comm]

end FieldsCodec

----
-- Containers
----

variable {Values : Type} {fields : FieldsCodec Values} {bytes : List UInt8}

def fieldsOf (bytes : List UInt8) (kinds : List FieldKind) : SszDecoder :=
  ((SszDecoder.new bytes).registered kinds).resolved

theorem remaining_fieldsOf (bytes : List UInt8) (kinds : List FieldKind) :
    (fieldsOf bytes kinds).remaining = slicesFrom bytes 0 kinds := by
  simp [fieldsOf, SszDecoder.remaining, SszDecoder.resolved,
    SszDecoder.registered, SszDecoder.new, slicesFrom]

theorem offsetsFit_iff (kinds : List FieldKind) :
    ((SszDecoder.new bytes).registered kinds).OffsetsFit ↔
      (offsetsFrom bytes 0 kinds).head?.getD bytes.length = fixedLenOf kinds ∧
        Ascending (offsetsFrom bytes 0 kinds) bytes.length := by
  simp [SszDecoder.OffsetsFit, SszDecoder.registered, SszDecoder.new, offsetsFrom]

theorem resolved_fieldsOf {kinds : List FieldKind} (hFits : Fits bytes kinds) :
    (fieldsOf bytes kinds).Resolved := by
  have hOffsets := (offsetsFit_iff kinds).mpr ⟨hFits.first, hFits.ascending⟩
  exact resolved_of_maybeResolveOffsets ((maybeResolveOffsets_ok_iff rfl).mpr ⟨hOffsets, rfl⟩)

theorem deriveFromSszBytes_ok_iff (hFields : fields.Lawful) (hSome : fields.kinds ≠ [])
    {values : Values} :
    deriveFromSszBytes fields bytes = .ok values ↔ Fits bytes fields.kinds ∧ ∃ after,
      fields.decodeAll (fieldsOf bytes fields.kinds) = .ok (values, after) ∧
      after.finish = .ok () := by
  have hRegister :
      ∀ dec, fields.kinds.foldlM SszDecoder.register (SszDecoder.new bytes) = .ok dec ↔
        fixedLenOf fields.kinds ≤ bytes.length ∧ (SszDecoder.new bytes).registered fields.kinds =
        dec := by
    intro dec
    rw [registerAll_ok_iff hFields.slots (Nat.zero_le _)]
    simp [SszDecoder.new]
  unfold deriveFromSszBytes
  rw [if_neg hSome]
  simp only [bind_ok_iff, hRegister, Prod.exists, Except.ok.injEq]
  constructor
  · rintro ⟨_, ⟨hLen, rfl⟩, decoded, after, hDec, ⟨⟩, hFinish, rfl⟩
    rw [hFields.resolves hSome, bind_ok_iff] at hDec
    rcases hDec with ⟨ready, hReady, hAll⟩
    rcases (maybeResolveOffsets_ok_iff rfl).mp hReady with ⟨hOffsets, rfl⟩
    rw [offsetsFit_iff] at hOffsets
    exact ⟨⟨hLen, hOffsets.1, hOffsets.2⟩, after, hAll, hFinish⟩
  · rintro ⟨hFits, after, hAll, hFinish⟩
    have hOffsets := (offsetsFit_iff fields.kinds).mpr ⟨hFits.first, hFits.ascending⟩
    refine ⟨_, ⟨hFits.length, rfl⟩, values, after, ?_, (), hFinish, rfl⟩
    rw [hFields.resolves hSome, (maybeResolveOffsets_ok_iff rfl).mpr ⟨hOffsets, rfl⟩]
    exact hAll

theorem deriveFromSszBytes_nil_ok_iff (hNone : fields.kinds = []) {values : Values} :
    deriveFromSszBytes fields bytes = .ok values ↔
      bytes = [] ∧ ∃ after, fields.decodeAll (.new bytes) = .ok (values, after) := by
  unfold deriveFromSszBytes
  rw [if_pos hNone, ite_error_ok_iff, not_not, map_ok_iff, Prod.exists]
  simp

theorem sszAppend_of_kinds_eq_nil (hFields : fields.Lawful) (hNone : fields.kinds = [])
    (values : Values) :
    fields.parts values = [] ∧ (containerCodec fields).sszAppend values = [] := by
  have hParts : fields.parts values = [] := by
    rw [← map_eq_nil_iff, hFields.kinds, hNone]
  refine ⟨hParts, ?_⟩
  simp [containerCodec, hParts, deriveAppend, fixedPass, variablePass]

theorem lawful_containerCodec (hFields : fields.Lawful) : (containerCodec fields).Lawful where
  slot hVar := by
    simp only [containerCodec] at hVar ⊢
    rw [hVar, if_neg Bool.false_ne_true]
  length values := length_deriveAppend (hFields.parts values)
  fixed hFix values := by
    simp only [containerCodec] at hFix ⊢
    rw [if_pos hFix, ← hFields.kinds values]
    rw [← hFields.kinds values, all_map, all_eq_true] at hFix
    rw [bytesLenOf, fixedLenOf, map_map]
    congr 1
    apply map_congr_left
    intro part hPart
    exact if_pos (hFix part hPart)
  canonical := by
    intro bytes values hOk
    by_cases hNone : fields.kinds = []
    · rcases (deriveFromSszBytes_nil_ok_iff hNone).mp hOk with ⟨rfl, -⟩
      exact (sszAppend_of_kinds_eq_nil hFields hNone values).2
    · rcases (deriveFromSszBytes_ok_iff hFields hNone).mp hOk with ⟨hFits, after, hAll, -⟩
      rcases hFields.canonical (resolved_fieldsOf hFits) hAll with ⟨⟨xs, hSlices⟩, -⟩
      rw [remaining_fieldsOf] at hSlices
      rw [← hFields.kinds values] at hFits hSlices
      apply deriveAppend_of_slices (hFields.parts values) hFits
      have hxs : xs = [] := by
        have hCount := congrArg List.length hSlices
        rw [length_slicesFrom] at hCount
        simpa using hCount
      rw [hSlices, hxs, append_nil]

theorem roundTrips_containerCodec (hFields : fields.Lawful) (hRoundTrips : fields.RoundTrips) :
    (containerCodec fields).RoundTrips := by
  intro values hSmall
  by_cases hNone : fields.kinds = []
  · rcases sszAppend_of_kinds_eq_nil hFields hNone values with ⟨hParts, hEmpty⟩
    have hReady : (SszDecoder.new []).Resolved := rfl
    have hRemaining :
        (SszDecoder.new []).remaining = (fields.parts values).map Part.bytes ++ [] := by
      rw [hParts]
      rfl
    have hAll := hRoundTrips hReady hRemaining (by simp [hParts])
    rw [hEmpty]
    exact (deriveFromSszBytes_nil_ok_iff hNone).mpr ⟨rfl, _, hAll⟩
  · rcases slices_deriveAppend (hFields.parts values) hSmall with ⟨hFits, hSlices⟩
    rw [hFields.kinds values] at hFits hSlices
    have hEach : ∀ part ∈ fields.parts values, part.bytes.length < 2 ^ 32 := by
      intro part hPart
      have hPiece := mem_map_of_mem (f := Part.bytes) hPart
      rw [← hSlices] at hPiece
      exact (length_le_of_mem_slicesFrom hPiece).trans_lt hSmall
    have hRemaining : (fieldsOf (deriveAppend (fields.parts values)) fields.kinds).remaining =
        (fields.parts values).map Part.bytes ++ [] := by
      rw [remaining_fieldsOf, hSlices, append_nil]
    have hAll := hRoundTrips (resolved_fieldsOf hFits) hRemaining hEach
    refine (deriveFromSszBytes_ok_iff hFields hNone).mpr ⟨hFits, _, hAll, ?_⟩
    rw [SszDecoder.finish_ok_iff, SszDecoder.remaining_skip, remaining_fieldsOf,
      drop_eq_nil_iff, length_slicesFrom]

end Pharos.Ssz
