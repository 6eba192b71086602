import Pharos.Lib.Outcome
import Pharos.Slashing.Safety

/-
  This file models the import of an interchange file (format version 5) into the slashing-protection
  database. Numbers are decimal strings in the file and are parsed as they are reached; one number
  that does not parse undoes all of it. The keys are stored as the file spells them.
-/

----
-- Decimal Numbers
----

namespace Pharos.Slashing

open List KeyedTable

/- Why a string is not a number. -/
inductive IntErrorKind where
  | empty
  | invalidDigit
  | posOverflow
deriving DecidableEq

def toDigit (digit : Char) : Option Nat :=
  if '0' ≤ digit ∧ digit ≤ '9' then some (digit.toNat - '0'.toNat) else none

def parseDigits : Nat → List Char → Except IntErrorKind Nat
| value, [] => .ok value
| value, digit :: rest =>
  match toDigit digit with
  | none => .error .invalidDigit
  | some number =>
    if 2 ^ 64 ≤ value * 10 + number then
      .error .posOverflow
    else
      parseDigits (value * 10 + number) rest

/- Rust's `str::parse::<u64>`: a plus sign may stand first. -/
def parseU64 (src : String) : Except IntErrorKind UInt64 :=
  match src.toList with
  | [] => .error .empty
  | ['+'] => .error .invalidDigit
  | '+' :: digits => (parseDigits 0 digits).map UInt64.ofNat
  | digits => (parseDigits 0 digits).map UInt64.ofNat

example : parseU64 "+0100" = .ok 100 := by
  decide

----
-- Interchange Files
----

structure InterchangeMetadata where
  interchangeFormatVersion : String
  genesisValidatorsRoot : String

structure InterchangeBlock where
  slot : String
  signingRoot : Option String

structure InterchangeAttestation where
  sourceEpoch : String
  targetEpoch : String
  signingRoot : Option String

structure InterchangeEntry where
  pubkey : String
  signedBlocks : List InterchangeBlock
  signedAttestations : List InterchangeAttestation

structure InterchangeFile where
  metadata : InterchangeMetadata
  data : List InterchangeEntry

inductive InterchangeError where
  | unsupportedVersion (version : String)
  | genesisRootMismatch (file expected : String)
  | invalidInteger (field : String) (source : IntErrorKind)
deriving DecidableEq

def parseField (field value : String) : Except InterchangeError UInt64 :=
  (parseU64 value).mapError (.invalidInteger field)

section

variable (db : SqliteSlashingProtection)

def insertOrIgnoreRecord : Message → SqliteSlashingProtection
| .blockProposal pubkey slot signingRoot =>
  { db with signedBlock := db.signedBlock.insertOrIgnore ⟨pubkey, slot.toInt64, signingRoot⟩ }
| .attestation pubkey source target signingRoot =>
  { db with
    signedAttestation :=
      db.signedAttestation.insertOrIgnore ⟨pubkey, source.toInt64, target.toInt64, signingRoot⟩ }

def InterchangeBlock.record (pubkey : String) (block : InterchangeBlock) :
    Except InterchangeError Message := do
  let slot ← parseField "slot" block.slot
  return .blockProposal pubkey slot block.signingRoot

def InterchangeAttestation.record (pubkey : String) (att : InterchangeAttestation) :
    Except InterchangeError Message := do
  let source ← parseField "source_epoch" att.sourceEpoch
  let target ← parseField "target_epoch" att.targetEpoch
  return .attestation pubkey source target att.signingRoot

def importEntry (entry : InterchangeEntry) : Except InterchangeError SqliteSlashingProtection := do
  let db ← entry.signedBlocks.foldlM
    (fun db block => do
      let record ← block.record entry.pubkey
      return insertOrIgnoreRecord db record) db
  entry.signedAttestations.foldlM
    (fun db att => do
      let record ← att.record entry.pubkey
      return insertOrIgnoreRecord db record) db

/- Import a file. An error leaves the database as it was: all insertions are in one transaction. -/
def importInterchange (interchange : InterchangeFile)
    (expectedGenesisValidatorsRoot : String) : Except InterchangeError SqliteSlashingProtection :=
  let version := interchange.metadata.interchangeFormatVersion
  let root := interchange.metadata.genesisValidatorsRoot
  if version ≠ "5" then
    .error (.unsupportedVersion version)
  else if root ≠ expectedGenesisValidatorsRoot then
    .error (.genesisRootMismatch root expectedGenesisValidatorsRoot)
  else
    interchange.data.foldlM importEntry db

end

----
-- Records
----

def InterchangeEntry.records (entry : InterchangeEntry) : List Message :=
  (entry.signedBlocks.filterMap fun block =>
      (block.record entry.pubkey).toOption) ++
    (entry.signedAttestations.filterMap fun att =>
      (att.record entry.pubkey).toOption)

def InterchangeFile.records (file : InterchangeFile) : List Message :=
  file.data.flatMap InterchangeEntry.records

theorem foldlM_record_ok_iff {Item : Type} {record : Item → Except InterchangeError Message}
    {ys : List Item} {db s' : SqliteSlashingProtection} :
    ys.foldlM
        (fun db item => do
          let msg ← record item
          return insertOrIgnoreRecord db msg) db =
        .ok s' ↔
      (∀ item ∈ ys, (record item).isOk) ∧
        s' = (ys.filterMap fun item => (record item).toOption).foldl insertOrIgnoreRecord db := by
  induction ys generalizing db with
  | nil =>
    exact ⟨fun hOk => ⟨by simp, (Except.ok.inj hOk).symm⟩, fun hAll => congrArg _ hAll.2.symm⟩
  | cons item xs ih =>
    rw [foldlM_cons, bind_assoc]
    cases hRec : record item with
    | error e => simp [hRec, bind, Except.bind, Except.isOk, Except.toBool]
    | ok msg =>
      refine ih.trans ?_
      simp [hRec, Except.toOption, Except.isOk, Except.toBool]

/- All its numbers are numbers. -/
def InterchangeEntry.Parses (entry : InterchangeEntry) : Prop :=
  (∀ block ∈ entry.signedBlocks, (block.record entry.pubkey).isOk) ∧
    ∀ att ∈ entry.signedAttestations, (att.record entry.pubkey).isOk

theorem importEntry_ok_iff {en : InterchangeEntry} {db s' : SqliteSlashingProtection} :
    importEntry db en = .ok s' ↔ en.Parses ∧ s' = en.records.foldl insertOrIgnoreRecord db := by
  unfold importEntry
  rw [Outcome.bind_ok_iff, InterchangeEntry.records, foldl_append]
  simp only [foldlM_record_ok_iff, InterchangeEntry.Parses]
  grind

variable {file : InterchangeFile}

theorem importInterchange_ok_iff {expectedRoot : String} {db s' : SqliteSlashingProtection} :
    importInterchange db file expectedRoot = .ok s' ↔
      (file.metadata.interchangeFormatVersion = "5" ∧
        file.metadata.genesisValidatorsRoot = expectedRoot ∧ ∀ entry ∈ file.data, entry.Parses) ∧
      s' = file.records.foldl insertOrIgnoreRecord db := by
  unfold importInterchange InterchangeFile.records
  simp only [Outcome.ite_error_ok_iff, not_not, and_assoc, and_congr_right_iff]
  rintro - -
  generalize file.data = entries
  induction entries generalizing db with
  | nil =>
    exact ⟨fun hOk => ⟨by simp, (Except.ok.inj hOk).symm⟩, fun hAll => congrArg _ hAll.2.symm⟩
  | cons en xs ih =>
    rw [foldlM_cons, Outcome.bind_ok_iff, flatMap_cons, foldl_append]
    simp only [importEntry_ok_iff, ih]
    grind

theorem importInterchange_ok {expectedRoot : String} {db s' : SqliteSlashingProtection}
    (hOk : importInterchange db file expectedRoot = .ok s') :
    s' = file.records.foldl insertOrIgnoreRecord db :=
  (importInterchange_ok_iff.mp hOk).2

----
-- Tables after an Import
----

namespace Message

def blockRow? : Message → Option SignedBlock
| .blockProposal pubkey slot signingRoot =>
  some ⟨pubkey, slot.toInt64, signingRoot⟩
| .attestation _ _ _ _ => none

def voteRow? : Message → Option SignedAttestation
| .blockProposal _ _ _ => none
| .attestation pubkey source target signingRoot =>
  some ⟨pubkey, source.toInt64, target.toInt64, signingRoot⟩

end Message

theorem signedBlock_foldl_insertRecord (records : List Message)
    (db : SqliteSlashingProtection) :
    (records.foldl insertOrIgnoreRecord db).signedBlock =
      (records.filterMap Message.blockRow?).foldl KeyedTable.insertOrIgnore db.signedBlock := by
  induction records generalizing db with
  | nil => rfl
  | cons record xs ih =>
    rw [foldl_cons, ih]
    cases record <;> rfl

theorem signedAttestation_foldl_insertRecord (records : List Message)
    (db : SqliteSlashingProtection) :
    (records.foldl insertOrIgnoreRecord db).signedAttestation =
      (records.filterMap Message.voteRow?).foldl
        KeyedTable.insertOrIgnore db.signedAttestation := by
  induction records generalizing db with
  | nil => rfl
  | cons record xs ih =>
    rw [foldl_cons, ih]
    cases record <;> rfl

def InterchangeFile.blockRows (file : InterchangeFile) : List SignedBlock :=
  file.records.filterMap Message.blockRow?

def InterchangeFile.voteRows (file : InterchangeFile) : List SignedAttestation :=
  file.records.filterMap Message.voteRow?

theorem mem_blockRows_iff {row : SignedBlock} :
    row ∈ file.blockRows ↔ ∃ slot : UInt64, row.slot = slot.toInt64 ∧
      .blockProposal row.pubkey slot row.signingRoot ∈ file.records := by
  rw [InterchangeFile.blockRows, mem_filterMap]
  constructor
  · rintro ⟨record, hRec, hRow⟩
    cases record with
    | blockProposal pk slot signing =>
      cases hRow
      exact ⟨slot, rfl, hRec⟩
    | attestation _ _ _ _ => exact nomatch hRow
  · rintro ⟨slot, hSlot, hRec⟩
    refine ⟨_, hRec, ?_⟩
    rw [Message.blockRow?, ← hSlot]

theorem mem_voteRows_iff {row : SignedAttestation} : row ∈ file.voteRows ↔
      ∃ src tgt : UInt64, row.sourceEpoch = src.toInt64 ∧ row.targetEpoch = tgt.toInt64 ∧
        .attestation row.pubkey src tgt row.signingRoot ∈ file.records := by
  rw [InterchangeFile.voteRows, mem_filterMap]
  constructor
  · rintro ⟨record, hRec, hRow⟩
    cases record with
    | blockProposal _ _ _ => exact nomatch hRow
    | attestation pk src tgt signing =>
      cases hRow
      exact ⟨src, tgt, rfl, rfl, hRec⟩
  · rintro ⟨src, tgt, hSrc, hTgt, hRec⟩
    refine ⟨_, hRec, ?_⟩
    rw [Message.voteRow?, ← hSrc, ← hTgt]

----
-- What an Import Keeps
----

variable {file : InterchangeFile} {expectedRoot : String} {db after : SqliteSlashingProtection}

section

variable (db : SqliteSlashingProtection)

def keptBlock (file : InterchangeFile) (key : String × Int64) : Option SignedBlock :=
  (db.signedBlock.find? key).or (file.blockRows.find? fun row => row.primaryKey = key)

def keptVote (file : InterchangeFile) (key : String × Int64) : Option SignedAttestation :=
  (db.signedAttestation.find? key).or (file.voteRows.find? fun row => row.primaryKey = key)

end

section

variable (hOk : importInterchange db file expectedRoot = .ok after)
include hOk

theorem find?_signedBlock_of_import (k : String × Int64) :
    after.signedBlock.find? k = keptBlock db file k := by
  rw [importInterchange_ok hOk, signedBlock_foldl_insertRecord, find?_foldl_insertOrIgnore]
  rfl

theorem find?_signedAttestation_of_import (k : String × Int64) :
    after.signedAttestation.find? k = keptVote db file k := by
  rw [importInterchange_ok hOk, signedAttestation_foldl_insertRecord, find?_foldl_insertOrIgnore]
  rfl

theorem mem_signedBlock_of_import {row : SignedBlock} (hRow : row ∈ db.signedBlock) :
    row ∈ after.signedBlock := by
  rw [importInterchange_ok hOk, signedBlock_foldl_insertRecord]
  exact mem_foldl_insertOrIgnore_of_mem hRow

theorem mem_signedAttestation_of_import {row : SignedAttestation}
    (hRow : row ∈ db.signedAttestation) : row ∈ after.signedAttestation := by
  rw [importInterchange_ok hOk, signedAttestation_foldl_insertRecord]
  exact mem_foldl_insertOrIgnore_of_mem hRow

theorem mem_or_mem_blockRows_of_import {row : SignedBlock} (hRow : row ∈ after.signedBlock) :
    row ∈ db.signedBlock ∨ row ∈ file.blockRows := by
  rw [importInterchange_ok hOk, signedBlock_foldl_insertRecord] at hRow
  exact mem_of_mem_foldl_insertOrIgnore hRow

theorem mem_or_mem_voteRows_of_import {row : SignedAttestation}
    (hRow : row ∈ after.signedAttestation) : row ∈ db.signedAttestation ∨ row ∈ file.voteRows := by
  rw [importInterchange_ok hOk, signedAttestation_foldl_insertRecord] at hRow
  exact mem_of_mem_foldl_insertOrIgnore hRow

end

end Pharos.Slashing
