import Pharos.Slashing.Interchange

/-
  This file proves what an imported interchange file does for the requests that come after it: when
  the file agrees with the database, no later signature is slashable with respect to one of its
  records; and which refusals an import cannot undo.

  Main theorems:
  * `accepted_not_slashable_with_import`
  * `rejected_after_import`
-/

----
-- Files that Agree with the Database
----

namespace Pharos.Slashing

open List SqliteSlashingProtection KeyedTable

/-
  The record that the import keeps under a key protects at least as well as every record of the file
  under that key (the same source epoch; the same signing root, or none), and no record of the file
  conflicts with a stored or another imported vote.
-/
structure ImportConsistent (db : SqliteSlashingProtection) (file : InterchangeFile) : Prop where
  blocks : ∀ pubkey slot signingRoot kept, .blockProposal pubkey slot signingRoot ∈ file.records →
    keptBlock db file (pubkey, slot.toInt64) = some kept →
    kept.signingRoot = signingRoot ∨ kept.signingRoot = none
  votes : ∀ pubkey source target signingRoot kept,
    .attestation pubkey source target signingRoot ∈ file.records →
    keptVote db file (pubkey, target.toInt64) = some kept → kept.sourceEpoch = source.toInt64 ∧
      (kept.signingRoot = signingRoot ∨ kept.signingRoot = none)
  apart : ∀ pubkey source target signingRoot row,
    .attestation pubkey source target signingRoot ∈ file.records →
    row ∈ db.signedAttestation ∨ row ∈ file.voteRows →
    row.pubkey = pubkey → surroundsEitherWay source.toInt64 target.toInt64 row = false

/- The epochs of a file fit the signed columns. -/
def SmallVotes (file : InterchangeFile) : Prop :=
  ∀ pubkey source target signingRoot, .attestation pubkey source target signingRoot ∈ file.records →
    source.toNat < 2 ^ 63 ∧ target.toNat < 2 ^ 63

/-
  A request as the signing routines make them: it carries a signing root, its numbers fit the signed
  columns, and a stored vote for its target with its signing root has its source.
-/
def IdentifiedCall (db : SqliteSlashingProtection) : Message → Prop
| .blockProposal _ _ signingRoot => signingRoot ≠ none
| .attestation pubkey source target signingRoot =>
  signingRoot ≠ none ∧ source.toNat < 2 ^ 63 ∧ target.toNat < 2 ^ 63 ∧
    ∀ row ∈ db.signedAttestation, row.primaryKey = (pubkey, target.toInt64) →
      row.signingRoot = signingRoot → row.sourceEpoch = source.toInt64

/-
  The database stands in for every record of a file: it holds a row for each, and no vote that
  conflicts with one.
-/
structure Protects (file : InterchangeFile) (db : SqliteSlashingProtection) : Prop where
  blocks : ∀ pubkey slot signingRoot, .blockProposal pubkey slot signingRoot ∈ file.records →
    ∃ row ∈ db.signedBlock, row.primaryKey = (pubkey, slot.toInt64) ∧
    (row.signingRoot = signingRoot ∨ row.signingRoot = none)
  votes : ∀ pubkey source target signingRoot,
    .attestation pubkey source target signingRoot ∈ file.records →
    ∃ row ∈ db.signedAttestation, row.primaryKey = (pubkey, target.toInt64) ∧
      row.sourceEpoch = source.toInt64 ∧
      (row.signingRoot = signingRoot ∨ row.signingRoot = none)
  apart : ∀ pubkey source target signingRoot,
    .attestation pubkey source target signingRoot ∈ file.records →
    ∀ row ∈ db.signedAttestation, row.pubkey = pubkey →
      surroundsEitherWay source.toInt64 target.toInt64 row = false

variable {file : InterchangeFile} {db after : SqliteSlashingProtection} {expectedRoot : String}

theorem protects_of_import (hImport : importInterchange db file expectedRoot = .ok after)
    (hCons : ImportConsistent db file) : Protects file after := by
  constructor
  · intro pk slot signing hRec
    have hFind := find?_signedBlock_of_import hImport (pk, slot.toInt64)
    have hRow : (⟨pk, slot.toInt64, signing⟩ : SignedBlock) ∈ file.blockRows :=
        mem_blockRows_iff.mpr ⟨slot, rfl, hRec⟩
    cases hKept : keptBlock db file (pk, slot.toInt64) with
    | none =>
      have hNone := (Option.or_eq_none_iff.mp hKept).2
      have hx := find?_eq_none.mp hNone _ hRow
      exact absurd hx (by simp [SignedBlock.primaryKey])
    | some kept =>
      rw [hKept] at hFind
      rcases find?_eq_some_iff.mp hFind with ⟨hMem, hKey⟩
      exact ⟨kept, hMem, hKey, hCons.blocks _ _ _ _ hRec hKept⟩
  · intro pk src tgt signing hRec
    have hFind := find?_signedAttestation_of_import hImport (pk, tgt.toInt64)
    have hRow : (⟨pk, src.toInt64, tgt.toInt64, signing⟩ : SignedAttestation) ∈
        file.voteRows := mem_voteRows_iff.mpr ⟨src, tgt, rfl, rfl, hRec⟩
    cases hKept : keptVote db file (pk, tgt.toInt64) with
    | none =>
      have hNone := (Option.or_eq_none_iff.mp hKept).2
      have hx := find?_eq_none.mp hNone _ hRow
      exact absurd hx (by simp [SignedAttestation.primaryKey])
    | some kept =>
      rw [hKept] at hFind
      rcases find?_eq_some_iff.mp hFind with ⟨hMem, hKey⟩
      exact ⟨kept, hMem, hKey, hCons.votes _ _ _ _ _ hRec hKept⟩
  · intro pk src tgt signing hRec row hRow hPubkey
    exact hCons.apart _ _ _ _ row hRec (mem_or_mem_voteRows_of_import hImport hRow) hPubkey

----
-- Requests after an Import
----

/- The conflict of two votes does not depend on their order. -/
theorem surroundsEitherWay_swap (src tgt : Int64) (row : SignedAttestation)
    (pk : String) (signing : Option String) :
    surroundsEitherWay src tgt row =
      surroundsEitherWay row.sourceEpoch row.targetEpoch ⟨pk, src, tgt, signing⟩ := by
  simp [surroundsEitherWay, Bool.or_comm]

variable {call : Message}

theorem stored_of_identifiedCall (hCall : IdentifiedCall db call)
    (hOk : call.perform db = .ok after) : Stored after call := by
  cases call with
  | blockProposal pk slot signing =>
    rcases checkAndRecordBlockProposal_ok hOk with ⟨_, _, hBlks⟩
    exact (hBlks _).mpr (.inr rfl)
  | attestation pk src tgt signing =>
    rcases hCall with ⟨_, _, _, hIdentified⟩
    rcases checkAndRecordAttestation_ok hOk with
      ⟨_, _, ⟨hUnchanged, row, hRow, hKey, hr⟩ | ⟨_, hVotes⟩⟩
    · have hSrc := hIdentified row hRow hKey hr
      have hEq : row = ⟨pk, src.toInt64, tgt.toInt64, signing⟩ := by
        cases row
        simp_all [SignedAttestation.primaryKey]
      rw [hUnchanged, Stored, ← hEq]
      exact hRow
    · exact (hVotes _).mpr (.inr rfl)

theorem protects_step (hProtects : Protects file db)
    (hOk : call.perform db = .ok after) : Protects file after := by
  cases call with
  | blockProposal pk slot signing =>
    rcases checkAndRecordBlockProposal_ok hOk with ⟨_, hVotes, hBlks⟩
    constructor
    · intro x otherSlot otherRoot hRec
      rcases hProtects.blocks _ _ _ hRec with ⟨row, hRow, hKey⟩
      exact ⟨row, (hBlks row).mpr (.inl hRow), hKey⟩
    · rw [hVotes]
      exact hProtects.votes
    · rw [hVotes]
      exact hProtects.apart
  | attestation pk src tgt signing =>
    rcases checkAndRecordAttestation_ok hOk with ⟨_, hBlks, ⟨hUnchanged, _⟩ | ⟨hFresh, hVotes⟩⟩
    · rw [hUnchanged]
      exact hProtects
    · constructor
      · rw [hBlks]
        exact hProtects.blocks
      · intro x otherSource otherTarget otherRoot hRec
        rcases hProtects.votes _ _ _ _ hRec with ⟨row, hRow, hKey⟩
        exact ⟨row, (hVotes row).mpr (.inl hRow), hKey⟩
      · intro x otherSource otherTarget otherRoot hRec row hRow hPubkey
        rcases (hVotes row).mp hRow with hOld | hNew
        · exact hProtects.apart _ _ _ _ hRec row hOld hPubkey
        · -- The row that stands in for the record was
          -- compared with the new vote.
          rcases hProtects.votes _ _ _ _ hRec with ⟨kept, hKept, hKey, hSrc, _⟩
          subst hNew
          simp only [SignedAttestation.primaryKey, Prod.mk.injEq] at hKey hPubkey
          have hClear := hFresh.noSurround kept hKept (hKey.1.trans hPubkey.symm)
          rw [surroundsEitherWay_swap _ _ kept pk signing, hSrc, hKey.2] at hClear
          exact hClear

theorem Protects.not_surrounds {s : SqliteSlashingProtection} {record : Message}
    (hProtects : Protects file db) (hSmall : SmallVotes file) (hStored : Stored db call)
    (hCall : IdentifiedCall s call) (hRec : record ∈ file.records) :
    ¬call.Surrounds record ∧ ¬record.Surrounds call := by
  cases record with
  | blockProposal _ _ _ =>
    cases call with
    | blockProposal _ _ _ | attestation _ _ _ _ => exact ⟨id, id⟩
  | attestation pk src tgt signing =>
    cases call with
    | blockProposal _ _ _ => exact ⟨id, id⟩
    | attestation x callSource callTarget callRoot =>
      have hBounds := hSmall _ _ _ _ hRec
      have hClear := hProtects.apart _ _ _ _ hRec _ hStored
      rw [Bool.eq_false_iff, Ne, surroundsEitherWay_iff hBounds.1 hBounds.2 hCall.2.1
        hCall.2.2.1] at hClear
      refine ⟨?_, ?_⟩
      · rintro ⟨hKey, hNested⟩
        exact hClear hKey (.inr hNested)
      · rintro ⟨hKey, hNested⟩
        exact hClear hKey.symm (.inl hNested)

theorem Protects.not_slashable {s : SqliteSlashingProtection} {record : Message}
    (hProtects : Protects file db) (hSmall : SmallVotes file) (hStored : Stored db call)
    (hCall : IdentifiedCall s call) (hRec : record ∈ file.records) :
    ¬Slashable call record := by
  intro hSlashable
  cases hSlashable with
  | doubleProposal hRoots =>
    rcases hProtects.blocks _ _ _ hRec with ⟨row, hRow, hKey, hr⟩
    cases eq_of_key_eq hRow hStored hKey
    exact hr.elim hRoots hCall
  | doubleVote hRoots =>
    rcases hProtects.votes _ _ _ _ hRec with ⟨row, hRow, hKey, _, hr⟩
    cases eq_of_key_eq hRow hStored hKey
    exact hr.elim hRoots hCall.1
  | surrounding hSur => exact (hProtects.not_surrounds hSmall hStored hCall hRec).1 hSur
  | surrounded hSur => exact (hProtects.not_surrounds hSmall hStored hCall hRec).2 hSur

/-
  After the import of a file that agrees with the database, no identified request that is granted is
  slashable with respect to a record of the file.
-/
theorem accepted_not_slashable_with_import {expectedRoot : String} {calls : List Message}
    (hImport : importInterchange db file expectedRoot = .ok after)
    (hConsistent : ImportConsistent db file) (hSmall : SmallVotes file)
    (hCalls : Run.StepsMeet Message.perform IdentifiedCall after calls) :
    ∀ call ∈ Run.accepted Message.perform after calls,
      ∀ record ∈ file.records, ¬Slashable call record := by
  refine (Run.history_invariant (fun s past =>
    Protects file s ∧ ∀ call ∈ past, ∀ record ∈ file.records, ¬Slashable call record)
    [] ?_ hCalls ⟨protects_of_import hImport hConsistent, by simp⟩).2
  rintro s past act next _ ⟨hProtects, hPast⟩ hCall hOk
  have hNext := protects_step hProtects hOk
  have hStored := stored_of_identifiedCall hCall hOk
  refine ⟨hNext, forall_mem_append.mpr ⟨hPast, ?_⟩⟩
  refine forall_mem_singleton.mpr ?_
  intro record hRec
  exact hNext.not_slashable hSmall hStored hCall hRec

def signedAtHundred : SqliteSlashingProtection where
  signedBlock := ⟨[⟨"0x01", 100, some "0xaa"⟩], by decide⟩
  signedAttestation := KeyedTable.empty

def sameAtHundred : InterchangeFile where
  metadata := ⟨"5", "0x00"⟩
  data :=
    [⟨"0x01", [⟨"100", some "0xaa"⟩], [⟨"2", "3", some "0xcc"⟩]⟩]

/- What the import of that file leaves. -/
def afterSameAtHundred : SqliteSlashingProtection where
  signedBlock := ⟨[⟨"0x01", 100, some "0xaa"⟩], by decide⟩
  signedAttestation := ⟨[⟨"0x01", 2, 3, some "0xcc"⟩], by decide⟩

theorem records_sameAtHundred : sameAtHundred.records = [.blockProposal "0x01" 100 (some "0xaa"),
        .attestation "0x01" 2 3 (some "0xcc")] :=
  rfl

theorem importInterchange_sameAtHundred : importInterchange signedAtHundred sameAtHundred "0x00" =
      .ok afterSameAtHundred :=
  rfl

variable {pubkey : String} {signingRoot : Option String}

theorem vote_mem_records_sameAtHundred {src tgt : UInt64}
    (hRec : .attestation pubkey src tgt signingRoot ∈ sameAtHundred.records) :
    pubkey = "0x01" ∧ src = 2 ∧ tgt = 3 ∧ signingRoot = some "0xcc" := by
  simpa [records_sameAtHundred] using hRec

theorem importConsistent_sameAtHundred : ImportConsistent signedAtHundred sameAtHundred := by
  constructor
  · intro pubkey slot signingRoot kept hRec hKept
    have hBlk : pubkey = "0x01" ∧ slot = 100 ∧ signingRoot = some "0xaa" := by
      simpa [records_sameAtHundred] using hRec
    rcases hBlk with ⟨rfl, rfl, rfl⟩
    cases hKept
    exact .inl rfl
  · intro pubkey src tgt signingRoot kept hRec hKept
    rcases vote_mem_records_sameAtHundred hRec with ⟨rfl, rfl, rfl, rfl⟩
    cases hKept
    exact ⟨rfl, .inl rfl⟩
  · intro pubkey src tgt signingRoot row hRec hRow _
    rcases vote_mem_records_sameAtHundred hRec with ⟨rfl, rfl, rfl, rfl⟩
    have hRows : sameAtHundred.voteRows = [⟨"0x01", 2, 3, some "0xcc"⟩] := rfl
    rcases hRow with hOld | hNew
    · exact absurd hOld (not_mem_empty row)
    · rw [hRows, mem_singleton] at hNew
      rw [hNew]
      decide

/- A second block at slot 100, and a later vote. -/
def callsAfterSame : List Message :=
  [.blockProposal "0x01" 100 (some "0xbb"), .attestation "0x01" 3 4 (some "0xdd")]

theorem accepted_not_slashable_with_import_sameAtHundred :
    Run.accepted Message.perform afterSameAtHundred callsAfterSame =
        [.attestation "0x01" 3 4 (some "0xdd")] ∧
      ∀ call ∈ Run.accepted Message.perform afterSameAtHundred callsAfterSame,
        ∀ record ∈ sameAtHundred.records, ¬Slashable call record := by
  refine ⟨rfl, ?_⟩
  refine accepted_not_slashable_with_import importInterchange_sameAtHundred
    importConsistent_sameAtHundred ?_ ?_
  · intro pubkey src tgt signingRoot hRec
    rcases vote_mem_records_sameAtHundred hRec with ⟨rfl, rfl, rfl, rfl⟩
    decide
  · refine ⟨Option.some_ne_none _, ⟨Option.some_ne_none _, by decide, by decide, ?_⟩, trivial⟩
    decide

def otherAtHundred : InterchangeFile where
  metadata := ⟨"5", "0x00"⟩
  data := [⟨"0x01", [⟨"100", some "0xbb"⟩], []⟩]

/-
  The import drops the other block without a word, and the database goes on signing the first one.
-/
theorem import_drops_conflicting_block : ∃ after next,
      importInterchange signedAtHundred otherAtHundred "0x00" = .ok after ∧
      (Message.blockProposal "0x01" 100 (some "0xaa")).perform after = .ok next ∧
      .blockProposal "0x01" 100 (some "0xbb") ∈ otherAtHundred.records ∧
      Slashable (.blockProposal "0x01" 100 (some "0xaa"))
        (.blockProposal "0x01" 100 (some "0xbb")) := by
  refine ⟨_, _, rfl, rfl, ?_, ?_⟩
  · decide
  · exact .doubleProposal (by decide)

----
-- Refusals that Outlive an Import
----

def Undercuts {Row : Type} (rows : List Row) (owner : Row → String) (column : Row → Int64)
    (pubkey : String) (watermark : Option Int64) : Prop :=
  ∃ min, watermark = some min ∧ ∃ row ∈ rows, owner row = pubkey ∧ column row < min

section

variable (db : SqliteSlashingProtection) (file : InterchangeFile) (pubkey : String)

def LowersSlotWatermark : Prop :=
  Undercuts file.blockRows SignedBlock.pubkey SignedBlock.slot pubkey (db.minSlot pubkey)

/- The file has a vote below the smallest stored source. -/
def LowersSourceWatermark : Prop :=
  Undercuts file.voteRows SignedAttestation.pubkey SignedAttestation.sourceEpoch pubkey
    (db.minSource pubkey)

def LowersTargetWatermark : Prop :=
  Undercuts file.voteRows SignedAttestation.pubkey SignedAttestation.targetEpoch pubkey
    (db.minTarget pubkey)

def ReportsVote (target : UInt64) (signingRoot : Option String) : Prop :=
  ∃ source, .attestation pubkey source target signingRoot ∈ file.records

def RefusalOutlives : Message → SlashingError → Prop
| .blockProposal pubkey _ _, .blockBelowLowWatermark _ _ =>
  ¬LowersSlotWatermark db file pubkey
| .attestation pubkey _ _ _, .attestationSourceBelowLowWatermark _ _ =>
  ¬LowersSourceWatermark db file pubkey
| .attestation pubkey _ target signingRoot, .attestationTargetBelowLowWatermark _ _ =>
  ¬LowersTargetWatermark db file pubkey ∧ ¬ReportsVote file pubkey target signingRoot
| .attestation pubkey _ target signingRoot, .surroundVote _ _ _ _ =>
  ¬ReportsVote file pubkey target signingRoot
| .attestation pubkey _ target signingRoot, .surroundedVote _ _ _ _ =>
  ¬ReportsVote file pubkey target signingRoot
| _, _ => True

end

theorem minimum_eq_of_not_undercuts {Row Key : Type} {k : Row → Key}
    {t larger : KeyedTable k} {added : List Row} {owner : Row → String}
    {col : Row → Int64} {min : Int64}
    (hMin : t.minimum (fun row => owner row = pubkey) col = some min)
    (hSubset : ∀ row ∈ t, row ∈ larger) (hAdd : ∀ row ∈ larger, row ∈ t ∨ row ∈ added)
    (hKept : ¬Undercuts added owner col pubkey (t.minimum (fun row => owner row = pubkey) col)) :
    larger.minimum (fun row => owner row = pubkey) col = some min := by
  rcases minimum_some_iff.mp hMin with ⟨⟨least, hLeast, hxs⟩, hBd⟩
  refine minimum_some_iff.mpr ⟨⟨least, hSubset least hLeast, hxs⟩, ?_⟩
  intro row hRow hOwner
  rcases hAdd row hRow with hOld | hNew
  · exact hBd row hOld hOwner
  · refine Int64.not_lt.mp ?_
    intro hBelow
    exact hKept ⟨min, hMin, row, hNew, by simpa using hOwner, hBelow⟩

section

variable (hImport : importInterchange db file expectedRoot = .ok after)
include hImport

theorem reportsVote_of_import {tgt : UInt64}
    (hNew : db.signedAttestation.find? (pubkey, tgt.toInt64) = none)
    (hRepeats : after.RepeatsStoredVote pubkey tgt signingRoot) :
    ReportsVote file pubkey tgt signingRoot := by
  rcases hRepeats with ⟨row, hRow, hKey, hr⟩
  rcases mem_or_mem_voteRows_of_import hImport hRow with hOld | hFile
  · exact absurd hKey (find?_eq_none_iff.mp hNew row hOld)
  · rcases mem_voteRows_iff.mp hFile with ⟨src, rowTarget, _, hTgt, hRec⟩
    have hPubkey : row.pubkey = pubkey := congrArg Prod.fst hKey
    have hEq : rowTarget = tgt :=
      toInt64_injective (hTgt.symm.trans (congrArg Prod.snd hKey))
    rw [hPubkey, hEq, hr] at hRec
    exact ⟨src, hRec⟩

theorem blockProposal_rejected_after_import {slot : UInt64} {e : SlashingError}
    {next : SqliteSlashingProtection}
    (hErr : db.checkAndRecordBlockProposal pubkey slot signingRoot = .error e)
    (hOutlives : RefusalOutlives db file (.blockProposal pubkey slot signingRoot) e)
    (hOk : after.checkAndRecordBlockProposal pubkey slot signingRoot = .ok next) : False := by
  rcases checkAndRecordBlockProposal_ok hOk with ⟨hAbove, _, hBlks⟩
  rcases checkAndRecordBlockProposal_error hErr with
    ⟨min, hMin, hBelow, rfl⟩ | ⟨row, hRow, hKey, hr, _⟩
  · have hKept : after.minSlot pubkey = some min := minimum_eq_of_not_undercuts hMin (fun _ =>
      mem_signedBlock_of_import hImport) (fun _ => mem_or_mem_blockRows_of_import hImport) hOutlives
    exact hAbove min hKept hBelow
  · have hStored := mem_signedBlock_of_import hImport hRow
    have hEq := eq_of_key_eq ((hBlks row).mpr (.inl hStored)) ((hBlks _).mpr (.inr rfl)) hKey
    exact hr (by rw [hEq])

theorem attestation_rejected_after_import {src tgt : UInt64} {e : SlashingError}
    {next : SqliteSlashingProtection}
    (hErr : db.checkAndRecordAttestation pubkey src tgt signingRoot = .error e)
    (hOutlives : RefusalOutlives db file (.attestation pubkey src tgt signingRoot) e)
    (hOk : after.checkAndRecordAttestation pubkey src tgt signingRoot = .ok next) :
    False := by
  rcases checkAndRecordAttestation_ok hOk with ⟨hAboveSource, _, hGranted⟩
  rcases checkAndRecordAttestation_error hErr with
    ⟨min, hMin, hBelow, rfl⟩ | ⟨min, hMin, hBelow, hNew, rfl⟩ | ⟨row, hRow, hKey, hr, _⟩ |
    ⟨row, hRow, hPubkey, hConflict, hNew, hRefusal⟩
  · have hKept : after.minSource pubkey = some min := minimum_eq_of_not_undercuts hMin (fun _ =>
      mem_signedAttestation_of_import hImport) (fun _ => mem_or_mem_voteRows_of_import hImport)
      hOutlives
    exact hAboveSource min hKept hBelow
  · rcases hGranted with ⟨_, hRepeats⟩ | ⟨hFresh, _⟩
    · exact hOutlives.2 (reportsVote_of_import hImport hNew hRepeats)
    · have hKept : after.minTarget pubkey = some min := minimum_eq_of_not_undercuts hMin (fun _ =>
        mem_signedAttestation_of_import hImport) (fun _ =>
        mem_or_mem_voteRows_of_import hImport) hOutlives.1
      exact hFresh.aboveTarget min hKept hBelow
  · have hStored := mem_signedAttestation_of_import hImport hRow
    rcases hGranted with ⟨_, x, hx, hOtherKey, hOtherRoot⟩ | ⟨hFresh, _⟩
    · have hEq := eq_of_key_eq hStored hx (hKey.trans hOtherKey.symm)
      exact hr (hEq ▸ hOtherRoot)
    · exact find?_eq_none_iff.mp hFresh.newTarget row hStored hKey
  · rcases hGranted with ⟨_, hRepeats⟩ | ⟨hFresh, _⟩
    · have hReports := reportsVote_of_import hImport hNew hRepeats
      rcases hRefusal with rfl | rfl
      · exact hOutlives hReports
      · exact hOutlives hReports
    · have hStored := mem_signedAttestation_of_import hImport hRow
      have hClear := hFresh.noSurround row hStored hPubkey
      rw [hConflict] at hClear
      cases hClear

end

/-
  A request that is refused before an import is refused after it, unless the file lowers the
  watermark that refused it or reports the very vote that was refused.
-/
theorem rejected_after_import {expectedRoot : String} {message : Message}
    {refusal : SlashingError} (hImport : importInterchange db file expectedRoot = .ok after)
    (hError : message.perform db = .error refusal)
    (hOutlives : RefusalOutlives db file message refusal) :
    ∃ later, message.perform after = .error later := by
  cases hLater : message.perform after with
  | error later => exact ⟨later, rfl⟩
  | ok next =>
    exfalso
    cases message with
    | blockProposal pubkey slot signingRoot =>
      exact blockProposal_rejected_after_import hImport hError hOutlives hLater
    | attestation pubkey src tgt signingRoot =>
      exact attestation_rejected_after_import hImport hError hOutlives hLater

theorem rejected_after_import_sameAtHundred : ∃ later,
      (Message.blockProposal "0x01" 70
        (some "0xdd")).perform afterSameAtHundred = .error later := by
  refine rejected_after_import importInterchange_sameAtHundred
    (show (Message.blockProposal "0x01" 70 (some "0xdd")).perform signedAtHundred =
          .error (.blockBelowLowWatermark 70 100) from rfl) ?_
  rintro ⟨min, hMin, row, hRow, _, hBelow⟩
  have hRows : sameAtHundred.blockRows = [⟨"0x01", 100, some "0xaa"⟩] := rfl
  rw [hRows, mem_singleton] at hRow
  have hHundred : (100 : Int64) = min := Option.some.inj hMin
  subst hRow hHundred
  exact absurd hBelow (by decide)

def olderBlock : InterchangeFile where
  metadata := ⟨"5", "0x00"⟩
  data := [⟨"0x01", [⟨"50", some "0xbb"⟩], []⟩]

/- The older block lowers the watermark below slot 70. -/
theorem import_lowers_watermark : ∃ after next,
      (Message.blockProposal "0x01" 70
        (some "0xdd")).perform signedAtHundred = .error (.blockBelowLowWatermark 70 100) ∧
      importInterchange signedAtHundred olderBlock "0x00" = .ok after ∧
      (Message.blockProposal "0x01" 70 (some "0xdd")).perform after = .ok next :=
  ⟨_, _, rfl, rfl, rfl⟩

end Pharos.Slashing
