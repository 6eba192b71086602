import Pharos.Lib.KeyedTable

/-
  This file models the slashing-protection database of the validator client: two tables of signed
  messages, and the two operations that check a message against the tables and record it.

  Slots and epochs are unsigned in the interface and are stored in signed columns; the casts are
  written out.
-/

----
-- Signed Columns
----

namespace Pharos.Slashing

theorem toInt64_injective : Function.Injective UInt64.toInt64 := by
  intro a b hCast
  have hBack := congrArg Int64.toUInt64 hCast
  simpa using hBack

/- Below `2^63` the cast keeps the number. -/
theorem toInt_toInt64 {n : UInt64} (hSmall : n.toNat < 2 ^ 63) : n.toInt64.toInt = n.toNat := by
  have hTwice : 2 * n.toBitVec.toNat < 2 ^ 64 := by
    rw [UInt64.toNat_toBitVec]
    omega
  exact BitVec.toInt_eq_toNat_of_lt hTwice

theorem toInt64_lt_iff {a b : UInt64} (hFst : a.toNat < 2 ^ 63)
    (hSnd : b.toNat < 2 ^ 63) : a.toInt64 < b.toInt64 ↔ a < b := by
  rw [Int64.lt_iff_toInt_lt, UInt64.lt_iff_toNat_lt, toInt_toInt64 hFst, toInt_toInt64 hSnd]
  omega

theorem toInt64_nonneg {n : UInt64} (hSmall : n.toNat < 2 ^ 63) : 0 ≤ n.toInt64 := by
  rw [Int64.le_iff_toInt_le, toInt_toInt64 hSmall]
  simp

end Pharos.Slashing

----
-- Tables
----

namespace Pharos.Slashing

/- A row of the table `signed_block`. -/
structure SignedBlock where
  pubkey : String
  slot : Int64
  signingRoot : Option String
deriving DecidableEq

/- A row of the table `signed_attestation`. -/
structure SignedAttestation where
  pubkey : String
  sourceEpoch : Int64
  targetEpoch : Int64
  signingRoot : Option String
deriving DecidableEq

def SignedBlock.primaryKey (row : SignedBlock) : String × Int64 :=
  (row.pubkey, row.slot)

/- `PRIMARY KEY (pubkey, target_epoch)`. -/
def SignedAttestation.primaryKey (row : SignedAttestation) : String × Int64 :=
  (row.pubkey, row.targetEpoch)

/- The contents of the database. -/
structure SqliteSlashingProtection where
  signedBlock : KeyedTable SignedBlock.primaryKey
  signedAttestation : KeyedTable SignedAttestation.primaryKey

/- Why a message is not signed. -/
inductive SlashingError where
  | blockBelowLowWatermark (slot minSlot : UInt64)
  | doubleBlockProposal (slot : UInt64)
  | attestationSourceBelowLowWatermark (sourceEpoch minSource : UInt64)
  | attestationTargetBelowLowWatermark (targetEpoch minTarget : UInt64)
  | doubleAttestation (targetEpoch : UInt64)
  | surroundVote (newSrc newTgt exSrc exTgt : UInt64)
  | surroundedVote (newSrc newTgt exSrc exTgt : UInt64)
  | sqlite (message : String)
deriving DecidableEq

/- The database that `open` creates at a fresh path. -/
def SqliteSlashingProtection.fresh : SqliteSlashingProtection where
  signedBlock := KeyedTable.empty
  signedAttestation := KeyedTable.empty

end Pharos.Slashing

----
-- Queries
----

namespace Pharos.Slashing

namespace SqliteSlashingProtection

variable (db : SqliteSlashingProtection) (pubkeyHex : String)

def minSlot : Option Int64 :=
  db.signedBlock.minimum (fun row => row.pubkey = pubkeyHex) SignedBlock.slot

/- `SELECT MIN(source_epoch)` for a validator. -/
def minSource : Option Int64 :=
  db.signedAttestation.minimum (fun row => row.pubkey = pubkeyHex) SignedAttestation.sourceEpoch

/- `SELECT MIN(target_epoch)` for a validator. -/
def minTarget : Option Int64 :=
  db.signedAttestation.minimum (fun row => row.pubkey = pubkeyHex) SignedAttestation.targetEpoch

/-
  One of two votes has the earlier source and the later target, as the surround query compares
  stored epochs.
-/
def surroundsEitherWay (srcI tgtI : Int64) (row : SignedAttestation) : Bool :=
  (srcI < row.sourceEpoch && tgtI > row.targetEpoch) ||
    (srcI > row.sourceEpoch && tgtI < row.targetEpoch)

/- Some stored vote that conflicts, `LIMIT 1`. -/
def surround (srcI tgtI : Int64) : Option SignedAttestation :=
  db.signedAttestation.rows.find? fun row =>
    row.pubkey = pubkeyHex && surroundsEitherWay srcI tgtI row

end SqliteSlashingProtection

def repeatSigning : Option String → Option String → Bool
| some stored, some new => stored = new
| none, none => true
| _, _ => false

@[simp] theorem repeatSigning_iff (old new : Option String) :
    repeatSigning old new ↔ old = new := by
  cases old <;> cases new <;> simp [repeatSigning]

end Pharos.Slashing

----
-- Checking and Recording
----

namespace Pharos.Slashing.SqliteSlashingProtection

def checkAndRecordBlockProposal (db : SqliteSlashingProtection) (pubkeyHex : String)
    (slot : UInt64) (signingRoot : Option String) : Except SlashingError SqliteSlashingProtection :=
  let slotI := slot.toInt64
  match ((db.minSlot pubkeyHex).map Int64.toUInt64).filter (slot < ·) with
  | some min => .error (.blockBelowLowWatermark slot min)
  | none =>
  match db.signedBlock.find? (pubkeyHex, slotI) with
  | some stored =>
    if repeatSigning stored.signingRoot signingRoot then
      .ok db
    else
      .error (.doubleBlockProposal slot)
  | none =>
  match db.signedBlock.insert ⟨pubkeyHex, slotI, signingRoot⟩ with
  | some signedBlock => .ok { db with signedBlock }
  | none =>
    .error (.sqlite "UNIQUE constraint failed: signed_block.pubkey, signed_block.slot")

def checkAndRecordAttestation (db : SqliteSlashingProtection) (pubkeyHex : String)
    (sourceEpoch targetEpoch : UInt64) (signingRoot : Option String) :
    Except SlashingError SqliteSlashingProtection :=
  let srcI := sourceEpoch.toInt64
  let tgtI := targetEpoch.toInt64
  match ((db.minSource pubkeyHex).map Int64.toUInt64).filter (sourceEpoch < ·) with
  | some min => .error (.attestationSourceBelowLowWatermark sourceEpoch min)
  | none =>
  match ((db.minTarget pubkeyHex).map Int64.toUInt64).filter (targetEpoch ≤ ·) with
  | some min =>
    -- At the watermark only a repeat of the stored vote
    -- is signed.
    match db.signedAttestation.find? (pubkeyHex, tgtI) with
    | some stored =>
      if repeatSigning stored.signingRoot signingRoot then
        .ok db
      else
        .error (.doubleAttestation targetEpoch)
    | none => .error (.attestationTargetBelowLowWatermark targetEpoch min)
  | none =>
  match db.signedAttestation.find? (pubkeyHex, tgtI) with
  | some stored =>
    if repeatSigning stored.signingRoot signingRoot then
      .ok db
    else
      .error (.doubleAttestation targetEpoch)
  | none =>
  match db.surround pubkeyHex srcI tgtI with
  | some ex =>
    let exSrc := ex.sourceEpoch.toUInt64
    let exTgt := ex.targetEpoch.toUInt64
    if sourceEpoch < exSrc ∧ targetEpoch > exTgt then
      .error (.surroundVote sourceEpoch targetEpoch exSrc exTgt)
    else
      .error (.surroundedVote sourceEpoch targetEpoch exSrc exTgt)
  | none =>
  match db.signedAttestation.insert ⟨pubkeyHex, srcI, tgtI, signingRoot⟩ with
  | some signedAttestation => .ok { db with signedAttestation }
  | none =>
    .error (.sqlite
      "UNIQUE constraint failed: signed_attestation.pubkey, signed_attestation.target_epoch")

end Pharos.Slashing.SqliteSlashingProtection

----
-- What an Answer Says about the Tables
----

namespace Pharos.Slashing

open KeyedTable

theorem filter_watermark_eq_none_iff {watermark : Option Int64} {below : UInt64 → Bool} :
    (watermark.map Int64.toUInt64).filter below = none ↔
      ∀ min, watermark = some min → below min.toUInt64 = false := by
  cases watermark <;> simp

theorem filter_watermark_some_iff {watermark : Option Int64} {below : UInt64 → Bool}
    {v : UInt64} :
    (watermark.map Int64.toUInt64).filter below = some v ↔
      ∃ min, watermark = some min ∧ min.toUInt64 = v ∧ below v = true := by
  cases watermark with
  | none => simp
  | some min =>
    simp only [Option.map_some, Option.filter_eq_some_iff, Option.some.injEq, exists_eq_left']

namespace SqliteSlashingProtection

variable {db s' : SqliteSlashingProtection} {pubkeyHex : String} {signingRoot : Option String}

theorem checkAndRecordBlockProposal_ok {slot : UInt64}
    (hOk : db.checkAndRecordBlockProposal pubkeyHex slot signingRoot = .ok s') :
    (∀ min, db.minSlot pubkeyHex = some min → ¬slot < min.toUInt64) ∧
    s'.signedAttestation = db.signedAttestation ∧
    (∀ row, row ∈ s'.signedBlock ↔
      row ∈ db.signedBlock ∨ row = ⟨pubkeyHex, slot.toInt64, signingRoot⟩) := by
  unfold checkAndRecordBlockProposal at hOk
  dsimp only at hOk
  split at hOk
  · cases hOk
  · rename_i hWatermark
    have hAbove : ∀ min, db.minSlot pubkeyHex = some min → ¬slot < min.toUInt64 := by
      simpa using filter_watermark_eq_none_iff.mp hWatermark
    split at hOk
    · rename_i old hFind
      rcases find?_eq_some_iff.mp hFind with ⟨hStored, hKey⟩
      split at hOk
      · rename_i hRepeat
        have hEq : old = ⟨pubkeyHex, slot.toInt64, signingRoot⟩ := by
          cases old
          simp_all [SignedBlock.primaryKey]
        cases hOk
        refine ⟨hAbove, rfl, fun row => ?_⟩
        exact ⟨.inl, fun hRow => hRow.elim id fun hRow => hRow ▸ hEq ▸ hStored⟩
      · cases hOk
    · split at hOk
      · rename_i signedBlock hInsert
        cases hOk
        exact ⟨hAbove, rfl, fun row => mem_insert_iff hInsert⟩
      · cases hOk

theorem checkAndRecordBlockProposal_error {slot : UInt64} {e : SlashingError}
    (hErr : db.checkAndRecordBlockProposal pubkeyHex slot signingRoot = .error e) :
    (∃ min, db.minSlot pubkeyHex = some min ∧ slot < min.toUInt64 ∧
      e = .blockBelowLowWatermark slot min.toUInt64) ∨
    (∃ row ∈ db.signedBlock, row.primaryKey = (pubkeyHex, slot.toInt64) ∧
      row.signingRoot ≠ signingRoot ∧
      e = .doubleBlockProposal slot) := by
  unfold checkAndRecordBlockProposal at hErr
  dsimp only at hErr
  split at hErr
  · rename_i v hWatermark
    rcases filter_watermark_some_iff.mp hWatermark with ⟨min, hMin, rfl, hBelow⟩
    refine .inl ⟨min, hMin, by simpa using hBelow, ?_⟩
    simpa using hErr.symm
  · split at hErr
    · rename_i old hFind
      rcases find?_eq_some_iff.mp hFind with ⟨hStored, hKey⟩
      split at hErr
      · cases hErr
      · rename_i hx
        rw [repeatSigning_iff] at hx
        exact .inr ⟨old, hStored, hKey, hx, by simpa using hErr.symm⟩
    · rename_i hFree
      split at hErr
      · cases hErr
      · rename_i hInsert
        -- The key was looked up just before: it is free.
        exact absurd hFree (insert_eq_none_iff.mp hInsert)

def RepeatsStoredVote (db : SqliteSlashingProtection) (pubkeyHex : String) (targetEpoch : UInt64)
    (signingRoot : Option String) : Prop :=
  ∃ row ∈ db.signedAttestation, row.primaryKey = (pubkeyHex, targetEpoch.toInt64) ∧
    row.signingRoot = signingRoot

/- A vote is above the target watermark and conflicts with no stored vote. -/
structure FreshVote (db : SqliteSlashingProtection) (pubkeyHex : String)
    (sourceEpoch targetEpoch : UInt64) : Prop where
  aboveTarget : ∀ min, db.minTarget pubkeyHex = some min → ¬targetEpoch ≤ min.toUInt64
  newTarget : db.signedAttestation.find? (pubkeyHex, targetEpoch.toInt64) = none
  noSurround : ∀ row ∈ db.signedAttestation, row.pubkey = pubkeyHex →
    surroundsEitherWay sourceEpoch.toInt64 targetEpoch.toInt64 row = false

theorem checkAndRecordAttestation_ok {src tgt : UInt64}
    (hOk : db.checkAndRecordAttestation pubkeyHex src tgt signingRoot = .ok s') :
    (∀ min, db.minSource pubkeyHex = some min → ¬src < min.toUInt64) ∧
    s'.signedBlock = db.signedBlock ∧
    ((s' = db ∧ db.RepeatsStoredVote pubkeyHex tgt signingRoot) ∨
      (db.FreshVote pubkeyHex src tgt ∧ ∀ row, row ∈ s'.signedAttestation ↔
      row ∈ db.signedAttestation ∨
      row = ⟨pubkeyHex, src.toInt64, tgt.toInt64, signingRoot⟩)) := by
  unfold checkAndRecordAttestation at hOk
  dsimp only at hOk
  split at hOk
  · cases hOk
  · rename_i hSrc
    have hAboveSource : ∀ min, db.minSource pubkeyHex = some min → ¬src < min.toUInt64 := by
      simpa using filter_watermark_eq_none_iff.mp hSrc
    split at hOk
    · split at hOk
      · rename_i old hFind
        rcases find?_eq_some_iff.mp hFind with ⟨hStored, hKey⟩
        split at hOk
        · rename_i hRepeat
          cases hOk
          exact ⟨hAboveSource, rfl, .inl ⟨rfl, old, hStored, hKey, by simpa using hRepeat⟩⟩
        · cases hOk
      · cases hOk
    · rename_i hTgt
      split at hOk
      · rename_i old hFind
        rcases find?_eq_some_iff.mp hFind with ⟨hStored, hKey⟩
        split at hOk
        · rename_i hRepeat
          cases hOk
          exact ⟨hAboveSource, rfl, .inl ⟨rfl, old, hStored, hKey, by simpa using hRepeat⟩⟩
        · cases hOk
      · rename_i hNew
        split at hOk
        · split at hOk <;> cases hOk
        · rename_i hSurround
          split at hOk
          · rename_i signedAttestation hInsert
            cases hOk
            refine ⟨hAboveSource, rfl, .inr ⟨⟨?_, hNew, ?_⟩,
              fun row => mem_insert_iff hInsert⟩⟩
            · simpa using filter_watermark_eq_none_iff.mp hTgt
            · simpa [surround, mem_def] using hSurround
          · cases hOk

theorem checkAndRecordAttestation_error {src tgt : UInt64} {e : SlashingError}
    (hErr : db.checkAndRecordAttestation pubkeyHex src tgt signingRoot = .error e) :
    (∃ min, db.minSource pubkeyHex = some min ∧ src < min.toUInt64 ∧
      e = .attestationSourceBelowLowWatermark src min.toUInt64) ∨
    (∃ min, db.minTarget pubkeyHex = some min ∧ tgt ≤ min.toUInt64 ∧
      db.signedAttestation.find? (pubkeyHex, tgt.toInt64) = none ∧
      e = .attestationTargetBelowLowWatermark tgt min.toUInt64) ∨
    (∃ row ∈ db.signedAttestation, row.primaryKey = (pubkeyHex, tgt.toInt64) ∧
      row.signingRoot ≠ signingRoot ∧
      e = .doubleAttestation tgt) ∨
    (∃ row ∈ db.signedAttestation, row.pubkey = pubkeyHex ∧
      surroundsEitherWay src.toInt64 tgt.toInt64 row ∧
      db.signedAttestation.find? (pubkeyHex, tgt.toInt64) = none ∧
      (e = .surroundVote src tgt row.sourceEpoch.toUInt64 row.targetEpoch.toUInt64 ∨
        e = .surroundedVote src tgt row.sourceEpoch.toUInt64 row.targetEpoch.toUInt64)) := by
  unfold checkAndRecordAttestation at hErr
  dsimp only at hErr
  split at hErr
  · rename_i v hWatermark
    rcases filter_watermark_some_iff.mp hWatermark with ⟨min, hMin, rfl, hBelow⟩
    exact .inl ⟨min, hMin, by simpa using hBelow, by simpa using hErr.symm⟩
  · refine .inr ?_
    split at hErr
    · rename_i v hWatermark
      rcases filter_watermark_some_iff.mp hWatermark with ⟨min, hMin, rfl, hBelow⟩
      split at hErr
      · rename_i old hFind
        rcases find?_eq_some_iff.mp hFind with ⟨hStored, hKey⟩
        split at hErr
        · cases hErr
        · rename_i hx
          exact .inr (.inl ⟨old, hStored, hKey, by simpa using hx, by simpa using hErr.symm⟩)
      · rename_i hNew
        exact .inl ⟨min, hMin, by simpa using hBelow, hNew, by simpa using hErr.symm⟩
    · refine .inr ?_
      split at hErr
      · rename_i old hFind
        rcases find?_eq_some_iff.mp hFind with ⟨hStored, hKey⟩
        split at hErr
        · cases hErr
        · rename_i hx
          exact .inl ⟨old, hStored, hKey, by simpa using hx, by simpa using hErr.symm⟩
      · rename_i hNew
        split at hErr
        · rename_i ex hSurround
          have hEx := List.mem_of_find?_eq_some hSurround
          have hConflict := List.find?_some hSurround
          simp only [Bool.and_eq_true, decide_eq_true_eq] at hConflict
          refine .inr ⟨ex, hEx, hConflict.1, hConflict.2, hNew, ?_⟩
          split at hErr
          · exact .inl (by simpa using hErr.symm)
          · exact .inr (by simpa using hErr.symm)
        · split at hErr
          · cases hErr
          · rename_i hInsert
            exact absurd hNew (insert_eq_none_iff.mp hInsert)

end SqliteSlashingProtection

end Pharos.Slashing
