import Mathlib.Tactic.IntervalCases
import Pharos.Lib.Bytes

/-
  This file implements the migration of a database to the current schema version when it is opened.

  Each step commits its changes together with the version that it leads to. A write may fail, and
  the process may stop before any of them.

  Main theorems:
  * `opens_commit_each_step_once`
-/

----
-- Opening
----

namespace Pharos.Storage.Migrations

open List

def migrationBaseline : Nat := 6

def schemaVersion : Nat := 9

inductive OpenError where
  | rocksDb
  | schemaMismatch (found expected : Nat)
  | invalidKeyLength (got expected : Nat)
  | corruptedData (reason : String)

structure Step where
  fromVersion : Nat
  toVersion : Nat
deriving DecidableEq

/- V6ToV7, V7ToV8 and V8ToV9. They write nothing but the version. -/
def migrations : List Step := [⟨6, 7⟩, ⟨7, 8⟩, ⟨8, 9⟩]

/- The value of the version key, and the steps that were ever committed. -/
structure Disk where
  version : Option (List UInt8)
  committed : List Step

def stamp (version : Nat) (committed : List Step) : Disk :=
  ⟨some (Bytes.toLittleEndian 4 version), committed⟩

def commitStep (disk : Disk) (step : Step) : Disk :=
  stamp step.toVersion (disk.committed ++ [step])

/- Nothing is returned if the process stops. -/
abbrev Outcome := Option (Except OpenError Unit)

/- Each write is told whether it succeeds. If it is told nothing, the process stops before it. -/
def write (disk after : Disk) (next : List Bool → Disk → Disk × Outcome) :
    List Bool → Disk × Outcome
| [] => (disk, none)
| false :: _ => (disk, some (.error .rocksDb))
| true :: fates => next fates after

def endWalk (target current : Nat) (disk : Disk) : Disk × Outcome :=
  if current ≠ target then
    (disk, some (.error (.corruptedData
      s!"migration walk ended at version {current}, expected {target}")))
  else
    (disk, some (.ok ()))

def walk (target : Nat) : List Step → Nat → List Bool → Disk → Disk × Outcome
| [], current, _, disk => endWalk target current disk
| ⟨source, next⟩ :: rest, current, fates, disk =>
  if source < current then
    walk target rest current fates disk
  else if source ≠ current then
    (disk, some (.error (.corruptedData
      s!"migration registry gap: at version {current} but next step starts at {source}")))
  else if next > target then
    endWalk target current disk
  else
    write disk (commitStep disk ⟨source, next⟩) (walk target rest next) fates

def runMigrations (disk : Disk) (found target : Nat) (fates : List Bool) : Disk × Outcome :=
  walk target migrations found fates disk

def openStore (disk : Disk) (fates : List Bool) : Disk × Outcome :=
  match disk.version with
  | none =>
    write disk (stamp schemaVersion disk.committed) (fun _ disk => (disk, some (.ok ()))) fates
  | some bytes =>
    let found := Bytes.ofLittleEndian bytes
    if bytes.length ≠ 4 then
      (disk, some (.error (.invalidKeyLength bytes.length 4)))
    else if migrationBaseline ≤ found ∧ found < schemaVersion then
      runMigrations disk found schemaVersion fates
    else if found ≠ schemaVersion then
      (disk, some (.error (.schemaMismatch found schemaVersion)))
    else
      (disk, some (.ok ()))

/- Opens one after the other, whatever becomes of them. -/
def reopen (disk : Disk) (opens : List (List Bool)) : Disk :=
  opens.foldl (fun disk fates => (openStore disk fates).1) disk

----
-- Interrupted Walks
----

/- As many steps in order as are given, from a version on. -/
def steps (found count : Nat) : List Step :=
  (List.range' found count).map fun version => ⟨version, version + 1⟩

theorem steps_succ (found count : Nat) :
    steps found (count + 1) = ⟨found, found + 1⟩ :: steps (found + 1) count := by
  simp [steps, List.range'_succ]

theorem steps_append (found count more : Nat) :
    steps found count ++ steps (found + count) more = steps found (count + more) := by
  rw [steps, steps, ← map_append, List.range'_append_1, steps]

/- A walk commits the first steps of its way, and all of them if it succeeds. -/
theorem walk_steps (count found : Nat) (fates : List Bool) (log : List Step) :
    ∃ done ≤ count,
      let res := walk (found + count) (steps found count) found fates (stamp found log)
      res.1 = stamp (found + done) (log ++ steps found done) ∧
        (res.2 = some (.ok ()) → done = count) := by
  induction count generalizing found fates log with
  | zero => exact ⟨0, le_rfl, by simp [steps, walk, endWalk], fun _ => rfl⟩
  | succ count ih =>
    rw [steps_succ, walk, if_neg (lt_irrefl _), if_neg (by simp), if_neg (by omega)]
    cases fates with
    | nil => exact ⟨0, by omega, by simp [write, steps], by simp [write]⟩
    | cons fate fates =>
      cases fate with
      | false => exact ⟨0, by omega, by simp [write, steps], by simp [write]⟩
      | true =>
        rcases ih (found + 1) fates (log ++ [⟨found, found + 1⟩]) with ⟨done, hDone, hDisk, hAll⟩
        rw [add_right_comm, add_assoc] at hDisk hAll
        refine ⟨done + 1, by omega, ?_, fun hOk => by rw [hAll hOk]⟩
        rw [steps_succ, append_cons, add_comm done 1, ← add_assoc found 1, ← hDisk]
        rfl

/- So does an open, from any version that it accepts. -/
theorem openStore_stamp {found : Nat} (hBase : migrationBaseline ≤ found)
    (hCurrent : found ≤ schemaVersion) (fates : List Bool) (log : List Step) :
    ∃ done, found + done ≤ schemaVersion ∧
      (openStore (stamp found log) fates).1 = stamp (found + done) (log ++ steps found done) ∧
        ((openStore (stamp found log) fates).2 = some (.ok ()) → found + done = schemaVersion) := by
  have hRead : Bytes.ofLittleEndian (Bytes.toLittleEndian 4 found) = found :=
    Bytes.ofLittleEndian_toLittleEndian (hCurrent.trans_lt (by decide))
  have hOpen : openStore (stamp found log) fates = walk (found + (schemaVersion - found))
      (steps found (schemaVersion - found)) found fates (stamp found log) := by
    unfold migrationBaseline schemaVersion at *
    interval_cases found <;> rfl
  rcases walk_steps (schemaVersion - found) found fates log with ⟨done, hDone, hDisk, hAll⟩
  rw [hOpen]
  exact ⟨done, by omega, hDisk, fun hOk => by rw [hAll hOk]; omega⟩

theorem reopen_stamp {found : Nat} (hBase : migrationBaseline ≤ found)
    (hCurrent : found ≤ schemaVersion) (opens : List (List Bool)) (log : List Step) :
    ∃ done, found + done ≤ schemaVersion ∧
      reopen (stamp found log) opens = stamp (found + done) (log ++ steps found done) := by
  induction opens generalizing found log with
  | nil => exact ⟨0, hCurrent, by simp [reopen, steps]⟩
  | cons fates opens ih =>
    rcases openStore_stamp hBase hCurrent fates log with ⟨done, hDone, hDisk, _⟩
    rcases ih (Nat.le_add_right_of_le hBase) hDone (log ++ steps found done) with
      ⟨more, hMore, hLast⟩
    refine ⟨done + more, by omega, ?_⟩
    rw [← steps_append, ← append_assoc, ← add_assoc, ← hLast, ← hDisk]
    rfl

/-
  Whatever stops the opens before it, an open that succeeds leaves the current version, and each
  step from the first version on has been committed once, in order. A version out of range is
  rejected, and nothing is written.
-/
theorem opens_commit_each_step_once (found : Nat) (log : List Step) :
    (migrationBaseline ≤ found ∧ found ≤ schemaVersion → ∀ opens last,
      (openStore (reopen (stamp found log) opens) last).2 = some (.ok ()) →
        (openStore (reopen (stamp found log) opens) last).1 = stamp schemaVersion
          (log ++ migrations.filter fun step => found ≤ step.fromVersion)) ∧
    (found < 2 ^ 32 ∧ ¬(migrationBaseline ≤ found ∧ found ≤ schemaVersion) → ∀ fates,
      openStore (stamp found log) fates =
        (stamp found log, some (.error (.schemaMismatch found schemaVersion)))) := by
  constructor
  · rintro ⟨hBase, hCurrent⟩ opens last hOk
    rcases reopen_stamp hBase hCurrent opens log with ⟨done, hDone, hReached⟩
    rw [hReached] at hOk ⊢
    rcases openStore_stamp (Nat.le_add_right_of_le hBase) hDone last (log ++ steps found done) with
      ⟨more, _, hDisk, hAll⟩
    rw [hDisk, hAll hOk, append_assoc, steps_append]
    have hSum : done + more = schemaVersion - found := by
      have := hAll hOk
      omega
    rw [hSum]
    unfold migrationBaseline schemaVersion at *
    interval_cases found <;> rfl
  · rintro ⟨hFits, hOut⟩ fates
    have hRead : Bytes.ofLittleEndian (Bytes.toLittleEndian 4 found) = found :=
      Bytes.ofLittleEndian_toLittleEndian hFits
    simp only [openStore, stamp, hRead, Bytes.length_toLittleEndian]
    rw [if_neg (not_not.mpr rfl), if_neg fun hIn => hOut ⟨hIn.1, hIn.2.le⟩,
      if_pos fun hEq => hOut (by rw [hEq]; decide)]

end Pharos.Storage.Migrations
