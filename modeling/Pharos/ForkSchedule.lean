import Mathlib.Data.List.Chain
import Mathlib.Order.Bounds.Basic
import Pharos.Types

/-
  This file implements the schedule of the forks: from which epoch on each fork version is in use,
  and which fork is announced as the next one.

  Main theorems:
  * `ForkSchedule.next_fork_announced_iff`
-/

----
-- Schedules
----

namespace Pharos

open List

/- Four bytes. -/
abbrev Version := Nat

/- The versions before and after the latest fork. -/
structure Fork where
  previousVersion : Version
  currentVersion : Version
  epoch : Epoch
deriving DecidableEq, Repr

structure ForkSchedule where
  genesisForkVersion : Version
  altairForkVersion : Version
  altairForkEpoch : Epoch
  bellatrixForkVersion : Version
  bellatrixForkEpoch : Epoch
  capellaForkVersion : Version
  capellaForkEpoch : Epoch
  denebForkVersion : Version
  denebForkEpoch : Epoch
  electraForkVersion : Version
  electraForkEpoch : Epoch
  fuluForkVersion : Version
  fuluForkEpoch : Epoch
deriving DecidableEq, Repr

namespace ForkSchedule

variable (schedule : ForkSchedule)

def forkTable : List Fork :=
  [⟨schedule.genesisForkVersion, schedule.altairForkVersion, schedule.altairForkEpoch⟩,
    ⟨schedule.altairForkVersion, schedule.bellatrixForkVersion, schedule.bellatrixForkEpoch⟩,
    ⟨schedule.bellatrixForkVersion, schedule.capellaForkVersion, schedule.capellaForkEpoch⟩,
    ⟨schedule.capellaForkVersion, schedule.denebForkVersion, schedule.denebForkEpoch⟩,
    ⟨schedule.denebForkVersion, schedule.electraForkVersion, schedule.electraForkEpoch⟩,
    ⟨schedule.electraForkVersion, schedule.fuluForkVersion, schedule.fuluForkEpoch⟩]

def forkAtEpoch (epoch : Epoch) : Fork :=
  (schedule.forkTable.reverse.find? fun fork =>
    fork.epoch ≤ epoch).getD
      ⟨schedule.genesisForkVersion, schedule.genesisForkVersion, genesisEpoch⟩

def currentForkVersion (epoch : Epoch) : Version :=
  (schedule.forkAtEpoch epoch).currentVersion

def activeFork (epoch : Epoch) : ForkVariant :=
  if schedule.fuluForkEpoch ≤ epoch then .fulu
  else if schedule.electraForkEpoch ≤ epoch then .electra
  else if schedule.denebForkEpoch ≤ epoch then .deneb
  else if schedule.capellaForkEpoch ≤ epoch then .capella
  else if schedule.bellatrixForkEpoch ≤ epoch then .bellatrix
  else if schedule.altairForkEpoch ≤ epoch then .altair
  else .phase0

def forkVersion : ForkVariant → Version
| .phase0 => schedule.genesisForkVersion
| .altair => schedule.altairForkVersion
| .bellatrix => schedule.bellatrixForkVersion
| .capella => schedule.capellaForkVersion
| .deneb => schedule.denebForkVersion
| .electra => schedule.electraForkVersion
| .fulu => schedule.fuluForkVersion

theorem currentForkVersion_eq (epoch : Epoch) :
    schedule.currentForkVersion epoch = schedule.forkVersion (schedule.activeFork epoch) := by
  unfold currentForkVersion forkAtEpoch forkTable activeFork
  by_cases hFulu : schedule.fuluForkEpoch ≤ epoch
  · simp [forkVersion, *]
  by_cases hElectra : schedule.electraForkEpoch ≤ epoch
  · simp [forkVersion, *]
  by_cases hDeneb : schedule.denebForkEpoch ≤ epoch
  · simp [forkVersion, *]
  by_cases hCapella : schedule.capellaForkEpoch ≤ epoch
  · simp [forkVersion, *]
  by_cases hBellatrix : schedule.bellatrixForkEpoch ≤ epoch
  · simp [forkVersion, *]
  by_cases hAltair : schedule.altairForkEpoch ≤ epoch
  · simp [forkVersion, *]
  simp [forkVersion, *]

section

variable (epoch : Epoch)

def laterFork : Option Fork :=
  schedule.forkTable.find? fun fork => epoch < fork.epoch

def nextForkVersion : Version :=
  ((schedule.laterFork epoch).map Fork.currentVersion).getD schedule.fuluForkVersion

/- The largest word stands for a fork that is not scheduled. -/
def nextForkEpoch : Epoch :=
  ((schedule.laterFork epoch).map Fork.epoch).getD Word.maxValue

def changesAfter : Set Epoch :=
  { later | epoch < later ∧
    schedule.currentForkVersion later ≠ schedule.currentForkVersion (later - 1) }

/-
  If no epoch is announced, the version stays. Otherwise it changes in that epoch next, to the one
  announced.
-/
def AnnouncesNextFork : Prop :=
  let next := schedule.nextForkEpoch epoch
  if next = Word.maxValue then
    schedule.nextForkVersion epoch = schedule.currentForkVersion epoch
  else
    IsLeast (schedule.changesAfter epoch) next ∧
      schedule.nextForkVersion epoch = schedule.currentForkVersion next

end

/-
  What the first entry above an epoch has to be like: one that is not scheduled keeps the version,
  and one that is changes it, to the version of the last entry with the same epoch.
-/
def AnnouncedRightly (next : Fork) (rest : List Fork) : Prop :=
  if next.epoch = Word.maxValue then
    next.currentVersion = next.previousVersion
  else
    next.currentVersion ≠ next.previousVersion ∧
      ∀ last ∈ (rest.filter fun fork => fork.epoch = next.epoch).getLast?,
        last.currentVersion = next.currentVersion

section

variable {schedule : ForkSchedule} {epoch : Epoch} {next : Fork}
variable (hSorted : schedule.forkTable.Pairwise fun fork later => fork.epoch ≤ later.epoch)
variable (hNext : schedule.laterFork epoch = some next)
include hSorted hNext

theorem laterFork_first {fork : Fork} (hFork : fork ∈ schedule.forkTable)
    (hLater : epoch < fork.epoch) : next.epoch ≤ fork.epoch := by
  rcases find?_eq_some_iff_append.mp hNext with ⟨_, past, rest, hTable, hPast⟩
  rw [hTable, pairwise_append, pairwise_cons] at hSorted
  rw [hTable, mem_append, mem_cons] at hFork
  rcases hFork with hOld | rfl | hRest
  · exact absurd (hPast fork hOld) (by simp [hLater])
  · exact le_rfl
  · exact hSorted.2.1.1 fork hRest

/- The version does not change before the first later fork. -/
theorem currentForkVersion_of_lt {e : Epoch} (hFrom : epoch ≤ e) (hTo : e < next.epoch) :
    schedule.currentForkVersion e = schedule.currentForkVersion epoch := by
  have hSame : ∀ fork ∈ schedule.forkTable.reverse,
      decide (fork.epoch ≤ e) = decide (fork.epoch ≤ epoch) := by
    intro fork hFork
    rw [decide_eq_decide]
    refine ⟨fun hLe => ?_, fun hLe => hLe.trans hFrom⟩
    by_contra hLater
    have hFirst := laterFork_first hSorted hNext (mem_reverse.mp hFork) (not_le.mp hLater)
    exact absurd (hTo.trans_le hFirst) (not_lt.mpr hLe)
  unfold currentForkVersion forkAtEpoch
  rw [← head?_filter, filter_congr hSame, head?_filter]

theorem isLeast_changesAfter_iff : IsLeast (schedule.changesAfter epoch) next.epoch ↔
      schedule.currentForkVersion next.epoch ≠ schedule.currentForkVersion epoch := by
  have hLater : epoch < next.epoch := by simpa using find?_some hNext
  have hBefore {e : Epoch} (hFrom : epoch < e) (hTo : e ≤ next.epoch) :
      schedule.currentForkVersion (e - 1) = schedule.currentForkVersion epoch :=
    currentForkVersion_of_lt hSorted hNext (Nat.le_sub_one_of_lt hFrom)
      ((Nat.sub_one_lt_of_lt hFrom).trans_le hTo)
  constructor
  · rintro ⟨⟨_, hChange⟩, _⟩
    rwa [hBefore hLater le_rfl] at hChange
  · intro hChange
    refine ⟨⟨hLater, by rwa [hBefore hLater le_rfl]⟩, ?_⟩
    rintro e ⟨hFrom, hDiffers⟩
    by_contra hTo
    rw [not_le] at hTo
    rw [currentForkVersion_of_lt hSorted hNext hFrom.le hTo, hBefore hFrom hTo.le] at hDiffers
    exact hDiffers rfl

end

/- Each entry starts from the version of the entry before it. -/
theorem previousVersion_eq {schedule : ForkSchedule} {past rest : List Fork} {next : Fork}
    (hTable : schedule.forkTable = past ++ next :: rest) :
    next.previousVersion =
      (past.getLast?.map Fork.currentVersion).getD schedule.genesisForkVersion := by
  have hChain : schedule.forkTable.IsChain fun fork later =>
      later.previousVersion = fork.currentVersion := by
    simp [forkTable]
  rw [hTable, isChain_append] at hChain
  cases hLast : past.getLast? with
  | none =>
    obtain rfl := getLast?_eq_none_iff.mp hLast
    cases hTable
    rfl
  | some last => exact hChain.2.2 last hLast next rfl

section

variable {schedule : ForkSchedule} {epoch : Epoch} {past rest : List Fork} {next : Fork}
variable (hSorted : schedule.forkTable.Pairwise fun fork later => fork.epoch ≤ later.epoch)
variable (hTable : schedule.forkTable = past ++ next :: rest)
include hSorted hTable

theorem le_of_mem_rest {fork : Fork} (hFork : fork ∈ rest) : next.epoch ≤ fork.epoch := by
  rw [hTable, pairwise_append, pairwise_cons] at hSorted
  exact hSorted.2.1.1 fork hFork

/- Between two entries, the version is the one that the second starts from. -/
theorem currentForkVersion_of_past (hPast : ∀ fork ∈ past, fork.epoch ≤ epoch)
    (hLater : epoch < next.epoch) : schedule.currentForkVersion epoch = next.previousVersion := by
  have hRest : rest.reverse.find? (fun fork => fork.epoch ≤ epoch) = none := by
    rw [find?_eq_none]
    intro fork hFork
    have hFrom := le_of_mem_rest hSorted hTable (mem_reverse.mp hFork)
    simpa using hLater.trans_le hFrom
  have hLast : past.reverse.find? (fun fork => fork.epoch ≤ epoch) = past.getLast? := by
    rw [← head?_filter, filter_eq_self.mpr, head?_reverse]
    simpa using hPast
  unfold currentForkVersion forkAtEpoch
  rw [previousVersion_eq hTable, hTable, reverse_append, reverse_cons, append_assoc,
    find?_append, hRest, singleton_append,
    find?_cons_of_neg (by simpa using hLater), hLast]
  cases past.getLast? <;> rfl

/- At the epoch of an entry, the version is that of the last entry with this epoch. -/
theorem currentForkVersion_at_next :
    schedule.currentForkVersion next.epoch =
      ((rest.filter fun fork => fork.epoch = next.epoch).getLast?.getD next).currentVersion := by
  have hRest : rest.reverse.find? (fun fork => fork.epoch ≤ next.epoch) =
      (rest.filter fun fork => fork.epoch = next.epoch).getLast? := by
    rw [← head?_filter, filter_reverse, head?_reverse]
    congr 1
    apply filter_congr
    intro fork hFork
    have hFrom := le_of_mem_rest hSorted hTable hFork
    rw [decide_eq_decide]
    exact ⟨fun hLe => hLe.antisymm hFrom, fun hEq => hEq.le⟩
  unfold currentForkVersion forkAtEpoch
  rw [hTable, reverse_append, reverse_cons, append_assoc, find?_append, hRest]
  cases (rest.filter fun fork => fork.epoch = next.epoch).getLast? <;> simp

/- The announcement of the first entry above the epoch. -/
theorem announcesNextFork_iff (hPast : ∀ fork ∈ past, fork.epoch ≤ epoch)
    (hLater : epoch < next.epoch) :
    schedule.AnnouncesNextFork epoch ↔ AnnouncedRightly next rest := by
  have hNext : schedule.laterFork epoch = some next := by
    rw [laterFork, hTable, find?_append, find?_eq_none.mpr (by simpa using hPast)]
    simp [hLater]
  unfold AnnouncesNextFork AnnouncedRightly nextForkEpoch nextForkVersion
  simp only [hNext, Option.map_some, Option.getD_some, isLeast_changesAfter_iff hSorted hNext,
    currentForkVersion_of_past hSorted hTable hPast hLater,
    currentForkVersion_at_next hSorted hTable]
  cases (rest.filter fun fork => fork.epoch = next.epoch).getLast? with
  | none => simp
  | some last => grind

end

/-
  The next fork is announced exactly if none is left in the table, if the next one is not scheduled
  and keeps the version, or if it changes the version and the last entry with its epoch has the
  version that it changes to.
-/
theorem next_fork_announced_iff (schedule : ForkSchedule) (epoch : Epoch)
    (hSorted : schedule.forkTable.Pairwise fun fork later => fork.epoch ≤ later.epoch) :
    schedule.AnnouncesNextFork epoch ↔
      ∀ past next rest, schedule.forkTable = past ++ next :: rest →
        (∀ fork ∈ past, fork.epoch ≤ epoch) → epoch < next.epoch → AnnouncedRightly next rest := by
  constructor
  · intro hAnnounced past next rest hTable hPast hLater
    exact (announcesNextFork_iff hSorted hTable hPast hLater).mp hAnnounced
  · intro hRightly
    cases hNext : schedule.laterFork epoch with
    | none =>
      unfold AnnouncesNextFork nextForkEpoch nextForkVersion
      simp_all [laterFork, forkTable, currentForkVersion, forkAtEpoch]
    | some next =>
      rcases find?_eq_some_iff_append.mp hNext with ⟨hLater, past, rest, hTable, hPast⟩
      have hPast : ∀ fork ∈ past, fork.epoch ≤ epoch := by simpa using hPast
      have hLater : epoch < next.epoch := by simpa using hLater
      exact (announcesNextFork_iff hSorted hTable hPast hLater).mpr
        (hRightly past next rest hTable hPast hLater)

/- Bellatrix and Capella start together. -/
def sharedEpoch : ForkSchedule :=
  ⟨0, 1, 5, 2, 10, 3, 10, 4, Word.maxValue, 5, Word.maxValue, 6, Word.maxValue⟩

theorem next_fork_announced_iff_sharedEpoch : sharedEpoch.AnnouncesNextFork 3 := by
  apply (next_fork_announced_iff sharedEpoch 3 (by decide)).mpr
  rintro (_ | ⟨fork, past⟩) next rest hTable hPast -
  · cases hTable
    exact ⟨by decide, by decide⟩
  · obtain ⟨rfl, -⟩ := cons.inj hTable
    exact absurd (hPast _ mem_cons_self) (by decide)

/- Version 2 is announced where 3 comes next. -/
theorem wrong_fork_announced :
    ¬sharedEpoch.AnnouncesNextFork 5 ∧ sharedEpoch.nextForkEpoch 5 = 10 ∧
      sharedEpoch.nextForkVersion 5 = 2 ∧ sharedEpoch.currentForkVersion 10 = 3 := by
  refine ⟨?_, rfl, rfl, rfl⟩
  intro hAnnounced
  have hVersions : (2 : Version) = 3 := hAnnounced.2
  cases hVersions

theorem activeFork_eq_fulu_iff {schedule : ForkSchedule} {epoch : Epoch} :
    schedule.activeFork epoch = .fulu ↔ schedule.fuluForkEpoch ≤ epoch := by
  unfold activeFork
  by_cases hFulu : schedule.fuluForkEpoch ≤ epoch
  · simp [hFulu]
  · simp only [hFulu, if_false, iff_false]
    split_ifs <;> simp

end ForkSchedule

structure BlobScheduleEntry where
  epoch : Epoch
  maxBlobsPerBlock : Nat
deriving DecidableEq, Repr

/- The later of two entries, the second of equal ones. -/
def laterEntry (best : Option BlobScheduleEntry) (entry : BlobScheduleEntry) :
    Option BlobScheduleEntry :=
  match best with
  | none => some entry
  | some other =>
    if entry.epoch < other.epoch then some other
    else some entry

structure BlobParameters where
  epoch : Epoch
  maxBlobsPerBlock : Nat
deriving DecidableEq, Repr

def getBlobParameters (epoch : Epoch) (blobSchedule : List BlobScheduleEntry)
    (electraForkEpoch : Epoch) (maxBlobsPerBlockElectra : Nat) : BlobParameters :=
  let entries := blobSchedule.filter fun entry =>
    entry.epoch ≤ epoch
  match entries.foldl laterEntry none with
  | some entry => ⟨entry.epoch, entry.maxBlobsPerBlock⟩
  | none => ⟨electraForkEpoch, maxBlobsPerBlockElectra⟩

end Pharos
