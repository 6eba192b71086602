import Mathlib.Data.List.Basic

/-
  This file compares two runs of a machine that answers every input, where the inputs of one run are
  those of the other with some more put in between.
-/

----
-- Machines
----

namespace Insertion

open List

variable {State Input Output : Type}

variable (step : State → Input → State × Output)

def after (state : State) (inputs : List Input) : State :=
  inputs.foldl (fun state input => (step state input).1) state

/- The answers to the inputs that are listed. -/
def outputs (step : State → Input → State × Output) (listed : Input → Bool) :
    State → List Input → List Output
| _, [] => []
| state, input :: rest =>
  let answer := step state input
  if listed input then
    answer.2 :: outputs step listed answer.1 rest
  else
    outputs step listed answer.1 rest

def stepMarked (state : State) (entry : Input × Bool) : State × Output :=
  step state entry.1

/- The answers to listed inputs that are not marked. -/
def keptOutputs (listed : Input → Bool) (state : State)
    (marked : List (Input × Bool)) : List Output :=
  outputs (stepMarked step) (fun entry => !entry.2 && listed entry.1) state marked

def kept (marked : List (Input × Bool)) : List Input :=
  (marked.filter fun entry => !entry.2).map Prod.fst

def unmarked (inputs : List Input) : List (Input × Bool) :=
  inputs.map fun input => (input, false)

/- Every marked input meets the condition when its turn comes. -/
def Meet (step : State → Input → State × Output) (condition : State → Input → Prop) :
    State → List (Input × Bool) → Prop
| _, [] => True
| state, entry :: rest =>
  (entry.2 = true → condition state entry.1) ∧ Meet step condition (step state entry.1).1 rest

----
-- Composition
----

variable {step : State → Input → State × Output} {listed : Input → Bool}

theorem outputs_append (s : State) (a b : List Input) :
    outputs step listed s (a ++ b) =
      outputs step listed s a ++ outputs step listed (after step s a) b := by
  induction a generalizing s with
  | nil => rfl
  | cons input xs ih =>
    simp only [cons_append, outputs, ih]
    split
    · rfl
    · rfl

variable {s : State}

theorem probe_eq {past : List (Input × Bool)} {input probe : Input} (hListed : listed probe = true)
    (hEq : keptOutputs step listed s (past ++ unmarked [probe]) =
      keptOutputs step listed s ((past ++ [(input, true)]) ++ unmarked [probe])) :
    (step (after (stepMarked step) s past) probe).2 =
      (step (step (after (stepMarked step) s past) input).1 probe).2 := by
  unfold keptOutputs at hEq
  rw [append_assoc, outputs_append, outputs_append] at hEq
  have hTail := append_cancel_left hEq
  simpa [keptOutputs, outputs, unmarked, stepMarked, hListed] using hTail

theorem kept_append (a b : List (Input × Bool)) : kept (a ++ b) = kept a ++ kept b := by
  simp [kept]

theorem kept_inserted (input : Input) : kept [(input, true)] = [] :=
  rfl

theorem kept_unmarked (ins : List Input) : kept (unmarked ins) = ins := by
  induction ins with
  | nil => rfl
  | cons input xs ih =>
    change input :: kept (unmarked xs) = input :: xs
    rw [ih]

variable {cond : State → Input → Prop} {marked : List (Input × Bool)}

theorem meet_append_unmarked (hMeet : Meet step cond s marked) (ins : List Input) :
    Meet step cond s (marked ++ unmarked ins) := by
  induction marked generalizing s with
  | nil =>
    induction ins generalizing s with
    | nil => trivial
    | cons input xs ih => exact ⟨fun hMark => Bool.noConfusion hMark, ih trivial⟩
  | cons entry xs ih => exact ⟨hMeet.1, ih hMeet.2⟩

theorem meet_of_append {a b : List (Input × Bool)}
    (hMeet : Meet step cond s (a ++ b)) : Meet step cond s a := by
  induction a generalizing s with
  | nil => trivial
  | cons entry xs ih => exact ⟨hMeet.1, ih hMeet.2⟩

/- A condition that is met wherever a run is cut. -/
theorem meet_of_forall_split (hSplit : ∀ past input xs, marked = past ++ (input, true) :: xs →
      cond (after (stepMarked step) s past) input) : Meet step cond s marked := by
  induction marked generalizing s with
  | nil => trivial
  | cons entry xs ih =>
    constructor
    · intro hMark
      apply hSplit [] entry.1 xs
      rw [← hMark]
      rfl
    · apply ih
      intro past input more hxs
      apply hSplit (entry :: past) input more
      rw [hxs]
      rfl

----
-- Rules
----

/- What every step keeps holds after the run. -/
theorem invariant (Inv : State → Prop)
    (hStep : ∀ s input, Inv s → Inv (step s input).1) (hStart : Inv s)
    (marked : List (Input × Bool)) : Inv (after (stepMarked step) s marked) := by
  induction marked generalizing s with
  | nil => exact hStart
  | cons entry xs ih => exact ih (hStep s entry.1 hStart)

theorem outputs_eq (related : State → State → Prop)
    (hStep : ∀ left right input, related left right → (step left input).2 = (step right input).2 ∧
      related (step left input).1 (step right input).1) {inserted : Input → Prop}
    (hInsert : ∀ left right input, related left right → inserted input →
      cond left input → related (step left input).1 right) {left right : State}
    (hInserted : ∀ entry ∈ marked, entry.2 = true → inserted entry.1)
    (hMeet : Meet step cond left marked) (hStart : related left right) :
    keptOutputs step listed left marked = outputs step listed right (kept marked) := by
  induction marked generalizing left right with
  | nil => rfl
  | cons entry xs ih =>
    rcases entry with ⟨input, mark⟩
    have hxs : ∀ entry ∈ xs, entry.2 = true → inserted entry.1 := fun entry hRow =>
        hInserted entry (mem_cons_of_mem _ hRow)
    cases mark with
    | true =>
      have hHere := hInserted _ mem_cons_self rfl
      exact ih hxs hMeet.2 (hInsert left right input hStart hHere (hMeet.1 rfl))
    | false =>
      rcases hStep left right input hStart with ⟨hAnswer, hNext⟩
      have hTail := ih hxs hMeet.2 hNext
      change (if listed input then
          (step left input).2 :: keptOutputs step listed (step left input).1 xs
        else
          keptOutputs step listed (step left input).1 xs) =
        (if listed input then
          (step right input).2 :: outputs step listed (step right input).1 (kept xs)
        else
          outputs step listed (step right input).1 (kept xs))
      rw [hTail, hAnswer]

end Insertion
