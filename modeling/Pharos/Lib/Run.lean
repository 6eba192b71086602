import Mathlib.Data.List.Basic
import Mathlib.Logic.Function.Iterate

/-
  This file implements runs of a machine whose actions can be refused. A refused action leaves the
  state as it was; an action that is not refused is an accepted one.
-/

----
-- Runs
----

namespace Run

open List

variable {State Action Error : Type}

variable (step : State → Action → Except Error State)

def next (state : State) (action : Action) : State :=
  match step state action with
  | .ok after => after
  | .error _ => state

def final (state : State) (actions : List Action) : State :=
  actions.foldl (next step) state

/- The actions that were not refused, oldest first. -/
def accepted (step : State → Action → Except Error State) : State → List Action → List Action
| _, [] => []
| state, action :: rest =>
  match step state action with
  | .ok after => action :: accepted step after rest
  | .error _ => accepted step state rest

def StepsMeet (step : State → Action → Except Error State) (condition : State → Action → Prop) :
    State → List Action → Prop
| _, [] => True
| state, action :: rest =>
  condition state action ∧ StepsMeet step condition (next step state action) rest

/- A condition that can be tested is tested step by step. -/
instance decidableStepsMeet (step : State → Action → Except Error State)
    (condition : State → Action → Prop) [∀ state action, Decidable (condition state action)] :
    ∀ state actions, Decidable (StepsMeet step condition state actions)
| _, [] => inferInstanceAs (Decidable True)
| state, action :: rest =>
  let _ := decidableStepsMeet step condition (next step state action) rest
  inferInstanceAs (Decidable (condition state action ∧
    StepsMeet step condition (next step state action) rest))

----
-- Composition
----

variable {step : State → Action → Except Error State}

@[simp] theorem final_nil (s : State) : final step s [] = s :=
  rfl

theorem final_cons (s : State) (act : Action) (xs : List Action) :
    final step s (act :: xs) = final step (next step s act) xs :=
  rfl

theorem final_append (s : State) (a b : List Action) :
    final step s (a ++ b) = final step (final step s a) b := by
  simp [final]

theorem final_replicate (s : State) (act : Action) (times : Nat) :
    final step s (replicate times act) = (fun t => next step t act)^[times] s := by
  induction times generalizing s with
  | zero => rfl
  | succ times ih => exact ih (next step s act)

variable {cond : State → Action → Prop} {s : State}

theorem stepsMeet_append {a b : List Action} :
    StepsMeet step cond s (a ++ b) ↔ StepsMeet step cond s a ∧
      StepsMeet step cond (final step s a) b := by
  induction a generalizing s with
  | nil => simp [StepsMeet]
  | cons act xs ih =>
    simp only [cons_append, StepsMeet, ih, and_assoc]
    rfl

variable {acts : List Action}

/- A condition that is met wherever a run is cut. -/
theorem stepsMeet_of_forall_split (hSplit : ∀ past act xs,
      acts = past ++ act :: xs → cond (final step s past) act) :
    StepsMeet step cond s acts := by
  induction acts generalizing s with
  | nil => trivial
  | cons a xs ih =>
    refine ⟨hSplit [] a xs rfl, ih ?_⟩
    intro past act more hxs
    apply hSplit (a :: past) act more
    rw [hxs]
    rfl

theorem stepsMeet_of_forall_mem {cond : Action → Prop}
    (hActions : ∀ act ∈ acts, cond act) :
    StepsMeet step (fun _ => cond) s acts := by
  induction acts generalizing s with
  | nil => trivial
  | cons a xs ih =>
    refine ⟨hActions a mem_cons_self, ih ?_⟩
    intro act hAction
    exact hActions act (mem_cons_of_mem _ hAction)

theorem history_invariant (Inv : State → List Action → Prop) (past : List Action)
    (hKeep : ∀ s₁ past act s', act ∈ acts → Inv s₁ past → cond s₁ act →
      step s₁ act = .ok s' → Inv s' (past ++ [act]))
    (hMeet : StepsMeet step cond s acts) (hStart : Inv s past) :
    Inv (final step s acts) (past ++ accepted step s acts) := by
  induction acts generalizing s past with
  | nil => simpa [accepted] using hStart
  | cons act xs ih =>
    rcases hMeet with ⟨hHere, hxs⟩
    have hLater s₁ past x s' (hx : x ∈ xs) := hKeep s₁ past x s' (mem_cons_of_mem act hx)
    cases hStep : step s act with
    | ok s' =>
      have hNext := hKeep s past act s' mem_cons_self hStart hHere hStep
      simp only [next, hStep] at hxs
      simpa [accepted, final, next, hStep] using ih _ hLater hxs hNext
    | error e =>
      simp only [next, hStep] at hxs
      simpa [accepted, final, next, hStep] using ih _ hLater hxs hStart

theorem history_of_step (Inv : State → List Action → Prop)
    (hKeep : ∀ s₁ past act s', act ∈ acts → Inv s₁ past → step s₁ act = .ok s' →
      Inv s' (past ++ [act])) (hStart : Inv s []) :
    Inv (final step s acts) (accepted step s acts) := by
  have hMeet : StepsMeet step (fun _ act => act ∈ acts) s acts :=
    stepsMeet_of_forall_mem fun _ hIn => hIn
  exact history_invariant Inv [] (fun s₁ past act s' hIn hPre _ => hKeep s₁ past act s' hIn hPre)
    hMeet hStart

theorem invariant (Inv : State → Prop)
    (hKeep : ∀ s₁ act s', act ∈ acts → Inv s₁ → cond s₁ act →
      step s₁ act = .ok s' → Inv s') (hMeet : StepsMeet step cond s acts)
    (hStart : Inv s) : Inv (final step s acts) :=
  history_invariant (fun s₁ _ => Inv s₁) [] (fun s₁ _ => hKeep s₁) hMeet hStart

theorem invariant_of_step (Inv : State → Prop)
    (hKeep : ∀ s₁ act s', act ∈ acts → Inv s₁ → step s₁ act = .ok s' → Inv s')
    (hStart : Inv s) : Inv (final step s acts) :=
  history_of_step (fun s₁ _ => Inv s₁) (fun s₁ _ => hKeep s₁) hStart

end Run
