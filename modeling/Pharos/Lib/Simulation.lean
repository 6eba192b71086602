import Mathlib.Data.List.Forall2
import Pharos.Lib.Run

/-
  This file implements simulations between two machines whose actions can be refused. The machines
  may be given different actions, as long as these are refused alike.
-/

----
-- Results
----

namespace Simulation

open List

section

variable {Abstract Concrete Error : Type}

/- Results that are related, or the same refusal. -/
inductive Meets (holds : Abstract → Concrete → Prop) :
    Except Error Abstract → Except Error Concrete → Prop where
  | error (error : Error) : Meets holds (.error error) (.error error)
  | ok {abstract : Abstract} {concrete : Concrete} (hHolds : holds abstract concrete) :
      Meets holds (.ok abstract) (.ok concrete)

/- A check that both make, before they go on. -/
theorem Meets.ite_error {holds : Abstract → Concrete → Prop} {cond : Prop}
    [Decidable cond] {error : Error} {abstract : Except Error Abstract}
    {concrete : Except Error Concrete} (hNext : ¬ cond → Meets holds abstract concrete) :
    Meets holds (if cond then .error error else abstract)
      (if cond then .error error else concrete) := by
  by_cases hCond : cond
  · rw [if_pos hCond, if_pos hCond]
    exact .error error
  · rw [if_neg hCond, if_neg hCond]
    exact hNext hCond

theorem Meets.map {Abstract' Concrete' : Type} {holds : Abstract → Concrete → Prop}
    {holds' : Abstract' → Concrete' → Prop} {abstract : Except Error Abstract}
    {concrete : Except Error Concrete} {mapAbstract : Abstract → Abstract'}
    {mapConcrete : Concrete → Concrete'} (hMeets : Meets holds abstract concrete)
    (hMap : ∀ {a c}, holds a c → holds' (mapAbstract a) (mapConcrete c)) :
    Meets holds' (abstract.map mapAbstract) (concrete.map mapConcrete) := by
  cases hMeets with
  | error error => exact .error error
  | ok hHolds => exact .ok (hMap hHolds)

end

----
-- Tables
----

section

variable {Abstract Concrete : Type} {holds : Abstract → Concrete → Prop}
variable {as : List Abstract} {cs : List Concrete}

variable (hAll : List.Forall₂ holds as cs)
include hAll

theorem getElem?_related (i : Nat) : Option.Rel holds as[i]? cs[i]? := by
  induction hAll generalizing i with
  | nil => exact .none
  | cons hFst _ ih =>
    cases i with
    | zero => exact .some hFst
    | succ i => exact ih i

variable {c : Concrete}

theorem concat_related {a : Abstract} (hLast : holds a c) :
    List.Forall₂ holds (as ++ [a]) (cs ++ [c]) :=
  rel_append hAll (.cons hLast .nil)

theorem set_related {a : Abstract} (hNew : holds a c) (i : Nat) :
    List.Forall₂ holds (as.set i a) (cs.set i c) := by
  induction hAll generalizing i with
  | nil => exact .nil
  | cons hFst hxs ih =>
    cases i with
    | zero => exact .cons hNew hxs
    | succ i => exact .cons hFst (ih i)

theorem exists_related (hMem : c ∈ cs) : ∃ a, holds a c := by
  induction hAll with
  | nil => nomatch hMem
  | cons hFst _ ih =>
    rcases mem_cons.mp hMem with rfl | hxs
    · exact ⟨_, hFst⟩
    · exact ih hxs

theorem both_related {ys : List Concrete}
    (hOthers : List.Forall₂ holds as ys) :
    List.Forall₂
      (fun concrete x =>
        ∃ abstract, holds abstract concrete ∧ holds abstract x) cs ys := by
  induction hAll generalizing ys with
  | nil =>
    cases hOthers
    exact .nil
  | cons hFst _ ih =>
    cases hOthers with
    | cons hx hxs => exact .cons ⟨_, hFst, hx⟩ (ih hxs)

omit hAll

end

----
-- Runs
----

section

variable {State Abstract Concrete Action Other Error : Type}

def outcomes (step : State → Action → Except Error State) :
    State → List Action → List (Except Error Unit)
| _, [] => []
| state, action :: rest =>
  (step state action).map (fun _ => ()) :: outcomes step (Run.next step state action) rest

variable {holds : Abstract → Concrete → Prop}
variable {abstractStep : Abstract → Action → Except Error Abstract}
variable {concreteStep : Concrete → Other → Except Error Concrete}
variable {translate : Other → Action} {abstract : Abstract} {concrete : Concrete}

theorem next_related {act : Other} (hHolds : holds abstract concrete)
    (hStep : Meets holds (abstractStep abstract (translate act)) (concreteStep concrete act)) :
    holds (Run.next abstractStep abstract (translate act))
      (Run.next concreteStep concrete act) := by
  unfold Run.next
  generalize abstractStep abstract (translate act) = a at hStep
  generalize concreteStep concrete act = c at hStep
  cases hStep with
  | error error => exact hHolds
  | ok hPost => exact hPost

variable
  (hSim : ∀ {abstract concrete}, holds abstract concrete → ∀ act,
    Meets holds (abstractStep abstract (translate act)) (concreteStep concrete act))

include hSim

theorem outcomes_eq (hHolds : holds abstract concrete) (acts : List Other) :
    outcomes concreteStep concrete acts = outcomes abstractStep abstract (acts.map translate) := by
  induction acts generalizing abstract concrete with
  | nil => rfl
  | cons act xs ih =>
    have hStep := hSim hHolds act
    rw [map_cons, outcomes, outcomes, ih (next_related hHolds hStep)]
    congr 1
    generalize abstractStep abstract (translate act) = a at hStep
    generalize concreteStep concrete act = c at hStep
    cases hStep <;> rfl

theorem final_related (hHolds : holds abstract concrete) (acts : List Other) :
    holds (Run.final abstractStep abstract (acts.map translate))
      (Run.final concreteStep concrete acts) := by
  induction acts generalizing abstract concrete with
  | nil => exact hHolds
  | cons act xs ih => exact ih (next_related hHolds (hSim hHolds act))

end

variable {State Action Error : Type} {step : State → Action → Except Error State}
variable {translate : Action → Action}
variable (hEq : ∀ s act, step s (translate act) = step s act)

include hEq

theorem next_translate (s : State) (act : Action) :
    Run.next step s (translate act) = Run.next step s act := by
  simp only [Run.next, hEq]

theorem final_map_eq (s : State) (acts : List Action) :
    Run.final step s (acts.map translate) = Run.final step s acts := by
  induction acts generalizing s with
  | nil => rfl
  | cons act xs ih =>
    rw [map_cons, Run.final_cons, Run.final_cons, next_translate hEq, ih]

theorem outcomes_map_eq (s : State) (acts : List Action) :
    outcomes step s (acts.map translate) = outcomes step s acts := by
  induction acts generalizing s with
  | nil => rfl
  | cons act xs ih => rw [map_cons, outcomes, outcomes, next_translate hEq, ih, hEq]

end Simulation
