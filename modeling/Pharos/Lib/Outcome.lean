import Mathlib.Algebra.Order.Ring.Nat
import Mathlib.Data.List.Forall2

/-
  This file implements programs that go on only as long as their checks pass, and reads off when
  they have a result.

  A run of such programs over a list can be followed by a ledger, which knows enough of the past to
  tell whether the next one passes.
-/

----
-- Checks
----

namespace Outcome

open List

section

variable {Error Value Result : Type}

def require (condition : Prop) [Decidable condition] (error : Error) : Except Error Unit :=
  if condition then .ok () else .error error

def okOr (value : Option Value) (error : Error) : Except Error Value :=
  match value with
  | some value => .ok value
  | none => .error error

variable {a : Except Error Value} {res : Result}

theorem bind_ok_iff {next : Value → Except Error Result} :
    (a >>= next) = .ok res ↔ ∃ v, a = .ok v ∧ next v = .ok res := by
  cases a with
  | error error | ok v => simp [bind, Except.bind]

theorem map_ok_iff {map : Value → Result} : a.map map = .ok res ↔ ∃ v, a = .ok v ∧ map v = res := by
  cases a with
  | error error | ok v => simp [Except.map]

variable {error : Error}

/- A failing branch is not the one that returned. -/
theorem ite_error_ok_iff {cond : Prop} [Decidable cond] {next : Except Error Result} :
    (if cond then .error error else next) = .ok res ↔ ¬ cond ∧ next = .ok res := by
  by_cases hCond : cond
  · simp [hCond]
  · simp [hCond]

theorem ite_ok_ok_iff {cond : Prop} [Decidable cond] {v res : Value} :
    (if cond then .ok v else .error error) = Except.ok res ↔ cond ∧ v = res := by
  by_cases hCond : cond
  · simp [hCond]
  · simp [hCond]

theorem mapM_ok_iff {step : Value → Except Error Result} {vs : List Value}
    {results : List Result} :
    vs.mapM step = .ok results ↔ List.Forall₂ (fun v res => step v = .ok res) vs results := by
  induction vs generalizing results with
  | nil =>
    simp [pure, Except.pure, eq_comm]
  | cons v xs ih =>
    rw [mapM_cons, bind_ok_iff, forall₂_cons_left_iff]
    simp only [bind_ok_iff, ih]
    constructor
    · rintro ⟨a, hFst, ys, hOthers, hAll⟩
      exact ⟨a, ys, hFst, hOthers, (Except.ok.inj hAll).symm⟩
    · rintro ⟨a, ys, hFst, hOthers, rfl⟩
      exact ⟨a, hFst, ys, hOthers, rfl⟩

theorem mapM_eq_some {step : Value → Option Result} {vs : List Value} (res : Value → Result)
    (hValues : ∀ v ∈ vs, step v = some (res v)) :
    vs.mapM step = some (vs.map res) := by
  induction vs with
  | nil => rfl
  | cons a xs ih =>
    rw [forall_mem_cons] at hValues
    rw [mapM_cons, hValues.1, ih hValues.2]
    rfl

theorem okOr_ok_iff {v : Option Value} {res : Value} : okOr v error = .ok res ↔ v = some res := by
  cases v with
  | none | some v => simp [okOr]

theorem okOr_bind_ok_iff {v : Option Value} {next : Value → Except Error Result} :
    (okOr v error >>= next) = .ok res ↔ ∃ y, v = some y ∧ next y = .ok res := by
  rw [bind_ok_iff]
  simp only [okOr_ok_iff]

theorem mapError_ok_iff {Other : Type} {translate : Error → Other} {res : Value} :
    a.mapError translate = .ok res ↔ a = .ok res := by
  cases a with
  | error error | ok v => simp [Except.mapError]

end

----
-- Errors
----

section

variable {Error Other Value Result State Action : Type} {allowed : Error → Prop}

def FailsOnly (allowed : Error → Prop) (program : Except Error Value) : Prop :=
  ∀ error, program = .error error → allowed error

theorem failsOnly_ok (v : Value) : FailsOnly allowed (.ok v) := by
  intro error hErr
  cases hErr

theorem failsOnly_error {error : Error} (hAllowed : allowed error) :
    FailsOnly allowed (.error error : Except Error Value) := by
  intro x hx
  rw [← Except.error.inj hx]
  exact hAllowed

theorem failsOnly_bind {a : Except Error Value} {next : Value → Except Error Result}
    (hFst : FailsOnly allowed a)
    (hNext : ∀ v, a = .ok v → FailsOnly allowed (next v)) :
    FailsOnly allowed (a >>= next) := by
  intro error hErr
  cases a with
  | error cause =>
    rw [← Except.error.inj hErr]
    exact hFst cause rfl
  | ok v => exact hNext v rfl error hErr

theorem failsOnly_bind_ok {a : Except Error Value} {f : Value → Result}
    (hFst : FailsOnly allowed a) : FailsOnly allowed (a >>= fun v => .ok (f v)) :=
  failsOnly_bind hFst fun _ _ => failsOnly_ok _

theorem failsOnly_mapError {program : Except Other Value} {translate : Other → Error}
    (hProgram : FailsOnly (fun error => allowed (translate error)) program) :
    FailsOnly allowed (program.mapError translate) := by
  cases program with
  | error error => exact failsOnly_error (hProgram error rfl)
  | ok v => exact failsOnly_ok v

def loop (step : State → Action → Except Error (Bool × State)) :
    State → List Action → Except Error State
| state, [] => .ok state
| state, action :: rest => do
    let (goesOn, next) ← step state action
    if goesOn then loop step next rest else .ok next

variable {step : State → Action → Except Error (Bool × State)}

theorem loop_cons_eq_ok {act : Action} {xs : List Action} {s s' : State}
    (hOk : loop step s (act :: xs) = .ok s') :
    step s act = .ok (false, s') ∨
      ∃ next, step s act = .ok (true, next) ∧ loop step next xs = .ok s' := by
  rcases bind_ok_iff.mp hOk with ⟨⟨goesOn, next⟩, hStep, hxs⟩
  cases goesOn with
  | false =>
    rw [hStep, Except.ok.inj hxs]
    exact .inl rfl
  | true => exact .inr ⟨next, hStep, hxs⟩

theorem invariant_loop (holds : State → Prop) (hStep : ∀ {s act goesOn s'}, holds s →
      step s act = .ok (goesOn, s') → holds s') {acts : List Action}
    {s s' : State} (hStart : holds s) (hOk : loop step s acts = .ok s') :
    holds s' := by
  induction acts generalizing s with
  | nil =>
    cases hOk
    exact hStart
  | cons act xs ih =>
    rcases loop_cons_eq_ok hOk with hLast | ⟨next, hNext, hxs⟩
    · exact hStep hStart hLast
    · exact ih (hStep hStart hNext) hxs

theorem loop_map {View : Type} {x : View → Action → Except Error (Bool × View)}
    (view : State → View) (holds : State → Prop)
    (hStep : ∀ {s act goesOn s'}, holds s → step s act = .ok (goesOn, s') → holds s')
    (hEq : ∀ {s} act, holds s → (step s act).map (Prod.map id view) = x (view s) act) {s : State}
    (hStart : holds s) (acts : List Action) :
    (loop step s acts).map view = loop x (view s) acts := by
  induction acts generalizing s with
  | nil => rfl
  | cons act xs ih =>
    rw [loop, loop, ← hEq act hStart]
    cases hResult : step s act with
    | error error => rfl
    | ok res =>
      rcases res with ⟨goesOn, next⟩
      cases goesOn with
      | false => rfl
      | true => exact ih (hStep hStart hResult)

theorem invariant_foldlM {step : State → Action → Except Error State} (holds : State → Prop)
    (hStep : ∀ {s act s'}, holds s → step s act = .ok s' → holds s')
    {acts : List Action} {s s' : State} (hStart : holds s)
    (hOk : acts.foldlM step s = .ok s') : holds s' := by
  induction acts generalizing s with
  | nil =>
    cases hOk
    exact hStart
  | cons act xs ih =>
    rw [foldlM_cons, bind_ok_iff] at hOk
    rcases hOk with ⟨next, hNext, hxs⟩
    exact ih (hStep hStart hNext) hxs

end

----
-- Repetition
----

variable {State Error Result : Type}

/- Two continuations that agree on what is returned. -/
theorem bind_congr_of_ok {a : Except Error State} {next next' : State → Except Error Result}
    (hNext : ∀ v, a = .ok v → next v = next' v) :
    (a >>= next) = (a >>= next') := by
  cases a with
  | error error => rfl
  | ok v => exact hNext v rfl

/- A step taken a number of times, up to the first failure. -/
def repeated (step : State → Except Error State) : Nat → State → Except Error State
| 0, state => .ok state
| count + 1, state => do
    let next ← step state
    repeated step count next

variable {step : State → Except Error State}

theorem repeated_add (a b : Nat) (s : State) : repeated step (a + b) s =
      (repeated step a s >>= repeated step b) := by
  induction a generalizing s with
  | zero =>
    rw [zero_add]
    rfl
  | succ a ih =>
    rw [Nat.succ_add, repeated, repeated, bind_assoc]
    apply bind_congr
    intro next
    exact ih next

theorem repeated_one (s : State) : repeated step 1 s = step s := by
  exact bind_pure (step s)

theorem repeated_succeeds (hStep : ∀ s, ∃ s', step s = .ok s') (n : Nat)
    (s : State) : ∃ s', repeated step n s = .ok s' := by
  induction n generalizing s with
  | zero => exact ⟨s, rfl⟩
  | succ n ih =>
    rcases hStep s with ⟨next, hNext⟩
    rcases ih next with ⟨s', hPost⟩
    exact ⟨s', bind_ok_iff.mpr ⟨next, hNext, hPost⟩⟩

theorem repeated_invariant (holds : Nat → State → Prop) (hStep :
      ∀ {n s s'}, holds n s → step s = .ok s' → holds (n + 1) s')
    {s₀ n : Nat} {s s' : State} (hStart : holds s₀ s)
    (hOk : repeated step n s = .ok s') : holds (s₀ + n) s' := by
  induction n generalizing s₀ s with
  | zero =>
    cases hOk
    exact hStart
  | succ n ih =>
    rcases bind_ok_iff.mp hOk with ⟨next, hNext, hxs⟩
    have hPost := ih (hStep hStart hNext) hxs
    rwa [add_assoc, add_comm 1] at hPost

theorem repeated_congr {x : State → Except Error State} (holds : Nat → State → Prop)
    {last : Nat}
    (hStep : ∀ {n s s'}, holds n s → step s = .ok s' → holds (n + 1) s')
    (hEq : ∀ {n s}, n < last → holds n s → step s = x s)
    {s₀ n : Nat} {s : State} (hStart : holds s₀ s)
    (hLast : s₀ + n ≤ last) : repeated step n s = repeated x n s := by
  induction n generalizing s₀ s with
  | zero => rfl
  | succ n ih =>
    have hHere : s₀ < last := by omega
    rw [repeated, repeated, ← hEq hHere hStart]
    apply bind_congr_of_ok
    intro next hNext
    apply ih (hStep hStart hNext)
    omega

end Outcome
