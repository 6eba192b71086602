import Mathlib.Data.List.Basic

/-
  This file implements programs that check something step by step. Such a program reads and writes a
  state, logs events, and may stop early with a verdict.
-/

----
-- Programs
----

/- What a program leaves behind. -/
structure Checks.Answer (State Event Verdict Value : Type) where
  outcome : Except Verdict Value
  state : State
  log : List Event

def Checks (State Event Verdict Value : Type) :=
  State → Checks.Answer State Event Verdict Value

namespace Checks

variable {State Event Verdict Value Other : Type}

/- Run the rest of a program, unless it has stopped. -/
def andThen (first : Checks State Event Verdict Value)
    (rest : Value → Checks State Event Verdict Other) : Checks State Event Verdict Other :=
  fun state =>
    match (first state).outcome with
    | .ok value =>
      let last := rest value (first state).state
      ⟨last.outcome, last.state, (first state).log ++ last.log⟩
    | .error verdict => ⟨.error verdict, (first state).state, (first state).log⟩

instance : Monad (Checks State Event Verdict) where
  pure value := fun state => ⟨.ok value, state, []⟩
  bind := andThen

def asks (read : State → Value) : Checks State Event Verdict Value :=
  fun state => ⟨.ok (read state), state, []⟩

def modify (write : State → State) : Checks State Event Verdict Unit :=
  fun state => ⟨.ok (), write state, []⟩

def note (event : Event) : Checks State Event Verdict Unit :=
  fun state => ⟨.ok (), state, [event]⟩

def stop (verdict : Verdict) : Checks State Event Verdict Value :=
  fun state => ⟨.error verdict, state, []⟩

def stopIf (bad : Bool) (verdict : Verdict) : Checks State Event Verdict Unit :=
  if bad then stop verdict else pure ()

def orStop (value : Option Value) (verdict : Verdict) : Checks State Event Verdict Value :=
  match value with
  | some value => pure value
  | none => stop verdict

def attempt (program : Checks State Event Verdict Value) :
    Checks State Event Verdict (Option Value) :=
  fun state =>
    let answer := program state
    ⟨.ok answer.outcome.toOption, answer.state, answer.log⟩

def attemptEach {Item : Type} (program : Item → Checks State Event Verdict Value) :
    List Item → Checks State Event Verdict (List Value)
| [] => pure []
| item :: rest => do
    let value ← attempt (program item)
    let values ← attemptEach program rest
    pure (value.toList ++ values)

end Checks

----
-- Equations
----

namespace Checks

section

variable {State Event Verdict Value Other : Type} {a : Checks State Event Verdict Value}
variable {xs : Value → Checks State Event Verdict Other} {s : State}

theorem bind_of_ok {v : Value} (hOk : (a s).outcome = .ok v) :
    (a >>= xs) s =
      ⟨(xs v (a s).state).outcome, (xs v (a s).state).state,
        (a s).log ++ (xs v (a s).state).log⟩ := by
  change andThen a xs s = _
  unfold andThen
  rw [hOk]

variable {verdict : Verdict}

theorem bind_of_error (hErr : (a s).outcome = .error verdict) :
    (a >>= xs) s = ⟨.error verdict, (a s).state, (a s).log⟩ := by
  change andThen a xs s = _
  unfold andThen
  rw [hErr]

variable {event : Event}

theorem mem_log_bind (hLogged : event ∈ (a s).log) : event ∈ ((a >>= xs) s).log := by
  cases hOutcome : (a s).outcome with
  | ok v =>
    rw [bind_of_ok hOutcome]
    exact List.mem_append_left _ hLogged
  | error verdict =>
    rw [bind_of_error hOutcome]
    exact hLogged

theorem state_attempt (program : Checks State Event Verdict Value) (s : State) :
    (attempt program s).state = (program s).state :=
  rfl

@[simp] theorem asks_bind (read : State → Value) (xs : Value → Checks State Event Verdict Other)
    (s : State) : (asks read >>= xs) s = xs (read s) s := by
  rfl

@[simp] theorem modify_bind (write : State → State) (xs : Unit → Checks State Event Verdict Other)
    (s : State) : (modify write >>= xs) s = xs () (write s) := by
  rfl

@[simp] theorem note_bind (event : Event) (xs : Unit → Checks State Event Verdict Other)
    (s : State) :
    (note event >>= xs) s = ⟨(xs () s).outcome, (xs () s).state, event :: (xs () s).log⟩ := by
  rfl

@[simp] theorem orStop_some_bind (v : Value) (verdict : Verdict)
    (xs : Value → Checks State Event Verdict Other) (s : State) :
    (orStop (some v) verdict >>= xs) s = xs v s :=
  rfl

variable {bad : Bool}

theorem stopIf_bind_of_true (hBad : bad = true) (verdict : Verdict)
    (xs : Unit → Checks State Event Verdict Other) (s : State) :
    (stopIf bad verdict >>= xs) s = ⟨.error verdict, s, []⟩ := by
  rw [hBad]
  rfl

theorem stopIf_bind_of_false (hGood : bad = false) (verdict : Verdict)
    (xs : Unit → Checks State Event Verdict Other) (s : State) :
    (stopIf bad verdict >>= xs) s = xs () s := by
  rw [hGood]
  rfl

/- A check that passes under a condition, and stops in some state otherwise. -/
def Gate (passes : Prop) (check : Checks State Event Verdict Unit) (state failed : State) : Prop :=
  passes ∧ check state = ⟨.ok (), state, []⟩ ∨
    ¬passes ∧ ∃ verdict, check state = ⟨.error verdict, failed, []⟩

theorem gate_stopIf {s : State} :
    Gate (bad = false) (stopIf bad verdict : Checks State Event Verdict Unit) s s := by
  cases bad with
  | false => exact .inl ⟨rfl, rfl⟩
  | true => exact .inr ⟨nofun, verdict, rfl⟩

theorem Gate.bind {p q : Prop} {a b : Checks State Event Verdict Unit} {failed : State}
    (hFst : Gate p a s failed) (hSnd : Gate q b s failed) :
    Gate (p ∧ q) (a >>= fun _ => b) s failed := by
  rcases hFst with ⟨hp, hOk⟩ | ⟨hNot, verdict, hErr⟩
  · have hBind : (a >>= fun _ => b) s = b s := by
      rw [bind_of_ok (congrArg Answer.outcome hOk), hOk]
      rfl
    unfold Gate at hSnd ⊢
    rw [hBind]
    simpa [hp] using hSnd
  · refine .inr ⟨fun hBoth => hNot hBoth.1, verdict, ?_⟩
    rw [bind_of_error (congrArg Answer.outcome hErr), hErr]

----
-- Soundness
----

def Sound (related : State → State → Prop) (allowed : Event → Prop)
    (program : Checks State Event Verdict Value) : Prop :=
  ∀ left right,
    related left right →
      (program left).outcome = (program right).outcome ∧
        related (program left).state (program right).state ∧
        ∀ event ∈ (program left).log, allowed event

variable {related : State → State → Prop} {allowed : Event → Prop}

theorem sound_pure (v : Value) :
    Sound related allowed (pure v : Checks State Event Verdict Value) := by
  intro left right hRelated
  exact ⟨rfl, hRelated, List.forall_mem_nil _⟩

theorem sound_stop (verdict : Verdict) :
    Sound related allowed (stop verdict : Checks State Event Verdict Value) := by
  intro left right hRelated
  exact ⟨rfl, hRelated, List.forall_mem_nil _⟩

theorem sound_note (hAllowed : allowed event) :
    Sound related allowed (note event : Checks State Event Verdict Unit) := by
  intro left right hRelated
  refine ⟨rfl, hRelated, ?_⟩
  intro x hx
  rw [List.mem_singleton.mp hx]
  exact hAllowed

theorem sound_modify {write : State → State}
    (hWrite : ∀ left right, related left right → related (write left) (write right)) :
    Sound related allowed (modify write : Checks State Event Verdict Unit) := by
  intro left right hRelated
  exact ⟨rfl, hWrite left right hRelated, List.forall_mem_nil _⟩

variable {read : State → Value}

theorem sound_asks (hRead : ∀ left right, related left right → read left = read right) :
    Sound related allowed (asks read : Checks State Event Verdict Value) := by
  intro left right hRelated
  exact ⟨congrArg Except.ok (hRead left right hRelated), hRelated, List.forall_mem_nil _⟩

theorem sound_bind (hFst : Sound related allowed a)
    (hxs : ∀ v, Sound related allowed (xs v)) :
    Sound related allowed (a >>= xs) := by
  intro left right hRelated
  rcases hFst left right hRelated with ⟨hOutcome, hStates, hLog⟩
  cases hLeft : (a left).outcome with
  | ok v =>
    have hRight := hOutcome.symm.trans hLeft
    rcases hxs v _ _ hStates with ⟨hLastOutcome, hLastStates, hLastLog⟩
    rw [bind_of_ok hLeft, bind_of_ok hRight]
    refine ⟨hLastOutcome, hLastStates, ?_⟩
    intro event hEvent
    rcases List.mem_append.mp hEvent with hOld | hNew
    · exact hLog event hOld
    · exact hLastLog event hNew
  | error verdict =>
    have hRight := hOutcome.symm.trans hLeft
    rw [bind_of_error hLeft, bind_of_error hRight]
    exact ⟨rfl, hStates, hLog⟩

theorem sound_stopIf (bad : Bool) (verdict : Verdict) :
    Sound related allowed (stopIf bad verdict : Checks State Event Verdict Unit) := by
  cases bad with
  | true => exact sound_stop verdict
  | false => exact sound_pure ()

theorem sound_stopIf_bind {xs : Unit → Checks State Event Verdict Other}
    (hxs : bad = false → Sound related allowed (xs ())) :
    Sound related allowed (stopIf bad verdict >>= xs) := by
  cases bad with
  | true => exact sound_stop verdict
  | false => exact hxs rfl

theorem sound_check {xs : Unit → Checks State Event Verdict Other}
    (hxs : Sound related allowed (xs ())) :
    Sound related allowed (stopIf bad verdict >>= xs) :=
  sound_stopIf_bind fun _ => hxs

theorem sound_orStop_bind {v : Option Value}
    (hxs : ∀ y, Sound related allowed (xs y)) :
    Sound related allowed (orStop v verdict >>= xs) := by
  cases v with
  | none => exact sound_stop verdict
  | some y => exact hxs y

theorem sound_bind_orStop {found : Checks State Event Verdict (Option Value)}
    (hFound : Sound related allowed found) (hxs : ∀ y, Sound related allowed (xs y)) :
    Sound related allowed (found >>= fun v => orStop v verdict >>= xs) :=
  sound_bind hFound fun _ => sound_orStop_bind hxs

theorem sound_asks_known_bind {known : Value}
    (hRead : ∀ left right, related left right → read left = known ∧ read right = known)
    (hxs : Sound related allowed (xs known)) : Sound related allowed (asks read >>= xs) := by
  intro left right hRelated
  rcases hRead left right hRelated with ⟨hLeft, hRight⟩
  rw [asks_bind, asks_bind, hLeft, hRight]
  exact hxs left right hRelated

end

----
-- Logs
----

variable {State Event Verdict Value Other Item : Type}

/- A property of logs that are put together from parts. -/
structure Additive (good : List Event → Prop) : Prop where
  nil : good []
  append : ∀ first second, good first → good second → good (first ++ second)

def Leaves (good : List Event → Prop) (program : Checks State Event Verdict Value) : Prop :=
  ∀ state, good (program state).log

variable {good : List Event → Prop} {xs : Value → Checks State Event Verdict Other}

theorem leaves_note {event : Event} (hEvent : good [event]) :
    Leaves good (note event : Checks State Event Verdict Unit) :=
  fun _ => hEvent

theorem leaves_asks_bind {read : State → Value} (hxs : ∀ v, Leaves good (xs v)) :
    Leaves good (asks read >>= xs) := by
  intro s
  exact hxs _ s

theorem leaves_modify_bind {write : State → State}
    {xs : Unit → Checks State Event Verdict Other} (hxs : Leaves good (xs ())) :
    Leaves good (modify write >>= xs) := by
  intro s
  exact hxs _

theorem leaves_attempt {program : Checks State Event Verdict Value}
    (hProgram : Leaves good program) : Leaves good (attempt program) :=
  hProgram

variable [hGood : Fact (Additive good)]

theorem leaves_pure (v : Value) : Leaves good (pure v : Checks State Event Verdict Value) :=
  fun _ => hGood.out.nil

theorem leaves_stop (verdict : Verdict) :
    Leaves good (stop verdict : Checks State Event Verdict Value) :=
  fun _ => hGood.out.nil

theorem leaves_bind {a : Checks State Event Verdict Value}
    (hFst : Leaves good a) (hxs : ∀ v, Leaves good (xs v)) :
    Leaves good (a >>= xs) := by
  intro s
  cases hOutcome : (a s).outcome with
  | ok v =>
    rw [bind_of_ok hOutcome]
    exact hGood.out.append _ _ (hFst s) (hxs v _)
  | error verdict =>
    rw [bind_of_error hOutcome]
    exact hFst s

theorem leaves_stopIf_bind {bad : Bool} {verdict : Verdict}
    {xs : Unit → Checks State Event Verdict Other} (hxs : Leaves good (xs ())) :
    Leaves good (stopIf bad verdict >>= xs) := by
  cases bad with
  | true => exact leaves_stop verdict
  | false => exact hxs

theorem leaves_orStop_bind {v : Option Value} {verdict : Verdict}
    (hxs : ∀ y, Leaves good (xs y)) : Leaves good (orStop v verdict >>= xs) := by
  cases v with
  | none => exact leaves_stop verdict
  | some y => exact hxs y

theorem leaves_attemptEach {program : Item → Checks State Event Verdict Value}
    (hProgram : ∀ item, Leaves good (program item)) (ys : List Item) :
    Leaves good (attemptEach program ys) := by
  induction ys with
  | nil => exact leaves_pure []
  | cons item xs ih =>
    refine leaves_bind (leaves_attempt (hProgram item)) fun _ => ?_
    refine leaves_bind ih fun _ => ?_
    exact leaves_pure _

end Checks
