import Mathlib.Data.List.Basic
import Mathlib.Logic.Function.Iterate

/-
  This file implements tasks that take turns on a shared state. A task goes from one of its atomic
  sections to the next when it is resumed, and any task can be resumed next.

  Each task has an assertion about the shared state, and two tasks can be required to be apart. Both
  stay true if the sections of a task do not interfere with its peers.
-/

----
-- Tasks
----

namespace Interleaving

open List

/- A shared state, and the tasks in the order they began. -/
structure Config (Shared Task : Type) where
  shared : Shared
  tasks : List Task

variable {Shared Task : Type}

def start (config : Config Shared Task) (task : Task) : Config Shared Task :=
  { config with tasks := config.tasks ++ [task] }

/- A task goes through its next section. -/
def resume (turn : Shared → Task → Shared × Task) (config : Config Shared Task) (index : Nat) :
    Config Shared Task :=
  match config.tasks[index]? with
  | none => config
  | some task =>
    let after := turn config.shared task
    ⟨after.1, config.tasks.set index after.2⟩

theorem resume_eq (turn : Shared → Task → Shared × Task) {cfg : Config Shared Task}
    {i : Nat} {task : Task} (hTask : cfg.tasks[i]? = some task) :
    resume turn cfg i = ⟨(turn cfg.shared task).1, cfg.tasks.set i (turn cfg.shared task).2⟩ := by
  unfold resume
  rw [hTask]

theorem iterate_resume_last (turn : Shared → Task → Shared × Task) (shared : Shared)
    (tasks : List Task) (task : Task) (turns : Nat) :
    (fun cfg => resume turn cfg tasks.length)^[turns] ⟨shared, tasks ++ [task]⟩ =
      let alone :=
        (fun pair : Shared × Task =>
          turn pair.1 pair.2)^[turns] (shared, task)
      ⟨alone.1, tasks ++ [alone.2]⟩ := by
  induction turns generalizing shared task with
  | zero => rfl
  | succ turns ih =>
    have hLast : (tasks ++ [task])[tasks.length]? = some task := by
      simp
    rw [Function.iterate_succ_apply, Function.iterate_succ_apply, resume_eq turn hLast,
      set_append_right _ _ (Nat.le_refl _), Nat.sub_self]
    exact ih _ _

----
-- Assertions
----

variable {Own : Shared → Task → Prop} {Apart : Task → Task → Prop}

/- Every task has its assertion, and any two are apart. -/
structure Asserted (Own : Shared → Task → Prop) (Apart : Task → Task → Prop)
    (config : Config Shared Task) : Prop where
  own : ∀ (index : Nat) task, config.tasks[index]? = some task → Own config.shared task
  apart : ∀ (first second : Nat) task peer, first ≠ second → config.tasks[first]? = some task →
    config.tasks[second]? = some peer → Apart task peer

namespace Asserted

variable {cfg : Config Shared Task}

section

variable (hAsserted : Asserted Own Apart cfg)
include hAsserted

theorem share {shared : Shared}
    (hShared : ∀ task ∈ cfg.tasks, Own cfg.shared task → Own shared task) :
    Asserted Own Apart { cfg with shared } where
  own i task hTask :=
    hShared task (mem_of_getElem? hTask) (hAsserted.own i task hTask)
  apart := hAsserted.apart

theorem start {task : Task} (hOwn : Own cfg.shared task)
    (hApart : ∀ p ∈ cfg.tasks, Apart task p ∧ Apart p task) :
    Asserted Own Apart (start cfg task) := by
  have hCases :
      ∀ (i : Nat) found, (cfg.tasks ++ [task])[i]? = some found → cfg.tasks[i]? =
        some found ∨ i = cfg.tasks.length ∧ found = task := by
    intro i found hGot
    rcases Nat.lt_or_ge i cfg.tasks.length with hOld | hNew
    · rw [getElem?_append_left hOld] at hGot
      exact .inl hGot
    · rw [getElem?_append_right hNew, getElem?_singleton] at hGot
      split at hGot
      · exact .inr ⟨by omega, (Option.some.inj hGot).symm⟩
      · cases hGot
  constructor
  · intro i found hGot
    rcases hCases i found hGot with hOld | ⟨_, rfl⟩
    · exact hAsserted.own i found hOld
    · exact hOwn
  · intro a b found p hDiffer hFst hSnd
    rcases hCases a found hFst with hOld | ⟨hIdx, rfl⟩
    · rcases hCases b p hSnd with hx | ⟨_, rfl⟩
      · exact hAsserted.apart a b found p hDiffer hOld hx
      · exact (hApart found (mem_of_getElem? hOld)).2
    · rcases hCases b p hSnd with hx | ⟨hEq, _⟩
      · exact (hApart p (mem_of_getElem? hx)).1
      · exact absurd (hIdx.trans hEq.symm) hDiffer

theorem resume {turn : Shared → Task → Shared × Task}
    {i : Nat}
    (hOwn : ∀ task, cfg.tasks[i]? = some task →
      Own cfg.shared task → Own (turn cfg.shared task).1 (turn cfg.shared task).2)
    (hPeers :
      ∀ task p, cfg.tasks[i]? = some task → p ∈ cfg.tasks → Own cfg.shared task → Own cfg.shared p →
        Apart task p →
        Apart p task →
          Own (turn cfg.shared task).1 p ∧ Apart (turn cfg.shared task).2 p ∧
            Apart p (turn cfg.shared task).2) :
    Asserted Own Apart (resume turn cfg i) := by
  cases hTask : cfg.tasks[i]? with
  | none =>
    rw [Interleaving.resume, hTask]
    exact hAsserted
  | some task =>
  rw [resume_eq turn hTask]
  have hHere := hAsserted.own i task hTask
  have hOthers : ∀ (x : Nat) p, x ≠ i → cfg.tasks[x]? = some p →
      Own (turn cfg.shared task).1 p ∧ Apart (turn cfg.shared task).2 p ∧
      Apart p (turn cfg.shared task).2 := by
    intro x p hx hPeer
    exact hPeers task p hTask (mem_of_getElem? hPeer) hHere (hAsserted.own x p hPeer)
      (hAsserted.apart i x task p (Ne.symm hx) hTask hPeer)
      (hAsserted.apart x i p task hx hPeer hTask)
  -- A place holds the resumed task, or what it held before.
  have hCases :
      ∀ (x : Nat) found, (cfg.tasks.set i (turn cfg.shared task).2)[x]? =
        some found → (x = i ∧ found = (turn cfg.shared task).2) ∨
        (x ≠ i ∧ cfg.tasks[x]? = some found) := by
    intro x found hGot
    by_cases hEq : x = i
    · subst hEq
      rw [getElem?_set_self (List.getElem?_eq_some_iff.mp hTask).1] at hGot
      exact .inl ⟨rfl, (Option.some.inj hGot).symm⟩
    · rw [getElem?_set_ne (Ne.symm hEq)] at hGot
      exact .inr ⟨hEq, hGot⟩
  constructor
  · intro x found hGot
    rcases hCases x found hGot with ⟨_, rfl⟩ | ⟨hx, hOld⟩
    · exact hOwn task hTask hHere
    · exact (hOthers x found hx hOld).1
  · intro a b found p hDiffer hFst hSnd
    rcases hCases a found hFst with ⟨hIdx, rfl⟩ | ⟨hx, hOld⟩
    · rcases hCases b p hSnd with ⟨hEq, _⟩ | ⟨hPeer, hOldPeer⟩
      · exact absurd (hIdx.trans hEq.symm) hDiffer
      · exact (hOthers b p hPeer hOldPeer).2.1
    · rcases hCases b p hSnd with ⟨_, rfl⟩ | ⟨hPeer, hOldPeer⟩
      · exact (hOthers a found hx hOld).2.2
      · exact hAsserted.apart a b found p hDiffer hOld hOldPeer

end

end Asserted

end Interleaving
