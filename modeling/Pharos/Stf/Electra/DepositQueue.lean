import Pharos.Stf.Electra.Conservation

/-
  This file compares the loop over pending deposits with the one of the specification, which
  searches the registry for the key of each deposit. The code keeps an index of the keys instead,
  while the registry grows.

  Main theorems:
  * `Electra.pending_deposits_refine_spec`
-/

----
-- The Loop of the Specification
----

namespace Pharos.Stf.Electra

open Checked Outcome List

variable (E : ElectraPreset) (isValidDepositSignature : PendingDeposit → Bool)

/- What the specification keeps track of. -/
structure DepositLoop where
  state : BeaconState
  processedAmount : Gwei
  nextDepositIndex : Nat
  depositsToPostpone : List PendingDeposit
  isChurnLimitReached : Bool

/- The validators are searched for the key. -/
def specStep (limits : SweepLimits) (run : DepositLoop) (deposit : PendingDeposit) :
    Except (Halt EpochProcessingError) (Bool × DepositLoop) :=
  let state := run.state
  let next := run.nextDepositIndex + 1
  let validator :=
    (state.validators.findIdx? fun validator =>
      validator.pubkey = deposit.pubkey).bind fun index =>
        state.validators[index]?
  if genesisSlot < deposit.slot ∧ state.eth1DepositIndex < state.depositRequestsStartIndex then
    .ok (false, run)
  else if limits.finalizedSlot < deposit.slot then
    .ok (false, run)
  else if E.maxPendingDepositsPerEpoch ≤ run.nextDepositIndex then
    .ok (false, run)
  else if validator.any fun validator =>
      validator.withdrawableEpoch < (limits.nextEpoch : FarEpoch) then do
    let state ← orError (applyPendingDeposit E isValidDepositSignature state deposit)
    .ok (true, { run with state := state, nextDepositIndex := next })
  else if validator.any fun validator =>
      validator.exitEpoch < farFutureEpoch then
    .ok (true,
      { run with
        depositsToPostpone := run.depositsToPostpone ++ [deposit]
        nextDepositIndex := next })
  else do
    let processed ← orPanic (add run.processedAmount deposit.amount)
    if limits.availableForProcessing < processed then
      .ok (false, { run with isChurnLimitReached := true })
    else do
      let state ← orError (applyPendingDeposit E isValidDepositSignature state deposit)
      .ok (true,
        { run with
          state := state
          processedAmount := processed
          nextDepositIndex := next })

def specProcessPendingDeposits (state : BeaconState) :
    Except (Halt EpochProcessingError) BeaconState := do
  let limits ← orPanic (sweepLimits E state)
  let done ←
    loop (specStep E isValidDepositSignature limits)
      ⟨state, 0, 0, [], false⟩ state.pendingDeposits
  let remaining := state.pendingDeposits.drop done.nextDepositIndex ++ done.depositsToPostpone
  orError (require (remaining.length ≤ E.maxPendingDepositsLimit) .ssz)
  let left ← orPanic
    (if done.isChurnLimitReached then
      sub limits.availableForProcessing done.processedAmount
    else
      .ok 0)
  .ok
    { done.state with
      pendingDeposits := remaining
      depositBalanceToConsume := left }

----
-- The Index of the Keys
----

/- The index finds what a search of the registry would find. -/
def DepositSweep.Indexed (sweep : DepositSweep) : Prop :=
  ∀ key, sweep.pubkeyToIndex.lookup key =
    sweep.state.validators.findIdx? fun validator => validator.pubkey = key

theorem lookup_zipIdx (vals : List Validator) (s₀ : Nat) (k : BLSPubkey) :
    ((vals.zipIdx s₀).map fun e => (e.1.pubkey, e.2)).lookup k =
      (vals.findIdx? fun val => val.pubkey = k).map (· + s₀) := by
  induction vals generalizing s₀ with
  | nil => rfl
  | cons val xs ih =>
    rw [zipIdx_cons, map_cons, lookup_cons, findIdx?_cons]
    by_cases hKey : val.pubkey = k
    · simp [hKey]
    · have hx : (k == val.pubkey) = false := by
        simpa using Ne.symm hKey
      rw [hx, ih]
      simp only [hKey, decide_false, Bool.false_eq_true, if_false, Option.map_map]
      congr 1
      funext i
      simp only [Function.comp_apply]
      omega

theorem indexed_startSweep (s : BeaconState) : (startSweep s).Indexed := by
  intro k
  exact (lookup_zipIdx s.validators 0 k).trans (by simp; rfl)

variable {E isValidDepositSignature} {state after : BeaconState}
variable {deposit : PendingDeposit} {limits : SweepLimits} {sweep next : DepositSweep}

/- At most one validator joins, and only under a new key. -/
theorem validators_applyPendingDeposit
    (hOk : applyPendingDeposit E isValidDepositSignature state deposit = .ok after) :
    after.validators = state.validators ∨
      (state.validators.findIdx? fun val => val.pubkey = deposit.pubkey) = none ∧
        after.validators = state.validators ++ [getValidatorFromDeposit E deposit] := by
  unfold applyPendingDeposit at hOk
  split at hOk
  · rename_i hUnknown
    split at hOk
    · exact .inr ⟨hUnknown, (addValidatorToRegistry_ok (mapError_ok_iff.mp hOk)).2⟩
    · cases hOk
      exact .inl rfl
  · rcases okOr_bind_ok_iff.mp (mapError_ok_iff.mp hOk) with ⟨bals, _, hDone⟩
    cases hDone
    exact .inl rfl

theorem findIdx_ne_none_of_credit (hIndexed : sweep.Indexed)
    (hSaid : depositVerdict E limits sweep deposit = .credit) :
    (sweep.state.validators.findIdx? fun val =>
      val.pubkey = deposit.pubkey) ≠ none := by
  intro hNone
  have hUnknown := (hIndexed deposit.pubkey).trans hNone
  unfold depositVerdict at hSaid
  rw [hUnknown] at hSaid
  dsimp only [Option.bind_none, Option.any_none] at hSaid
  split at hSaid
  · cases hSaid
  · simp at hSaid

theorem indexed_sweepDeposit {goesOn : Bool} (hIndexed : sweep.Indexed)
    (hOk : sweepDeposit E isValidDepositSignature limits sweep deposit = .ok (goesOn, next)) :
    next.Indexed := by
  unfold sweepDeposit at hOk
  split at hOk
  · cases hOk
    exact hIndexed
  · rename_i hSaid
    rcases bind_ok_iff.mp hOk with ⟨after, hApplied, hOk⟩
    cases hOk
    rcases validators_applyPendingDeposit (orError_ok_iff.mp hApplied) with hEq | ⟨hNone, _⟩
    · intro k
      exact (hIndexed k).trans (by rw [hEq])
    · exact absurd hNone (findIdx_ne_none_of_credit hIndexed hSaid)
  · cases hOk
    exact hIndexed
  · rcases bind_ok_iff.mp hOk with ⟨processed, _, hOk⟩
    split at hOk
    · cases hOk
      exact hIndexed
    · rcases bind_ok_iff.mp hOk with ⟨after, hApplied, hOk⟩
      cases hOk
      intro k
      rcases validators_applyPendingDeposit (orError_ok_iff.mp hApplied) with hEq | ⟨hNone, hJoined⟩
      · simp [hEq, hIndexed k]
      · -- The new key is the last entry of index and registry.
        have hKey : (getValidatorFromDeposit E deposit).pubkey = deposit.pubkey := rfl
        by_cases hEq : deposit.pubkey = k
        · subst hEq
          simp [hJoined, lookup_append, hIndexed deposit.pubkey, hNone, findIdx?_append, hKey]
        · simp [hJoined, lookup_append, hIndexed k, findIdx?_append, hKey, hEq, Ne.symm hEq]

----
-- The Same Steps
----

def DepositSweep.loopState (sweep : DepositSweep) : DepositLoop :=
  ⟨sweep.state, sweep.processedAmount, sweep.nextDepositIndex,
    sweep.depositsToPostpone, sweep.isChurnLimitReached⟩

theorem map_sweepDeposit (deposit : PendingDeposit) (hIndexed : sweep.Indexed) :
    (sweepDeposit E isValidDepositSignature limits sweep deposit).map
        (Prod.map id DepositSweep.loopState) =
      specStep E isValidDepositSignature limits sweep.loopState deposit := by
  unfold sweepDeposit specStep depositVerdict
  rw [hIndexed deposit.pubkey]
  dsimp only [DepositSweep.loopState]
  by_cases hBridge : genesisSlot < deposit.slot ∧
      sweep.state.eth1DepositIndex < sweep.state.depositRequestsStartIndex
  · rw [if_pos (.inl hBridge), if_pos hBridge]
    rfl
  by_cases hSlot : limits.finalizedSlot < deposit.slot
  · rw [if_pos (.inr (.inl hSlot)), if_neg hBridge, if_pos hSlot]
    rfl
  by_cases hCount : E.maxPendingDepositsPerEpoch ≤ sweep.nextDepositIndex
  · rw [if_pos (.inr (.inr hCount)), if_neg hBridge, if_neg hSlot]
    exact (if_pos hCount).symm
  rw [if_neg (not_or_intro hBridge (not_or_intro hSlot hCount)), if_neg hBridge, if_neg hSlot]
  refine Eq.trans ?_ (if_neg hCount).symm
  generalize (sweep.state.validators.findIdx? fun val =>
    val.pubkey = deposit.pubkey).bind (fun i => sweep.state.validators[i]?) = val
  generalize (val.any fun val =>
    val.withdrawableEpoch < (limits.nextEpoch : FarEpoch)) = isWithdrawn
  generalize (val.any fun val =>
    val.exitEpoch < farFutureEpoch) = isExited
  cases isWithdrawn with
  | true =>
    cases applyPendingDeposit E isValidDepositSignature sweep.state deposit with
    | error error | ok after => rfl
  | false =>
    cases isExited with
    | true => rfl
    | false =>
      cases add sweep.processedAmount deposit.amount with
      | error fault => rfl
      | ok processed =>
        simp only [Bool.false_eq_true, if_false, orPanic, Except.mapError, bind, Except.bind]
        by_cases hChurn : limits.availableForProcessing < processed
        · rw [if_pos hChurn, if_pos hChurn]
          rfl
        · rw [if_neg hChurn, if_neg hChurn]
          cases applyPendingDeposit E isValidDepositSignature sweep.state deposit with
          | error error | ok after => rfl

/- Keeping an index of the keys changes nothing. -/
theorem processPendingDeposits_eq_spec (state : BeaconState) :
    processPendingDeposits E isValidDepositSignature state =
      specProcessPendingDeposits E isValidDepositSignature state := by
  apply bind_congr
  intro limits
  have hLoop : (loop (sweepDeposit E isValidDepositSignature limits) (startSweep state)
      state.pendingDeposits).map DepositSweep.loopState =
      loop (specStep E isValidDepositSignature limits) (startSweep state).loopState
      state.pendingDeposits := loop_map DepositSweep.loopState DepositSweep.Indexed
      indexed_sweepDeposit map_sweepDeposit (indexed_startSweep state) state.pendingDeposits
  change _ = (loop (specStep E isValidDepositSignature limits)
    (startSweep state).loopState state.pendingDeposits >>= _)
  rw [← hLoop]
  cases loop (sweepDeposit E isValidDepositSignature limits)
      (startSweep state) state.pendingDeposits with
  | error halt | ok done => rfl

----
-- What Becomes of the Deposits
----

variable (E isValidDepositSignature limits) in
def fatesOf : DepositSweep → List PendingDeposit → List (PendingDeposit × DepositVerdict)
| _, [] => []
| sweep, deposit :: rest =>
  match sweepDeposit E isValidDepositSignature limits sweep deposit with
  | .ok (true, next) => (deposit, depositVerdict E limits sweep deposit) :: fatesOf next rest
  | _ => []

def withVerdict (verdict : DepositVerdict) (fates : List (PendingDeposit × DepositVerdict)) :
    List PendingDeposit :=
  (fates.filter fun fate => fate.2 = verdict).map Prod.fst

theorem withVerdict_cons (verdict : DepositVerdict) (fate : PendingDeposit × DepositVerdict)
    (xs : List (PendingDeposit × DepositVerdict)) :
    withVerdict verdict (fate :: xs) = withVerdict verdict [fate] ++ withVerdict verdict xs := by
  rw [← singleton_append]
  simp only [withVerdict, filter_append, map_append]

theorem sweepDeposit_fate
    (hOk : sweepDeposit E isValidDepositSignature limits sweep deposit = .ok (true, next)) :
    let fate := [(deposit, depositVerdict E limits sweep deposit)]
    next.nextDepositIndex = sweep.nextDepositIndex + 1 ∧
      next.depositsToPostpone = sweep.depositsToPostpone ++ withVerdict .postpone fate ∧
      next.processedAmount = sweep.processedAmount + amounts (withVerdict .charge fate) ∧
      (sweep.processedAmount ≤ limits.availableForProcessing →
        next.processedAmount ≤ limits.availableForProcessing) := by
  unfold sweepDeposit at hOk
  split at hOk
  · cases hOk
  · rename_i hSaid
    rcases bind_ok_iff.mp hOk with ⟨state, _, hOk⟩
    cases hOk
    rw [hSaid]
    simp [withVerdict, amounts]
  · rename_i hSaid
    cases hOk
    rw [hSaid]
    simp [withVerdict, amounts]
  · rename_i hSaid
    rcases bind_ok_iff.mp hOk with ⟨processed, hSum, hOk⟩
    have hAmount := (add_ok_iff.mp (orPanic_ok_iff.mp hSum)).2
    split at hOk
    · cases hOk
    · rename_i hWithin
      rcases bind_ok_iff.mp hOk with ⟨state, _, hOk⟩
      cases hOk
      rw [hSaid]
      simp [withVerdict, amounts, hAmount, not_lt.mp hWithin]

theorem loop_fates {deposits : List PendingDeposit} {done : DepositSweep}
    (hFits : sweep.processedAmount ≤ limits.availableForProcessing)
    (hOk : loop (sweepDeposit E isValidDepositSignature limits) sweep deposits = .ok done) :
    let fates := fatesOf E isValidDepositSignature limits sweep deposits
    fates.map Prod.fst <+: deposits ∧
      done.nextDepositIndex = sweep.nextDepositIndex + fates.length ∧
      done.depositsToPostpone = sweep.depositsToPostpone ++ withVerdict .postpone fates ∧
      done.processedAmount = sweep.processedAmount + amounts (withVerdict .charge fates) ∧
      done.processedAmount ≤ limits.availableForProcessing := by
  induction deposits generalizing sweep with
  | nil =>
    cases hOk
    simp [fatesOf, withVerdict, amounts, hFits]
  | cons deposit xs ih =>
    rcases loop_cons_eq_ok hOk with hLast | ⟨next, hNext, hxs⟩
    · rw [fatesOf, hLast]
      rcases sweepDeposit_stops hLast with ⟨s, rfl⟩
      simp [withVerdict, amounts, hFits]
    · rcases sweepDeposit_fate hNext with ⟨hIdx, hPostponed, hCharged, hWithin⟩
      rcases ih (hWithin hFits) hxs with ⟨hPrefix, hLater, hAlso, hMore, hLimit⟩
      rw [fatesOf, hNext]
      refine ⟨prefix_cons_inj _ |>.mpr hPrefix, ?_, ?_, ?_, hLimit⟩
      · rw [hLater, hIdx, length_cons]
        omega
      · rw [hAlso, hPostponed, append_assoc, ← withVerdict_cons]
      · rw [hMore, hCharged, withVerdict_cons .charge _
          (fatesOf E isValidDepositSignature limits next xs)]
        simp only [amounts, map_append, sum_append, add_assoc]

/-
  The result is that of the specification. What is left of the queue is the part from which the loop
  stopped, then the postponed deposits, and the deposits that are charged keep within the churn.
-/
theorem pending_deposits_refine_spec (E : ElectraPreset)
    (isValidDepositSignature : PendingDeposit → Bool) (state : BeaconState) :
    processPendingDeposits E isValidDepositSignature state =
        specProcessPendingDeposits E isValidDepositSignature state ∧
      ∀ after,
        processPendingDeposits E isValidDepositSignature state = .ok after →
          ∃ limits fates,
            sweepLimits E state = .ok limits ∧
              fates = fatesOf E isValidDepositSignature limits
                (startSweep state) state.pendingDeposits ∧
              fates.map Prod.fst <+: state.pendingDeposits ∧
              after.pendingDeposits =
                state.pendingDeposits.drop fates.length ++ withVerdict .postpone fates ∧
              amounts (withVerdict .charge fates) ≤ limits.availableForProcessing := by
  refine ⟨processPendingDeposits_eq_spec state, ?_⟩
  intro after hOk
  rcases bind_ok_iff.mp hOk with ⟨limits, hLimits, hOk⟩
  rcases bind_ok_iff.mp hOk with ⟨done, hLoop, hOk⟩
  rcases bind_ok_iff.mp hOk with ⟨_, _, hOk⟩
  rcases bind_ok_iff.mp hOk with ⟨left, _, hOk⟩
  rcases loop_fates (Nat.zero_le _) hLoop with ⟨hPrefix, hIdx, hPostponed, hCharged, hWithin⟩
  refine ⟨limits, _, orPanic_ok_iff.mp hLimits, rfl, hPrefix, ?_, ?_⟩
  · cases hOk
    rw [hIdx, hPostponed]
    simp [startSweep]
  · rw [hCharged] at hWithin
    exact le_trans (Nat.le_add_left _ _) hWithin

theorem pending_deposits_refine_spec_waitingState : ∃ after limits fates,
    processPendingDeposits mainnet (fun _ => false) waitingState = .ok after ∧
      sweepLimits mainnet waitingState = .ok limits ∧
      fates.map Prod.fst <+: waitingState.pendingDeposits ∧
      amounts (withVerdict .charge fates) ≤ limits.availableForProcessing := by
  have hReturns : (processPendingDeposits mainnet (fun _ => false) waitingState).isOk := by
    decide +kernel
  cases hOk : processPendingDeposits mainnet (fun _ => false) waitingState with
  | error halt =>
    rw [hOk] at hReturns
    cases hReturns
  | ok after =>
    rcases (pending_deposits_refine_spec mainnet (fun _ => false) waitingState).2 after hOk with
      ⟨limits, fates, hLimits, -, hPrefix, -, hWithin⟩
    exact ⟨after, limits, fates, rfl, hLimits, hPrefix, hWithin⟩

end Pharos.Stf.Electra
