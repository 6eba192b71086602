import Pharos.Stf.Electra.PendingQueues

/-
  This file proves that the queues of Electra neither create nor lose balance: what the validators
  and the pending deposits hold together changes only by the deposits that are dropped for an
  invalid signature.

  Main theorems:
  * `Electra.balances_conserved`
-/

----
-- Balances
----

namespace Pharos.Stf.Electra

open List Checked Outcome

section

open Sums

def amounts (deposits : List PendingDeposit) : Nat :=
  (deposits.map PendingDeposit.amount).sum

def balanceSum (state : BeaconState) : Nat :=
  state.accounting.balances.sum

/- What validators and pending deposits hold together. -/
def totalBalance (state : BeaconState) : Nat :=
  balanceSum state + amounts state.pendingDeposits

variable {p : ElectraPreset} {s s' : BeaconState} {i : ValidatorIndex}

theorem setBalance_ok {error : StateTransitionError} {bal : Nat}
    (hOk : setBalance error s i bal = .ok s') :
    s'.pendingDeposits = s.pendingDeposits ∧
      balanceSum s' + balanceAt s i = balanceSum s + bal := by
  rcases okOr_bind_ok_iff.mp hOk with ⟨bals, hSet, hPost⟩
  rcases Option.ite_none_right_eq_some.mp hSet with ⟨hIdx, hSet⟩
  rw [← Except.ok.inj hPost, ← Option.some.inj hSet]
  exact ⟨rfl, sum_set hIdx bal⟩

/- Nothing is cut off unless the whole does not fit a word. -/
theorem increaseBalance_ok {delta : Nat} (hFits : balanceSum s + delta < 2 ^ 64)
    (hOk : increaseBalance s i delta = .ok s') :
    s'.pendingDeposits = s.pendingDeposits ∧ balanceSum s' = balanceSum s + delta := by
  rcases setBalance_ok hOk with ⟨hDeposits, hSum⟩
  have hLe : balanceAt s i ≤ balanceSum s := getD_le_sum _ i
  have hAdd : Word.satAdd (balanceAt s i) delta = balanceAt s i + delta := by
    unfold Word.satAdd Word.clamp Word.maxValue
    omega
  exact ⟨hDeposits, by omega⟩

theorem decreaseBalance_ok {delta : Nat} (hLe : delta ≤ balanceAt s i)
    (hOk : decreaseBalance s i delta = .ok s') :
    s'.pendingDeposits = s.pendingDeposits ∧ balanceSum s' + delta = balanceSum s := by
  rcases setBalance_ok hOk with ⟨hDeposits, hSum⟩
  rw [if_neg (not_lt.mpr hLe)] at hSum
  exact ⟨hDeposits, by omega⟩

theorem totalBalance_queueBalanceAbove {kept : Nat} (hKept : kept ≤ balanceAt s i)
    (hOk : queueBalanceAbove p kept s i = .ok s') :
    totalBalance s' = totalBalance s := by
  rcases bind_ok_iff.mp hOk with ⟨reduced, hReduced, hOk⟩
  rcases okOr_bind_ok_iff.mp hOk with ⟨val, _, hOk⟩
  rcases okOr_bind_ok_iff.mp hOk with ⟨deposits, hPush, hOk⟩
  rcases setBalance_ok hReduced with ⟨_, hSum⟩
  rcases Option.ite_none_right_eq_some.mp hPush with ⟨_, hPush⟩
  have hQueue : amounts s'.pendingDeposits = amounts s.pendingDeposits +
      (balanceAt s i - kept) := by
    rw [← Except.ok.inj hOk, ← Option.some.inj hPush]
    simp [amounts]
  have hBalances : balanceSum s' = balanceSum reduced := by
    cases hOk
    rfl
  unfold totalBalance
  omega

theorem totalBalance_queueExcessActiveBalance
    (hOk : queueExcessActiveBalance p s i = .ok s') :
    totalBalance s' = totalBalance s := by
  unfold queueExcessActiveBalance at hOk
  split at hOk
  · rename_i hExcess
    exact totalBalance_queueBalanceAbove (le_of_lt hExcess) hOk
  · cases hOk
    rfl

theorem totalBalance_switchToCompoundingValidator
    (hOk : switchToCompoundingValidator p s i = .ok s') :
    totalBalance s' = totalBalance s := by
  rcases okOr_bind_ok_iff.mp hOk with ⟨val, _, hOk⟩
  rcases okOr_bind_ok_iff.mp hOk with ⟨vals, _, hOk⟩
  have hQueued := totalBalance_queueExcessActiveBalance hOk
  exact hQueued

theorem totalBalance_upgradeToElectra {version : Version}
    (hOk : upgradeToElectra p version s = .ok s') :
    totalBalance s' = balanceSum s := by
  rcases bind_ok_iff.mp hOk with ⟨epoch, _, hOk⟩
  rcases bind_ok_iff.mp hOk with ⟨nextEpoch, _, hOk⟩
  rcases bind_ok_iff.mp hOk with ⟨activation, _, hOk⟩
  rcases bind_ok_iff.mp hOk with ⟨earliest, _, hOk⟩
  rcases bind_ok_iff.mp hOk with ⟨exitChurn, _, hOk⟩
  rcases bind_ok_iff.mp hOk with ⟨churn, _, hOk⟩
  rcases bind_ok_iff.mp hOk with ⟨waiting, hWaiting, hOk⟩
  have hWait : totalBalance waiting = balanceSum s := by
    refine invariant_foldlM (fun t => totalBalance t =
      balanceSum s) ?_ rfl (orError_ok_iff.mp hWaiting)
    intro t i next hKept hStep
    rcases bind_ok_iff.mp hStep with ⟨queued, hQueued, hNext⟩
    have hEq := totalBalance_queueBalanceAbove (Nat.zero_le _) hQueued
    rw [← hKept, ← hEq, ← Except.ok.inj hNext]
    rfl
  exact invariant_foldlM (fun t => totalBalance t =
    balanceSum s) (fun hKept hStep =>
      (totalBalance_queueExcessActiveBalance hStep).trans hKept)
    hWait (orError_ok_iff.mp hOk)

end

section

variable {p : ElectraPreset}

/- What the source loses, the target gets. -/
theorem consolidate_ok {nextEpoch : Epoch} {run s : BeaconState × Nat}
    {pending : PendingConsolidation} {goesOn : Bool} (hFits : totalBalance run.1 < 2 ^ 64)
    (hOk : consolidate nextEpoch run pending = .ok (goesOn, s)) :
    totalBalance s.1 = totalBalance run.1 := by
  rcases okOr_bind_ok_iff.mp hOk with ⟨src, _, hOk⟩
  split at hOk
  · cases hOk
    rfl
  split at hOk
  · cases hOk
    rfl
  rcases bind_ok_iff.mp hOk with ⟨decreased, hDecrease, hOk⟩
  rcases bind_ok_iff.mp hOk with ⟨increased, hIncrease, hOk⟩
  rcases decreaseBalance_ok (min_le_left _ _) (mapError_ok_iff.mp hDecrease) with ⟨hFst, hLowered⟩
  unfold totalBalance at hFits ⊢
  rcases increaseBalance_ok (by omega) (mapError_ok_iff.mp hIncrease) with ⟨hSnd, hRaised⟩
  rw [← (Prod.mk.inj (Except.ok.inj hOk)).2, hSnd, hFst, hRaised, hLowered]

theorem totalBalance_processPendingConsolidations {s s' : BeaconState}
    (hFits : totalBalance s < 2 ^ 64)
    (hOk : processPendingConsolidations p s = .ok s') :
    totalBalance s' = totalBalance s := by
  rcases bind_ok_iff.mp hOk with ⟨epoch, _, hOk⟩
  rcases bind_ok_iff.mp hOk with ⟨nextEpoch, _, hOk⟩
  rcases bind_ok_iff.mp hOk with ⟨t, hLoop, hOk⟩
  rcases bind_ok_iff.mp hOk with ⟨_, _, hOk⟩
  cases hOk
  refine invariant_loop (fun run => totalBalance run.1 =
    totalBalance s) ?_ rfl (orError_ok_iff.mp hLoop)
  intro run pending goesOn next hKept hStep
  exact (consolidate_ok (hKept ▸ hFits) hStep).trans hKept

end

----
-- Deposits
----

variable (E : ElectraPreset) (isValidDepositSignature : PendingDeposit → Bool)

/- No validator has the key, and the signature is invalid. -/
def IsDropped (state : BeaconState) (deposit : PendingDeposit) : Prop :=
  (∀ validator ∈ state.validators, validator.pubkey ≠ deposit.pubkey) ∧
    ¬isValidDepositSignature deposit

instance (state : BeaconState) (deposit : PendingDeposit) :
    Decidable (IsDropped isValidDepositSignature state deposit) :=
  inferInstanceAs (Decidable (_ ∧ _))

/- The deposits that the loop applies, but for which there is nothing to credit. -/
def droppedDeposits (limits : SweepLimits) :
    DepositSweep → List PendingDeposit → List PendingDeposit
| _, [] => []
| sweep, deposit :: rest =>
  match sweepDeposit E isValidDepositSignature limits sweep deposit with
  | .ok (true, next) =>
    let dropped := droppedDeposits limits next rest
    if depositVerdict E limits sweep deposit ≠ .postpone ∧
        IsDropped isValidDepositSignature sweep.state deposit then
      deposit :: dropped
    else
      dropped
  | _ => []

def droppedFrom (state : BeaconState) : List PendingDeposit :=
  match sweepLimits E state with
  | .ok limits =>
    droppedDeposits E isValidDepositSignature limits (startSweep state) state.pendingDeposits
  | .error _ => []

variable {E isValidDepositSignature} {state after : BeaconState} {dep : PendingDeposit}

theorem addValidatorToRegistry_ok (hOk : addValidatorToRegistry E state dep = .ok after) :
    balanceSum after = balanceSum state + dep.amount ∧
      after.validators = state.validators ++ [getValidatorFromDeposit E dep] := by
  rcases okOr_bind_ok_iff.mp hOk with ⟨vals, hJoin, hOk⟩
  rcases okOr_bind_ok_iff.mp hOk with ⟨bals, hPush, hOk⟩
  rcases okOr_bind_ok_iff.mp hOk with ⟨previous, _, hOk⟩
  rcases okOr_bind_ok_iff.mp hOk with ⟨cur, _, hOk⟩
  rcases okOr_bind_ok_iff.mp hOk with ⟨scores, _, hOk⟩
  rcases Option.ite_none_right_eq_some.mp hPush with ⟨_, hPush⟩
  rcases Option.ite_none_right_eq_some.mp hJoin with ⟨_, hJoin⟩
  rw [← Except.ok.inj hOk, ← Option.some.inj hPush, ← Option.some.inj hJoin]
  simp [balanceSum]

theorem applyPendingDeposit_ok (hFits : balanceSum state + dep.amount < 2 ^ 64)
    (hOk : applyPendingDeposit E isValidDepositSignature state dep = .ok after) :
    balanceSum after + (if IsDropped isValidDepositSignature state dep then dep.amount else 0) =
      balanceSum state + dep.amount := by
  unfold applyPendingDeposit at hOk
  split at hOk
  · rename_i hUnknown
    have hNew : ∀ val ∈ state.validators, val.pubkey ≠ dep.pubkey := by
      simpa using findIdx?_eq_none_iff.mp hUnknown
    split at hOk
    · rename_i hValid
      rw [if_neg fun hDropped => hDropped.2 hValid,
        (addValidatorToRegistry_ok (mapError_ok_iff.mp hOk)).1]
      rfl
    · rename_i hBad
      rw [if_pos ⟨hNew, hBad⟩, Except.ok.inj hOk]
  · rename_i i hIn
    have hOld : ¬IsDropped isValidDepositSignature state dep := by
      intro hDropped
      have hNone : (state.validators.findIdx? fun val =>
          val.pubkey = dep.pubkey) = none := by
        simpa using hDropped.1
      rw [hNone] at hIn
      cases hIn
    rw [if_neg hOld]
    exact (increaseBalance_ok hFits (mapError_ok_iff.mp hOk)).2

/- What the loop holds besides the deposits still to come. -/
def DepositSweep.held (sweep : DepositSweep) : Nat :=
  balanceSum sweep.state + amounts sweep.depositsToPostpone

variable {limits : SweepLimits} {sweep next : DepositSweep}

/- A deposit that ends the loop stays in the queue. -/
theorem sweepDeposit_stops
    (hOk : sweepDeposit E isValidDepositSignature limits sweep dep = .ok (false, next)) :
    ∃ s, next = { sweep with isChurnLimitReached := s } := by
  unfold sweepDeposit at hOk
  split at hOk
  · cases hOk
    exact ⟨_, rfl⟩
  · rcases bind_ok_iff.mp hOk with ⟨state, _, hOk⟩
    cases hOk
  · cases hOk
  · rcases bind_ok_iff.mp hOk with ⟨processed, _, hOk⟩
    split at hOk
    · cases hOk
      exact ⟨true, rfl⟩
    · rcases bind_ok_iff.mp hOk with ⟨state, _, hOk⟩
      cases hOk

theorem sweepDeposit_goes (hFits : sweep.held + dep.amount < 2 ^ 64)
    (hOk : sweepDeposit E isValidDepositSignature limits sweep dep = .ok (true, next)) :
    next.nextDepositIndex = sweep.nextDepositIndex + 1 ∧
      next.held + (if depositVerdict E limits sweep dep ≠ .postpone ∧
              IsDropped isValidDepositSignature sweep.state dep then
            dep.amount else 0) =
        sweep.held + dep.amount := by
  have hRoom : balanceSum sweep.state + dep.amount < 2 ^ 64 :=
      lt_of_le_of_lt (Nat.add_le_add_right (Nat.le_add_right _ _) _) hFits
  unfold sweepDeposit at hOk
  unfold DepositSweep.held
  split at hOk
  · cases hOk
  · rename_i hSaid
    rcases bind_ok_iff.mp hOk with ⟨state, hApplied, hOk⟩
    have hCredited := applyPendingDeposit_ok hRoom (orError_ok_iff.mp hApplied)
    cases hOk
    simp only [hSaid, ne_eq, reduceCtorEq, not_false_eq_true, true_and]
    omega
  · rename_i hSaid
    cases hOk
    simp [hSaid, amounts]
    omega
  · rename_i hSaid
    rcases bind_ok_iff.mp hOk with ⟨processed, _, hOk⟩
    split at hOk
    · cases hOk
    · rcases bind_ok_iff.mp hOk with ⟨state, hApplied, hOk⟩
      have hCredited := applyPendingDeposit_ok hRoom (orError_ok_iff.mp hApplied)
      cases hOk
      simp only [hSaid, ne_eq, reduceCtorEq, not_false_eq_true, true_and]
      omega

/- The loop, by induction on the deposits still to come. -/
theorem held_loop_sweepDeposit {deposits : List PendingDeposit} {done : DepositSweep}
    (hFits : sweep.held + amounts deposits < 2 ^ 64)
    (hOk : loop (sweepDeposit E isValidDepositSignature limits) sweep deposits = .ok done) :
    ∃ taken, done.nextDepositIndex = sweep.nextDepositIndex + taken ∧
      done.held + amounts (deposits.drop taken) +
          amounts (droppedDeposits E isValidDepositSignature limits sweep deposits) =
        sweep.held + amounts deposits := by
  induction deposits generalizing sweep with
  | nil =>
    cases hOk
    exact ⟨0, rfl, rfl⟩
  | cons dep xs ih =>
    have hCons : amounts (dep :: xs) = dep.amount + amounts xs := sum_cons
    rcases loop_cons_eq_ok hOk with hLast | ⟨next, hNext, hxs⟩
    · rw [droppedDeposits, hLast]
      rcases sweepDeposit_stops hLast with ⟨s, rfl⟩
      exact ⟨0, rfl, rfl⟩
    · rcases sweepDeposit_goes (by omega) hNext with ⟨hIdx, hHeld⟩
      rcases ih (by omega) hxs with ⟨taken, hTaken, hLeft⟩
      refine ⟨taken + 1, by omega, ?_⟩
      rw [droppedDeposits, hNext, drop_succ_cons]
      dsimp only
      split
      · rename_i hDropped
        rw [if_pos hDropped] at hHeld
        have hMore : ∀ ys, amounts (dep :: ys) = dep.amount + amounts ys :=
          fun _ => sum_cons
        rw [hMore]
        omega
      · rename_i hKept
        rw [if_neg hKept] at hHeld
        omega

theorem totalBalance_processPendingDeposits (hFits : totalBalance state < 2 ^ 64)
    (hOk : processPendingDeposits E isValidDepositSignature state = .ok after) :
    totalBalance after + amounts (droppedFrom E isValidDepositSignature state) =
      totalBalance state := by
  rcases bind_ok_iff.mp hOk with ⟨limits, hLimits, hOk⟩
  rcases bind_ok_iff.mp hOk with ⟨done, hLoop, hOk⟩
  rcases bind_ok_iff.mp hOk with ⟨_, _, hOk⟩
  rcases bind_ok_iff.mp hOk with ⟨left, _, hOk⟩
  have hStart : (startSweep state).held + amounts state.pendingDeposits = totalBalance state := rfl
  rcases held_loop_sweepDeposit (hStart ▸ hFits) hLoop with ⟨taken, hTaken, hHeld⟩
  have hIdx : done.nextDepositIndex = taken := hTaken.trans (zero_add taken)
  rw [droppedFrom, orPanic_ok_iff.mp hLimits, ← hStart, ← hHeld, ← Except.ok.inj hOk, hIdx]
  simp only [totalBalance, balanceSum, DepositSweep.held, amounts, map_append, sum_append]
  omega

/- No balance is lost or made, but for the deposits that are dropped. -/
theorem balances_conserved (E : ElectraPreset)
    (isValidDepositSignature : PendingDeposit → Bool) (state : BeaconState)
    (hFits : totalBalance state < 2 ^ 64) :
    (∀ version after,
        upgradeToElectra E version state = .ok after → totalBalance after = balanceSum state) ∧
      (∀ index after, queueExcessActiveBalance E state index = .ok after →
        totalBalance after = totalBalance state) ∧
      (∀ index after, switchToCompoundingValidator E state index = .ok after →
        totalBalance after = totalBalance state) ∧
      (∀ after, processPendingConsolidations E state = .ok after →
        totalBalance after = totalBalance state) ∧
      ∀ after, processPendingDeposits E isValidDepositSignature state = .ok after →
        totalBalance after + amounts (droppedFrom E isValidDepositSignature state) =
        totalBalance state :=
  ⟨fun _ _ => totalBalance_upgradeToElectra, fun _ _ => totalBalance_queueExcessActiveBalance,
    fun _ _ => totalBalance_switchToCompoundingValidator, fun _ =>
    totalBalance_processPendingConsolidations hFits, fun _ =>
    totalBalance_processPendingDeposits hFits⟩

def unknownDeposit : PendingDeposit where
  pubkey := 1
  withdrawalCredentials := ⟨1, 0⟩
  amount := 5000000000
  signature := 0
  slot := 0

def waitingState : BeaconState where
  validators := [⟨0, ⟨2, 0⟩, 32000000000, false, 0, 0, ⊤, ⊤⟩]
  accounting := ⟨[33000000000], [0], [0], [0], []⟩
  randaoMixes := []
  previousJustifiedCheckpoint := ⟨0, 0⟩
  currentJustifiedCheckpoint := ⟨0, 0⟩
  finalizedCheckpoint := ⟨0, 0⟩
  nextWithdrawalIndex := 0
  nextWithdrawalValidatorIndex := 0
  depositRequestsStartIndex := 0
  depositBalanceToConsume := 0
  exitBalanceToConsume := 0
  earliestExitEpoch := 0
  consolidationBalanceToConsume := 0
  earliestConsolidationEpoch := 0
  pendingDeposits := [unknownDeposit, { unknownDeposit with pubkey := 0 }]
  pendingPartialWithdrawals := []
  pendingConsolidations := []
  proposerLookahead := []
  forkVariant := .electra
  genesisValidatorsRoot := 0
  slot := 0
  fork := ⟨0, 0, 0⟩
  blockRoots := []
  eth1DepositIndex := 0

theorem balances_conserved_waitingState : totalBalance waitingState < 2 ^ 64 ∧ ∃ after,
      processPendingDeposits mainnet (fun _ => false) waitingState = .ok after ∧
      totalBalance after + unknownDeposit.amount = totalBalance waitingState := by
  have hFits : totalBalance waitingState < 2 ^ 64 := by
    decide +kernel
  have hReturns : (processPendingDeposits mainnet (fun _ => false) waitingState).isOk = true := by
    decide +kernel
  rcases balances_conserved mainnet (fun _ => false) waitingState hFits with ⟨-, -, -, -, hDeposits⟩
  cases hOk : processPendingDeposits mainnet (fun _ => false) waitingState with
  | error halt =>
    rw [hOk] at hReturns
    exact Bool.noConfusion hReturns
  | ok after =>
    have hTotal := hDeposits after hOk
    exact ⟨hFits, after, rfl, hTotal⟩

end Pharos.Stf.Electra
