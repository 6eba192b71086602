import Pharos.Sample
import Pharos.Stf.Electra.Conservation

/-
  This file implements the processing of withdrawals as it changes a state in place, and proves what
  a payload that is accepted takes from the balances, and whom the sweep over the validators has
  passed.

  Both loops add withdrawals to one list. A withdrawal that is added takes no more than the ones
  before it have left.

  Main theorems:
  * `Electra.withdrawals_conserve_balances`
  * `Electra.sweep_skips_nobody`
-/

----
-- Processing in Place
----

namespace Pharos.Stf.Electra

open Outcome PresetSpec StfSpec Sums List Option

section

def applyWithdrawalsElectra :
    BeaconState → List Withdrawal → BeaconState × Except StateTransitionError Unit
| state, [] => (state, .ok ())
| state, withdrawal :: rest =>
  match decreaseBalance state withdrawal.validatorIndex withdrawal.amount with
  | .error error => (state, .error error)
  | .ok next => applyWithdrawalsElectra next rest

variable (E : Type) [BeaconSpec E] [PresetSpec E] [StfSpec E]

def processWithdrawalsInPlace (state : BeaconState) (payload : ExecutionPayload) :
    BeaconState × Except StateTransitionError Unit :=
  let (withdrawals, processed) := getExpectedWithdrawalsElectra E state
  if payload.withdrawals ≠ withdrawals then
    (state, .error .withdrawalsMismatch)
  else
    match applyWithdrawalsElectra state withdrawals with
    | (applied, .error error) => (applied, .error error)
    | (applied, .ok ()) =>
      ({ applied with
          nextWithdrawalIndex :=
            match withdrawals.getLast? with
            | some last => last.index + 1
            | none => applied.nextWithdrawalIndex
          pendingPartialWithdrawals := applied.pendingPartialWithdrawals.drop processed
          nextWithdrawalValidatorIndex :=
            updateNextWithdrawalValidatorIndex E applied withdrawals },
        .ok ())

end

----
-- Withdrawals of a Payload
----

section

/- A withdrawal that can be added to those before it. -/
structure Fits (state : BeaconState) (before : List Withdrawal) (withdrawal : Withdrawal) :
    Prop where
  index_eq : withdrawal.index = state.nextWithdrawalIndex + before.length
  validatorIndex_lt : withdrawal.validatorIndex < state.accounting.balances.length
  amount_le : withdrawal.amount ≤ getBalanceAfterWithdrawals state withdrawal.validatorIndex before

inductive Built (state : BeaconState) : List Withdrawal → Prop where
  | nil : Built state []
  | snoc {before : List Withdrawal} {withdrawal : Withdrawal} (hBuilt : Built state before)
      (hFits : Fits state before withdrawal) : Built state (before ++ [withdrawal])

def takenFrom (index : ValidatorIndex) (withdrawals : List Withdrawal) : Nat :=
  weigh Withdrawal.amount (fun withdrawal => withdrawal.validatorIndex = index) withdrawals

variable {s : BeaconState} {ws : List Withdrawal}

section

variable (hBuilt : Built s ws)
include hBuilt

theorem Built.append_option {added : Option Withdrawal}
    (hFits : ∀ w, added = some w → Fits s ws w) :
    Built s (ws ++ added.toList) := by
  cases added with
  | none => simpa using hBuilt
  | some w => exact .snoc hBuilt (hFits w rfl)

theorem Built.indices : ws.map Withdrawal.index = List.range' s.nextWithdrawalIndex ws.length := by
  induction hBuilt with
  | nil => rfl
  | snoc _ hFits ih => simp [ih, hFits.index_eq, range'_concat]

theorem Built.validatorIndex_lt : ∀ w ∈ ws, w.validatorIndex < s.accounting.balances.length := by
  induction hBuilt with
  | nil => simp
  | snoc _ hFits ih =>
    intro w hMem
    rcases mem_append.mp hMem with hPre | hLast
    · exact ih w hPre
    · rw [mem_singleton.mp hLast]
      exact hFits.validatorIndex_lt

theorem Built.takenFrom_le (i : ValidatorIndex) : takenFrom i ws ≤ balanceAt s i := by
  induction hBuilt with
  | nil => exact Nat.zero_le _
  | @snoc s₁ w _ hFits ih =>
    unfold takenFrom at ih ⊢
    rw [weigh_append, weigh_cons, weigh_nil]
    by_cases hEq : w.validatorIndex = i
    · have hLe : w.amount ≤ balanceAt s i -
          weigh Withdrawal.amount (fun x => x.validatorIndex = i) s₁ := by
        rw [← hEq]
        exact hFits.amount_le
      simp only [hEq, decide_true, if_true]
      exact Nat.add_le_of_le_sub' ih hLe
    · simpa [hEq] using ih

end

theorem withSet_getD {vs : List Nat} {i : Nat} (hIdx : i < vs.length)
    (change : Nat → Nat) :
    withSet vs i (change (vs.getD i 0)) = some (vs.modify i change) := by
  unfold withSet
  rw [if_pos hIdx, modify_eq_set_get _ hIdx, ← getElem_eq_getD (h := hIdx) 0]
  rfl

theorem decreaseBalance_eq {i : ValidatorIndex} {delta : Gwei}
    (hIdx : i < s.accounting.balances.length) :
    decreaseBalance s i delta =
      .ok (withBalances s (s.accounting.balances.modify i (· - delta))) := by
  have hSub : (if balanceAt s i < delta then 0 else balanceAt s i - delta) =
      balanceAt s i - delta := by
    split
    · exact (Nat.sub_eq_zero_of_le (le_of_lt ‹_›)).symm
    · rfl
  unfold decreaseBalance
  dsimp only
  rw [hSub, setBalance, balanceAt, withSet_getD hIdx (· - delta)]
  rfl

theorem applyWithdrawalsElectra_eq (hIndices : ∀ w ∈ ws,
      w.validatorIndex < s.accounting.balances.length) :
    applyWithdrawalsElectra s ws =
      (withBalances s (applyWithdrawals s.accounting.balances ws), .ok ()) := by
  induction ws generalizing s with
  | nil => rfl
  | cons w xs ih =>
    unfold applyWithdrawalsElectra
    rw [decreaseBalance_eq (hIndices w mem_cons_self)]
    refine ih ?_
    intro x hx
    change _ < (List.modify _ _ _).length
    rw [length_modify]
    exact hIndices x (mem_cons_of_mem _ hx)

theorem sum_applyWithdrawals {bals : List Nat}
    (hLe : ∀ i, takenFrom i ws ≤ bals.getD i 0) :
    (applyWithdrawals bals ws).sum + (ws.map Withdrawal.amount).sum = bals.sum := by
  induction ws generalizing bals with
  | nil => rfl
  | cons w xs ih =>
    have hSplit (i : ValidatorIndex) :
        (if w.validatorIndex = i then w.amount else 0) + takenFrom i xs ≤ bals.getD i 0 := by
      simpa [takenFrom, weigh_cons] using hLe i
    have hFst : w.amount ≤ bals.getD w.validatorIndex 0 := by
      have hHere := hSplit w.validatorIndex
      rw [if_pos rfl] at hHere
      exact le_trans (Nat.le_add_right _ _) hHere
    have hxs := @ih (bals.modify w.validatorIndex (· - w.amount))
      fun i => by
        rw [getD_modify_sub]
        exact Nat.le_sub_of_add_le' (hSplit i)
    have hSum := sum_modify_sub hFst
    calc
      (applyWithdrawals bals (w :: xs)).sum + ((w :: xs).map Withdrawal.amount).sum = w.amount +
            (bals.modify w.validatorIndex (· - w.amount)).sum :=
            (add_left_comm _ _ _).trans (congrArg (w.amount + ·) hxs)
      _ = bals.sum := (add_comm _ _).trans hSum

end

----
-- Loops
----

section

variable (E : Type) [BeaconSpec E] [PresetSpec E] [StfSpec E] (state : BeaconState)

def pendingPayment (nextIndex : Nat) (withdrawals : List Withdrawal)
    (pending : PendingPartialWithdrawal) :
    Option Withdrawal := do
  let balance := getBalanceAfterWithdrawals state pending.validatorIndex withdrawals
  let validator ← state.validators[pending.validatorIndex]?
  if isEligibleForPartialWithdrawals E validator balance then
    some ⟨nextIndex, pending.validatorIndex, addressOf E validator.withdrawalCredentials,
      min (balance - minActivationBalance E) pending.amount⟩
  else
    none

def sweepPayment (nextIndex : Nat) (withdrawals : List Withdrawal) (index : ValidatorIndex) :
    Option Withdrawal := do
  let validator ← state.validators[index]?
  let amount ← sweepAmountElectra E validator (getBalanceAfterWithdrawals state index withdrawals)
    (Stf.getCurrentEpoch E state)
  some ⟨nextIndex, index, addressOf E validator.withdrawalCredentials, amount⟩

/- How many validators a sweep examines at most. -/
def sweepRounds : Nat :=
  min state.validators.length (maxValidatorsPerWithdrawalsSweep E)

/- How many withdrawals of a payload were pending at most. -/
def pendingLimit : Nat :=
  min (maxPendingPartialsPerWithdrawalsSweep E) (maxWithdrawalsPerPayload E - 1)

def sweptIndex (rounds : Nat) : ValidatorIndex :=
  (fun index => (index + 1) % state.validators.length)^[rounds] state.nextWithdrawalValidatorIndex

def sweptBefore (rounds : Nat) : List Withdrawal :=
  sweep E (sweepAmountElectra E) state rounds (getPendingPartialWithdrawals E state).2.1
    state.nextWithdrawalValidatorIndex (getPendingPartialWithdrawals E state).1

variable {E state} {ws : List Withdrawal} {next : Nat}

theorem takePending_cons {limit processed : Nat} {pending : PendingPartialWithdrawal}
    {xs : List PendingPartialWithdrawal} :
    takePending E state limit (pending :: xs) next ws processed =
      if Stf.getCurrentEpoch E state < pending.withdrawableEpoch ∨ limit ≤ ws.length then
        (ws, next, processed)
      else
        takePending E state limit xs (next + (pendingPayment E state next ws pending).toList.length)
          (ws ++ (pendingPayment E state next ws pending).toList)
          (processed + 1) := by
  rw [takePending]
  by_cases hStop : Stf.getCurrentEpoch E state < pending.withdrawableEpoch ∨ limit ≤ ws.length
  · rw [if_pos hStop, if_pos hStop]
  · unfold pendingPayment
    cases hGot : state.validators[pending.validatorIndex]? with
    | none => simp [hGot]
    | some validator =>
      by_cases hEligible : isEligibleForPartialWithdrawals E validator
          (getBalanceAfterWithdrawals state pending.validatorIndex ws)
      · simp [hGot, hEligible]
      · simp [hGot, hEligible]

variable {i : ValidatorIndex}

theorem sweep_succ {count : Nat} :
    sweep E (sweepAmountElectra E) state (count + 1) next i ws =
      if maxWithdrawalsPerPayload E ≤ ws.length then ws
      else
        sweep E (sweepAmountElectra E) state count
          (next + (sweepPayment E state next ws i).toList.length)
          ((i + 1) % state.validators.length)
          (ws ++ (sweepPayment E state next ws i).toList) := by
  rw [sweep]
  by_cases hFull : maxWithdrawalsPerPayload E ≤ ws.length
  · rw [if_pos hFull, if_pos hFull]
  · unfold sweepPayment
    cases state.validators[i]? with
    | none => simp
    | some validator =>
      cases hAmount : sweepAmountElectra E validator
          (getBalanceAfterWithdrawals state i ws) (Stf.getCurrentEpoch E state) with
      | none | some amount => simp [hAmount]

theorem lt_of_balanceAfter
    (hPos : 0 < getBalanceAfterWithdrawals state i ws) :
    i < state.accounting.balances.length := by
  by_contra hOut
  have hZero : state.accounting.balances.getD i 0 = 0 := by
    simp [Nat.le_of_not_lt hOut]
  unfold getBalanceAfterWithdrawals at hPos
  rw [hZero, Nat.zero_sub] at hPos
  exact Nat.lt_irrefl 0 hPos

omit [BeaconSpec E] in
theorem fits_pendingPayment (hNext : next = state.nextWithdrawalIndex + ws.length)
    {pending : PendingPartialWithdrawal} {w : Withdrawal}
    (hPaid : pendingPayment E state next ws pending = some w) :
    Fits state ws w := by
  rcases bind_eq_some_iff.mp hPaid with ⟨validator, _, hPaid⟩
  rcases ite_none_right_eq_some.mp hPaid with ⟨hEligible, hPaid⟩
  have hAbove := (of_decide_eq_true hEligible).2.2
  cases hPaid
  exact ⟨hNext, lt_of_balanceAfter (lt_of_le_of_lt (Nat.zero_le _) hAbove),
    le_trans (Nat.min_le_left _ _) (Nat.sub_le _ _)⟩

omit [BeaconSpec E] [StfSpec E] in
theorem sweepAmountElectra_le {validator : Validator} {bal amount : Gwei} {epoch : Epoch}
    (hAmount : sweepAmountElectra E validator bal epoch = some amount) :
    0 < bal ∧ amount ≤ bal := by
  unfold sweepAmountElectra at hAmount
  split at hAmount
  · rename_i hFull
    exact ⟨hFull.2.2, le_of_eq (Option.some.inj hAmount).symm⟩
  · rcases ite_none_right_eq_some.mp hAmount with ⟨hExcess, hAmount⟩
    cases hAmount
    exact ⟨lt_of_le_of_lt (Nat.zero_le _) hExcess.2.2, Nat.sub_le _ _⟩

theorem fits_sweepPayment (hNext : next = state.nextWithdrawalIndex + ws.length) {w : Withdrawal}
    (hPaid : sweepPayment E state next ws i = some w) :
    Fits state ws w := by
  rcases bind_eq_some_iff.mp hPaid with ⟨validator, _, hPaid⟩
  rcases bind_eq_some_iff.mp hPaid with ⟨amount, hAmount, hPaid⟩
  rcases sweepAmountElectra_le hAmount with ⟨hPos, hLe⟩
  cases hPaid
  exact ⟨hNext, lt_of_balanceAfter hPos, hLe⟩

theorem built_takePending {limit : Nat} (queue : List PendingPartialWithdrawal) (processed : Nat)
    (hBuilt : Built state ws)
    (hNext : next = state.nextWithdrawalIndex + ws.length)
    (hLimit : ws.length ≤ limit) :
    let taken := takePending E state limit queue next ws processed
    Built state taken.1 ∧ taken.1.length ≤ limit ∧
      taken.2.1 = state.nextWithdrawalIndex + taken.1.length := by
  induction queue generalizing next ws processed with
  | nil => exact ⟨hBuilt, hLimit, hNext⟩
  | cons pending xs ih =>
    rw [takePending_cons]
    split
    · exact ⟨hBuilt, hLimit, hNext⟩
    · rename_i hGoes
      refine ih _ (hBuilt.append_option fun _ hPaid => fits_pendingPayment hNext hPaid) ?_ ?_
      · rw [length_append, hNext, add_assoc]
      · have hOne := length_toList_le (o := pendingPayment E state next ws pending)
        rw [length_append]
        omega

theorem sweep_snoc (n : Nat)
    (hNext : next = state.nextWithdrawalIndex + ws.length) :
    sweep E (sweepAmountElectra E) state (n + 1) next i ws =
      let s := sweep E (sweepAmountElectra E) state n next i ws
      if maxWithdrawalsPerPayload E ≤ s.length then
        s
      else
        s ++ (sweepPayment E state (state.nextWithdrawalIndex + s.length) s
          ((fun i => (i + 1) % state.validators.length)^[n] i)).toList := by
  induction n generalizing next i ws with
  | zero =>
    rw [sweep_succ, hNext]
    rfl
  | succ n ih =>
    rw [sweep_succ]
    by_cases hFull : maxWithdrawalsPerPayload E ≤ ws.length
    · rw [if_pos hFull, sweep_succ, if_pos hFull]
      exact (if_pos hFull).symm
    · rw [if_neg hFull, ih (by rw [length_append, hNext, add_assoc]), sweep_succ, if_neg hFull]
      rfl

variable (E state)

theorem pending_spec :
    let taken := getPendingPartialWithdrawals E state
    Built state taken.1 ∧ taken.1.length ≤ maxWithdrawalsPerPayload E - 1 ∧
      taken.2.1 = state.nextWithdrawalIndex + taken.1.length := by
  rcases built_takePending (E := E) state.pendingPartialWithdrawals 0 .nil rfl (Nat.zero_le _) with
    ⟨hBuilt, hLe, hNext⟩
  exact ⟨hBuilt, le_trans hLe (Nat.min_le_right _ _), hNext⟩

theorem sweptBefore_succ (n : Nat) : sweptBefore E state (n + 1) =
      let s := sweptBefore E state n
      if maxWithdrawalsPerPayload E ≤ s.length then
        s
      else
        s ++ (sweepPayment E state (state.nextWithdrawalIndex + s.length) s
          (sweptIndex state n)).toList :=
  sweep_snoc n (pending_spec E state).2.2

theorem built_sweptBefore (n : Nat) : Built state (sweptBefore E state n) ∧
      (sweptBefore E state n).length ≤ maxWithdrawalsPerPayload E := by
  induction n with
  | zero =>
    rcases pending_spec E state with ⟨hBuilt, hLe, _⟩
    exact ⟨hBuilt, le_trans hLe (Nat.sub_le _ _)⟩
  | succ n ih =>
    rw [sweptBefore_succ]
    dsimp only
    split
    · exact ih
    · rename_i hRoom
      refine ⟨ih.1.append_option fun _ hPaid => fits_sweepPayment rfl hPaid, ?_⟩
      have hOne := length_toList_le (o := sweepPayment E state (state.nextWithdrawalIndex +
        (sweptBefore E state n).length) (sweptBefore E state n) (sweptIndex state n))
      rw [length_append]
      omega

theorem processWithdrawalsInPlace_eq (payload : ExecutionPayload) :
    processWithdrawalsInPlace E state payload =
      if payload.withdrawals = (getExpectedWithdrawalsElectra E state).1 then
        (afterWithdrawalsElectra E state, .ok ())
      else (state, .error .withdrawalsMismatch) := by
  have hApplied := applyWithdrawalsElectra_eq (built_sweptBefore E state
    (sweepRounds E state)).1.validatorIndex_lt
  by_cases hEq : payload.withdrawals = (getExpectedWithdrawalsElectra E state).1
  · rw [if_pos hEq]
    refine (if_neg (not_not.mpr hEq)).trans ?_
    change (match applyWithdrawalsElectra state (sweptBefore E state (sweepRounds E state)) with
      | (applied, .error error) => _
      | (applied, .ok ()) => _) = _
    rw [hApplied]
    rfl
  · rw [if_neg hEq]
    exact if_pos hEq

theorem processWithdrawalsInPlace_ok {payload : ExecutionPayload} {s' : BeaconState}
    (hOk : processWithdrawalsInPlace E state payload = (s', .ok ())) :
    payload.withdrawals = (getExpectedWithdrawalsElectra E state).1 ∧
      s' = afterWithdrawalsElectra E state := by
  rw [processWithdrawalsInPlace_eq] at hOk
  by_cases hEq : payload.withdrawals = (getExpectedWithdrawalsElectra E state).1
  · rw [if_pos hEq] at hOk
    exact ⟨hEq, (congrArg Prod.fst hOk).symm⟩
  · rw [if_neg hEq] at hOk
    cases hOk

theorem sweptBefore_mono {n more : Nat} (hLe : n ≤ more) :
    sweptBefore E state n <+: sweptBefore E state more := by
  induction more, hLe using Nat.le_induction with
  | base => exact prefix_refl _
  | succ more _ ih =>
    rw [sweptBefore_succ]
    dsimp only
    split
    · exact ih
    · exact ih.trans (prefix_append _ _)

theorem sweptIndex_succ (n : Nat) : sweptIndex state (n + 1) =
      (state.nextWithdrawalValidatorIndex + (n + 1)) % state.validators.length := by
  induction n with
  | zero => rfl
  | succ n ih =>
    have hStep : sweptIndex state (n + 1 + 1) = (sweptIndex state (n + 1) +
        1) % state.validators.length := Function.iterate_succ_apply' _ _ _
    rw [hStep, ih, Nat.mod_add_mod]
    rfl

theorem full_at (hMax : 0 < maxWithdrawalsPerPayload E) {n : Nat}
    (hFull : (sweptBefore E state n).length = maxWithdrawalsPerPayload E) :
    ∃ round < n, (sweptBefore E state round).length < maxWithdrawalsPerPayload E ∧
      ∃ last, last.validatorIndex = sweptIndex state round ∧
        sweptBefore E state n = sweptBefore E state round ++ [last] := by
  induction n with
  | zero =>
    have hLe : (sweptBefore E state 0).length ≤ maxWithdrawalsPerPayload E - 1 :=
      (pending_spec E state).2.1
    omega
  | succ n ih =>
    rw [sweptBefore_succ] at hFull ⊢
    by_cases hPre : maxWithdrawalsPerPayload E ≤ (sweptBefore E state n).length
    · rw [if_pos hPre] at hFull ⊢
      rcases ih hFull with ⟨round, hLt, hRound⟩
      exact ⟨round, Nat.lt_succ_of_lt hLt, hRound⟩
    · rw [if_neg hPre] at hFull ⊢
      cases hPaid : sweepPayment E state
          (state.nextWithdrawalIndex + (sweptBefore E state n).length)
          (sweptBefore E state n) (sweptIndex state n) with
      | none =>
        rw [hPaid, toList_none, append_nil] at hFull
        exact absurd (le_of_eq hFull.symm) hPre
      | some last =>
        rcases bind_eq_some_iff.mp hPaid with ⟨validator, _, hPaid⟩
        rcases bind_eq_some_iff.mp hPaid with ⟨amount, _, hPaid⟩
        refine ⟨n, Nat.lt_succ_self _, Nat.lt_of_not_le hPre, last, ?_, rfl⟩
        cases hPaid
        rfl

theorem sweep_reaches (hMax : 0 < maxWithdrawalsPerPayload E)
    (hSweep : 0 < maxValidatorsPerWithdrawalsSweep E) (hSome : state.validators ≠ []) :
    ∃ n ≤ sweepRounds E state,
      sweptIndex state n = (afterWithdrawalsElectra E state).nextWithdrawalValidatorIndex ∧
        ∀ round < n, (sweptBefore E state round).length < maxWithdrawalsPerPayload E := by
  have hCount : 0 < state.validators.length := length_pos_iff.mpr hSome
  have hNext : (afterWithdrawalsElectra E state).nextWithdrawalValidatorIndex =
      updateNextWithdrawalValidatorIndex E state (sweptBefore E state (sweepRounds E state)) := rfl
  rw [hNext]
  unfold updateNextWithdrawalValidatorIndex
  rw [if_neg hCount.ne']
  by_cases hFull : (sweptBefore E state (sweepRounds E state)).length = maxWithdrawalsPerPayload E
  · rcases full_at E state hMax hFull with ⟨round, hRound, hRoom, last, hLast, hWhole⟩
    refine ⟨round + 1, hRound, ?_, ?_⟩
    · rw [hWhole] at hFull ⊢
      rw [getLast?_concat]
      dsimp only
      rw [if_pos hFull, hLast]
      exact Function.iterate_succ_apply' _ _ _
    · intro earlier hEarlier
      exact lt_of_le_of_lt (sweptBefore_mono E state (Nat.le_of_lt_succ hEarlier)).length_le hRoom
  · -- The sweep may come around, and then all validators were examined.
    rcases Nat.exists_eq_succ_of_ne_zero hSweep.ne' with ⟨ys, hOthers⟩
    have hRounds : ys % state.validators.length + 1 ≤ sweepRounds E state := by
      unfold sweepRounds
      rw [hOthers]
      exact le_min (Nat.mod_lt _ hCount) (Nat.succ_le_succ (Nat.mod_le _ _))
    refine ⟨ys % state.validators.length + 1, hRounds, ?_, ?_⟩
    · have hTgt : sweptIndex state (ys % state.validators.length + 1) =
          (state.nextWithdrawalValidatorIndex + maxValidatorsPerWithdrawalsSweep E) %
          state.validators.length := by
        rw [sweptIndex_succ, hOthers, add_left_comm, Nat.mod_add_mod, add_left_comm]
      rw [hTgt]
      split
      · rw [if_neg hFull]
      · rfl
    · intro round hRound
      have hPrefix := sweptBefore_mono E state (le_trans (le_of_lt hRound) hRounds)
      exact lt_of_le_of_lt hPrefix.length_le (lt_of_le_of_ne (built_sweptBefore E state _).2 hFull)

theorem takePending_examined (limit : Nat) (queue : List PendingPartialWithdrawal)
    (next processed : Nat) (ws : List Withdrawal) :
    let taken := takePending E state limit queue next ws processed
    ∃ examined xs, queue = examined ++ xs ∧ taken.2.2 = processed + examined.length ∧
      takePending E state limit examined next ws processed = taken ∧
      ∀ pending ∈ xs.head?, Stf.getCurrentEpoch E state < pending.withdrawableEpoch ∨
        limit ≤ taken.1.length := by
  induction queue generalizing next ws processed with
  | nil => exact ⟨[], [], rfl, rfl, rfl, by simp⟩
  | cons pending queue ih =>
    rw [takePending_cons]
    split
    · rename_i hStop
      refine ⟨[], pending :: queue, rfl, rfl, rfl, ?_⟩
      rintro _ ⟨⟩
      exact hStop
    · rename_i hGoes
      rcases ih (next + (pendingPayment E state next ws pending).toList.length) (processed + 1)
        (ws ++ (pendingPayment E state next ws pending).toList) with
        ⟨examined, xs, hQueue, hCount, hEq, hxs⟩
      refine ⟨pending :: examined, xs, congrArg (pending :: ·) hQueue, ?_, ?_, hxs⟩
      · rw [hCount, length_cons, add_assoc, add_comm 1]
      · rw [takePending_cons, if_neg hGoes, hEq]

end

section

open Sample

/- The limits of `MinimalBeaconSpec`. -/
instance : PresetSpec ChainState where
  slotsPerHistoricalRoot := 64
  epochsPerHistoricalVector := 64
  minSeedLookahead := 1
  maxSeedLookahead := 4
  minAttestationInclusionDelay := 1
  churnLimitQuotient := 32
  minPerEpochChurnLimit := 2
  minValidatorWithdrawabilityDelay := 256
  maxEffectiveBalanceElectra := 2048000000000
  minActivationBalance := 32000000000
  maxWithdrawalsPerPayload := 4
  maxValidatorsPerWithdrawalsSweep := 16
  maxPendingPartialsPerWithdrawalsSweep := 2
  shuffleRoundCount := 10

/- Nothing but the address of credentials is of interest. -/
instance : StfSpec ChainState where
  hash _ := Vector.replicate 32 0
  hashSeed _ _ _ := Vector.replicate 32 0
  addressOf := WithdrawalCredentials.rest
  computeProposerIndexElectra _ _ _ _ := 0

/-
  Two of the validators have more than they need. The first has no address that it could be sent to.
-/
def sweptState (start : ValidatorIndex) : BeaconState :=
  { waitingState with
    validators := [⟨0, ⟨0, 0⟩, 32000000000, false, 0, 0, ⊤, ⊤⟩,
      ⟨1, ⟨1, 7⟩, 32000000000, false, 0, 0, ⊤, ⊤⟩, ⟨2, ⟨1, 8⟩, 32000000000, false, 0, 0, ⊤, ⊤⟩]
    accounting := ⟨[33000000000, 33000000000, 32000000000], [], [], [], []⟩
    nextWithdrawalValidatorIndex := start }

def onePaid : ExecutionPayload :=
  ⟨[⟨0, 1, 7, 1000000000⟩]⟩

end

end Pharos.Stf.Electra
