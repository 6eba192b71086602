import Pharos.Lib.Outcome
import Pharos.Stf.State

/-
  This file implements the withdrawals that the payload of a block has to bring, from Electra on.

  Withdrawals change balances and the place at which the next sweep starts. They change no
  validator.
-/

----
-- Sweep
----

namespace Pharos.Stf

open PresetSpec StfSpec Outcome

variable (E : Type) [BeaconSpec E] [PresetSpec E] [StfSpec E]

def eth1AddressWithdrawalByte : Nat := 1

def compoundingWithdrawalByte : Nat := 2

def unsetDepositRequestsStartIndex : Nat := Word.maxValue

variable (validator : Validator)

def hasEth1WithdrawalCredential : Bool :=
  validator.withdrawalCredentials.leadingByte = eth1AddressWithdrawalByte

def hasCompoundingWithdrawalCredential : Bool :=
  validator.withdrawalCredentials.leadingByte = compoundingWithdrawalByte

def hasExecutionWithdrawalCredential : Bool :=
  hasEth1WithdrawalCredential validator || hasCompoundingWithdrawalCredential validator

variable (state : BeaconState)

/- What earlier withdrawals of the same payload leave of a balance. -/
def getBalanceAfterWithdrawals (index : ValidatorIndex) (withdrawals : List Withdrawal) : Gwei :=
  let withdrawn :=
    ((withdrawals.filter fun withdrawal =>
      withdrawal.validatorIndex = index).map Withdrawal.amount).sum
  state.accounting.balances.getD index 0 - withdrawn

def getMaxEffectiveBalance : Gwei :=
  if hasCompoundingWithdrawalCredential validator then
    maxEffectiveBalanceElectra E
  else
    minActivationBalance E

/- All of the balance after the exit, and before it what exceeds the maximum. -/
def sweepAmountElectra (balance : Gwei) (epoch : Epoch) : Option Gwei :=
  if hasExecutionWithdrawalCredential validator ∧ validator.withdrawableEpoch ≤ (epoch : FarEpoch) ∧
      0 < balance then
    some balance
  else if hasExecutionWithdrawalCredential validator ∧
      validator.effectiveBalance = getMaxEffectiveBalance E validator ∧
      getMaxEffectiveBalance E validator < balance then
    some (balance - getMaxEffectiveBalance E validator)
  else
    none

/- The validators in turn, until the payload is full. -/
def sweep (amountOf : Validator → Gwei → Epoch → Option Gwei) (state : BeaconState) :
    Nat → Nat → ValidatorIndex → List Withdrawal → List Withdrawal
| 0, _, _, withdrawals => withdrawals
| count + 1, nextIndex, validatorIndex, withdrawals =>
  if maxWithdrawalsPerPayload E ≤ withdrawals.length then
    withdrawals
  else
    let following := (validatorIndex + 1) % state.validators.length
    let amount := do
      let validator ← state.validators[validatorIndex]?
      let amount ← amountOf validator (getBalanceAfterWithdrawals state validatorIndex withdrawals)
        (getCurrentEpoch E state)
      some (validator, amount)
    match amount with
    | some (validator, amount) =>
      sweep amountOf state count (nextIndex + 1) following (withdrawals ++
        [⟨nextIndex, validatorIndex, addressOf E validator.withdrawalCredentials, amount⟩])
    | none => sweep amountOf state count nextIndex following withdrawals

----
-- Pending Withdrawals
----

def isEligibleForPartialWithdrawals (balance : Gwei) : Bool :=
  validator.exitEpoch = farFutureEpoch ∧ minActivationBalance E ≤ validator.effectiveBalance ∧
    minActivationBalance E < balance

/- The queue up to the first entry that is not due, or until the limit. -/
def takePending (state : BeaconState) (withdrawalsLimit : Nat) :
    List PendingPartialWithdrawal → Nat → List Withdrawal → Nat → List Withdrawal × Nat × Nat
| [], nextIndex, withdrawals, processed =>
  (withdrawals, nextIndex, processed)
| pending :: rest, nextIndex, withdrawals, processed =>
  if getCurrentEpoch E state < pending.withdrawableEpoch ∨
      withdrawalsLimit ≤ withdrawals.length then
    (withdrawals, nextIndex, processed)
  else
    let index := pending.validatorIndex
    let balance := getBalanceAfterWithdrawals state index withdrawals
    match state.validators[index]? with
    | none => takePending state withdrawalsLimit rest nextIndex withdrawals (processed + 1)
    | some validator =>
      if isEligibleForPartialWithdrawals E validator balance then
        takePending state withdrawalsLimit rest (nextIndex + 1)
          (withdrawals ++ [⟨nextIndex, index, addressOf E validator.withdrawalCredentials,
              min (balance - minActivationBalance E) pending.amount⟩])
          (processed + 1)
      else
        takePending state withdrawalsLimit rest nextIndex withdrawals (processed + 1)

/- One place of the payload is left to the sweep. -/
def getPendingPartialWithdrawals : List Withdrawal × Nat × Nat :=
  takePending E state
    (min (maxPendingPartialsPerWithdrawalsSweep E) (maxWithdrawalsPerPayload E - 1))
    state.pendingPartialWithdrawals state.nextWithdrawalIndex
    [] 0

/- The queue comes first. -/
def getExpectedWithdrawalsElectra : List Withdrawal × Nat :=
  let (partials, nextIndex, processed) := getPendingPartialWithdrawals E state
  (sweep E (sweepAmountElectra E) state
    (min state.validators.length (maxValidatorsPerWithdrawalsSweep E))
    nextIndex state.nextWithdrawalValidatorIndex partials,
    processed)

----
-- Processing Withdrawals
----

def applyWithdrawals (balances : List Gwei) (withdrawals : List Withdrawal) : List Gwei :=
  withdrawals.foldl
    (fun balances withdrawal =>
      balances.modify withdrawal.validatorIndex (· - withdrawal.amount))
    balances

/- After a full payload the next sweep goes on behind its last validator. -/
def updateNextWithdrawalValidatorIndex (withdrawals : List Withdrawal) : ValidatorIndex :=
  let count := state.validators.length
  if count = 0 then
    state.nextWithdrawalValidatorIndex
  else
    match withdrawals.getLast? with
    | some last =>
      if withdrawals.length = maxWithdrawalsPerPayload E then
        (last.validatorIndex + 1) % count
      else
        (state.nextWithdrawalValidatorIndex + maxValidatorsPerWithdrawalsSweep E) % count
    | none => (state.nextWithdrawalValidatorIndex + maxValidatorsPerWithdrawalsSweep E) % count

/- The state after the withdrawals of a payload. -/
def withWithdrawals (withdrawals : List Withdrawal) (processed : Nat) : BeaconState :=
  { state with
    accounting :=
      { state.accounting with balances := applyWithdrawals state.accounting.balances withdrawals }
    nextWithdrawalIndex :=
      match withdrawals.getLast? with
      | some last => last.index + 1
      | none => state.nextWithdrawalIndex
    pendingPartialWithdrawals := state.pendingPartialWithdrawals.drop processed
    nextWithdrawalValidatorIndex := updateNextWithdrawalValidatorIndex E state withdrawals }

def afterWithdrawalsElectra : BeaconState :=
  let expected := getExpectedWithdrawalsElectra E state
  withWithdrawals E state expected.1 expected.2

end Pharos.Stf
