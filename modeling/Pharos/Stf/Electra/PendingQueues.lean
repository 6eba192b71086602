import Pharos.Lib.Sums
import Pharos.Stf.Electra.Churn

/-
  This file implements the queues through which balances move in Electra: deposits that wait to be
  credited, and validators that wait to be consolidated.

  Whether the signature of a deposit is valid is an arbitrary predicate. What a failed call leaves
  of its state is dropped with the state.
-/

----
-- Balances
----

namespace Pharos.Stf.Electra

open Checked Outcome

/- The errors that the queues return. -/
inductive EpochProcessingError where
  | validatorIndexOutOfRange (index : Nat)
  | ssz
  | stateTransition (source : StateTransitionError)
deriving DecidableEq, Repr

def EpochProcessingError.ofStateTransition : StateTransitionError → EpochProcessingError
| .ssz => .ssz
| source => .stateTransition source

section Lists

variable {Item : Type}

def withSet (items : List Item) (index : Nat) (item : Item) : Option (List Item) :=
  if index < items.length then some (items.set index item) else none

def withPush (limit : Nat) (items : List Item) (item : Item) : Option (List Item) :=
  if items.length < limit then some (items ++ [item]) else none

end Lists

section

variable (state : BeaconState)

def withBalances (balances : List Gwei) : BeaconState :=
  { state with
    accounting := { state.accounting with balances := balances } }

def balanceAt (index : ValidatorIndex) : Nat :=
  state.accounting.balances.getD index 0

/- The errors differ with the caller. -/
def setBalance (error : StateTransitionError) (state : BeaconState) (index : ValidatorIndex)
    (balance : Gwei) :
    Except StateTransitionError BeaconState := do
  let balances ← okOr (withSet state.accounting.balances index balance) error
  .ok (withBalances state balances)

def decreaseBalance (index : ValidatorIndex) (delta : Gwei) :
    Except StateTransitionError BeaconState :=
  let current := balanceAt state index
  setBalance (.indexOutOfRange index) state index (if current < delta then 0 else current - delta)

def increaseBalance (index : ValidatorIndex) (delta : Gwei) :
    Except StateTransitionError BeaconState :=
  setBalance (.indexOutOfRange index) state index (Word.satAdd (balanceAt state index) delta)

end

----
-- Excess Balances
----

section

def g2PointAtInfinity : BLSSignature :=
  0xc0 * 256 ^ 95

def genesisSlot : Slot := 0

variable (E : ElectraPreset)

def queueBalanceAbove (kept : Gwei) (state : BeaconState) (index : ValidatorIndex) :
    Except StateTransitionError BeaconState := do
  let reduced ← setBalance .ssz state index kept
  let validator ← okOr state.validators[index]? .slotOutOfRange
  let deposits ←
    okOr (withPush E.maxPendingDepositsLimit state.pendingDeposits
      { pubkey := validator.pubkey
        withdrawalCredentials := validator.withdrawalCredentials
        amount := balanceAt state index - kept
        signature := g2PointAtInfinity
        slot := genesisSlot }) .ssz
  .ok { reduced with pendingDeposits := deposits }

section

variable (state : BeaconState)

def queueExcessActiveBalance (index : ValidatorIndex) : Except StateTransitionError BeaconState :=
  if E.minActivationBalance < balanceAt state index then
    queueBalanceAbove E E.minActivationBalance state index
  else
    .ok state

def switchToCompoundingValidator (index : ValidatorIndex) :
    Except StateTransitionError BeaconState := do
  let validator ← okOr state.validators[index]? .slotOutOfRange
  let compounding :=
    { validator with
      withdrawalCredentials :=
        { validator.withdrawalCredentials with leadingByte := compoundingWithdrawalByte } }
  let validators ← okOr (withSet state.validators index compounding) .ssz
  queueExcessActiveBalance E { state with validators := validators } index

def consolidate (nextEpoch : Epoch) (run : BeaconState × Nat) (pending : PendingConsolidation) :
    Except EpochProcessingError (Bool × BeaconState × Nat) := do
  let (state, next) := run
  let source ← okOr state.validators[pending.sourceIndex]?
    (.validatorIndexOutOfRange pending.sourceIndex)
  if source.slashed then
    .ok (true, state, next + 1)
  else if (nextEpoch : FarEpoch) < source.withdrawableEpoch then
    .ok (false, state, next)
  else do
    let moved := min (balanceAt state pending.sourceIndex) source.effectiveBalance
    let decreased ← (decreaseBalance state pending.sourceIndex moved).mapError .ofStateTransition
    let increased ←
      (increaseBalance decreased pending.targetIndex moved).mapError .ofStateTransition
    .ok (true, increased, next + 1)

def processPendingConsolidations : Except (Halt EpochProcessingError) BeaconState := do
  let currentEpoch ← orPanic (getCurrentEpoch E state)
  let nextEpoch ← orPanic (add currentEpoch 1)
  let (after, next) ← orError (loop (consolidate nextEpoch) (state, 0) state.pendingConsolidations)
  let remaining := state.pendingConsolidations.drop next
  orError (require (remaining.length ≤ E.maxPendingConsolidationsLimit) .ssz)
  .ok { after with pendingConsolidations := remaining }

----
-- Pending Deposits
----

def getMaxEffectiveBalance (validator : Validator) : Gwei :=
  if hasCompoundingWithdrawalCredential validator then
    E.maxEffectiveBalanceElectra
  else
    E.minActivationBalance

def getValidatorFromDeposit (deposit : PendingDeposit) : Validator :=
  let validator : Validator :=
    { pubkey := deposit.pubkey
      withdrawalCredentials := deposit.withdrawalCredentials
      effectiveBalance := 0
      slashed := false
      activationEligibilityEpoch := farFutureEpoch
      activationEpoch := farFutureEpoch
      exitEpoch := farFutureEpoch
      withdrawableEpoch := farFutureEpoch }
  { validator with
    effectiveBalance :=
      min (deposit.amount - deposit.amount % E.effectiveBalanceIncrement)
        (getMaxEffectiveBalance E validator) }

def addValidatorToRegistry (deposit : PendingDeposit) :
    Except StateTransitionError BeaconState := do
  let limit := E.validatorRegistryLimit
  let accounting := state.accounting
  let validators ← okOr (withPush limit state.validators (getValidatorFromDeposit E deposit)) .ssz
  let balances ← okOr (withPush limit accounting.balances deposit.amount) .ssz
  let previous ← okOr (withPush limit accounting.previousEpochParticipation 0) .ssz
  let current ← okOr (withPush limit accounting.currentEpochParticipation 0) .ssz
  let scores ← okOr (withPush limit accounting.inactivityScores 0) .ssz
  .ok
    { state with
      validators := validators
      accounting :=
        { accounting with
          balances := balances
          previousEpochParticipation := previous
          currentEpochParticipation := current
          inactivityScores := scores } }

end

variable (isValidDepositSignature : PendingDeposit → Bool)

section

variable (state : BeaconState)

def applyPendingDeposit (deposit : PendingDeposit) : Except EpochProcessingError BeaconState :=
  match state.validators.findIdx? fun validator =>
      validator.pubkey = deposit.pubkey with
  | none =>
    if isValidDepositSignature deposit then
      -- The count is read after the validator was pushed.
      (addValidatorToRegistry E state deposit).mapError fun _ => .validatorIndexOutOfRange
        (min (state.validators.length + 1) E.validatorRegistryLimit)
    else
      .ok state
  | some index => (increaseBalance state index deposit.amount).mapError .ofStateTransition

/- What stays the same during the loop. -/
structure SweepLimits where
  nextEpoch : Epoch
  availableForProcessing : Gwei
  finalizedSlot : Slot

/- What the loop over the pending deposits keeps track of. -/
structure DepositSweep where
  state : BeaconState
  processedAmount : Gwei
  nextDepositIndex : Nat
  depositsToPostpone : List PendingDeposit
  isChurnLimitReached : Bool
  pubkeyToIndex : List (BLSPubkey × Nat)

inductive DepositVerdict where
  | stop
  | credit
  | postpone
  | charge
deriving DecidableEq, Repr

def pubkeyToIndex (validators : List Validator) : List (BLSPubkey × Nat) :=
  validators.zipIdx.map fun entry => (entry.1.pubkey, entry.2)

def sweepLimits : Except Fault SweepLimits := do
  let currentEpoch ← getCurrentEpoch E state
  let nextEpoch ← add currentEpoch 1
  let churn ← getActivationExitChurnLimit E state
  let available ← add state.depositBalanceToConsume churn
  let finalizedSlot ← mul state.finalizedCheckpoint.epoch E.slotsPerEpoch
  .ok ⟨nextEpoch, available, finalizedSlot⟩

def startSweep : DepositSweep where
  state := state
  processedAmount := 0
  nextDepositIndex := 0
  depositsToPostpone := []
  isChurnLimitReached := false
  pubkeyToIndex := pubkeyToIndex state.validators

def depositVerdict (limits : SweepLimits) (sweep : DepositSweep) (deposit : PendingDeposit) :
    DepositVerdict :=
  let state := sweep.state
  let validator :=
    (sweep.pubkeyToIndex.lookup deposit.pubkey).bind fun index =>
      state.validators[index]?
  if (genesisSlot < deposit.slot ∧ state.eth1DepositIndex < state.depositRequestsStartIndex) ∨
      limits.finalizedSlot < deposit.slot ∨
      E.maxPendingDepositsPerEpoch ≤ sweep.nextDepositIndex then
    .stop
  else if validator.any fun validator =>
      validator.withdrawableEpoch < (limits.nextEpoch : FarEpoch) then
    .credit
  else if validator.any fun validator =>
      validator.exitEpoch < farFutureEpoch then
    .postpone
  else
    .charge

def sweepDeposit (limits : SweepLimits) (sweep : DepositSweep) (deposit : PendingDeposit) :
    Except (Halt EpochProcessingError) (Bool × DepositSweep) :=
  let next := sweep.nextDepositIndex + 1
  match depositVerdict E limits sweep deposit with
  | .stop => .ok (false, sweep)
  | .credit => do
      let state ← orError (applyPendingDeposit E isValidDepositSignature sweep.state deposit)
      .ok (true,
        { sweep with state := state, nextDepositIndex := next })
  | .postpone =>
    .ok (true,
      { sweep with
        depositsToPostpone := sweep.depositsToPostpone ++ [deposit]
        nextDepositIndex := next })
  | .charge => do
      let processed ← orPanic (add sweep.processedAmount deposit.amount)
      if limits.availableForProcessing < processed then
        .ok (false, { sweep with isChurnLimitReached := true })
      else do
        let lenBefore := sweep.state.validators.length
        let state ← orError (applyPendingDeposit E isValidDepositSignature sweep.state deposit)
        .ok (true,
          { sweep with
            state := state
            processedAmount := processed
            nextDepositIndex := next
            pubkeyToIndex :=
              if lenBefore < state.validators.length then
                sweep.pubkeyToIndex ++ [(deposit.pubkey, lenBefore)]
              else
                sweep.pubkeyToIndex })

/- What the next epoch may use, if a deposit had to wait. -/
def unusedChurn (limits : SweepLimits) (done : DepositSweep) : Except Fault Gwei :=
  if done.isChurnLimitReached then
    sub limits.availableForProcessing done.processedAmount
  else
    .ok 0

def processPendingDeposits : Except (Halt EpochProcessingError) BeaconState := do
  let limits ← orPanic (sweepLimits E state)
  let done ←
    loop (sweepDeposit E isValidDepositSignature limits) (startSweep state) state.pendingDeposits
  let remaining := state.pendingDeposits.drop done.nextDepositIndex ++ done.depositsToPostpone
  orError (require (remaining.length ≤ E.maxPendingDepositsLimit) .ssz)
  let left ← orPanic (unusedChurn limits done)
  .ok
    { done.state with
      pendingDeposits := remaining
      depositBalanceToConsume := left }

end

end

----
-- Upgrade
----

variable (E : ElectraPreset)

def earliestExitEpochOf (validators : List Validator) (activationExitEpoch : Epoch) : Epoch :=
  validators.foldl
    (fun earliest validator =>
      if validator.exitEpoch ≠ farFutureEpoch ∧ (earliest : FarEpoch) < validator.exitEpoch then
        validator.exitEpoch.untopD 0
      else
        earliest)
    activationExitEpoch

def preActivation (validators : List Validator) : List ValidatorIndex :=
  let waiting := validators.zipIdx.filter fun entry =>
    entry.1.activationEpoch = farFutureEpoch
  (waiting.mergeSort fun first second =>
    first.1.activationEligibilityEpoch < second.1.activationEligibilityEpoch ||
      (first.1.activationEligibilityEpoch = second.1.activationEligibilityEpoch &&
        first.2 ≤ second.2)).map Prod.snd

def queueEntireBalance (state : BeaconState) (index : ValidatorIndex) :
    Except StateTransitionError BeaconState := do
  let queued ← queueBalanceAbove E 0 state index
  .ok
    { queued with
      validators := queued.validators.modify index
        fun validator =>
          { validator with
            effectiveBalance := 0
            activationEligibilityEpoch := farFutureEpoch } }

def upgradeToElectra (electraForkVersion : Version) (pre : BeaconState) :
    Except (Halt StateTransitionError) BeaconState := do
  let epoch ← orPanic (getCurrentEpoch E pre)
  let nextEpoch ← orPanic (add epoch 1)
  let activationExitEpoch ← orPanic (add nextEpoch E.maxSeedLookahead)
  let earliestExitEpoch ← orPanic (add (earliestExitEpochOf pre.validators activationExitEpoch) 1)
  let post : BeaconState :=
    { pre with
      forkVariant := .electra
      fork :=
        { previousVersion := pre.fork.currentVersion
          currentVersion := electraForkVersion
          epoch := epoch }
      depositRequestsStartIndex := unsetDepositRequestsStartIndex
      depositBalanceToConsume := 0
      exitBalanceToConsume := 0
      earliestExitEpoch := earliestExitEpoch
      consolidationBalanceToConsume := 0
      earliestConsolidationEpoch := activationExitEpoch
      pendingDeposits := []
      pendingPartialWithdrawals := []
      pendingConsolidations := [] }
  let exitChurn ← orPanic (getActivationExitChurnLimit E post)
  let consolidationChurn ← orPanic (getConsolidationChurnLimit E post)
  let waiting ←
    orError ((preActivation post.validators).foldlM (queueEntireBalance E)
      { post with
        exitBalanceToConsume := exitChurn
        consolidationBalanceToConsume := consolidationChurn })
  let compounding :=
    (waiting.validators.zipIdx.filter fun entry =>
      hasCompoundingWithdrawalCredential entry.1).map Prod.snd
  orError (compounding.foldlM (queueExcessActiveBalance E) waiting)

end Pharos.Stf.Electra
