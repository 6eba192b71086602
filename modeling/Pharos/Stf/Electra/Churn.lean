import Pharos.Lib.Checked
import Pharos.Stf.Payload

/-
  This file implements how much balance may exit, and how much may be consolidated, in an epoch.
  Exits and consolidations are assigned to the earliest epoch that has room for them.

  Numbers of the source are words of 64 bits. An operation that has no result, or none that fits,
  stops the calculation.
-/

----
-- Presets
----

namespace Pharos.Stf.Electra

section

/- The constants that the queues of Electra depend on. -/
structure ElectraConstants where
  slotsPerEpoch : Nat
  maxSeedLookahead : Nat
  effectiveBalanceIncrement : Gwei
  validatorRegistryLimit : Nat
  minValidatorWithdrawabilityDelay : Nat
  shardCommitteePeriod : Nat
  churnLimitQuotient : Nat
  maxPendingDepositsLimit : Nat
  maxPendingDepositsPerEpoch : Nat
  maxPendingConsolidationsLimit : Nat
  maxEffectiveBalanceElectra : Gwei
  minActivationBalance : Gwei
  minPerEpochChurnLimitElectra : Gwei
  maxPerEpochActivationExitChurnLimit : Gwei

/- An epoch has slots, and the least churn is an increment or more. -/
structure ElectraConstants.Lawful (constants : ElectraConstants) : Prop where
  slotsPerEpoch_pos : 0 < constants.slotsPerEpoch
  increment_pos : 0 < constants.effectiveBalanceIncrement
  quotient_pos : 0 < constants.churnLimitQuotient
  increment_le : constants.effectiveBalanceIncrement ≤ constants.minPerEpochChurnLimitElectra
  maxChurn_pos : 0 < constants.maxPerEpochActivationExitChurnLimit

structure ElectraPreset extends ElectraConstants where
  lawful : toElectraConstants.Lawful

def mainnetConstants : ElectraConstants where
  slotsPerEpoch := 32
  maxSeedLookahead := 4
  effectiveBalanceIncrement := 1000000000
  validatorRegistryLimit := 1099511627776
  minValidatorWithdrawabilityDelay := 256
  shardCommitteePeriod := 256
  churnLimitQuotient := 65536
  maxPendingDepositsLimit := 134217728
  maxPendingDepositsPerEpoch := 16
  maxPendingConsolidationsLimit := 262144
  maxEffectiveBalanceElectra := 2048000000000
  minActivationBalance := 32000000000
  minPerEpochChurnLimitElectra := 128000000000
  maxPerEpochActivationExitChurnLimit := 256000000000

theorem lawful_mainnetConstants : mainnetConstants.Lawful := by
  constructor <;> simp [mainnetConstants]

/- `MainnetBeaconSpec`. -/
def mainnet : ElectraPreset :=
  ⟨mainnetConstants, lawful_mainnetConstants⟩

----
-- Churn Limits
----

open Checked

variable (E : ElectraPreset) (state : BeaconState)

def getCurrentEpoch : Except Fault Epoch :=
  div state.slot E.slotsPerEpoch

def getTotalActiveBalance : Except Fault Gwei := do
  let currentEpoch ← getCurrentEpoch E state
  let total ← sum (activeBalances state.validators currentEpoch)
  .ok (max total E.effectiveBalanceIncrement)

def getBalanceChurnLimit : Except Fault Gwei := do
  let totalActive ← getTotalActiveBalance E state
  let share ← div totalActive E.churnLimitQuotient
  let churn := max E.minPerEpochChurnLimitElectra share
  let excess ← rem churn E.effectiveBalanceIncrement
  sub churn excess

def getActivationExitChurnLimit : Except Fault Gwei := do
  let balanceChurn ← getBalanceChurnLimit E state
  .ok (min E.maxPerEpochActivationExitChurnLimit balanceChurn)

def getConsolidationChurnLimit : Except Fault Gwei := do
  let balanceChurn ← getBalanceChurnLimit E state
  let activationExitChurn ← getActivationExitChurnLimit E state
  sub balanceChurn activationExitChurn

end

----
-- Assignment of Epochs
----

open Checked

/-
  What a call works with: the current epoch, the earliest epoch that the state knows, the churn of
  an epoch, and what is left of the first epoch that the call may use.
-/
structure ChurnWindow where
  currentEpoch : Epoch
  earliest : Epoch
  first : Epoch
  perEpochChurn : Gwei
  toConsume : Gwei
deriving DecidableEq, Repr

/- The epoch that a balance got, and what is left of it. -/
structure Assignment where
  epoch : Epoch
  left : Gwei
deriving DecidableEq, Repr

section

variable (E : ElectraPreset)

def openWindow (state : BeaconState) (churnLimit : Except Fault Gwei)
    (earliest : Epoch) (left : Gwei) :
    Except Fault ChurnWindow := do
  let currentEpoch ← getCurrentEpoch E state
  let nextEpoch ← add currentEpoch 1
  let activationExitEpoch ← add nextEpoch E.maxSeedLookahead
  let first := max earliest activationExitEpoch
  let perEpochChurn ← churnLimit
  .ok
    { currentEpoch := currentEpoch
      earliest := earliest
      first := first
      perEpochChurn := perEpochChurn
      toConsume :=
        if earliest < first then perEpochChurn else left }

/- As many epochs are added as the balance needs. -/
def ChurnWindow.assign (window : ChurnWindow) (balance : Gwei) : Except Fault Assignment :=
  if window.toConsume < balance then do
    let balanceToProcess ← sub balance window.toConsume
    let before ← sub balanceToProcess 1
    let whole ← div before window.perEpochChurn
    let additionalEpochs ← add whole 1
    let epoch ← add window.first additionalEpochs
    let added ← mul additionalEpochs window.perEpochChurn
    let toConsume ← add window.toConsume added
    let left ← sub toConsume balance
    .ok ⟨epoch, left⟩
  else do
    let left ← sub window.toConsume balance
    .ok ⟨window.first, left⟩

def exitWindow (state : BeaconState) : Except Fault ChurnWindow :=
  openWindow E state
    (getActivationExitChurnLimit E state)
    state.earliestExitEpoch state.exitBalanceToConsume

def consolidationWindow (state : BeaconState) : Except Fault ChurnWindow :=
  openWindow E state
    (getConsolidationChurnLimit E state)
    state.earliestConsolidationEpoch
    state.consolidationBalanceToConsume

def computeExitEpochAndUpdateChurn (state : BeaconState) (exitBalance : Gwei) :
    Except Fault (Epoch × BeaconState) := do
  let window ← exitWindow E state
  let assigned ← window.assign exitBalance
  .ok (assigned.epoch,
    { state with
      exitBalanceToConsume := assigned.left
      earliestExitEpoch := assigned.epoch })

def computeConsolidationEpochAndUpdateChurn (state : BeaconState) (consolidationBalance : Gwei) :
    Except Fault (Epoch × BeaconState) := do
  let window ← consolidationWindow E state
  let assigned ← window.assign consolidationBalance
  .ok (assigned.epoch,
    { state with
      consolidationBalanceToConsume := assigned.left
      earliestConsolidationEpoch := assigned.epoch })

end

----
-- No Faults but Overflows
----

open Outcome

variable (p : ElectraPreset) (s : BeaconState)

theorem overflowOnly_getCurrentEpoch : OverflowOnly (getCurrentEpoch p s) :=
  overflowOnly_div _ p.lawful.slotsPerEpoch_pos

theorem overflowOnly_getTotalActiveBalance : OverflowOnly (getTotalActiveBalance p s) := by
  refine failsOnly_bind (overflowOnly_getCurrentEpoch p s) ?_
  intro now _
  exact failsOnly_bind_ok (overflowOnly_sum _)

theorem overflowOnly_getBalanceChurnLimit : OverflowOnly (getBalanceChurnLimit p s) := by
  refine failsOnly_bind (overflowOnly_getTotalActiveBalance p s) ?_
  intro totalActive _
  refine failsOnly_bind (overflowOnly_div _ p.lawful.quotient_pos) ?_
  intro share _
  refine failsOnly_bind (overflowOnly_rem _ p.lawful.increment_pos) ?_
  intro excess hExcess
  apply overflowOnly_sub
  rw [← (rem_ok_iff.mp hExcess).2]
  exact Nat.mod_le _ _

theorem overflowOnly_getActivationExitChurnLimit :
    OverflowOnly (getActivationExitChurnLimit p s) := by
  exact failsOnly_bind_ok (overflowOnly_getBalanceChurnLimit p s)

theorem overflowOnly_getConsolidationChurnLimit :
    OverflowOnly (getConsolidationChurnLimit p s) := by
  refine failsOnly_bind (overflowOnly_getBalanceChurnLimit p s) ?_
  intro balanceChurn hBal
  refine failsOnly_bind (overflowOnly_getActivationExitChurnLimit p s) ?_
  intro activationExitChurn hActivationExit
  apply overflowOnly_sub
  -- Both limits are read off the same state.
  rcases bind_ok_iff.mp hActivationExit with ⟨sameChurn, hEq, hMin⟩
  rw [hBal] at hEq
  rw [← Except.ok.inj hMin, ← Except.ok.inj hEq]
  exact min_le_right _ _

variable {p s}

/- Rounding down leaves an increment at least. -/
theorem getBalanceChurnLimit_pos {churn : Gwei}
    (hChurn : getBalanceChurnLimit p s = .ok churn) : 0 < churn := by
  rcases bind_ok_iff.mp hChurn with ⟨totalActive, _, hShare⟩
  rcases bind_ok_iff.mp hShare with ⟨share, _, hExcess⟩
  rcases bind_ok_iff.mp hExcess with ⟨excess, hRem, hSub⟩
  have hMod := (rem_ok_iff.mp hRem).2
  have hLess : excess < p.effectiveBalanceIncrement := by
    rw [← hMod]
    exact Nat.mod_lt _ p.lawful.increment_pos
  have hLeast : p.effectiveBalanceIncrement ≤ max p.minPerEpochChurnLimitElectra share :=
      le_trans p.lawful.increment_le (le_max_left _ _)
  rw [← (sub_ok_iff.mp hSub).2]
  exact Nat.sub_pos_of_lt (lt_of_lt_of_le hLess hLeast)

theorem getActivationExitChurnLimit_pos {churn : Gwei}
    (hChurn : getActivationExitChurnLimit p s = .ok churn) : 0 < churn := by
  rcases bind_ok_iff.mp hChurn with ⟨balanceChurn, hBal, hMin⟩
  cases hMin
  exact lt_min p.lawful.maxChurn_pos (getBalanceChurnLimit_pos hBal)

theorem overflowOnly_openWindow {churnLimit : Except Fault Gwei}
    (hLimit : OverflowOnly churnLimit) (earliest : Epoch) (left : Gwei) :
    OverflowOnly (openWindow p s churnLimit earliest left) := by
  refine failsOnly_bind (overflowOnly_getCurrentEpoch p s) ?_
  intro now _
  refine failsOnly_bind (overflowOnly_add _ _) ?_
  intro nextEpoch _
  refine failsOnly_bind (overflowOnly_add _ _) ?_
  intro activationExitEpoch _
  refine failsOnly_bind hLimit ?_
  intro perEpochChurn _
  exact failsOnly_ok _

theorem le_additionalEpochs_mul {churn : Nat} (hPos : 0 < churn) (bal : Nat) :
    bal ≤ ((bal - 1) / churn + 1) * churn := by
  have hLess := Nat.lt_div_mul_add hPos (a := bal - 1)
  rw [Nat.succ_mul]
  omega

theorem overflowOnly_assign {window : ChurnWindow} (hPos : 0 < window.perEpochChurn)
    (bal : Gwei) : OverflowOnly (window.assign bal) := by
  unfold ChurnWindow.assign
  split
  · rename_i hMore
    refine failsOnly_bind (overflowOnly_sub hMore.le) ?_
    intro xs hxs
    have hxs := (sub_ok_iff.mp hxs).2
    have hOne : 1 ≤ xs := hxs ▸ Nat.sub_pos_of_lt hMore
    refine failsOnly_bind (overflowOnly_sub hOne) ?_
    intro s hPre
    refine failsOnly_bind (overflowOnly_div _ hPos) ?_
    intro whole hWhole
    refine failsOnly_bind (overflowOnly_add _ _) ?_
    intro additional hAdditional
    refine failsOnly_bind (overflowOnly_add _ _) ?_
    intro epoch _
    refine failsOnly_bind (overflowOnly_mul _ _) ?_
    intro added hAdd
    refine failsOnly_bind (overflowOnly_add _ _) ?_
    intro available hAvail
    refine failsOnly_bind_ok (overflowOnly_sub ?_)
    have hEnough := le_additionalEpochs_mul hPos xs
    rw [(sub_ok_iff.mp hPre).2, (div_ok_iff.mp hWhole).2, (add_ok_iff.mp hAdditional).2,
      (mul_ok_iff.mp hAdd).2, ← hxs] at hEnough
    rw [← (add_ok_iff.mp hAvail).2]
    exact Nat.sub_le_iff_le_add'.mp hEnough
  · rename_i hEnough
    exact failsOnly_bind_ok (overflowOnly_sub (Nat.le_of_not_lt hEnough))

theorem ChurnWindow.assign_ok {window : ChurnWindow} {bal : Nat} {assigned : Assignment}
    (hOk : window.assign bal = .ok assigned) :
    window.first ≤ assigned.epoch ∧ assigned.left + bal + window.perEpochChurn * window.first =
      window.toConsume + window.perEpochChurn * assigned.epoch := by
  unfold ChurnWindow.assign at hOk
  split at hOk
  · rcases bind_ok_iff.mp hOk with ⟨_, _, hOk⟩
    rcases bind_ok_iff.mp hOk with ⟨_, _, hOk⟩
    rcases bind_ok_iff.mp hOk with ⟨_, _, hOk⟩
    rcases bind_ok_iff.mp hOk with ⟨additional, _, hOk⟩
    rcases bind_ok_iff.mp hOk with ⟨epoch, hEp, hOk⟩
    rcases bind_ok_iff.mp hOk with ⟨added, hAdd, hOk⟩
    rcases bind_ok_iff.mp hOk with ⟨available, hSum, hOk⟩
    rcases bind_ok_iff.mp hOk with ⟨left, hLeft, hOk⟩
    rw [← Except.ok.inj hOk, ← (add_ok_iff.mp hEp).2]
    refine ⟨Nat.le_add_right _ _, ?_⟩
    have hAdd := (mul_ok_iff.mp hAdd).2
    have hSum := (add_ok_iff.mp hSum).2
    rcases sub_ok_iff.mp hLeft with ⟨hLe, hLeft⟩
    rw [Nat.mul_comm] at hAdd
    rw [← hLeft, Nat.sub_add_cancel hLe, ← hSum, ← hAdd, Nat.mul_add, Nat.add_assoc]
    exact congrArg (window.toConsume + ·) (Nat.add_comm _ _)
  · rcases bind_ok_iff.mp hOk with ⟨left, hLeft, hOk⟩
    rcases sub_ok_iff.mp hLeft with ⟨hLe, hLeft⟩
    rw [← Except.ok.inj hOk, ← hLeft, Nat.sub_add_cancel hLe]
    exact ⟨le_rfl, rfl⟩

end Pharos.Stf.Electra
