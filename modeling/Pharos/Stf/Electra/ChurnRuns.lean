import Pharos.Lib.Allowance
import Pharos.Stf.Electra.Conservation

/-
  This file implements requests for consolidations, and runs of exits and consolidations while the
  epochs pass. In a run, no more balance leaves in a number of epochs than the churn of an epoch
  allows for.

  A new epoch is opened by a call that comes so late that the earliest epoch of the state is before
  the first epoch that can still be assigned. Later epochs that a large balance is moved on to take
  it as a whole.

  Main theorems:
  * `Electra.churn_bounded`
-/

----
-- Consolidation Requests
----

namespace Pharos.Stf.Electra

open List Checked Outcome

section

variable (E : ElectraPreset) (state : BeaconState) (request : ConsolidationRequest)

def isSourceAddress (validator : Validator) : Bool :=
  validator.withdrawalCredentials.rest % 2 ^ 160 = request.sourceAddress

def isValidSwitchToCompoundingRequest (currentEpoch : Epoch) (indices : List (BLSPubkey × Nat)) :
    Bool :=
  request.sourcePubkey = request.targetPubkey &&
    ((indices.lookup request.sourcePubkey).bind fun index =>
      state.validators[index]?).any fun validator =>
        isSourceAddress request validator && hasEth1WithdrawalCredential validator &&
          isActiveValidator validator currentEpoch &&
          validator.exitEpoch = farFutureEpoch

/- What is done with a request. -/
inductive RequestVerdict where
  | ignore
  | switch (source : ValidatorIndex)
  | consolidate (source target : ValidatorIndex) (validator : Validator)

def mayConsolidate (currentEpoch : Epoch) (index : ValidatorIndex) (source target : Validator) :
    Except Fault Bool :=
  if hasExecutionWithdrawalCredential source && isSourceAddress request source &&
      hasCompoundingWithdrawalCredential target &&
      isActiveValidator source currentEpoch &&
      isActiveValidator target currentEpoch &&
      source.exitEpoch = farFutureEpoch &&
      target.exitEpoch = farFutureEpoch then do
    -- The source is active, so it has an activation epoch.
    let mature ← add (source.activationEpoch.untopD 0) E.shardCommitteePeriod
    if currentEpoch < mature then
      .ok false
    else do
      let toWithdraw ← sum
        ((state.pendingPartialWithdrawals.filter fun pending =>
          pending.validatorIndex = index).map PendingPartialWithdrawal.amount)
      .ok (toWithdraw = 0)
  else
    .ok false

def consolidationVerdict (currentEpoch : Epoch) (indices : List (BLSPubkey × Nat)) :
    Except (Halt StateTransitionError) RequestVerdict :=
  match indices.lookup request.sourcePubkey, indices.lookup request.targetPubkey with
  | some source, some target => do
      let sourceValidator ← orError (okOr state.validators[source]? .slotOutOfRange)
      let targetValidator ← orError (okOr state.validators[target]? .slotOutOfRange)
      let accepted ←
        orPanic (mayConsolidate E state request currentEpoch source sourceValidator targetValidator)
      .ok (if accepted then .consolidate source target sourceValidator else .ignore)
  | _, _ => .ok .ignore

def requestVerdict : Except (Halt StateTransitionError) RequestVerdict := do
  let indices := pubkeyToIndex state.validators
  let currentEpoch ← orPanic (getCurrentEpoch E state)
  if isValidSwitchToCompoundingRequest state request currentEpoch indices then do
    let source ← orError (okOr (indices.lookup request.sourcePubkey) .slotOutOfRange)
    .ok (.switch source)
  else if request.sourcePubkey = request.targetPubkey ∨
      state.pendingConsolidations.length = E.maxPendingConsolidationsLimit then
    .ok .ignore
  else do
    let churnLimit ← orPanic (getConsolidationChurnLimit E state)
    if churnLimit ≤ E.minActivationBalance then
      .ok .ignore
    else
      consolidationVerdict E state request currentEpoch indices

def applyVerdict : RequestVerdict → Except (Halt StateTransitionError) BeaconState
| .ignore => .ok state
| .switch source =>
  orError (switchToCompoundingValidator E state source)
| .consolidate source target validator => do
    let (exitEpoch, churned) ←
      orPanic (computeConsolidationEpochAndUpdateChurn E state validator.effectiveBalance)
    let withdrawableEpoch ← orPanic (add exitEpoch E.minValidatorWithdrawabilityDelay)
    let validators ←
      orError (okOr (withSet churned.validators source
        { validator with
          exitEpoch := (exitEpoch : FarEpoch)
          withdrawableEpoch := (withdrawableEpoch : FarEpoch) })
        .ssz)
    let consolidations ←
      orError (okOr (withPush E.maxPendingConsolidationsLimit
        churned.pendingConsolidations ⟨source, target⟩) .ssz)
    .ok
      { churned with
        validators := validators
        pendingConsolidations := consolidations }

def processConsolidationRequest : Except (Halt StateTransitionError) BeaconState := do
  let verdict ← requestVerdict E state request
  applyVerdict E state verdict

end

----
-- Runs
----

section

open Allowance

inductive ChurnKind where
  | exit
  | consolidation
deriving DecidableEq, Repr

def ChurnKind.account : ChurnKind → BeaconState → Account
| .exit, state =>
  ⟨state.earliestExitEpoch, state.exitBalanceToConsume⟩
| .consolidation, state =>
  ⟨state.earliestConsolidationEpoch, state.consolidationBalanceToConsume⟩

section

variable (E : ElectraPreset)

def ChurnKind.window : ChurnKind → BeaconState → Except Fault ChurnWindow
| .exit, state => exitWindow E state
| .consolidation, state => consolidationWindow E state

/-
  A balance that was assigned to an epoch, as a draw: on what the state held, of what it holds
  afterwards.
-/
structure ChurnCall extends Draw where
  kind : ChurnKind
  currentEpoch : Epoch
deriving DecidableEq, Repr

def recordCall (kind : ChurnKind) (balance : Gwei) (state after : BeaconState) :
    Except Fault ChurnCall := do
  let window ← kind.window E state
  .ok
    { kind := kind
      currentEpoch := window.currentEpoch
      held := kind.account state
      first := window.first
      rate := window.perEpochChurn
      amount := balance
      granted := kind.account after }

def RequestVerdict.calls (state after : BeaconState) :
    RequestVerdict → Except Fault (List ChurnCall)
| .consolidate _ _ validator => do
    let call ← recordCall E .consolidation validator.effectiveBalance state after
    .ok [call]
| _ => .ok []

inductive ChurnAction where
  | exit (balance : Gwei)
  | request (request : ConsolidationRequest)
  | advance (next : BeaconState)

/- A state of the same or a later slot. It may differ in all but the accounts. -/
def advanceTo (state next : BeaconState) : BeaconState :=
  { next with
    slot := max state.slot next.slot
    exitBalanceToConsume := state.exitBalanceToConsume
    earliestExitEpoch := state.earliestExitEpoch
    consolidationBalanceToConsume := state.consolidationBalanceToConsume
    earliestConsolidationEpoch := state.earliestConsolidationEpoch }

def churnStep (state : BeaconState) :
    ChurnAction → Except (Halt StateTransitionError) (BeaconState × List ChurnCall)
| .exit balance => do
    let (_, after) ← orPanic (computeExitEpochAndUpdateChurn E state balance)
    let call ← orPanic (recordCall E .exit balance state after)
    .ok (after, [call])
| .request request => do
    let verdict ← requestVerdict E state request
    let after ← processConsolidationRequest E state request
    let calls ← orPanic (verdict.calls E state after)
    .ok (after, calls)
| .advance next => .ok (advanceTo state next, [])

end

def runChurn (E : ElectraPreset) : BeaconState → List ChurnAction →
      Except (Halt StateTransitionError) (BeaconState × List ChurnCall)
| state, [] => .ok (state, [])
| state, action :: rest => do
    let (next, calls) ← churnStep E state action
    let (after, later) ← runChurn E next rest
    .ok (after, calls ++ later)

def drawsOf (kind : ChurnKind) (calls : List ChurnCall) : List Draw :=
  (calls.filter fun call => call.kind = kind).map ChurnCall.toDraw

end

----
-- No Faults but Overflows
----

section

variable {p : ElectraPreset} {s s' : BeaconState} {req : ConsolidationRequest}

theorem overflowOnly_mayConsolidate (now : Epoch) (i : ValidatorIndex)
    (src tgt : Validator) :
    OverflowOnly (mayConsolidate p s req now i src tgt) := by
  unfold mayConsolidate
  split
  · refine failsOnly_bind (overflowOnly_add _ _) ?_
    intro mature _
    split
    · exact failsOnly_ok _
    · exact failsOnly_bind_ok (overflowOnly_sum _)
  · exact failsOnly_ok _

theorem tolerable_consolidationVerdict (now : Epoch) (indices : List (BLSPubkey × Nat)) :
    FailsOnly Halt.Tolerable (consolidationVerdict p s req now indices) := by
  unfold consolidationVerdict
  split
  · refine failsOnly_bind (tolerable_orError _) ?_
    intro src _
    refine failsOnly_bind (tolerable_orError _) ?_
    intro tgt _
    exact failsOnly_bind_ok (tolerable_orPanic (overflowOnly_mayConsolidate _ _ _ _))
  · exact failsOnly_ok _

theorem tolerable_requestVerdict : FailsOnly Halt.Tolerable (requestVerdict p s req) := by
  refine failsOnly_bind (tolerable_orPanic (overflowOnly_getCurrentEpoch p s)) ?_
  intro now _
  split
  · exact failsOnly_bind_ok (tolerable_orError _)
  · split
    · exact failsOnly_ok _
    · refine failsOnly_bind (tolerable_orPanic (overflowOnly_getConsolidationChurnLimit p s)) ?_
      intro churnLimit _
      split
      · exact failsOnly_ok _
      · exact tolerable_consolidationVerdict _ _

theorem churn_pos_of_consolidate {src tgt : ValidatorIndex} {val : Validator}
    (hSaid : requestVerdict p s req = .ok (.consolidate src tgt val))
    {churn : Gwei} (hChurn : getConsolidationChurnLimit p s = .ok churn) : 0 < churn := by
  rcases bind_ok_iff.mp hSaid with ⟨_, _, hSaid⟩
  split at hSaid
  · rcases bind_ok_iff.mp hSaid with ⟨_, _, hSwitch⟩
    cases hSwitch
  · split at hSaid
    · cases hSaid
    · rcases bind_ok_iff.mp hSaid with ⟨limit, hLimit, hSaid⟩
      rw [orPanic_ok_iff, hChurn] at hLimit
      split at hSaid
      · cases hSaid
      · rename_i hMore
        cases hLimit
        exact Nat.zero_lt_of_lt (Nat.lt_of_not_le hMore)

theorem openWindow_ok {churnLimit : Except Fault Gwei} {earliest left : Nat}
    {window : ChurnWindow} (hOk : openWindow p s churnLimit earliest left = .ok window) :
    churnLimit = .ok window.perEpochChurn ∧
      earliest ≤ window.first ∧ window.currentEpoch + 1 + p.maxSeedLookahead ≤ window.first ∧
        window.toConsume = if earliest < window.first then window.perEpochChurn else left := by
  rcases bind_ok_iff.mp hOk with ⟨cur, _, hOk⟩
  rcases bind_ok_iff.mp hOk with ⟨next, hNext, hOk⟩
  rcases bind_ok_iff.mp hOk with ⟨activation, hLast, hOk⟩
  rcases bind_ok_iff.mp hOk with ⟨churn, hChurn, hOk⟩
  have hNext := (add_ok_iff.mp hNext).2
  have hLast := (add_ok_iff.mp hLast).2
  rw [← Except.ok.inj hOk, hNext, hLast]
  exact ⟨hChurn, le_max_left _ _, le_max_right _ _, rfl⟩

theorem tolerable_applyVerdict {verdict : RequestVerdict}
    (hSaid : requestVerdict p s req = .ok verdict) :
    FailsOnly Halt.Tolerable (applyVerdict p s verdict) := by
  cases verdict with
  | ignore => exact failsOnly_ok _
  | switch src => exact tolerable_orError _
  | consolidate src tgt val =>
    refine failsOnly_bind (tolerable_orPanic ?_) ?_
    · refine failsOnly_bind (overflowOnly_openWindow (overflowOnly_getConsolidationChurnLimit
        p s) _ _) ?_
      intro window hWin
      have hPos := churn_pos_of_consolidate hSaid (openWindow_ok hWin).1
      exact failsOnly_bind_ok (overflowOnly_assign hPos _)
    · rintro ⟨exitEpoch, churned⟩ _
      refine failsOnly_bind (tolerable_orPanic (overflowOnly_add _ _)) ?_
      intro withdrawableEpoch _
      refine failsOnly_bind (tolerable_orError _) ?_
      intro vals _
      exact failsOnly_bind_ok (tolerable_orError _)

theorem overflowOnly_recordCall (kind : ChurnKind) (bal : Gwei) (s' : BeaconState) :
    OverflowOnly (recordCall p kind bal s s') := by
  refine failsOnly_bind ?_ fun _ _ => failsOnly_ok _
  cases kind with
  | exit =>
    exact overflowOnly_openWindow (overflowOnly_getActivationExitChurnLimit p s) _ _
  | consolidation =>
    exact overflowOnly_openWindow (overflowOnly_getConsolidationChurnLimit p s) _ _

theorem tolerable_churnStep (act : ChurnAction) : FailsOnly Halt.Tolerable (churnStep p s act) := by
  cases act with
  | exit bal =>
    refine failsOnly_bind (tolerable_orPanic ?_) ?_
    · refine failsOnly_bind (overflowOnly_openWindow (overflowOnly_getActivationExitChurnLimit
        p s) _ _) ?_
      intro window hWin
      have hPos := getActivationExitChurnLimit_pos (openWindow_ok hWin).1
      exact failsOnly_bind_ok (overflowOnly_assign hPos _)
    · rintro ⟨epoch, s'⟩ _
      exact failsOnly_bind_ok (tolerable_orPanic (overflowOnly_recordCall _ _ _))
  | request req =>
    refine failsOnly_bind tolerable_requestVerdict ?_
    intro verdict _
    refine failsOnly_bind
      (failsOnly_bind tolerable_requestVerdict fun _ => tolerable_applyVerdict) ?_
    intro s' _
    refine failsOnly_bind_ok (tolerable_orPanic ?_)
    cases verdict with
    | ignore | switch src => exact failsOnly_ok _
    | consolidate src tgt val =>
      exact failsOnly_bind_ok (overflowOnly_recordCall _ _ _)
  | advance next => exact failsOnly_ok _

theorem tolerable_runChurn (acts : List ChurnAction) :
    FailsOnly Halt.Tolerable (runChurn p s acts) := by
  induction acts generalizing s with
  | nil => exact failsOnly_ok _
  | cons act xs ih =>
    refine failsOnly_bind (tolerable_churnStep act) ?_
    rintro ⟨next, calls⟩ _
    refine failsOnly_bind ih ?_
    rintro ⟨s', later⟩ _
    exact failsOnly_ok _

end

----
-- The Bound
----

open Allowance

variable {E : ElectraPreset} {state after : BeaconState}

/-
  A run draws on the accounts by its calls only, and no call is assigned an epoch that is too close.
-/
structure Charged (E : ElectraPreset) (state : BeaconState) (calls : List ChurnCall)
    (after : BeaconState) : Prop where
  granted : ∀ kind, Granted (kind.account state) (drawsOf kind calls) (kind.account after)
  ahead : ∀ call ∈ calls, call.currentEpoch + 1 + E.maxSeedLookahead ≤ call.first

theorem charged_nil (hEq : ∀ kind : ChurnKind, kind.account after = kind.account state) :
    Charged E state [] after where
  granted kind := (hEq kind).symm
  ahead := by simp

theorem charged_recordCall (kind : ChurnKind) {window : ChurnWindow}
    (hWin : kind.window E state = .ok window) {bal : Gwei} {assigned : Assignment}
    (hAssign : window.assign bal = .ok assigned)
    (hPost : kind.account after = ⟨assigned.epoch, assigned.left⟩)
    (hOthers : ∀ x ≠ kind, x.account after = x.account state) {call : ChurnCall}
    (hCall : recordCall E kind bal state after = .ok call) :
    Charged E state [call] after := by
  have hOpened : ∃ churnLimit, openWindow E state churnLimit (kind.account state).period
      (kind.account state).left = .ok window := by
    cases kind with
    | exit | consolidation => exact ⟨_, hWin⟩
  rcases hOpened with ⟨churnLimit, hOpened⟩
  rcases openWindow_ok hOpened with ⟨-, hEarliest, hAhead, hToConsume⟩
  rcases ChurnWindow.assign_ok hAssign with ⟨hFst, hSpends⟩
  rw [recordCall, hWin, hPost] at hCall
  cases hCall
  constructor
  · intro x
    by_cases hKind : x = kind
    · subst hKind
      have hDraws : ∀ call : ChurnCall, call.kind = x → drawsOf x [call] = [call.toDraw] := by
        intro call hCall
        simp [drawsOf, hCall]
      rw [hDraws _ rfl, hPost]
      refine ⟨rfl, ⟨hEarliest, hFst, ?_⟩, rfl⟩
      rw [hToConsume] at hSpends
      exact hSpends
    · rw [hOthers x hKind]
      simp [drawsOf, Granted, Ne.symm hKind]
  · intro each hEach
    rw [mem_singleton.mp hEach]
    exact hAhead

theorem account_queueExcessActiveBalance {i : ValidatorIndex}
    (hOk : queueExcessActiveBalance E state i = .ok after) (kind : ChurnKind) :
    kind.account after = kind.account state := by
  unfold queueExcessActiveBalance at hOk
  split at hOk
  · rcases bind_ok_iff.mp hOk with ⟨reduced, hReduced, hOk⟩
    rcases okOr_bind_ok_iff.mp hReduced with ⟨bals, _, hReduced⟩
    rcases okOr_bind_ok_iff.mp hOk with ⟨_, _, hOk⟩
    rcases okOr_bind_ok_iff.mp hOk with ⟨deposits, _, hOk⟩
    rw [← Except.ok.inj hOk, ← Except.ok.inj hReduced]
    cases kind <;> rfl
  · cases hOk
    rfl

theorem account_switchToCompoundingValidator {i : ValidatorIndex}
    (hOk : switchToCompoundingValidator E state i = .ok after) (kind : ChurnKind) :
    kind.account after = kind.account state := by
  rcases okOr_bind_ok_iff.mp hOk with ⟨_, _, hOk⟩
  rcases okOr_bind_ok_iff.mp hOk with ⟨vals, _, hOk⟩
  rw [account_queueExcessActiveBalance hOk kind]
  cases kind <;> rfl

theorem charged_churnStep {act : ChurnAction} {calls : List ChurnCall}
    (hOk : churnStep E state act = .ok (after, calls)) :
    Charged E state calls after := by
  cases act with
  | exit bal =>
    rcases bind_ok_iff.mp hOk with ⟨⟨epoch, exited⟩, hExit, hOk⟩
    rcases bind_ok_iff.mp hOk with ⟨call, hCall, hOk⟩
    rcases bind_ok_iff.mp (orPanic_ok_iff.mp hExit) with ⟨window, hWin, hExit⟩
    rcases bind_ok_iff.mp hExit with ⟨assigned, hAssign, hExit⟩
    cases hOk
    cases hExit
    refine charged_recordCall .exit hWin hAssign rfl ?_ (orPanic_ok_iff.mp hCall)
    intro x hx
    cases x with
    | exit => exact absurd rfl hx
    | consolidation => rfl
  | request req =>
    rcases bind_ok_iff.mp hOk with ⟨verdict, hSaid, hOk⟩
    rcases bind_ok_iff.mp hOk with ⟨done, hDone, hOk⟩
    rcases bind_ok_iff.mp hOk with ⟨made, hMade, hOk⟩
    cases hOk
    rw [processConsolidationRequest, hSaid] at hDone
    change applyVerdict E state verdict = _ at hDone
    rw [orPanic_ok_iff] at hMade
    cases verdict with
    | ignore =>
      rw [← Except.ok.inj hMade, ← Except.ok.inj hDone]
      exact charged_nil fun _ => rfl
    | switch src =>
      cases hMade
      exact charged_nil (account_switchToCompoundingValidator (orError_ok_iff.mp hDone))
    | consolidate src tgt val =>
      rcases bind_ok_iff.mp hMade with ⟨call, hCall, hMade⟩
      cases hMade
      rcases bind_ok_iff.mp hDone with ⟨⟨epoch, churned⟩, hChurn, hDone⟩
      rcases bind_ok_iff.mp hDone with ⟨_, _, hDone⟩
      rcases bind_ok_iff.mp hDone with ⟨_, _, hDone⟩
      rcases bind_ok_iff.mp hDone with ⟨_, _, hDone⟩
      have hEq : ∀ kind : ChurnKind, kind.account after = kind.account churned := by
        intro kind
        cases hDone
        cases kind <;> rfl
      rcases bind_ok_iff.mp (orPanic_ok_iff.mp hChurn) with ⟨window, hWin, hChurn⟩
      rcases bind_ok_iff.mp hChurn with ⟨assigned, hAssign, hChurn⟩
      cases hChurn
      refine charged_recordCall .consolidation hWin hAssign (hEq _) ?_ hCall
      intro x hx
      rw [hEq x]
      cases x with
      | exit => rfl
      | consolidation => exact absurd rfl hx
  | advance next =>
    cases hOk
    exact charged_nil fun kind => by cases kind <;> rfl

theorem charged_runChurn {acts : List ChurnAction} {calls : List ChurnCall}
    (hOk : runChurn E state acts = .ok (after, calls)) :
    Charged E state calls after := by
  induction acts generalizing state calls with
  | nil =>
    cases hOk
    exact charged_nil fun _ => rfl
  | cons act xs ih =>
    rcases bind_ok_iff.mp hOk with ⟨⟨next, made⟩, hStep, hOk⟩
    rcases bind_ok_iff.mp hOk with ⟨⟨last, later⟩, hxs, hOk⟩
    cases hOk
    have hFst := charged_churnStep hStep
    have hLater := ih hxs
    constructor
    · intro kind
      rw [drawsOf, filter_append, map_append]
      exact granted_append.mpr ⟨_, hFst.granted kind, hLater.granted kind⟩
    · intro call hCall
      exact (mem_append.mp hCall).elim (hFst.ahead call) (hLater.ahead call)

/-
  A run fails by an error or an overflow only. The earliest epochs never decrease, and are far
  enough ahead after each call. From an epoch that a call opens on, the balances that get any number
  of epochs are at most what these epochs allow for.
-/
theorem churn_bounded (E : ElectraPreset) (state : BeaconState) (actions : List ChurnAction) :
    FailsOnly Halt.Tolerable (runChurn E state actions) ∧
      ∀ after calls,
        runChurn E state actions = .ok (after, calls) →
          (∀ call ∈ calls, call.held.period ≤ call.granted.period ∧
            call.currentEpoch + 1 + E.maxSeedLookahead ≤ call.granted.period) ∧
          ∀ kind : ChurnKind,
            (kind.account state).period ≤ (kind.account after).period ∧
              ∀ before draw later churn, drawsOf kind calls = before ++ draw :: later → draw.Opens →
                (∀ each ∈ draw :: later, each.rate = churn) →
                ∀ count, drawnWithin draw.first count (drawsOf kind calls) ≤ churn * count := by
  refine ⟨tolerable_runChurn actions, ?_⟩
  intro after calls hOk
  have hCharged := charged_runChurn hOk
  constructor
  · intro call hCall
    have hDraw : call.toDraw ∈ drawsOf call.kind calls :=
      mem_map_of_mem (mem_filter.mpr ⟨hCall, decide_eq_true rfl⟩)
    rcases (hCharged.granted call.kind).le_last.2 _ hDraw with ⟨hFair, -, -⟩
    exact ⟨hFair.held_le.trans hFair.first_le, (hCharged.ahead call hCall).trans hFair.first_le⟩
  · intro kind
    have hGranted := hCharged.granted kind
    refine ⟨hGranted.le_last.1, ?_⟩
    intro before draw later churn hDraws hOpens hChurn count
    rw [hDraws] at hGranted ⊢
    exact hGranted.drawnWithin_le hOpens hChurn count

/- The second exit has to wait for the next epoch. -/
def twoExits : List ChurnAction :=
  [.exit 100000000000, .exit 32000000000]

theorem churn_bounded_twoExits : ∃ after first second,
      runChurn mainnet waitingState twoExits = .ok (after, [first, second]) ∧ first.toDraw.Opens ∧
        first.granted.period = 5 ∧
        second.granted.period = 6 ∧
        drawnWithin first.first 2 (drawsOf .exit [first, second]) ≤ 128000000000 * 2 := by
  rcases churn_bounded mainnet waitingState twoExits with ⟨-, hRun⟩
  refine ⟨_, _, _, rfl, by decide +kernel, rfl, rfl, ?_⟩
  exact ((hRun _ _ rfl).2 .exit).2 [] _ _ 128000000000 rfl (by decide +kernel) (by decide +kernel) 2

end Pharos.Stf.Electra
