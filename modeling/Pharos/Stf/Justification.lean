import Pharos.Lib.Run
import Pharos.Types

/-
  This file implements the weighing of target votes at the end of an epoch, in both forms in which
  it is written, and says what it keeps over whole runs of epochs from genesis.

  A run records the checkpoints that were justified. Whether the balances justify one is arbitrary,
  as is the history of block roots.

  Main theorems:
  * `Justification.ffg_bookkeeping`
-/

----
-- Weighing
----

namespace Pharos.Stf.Justification

section

/- The constants of a preset. -/
structure EpochPreset where
  slotsPerEpoch : Nat
  slotsPerHistoricalRoot : Nat
  slotsPerEpoch_pos : 0 < slotsPerEpoch

inductive EpochProcessingError where
  | blockRootUnavailable
deriving DecidableEq, Repr

/- The fields of a state that the weighing works on. -/
structure JustificationState where
  slot : Slot
  blockRoots : List Root
  justificationBits : Vector Bool 4
  previousJustifiedCheckpoint : Checkpoint
  currentJustifiedCheckpoint : Checkpoint
  finalizedCheckpoint : Checkpoint
deriving DecidableEq

/- Active balance, and that of the votes for each target. -/
structure TargetBalances where
  totalActive : Gwei
  previousTarget : Gwei
  currentTarget : Gwei
deriving DecidableEq, Repr

variable (E : EpochPreset) (state : JustificationState)

def getCurrentEpoch : Epoch :=
  state.slot / E.slotsPerEpoch

def getPreviousEpoch : Epoch :=
  if getCurrentEpoch E state = genesisEpoch then
    genesisEpoch
  else
    getCurrentEpoch E state - 1

def getBlockRoot (epoch : Epoch) : Except EpochProcessingError Root :=
  let slot := epoch * E.slotsPerEpoch
  if slot < state.slot ∧ state.slot ≤ slot + E.slotsPerHistoricalRoot then
    match state.blockRoots[ slot % E.slotsPerHistoricalRoot]? with
    | some root => .ok root
    | none => .error .blockRootUnavailable
  else
    .error .blockRootUnavailable

/- Two thirds, in machine arithmetic. -/
def isSupermajority (target total : Gwei) : Bool :=
  target * 3 % 2 ^ 64 ≥ total * 2 % 2 ^ 64

/- Make room for the bit of a new epoch. -/
def shiftBits (bits : Vector Bool 4) : Vector Bool 4 :=
  let b0 := bits[0]
  let b1 := bits[1]
  let b2 := bits[2]
  (((bits.set 3 b2).set 2 b1).set 1 b0).set 0 false

/- The four rules, in their order. Each may replace what the ones before it have set. -/
def finalizeByRules (oldPrevious oldCurrent : Checkpoint) (currentEpoch : Epoch)
    (state : JustificationState) : JustificationState :=
  let b0 := state.justificationBits[0]
  let b1 := state.justificationBits[1]
  let b2 := state.justificationBits[2]
  let b3 := state.justificationBits[3]
  let finalized := state.finalizedCheckpoint
  let finalized :=
    if b1 ∧ b2 ∧ b3 ∧ oldPrevious.epoch + 3 = currentEpoch then oldPrevious else finalized
  let finalized :=
    if b1 ∧ b2 ∧ oldPrevious.epoch + 2 = currentEpoch then oldPrevious else finalized
  let finalized :=
    if b0 ∧ b1 ∧ b2 ∧ oldCurrent.epoch + 2 = currentEpoch then oldCurrent else finalized
  let finalized :=
    if b0 ∧ b1 ∧ oldCurrent.epoch + 1 = currentEpoch then oldCurrent else finalized
  { state with finalizedCheckpoint := finalized }

def justifyAside (epoch : Epoch) (bit : Fin 4) (target total : Gwei)
    (state : JustificationState) (bits : Vector Bool 4) :
    Except EpochProcessingError (JustificationState × Vector Bool 4) :=
  if isSupermajority target total then
    match getBlockRoot E state epoch with
    | .error reason => .error reason
    | .ok root =>
      .ok ({ state with currentJustifiedCheckpoint := ⟨epoch, root⟩ }, bits.set bit true)
  else
    .ok (state, bits)

/- The bits are written back before the rules read them. -/
def weighPhase0 (balances : TargetBalances) : Except EpochProcessingError JustificationState :=
  let previousEpoch := getPreviousEpoch E state
  let currentEpoch := getCurrentEpoch E state
  let oldPrevious := state.previousJustifiedCheckpoint
  let oldCurrent := state.currentJustifiedCheckpoint
  let shifted := { state with previousJustifiedCheckpoint := state.currentJustifiedCheckpoint }
  match justifyAside E previousEpoch 1 balances.previousTarget balances.totalActive shifted
      (shiftBits shifted.justificationBits) with
  | .error reason => .error reason
  | .ok (state, bits) =>
  match justifyAside E currentEpoch 0 balances.currentTarget balances.totalActive state bits with
  | .error reason => .error reason
  | .ok (state, bits) =>
    .ok (finalizeByRules oldPrevious oldCurrent currentEpoch
      { state with justificationBits := bits })

----
-- Altair
----

def justifyInPlace (epoch : Epoch) (bit : Fin 4) (target total : Gwei)
    (state : JustificationState) : Except EpochProcessingError JustificationState :=
  if isSupermajority target total then
    match getBlockRoot E state epoch with
    | .error reason => .error reason
    | .ok root =>
      let justified := { state with currentJustifiedCheckpoint := ⟨epoch, root⟩ }
      .ok { justified with justificationBits := justified.justificationBits.set bit true }
  else
    .ok state

def weighAltair (balances : TargetBalances) : Except EpochProcessingError JustificationState :=
  let previousEpoch := getPreviousEpoch E state
  let currentEpoch := getCurrentEpoch E state
  let oldPrevious := state.previousJustifiedCheckpoint
  let oldCurrent := state.currentJustifiedCheckpoint
  let shifted :=
    { state with
      previousJustifiedCheckpoint := state.currentJustifiedCheckpoint
      justificationBits := shiftBits state.justificationBits }
  match justifyInPlace E previousEpoch 1 balances.previousTarget balances.totalActive shifted with
  | .error reason => .error reason
  | .ok state =>
  match justifyInPlace E currentEpoch 0 balances.currentTarget balances.totalActive state with
  | .error reason => .error reason
  | .ok state => .ok (finalizeByRules oldPrevious oldCurrent currentEpoch state)

/- Keeping the bits apart makes no difference. -/
theorem justifyInPlace_eq (p : EpochPreset) (epoch : Epoch) (bit : Fin 4) (tgt total : Gwei)
    (s : JustificationState) (bits : Vector Bool 4) :
    justifyInPlace p epoch bit tgt total { s with justificationBits := bits } =
      (justifyAside p epoch bit tgt total s
        bits).map fun res =>
          { res.1 with justificationBits := res.2 } := by
  unfold justifyInPlace justifyAside
  split
  · have hr : getBlockRoot p { s with justificationBits := bits } epoch = getBlockRoot p s epoch :=
      rfl
    rw [hr]
    cases getBlockRoot p s epoch with
    | error reason | ok r => rfl
  · rfl

theorem weighAltair_eq (p : EpochPreset) (s : JustificationState)
    (bals : TargetBalances) :
    weighAltair p s bals = weighPhase0 p s bals := by
  unfold weighAltair weighPhase0
  dsimp only
  rw [justifyInPlace_eq p _ 1 _ _
    { s with previousJustifiedCheckpoint := s.currentJustifiedCheckpoint }
    (shiftBits s.justificationBits)]
  cases justifyAside p (getPreviousEpoch p s) 1 bals.previousTarget bals.totalActive
      { s with previousJustifiedCheckpoint := s.currentJustifiedCheckpoint }
      (shiftBits s.justificationBits) with
  | error reason => rfl
  | ok a =>
    dsimp only [Except.map]
    rw [justifyInPlace_eq p _ 0 _ _ a.1 a.2]
    cases justifyAside p (getCurrentEpoch p s) 0 bals.currentTarget bals.totalActive a.1 a.2 with
    | error reason | ok b => rfl

----
-- What Is Weighed
----

def justifiedCheckpoint (epoch : Epoch) (target total : Gwei) : Option Checkpoint :=
  if isSupermajority target total then
    (getBlockRoot E state epoch).toOption.map (Checkpoint.mk epoch)
  else
    none

def newlyJustified (balances : TargetBalances) : List Checkpoint :=
  (justifiedCheckpoint E state (getPreviousEpoch E state)
      balances.previousTarget balances.totalActive).toList ++
    (justifiedCheckpoint E state (getCurrentEpoch E state)
      balances.currentTarget balances.totalActive).toList

section Bits

variable (bits : Vector Bool 4)

@[simp] theorem shiftBits_zero : (shiftBits bits)[0] = false := by
  simp [shiftBits]

@[simp] theorem shiftBits_one : (shiftBits bits)[1] = bits[0] := by
  simp [shiftBits]

@[simp] theorem shiftBits_two : (shiftBits bits)[2] = bits[1] := by
  simp [shiftBits]

@[simp] theorem shiftBits_three : (shiftBits bits)[3] = bits[2] := by
  simp [shiftBits]

theorem getElem_ite_set (majority : Bool) (bit : Fin 4) (i : Nat) (hIdx : i < 4) :
    (if majority then bits.set bit true else bits)[i] =
      (bits[i] || (majority && decide (bit.val = i))) := by
  cases majority with
  | false => simp
  | true =>
    rw [if_pos rfl, Vector.getElem_set]
    split
    · simp_all
    · simp_all

end Bits

theorem justifyAside_ok {p : EpochPreset} {epoch : Epoch} {bit : Fin 4} {tgt total : Gwei}
    {s s' : JustificationState} {bits bitsAfter : Vector Bool 4}
    (hOk : justifyAside p epoch bit tgt total s bits = .ok (s', bitsAfter)) :
    s' = { s with
          currentJustifiedCheckpoint :=
            (justifiedCheckpoint p s epoch tgt total).getD s.currentJustifiedCheckpoint } ∧
      bitsAfter = (if isSupermajority tgt total then bits.set bit true else bits) ∧
      ((justifiedCheckpoint p s epoch tgt total).isSome ↔ isSupermajority tgt total) := by
  unfold justifyAside at hOk
  unfold justifiedCheckpoint
  split at hOk
  · rename_i hMajority
    rw [if_pos hMajority, if_pos hMajority]
    split at hOk
    · cases hOk
    · rename_i r hr
      rw [hr]
      rcases Prod.mk.inj (Except.ok.inj hOk) with ⟨hPost, hBits⟩
      refine ⟨hPost.symm, hBits.symm, ?_⟩
      simp [Except.toOption, hMajority]
  · rename_i hMinority
    rw [if_neg hMinority, if_neg hMinority]
    rcases Prod.mk.inj (Except.ok.inj hOk) with ⟨hPost, hBits⟩
    refine ⟨hPost.symm, hBits.symm, ?_⟩
    simp [hMinority]

/- What the weighing does to a state. -/
structure Weighed (balances : TargetBalances) (after : JustificationState) : Prop where
  slot : after.slot = state.slot
  previous : after.previousJustifiedCheckpoint = state.currentJustifiedCheckpoint
  current : after.currentJustifiedCheckpoint =
    ((newlyJustified E state balances).getLast?).getD state.currentJustifiedCheckpoint
  bit0 : after.justificationBits[0] = isSupermajority balances.currentTarget balances.totalActive
  bit1 : after.justificationBits[1] =
    (state.justificationBits[0] || isSupermajority balances.previousTarget balances.totalActive)
  bit2 : after.justificationBits[2] = state.justificationBits[1]
  bit3 : after.justificationBits[3] = state.justificationBits[2]
  finalized : after.finalizedCheckpoint =
    (finalizeByRules state.previousJustifiedCheckpoint state.currentJustifiedCheckpoint
      (getCurrentEpoch E state)
      { state with justificationBits := after.justificationBits }).finalizedCheckpoint
  previousRoot :
    (justifiedCheckpoint E state (getPreviousEpoch E state) balances.previousTarget
        balances.totalActive).isSome ↔
      isSupermajority balances.previousTarget balances.totalActive
  currentRoot :
    (justifiedCheckpoint E state (getCurrentEpoch E state) balances.currentTarget
        balances.totalActive).isSome ↔
      isSupermajority balances.currentTarget balances.totalActive

theorem weighed_of_ok {p : EpochPreset} {s s' : JustificationState}
    {bals : TargetBalances} (hOk : weighPhase0 p s bals = .ok s') :
    Weighed p s bals s' := by
  unfold weighPhase0 at hOk
  dsimp only at hOk
  split at hOk
  · cases hOk
  · rename_i a firstBits hFst
    rcases justifyAside_ok hFst with ⟨hFstState, hFstBits, hPrevRoot⟩
    split at hOk
    · cases hOk
    · rename_i b secondBits hSnd
      rcases justifyAside_ok hSnd with ⟨hSndState, hSndBits, hCurRoot⟩
      -- The roots of epochs depend on neither change.
      have hSameRoot : justifiedCheckpoint p a (getCurrentEpoch p s)
          bals.currentTarget bals.totalActive = justifiedCheckpoint p s
          (getCurrentEpoch p s) bals.currentTarget bals.totalActive := by
        rw [hFstState]
        rfl
      have hSamePrev : justifiedCheckpoint p { s with
              previousJustifiedCheckpoint := s.currentJustifiedCheckpoint }
            (getPreviousEpoch p s)
            bals.previousTarget bals.totalActive =
          justifiedCheckpoint p s (getPreviousEpoch p s) bals.previousTarget bals.totalActive :=
        rfl
      rw [hSamePrev] at hFstState hPrevRoot
      rw [hSameRoot] at hSndState hCurRoot
      have hPost := (Except.ok.inj hOk).symm
      have hBits : s'.justificationBits = secondBits := by
        rw [hPost]
        rfl
      have hBitsAt : ∀ i (hIdx : i < 4), s'.justificationBits[i] =
          ((shiftBits s.justificationBits)[i] ||
            (isSupermajority bals.previousTarget bals.totalActive &&
              decide ((1 : Fin 4).val = i)) ||
            (isSupermajority bals.currentTarget bals.totalActive &&
              decide ((0 : Fin 4).val = i))) := by
        intro i hIdx
        simp only [hBits, hSndBits, hFstBits, getElem_ite_set]
      constructor
      case slot | previous =>
        rw [hPost, hSndState, hFstState]
        rfl
      case current =>
        rw [hPost, hSndState, hFstState]
        unfold newlyJustified
        cases justifiedCheckpoint p s (getCurrentEpoch p s) bals.currentTarget bals.totalActive with
        | some cur => simp [finalizeByRules]
        | none =>
          cases justifiedCheckpoint p s (getPreviousEpoch p s)
              bals.previousTarget bals.totalActive with
          | some previous | none => rfl
      case bit0 | bit1 | bit2 | bit3 =>
        rw [hBitsAt _ (by decide)]
        simp
      case finalized =>
        rw [hBits, hPost, hSndState, hFstState]
        rfl
      case previousRoot => exact hPrevRoot
      case currentRoot => exact hCurRoot

----
-- Runs of Epochs
----

/- The two places where the weighing is written. -/
inductive WeighRules where
  | phase0
  | altair
deriving DecidableEq, Repr

def WeighRules.weigh : WeighRules → EpochPreset → JustificationState → TargetBalances →
      Except EpochProcessingError JustificationState
| .phase0 => weighPhase0
| .altair => weighAltair

theorem WeighRules.weigh_eq (rules : WeighRules) : rules.weigh = weighPhase0 := by
  cases rules with
  | phase0 => rfl
  | altair => exact funext₃ weighAltair_eq

def processJustificationAndFinalization (rules : WeighRules)
    (state : JustificationState) (balances : TargetBalances) :
    Except EpochProcessingError JustificationState :=
  if getCurrentEpoch E state ≤ genesisEpoch + 1 then
    .ok state
  else
    rules.weigh E state balances

/- What an epoch brings: its votes, and its block roots. -/
structure EpochInput where
  rules : WeighRules
  balances : TargetBalances
  blockRoots : List Root

/-
  A state as the last transition has left it, the epoch that ends next, and the checkpoints
  justified so far.
-/
structure EpochRun where
  state : JustificationState
  upcoming : Epoch
  justified : List Checkpoint

def genesisRun : EpochRun where
  state :=
    { slot := 0
      blockRoots := []
      justificationBits := Vector.replicate 4 false
      previousJustifiedCheckpoint := Checkpoint.default
      currentJustifiedCheckpoint := Checkpoint.default
      finalizedCheckpoint := Checkpoint.default }
  upcoming := genesisEpoch
  justified := []

def atEnd (run : EpochRun) (input : EpochInput) : JustificationState :=
  { run.state with
    slot := run.upcoming * E.slotsPerEpoch + (E.slotsPerEpoch - 1)
    blockRoots := input.blockRoots }

def justifiedBy (run : EpochRun) (input : EpochInput) : List Checkpoint :=
  if run.upcoming ≤ genesisEpoch + 1 then
    []
  else
    newlyJustified E (atEnd E run input) input.balances

def epochStep (run : EpochRun) (input : EpochInput) :
    Except EpochProcessingError EpochRun :=
  match processJustificationAndFinalization E input.rules (atEnd E run input) input.balances with
  | .error reason => .error reason
  | .ok state =>
    .ok
      { state
        upcoming := run.upcoming + 1
        justified := run.justified ++ justifiedBy E run input }

variable {E} {run after : EpochRun} {input : EpochInput}

@[simp] theorem getCurrentEpoch_atEnd :
    getCurrentEpoch E (atEnd E run input) = run.upcoming := by
  have hPos := E.slotsPerEpoch_pos
  have hNat : ∀ epoch slots : Nat, 0 < slots → (epoch * slots + (slots - 1)) / slots = epoch := by
    intro epoch slots hSlots
    rw [mul_comm, Nat.mul_add_div hSlots, Nat.div_eq_of_lt (by omega), add_zero]
  exact hNat _ _ hPos

/- An epoch that was weighed. -/
structure WeighedStep (E : EpochPreset) (run : EpochRun) (input : EpochInput)
    (after : EpochRun) : Prop where
  late : 1 < run.upcoming
  upcoming : after.upcoming = run.upcoming + 1
  justified : after.justified = run.justified ++ justifiedBy E run input
  weighed : Weighed E (atEnd E run input) input.balances after.state

theorem epochStep_ok (hStep : epochStep E run input = .ok after) :
    after.upcoming = run.upcoming + 1 ∧ after.justified = run.justified ++ justifiedBy E run input ∧
      ((run.upcoming ≤ 1 ∧ after.state = atEnd E run input) ∨ WeighedStep E run input after) := by
  unfold epochStep at hStep
  split at hStep
  · cases hStep
  · rename_i s hProc
    cases hStep
    refine ⟨rfl, rfl, ?_⟩
    unfold processJustificationAndFinalization at hProc
    rw [getCurrentEpoch_atEnd] at hProc
    split at hProc
    · rename_i hEarly
      exact .inl ⟨hEarly, (Except.ok.inj hProc).symm⟩
    · rename_i hLate
      rw [WeighRules.weigh_eq] at hProc
      exact .inr ⟨not_le.mp hLate, rfl, rfl, weighed_of_ok hProc⟩

end

----
-- The Rules
----

section

variable {oldPrevious oldCurrent : Checkpoint} {epoch : Epoch} {s : JustificationState}

/- The two rules that finalize what was justified last. -/
def CurrentRule (bits : Vector Bool 4) (oldCurrent : Checkpoint) (epoch : Epoch) : Prop :=
  (bits[0] ∧ bits[1] ∧ bits[2] ∧ oldCurrent.epoch + 2 = epoch) ∨
    (bits[0] ∧ bits[1] ∧ oldCurrent.epoch + 1 = epoch)

def PreviousRule (bits : Vector Bool 4) (oldPrevious : Checkpoint) (epoch : Epoch) : Prop :=
  (bits[1] ∧ bits[2] ∧ bits[3] ∧ oldPrevious.epoch + 3 = epoch) ∨
    (bits[1] ∧ bits[2] ∧ oldPrevious.epoch + 2 = epoch)

theorem finalizeByRules_of_currentRule
    (hRule : CurrentRule s.justificationBits oldCurrent epoch) :
    (finalizeByRules oldPrevious oldCurrent epoch s).finalizedCheckpoint = oldCurrent := by
  unfold finalizeByRules
  dsimp only
  split
  · rfl
  · rename_i hFourth
    rcases hRule with hThird | hFourth'
    · rw [if_pos hThird]
    · exact absurd hFourth' hFourth

theorem finalizeByRules_cases :
    let final := (finalizeByRules oldPrevious oldCurrent epoch s).finalizedCheckpoint
    final = s.finalizedCheckpoint ∨
      (final = oldCurrent ∧ CurrentRule s.justificationBits oldCurrent epoch) ∨
      (final = oldPrevious ∧ PreviousRule s.justificationBits oldPrevious epoch) := by
  unfold finalizeByRules
  dsimp only
  split
  · rename_i hFourth
    exact .inr (.inl ⟨rfl, .inr hFourth⟩)
  · split
    · rename_i hThird
      exact .inr (.inl ⟨rfl, .inl hThird⟩)
    · split
      · rename_i hSnd
        exact .inr (.inr ⟨rfl, .inr hSnd⟩)
      · split
        · rename_i hFst
          exact .inr (.inr ⟨rfl, .inl hFst⟩)
        · exact .inl rfl

end

----
-- Bookkeeping
----

def Justified (justified : List Checkpoint) (epoch : Epoch) : Prop :=
  ∃ checkpoint ∈ justified, checkpoint.epoch = epoch

/-
  The last epochs have their bits. What could be finalized by the epoch that was justified last has
  been finalized.
-/
structure Sound (run : EpochRun) : Prop where
  finalizedLe : run.state.finalizedCheckpoint.epoch ≤ run.state.previousJustifiedCheckpoint.epoch
  previousLe :
    run.state.previousJustifiedCheckpoint.epoch ≤ run.state.currentJustifiedCheckpoint.epoch
  within : ∀ checkpoint ∈ run.justified, 0 < checkpoint.epoch ∧ checkpoint.epoch < run.upcoming
  previousKnown : run.state.previousJustifiedCheckpoint ∈ run.justified ∨
    run.state.previousJustifiedCheckpoint.epoch = 0
  currentKnown : run.state.currentJustifiedCheckpoint ∈ run.justified ∨
    run.state.currentJustifiedCheckpoint.epoch = 0
  bits : ∀ index (hIndex : index < 4), run.state.justificationBits[index] = true ↔
    ∃ epoch, Justified run.justified epoch ∧ epoch + index + 1 = run.upcoming
  settled : ∀ epoch, epoch + 1 = run.upcoming →
    CurrentRule run.state.justificationBits run.state.previousJustifiedCheckpoint epoch →
    run.state.finalizedCheckpoint = run.state.previousJustifiedCheckpoint

theorem sound_genesisRun : Sound genesisRun where
  finalizedLe := le_rfl
  previousLe := le_rfl
  within := by simp [genesisRun]
  previousKnown := .inr rfl
  currentKnown := .inr rfl
  bits := by
    simp [genesisRun, Justified]
  settled := by
    intro epoch hEp
    exact absurd hEp (Nat.succ_ne_zero epoch)

variable {E : EpochPreset} {run after : EpochRun} {input : EpochInput}

theorem Sound.current_le (hSound : Sound run) :
    run.state.currentJustifiedCheckpoint.epoch ≤ run.upcoming - 1 := by
  rcases hSound.currentKnown with hIn | hGenesis
  · have hPre := (hSound.within _ hIn).2
    exact Nat.le_pred_of_lt hPre
  · rw [hGenesis]
    exact Nat.zero_le _

theorem Weighed.justified_iff {s weighed : JustificationState} {bals : TargetBalances}
    (hWeighed : Weighed E s bals weighed) (epoch : Epoch) :
    Justified (newlyJustified E s bals) epoch ↔
      (isSupermajority bals.previousTarget bals.totalActive ∧ epoch = getPreviousEpoch E s) ∨
        (isSupermajority bals.currentTarget bals.totalActive ∧ epoch = getCurrentEpoch E s) := by
  have hOne : ∀ (of : Epoch) (tgt : Gwei),
      ((justifiedCheckpoint E s of tgt bals.totalActive).isSome ↔
        isSupermajority tgt bals.totalActive) →
      ((∃ cp, justifiedCheckpoint E s of tgt bals.totalActive = some cp ∧ cp.epoch = epoch) ↔
        isSupermajority tgt bals.totalActive ∧ epoch = of) := by
    intro of tgt hSome
    rw [← hSome]
    unfold justifiedCheckpoint
    split
    · cases getBlockRoot E s of with
      | error reason => simp [Except.toOption]
      | ok r => simp [Except.toOption, eq_comm]
    · simp
  rw [← hOne _ _ hWeighed.previousRoot, ← hOne _ _ hWeighed.currentRoot]
  simp only [Justified, newlyJustified, List.mem_append, Option.mem_toList, or_and_right, exists_or]

theorem justified_append {a b : List Checkpoint} {epoch : Epoch} :
    Justified (a ++ b) epoch ↔ Justified a epoch ∨ Justified b epoch := by
  simp only [Justified, List.mem_append, or_and_right, exists_or]

theorem getPreviousEpoch_atEnd (E : EpochPreset) (input : EpochInput)
    (hLate : 1 < run.upcoming) :
    getPreviousEpoch E (atEnd E run input) + 1 = run.upcoming := by
  unfold getPreviousEpoch
  rw [getCurrentEpoch_atEnd, if_neg]
  · exact Nat.sub_add_cancel (le_of_lt hLate)
  · exact Nat.ne_zero_of_lt hLate

section

variable (hStep : WeighedStep E run input after)
include hStep

theorem justifiedBy_iff (epoch : Epoch) : Justified (justifiedBy E run input) epoch ↔
      (isSupermajority input.balances.previousTarget input.balances.totalActive ∧
          epoch + 1 = run.upcoming) ∨
        (isSupermajority input.balances.currentTarget input.balances.totalActive ∧
          epoch = run.upcoming) := by
  have hPrev := getPreviousEpoch_atEnd E input hStep.late
  unfold justifiedBy
  rw [if_neg (not_le.mpr hStep.late), hStep.weighed.justified_iff, getCurrentEpoch_atEnd]
  grind

theorem justified_of_weighed (epoch : Epoch) : Justified after.justified epoch ↔
      Justified run.justified epoch ∨
        (isSupermajority input.balances.previousTarget input.balances.totalActive ∧
          epoch + 1 = run.upcoming) ∨
        (isSupermajority input.balances.currentTarget input.balances.totalActive ∧
          epoch = run.upcoming) := by
  rw [hStep.justified, justified_append, justifiedBy_iff hStep]

theorem bits_of_weighed (hSound : Sound run) (i : Nat) (hIdx : i < 4) :
    after.state.justificationBits[i] = true ↔
      ∃ epoch, Justified after.justified epoch ∧ epoch + i + 1 = after.upcoming := by
  have hNew := justified_of_weighed hStep
  have hOld : ∀ epoch, Justified run.justified epoch → epoch < run.upcoming := by
    rintro epoch ⟨cp, hMem, rfl⟩
    exact (hSound.within cp hMem).2
  have hBit0 := hSound.bits 0 (by decide)
  have hBit1 := hSound.bits 1 (by decide)
  have hBit2 := hSound.bits 2 (by decide)
  rw [hStep.upcoming]
  simp only [hNew]
  -- A bit is one epoch further on than it was.
  match i, hIdx with
  | 0, _ =>
    rw [hStep.weighed.bit0]
    grind
  | 1, _ =>
    rw [hStep.weighed.bit1, Bool.or_eq_true]
    constructor
    · rintro (hPre | hMajority)
      · rcases hBit0.mp hPre with ⟨epoch, hEp, hAt⟩
        exact ⟨epoch, .inl hEp, congrArg (· + 1) hAt⟩
      · have hAt := Nat.sub_add_cancel (le_of_lt hStep.late)
        exact ⟨run.upcoming - 1, .inr (.inl ⟨hMajority, hAt⟩), congrArg (· + 1) hAt⟩
    · grind [atEnd]
  | 2, _ =>
    rw [hStep.weighed.bit2]
    grind [atEnd]
  | 3, _ =>
    rw [hStep.weighed.bit3]
    grind [atEnd]

theorem current_of_weighed (hSound : Sound run) :
    run.state.currentJustifiedCheckpoint.epoch ≤ after.state.currentJustifiedCheckpoint.epoch ∧
      (after.state.currentJustifiedCheckpoint ∈ justifiedBy E run input ∨
        after.state.currentJustifiedCheckpoint = run.state.currentJustifiedCheckpoint) := by
  have hNewly : justifiedBy E run input = newlyJustified E (atEnd E run input)
      input.balances := by
    exact if_neg (not_le.mpr hStep.late)
  have hCur := hStep.weighed.current
  rw [← hNewly] at hCur
  cases hLast : (justifiedBy E run input).getLast? with
  | none =>
    rw [hLast] at hCur
    rw [hCur]
    exact ⟨le_rfl, .inr rfl⟩
  | some cp =>
    rw [hLast] at hCur
    have hMem := List.mem_of_getLast? hLast
    rw [hCur]
    refine ⟨?_, .inl hMem⟩
    have hEp : Justified (justifiedBy E run input) cp.epoch :=
        ⟨cp, hMem, rfl⟩
    have hPre := hSound.current_le
    rw [justifiedBy_iff hStep] at hEp
    grind

theorem finalized_of_weighed : after.state.finalizedCheckpoint = run.state.finalizedCheckpoint ∨
      (after.state.finalizedCheckpoint = run.state.currentJustifiedCheckpoint ∧
        CurrentRule after.state.justificationBits run.state.currentJustifiedCheckpoint
          run.upcoming) ∨
      (after.state.finalizedCheckpoint = run.state.previousJustifiedCheckpoint ∧
        PreviousRule after.state.justificationBits run.state.previousJustifiedCheckpoint
          run.upcoming) := by
  rw [hStep.weighed.finalized, getCurrentEpoch_atEnd]
  exact finalizeByRules_cases

theorem finalized_le_of_weighed (hSound : Sound run) :
    run.state.finalizedCheckpoint.epoch ≤ after.state.finalizedCheckpoint.epoch ∧
      after.state.finalizedCheckpoint.epoch ≤ after.state.previousJustifiedCheckpoint.epoch := by
  have hFst := hSound.finalizedLe
  have hSnd := hSound.previousLe
  rw [hStep.weighed.previous]
  rcases finalized_of_weighed hStep with hEq | ⟨hCur, _⟩ | ⟨hPrev, _⟩
  · rw [hEq]
    exact ⟨le_rfl, le_trans hFst hSnd⟩
  · rw [hCur]
    exact ⟨le_trans hFst hSnd, le_rfl⟩
  · rw [hPrev]
    exact ⟨hFst, hSnd⟩

theorem sound_of_weighed (hSound : Sound run) : Sound after := by
  have hCur := current_of_weighed hStep hSound
  have hIn := hSound.currentKnown.imp_left (List.mem_append_left (justifiedBy E run input))
  constructor
  case finalizedLe =>
    exact (finalized_le_of_weighed hStep hSound).2
  case previousLe =>
    rw [hStep.weighed.previous]
    exact hCur.1
  case within =>
    intro cp hMem
    have hEp := (justified_of_weighed hStep cp.epoch).mp ⟨cp, hMem, rfl⟩
    have hLate := hStep.late
    rw [hStep.upcoming]
    rcases hEp with ⟨x, hx, hEq⟩ | ⟨_, hPrev⟩ | ⟨_, hHere⟩
    · have hWithin := hSound.within x hx
      grind
    · grind
    · grind
  case previousKnown =>
    rw [hStep.weighed.previous, hStep.justified]
    exact hIn
  case currentKnown =>
    rw [hStep.justified]
    rcases hCur.2 with hNew | hEq
    · exact .inl (List.mem_append_right _ hNew)
    · rw [hEq]
      exact hIn
  case bits =>
    exact bits_of_weighed hStep hSound
  case settled =>
    intro epoch hEp hRule
    rw [hStep.upcoming] at hEp
    have hHere : epoch = run.upcoming := Nat.succ.inj hEp
    rw [hHere, hStep.weighed.previous] at hRule
    rw [hStep.weighed.finalized, hStep.weighed.previous, getCurrentEpoch_atEnd]
    exact finalizeByRules_of_currentRule hRule

end

theorem sound_epochStep (hSound : Sound run) (hStep : epochStep E run input = .ok after) :
    Sound after := by
  rcases epochStep_ok hStep with ⟨hUpcoming, hJust, ⟨hEarly, hs⟩ | hWeighed⟩
  · -- In the first two epochs nothing is justified yet.
    have hNone : run.justified = [] := by
      apply List.eq_nil_iff_forall_not_mem.mpr
      intro cp hMem
      have hWithin := hSound.within cp hMem
      exact absurd hWithin.2 (not_lt.mpr (le_trans hEarly hWithin.1))
    have hSame : after.justified = run.justified := by
      rw [hJust, justifiedBy, if_pos hEarly, List.append_nil]
    have hBits : ∀ i (hIdx : i < 4), run.state.justificationBits[i] = false := by
      intro i hIdx
      apply Bool.eq_false_iff.mpr
      intro hSet
      rcases (hSound.bits i hIdx).mp hSet with ⟨epoch, ⟨cp, hMem, _⟩, _⟩
      rw [hNone] at hMem
      cases hMem
    constructor
    case finalizedLe => rw [hs]; exact hSound.finalizedLe
    case previousLe => rw [hs]; exact hSound.previousLe
    case within => simp [hSame, hNone]
    case previousKnown => rw [hs, hSame]; exact hSound.previousKnown
    case currentKnown => rw [hs, hSame]; exact hSound.currentKnown
    case bits =>
      intro i hIdx
      simp only [hs, hSame, hNone]
      simp [atEnd, hBits i hIdx, Justified]
    case settled =>
      intro epoch _ hRule
      rw [hs] at hRule
      have hFst := hBits 0 (by decide)
      have hSet := hRule.elim And.left And.left
      exact absurd hSet (by simp [atEnd, hFst])
  · exact sound_of_weighed hWeighed hSound

def LinkedToNew (justified newly : List Checkpoint) (finalized : Checkpoint) : Prop :=
  ∃ length ≤ 3,
    (∀ offset < length, Justified justified (finalized.epoch + offset)) ∧
      ∃ last, last + 1 = finalized.epoch + length ∧ Justified newly last

theorem Sound.justified_of_bit (hSound : Sound after)
    (hUpcoming : after.upcoming = run.upcoming + 1) {i : Nat} {hIdx : i < 4}
    {epoch : Epoch} (hBit : after.state.justificationBits[i] = true)
    (hAt : epoch + i = run.upcoming) : Justified after.justified epoch := by
  rcases (hSound.bits i hIdx).mp hBit with ⟨x, hx, hSame⟩
  have hEq : x = epoch := by grind
  rw [← hEq]
  exact hx

variable {cp : Checkpoint}

/- Bits in a row, from that of an epoch to that of a newly justified one. -/
theorem linked_of_bits (hPost : Sound after) (hUpcoming : after.upcoming = run.upcoming + 1)
    (hIn : cp ∈ run.justified ∨ cp.epoch = 0) {newly : List Checkpoint} {low : Nat}
    (hNewly : ∀ epoch, epoch + low = run.upcoming → Justified newly epoch) {high : Nat}
    (hEp : cp.epoch + high = run.upcoming) (hLow : low ≤ high) (hHigh : high < 4 ∧ high ≤ low + 2)
    (hBits : ∀ i (hIdx : i < 4), low ≤ i → i ≤ high → after.state.justificationBits[i] = true) :
    cp ∈ run.justified ∧ LinkedToNew after.justified newly cp := by
  have hAt : ∀ off ≤ high - low, Justified after.justified (cp.epoch + off) := by
    intro off hOffset
    have hBit := hBits (high - off) (by omega) (by omega) (by omega)
    exact hPost.justified_of_bit hUpcoming hBit (by grind)
  constructor
  · rcases hAt 0 (Nat.zero_le _) with ⟨x, hx, hEq⟩
    apply hIn.resolve_right
    intro hGenesis
    rw [hGenesis] at hEq
    exact ne_of_gt (hPost.within x hx).1 hEq
  · refine ⟨high - low + 1, by grind, ?_, cp.epoch + (high - low), rfl, hNewly _ (by grind)⟩
    intro off hOffset
    exact hAt off (Nat.le_of_lt_succ hOffset)

/-
  Without late votes for the epoch before, what the rules for the older checkpoint ask for held an
  epoch ago already.
-/
theorem Sound.settled_of_previousRule (hSound : Sound run)
    (hStep : WeighedStep E run input after)
    (hMinority : ¬isSupermajority input.balances.previousTarget input.balances.totalActive)
    (hRule : PreviousRule after.state.justificationBits run.state.previousJustifiedCheckpoint
      run.upcoming) :
    run.state.finalizedCheckpoint = run.state.previousJustifiedCheckpoint := by
  have hPre : run.state.justificationBits[0] = true := by
    have hBit1 := hRule.elim And.left And.left
    rw [hStep.weighed.bit1, Bool.or_eq_true] at hBit1
    exact hBit1.resolve_right hMinority
  apply hSound.settled (run.upcoming - 1)
  · exact Nat.sub_add_cancel (le_of_lt hStep.late)
  · rcases hRule with ⟨_, hBit2, hBit3, hEp⟩ | ⟨_, hBit2, hEp⟩
    · rw [hStep.weighed.bit2] at hBit2
      rw [hStep.weighed.bit3] at hBit3
      exact .inl ⟨hPre, hBit2, hBit3, by grind⟩
    · rw [hStep.weighed.bit2] at hBit2
      exact .inr ⟨hPre, hBit2, by grind⟩

theorem finalizes_linked (hSound : Sound run) (hStep : epochStep E run input = .ok after)
    (hNew : after.state.finalizedCheckpoint ≠ run.state.finalizedCheckpoint) :
    after.state.finalizedCheckpoint ∈ run.justified ∧
      LinkedToNew after.justified (justifiedBy E run input)
        after.state.finalizedCheckpoint := by
  have hPost := sound_epochStep hSound hStep
  rcases epochStep_ok hStep with ⟨hUpcoming, _, ⟨_, hs⟩ | hWeighed⟩
  · rw [hs] at hNew
    exact absurd rfl hNew
  · have hNewly := justifiedBy_iff hWeighed
    rcases finalized_of_weighed hWeighed with hEq | ⟨hCur, hRule⟩ | ⟨hPrev, hRule⟩
    · exact absurd hEq hNew
    · rw [hCur]
      have hMajority := hWeighed.weighed.bit0.symm.trans (hRule.elim And.left And.left)
      have hLinked := @linked_of_bits _ _ _ hPost hUpcoming hSound.currentKnown _ 0
        fun epoch hHere => (hNewly epoch).mpr (.inr ⟨hMajority, hHere⟩)
      rcases hRule with ⟨hBit0, hBit1, hBit2, hEp⟩ | ⟨hBit0, hBit1, hEp⟩
      all_goals exact hLinked hEp (by decide) (by decide) (by grind)
    · by_cases hMajority : isSupermajority input.balances.previousTarget input.balances.totalActive
          = true
      · rw [hPrev]
        have hLinked := @linked_of_bits _ _ _ hPost hUpcoming hSound.previousKnown _ 1
          fun epoch hHere => (hNewly epoch).mpr (.inl ⟨hMajority, hHere⟩)
        rcases hRule with ⟨hBit1, hBit2, hBit3, hEp⟩ | ⟨hBit1, hBit2, hEp⟩
        all_goals exact hLinked hEp (by decide) (by decide) (by grind)
      · have hSettled := hSound.settled_of_previousRule hWeighed hMajority hRule
        exact absurd (hPrev.trans hSettled.symm) hNew

----
-- Whole Runs
----

/- The checkpoints of a state only move on to later epochs. -/
structure EpochsAdvance (before after : JustificationState) : Prop where
  previous : before.previousJustifiedCheckpoint.epoch ≤ after.previousJustifiedCheckpoint.epoch
  current : before.currentJustifiedCheckpoint.epoch ≤ after.currentJustifiedCheckpoint.epoch
  finalized : before.finalizedCheckpoint.epoch ≤ after.finalizedCheckpoint.epoch

theorem epochsAdvance_epochStep (hSound : Sound run)
    (hStep : epochStep E run input = .ok after) : EpochsAdvance run.state after.state := by
  rcases epochStep_ok hStep with ⟨_, _, ⟨_, hs⟩ | hWeighed⟩
  · rw [hs]
    exact ⟨le_rfl, le_rfl, le_rfl⟩
  · refine ⟨?_, ?_, ?_⟩
    · rw [hWeighed.weighed.previous]
      exact hSound.previousLe
    · exact (current_of_weighed hWeighed hSound).1
    · exact (finalized_le_of_weighed hWeighed hSound).1

theorem getCurrentEpoch_epochStep (hStep : epochStep E run input = .ok after) :
    getCurrentEpoch E after.state = after.upcoming - 1 := by
  rcases epochStep_ok hStep with ⟨hUpcoming, _, hCase⟩
  have hSlot : after.state.slot = (atEnd E run input).slot := by
    rcases hCase with ⟨_, hs⟩ | hWeighed
    · rw [hs]
    · exact hWeighed.weighed.slot
  rw [hUpcoming, getCurrentEpoch, hSlot]
  exact getCurrentEpoch_atEnd

theorem sound_final (hSound : Sound run)
    (hEp : getCurrentEpoch E run.state = run.upcoming - 1) (ins : List EpochInput) :
    let t := Run.final (epochStep E) run ins
    Sound t ∧ getCurrentEpoch E t.state = t.upcoming - 1 ∧ EpochsAdvance run.state t.state := by
  refine Run.invariant_of_step
    (fun t =>
      Sound t ∧ getCurrentEpoch E t.state = t.upcoming - 1 ∧ EpochsAdvance run.state t.state)
    ?_ ⟨hSound, hEp, le_rfl, le_rfl, le_rfl⟩
  rintro s input after _ ⟨hPre, _, hSoFar⟩ hStep
  have hStepped := epochsAdvance_epochStep hPre hStep
  refine ⟨sound_epochStep hPre hStep, getCurrentEpoch_epochStep hStep, ?_⟩
  exact ⟨le_trans hSoFar.previous hStepped.previous, le_trans hSoFar.current hStepped.current,
    le_trans hSoFar.finalized hStepped.finalized⟩

/-
  In every run of epochs from genesis: the checkpoints are in order and no later than the current
  epoch; they never go back; bit `k` says whether the epoch `k` before the current one has been
  justified; what is finalized anew was justified before, and is linked to a newly justified
  checkpoint by at most three justified epochs in a row. Both forms of the weighing are the same.
-/
theorem ffg_bookkeeping (E : EpochPreset) (inputs : List EpochInput) :
    let reached (done : List EpochInput) := Run.final (epochStep E) genesisRun done
    let run := reached inputs
    (run.state.finalizedCheckpoint.epoch ≤ run.state.previousJustifiedCheckpoint.epoch ∧
        run.state.previousJustifiedCheckpoint.epoch ≤ run.state.currentJustifiedCheckpoint.epoch ∧
        run.state.currentJustifiedCheckpoint.epoch ≤ getCurrentEpoch E run.state) ∧
      (∀ past xs, inputs = past ++ xs → EpochsAdvance (reached past).state run.state) ∧
      (∀ i (hIdx : i < 4), run.state.justificationBits[i] = true ↔
        ∃ epoch, Justified run.justified epoch ∧ epoch + i = getCurrentEpoch E run.state) ∧
      (∀ past input xs after, inputs = past ++ input :: xs →
        epochStep E (reached past) input = .ok after →
        after.state.finalizedCheckpoint ≠ (reached past).state.finalizedCheckpoint →
        after.state.finalizedCheckpoint ∈ (reached past).justified ∧
          LinkedToNew after.justified (justifiedBy E (reached past) input)
            after.state.finalizedCheckpoint) ∧
      ∀ s bals, weighPhase0 E s bals = weighAltair E s bals := by
  have hReached := sound_final sound_genesisRun (Nat.zero_div E.slotsPerEpoch)
  rcases hReached inputs with ⟨hSound, hEp, _⟩
  dsimp only
  refine ⟨⟨hSound.finalizedLe, hSound.previousLe, ?_⟩, ?_, ?_, ?_, ?_⟩
  · rw [hEp]
    exact hSound.current_le
  · intro past xs hInputs
    rw [hInputs, Run.final_append]
    exact (sound_final (hReached past).1 (hReached past).2.1 xs).2.2
  · intro i hIdx
    rw [hSound.bits i hIdx, hEp]
    constructor
    · rintro ⟨epoch, hJust, hAt⟩
      exact ⟨epoch, hJust, by grind⟩
    · rintro ⟨epoch, ⟨cp, hMem, hEq⟩, hAt⟩
      have hWithin := hSound.within cp hMem
      exact ⟨epoch, ⟨cp, hMem, hEq⟩, by grind⟩
  · intro past input xs after _ hStep hNew
    exact finalizes_linked (hReached past).1 hStep hNew
  · intro s bals
    exact (weighAltair_eq E s bals).symm

end Pharos.Stf.Justification
