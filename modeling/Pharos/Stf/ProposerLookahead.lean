import Pharos.Stf.Electra.Conservation

/-
  This file implements the window of proposers that a state of Fulu holds: those of the current
  epoch and of the epochs up to the seed lookahead after it. An epoch transition drops the first
  epoch of the window and appends the next one.

  How the seed of an epoch is made and how a seed elects a proposer are arbitrary functions.

  Main theorems:
  * `Lookahead.proposer_lookahead_stable`
-/

----
-- The Window
----

namespace Pharos.Stf.Lookahead

open List

structure LookaheadPreset where
  slotsPerEpoch : Nat
  minSeedLookahead : Nat
  slots_pos : 0 < slotsPerEpoch

structure Election where
  getSeed : BeaconState → Epoch → Hash256
  hashSlot : Hash256 → Slot → Hash256
  computeProposerIndexElectra : BeaconState → List ValidatorIndex → Hash256 → ValidatorIndex

variable (E : LookaheadPreset) (election : Election)

variable (state : BeaconState)

def currentEpoch : Epoch :=
  state.slot / E.slotsPerEpoch

def lookaheadWindow : Nat :=
  (E.minSeedLookahead + 1) * E.slotsPerEpoch

def computeProposerIndices (epoch : Epoch) (seed : Hash256)
    (indices : List ValidatorIndex) : List ValidatorIndex :=
  let startSlot := epoch * E.slotsPerEpoch
  (List.range E.slotsPerEpoch).map fun i =>
    election.computeProposerIndexElectra state indices (election.hashSlot seed (startSlot + i))

def getBeaconProposerIndices (epoch : Epoch) : List ValidatorIndex :=
  let indices := getActiveValidatorIndices state.validators epoch
  computeProposerIndices E election state epoch (election.getSeed state epoch) indices

/- The window keeps its length, or the transition fails. -/
def processProposerLookahead : Except Electra.EpochProcessingError BeaconState :=
  let lookaheadEpoch := currentEpoch E state + E.minSeedLookahead + 1
  let newTail := getBeaconProposerIndices E election state lookaheadEpoch
  let next := state.proposerLookahead.drop E.slotsPerEpoch ++ newTail
  if next.length = lookaheadWindow E then
    .ok { state with proposerLookahead := next }
  else
    .error .ssz

def getBeaconProposerIndex : ValidatorIndex :=
  state.proposerLookahead.getD (state.slot % E.slotsPerEpoch) 0

----
-- Epoch Transitions
----

/-
  States that are reached from a first one. Everything but the window may change at any time. The
  states in which an epoch ended are listed, the oldest first.
-/
inductive Reaches (start : BeaconState) : List BeaconState → BeaconState → Prop where
  | start : Reaches start [] start
  | change {crossed : List BeaconState} {before after : BeaconState} :
      Reaches start crossed before →
      after.proposerLookahead = before.proposerLookahead →
      currentEpoch E after = currentEpoch E before →
      Reaches start crossed after
  | cross {crossed : List BeaconState} {before processed after : BeaconState} :
      Reaches start crossed before →
      processProposerLookahead E election before = .ok processed →
      after.proposerLookahead = processed.proposerLookahead →
      currentEpoch E after = currentEpoch E before + 1 →
      Reaches start (crossed ++ [before]) after

/-
  What was computed for a slot when its epoch, a number of epochs after the first one, came into the
  window: it was there from the start, or it was elected at the end of an epoch.
-/
def computedFor (start : BeaconState) (crossed : List BeaconState) (age offset : Nat) :
    Option ValidatorIndex :=
  if age ≤ E.minSeedLookahead then
    start.proposerLookahead[age * E.slotsPerEpoch + offset]?
  else
    crossed[age - E.minSeedLookahead - 1]?.bind fun before =>
      (getBeaconProposerIndices E election before (currentEpoch E start + age))[offset]?

/- The window of a state, epoch by epoch. -/
structure WindowHolds
    (start : BeaconState) (crossed : List BeaconState) (state : BeaconState) : Prop where
  length : state.proposerLookahead.length = lookaheadWindow E
  epoch : currentEpoch E state = currentEpoch E start + crossed.length
  entries : ∀ ahead ≤ E.minSeedLookahead, ∀ offset < E.slotsPerEpoch,
    state.proposerLookahead[ahead * E.slotsPerEpoch + offset]? =
    computedFor E election start crossed (crossed.length + ahead) offset

variable {E election} {start state s processed : BeaconState} {crossed : List BeaconState}

theorem length_getBeaconProposerIndices (epoch : Epoch) :
    (getBeaconProposerIndices E election state epoch).length = E.slotsPerEpoch := by
  simp [getBeaconProposerIndices, computeProposerIndices]

theorem length_drop_window (hLen : state.proposerLookahead.length = lookaheadWindow E) :
    (state.proposerLookahead.drop E.slotsPerEpoch).length =
      E.minSeedLookahead * E.slotsPerEpoch := by
  rw [length_drop, hLen, lookaheadWindow, Nat.succ_mul, Nat.add_sub_cancel]

theorem processProposerLookahead_eq
    (hLen : state.proposerLookahead.length = lookaheadWindow E) :
    processProposerLookahead E election state = .ok { state with
        proposerLookahead := state.proposerLookahead.drop E.slotsPerEpoch ++
          getBeaconProposerIndices E election state
            (currentEpoch E state + E.minSeedLookahead + 1) } := by
  unfold processProposerLookahead
  rw [if_pos]
  rw [length_append, length_drop_window hLen, length_getBeaconProposerIndices,
    lookaheadWindow, Nat.succ_mul]

theorem computedFor_append {age : Nat} (off : Nat)
    (hAge : age ≤ crossed.length + E.minSeedLookahead) (more : List BeaconState) :
    computedFor E election start (crossed ++ more) age off =
      computedFor E election start crossed age off := by
  unfold computedFor
  by_cases hOld : age ≤ E.minSeedLookahead
  · rw [if_pos hOld, if_pos hOld]
  · rw [if_neg hOld, if_neg hOld, getElem?_append_left (by omega)]

theorem WindowHolds.cross (hHolds : WindowHolds E election start crossed s)
    {s' : BeaconState}
    (hProc : processProposerLookahead E election s = .ok processed)
    (hWin : s'.proposerLookahead = processed.proposerLookahead)
    (hEp : currentEpoch E s' = currentEpoch E s + 1) :
    WindowHolds E election start (crossed ++ [s]) s' := by
  have hDrop := length_drop_window hHolds.length
  rw [processProposerLookahead_eq hHolds.length] at hProc
  rw [← Except.ok.inj hProc] at hWin
  refine ⟨?_, ?_, ?_⟩
  · rw [hWin, length_append, hDrop, length_getBeaconProposerIndices, lookaheadWindow, Nat.succ_mul]
  · rw [hEp, hHolds.epoch, length_append, length_singleton, add_assoc]
  · intro ahead hAhead off hOffset
    have hAge : crossed.length + 1 + ahead = crossed.length + (ahead + 1) := by omega
    rw [hWin, length_append, length_singleton, hAge]
    rcases lt_or_eq_of_le hAhead with hInner | hLast
    · -- An epoch that was in the window before.
      have hStart : ahead * E.slotsPerEpoch + E.slotsPerEpoch ≤
          E.minSeedLookahead * E.slotsPerEpoch := by
        rw [← Nat.succ_mul]
        exact Nat.mul_le_mul_right _ hInner
      rw [getElem?_append_left (by omega), getElem?_drop,
        computedFor_append off (by omega), ← hHolds.entries (ahead + 1) hInner off hOffset,
        Nat.succ_mul, ← Nat.add_assoc, Nat.add_comm E.slotsPerEpoch]
    · -- The epoch that is new.
      subst hLast
      rw [getElem?_append_right (by omega), hDrop, Nat.add_sub_cancel_left, computedFor,
        if_neg (by omega), getElem?_append_right (by omega)]
      have hPlace : crossed.length + (E.minSeedLookahead + 1) - E.minSeedLookahead - 1 -
          crossed.length = 0 := by omega
      have hNew : currentEpoch E start + (crossed.length + (E.minSeedLookahead + 1)) =
          currentEpoch E s + E.minSeedLookahead + 1 := by
        rw [hHolds.epoch, add_assoc, add_assoc]
      rw [hPlace, hNew]
      rfl

theorem windowHolds_of_reaches (hLen : start.proposerLookahead.length = lookaheadWindow E)
    (hReaches : Reaches E election start crossed state) :
    WindowHolds E election start crossed state := by
  induction hReaches with
  | start =>
    refine ⟨hLen, rfl, ?_⟩
    intro ahead hAhead off _
    rw [length_nil, zero_add, computedFor, if_pos hAhead]
  | change _ hWin hEp ih =>
    refine ⟨hWin ▸ ih.length, hEp.trans ih.epoch, ?_⟩
    rw [hWin]
    exact ih.entries
  | cross _ hProc hWin hEp ih => exact ih.cross hProc hWin hEp

/-
  The window keeps its length, so that no transition fails. It holds for each slot what was computed
  for it, and that is the proposer when the slot has come.
-/
theorem proposer_lookahead_stable
    (hLength : start.proposerLookahead.length = lookaheadWindow E)
    (hReaches : Reaches E election start crossed state) :
    state.proposerLookahead.length = lookaheadWindow E ∧
      (∃ processed, processProposerLookahead E election state = .ok processed) ∧
      (∀ ahead ≤ E.minSeedLookahead, ∀ offset < E.slotsPerEpoch,
        state.proposerLookahead[ahead * E.slotsPerEpoch + offset]? =
          computedFor E election start crossed (crossed.length + ahead) offset) ∧
      currentEpoch E state = currentEpoch E start + crossed.length ∧
      computedFor E election start crossed crossed.length (state.slot % E.slotsPerEpoch) =
        some (getBeaconProposerIndex E state) := by
  have hHolds := windowHolds_of_reaches hLength hReaches
  have hOffset := Nat.mod_lt state.slot E.slots_pos
  refine ⟨hHolds.length, ⟨_, processProposerLookahead_eq hHolds.length⟩, hHolds.entries,
    hHolds.epoch, ?_⟩
  have hHere := hHolds.entries 0 (Nat.zero_le _) _ hOffset
  have hInside : state.slot % E.slotsPerEpoch < state.proposerLookahead.length := by
    rw [hHolds.length, lookaheadWindow, Nat.succ_mul]
    exact lt_of_lt_of_le hOffset (Nat.le_add_left _ _)
  rw [Nat.zero_mul, Nat.zero_add, Nat.add_zero] at hHere
  rw [← hHere, getBeaconProposerIndex, getD_eq_getElem?_getD,
    getElem?_eq_getElem hInside, Option.getD_some]

/- Epochs of one slot, and an election by the number of the slot. -/
def shortEpochs : LookaheadPreset :=
  ⟨1, 1, Nat.succ_pos 0⟩

def bySlot : Election :=
  ⟨fun _ _ => 0, fun _ slot => slot, fun _ _ seed => seed⟩

def fuluState : BeaconState :=
  { Electra.waitingState with proposerLookahead := [5, 6] }

/- The third slot is proposed by the one elected in the first. -/
theorem proposer_lookahead_stable_thirdSlot : Reaches shortEpochs bySlot fuluState
        [fuluState, { fuluState with proposerLookahead := [6, 2], slot := 1 }]
        { fuluState with proposerLookahead := [2, 3], slot := 2 } ∧
      computedFor shortEpochs bySlot fuluState
          [fuluState, { fuluState with proposerLookahead := [6, 2], slot := 1 }] 2 0 = some 2 := by
  have hReaches : Reaches shortEpochs bySlot fuluState
      [fuluState, { fuluState with proposerLookahead := [6, 2], slot := 1 }]
      { fuluState with proposerLookahead := [2, 3], slot := 2 } := by
    have hFst : Reaches shortEpochs bySlot fuluState [fuluState]
        { fuluState with proposerLookahead := [6, 2], slot := 1 } :=
      .cross .start (processProposerLookahead_eq rfl) rfl rfl
    exact .cross hFst (processProposerLookahead_eq rfl) rfl rfl
  exact ⟨hReaches, (proposer_lookahead_stable rfl hReaches).2.2.2.2⟩

end Pharos.Stf.Lookahead
