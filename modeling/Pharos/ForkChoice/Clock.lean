import Mathlib.Data.Nat.ModEq
import Pharos.Sample

/-
  This file determines what a tick of the clock does to the store. However many slots pass, only
  three things matter: the time, whether the slot is a new one, and whether the epoch is. From this
  follow when a tick may stop on its way, and when the one step that an import takes is as good as a
  tick.

  Main theorems:
  * `onTick_onTick_iff`
  * `onTickPerSlot_eq_onTick_iff`
-/

----
-- Setting the Clock
----

namespace Pharos.ForkChoice

open List BeaconSpec Sample

section

variable {S : Type}

def clockSet (store : Store S) (time : Nat) (newSlot newEpoch : Bool) : Store S :=
  let timed := { store with
    time
    proposerBoostRoot :=
      if newSlot then defaultRoot
      else store.proposerBoostRoot }
  if newEpoch then
    updateCheckpoints timed store.unrealizedJustifiedCheckpoint store.unrealizedFinalizedCheckpoint
  else
    timed

/- Taking over the unrealized checkpoints makes a difference. -/
def PullsUp (store : Store S) : Prop :=
  store.unrealizedJustifiedCheckpoint.epoch > store.justifiedCheckpoint.epoch ∨
    store.unrealizedFinalizedCheckpoint.epoch > store.finalizedCheckpoint.epoch

instance (store : Store S) : Decidable (PullsUp store) :=
  inferInstanceAs (Decidable (_ ∨ _))

variable {st : Store S} {t later : Nat} {newSlot newEpoch laterSlot laterEpoch : Bool}

@[simp] theorem genesisTime_clockSet :
    (clockSet st t newSlot newEpoch).genesisTime = st.genesisTime := by
  cases newEpoch <;> rfl

@[simp] theorem time_clockSet : (clockSet st t newSlot newEpoch).time = t := by
  cases newEpoch <;> rfl

@[simp] theorem proposerBoostRoot_clockSet :
    (clockSet st t newSlot newEpoch).proposerBoostRoot = if newSlot then defaultRoot
      else st.proposerBoostRoot := by
  cases newEpoch <;> rfl

theorem clockSet_checkpoints : { clockSet st t newSlot newEpoch with
      justifiedCheckpoint := (clockSet st t newSlot laterEpoch).justifiedCheckpoint
      finalizedCheckpoint := (clockSet st t newSlot laterEpoch).finalizedCheckpoint } =
      clockSet st t newSlot laterEpoch := by
  cases newEpoch <;> cases laterEpoch <;> rfl

theorem takeOver_takeOver (unrealized realized : Checkpoint) : (if unrealized.epoch >
        (if unrealized.epoch > realized.epoch then unrealized else realized).epoch then
      unrealized
    else if unrealized.epoch > realized.epoch then unrealized
    else realized) = if unrealized.epoch > realized.epoch then unrealized else realized := by
  by_cases hNewer : unrealized.epoch > realized.epoch
  · simp [hNewer]
  · simp [hNewer]

theorem clockSet_clockSet :
    clockSet (clockSet st t newSlot newEpoch) later laterSlot laterEpoch =
      clockSet st later (newSlot || laterSlot) (newEpoch || laterEpoch) := by
  have hBoost : (if laterSlot then defaultRoot
        else if newSlot then defaultRoot
        else st.proposerBoostRoot) =
        if newSlot || laterSlot then defaultRoot
        else st.proposerBoostRoot := by
    cases newSlot <;> cases laterSlot <;> rfl
  cases newEpoch <;> cases laterEpoch <;>
    simp [clockSet, updateCheckpoints, hBoost, takeOver_takeOver]

theorem takeOver_eq_iff {unrealized realized : Checkpoint} :
    (if unrealized.epoch > realized.epoch then unrealized else realized) = realized ↔
      ¬ unrealized.epoch > realized.epoch := by
  constructor
  · intro hEq hNewer
    rw [if_pos hNewer] at hEq
    rw [hEq] at hNewer
    exact absurd hNewer (lt_irrefl _)
  · intro hOlder
    exact if_neg hOlder

theorem clockSet_of_not_pullsUp (hStay : ¬ PullsUp st) :
    clockSet st t newSlot newEpoch = clockSet st t newSlot false := by
  rw [PullsUp, not_or, ← takeOver_eq_iff, ← takeOver_eq_iff] at hStay
  cases newEpoch
  · rfl
  · simp only [clockSet, updateCheckpoints, if_true, Bool.false_eq_true, if_false]
    rw [hStay.1, hStay.2]

theorem clockSet_eq_iff :
    clockSet st t newSlot newEpoch = clockSet st t laterSlot laterEpoch ↔
      (newSlot = laterSlot ∨ st.proposerBoostRoot = defaultRoot) ∧
        (newEpoch = laterEpoch ∨ ¬ PullsUp st) := by
  constructor
  · intro hEq
    -- each part is read off from the fields it decides
    have hBoost := congrArg Store.proposerBoostRoot hEq
    have hJust := congrArg Store.justifiedCheckpoint hEq
    have hFin := congrArg Store.finalizedCheckpoint hEq
    refine ⟨?_, ?_⟩
    · rw [proposerBoostRoot_clockSet, proposerBoostRoot_clockSet] at hBoost
      cases newSlot <;> cases laterSlot <;> simp_all
    · rw [PullsUp, not_or, ← takeOver_eq_iff, ← takeOver_eq_iff]
      cases newEpoch <;> cases laterEpoch
      · exact .inl rfl
      · exact .inr ⟨hJust.symm, hFin.symm⟩
      · exact .inr ⟨hJust, hFin⟩
      · exact .inl rfl
  · rintro ⟨hSlots, hEpochs⟩
    have hSlot : clockSet st t newSlot newEpoch = clockSet st t laterSlot newEpoch := by
      rcases hSlots with rfl | hBoost
      · rfl
      · unfold clockSet
        rw [hBoost, ite_self, ite_self]
    rw [hSlot]
    rcases hEpochs with rfl | hStay
    · rfl
    · exact (clockSet_of_not_pullsUp hStay).trans (clockSet_of_not_pullsUp hStay).symm

end

----
-- New Epochs
----

section

variable (S : Type) [BeaconSpec S]

theorem computeEpochAtSlot_mono {early late : Slot} (hSlots : early ≤ late) :
    computeEpochAtSlot S early ≤ computeEpochAtSlot S late :=
  Nat.div_le_div_right hSlots

theorem startsEpoch_succ_iff (slot : Slot) : computeSlotsSinceEpochStart S (slot + 1) = 0 ↔
      computeEpochAtSlot S slot < computeEpochAtSlot S (slot + 1) := by
  unfold computeSlotsSinceEpochStart computeStartSlotAtEpoch computeEpochAtSlot
  rw [← Nat.mod_eq_sub_div_mul, ← Nat.dvd_iff_mod_eq_zero, Nat.succ_div]
  split <;> simp_all

theorem computeEpochAtSlot_lt_of_startsEpoch {early late : Slot} (hSlots : early < late)
    (hStarts : computeSlotsSinceEpochStart S late = 0) :
    computeEpochAtSlot S early < computeEpochAtSlot S late := by
  cases late with
  | zero => exact absurd hSlots (Nat.not_lt_zero _)
  | succ slot =>
    exact Nat.lt_of_le_of_lt (computeEpochAtSlot_mono S (Nat.le_of_lt_succ hSlots))
      ((startsEpoch_succ_iff S slot).mp hStarts)

end

----
-- Slots of Whole Seconds
----

section

def WholeSeconds (slotMs : Nat) : Prop :=
  ∃ seconds, 0 < seconds ∧ slotMs = seconds * 1000

variable {t genesisTime slotMs slot : Nat}

theorem slotStartTime_of_le (hWhole : WholeSeconds slotMs) (hTime : t < 2 ^ 64)
    (hPos : 0 < slot) (hAt : slot ≤ slotFromTime t genesisTime slotMs) :
    slotStartTime slot genesisTime slotMs * 1000 = genesisTime * 1000 + slot * slotMs ∧
      slotStartTime slot genesisTime slotMs ≤ t ∧
      slot * slotMs ≤ Word.wrapMul (t - genesisTime) 1000 := by
  rcases hWhole with ⟨seconds, hSeconds, rfl⟩
  have hMax : max (seconds * 1000) 1 = seconds * 1000 := max_eq_left (by omega)
  rw [slotFromTime, hMax, Nat.le_div_iff_mul_le (by omega)] at hAt
  have hMs := Word.wrapMul_le (t - genesisTime) 1000
  have hWord := Word.wrapMul_lt (t - genesisTime) 1000
  have hProduct : slot * (seconds * 1000) = slot * seconds * 1000 :=
      (mul_assoc slot seconds 1000).symm
  have hSlotPos : 0 < slot * seconds := Nat.mul_pos hPos hSeconds
  have hStart : slotStartTime slot genesisTime (seconds * 1000) = genesisTime + slot * seconds := by
    rw [slotStartTime, Word.wrapMul_of_lt (Nat.lt_of_le_of_lt hAt hWord), hProduct,
      Nat.mul_div_cancel _ (by omega), Word.wrapAdd_of_lt (by omega)]
  refine ⟨by omega, by omega, hAt⟩

theorem slotFromTime_slotStartTime (hWhole : WholeSeconds slotMs) (hTime : t < 2 ^ 64)
    (hPos : 0 < slot) (hAt : slot ≤ slotFromTime t genesisTime slotMs) :
    slotFromTime (slotStartTime slot genesisTime slotMs) genesisTime slotMs = slot := by
  rcases slotStartTime_of_le hWhole hTime hPos hAt with ⟨hStart, _, hFits⟩
  have hWord := Word.wrapMul_lt (t - genesisTime) 1000
  have hSince : (slotStartTime slot genesisTime slotMs - genesisTime) * 1000 = slot * slotMs := by
    rw [Nat.sub_mul, hStart]
    exact Nat.add_sub_cancel_left _ _
  rcases hWhole with ⟨seconds, hSeconds, rfl⟩
  have hMax : max (seconds * 1000) 1 = seconds * 1000 := max_eq_left (by omega)
  rw [slotFromTime, hMax, Word.wrapMul, hSince, Nat.mod_eq_of_lt (Nat.lt_of_le_of_lt hFits hWord),
    Nat.mul_div_cancel _ (by omega)]

end

----
-- Ticks
----

section

variable {S : Type} [BeaconSpec S] {store : Store S} {time : Nat}

def slotAt (store : Store S) (time : Nat) : Slot :=
  slotFromTime time store.genesisTime (storeSlotMs store)

def epochAt (store : Store S) (time : Nat) : Epoch :=
  computeEpochAtSlot S (slotAt store time)

variable {newEpoch newSlot : Bool}

@[simp] theorem storeSlotMs_clockSet :
    storeSlotMs (clockSet store time newSlot newEpoch) = storeSlotMs store := by
  cases newEpoch <;> rfl

@[simp] theorem slotAt_clockSet {later : Nat} :
    slotAt (clockSet store time newSlot newEpoch) later = slotAt store later := by
  unfold slotAt
  rw [genesisTime_clockSet, storeSlotMs_clockSet]

@[simp] theorem getCurrentSlot_clockSet :
    getCurrentSlot (clockSet store time newSlot newEpoch) = slotAt store time := by
  change slotAt _ (clockSet store time newSlot newEpoch).time = _
  rw [time_clockSet, slotAt_clockSet]

@[simp] theorem epochAt_clockSet {later : Nat} :
    epochAt (clockSet store time newSlot newEpoch) later = epochAt store later := by
  unfold epochAt
  rw [slotAt_clockSet]

@[simp] theorem getCurrentStoreEpoch_clockSet :
    getCurrentStoreEpoch (clockSet store time newSlot newEpoch) = epochAt store time := by
  unfold getCurrentStoreEpoch epochAt
  rw [getCurrentSlot_clockSet]

theorem onTickPerSlot_eq_clockSet (store : Store S) (time : Nat) : onTickPerSlot store time =
      clockSet store time (decide (getCurrentSlot store < slotAt store time))
        (decide (getCurrentSlot store < slotAt store time ∧
          computeSlotsSinceEpochStart S (slotAt store time) = 0)) := by
  have hSlot : getCurrentSlot { store with time } = slotAt store time :=
    rfl
  unfold onTickPerSlot
  simp only [hSlot]
  by_cases hNew : getCurrentSlot store < slotAt store time
  · by_cases hStarts : computeSlotsSinceEpochStart S (slotAt store time) = 0
    · simp [hNew, hStarts, clockSet]
    · simp [hNew, hStarts, clockSet]
  · simp [hNew, clockSet]

def nextSlotStore (store : Store S) : Store S :=
  clockSet store (slotStartTime (getCurrentSlot store + 1) store.genesisTime (storeSlotMs store))
    true
    (decide (getCurrentStoreEpoch store < computeEpochAtSlot S (getCurrentSlot store + 1)))

@[simp] theorem storeSlotMs_nextSlotStore : storeSlotMs (nextSlotStore store) = storeSlotMs store :=
  storeSlotMs_clockSet

@[simp] theorem genesisTime_nextSlotStore : (nextSlotStore store).genesisTime = store.genesisTime :=
  genesisTime_clockSet

@[simp] theorem slotAt_nextSlotStore : slotAt (nextSlotStore store) time = slotAt store time :=
  slotAt_clockSet

theorem onTickPerSlot_slotStartTime (hWhole : WholeSeconds (storeSlotMs store))
    (hTime : time < 2 ^ 64) (hPre : getCurrentSlot store < slotAt store time) :
    onTickPerSlot store
        (slotStartTime (getCurrentSlot store + 1) store.genesisTime (storeSlotMs store)) =
      nextSlotStore store := by
  have hStart : slotAt store (slotStartTime (getCurrentSlot store +
      1) store.genesisTime (storeSlotMs store)) = getCurrentSlot store + 1 :=
      slotFromTime_slotStartTime hWhole hTime (Nat.succ_pos _) hPre
  rw [onTickPerSlot_eq_clockSet, hStart, nextSlotStore]
  congr 1
  · exact decide_eq_true (Nat.lt_succ_self _)
  · rw [decide_eq_decide, startsEpoch_succ_iff]
    exact and_iff_right (Nat.lt_succ_self _)

@[elab_as_elim] theorem tick_induction {motive : Nat → Store S → Prop}
    (hTime : time < 2 ^ 64)
    (s : ∀ fuel store, slotAt store time ≤ getCurrentSlot store → motive fuel store)
    (next :
      ∀ fuel store, WholeSeconds (storeSlotMs store) → getCurrentSlot store < slotAt store time →
        getCurrentSlot (nextSlotStore store) = getCurrentSlot store + 1 →
        motive fuel (nextSlotStore store) → motive (fuel + 1) store) (fuel : Nat)
    (store : Store S) (hWhole : WholeSeconds (storeSlotMs store))
    (hFuel : slotAt store time ≤ getCurrentSlot store + fuel) : motive fuel store := by
  induction fuel generalizing store with
  | zero => exact s 0 store hFuel
  | succ fuel ih =>
    rcases lt_or_ge (getCurrentSlot store) (slotAt store time) with hPre | hAt
    · have hNext : getCurrentSlot (nextSlotStore store) = getCurrentSlot store + 1 := by
        rw [nextSlotStore, getCurrentSlot_clockSet]
        exact slotFromTime_slotStartTime hWhole hTime (Nat.succ_pos _) hPre
      refine next fuel store hWhole hPre hNext (ih _ ?_ ?_)
      · rw [storeSlotMs_nextSlotStore]
        exact hWhole
      · rw [slotAt_nextSlotStore, hNext]
        grind
    · exact s (fuel + 1) store hAt

end

----
-- The Loop of a Tick
----

section

variable {S : Type} [BeaconSpec S] {store : Store S} {time fuel : Nat}

theorem catchUp_of_reached {slotMs : Nat} (hAt : slotAt store time ≤ getCurrentSlot store) :
    catchUp slotMs (slotAt store time) fuel store = store := by
  cases fuel with
  | zero => rfl
  | succ fuel => rw [catchUp, if_neg (not_lt.mpr hAt)]

section

variable (hWhole : WholeSeconds (storeSlotMs store))
include hWhole

section

variable (hTime : time < 2 ^ 64)
include hTime

theorem catchUp_of_before
    (hPre : getCurrentSlot store < slotAt store time) :
    catchUp (storeSlotMs store) (slotAt store time) (fuel + 1) store =
      catchUp (storeSlotMs (nextSlotStore store)) (slotAt (nextSlotStore store) time) fuel
        (nextSlotStore store) := by
  rw [catchUp, if_pos hPre]
  dsimp only
  rw [onTickPerSlot_slotStartTime hWhole hTime hPre,
    storeSlotMs_nextSlotStore, slotAt_nextSlotStore]

section

variable (hFuel : slotAt store time ≤ getCurrentSlot store + fuel)
include hFuel

theorem ended_catchUp :
    slotAt store time ≤
      getCurrentSlot (catchUp (storeSlotMs store) (slotAt store time) fuel store) := by
  refine tick_induction hTime ?_ ?_ fuel store hWhole hFuel
  · intro fuel store hAt
    rw [catchUp_of_reached hAt]
    exact hAt
  · intro fuel store hWhole hPre _ ih
    rw [catchUp_of_before hWhole hTime hPre]
    rw [slotAt_nextSlotStore] at ih ⊢
    exact ih

/- The loop and the step after it, with enough rounds. -/
theorem onTickPerSlot_catchUp :
    onTickPerSlot (catchUp (storeSlotMs store) (slotAt store time) fuel store) time =
      clockSet store time (decide (getCurrentSlot store < slotAt store time))
        (decide (getCurrentStoreEpoch store < epochAt store time)) := by
  refine tick_induction hTime ?_ ?_ fuel store hWhole hFuel
  · intro fuel store hAt
    have hEp : epochAt store time ≤ getCurrentStoreEpoch store :=
        computeEpochAtSlot_mono S hAt
    rw [catchUp_of_reached hAt, onTickPerSlot_eq_clockSet]
    simp [not_lt.mpr hAt, not_lt.mpr hEp]
  · intro fuel store hWhole hPre hNext ih
    have hThis := computeEpochAtSlot_mono S (Nat.le_succ (getCurrentSlot store))
    have hLater := computeEpochAtSlot_mono S (Nat.succ_le_of_lt hPre)
    rw [catchUp_of_before hWhole hTime hPre, ih, nextSlotStore, clockSet_clockSet, ←
      nextSlotStore, getCurrentStoreEpoch, epochAt, hNext, slotAt_nextSlotStore, Bool.true_or]
    -- a new epoch starts in the next slot, or after it
    congr 1
    · exact (decide_eq_true hPre).symm
    · rw [← Bool.decide_or, decide_eq_decide, getCurrentStoreEpoch, epochAt]
      grind

end

theorem onTick_eq_clockSet :
    onTick store time = clockSet store time (decide (getCurrentSlot store < slotAt store time))
      (decide (getCurrentStoreEpoch store < epochAt store time)) :=
  onTickPerSlot_catchUp hWhole hTime (le_add_tsub)

end

end

----
-- The Slots of a Tick
----

def catchUpStores (slotMs : Nat) (tickSlot : Slot) : Nat → Store S → List (Store S)
| 0, _ => []
| fuel + 1, store =>
  if getCurrentSlot store < tickSlot then
    let previousTime := slotStartTime (getCurrentSlot store + 1) store.genesisTime slotMs
    let next := onTickPerSlot store previousTime
    next :: catchUpStores slotMs tickSlot fuel next
  else
    []

def slotsUntil (store : Store S) (time : Nat) : List Slot :=
  range' (getCurrentSlot store + 1) (slotAt store time - getCurrentSlot store)

theorem slotsUntil_of_before (hPre : getCurrentSlot store < slotAt store time)
    (hNext : getCurrentSlot (nextSlotStore store) = getCurrentSlot store + 1) :
    slotsUntil store time =
      (getCurrentSlot store + 1) :: slotsUntil (nextSlotStore store) time := by
  have hSplit : slotAt store time - getCurrentSlot store = slotAt store time -
      (getCurrentSlot store + 1) + 1 := by
    grind
  rw [slotsUntil, hSplit, range'_succ, slotsUntil, slotAt_nextSlotStore, hNext]

/-
  The loop of a tick ends within some rounds, with the result of the tick, and on its way each slot
  has its turn once, at its start.
-/
structure TicksThrough (store : Store S) (time rounds : Nat) : Prop where
  ended : ¬ getCurrentSlot (catchUp (storeSlotMs store) (slotAt store time) rounds store) <
    slotAt store time
  result : onTickPerSlot (catchUp (storeSlotMs store) (slotAt store time) rounds store) time =
    onTick store time
  slots : (catchUpStores (storeSlotMs store) (slotAt store time)
    rounds store).map getCurrentSlot = slotsUntil store time
  starts : (catchUpStores (storeSlotMs store) (slotAt store time)
    rounds store).map Store.time = (slotsUntil store time).map fun slot =>
        slotStartTime slot store.genesisTime (storeSlotMs store)

theorem catchUpStores_slots (hWhole : WholeSeconds (storeSlotMs store)) (hTime : time < 2 ^ 64)
    (hFuel : slotAt store time ≤ getCurrentSlot store + fuel) :
    (catchUpStores (storeSlotMs store) (slotAt store time)
        fuel store).map (fun passed => (getCurrentSlot passed, passed.time)) =
      (slotsUntil store time).map fun slot =>
        (slot, slotStartTime slot store.genesisTime (storeSlotMs store)) := by
  refine tick_induction hTime ?_ ?_ fuel store hWhole hFuel
  · intro fuel store hAt
    rw [slotsUntil, Nat.sub_eq_zero_of_le hAt, range'_zero]
    cases fuel with
    | zero => rfl
    | succ fuel =>
      rw [catchUpStores, if_neg (not_lt.mpr hAt)]
      rfl
  · intro fuel store hWhole hPre hNext ih
    rw [storeSlotMs_nextSlotStore, slotAt_nextSlotStore, genesisTime_nextSlotStore] at ih
    rw [catchUpStores, if_pos hPre]
    dsimp only
    rw [onTickPerSlot_slotStartTime hWhole hTime hPre, slotsUntil_of_before hPre hNext,
      map_cons, map_cons, ih, hNext, nextSlotStore, time_clockSet]

theorem ticksThrough (hWhole : WholeSeconds (storeSlotMs store)) (hTime : time < 2 ^ 64)
    {n : Nat} (hRounds : slotAt store time - getCurrentSlot store ≤ n) :
    TicksThrough store time n := by
  have hFuel : slotAt store time ≤ getCurrentSlot store + n :=
      Nat.sub_le_iff_le_add'.mp hRounds
  have hPassed := catchUpStores_slots hWhole hTime hFuel
  refine ⟨?_, ?_, ?_, ?_⟩
  · exact Nat.not_lt.mpr (ended_catchUp hWhole hTime hFuel)
  · rw [onTickPerSlot_catchUp hWhole hTime hFuel, onTick_eq_clockSet hWhole hTime]
  · have hSlots := congrArg (map Prod.fst) hPassed
    simpa [Function.comp_def] using hSlots
  · have hStarts := congrArg (map Prod.snd) hPassed
    simpa [Function.comp_def] using hStarts

end

----
-- Stopping on the Way
----

section

variable {S : Type} [BeaconSpec S] {store : Store S} {first second : Nat}

/-
  A tick to a time may stop at another. If there is a boost to lose, the slots do not rise to the
  first time and fall back after it, and if there are checkpoints to take over, the epochs do not.
-/
def RestsAt (store : Store S) (first second : Nat) : Prop :=
  (store.proposerBoostRoot = defaultRoot ∨ getCurrentSlot store < slotAt store second ∨
      slotAt store second ≤ slotAt store first ∧ slotAt store first ≤ getCurrentSlot store) ∧
    (¬ PullsUp store ∨ getCurrentStoreEpoch store < epochAt store second ∨
      epochAt store second ≤ epochAt store first ∧ epochAt store first ≤ getCurrentStoreEpoch store)

instance (store : Store S) (first second : Nat) : Decidable (RestsAt store first second) :=
  inferInstanceAs (Decidable (_ ∧ _))

/- Before the milliseconds wrap around, slots do not go back. -/
theorem slotAt_mono (hTimes : first ≤ second)
    (hFits : (second - store.genesisTime) * 1000 < 2 ^ 64) :
    slotAt store first ≤ slotAt store second := by
  have hLe : (first - store.genesisTime) * 1000 ≤ (second - store.genesisTime) * 1000 :=
    Nat.mul_le_mul_right _ (Nat.sub_le_sub_right hTimes _)
  unfold slotAt slotFromTime
  rw [Word.wrapMul_of_lt hFits, Word.wrapMul_of_lt (hLe.trans_lt hFits)]
  exact Nat.div_le_div_right hLe

/- Then a tick may stop at an earlier time. -/
theorem restsAt_of_fits (hStore : store.time ≤ first) (hTimes : first ≤ second)
    (hFits : (second - store.genesisTime) * 1000 < 2 ^ 64) : RestsAt store first second := by
  have hLater : slotAt store first ≤ slotAt store second := slotAt_mono hTimes hFits
  have hEarlier : getCurrentSlot store ≤ slotAt store first := by
    refine slotAt_mono hStore (Nat.lt_of_le_of_lt (Nat.mul_le_mul_right _ ?_) hFits)
    exact Nat.sub_le_sub_right hTimes _
  have hLaterEpoch : epochAt store first ≤ epochAt store second :=
    computeEpochAtSlot_mono S hLater
  have hEarlierEpoch : getCurrentStoreEpoch store ≤ epochAt store first :=
    computeEpochAtSlot_mono S hEarlier
  refine ⟨.inr ?_, .inr ?_⟩
  · grind
  · grind

theorem onTick_onTick_eq_iff (hWhole : WholeSeconds (storeSlotMs store)) (hFst : first < 2 ^ 64)
    (hSnd : second < 2 ^ 64) :
    onTick (onTick store first) second = onTick store second ↔ RestsAt store first second := by
  have hRested : WholeSeconds (storeSlotMs (onTick store first)) := by
    rw [onTick_eq_clockSet hWhole hFst, storeSlotMs_clockSet]
    exact hWhole
  rw [onTick_eq_clockSet hRested hSnd, onTick_eq_clockSet hWhole hFst,
    onTick_eq_clockSet hWhole hSnd, getCurrentStoreEpoch_clockSet, epochAt_clockSet,
    getCurrentSlot_clockSet, slotAt_clockSet, clockSet_clockSet, clockSet_eq_iff, ← Bool.decide_or,
    ← Bool.decide_or, decide_eq_decide, decide_eq_decide, RestsAt]
  refine and_congr ?_ ?_
  · grind
  · grind

/-
  A tick ends after as many rounds as there are slots to the time, and passes through each of their
  starts once; and it may stop at an earlier time exactly if the slots and epochs do not go back
  between.
-/
theorem onTick_onTick_iff (store : Store S) (first second : Nat)
    (hWhole : WholeSeconds (storeSlotMs store)) (hFirst : first < 2 ^ 64)
    (hSecond : second < 2 ^ 64) :
    ((∀ rounds,
        slotAt store second - getCurrentSlot store ≤ rounds → TicksThrough store second rounds) ∧
      onTick (onTick store first) second = onTick store second) ↔
      RestsAt store first second := by
  rw [← onTick_onTick_eq_iff hWhole hFirst hSecond]
  refine and_iff_right ?_
  intro rounds hRounds
  exact ticksThrough hWhole hSecond hRounds

theorem wholeSeconds_sample {store : Store ChainState}
    (hSeconds : store.secondsPerSlot = 12) : WholeSeconds (storeSlotMs store) := by
  refine ⟨12, by decide, ?_⟩
  unfold storeSlotMs
  rw [hSeconds]
  decide +kernel

def boostedStore (time : Nat) : Store ChainState :=
  { getForkchoiceStore anchorState anchorBlock with
    time
    proposerBoostRoot := anchorRoot }

theorem onTick_onTick_iff_boostedStore : ((∀ rounds,
        slotAt (boostedStore 6) 50 - getCurrentSlot (boostedStore 6) ≤ rounds →
          TicksThrough (boostedStore 6) 50 rounds) ∧
      onTick (onTick (boostedStore 6) 20) 50 = onTick (boostedStore 6) 50) ↔
      RestsAt (boostedStore 6) 20 50 :=
  onTick_onTick_iff (boostedStore 6) 20 50 (wholeSeconds_sample rfl) (by decide) (by decide)

/-
  The milliseconds wrap around between the two times. The first is in the next slot, where the boost
  is lost; at the second, the clock is back at slot 0.
-/
theorem onTick_onTick_wraps :
    let store := boostedStore 18446744073709536
    let first := 18446744073709548
    let second := 18446744073709552
    WholeSeconds (storeSlotMs store) ∧ store.time ≤ first ∧ first ≤ second ∧ second < 2 ^ 64 ∧
      onTick (onTick store first) second ≠ onTick store second := by
  intro store first second
  have hWhole : WholeSeconds (storeSlotMs store) :=
    wholeSeconds_sample rfl
  refine ⟨hWhole, by decide, by decide, by decide, ?_⟩
  intro hEq
  have hRests :=
    (onTick_onTick_eq_iff hWhole (by decide) (by decide)).mp hEq
  exact absurd hRests (by decide +kernel)

end

----
-- The Step of an Import
----

variable {S : Type} [BeaconSpec S]

/-
  One step is as good as a tick exactly if no epoch has started before the slot that it goes to, or
  there are no checkpoints to take over. Nothing but the checkpoints that are taken over can be
  different.
-/
theorem onTickPerSlot_eq_onTick_iff (store : Store S) (now : Nat)
    (hWhole : WholeSeconds (storeSlotMs store)) (hNow : now < 2 ^ 64) :
    (onTickPerSlot store now = onTick store now ↔
      (getCurrentStoreEpoch store < epochAt store now →
        computeSlotsSinceEpochStart S (slotAt store now) = 0) ∨
        ¬ PullsUp store) ∧
      { onTickPerSlot store now with
        justifiedCheckpoint := (onTick store now).justifiedCheckpoint
        finalizedCheckpoint := (onTick store now).finalizedCheckpoint } =
        onTick store now := by
  rw [onTick_eq_clockSet hWhole hNow, onTickPerSlot_eq_clockSet]
  refine ⟨?_, ?_⟩
  · rw [clockSet_eq_iff]
    refine (and_iff_right (.inl rfl)).trans (or_congr_left ?_)
    rw [decide_eq_decide]
    constructor
    · intro hEq hEp
      exact (hEq.mpr hEp).2
    · intro hStarts
      constructor
      · rintro ⟨hSlot, hStart⟩
        exact computeEpochAtSlot_lt_of_startsEpoch S hSlot hStart
      · intro hEp
        refine ⟨?_, hStarts hEp⟩
        refine Nat.lt_of_not_le ?_
        intro hBack
        exact not_lt.mpr (computeEpochAtSlot_mono S hBack) hEp
  · exact clockSet_checkpoints

/- In the last slot of an epoch, with checkpoints to take over. -/
def pullingStore : Store ChainState :=
  { getForkchoiceStore anchorState anchorBlock with
    time := 36
    unrealizedJustifiedCheckpoint := ⟨1, anchorRoot⟩ }

theorem onTickPerSlot_eq_onTick_iff_pullingStore :
    (onTickPerSlot pullingStore 48 = onTick pullingStore 48 ↔
      (getCurrentStoreEpoch pullingStore < epochAt pullingStore 48 →
        computeSlotsSinceEpochStart ChainState (slotAt pullingStore 48) = 0) ∨
        ¬ PullsUp pullingStore) ∧
      { onTickPerSlot pullingStore 48 with
        justifiedCheckpoint := (onTick pullingStore 48).justifiedCheckpoint
        finalizedCheckpoint := (onTick pullingStore 48).finalizedCheckpoint } =
        onTick pullingStore 48 :=
  onTickPerSlot_eq_onTick_iff pullingStore 48 (wholeSeconds_sample rfl) (by decide)

/- Two slots later, the step skips the start of the epoch. -/
theorem onTickPerSlot_skips_epoch :
    60 > pullingStore.time ∧ onTickPerSlot pullingStore 60 ≠ onTick pullingStore 60 := by
  refine ⟨by decide, ?_⟩
  intro hEq
  have hJust : (onTickPerSlot pullingStore 60).justifiedCheckpoint =
      (onTick pullingStore 60).justifiedCheckpoint := congrArg Store.justifiedCheckpoint hEq
  exact absurd hJust (by decide)

end Pharos.ForkChoice
