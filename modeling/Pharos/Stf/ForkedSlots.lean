import Pharos.Lib.Outcome
import Pharos.Stf.State

/-
  This file implements the advance of a state through the forks for arbitrary slot processing and
  upgrades of each fork. The advance to a slot is the advance by as many slots, one after the other,
  with the upgrade that is due.
-/

----
-- Slot Processing of the Forks
----

namespace Pharos.Stf.ForkedSlots

section

def laterForks : ForkVariant → List ForkVariant
| .phase0 =>
  [.altair, .bellatrix, .capella, .deneb, .electra, .fulu]
| .altair => [.bellatrix, .capella, .deneb, .electra, .fulu]
| .bellatrix => [.capella, .deneb, .electra, .fulu]
| .capella => [.deneb, .electra, .fulu]
| .deneb => [.electra, .fulu]
| .electra => [.fulu]
| .fulu => []

/- An epoch is an even number of slots. -/
structure SlotPreset where
  slotsPerEpoch : Nat
  pos : 0 < slotsPerEpoch
  even : slotsPerEpoch % 2 = 0

structure ForkEpochs where
  altair : Epoch
  bellatrix : Epoch
  capella : Epoch
  deneb : Epoch
  electra : Epoch
  fulu : Epoch

def ForkEpochs.epochOf (epochs : ForkEpochs) : ForkVariant → Epoch
| .phase0 => genesisEpoch
| .altair => epochs.altair
| .bellatrix => epochs.bellatrix
| .capella => epochs.capella
| .deneb => epochs.deneb
| .electra => epochs.electra
| .fulu => epochs.fulu

/-
  The functions of the forks. Processing a slot or an epoch leaves the slot and the variant of a
  state as they are, and an upgrade changes only the variant.
-/
structure SlotRules (S Error : Type) where
  slot : S → Slot
  setSlot : Slot → S → S
  forkVariant : S → ForkVariant
  processSlot : ForkVariant → S → Except Error S
  processEpoch : ForkVariant → S → Except Error S
  upgradeTo : ForkVariant → S → Except Error S
  targetSlotNotAfterCurrent : Slot → Slot → Error
  setSlot_keeps : ∀ target state,
    slot (setSlot target state) = target ∧ forkVariant (setSlot target state) = forkVariant state
  processSlot_keeps : ∀ {variant state after}, processSlot variant state = .ok after →
    slot after = slot state ∧ forkVariant after = forkVariant state
  processEpoch_keeps : ∀ {variant state after}, processEpoch variant state = .ok after →
    slot after = slot state ∧ forkVariant after = forkVariant state
  upgradeTo_sets : ∀ {variant state after},
    upgradeTo variant state = .ok after → slot after = slot state ∧ forkVariant after = variant

variable {S Error : Type} (rules : SlotRules S Error)
variable (E : SlotPreset) (epochs : ForkEpochs)

variable (variant : ForkVariant)

def processEpochAtEnd (state : S) : Except Error S :=
  if (rules.slot state + 1) % E.slotsPerEpoch = 0 then
    rules.processEpoch variant state
  else
    .ok state

def advanceSlot (state : S) : Except Error S := do
  let state ← rules.processSlot variant state
  let state ← processEpochAtEnd rules E variant state
  .ok (rules.setSlot (rules.slot state + 1) state)

def processSlots (state : S) (targetSlot : Slot) : Except Error S :=
  if targetSlot < rules.slot state then
    .error (rules.targetSlotNotAfterCurrent (rules.slot state) targetSlot)
  else
    Outcome.repeated (advanceSlot rules E variant) (targetSlot - rules.slot state) state

def boundarySlotIf (forkEpoch : Epoch) (currentSlot targetSlot : Slot) : Option Slot :=
  if forkEpoch = Word.maxValue then
    none
  else
    let boundary := Word.satMul forkEpoch E.slotsPerEpoch
    if currentSlot < boundary ∧ boundary ≤ targetSlot then some boundary else none

def nextFork : Option ForkVariant :=
  (laterForks variant).head?

def forkLoop (targetSlot : Slot) : Nat → S → Except Error S
| 0, state => .ok state
| rounds + 1, state =>
  if targetSlot ≤ rules.slot state then
    .ok state
  else
    let cur := rules.forkVariant state
    let nextBoundary := (nextFork cur).bind fun next =>
      boundarySlotIf E (epochs.epochOf next) (rules.slot state) targetSlot
    let stepTarget := nextBoundary.getD targetSlot
    do
      let state ← processSlots rules E cur state stepTarget
      match nextBoundary with
      | none => .ok state
      | some _ =>
        match nextFork (rules.forkVariant state) with
        | none => .ok state
        | some next => do
            let state ← rules.upgradeTo next state
            forkLoop targetSlot rounds state

def processSlotsFork (state : S) (targetSlot : Slot) : Except Error S :=
  forkLoop rules E epochs targetSlot ((laterForks .phase0).length + 1) state

end

----
-- Slot by Slot
----

section

open Outcome

variable {S Error : Type} (rules : SlotRules S Error)
variable (E : SlotPreset) (epochs : ForkEpochs)

def boundaryOf (forkEpoch : Epoch) : Option Slot :=
  if forkEpoch = Word.maxValue then none else some (Word.satMul forkEpoch E.slotsPerEpoch)

def upgradeIfDue (state : S) : Except Error S :=
  match nextFork (rules.forkVariant state) with
  | none => .ok state
  | some next =>
    if boundaryOf E (epochs.epochOf next) = some (rules.slot state) then
      rules.upgradeTo next state
    else
      .ok state

def stepSlot (state : S) : Except Error S := do
  let state ← advanceSlot rules E (rules.forkVariant state) state
  upgradeIfDue rules E epochs state

variable {rules E epochs} {variant : ForkVariant} {state after : S}

theorem processEpochAtEnd_ok (hOk : processEpochAtEnd rules E variant state = .ok after) :
    rules.slot after = rules.slot state ∧ rules.forkVariant after = rules.forkVariant state := by
  unfold processEpochAtEnd at hOk
  split at hOk
  · exact rules.processEpoch_keeps hOk
  · cases hOk
    exact ⟨rfl, rfl⟩

theorem advanceSlot_ok (hOk : advanceSlot rules E variant state = .ok after) :
    rules.slot after = rules.slot state + 1 ∧
      rules.forkVariant after = rules.forkVariant state := by
  rcases bind_ok_iff.mp hOk with ⟨a, hFst, hxs⟩
  rcases bind_ok_iff.mp hxs with ⟨b, hSnd, hLast⟩
  have hSlot := rules.processSlot_keeps hFst
  have hEp := processEpochAtEnd_ok hSnd
  have hSet := rules.setSlot_keeps (rules.slot b + 1) b
  rw [← Except.ok.inj hLast, hSet.1, hSet.2, hEp.1, hEp.2, hSlot.1, hSlot.2]
  exact ⟨rfl, rfl⟩

def SlotsAfter (rules : SlotRules S Error) (state : S) (steps : Nat) (after : S) :
    Prop :=
  rules.slot after = rules.slot state + steps ∧ rules.forkVariant after = rules.forkVariant state

theorem slotsAfter_zero (state : S) : SlotsAfter rules state 0 state :=
  ⟨rfl, rfl⟩

theorem slotsAfter_advanceSlot {steps : Nat} {mid : S}
    (hMiddle : SlotsAfter rules state steps mid)
    (hOk : advanceSlot rules E variant mid = .ok after) :
    SlotsAfter rules state (steps + 1) after := by
  rcases advanceSlot_ok hOk with ⟨hSlot, hVariant⟩
  refine ⟨?_, hVariant.trans hMiddle.2⟩
  rw [hSlot, hMiddle.1, add_assoc]

variable {n : Nat}

theorem repeated_advanceSlot_ok
    (hOk : repeated (advanceSlot rules E variant) n state = .ok after) :
    SlotsAfter rules state n after := by
  have hPost := repeated_invariant (SlotsAfter rules state)
    slotsAfter_advanceSlot (slotsAfter_zero state) hOk
  rwa [zero_add] at hPost

theorem upgradeIfDue_of_ne (hNot : ∀ next ∈ nextFork (rules.forkVariant state),
      boundaryOf E (epochs.epochOf next) ≠ some (rules.slot state)) :
    upgradeIfDue rules E epochs state = .ok state := by
  unfold upgradeIfDue
  cases hNext : nextFork (rules.forkVariant state) with
  | none => rfl
  | some next =>
    rw [hNext] at hNot
    exact if_neg (hNot next rfl)

variable {next : ForkVariant}

theorem upgradeIfDue_of_eq (hNext : nextFork (rules.forkVariant state) = some next)
    (hDue : boundaryOf E (epochs.epochOf next) = some (rules.slot state)) :
    upgradeIfDue rules E epochs state = rules.upgradeTo next state := by
  unfold upgradeIfDue
  rw [hNext]
  exact if_pos hDue

theorem repeated_advanceSlot_eq (hVariant : rules.forkVariant state = variant)
    (hNone : ∀ next ∈ nextFork variant, ∀ b, boundaryOf E (epochs.epochOf next) = some b →
      rules.slot state < b → rules.slot state + n < b) :
    repeated (advanceSlot rules E variant) n state =
      repeated (stepSlot rules E epochs) n state := by
  refine repeated_congr (SlotsAfter rules state) slotsAfter_advanceSlot ?_ (slotsAfter_zero state)
    (zero_add n).le
  intro steps mid hSteps hMiddle
  have hEq : rules.forkVariant mid = variant := hMiddle.2.trans hVariant
  unfold stepSlot
  rw [hEq]
  have hKeep : (advanceSlot rules E variant mid >>= upgradeIfDue rules E epochs) =
      (advanceSlot rules E variant mid >>= .ok) := by
    apply bind_congr_of_ok
    intro next hNext
    rcases slotsAfter_advanceSlot hMiddle hNext with ⟨hSlot, hFork⟩
    apply upgradeIfDue_of_ne
    grind
  rw [hKeep]
  exact (bind_pure _).symm

variable {targetSlot : Slot}

theorem boundarySlotIf_some_iff {forkEpoch : Epoch} {currentSlot b : Slot} :
    boundarySlotIf E forkEpoch currentSlot targetSlot = some b ↔
      boundaryOf E forkEpoch = some b ∧ currentSlot < b ∧ b ≤ targetSlot := by
  unfold boundarySlotIf boundaryOf
  by_cases hNever : forkEpoch = Word.maxValue
  · simp [hNever]
  · rw [if_neg hNever, if_neg hNever]
    dsimp only
    constructor
    · intro hSome
      split at hSome
      · rename_i hOnTheWay
        cases hSome
        exact ⟨rfl, hOnTheWay⟩
      · exact nomatch hSome
    · rintro ⟨hBoundary, hOnTheWay⟩
      rw [Option.some.inj hBoundary, if_pos hOnTheWay]

theorem length_laterForks_lt (variant : ForkVariant) :
    (laterForks variant).length < (laterForks .phase0).length + 1 := by
  cases variant <;> decide

theorem laterForks_next {later : List ForkVariant} (hLater : laterForks variant = next :: later) :
    laterForks next = later := by
  cases variant <;> cases hLater <;> rfl

theorem nextFork_eq_some (hNext : nextFork variant = some next) :
    (laterForks variant).length = (laterForks next).length + 1 := by
  cases variant <;> cases hNext <;> rfl

theorem repeated_advanceSlot_upgrade {b : Slot}
    (hNext : nextFork (rules.forkVariant state) = some next)
    (hDue : boundaryOf E (epochs.epochOf next) = some b)
    (hPost : rules.slot state < b) :
    (repeated (advanceSlot rules E (rules.forkVariant state)) (b - rules.slot state) state >>=
      rules.upgradeTo next) =
      repeated (stepSlot rules E epochs) (b - rules.slot state) state := by
  rcases Nat.exists_eq_add_of_lt hPost with ⟨n, hCount⟩
  have hSteps : b - rules.slot state = n + 1 := by
    grind
  have hSlots : repeated (advanceSlot rules E (rules.forkVariant state)) n state =
      repeated (stepSlot rules E epochs) n state := by
    apply repeated_advanceSlot_eq rfl
    grind
  rw [hSteps, repeated_add, repeated_add, bind_assoc, ← hSlots]
  apply bind_congr_of_ok
  intro last hLast
  have hAt := repeated_advanceSlot_ok hLast
  rw [repeated_one, repeated_one, stepSlot, hAt.2]
  apply bind_congr_of_ok
  intro a hFst
  have hThere := slotsAfter_advanceSlot hAt hFst
  rw [upgradeIfDue_of_eq]
  · rw [hThere.2, hNext]
  · rw [hDue, hThere.1, hCount, add_assoc]

theorem forkLoop_eq {n : Nat}
    (hRounds : (laterForks (rules.forkVariant state)).length < n)
    (hSlot : rules.slot state ≤ targetSlot) :
    forkLoop rules E epochs targetSlot n state =
      repeated (stepSlot rules E epochs) (targetSlot - rules.slot state) state := by
  induction n generalizing state with
  | zero => exact absurd hRounds (Nat.not_lt_zero _)
  | succ n ih =>
    rw [forkLoop]
    by_cases hThere : targetSlot ≤ rules.slot state
    · rw [if_pos hThere, Nat.sub_eq_zero_of_le hThere]
      rfl
    rw [if_neg hThere]
    dsimp only
    cases hBoundary : (nextFork (rules.forkVariant state)).bind fun next =>
          boundarySlotIf E (epochs.epochOf next) (rules.slot state) targetSlot with
    | none =>
      -- No fork starts on the way.
      rw [Option.getD_none, processSlots, if_neg (not_lt.mpr hSlot), repeated_advanceSlot_eq rfl]
      · exact bind_pure _
      · intro next hNext b hDue hPost
        by_contra hAt
        have hOnTheWay :=
          boundarySlotIf_some_iff.mpr ⟨hDue, hPost, (by grind : b ≤ targetSlot)⟩
        rw [Option.mem_def.mp hNext, Option.bind_some, hOnTheWay] at hBoundary
        exact nomatch hBoundary
    | some b =>
      rcases Option.bind_eq_some_iff.mp hBoundary with ⟨next, hNext, hOnTheWay⟩
      rcases boundarySlotIf_some_iff.mp hOnTheWay with ⟨hDue, hPost, hPre⟩
      rw [Option.getD_some, processSlots, if_neg (not_lt.mpr hPost.le)]
      have hSplit : targetSlot - rules.slot state = b - rules.slot state + (targetSlot - b) := by
        grind
      rw [hSplit, repeated_add, ← repeated_advanceSlot_upgrade hNext hDue hPost, bind_assoc]
      apply bind_congr_of_ok
      intro s hAt
      have hThere := repeated_advanceSlot_ok hAt
      rw [hThere.2, hNext]
      apply bind_congr_of_ok
      intro upgraded hUpgraded
      have hSets := rules.upgradeTo_sets hUpgraded
      have hUpgradedSlot : rules.slot upgraded = b := by
        rw [hSets.1, hThere.1]
        grind
      rw [ih, hUpgradedSlot]
      · have hFewer := nextFork_eq_some hNext
        rw [hSets.2]
        omega
      · rw [hUpgradedSlot]
        exact hPre

variable (rules E epochs) in
theorem processSlotsFork_eq (hSlot : rules.slot state ≤ targetSlot) :
    processSlotsFork rules E epochs state targetSlot =
      repeated (stepSlot rules E epochs) (targetSlot - rules.slot state) state := by
  exact forkLoop_eq (length_laterForks_lt _) hSlot

theorem slot_stepSlot (hOk : stepSlot rules E epochs state = .ok after) :
    rules.slot after = rules.slot state + 1 := by
  rcases bind_ok_iff.mp hOk with ⟨a, hFst, hxs⟩
  rw [← (advanceSlot_ok hFst).1]
  unfold upgradeIfDue at hxs
  split at hxs
  · cases hxs
    rfl
  · split at hxs
    · exact (rules.upgradeTo_sets hxs).1
    · cases hxs
      rfl

theorem slot_repeated_stepSlot
    (hOk : repeated (stepSlot rules E epochs) n state = .ok after) :
    rules.slot after = rules.slot state + n := by
  have hPost := repeated_invariant (fun steps mid =>
      rules.slot mid = rules.slot state + steps)
    (fun hMiddle hStep => by
      rw [slot_stepSlot hStep, hMiddle, add_assoc])
    (add_zero _).symm hOk
  rwa [zero_add] at hPost

/- A stop on the way makes no difference. -/
theorem processSlotsFork_bind {mid tgt : Slot} (hStart : rules.slot state ≤ mid)
    (hMiddle : mid ≤ tgt) :
    (processSlotsFork rules E epochs state mid >>=
      fun halfway => processSlotsFork rules E epochs halfway tgt) =
      processSlotsFork rules E epochs state tgt := by
  have hSteps : tgt - rules.slot state = mid - rules.slot state + (tgt - mid) := by
    grind
  rw [processSlotsFork_eq rules E epochs hStart, processSlotsFork_eq rules E epochs
    (hStart.trans hMiddle), hSteps, repeated_add]
  apply bind_congr_of_ok
  intro halfway hHalfway
  have hSlot : rules.slot halfway = mid := by
    rw [slot_repeated_stepSlot hHalfway]
    grind
  rw [processSlotsFork_eq rules E epochs (hSlot.trans_le hMiddle), hSlot]

end

end Pharos.Stf.ForkedSlots
