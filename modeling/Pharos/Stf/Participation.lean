import Pharos.Stf.Attestations
import Pharos.Stf.Electra.Withdrawals

/-
  This file implements participation flags: how attestations set them, and what validators get for
  them at the end of an epoch.

  Numbers are not bounded, and so no sum overflows.

  Main theorems:
  * `Participation.rewards_follow_spec_iff`
  * `Participation.flags_rewarded_once`
-/

----
-- Flags
----

namespace Pharos.Stf.Participation

open List

open Electra (withBalances withSet)
open Outcome PresetSpec StfSpec Sums

section

/- The weights of the source, target and head flags. -/
def participationFlagWeights : List Nat := [14, 26, 14]

def weightDenominator : Nat := 64

def proposerWeight : Nat := 8

def baseRewardFactor : Nat := 64

def minEpochsToInactivityPenalty : Nat := 4

def inactivityScoreBias : Nat := 4

def inactivityPenaltyQuotientAltair : Nat := 50331648

/- Since Bellatrix. -/
def inactivityPenaltyQuotientBellatrix : Nat := 16777216

def hasFlag (flags flagIndex : Nat) : Bool :=
  flags.testBit flagIndex

def addFlag (flags flagIndex : Nat) : Nat :=
  flags ||| 2 ^ flagIndex

variable (E : Type) [BeaconSpec E] (state : BeaconState)

def epochParticipation (epoch : Epoch) : List Nat :=
  if epoch = getCurrentEpoch E state then
    state.accounting.currentEpochParticipation
  else
    state.accounting.previousEpochParticipation

def getUnslashedParticipatingIndices (flagIndex : Nat) (epoch : Epoch) : List ValidatorIndex :=
  (state.validators.zipIdx.filter fun (validator, index) =>
    isActiveValidator validator epoch &&
      hasFlag ((epochParticipation E state epoch).getD index 0) flagIndex &&
      !validator.slashed).map Prod.snd

def getEligibleValidatorIndices : List ValidatorIndex :=
  (state.validators.zipIdx.filter fun (validator, _) =>
    isActiveValidator validator (getPreviousEpoch E state) ||
      validator.slashed && ((getPreviousEpoch E state + 1 : Epoch) : FarEpoch) <
        validator.withdrawableEpoch).map Prod.snd

def isInInactivityLeak : Bool :=
  minEpochsToInactivityPenalty < getPreviousEpoch E state - state.finalizedCheckpoint.epoch

def effectiveBalanceAt (index : ValidatorIndex) : Gwei :=
  (state.validators[index]?.map Validator.effectiveBalance).getD 0

def getTotalBalance (indices : List ValidatorIndex) : Gwei :=
  max (indices.map (effectiveBalanceAt state)).sum (BeaconSpec.effectiveBalanceIncrement E)

def getBaseRewardPerIncrement : Gwei :=
  BeaconSpec.effectiveBalanceIncrement E * baseRewardFactor / (getTotalActiveBalance E state).sqrt

def getBaseReward (index : ValidatorIndex) : Gwei :=
  effectiveBalanceAt state index / BeaconSpec.effectiveBalanceIncrement E *
    getBaseRewardPerIncrement E state

----
-- Rewards and Penalties
----

def flagIndexDelta (flagIndex : Nat) (index : ValidatorIndex) : Gwei × Gwei :=
  let unslashed := getUnslashedParticipatingIndices E state flagIndex (getPreviousEpoch E state)
  let increment := BeaconSpec.effectiveBalanceIncrement E
  let weighed := getBaseReward E state index * participationFlagWeights.getD flagIndex 0
  if index ∉ getEligibleValidatorIndices E state then
    (0, 0)
  else if index ∈ unslashed then
    if isInInactivityLeak E state then
      (0, 0)
    else
      (weighed * (getTotalBalance E state unslashed / increment) /
        (getTotalActiveBalance E state / increment * weightDenominator), 0)
  else if flagIndex ≠ 2 then
    (0, weighed / weightDenominator)
  else
    (0, 0)

variable (quotient : Nat)

section

variable (index : ValidatorIndex)

/- The forks differ in the quotient. -/
def inactivityPenaltyDelta : Gwei × Gwei :=
  if index ∈ getEligibleValidatorIndices E state ∧
      index ∉ getUnslashedParticipatingIndices E state 1 (getPreviousEpoch E state) then
    (0, effectiveBalanceAt state index * state.accounting.inactivityScores.getD index 0 /
      (inactivityScoreBias * quotient))
  else
    (0, 0)

/- The deltas of a validator: source, target, head, inactivity. -/
def deltasOf : List (Gwei × Gwei) :=
  (List.range participationFlagWeights.length).map (flagIndexDelta E state · index) ++
    [inactivityPenaltyDelta E state quotient index]

def totalReward : Gwei :=
  ((deltasOf E state quotient index).map Prod.fst).sum

def totalPenalty : Gwei :=
  ((deltasOf E state quotient index).map Prod.snd).sum

def changeBy (delta : Gwei) (change : Gwei → Gwei) (balances : List Gwei) (index : ValidatorIndex) :
    Except StateTransitionError (List Gwei) :=
  if 0 < delta then
    okOr (withSet balances index (change (balances.getD index 0))) (.indexOutOfRange index)
  else
    .ok balances

def settle (balances : List Gwei) (index : ValidatorIndex) :
    Except StateTransitionError (List Gwei) := do
  let reward := totalReward E state quotient index
  let penalty := totalPenalty E state quotient index
  let rewarded ← changeBy reward (· + reward) balances index
  changeBy penalty (· - penalty) rewarded index

def processRewardsWith : Except StateTransitionError BeaconState :=
  if getCurrentEpoch E state = 0 then
    .ok state
  else do
    let balances ← (List.range state.validators.length).foldlM (settle E state quotient)
      state.accounting.balances
    .ok (withBalances state balances)

/- Of Altair. -/
def processRewardsAndPenalties : Except StateTransitionError BeaconState :=
  processRewardsWith E state inactivityPenaltyQuotientAltair

def processRewardsAndPenaltiesBellatrix : Except StateTransitionError BeaconState :=
  processRewardsWith E state inactivityPenaltyQuotientBellatrix

def processRewardsAndPenaltiesCapella : Except StateTransitionError BeaconState :=
  processRewardsWith E state inactivityPenaltyQuotientBellatrix

/- Of Deneb, Electra and Fulu. -/
def processRewardsAndPenaltiesDeneb : Except StateTransitionError BeaconState :=
  processRewardsWith E state inactivityPenaltyQuotientBellatrix

/- One delta after the other. -/
def specBalances : List Gwei :=
  if getCurrentEpoch E state = 0 then
    state.accounting.balances
  else
    state.accounting.balances.mapIdx fun index balance =>
      applyEach balance (deltasOf E state quotient index)

/- A validator that gets nothing and loses nothing. -/
def Idle : Prop :=
  totalReward E state quotient index = 0 ∧ totalPenalty E state quotient index = 0

end

/-
  There is a balance for every delta. Wherever the deltas of a validator are split, its balance and
  the rewards before cover the penalties before, or the penalties after use up the rewards after.
-/
structure Covered : Prop where
  hasBalance : ∀ index, index < state.accounting.balances.length ∨ Idle E state quotient index
  splits : ∀ index balance, state.accounting.balances[index]? = some balance →
    ∀ front back, deltasOf E state quotient index = front ++ back →
      (front.map Prod.snd).sum ≤ balance + (front.map Prod.fst).sum ∨
        (back.map Prod.fst).sum ≤ (back.map Prod.snd).sum

variable {E state} {q : Nat}

theorem idle_of_le {i : ValidatorIndex} (hOut : state.validators.length ≤ i) :
    Idle E state q i := by
  have hNot : i ∉ getEligibleValidatorIndices E state := by
    intro hMem
    rcases mem_map.mp hMem with ⟨⟨val, j⟩, hPlace, rfl⟩
    have hLt := snd_lt_of_mem_zipIdx (mem_filter.mp hPlace).1
    omega
  simp [Idle, totalReward, totalPenalty, deltasOf, flagIndexDelta, inactivityPenaltyDelta, hNot]

theorem changeBy_ok_iff {bals s' : List Nat} {i delta : Nat} {f : Nat → Nat → Nat}
    (hNone : ∀ bal, f bal 0 = bal) :
    changeBy delta (f · delta) bals i = .ok s' ↔
      (i < bals.length ∨ delta = 0) ∧ bals.modify i (f · delta) = s' := by
  unfold changeBy
  by_cases hDelta : delta = 0
  · have hId : (f · 0) = id := funext hNone
    simp [hDelta, hId]
  · rw [if_pos (pos_of_ne_zero hDelta), okOr_ok_iff]
    by_cases hIdx : i < bals.length
    · rw [Electra.withSet_getD hIdx (f · delta)]
      simp [hIdx]
    · simp [withSet, hIdx, hDelta]

theorem settle_ok_iff {bals s' : List Gwei} {i : ValidatorIndex} :
    settle E state q bals i = .ok s' ↔ (i < bals.length ∨ Idle E state q i) ∧
      bals.modify i (applyAtOnce · (deltasOf E state q i)) = s' := by
  have hBoth : (bals.modify i (· + totalReward E state q i)).modify i (· -
      totalPenalty E state q i) = bals.modify i (applyAtOnce · (deltasOf E state q i))
      := modify_modify_eq _ _ _ _
  unfold settle Idle
  rw [bind_ok_iff, or_and_left, ← hBoth]
  simp only [changeBy_ok_iff Nat.add_zero, changeBy_ok_iff Nat.sub_zero]
  constructor
  · rintro ⟨_, ⟨hFst, rfl⟩, hSnd, hPost⟩
    exact ⟨⟨hFst, by simpa using hSnd⟩, hPost⟩
  · rintro ⟨⟨hFst, hSnd⟩, hPost⟩
    exact ⟨_, ⟨hFst, rfl⟩, by simpa using hSnd, hPost⟩

theorem foldlM_settle_ok_iff {n : Nat} {bals s' : List Gwei} :
    (List.range n).foldlM (settle E state q) bals = .ok s' ↔
      (∀ i < n, i < bals.length ∨ Idle E state q i) ∧
        bals.mapIdx (fun i bal =>
          if i < n then applyAtOnce bal (deltasOf E state q i) else bal) =
          s' := by
  induction n generalizing s' with
  | zero => simp [pure, Except.pure, mapIdx_eq_zipIdx_map]
  | succ n ih =>
    rw [range_succ, foldlM_append, bind_ok_iff]
    simp only [ih, foldlM_cons, foldlM_nil, bind_pure, settle_ok_iff]
    have hStep : (bals.mapIdx fun i bal =>
          if i < n then applyAtOnce bal (deltasOf E state q i) else bal).modify
            n (applyAtOnce · (deltasOf E state q n)) =
        bals.mapIdx fun i bal =>
          if i < n + 1 then applyAtOnce bal (deltasOf E state q i)
          else bal := by
      refine ext_getElem? fun i => ?_
      rw [getElem?_modify, getElem?_mapIdx, getElem?_mapIdx]
      cases bals[i]? with
      | none => rfl
      | some bal => grind
    rw [← hStep, Nat.forall_lt_succ_right]
    constructor
    · rintro ⟨_, ⟨hPre, rfl⟩, hLast, hPost⟩
      exact ⟨⟨hPre, by simpa using hLast⟩, hPost⟩
    · rintro ⟨⟨hPre, hLast⟩, hPost⟩
      exact ⟨_, ⟨hPre, rfl⟩, by simpa using hLast, hPost⟩

theorem mapIdx_applyAtOnce_eq_iff : state.accounting.balances.mapIdx (fun index balance =>
      applyAtOnce balance (deltasOf E state q index)) =
        state.accounting.balances.mapIdx (fun index balance =>
          applyEach balance (deltasOf E state q index)) ↔
      ∀ index balance, state.accounting.balances[index]? = some balance →
        ∀ front back, deltasOf E state q index = front ++ back →
          (front.map Prod.snd).sum ≤ balance + (front.map Prod.fst).sum ∨
            (back.map Prod.fst).sum ≤ (back.map Prod.snd).sum := by
  rw [List.ext_getElem?_iff]
  simp only [← applyAtOnce_eq_applyEach_iff, List.getElem?_mapIdx]
  refine forall_congr' fun index => ?_
  cases state.accounting.balances[index]? <;> simp

theorem processRewardsWith_iff :
    processRewardsWith E state q = .ok (withBalances state (specBalances E state q)) ↔
      getCurrentEpoch E state = 0 ∨ Covered E state q := by
  unfold processRewardsWith specBalances
  by_cases hGenesis : getCurrentEpoch E state = 0
  · simp only [hGenesis, if_true, true_or, iff_true]
    rfl
  · simp only [hGenesis, if_false, false_or]
    have hOut (index balance : Nat) : (if index < state.validators.length then
        applyAtOnce balance (deltasOf E state q index) else balance) =
          applyAtOnce balance (deltasOf E state q index) := by
      split
      · rfl
      · rename_i hNone
        have hIdle := idle_of_le (E := E) (q := q) (not_lt.mp hNone)
        exact (congrArg₂ (balance + · - ·) hIdle.1 hIdle.2).symm
    rw [bind_ok_iff]
    simp only [foldlM_settle_ok_iff, hOut]
    constructor
    · rintro ⟨bals, ⟨hEach, rfl⟩, hOk⟩
      refine ⟨fun index => ?_, mapIdx_applyAtOnce_eq_iff.mp ?_⟩
      · by_cases hIn : index < state.validators.length
        · exact hEach index hIn
        · exact .inr (idle_of_le (not_lt.mp hIn))
      · exact congrArg (fun s' : BeaconState => s'.accounting.balances) (Except.ok.inj hOk)
    · intro hCovered
      refine ⟨_, ⟨fun index _ => hCovered.hasBalance index, rfl⟩, ?_⟩
      rw [mapIdx_applyAtOnce_eq_iff.mpr hCovered.splits]

/-
  Rewards and penalties are added up before balances change. In every fork, the balances are those
  of the specification exactly if no decrease that is cut off at zero is followed by rewards that
  exceed the penalties after it.
-/
theorem rewards_follow_spec_iff (E : Type) [BeaconSpec E] (state : BeaconState) :
    let altair := inactivityPenaltyQuotientAltair
    let bellatrix := inactivityPenaltyQuotientBellatrix
    (processRewardsAndPenalties E state = .ok (withBalances state (specBalances E state altair)) ↔
      getCurrentEpoch E state = 0 ∨ Covered E state altair) ∧
    (processRewardsAndPenaltiesBellatrix E state =
        .ok (withBalances state (specBalances E state bellatrix)) ↔
      getCurrentEpoch E state = 0 ∨ Covered E state bellatrix) ∧
    (processRewardsAndPenaltiesCapella E state =
        .ok (withBalances state (specBalances E state bellatrix)) ↔
      getCurrentEpoch E state = 0 ∨ Covered E state bellatrix) ∧
    (processRewardsAndPenaltiesDeneb E state =
        .ok (withBalances state (specBalances E state bellatrix)) ↔
      getCurrentEpoch E state = 0 ∨ Covered E state bellatrix) :=
  ⟨processRewardsWith_iff, processRewardsWith_iff, processRewardsWith_iff, processRewardsWith_iff⟩

/- A validator with nothing left, late for the source in time for the target. -/
def emptyBalance : BeaconState :=
  { Electra.waitingState with
    validators := [⟨0, ⟨1, 0⟩, 100, false, 0, 0, ⊤, ⊤⟩]
    accounting := ⟨[0], [2], [0], [0], []⟩
    slot := 8 }

theorem reward_after_penalty_emptyBalance :
    ((processRewardsAndPenalties Sample.ChainState emptyBalance).toOption.map
        (fun after => after.accounting.balances) = some [112] ∧
      specBalances Sample.ChainState emptyBalance inactivityPenaltyQuotientAltair = [243]) ∧
    ((processRewardsAndPenaltiesDeneb Sample.ChainState emptyBalance).toOption.map
        (fun after => after.accounting.balances) = some [112] ∧
      specBalances Sample.ChainState emptyBalance inactivityPenaltyQuotientBellatrix = [243]) ∧
    ∀ quotient, deltasOf Sample.ChainState emptyBalance quotient 0 =
      [(0, 131), (243, 0), (0, 0), (0, 0)] := by
  refine ⟨by decide +kernel, by decide +kernel, fun quotient => ?_⟩
  have hTarget : 0 ∈ getUnslashedParticipatingIndices Sample.ChainState emptyBalance 1
      (getPreviousEpoch Sample.ChainState emptyBalance) := by
    decide +kernel
  have hFlags : (List.range participationFlagWeights.length).map
      (flagIndexDelta Sample.ChainState emptyBalance · 0) = [(0, 131), (243, 0), (0, 0)] := by
    decide +kernel
  rw [deltasOf, hFlags, inactivityPenaltyDelta, if_neg fun hBoth => hBoth.2 hTarget]
  rfl

end

----
-- Flags of Attestations
----

section

open Pharos.Validator (DomainSpec)

def addFlags (flagIndices : List Nat) (flags : Nat) : Nat × List Nat :=
  (List.range participationFlagWeights.length).foldl
    (fun (flags, added) flagIndex =>
      if flagIndex ∈ flagIndices ∧ ¬ hasFlag flags flagIndex then
        (addFlag flags flagIndex, added ++ [flagIndex])
      else
        (flags, added))
    (flags, [])

/- The flags that are set, each of which adds to the numerator. -/
abbrev Additions := List (ValidatorIndex × Nat)

def participate (flagIndices : List Nat) (reached : List Nat × Additions)
    (validatorIndex : ValidatorIndex) :
    Except StateTransitionError (List Nat × Additions) := do
  let flags := reached.1.getD validatorIndex 0
  let newFlags := addFlags flagIndices flags
  let participation ← (if newFlags.1 = flags then .ok reached.1
    else okOr (withSet reached.1 validatorIndex newFlags.1) .ssz)
  .ok (participation, reached.2 ++ newFlags.2.map (validatorIndex, ·))

def accumulateAttestationParticipation (attestingIndices : List ValidatorIndex)
    (flagIndices participation : List Nat) : Except StateTransitionError (List Nat × Additions) :=
  attestingIndices.foldlM (participate flagIndices) (participation, [])

/- The flags of an epoch that ends are those of the previous epoch. -/
def processParticipationFlagUpdates (state : BeaconState) : BeaconState :=
  { state with
    accounting :=
      { state.accounting with
        previousEpochParticipation := state.accounting.currentEpochParticipation
        currentEpochParticipation := List.replicate state.validators.length 0 } }

variable (E : Type) [BeaconSpec E] (state : BeaconState)

def proposerReward (additions : Additions) : Gwei :=
  (additions.map fun (index, flagIndex) =>
    getBaseReward E state index * participationFlagWeights.getD flagIndex 0).sum /
    ((weightDenominator - proposerWeight) * weightDenominator / proposerWeight)

def withParticipation (epoch : Epoch) (participation : List Nat) : BeaconState :=
  { state with
    accounting :=
      if epoch = getCurrentEpoch E state then
        { state.accounting with currentEpochParticipation := participation }
      else
        { state.accounting with previousEpochParticipation := participation } }

variable [PresetSpec E]

/- Since Deneb, the target may be late. -/
def getAttestationParticipationFlagIndices (data : AttestationData) :
    Except StateTransitionError (List Nat) := do
  let targetRoot ← okOr (getBlockRootAtSlot E state (computeStartSlotAtEpoch E data.target.epoch))
    .slotOutOfRange
  let headRoot ← okOr (getBlockRootAtSlot E state data.slot) .slotOutOfRange
  require (data.source = if data.target.epoch = getCurrentEpoch E state then
      state.currentJustifiedCheckpoint else state.previousJustifiedCheckpoint)
    (.invalidAttestation .invalidSourceCheckpoint)
  let inclusionDelay := state.slot - data.slot
  let isMatchingTarget := data.target.root = targetRoot
  .ok ((if inclusionDelay ≤ (BeaconSpec.slotsPerEpoch E).sqrt then [0] else []) ++
    (if isMatchingTarget then [1] else []) ++
    if isMatchingTarget ∧ data.beaconBlockRoot = headRoot ∧
        inclusionDelay = minAttestationInclusionDelay E then [2] else [])

variable [CommitteeSpec E] [StfSpec E] (attestation : ElectraAttestation)

def committeesOf : List (List ValidatorIndex) :=
  (getCommitteeIndices attestation.committeeBits).map
    (getBeaconCommittee E state attestation.data.slot)

variable [SigningSpec E] [DomainSpec E]

def processAttestation (verifySignatures : Bool) (proposerOverride : Option ValidatorIndex) :
    Except StateTransitionError (BeaconState × Additions × Gwei) := do
  let epoch := attestation.data.target.epoch
  checkAttestationElectra E state attestation
  let flagIndices ← getAttestationParticipationFlagIndices E state attestation.data
  let _ ← (if verifySignatures then (attestationSignatureSetElectra E state attestation).map some
    else .ok none)
  let (participation, additions) ← accumulateAttestationParticipation
    (attestersOfElectra E state attestation) flagIndices (epochParticipation E state epoch)
  let reward := proposerReward E state additions
  let synced := withParticipation E state epoch participation
  let after ← Electra.increaseBalance synced
    (proposerOverride.getD (getBeaconProposerIndexElectra E synced)) reward
  .ok (after, additions, reward)

end

----
-- Flags Are Only Added
----

section

def countedFlags (flagIndices : List Nat) : List Nat :=
  (List.range participationFlagWeights.length).filter (· ∈ flagIndices)

def flagSet (participation : List Nat) (index : ValidatorIndex) (flagIndex : Nat) : Bool :=
  hasFlag (participation.getD index 0) flagIndex

theorem hasFlag_addFlag {flags flag x : Nat} :
    hasFlag (addFlag flags flag) x = (hasFlag flags x || decide (flag = x)) := by
  simp [hasFlag, addFlag, Nat.testBit_or, Nat.testBit_two_pow]

theorem addFlags_spec (flagIndices : List Nat) (flags : Nat) :
    (∀ x, hasFlag (addFlags flagIndices flags).1 x =
        (hasFlag flags x || decide (x ∈ countedFlags flagIndices))) ∧
      (addFlags flagIndices flags).2 =
        (countedFlags flagIndices).filter fun x => !hasFlag flags x := by
  unfold addFlags countedFlags
  generalize participationFlagWeights.length = n
  induction n with
  | zero => simp
  | succ n ih =>
    rw [range_succ, foldl_append]
    generalize (List.range n).foldl _ (flags, []) = s at ih ⊢
    simp only [foldl_cons, foldl_nil, filter_append, mem_append]
    by_cases hNew : n ∈ flagIndices ∧ ¬ hasFlag s.1 n
    · rw [if_pos hNew]
      refine ⟨fun x => ?_, by simp_all⟩
      rw [hasFlag_addFlag, ih.1]
      grind
    · refine ⟨fun x => ?_, ?_⟩
      · grind
      · by_cases hIn : n ∈ flagIndices
        · simp_all
        · simp [hIn, ih.2]

variable {flags : List Nat} {i : ValidatorIndex} {attesters : List ValidatorIndex}
variable {s final : List Nat × Additions}

theorem participate_ok (hOk : participate flags s i = .ok final) :
    (∀ x flag, flagSet final.1 x flag = (flagSet s.1 x flag ||
        decide (x = i ∧ flag ∈ countedFlags flags))) ∧
      final.2 = s.2 ++ ((countedFlags flags).filter fun flag =>
        !flagSet s.1 i flag).map (i, ·) := by
  rcases addFlags_spec flags (s.1.getD i 0) with ⟨hFlags, hAdd⟩
  rcases bind_ok_iff.mp hOk with ⟨part, hWritten, hFinal⟩
  rw [← Except.ok.inj hFinal, hAdd]
  refine ⟨fun x flag => ?_, rfl⟩
  have hWrote : part.getD x 0 = if x = i then
      (addFlags flags (s.1.getD i 0)).1 else s.1.getD x 0 := by
    split at hWritten
    · rename_i hEq
      grind
    · rcases Option.ite_none_right_eq_some.mp (okOr_ok_iff.mp hWritten) with ⟨hIdx, hSet⟩
      grind
  unfold flagSet
  grind

theorem foldlM_participate_ok (hOk : attesters.foldlM (participate flags) s = .ok final)
    (hNodup : s.2.Nodup)
    (hSet : ∀ addition ∈ s.2, flagSet s.1 addition.1 addition.2) :
    (∀ x flag, flagSet final.1 x flag = (flagSet s.1 x flag ||
        decide (x ∈ attesters ∧ flag ∈ countedFlags flags))) ∧
      final.2.Nodup ∧ ∀ addition ∈ final.2, addition ∈ s.2 ∨
        ¬ flagSet s.1 addition.1 addition.2 ∧ flagSet final.1 addition.1 addition.2 := by
  induction attesters generalizing s with
  | nil =>
    cases hOk
    exact ⟨by simp, hNodup, fun _ hIn => .inl hIn⟩
  | cons a xs ih =>
    rcases bind_ok_iff.mp hOk with ⟨next, hFst, hxs⟩
    rcases participate_ok hFst with ⟨hFlags, hAdd⟩
    have hCounted : (countedFlags flags).Nodup := nodup_range.filter _
    have hNext : next.2.Nodup := by
      rw [hAdd]
      refine nodup_append.mpr ⟨hNodup, (hCounted.filter _).map ?_, ?_⟩
      · exact fun _ _ hEq => (Prod.mk.inj hEq).2
      · grind
    rcases ih hxs hNext (by rw [hAdd]; grind) with ⟨hLater, hFinal, hNew⟩
    refine ⟨fun x flag => ?_, hFinal, fun addition hIn => ?_⟩
    · grind
    · grind

theorem foldlM_participate_of_set (hSet : ∀ i ∈ attesters,
    ∀ flag ∈ countedFlags flags, flagSet s.1 i flag) :
    attesters.foldlM (participate flags) s = .ok s := by
  induction attesters with
  | nil => rfl
  | cons a xs ih =>
    rw [forall_mem_cons] at hSet
    rcases addFlags_spec flags (s.1.getD a 0) with ⟨hFlags, hAdd⟩
    have hFlag : ∀ flag ∈ countedFlags flags, hasFlag (s.1.getD a 0) flag := hSet.1
    have hEq : (addFlags flags (s.1.getD a 0)).1 = s.1.getD a 0 :=
      Nat.eq_of_testBit_eq fun flag => (hFlags flag).trans
      (Bool.or_eq_left_iff_imp.mpr fun hIn => hFlag flag (of_decide_eq_true hIn))
    have hNone : (addFlags flags (s.1.getD a 0)).2 = [] := by
      rw [hAdd, filter_eq_nil_iff]
      intro flag hIn
      rw [hFlag flag hIn]
      decide
    have hFst : participate flags s a = .ok s := by
      unfold participate
      dsimp only
      rw [hEq, hNone, if_pos rfl]
      simp [bind, Except.bind]
    rw [foldlM_cons, hFst]
    exact ih hSet.2

end

----
-- Bits and Attesters
----

section

/- The place of a member among all members. -/
def bitOf (committees : List (List ValidatorIndex)) (committee position : Nat) : Nat :=
  ((committees.take committee).map List.length).sum + position

/- A bit below the number of members belongs to one of them. -/
theorem existsUnique_bitOf {committees : List (List ValidatorIndex)} {bit : Nat}
    (hBit : bit < (committees.map List.length).sum) :
    ∃! i : Nat × Nat, (∃ committee, committees[i.1]? = some committee ∧
      i.2 < committee.length) ∧ bitOf committees i.1 i.2 = bit := by
  induction committees generalizing bit with
  | nil => simp at hBit
  | cons a xs ih =>
    by_cases hFst : bit < a.length
    · refine ⟨(0, bit), by simp [bitOf, hFst], ?_⟩
      rintro ⟨committee, pos⟩ ⟨_, hPlace⟩
      cases committee with
      | zero => simpa [bitOf] using hPlace
      | succ committee =>
        simp only [bitOf, take_succ_cons, map_cons, sum_cons] at hPlace
        omega
    · rw [map_cons, sum_cons] at hBit
      have hxs : bit - a.length < (xs.map List.length).sum := by omega
      rcases ih hxs with ⟨⟨committee, pos⟩, ⟨hGot, hPlace⟩, hUnique⟩
      refine ⟨(committee + 1, pos), ⟨by simpa using hGot, ?_⟩, ?_⟩
      · simp only [bitOf, take_succ_cons, map_cons, sum_cons] at hPlace ⊢
        omega
      · rintro ⟨x, otherPosition⟩ ⟨⟨members, hMembers, hLt⟩, hx⟩
        cases x with
        | zero =>
          rw [getElem?_cons_zero, Option.some.injEq] at hMembers
          simp only [bitOf, take_zero, map_nil, sum_nil] at hx
          rw [← hMembers] at hLt
          omega
        | succ x =>
          simp only [bitOf, take_succ_cons, map_cons, sum_cons] at hx
          have hEq := hUnique (x, otherPosition)
            ⟨⟨members, by simpa using hMembers, hLt⟩, by simp only [bitOf]; omega⟩
          rw [Prod.mk.injEq] at hEq
          rw [hEq.1, hEq.2]

theorem foldl_push_new {Member Value : Type} [DecidableEq Value] (v : Member → Value)
    (holds : Member → Prop) [DecidablePred holds] (members : List Member) {output : List Value}
    (hNodup : output.Nodup) :
    let pushed := members.foldl (fun output member =>
      if holds member ∧ v member ∉ output then output ++ [v member] else output) output
    pushed.Nodup ∧ ∀ y, y ∈ pushed ↔
      y ∈ output ∨ ∃ member ∈ members, holds member ∧ v member = y := by
  induction members generalizing output with
  | nil => simp [hNodup]
  | cons a xs ih =>
    rw [foldl_cons]
    split
    · have hNext : (output ++ [v a]).Nodup :=
        nodup_append.mpr ⟨hNodup, nodup_singleton _, by grind⟩
      refine ⟨(ih hNext).1, fun y => ?_⟩
      grind
    · refine ⟨(ih hNodup).1, fun y => ?_⟩
      grind

def AttestsAt (committees : List (List ValidatorIndex)) (bits : List Bool)
    (index : ValidatorIndex) (place : Nat × Nat) : Prop :=
  (∃ members, committees[place.1]? = some members ∧ members[place.2]? = some index) ∧
    bits.getD (bitOf committees place.1 place.2) false = true

theorem exists_attestsAt_cons {a : List ValidatorIndex} {xs : List (List ValidatorIndex)}
    {bits : List Bool} {i : ValidatorIndex} :
    (∃ j, AttestsAt (a :: xs) bits i j) ↔
      (∃ pos, a[pos]? = some i ∧ bits.getD pos false = true) ∨
        ∃ j, AttestsAt xs (bits.drop a.length) i j := by
  constructor
  · rintro ⟨⟨_ | committee, pos⟩, ⟨members, hMembers, hMem⟩, hBit⟩
    · rw [getElem?_cons_zero, Option.some.injEq] at hMembers
      exact .inl ⟨pos, hMembers ▸ hMem, by simpa [bitOf] using hBit⟩
    · refine .inr ⟨(committee, pos), ⟨members, by simpa using hMembers, hMem⟩, ?_⟩
      simpa [bitOf, add_assoc] using hBit
  · rintro (⟨pos, hMem, hBit⟩ | ⟨⟨committee, pos⟩, ⟨members, hMembers, hMem⟩, hBit⟩)
    · exact ⟨(0, pos), ⟨a, rfl, hMem⟩, by simpa [bitOf] using hBit⟩
    · refine ⟨(committee + 1, pos), ⟨members, by simpa using hMembers, hMem⟩, ?_⟩
      simpa [bitOf, add_assoc] using hBit

variable {E : Type} [BeaconSpec E] [CommitteeSpec E] [PresetSpec E] [StfSpec E]
variable {s : BeaconState} {att : ElectraAttestation}

theorem foldlM_checkCommittee_ok {indices : List CommitteeIndex} {off bits : Nat}
    (hOk : indices.foldlM (checkCommittee E s att) off = .ok bits) :
    bits = off + ((indices.map (getBeaconCommittee E s att.data.slot)).map List.length).sum := by
  induction indices generalizing off with
  | nil => exact (Except.ok.inj hOk).symm
  | cons a xs ih =>
    rcases bind_ok_iff.mp hOk with ⟨next, hFst, hxs⟩
    rcases bind_ok_iff.mp hFst with ⟨_, _, hFst⟩
    rcases bind_ok_iff.mp hFst with ⟨_, _, hFst⟩
    rw [ih hxs, ← Except.ok.inj hFst]
    simp [add_assoc]

theorem foldl_attesters_spec {indices : List CommitteeIndex} {off : Nat}
    {output : List ValidatorIndex} (hNodup : output.Nodup) :
    let attesters := (indices.foldl (fun (off, output) committeeIndex =>
      let committee := getBeaconCommittee E s att.data.slot committeeIndex
      (off + committee.length,
        pushAttesters att.aggregationBits off output committee)) (off, output)).2
    attesters.Nodup ∧ ∀ i, i ∈ attesters ↔ i ∈ output ∨
      ∃ j, AttestsAt (indices.map (getBeaconCommittee E s att.data.slot))
        (att.aggregationBits.drop off) i j := by
  induction indices generalizing off output with
  | nil => simp [hNodup, AttestsAt]
  | cons a xs ih =>
    rcases foldl_push_new Prod.fst
      (fun member => att.aggregationBits.getD (off + member.2) false = true)
      (getBeaconCommittee E s att.data.slot a).zipIdx hNodup with ⟨hNext, hPushed⟩
    refine ⟨(ih hNext).1, fun i => ((ih hNext).2 i).trans ?_⟩
    rw [hPushed, map_cons, exists_attestsAt_cons, drop_drop, or_assoc]
    simp [mem_zipIdx_iff_getElem?, and_comm]

theorem attestersOfElectra_spec : (attestersOfElectra E s att).Nodup ∧
      ∀ i, i ∈ attestersOfElectra E s att ↔
        ∃ j, AttestsAt (committeesOf E s att) att.aggregationBits i j := by
  refine ⟨(foldl_attesters_spec nodup_nil).1, fun i =>
    ((foldl_attesters_spec nodup_nil).2 i).trans ?_⟩
  simp [committeesOf]

theorem target_recent (hCheck : checkAttestationElectra E s att = .ok ()) :
    att.data.target.epoch ≤ getCurrentEpoch E s ∧
      getCurrentEpoch E s ≤ att.data.target.epoch + 1 := by
  rcases bind_ok_iff.mp hCheck with ⟨_, hData, _⟩
  rcases bind_ok_iff.mp hData with ⟨_, hTgt, _⟩
  rcases (ite_ok_ok_iff.mp hTgt).1 with hCur | hPrev
  · rw [hCur]
    exact ⟨Nat.le_refl _, Nat.le_succ _⟩
  · rw [hPrev]
    exact ⟨Nat.sub_le _ _, Nat.sub_le_iff_le_add.mp (Nat.le_refl _)⟩

end

----
-- Accepted Attestations
----

section

variable {E : Type} [BeaconSpec E] {state after later : BeaconState}

variable (E) in
/- What attestations leave as it is. -/
structure Keeps (state after : BeaconState) : Prop where
  rest : ∃ accounting, after = { state with accounting := accounting }
  balances : after.accounting.balances.length = state.accounting.balances.length
  flags : ∀ epoch index flagIndex, flagSet (epochParticipation E state epoch) index flagIndex →
    flagSet (epochParticipation E after epoch) index flagIndex

theorem Keeps.trans (hFst : Keeps E state after) (hSnd : Keeps E after later) :
    Keeps E state later := by
  rcases hFst.rest with ⟨_, rfl⟩
  rcases hSnd.rest with ⟨_, rfl⟩
  exact ⟨⟨_, rfl⟩, hSnd.balances.trans hFst.balances,
    fun _ _ _ hHas => hSnd.flags _ _ _ (hFst.flags _ _ _ hHas)⟩

theorem increaseBalance_ok_iff {i : ValidatorIndex} {delta : Gwei} :
    Electra.increaseBalance state i delta = .ok after ↔
      i < state.accounting.balances.length ∧ withBalances state
        (state.accounting.balances.set i (Word.satAdd (Electra.balanceAt state i) delta)) =
          after := by
  simp [Electra.increaseBalance, Electra.setBalance, okOr_bind_ok_iff, withSet]

section

variable {epoch x : Epoch} {part : List Nat} {bals : List Gwei}

theorem epochParticipation_withParticipation :
    epochParticipation E (withBalances (withParticipation E state epoch part) bals)
      x = if x = getCurrentEpoch E state ↔ epoch = getCurrentEpoch E state then
        part else epochParticipation E state x := by
  have hCur : getCurrentEpoch E (withBalances (withParticipation E state epoch part)
    bals) = getCurrentEpoch E state := rfl
  unfold epochParticipation
  rw [hCur]
  by_cases hEp : epoch = getCurrentEpoch E state
  all_goals by_cases hx : x = getCurrentEpoch E state
  all_goals simp [withBalances, withParticipation, hEp, hx]

theorem epochParticipation_congr
    (hEq : x = getCurrentEpoch E state ↔ epoch = getCurrentEpoch E state) :
    epochParticipation E state x = epochParticipation E state epoch := by
  simp only [epochParticipation, hEq]

theorem balances_withParticipation :
    (withParticipation E state epoch part).accounting.balances = state.accounting.balances := by
  unfold withParticipation
  split
  · rfl
  · rfl

end

open Pharos.Validator (DomainSpec)

variable [PresetSpec E] [CommitteeSpec E] [StfSpec E] [SigningSpec E] [DomainSpec E]
variable {attestation : ElectraAttestation} {verifySignatures : Bool}
variable {proposerOverride : Option ValidatorIndex} {additions : Additions} {reward : Gwei}

theorem processAttestation_ok_iff :
    processAttestation E state attestation verifySignatures proposerOverride =
        .ok (after, additions, reward) ↔
      checkAttestationElectra E state attestation = .ok () ∧
      (∃ set, (if verifySignatures then (attestationSignatureSetElectra E state attestation).map some
        else .ok none) = .ok set) ∧
      reward = proposerReward E state additions ∧ ∃ flags part,
        getAttestationParticipationFlagIndices E state attestation.data = .ok flags ∧
        accumulateAttestationParticipation (attestersOfElectra E state attestation) flags
          (epochParticipation E state attestation.data.target.epoch) = .ok (part, additions) ∧
        Electra.increaseBalance (withParticipation E state attestation.data.target.epoch part)
          (proposerOverride.getD (getBeaconProposerIndexElectra E state)) reward = .ok after := by
  simp only [processAttestation, bind_ok_iff]
  constructor
  · rintro ⟨_, hCheck, flags, hFlags, set, hSet, ⟨part, y⟩, hGot, rewarded, hRewarded, hOk⟩
    cases hOk
    exact ⟨hCheck, ⟨set, hSet⟩, rfl, flags, part, hFlags, hGot, hRewarded⟩
  · rintro ⟨hCheck, ⟨set, hSet⟩, rfl, flags, part, hFlags, hGot, hRewarded⟩
    exact ⟨(), hCheck, flags, hFlags, set, hSet, (part, additions), hGot, after, hRewarded, rfl⟩

section

variable (hOk : processAttestation E state attestation verifySignatures proposerOverride =
  .ok (after, additions, reward))
include hOk

theorem processAttestation_ok :
    let s := epochParticipation E state attestation.data.target.epoch
    let part := epochParticipation E after attestation.data.target.epoch
    Keeps E state after ∧ additions.Nodup ∧
      (∀ addition ∈ additions, ¬ flagSet s addition.1 addition.2 ∧
        flagSet part addition.1 addition.2) ∧
      ∀ flags,
        getAttestationParticipationFlagIndices E state attestation.data = .ok flags →
          ∀ i ∈ attestersOfElectra E state attestation,
            ∀ flag ∈ countedFlags flags, flagSet part i flag := by
  rcases processAttestation_ok_iff.mp hOk with ⟨_, _, _, flags, part, hFlags, hGot, hRewarded⟩
  rcases increaseBalance_ok_iff.mp hRewarded with ⟨_, rfl⟩
  rcases foldlM_participate_ok hGot nodup_nil (by simp) with ⟨hSet, hNodup, hAdd⟩
  rw [epochParticipation_withParticipation, if_pos Iff.rfl]
  refine ⟨⟨⟨_, rfl⟩, ?_, ?_⟩, hNodup, by simpa using hAdd, ?_⟩
  · exact length_set.trans (congrArg List.length balances_withParticipation)
  · intro epoch i flag hHas
    rw [epochParticipation_withParticipation]
    split
    · rename_i hEq
      rw [epochParticipation_congr hEq] at hHas
      simp [hSet, hHas]
    · exact hHas
  · intro ys hOthers i hIn flag hFlag
    rw [← Except.ok.inj (hFlags.symm.trans hOthers)] at hFlag
    simp [hSet, hIn, hFlag]

theorem processAttestation_again (hLater : Keeps E after later) :
    ∃ again, processAttestation E later attestation verifySignatures proposerOverride =
        .ok (again, [], 0) ∧
      ∀ epoch, epochParticipation E again epoch = epochParticipation E later epoch := by
  rcases processAttestation_ok hOk with ⟨hKeeps, _, _, hSet⟩
  rcases processAttestation_ok_iff.mp hOk with ⟨hCheck, hSigned, _, flags, _, hFlags, _, hRewarded⟩
  rcases increaseBalance_ok_iff.mp hRewarded with ⟨hProposer, _⟩
  have hAgain : accumulateAttestationParticipation (attestersOfElectra E state attestation)
      flags (epochParticipation E later attestation.data.target.epoch) = .ok (_, []) :=
    foldlM_participate_of_set fun i hIn flag hFlag =>
      hLater.flags _ _ _ (hSet flags hFlags i hIn flag hFlag)
  have hAll := hKeeps.trans hLater
  rcases hAll.rest with ⟨accounting, rfl⟩
  rw [balances_withParticipation, ← hAll.balances] at hProposer
  refine ⟨_, processAttestation_ok_iff.mpr ⟨hCheck, hSigned, by simp [proposerReward],
    flags, _, hFlags, hAgain, increaseBalance_ok_iff.mpr ⟨?_, rfl⟩⟩, fun epoch => ?_⟩
  · rw [balances_withParticipation]
    exact hProposer
  · rw [epochParticipation_withParticipation]
    split
    · rename_i hEq
      exact (epochParticipation_congr hEq).symm
    · rfl

end

----
-- Sequences of Attestations
----

abbrev Reward := ValidatorIndex × Epoch × Nat

variable (E) in
/-
  The flags that have been rewarded since a state in which none has. Otherwise, a block writes no
  flag, and an epoch ends with `process_participation_flag_updates`.
-/
inductive Rewarded : BeaconState → List Reward → Prop where
  | start (state : BeaconState) : Rewarded state []
  | attest {state after : BeaconState} {rewards : List Reward} {attestation : ElectraAttestation}
      {verifySignatures : Bool} {proposerOverride : Option ValidatorIndex} {additions : Additions}
      {reward : Gwei} : Rewarded state rewards →
      processAttestation E state attestation verifySignatures proposerOverride =
        .ok (after, additions, reward) →
      Rewarded after (rewards ++ additions.map fun addition =>
        (addition.1, attestation.data.target.epoch, addition.2))
  | rest {state after : BeaconState} {rewards : List Reward} : Rewarded state rewards →
      getCurrentEpoch E after = getCurrentEpoch E state →
      (∀ epoch index, (epochParticipation E after epoch).getD index 0 =
        (epochParticipation E state epoch).getD index 0) → Rewarded after rewards
  | nextEpoch {state after : BeaconState} {rewards : List Reward} : Rewarded state rewards →
      getCurrentEpoch E after = getCurrentEpoch E state + 1 →
      after.accounting.previousEpochParticipation =
        (processParticipationFlagUpdates state).accounting.previousEpochParticipation →
      Rewarded after rewards

theorem Rewarded.invariant {rewards : List Reward} (hRewarded : Rewarded E state rewards) :
    rewards.Nodup ∧ ∀ i epoch flag, (i, epoch, flag) ∈ rewards →
      epoch ≤ getCurrentEpoch E state ∧ (getCurrentEpoch E state ≤ epoch + 1 →
        flagSet (epochParticipation E state epoch) i flag) := by
  induction hRewarded with
  | start state => simp
  | rest hPre hSame hFlags ih =>
    unfold flagSet
    simp only [hSame, hFlags]
    exact ih
  | nextEpoch hPre hNext hFlags ih =>
    refine ⟨ih.1, fun i epoch flag hIn => ?_⟩
    rcases ih.2 i epoch flag hIn with ⟨hEp, hFlag⟩
    rw [hNext]
    refine ⟨Nat.le_succ_of_le hEp, fun hRecent => ?_⟩
    rw [Nat.le_antisymm hEp (Nat.le_of_succ_le_succ hRecent)] at hFlag ⊢
    rw [epochParticipation, hNext, if_neg (Nat.succ_ne_self _).symm, hFlags]
    rw [epochParticipation, if_pos rfl] at hFlag
    exact hFlag (Nat.le_succ _)
  | attest hPre hOk ih =>
    rcases processAttestation_ok hOk with ⟨hKeeps, hNodup, hAdd, _⟩
    have hTgt := target_recent (processAttestation_ok_iff.mp hOk).1
    rcases hKeeps.rest with ⟨_, rfl⟩
    refine ⟨nodup_append.mpr ⟨ih.1, hNodup.map fun _ _ hEq => ?_, ?_⟩, ?_⟩
    · exact Prod.ext (Prod.mk.inj hEq).1 (Prod.mk.inj (Prod.mk.inj hEq).2).2
    · rintro rewarded hOld _ hNew rfl
      rcases mem_map.mp hNew with ⟨addition, hIn, rfl⟩
      exact (hAdd addition hIn).1 ((ih.2 _ _ _ hOld).2 hTgt.2)
    · intro i epoch flag hIn
      rcases mem_append.mp hIn with hOld | hNew
      · exact ⟨(ih.2 _ _ _ hOld).1, fun hRecent =>
          hKeeps.flags _ _ _ ((ih.2 _ _ _ hOld).2 hRecent)⟩
      · rcases mem_map.mp hNew with ⟨addition, hAddition, hEq⟩
        cases hEq
        exact ⟨hTgt.1, fun _ => (hAdd addition hAddition).2⟩

variable (E) in
/-
  Every bit of an accepted attestation belongs to one place in the committees, and the attesters are
  the validators whose bits are set, each of them once. No flag is taken away. An attestation that
  comes again, after any others, sets no flag and earns nothing, and no flag is ever rewarded twice.
-/
theorem flags_rewarded_once :
    (∀ state attestation verifySignatures proposerOverride after additions reward,
      processAttestation E state attestation verifySignatures proposerOverride =
          .ok (after, additions, reward) →
        (∀ bit < attestation.aggregationBits.length, ∃! place : Nat × Nat,
          (∃ members, (committeesOf E state attestation)[place.1]? = some members ∧
            place.2 < members.length) ∧
          bitOf (committeesOf E state attestation) place.1 place.2 = bit) ∧
        (∀ index, index ∈ attestersOfElectra E state attestation ↔ ∃ place,
          AttestsAt (committeesOf E state attestation) attestation.aggregationBits index place) ∧
        (attestersOfElectra E state attestation).Nodup ∧
        (∀ epoch index flagIndex, flagSet (epochParticipation E state epoch) index flagIndex →
          flagSet (epochParticipation E after epoch) index flagIndex) ∧
        ∀ (others : List ElectraAttestation) later,
          others.foldlM (fun reached other => (processAttestation E reached other verifySignatures
            proposerOverride).map Prod.fst) after = .ok later →
          ∃ again, processAttestation E later attestation verifySignatures proposerOverride =
              .ok (again, [], 0) ∧
            ∀ epoch, epochParticipation E again epoch = epochParticipation E later epoch) ∧
      ∀ state rewards, Rewarded E state rewards → rewards.Nodup := by
  refine ⟨?_, fun _ _ hRewarded => hRewarded.invariant.1⟩
  intro state attestation verifySignatures proposerOverride after additions reward hOk
  have hCheck := (processAttestation_ok_iff.mp hOk).1
  refine ⟨fun bit hBit => existsUnique_bitOf ?_, attestersOfElectra_spec.2,
    attestersOfElectra_spec.1, (processAttestation_ok hOk).1.flags, fun others later hLater =>
      processAttestation_again hOk ?_⟩
  · rcases bind_ok_iff.mp hCheck with ⟨_, _, hCheck⟩
    rcases bind_ok_iff.mp hCheck with ⟨_, _, hCheck⟩
    rcases bind_ok_iff.mp hCheck with ⟨bits, hBits, hCheck⟩
    rcases bind_ok_iff.mp hCheck with ⟨_, hLen, _⟩
    rw [(ite_ok_ok_iff.mp hLen).1, foldlM_checkCommittee_ok hBits, zero_add] at hBit
    exact hBit
  · refine invariant_foldlM (Keeps E after) (fun hKeeps hStep => ?_)
      ⟨⟨_, rfl⟩, rfl, fun _ _ _ hHas => hHas⟩ hLater
    rcases map_ok_iff.mp hStep with ⟨⟨_, _, _⟩, hNext, rfl⟩
    exact hKeeps.trans (processAttestation_ok hNext).1

/- The validator has its target flag already. It votes for the last slot. -/
def votedState : BeaconState :=
  { emptyBalance with blockRoots := List.replicate 64 0 }

def lastSlotVote : ElectraAttestation :=
  ⟨[true], ⟨7, 0, 0, ⟨0, 0⟩, ⟨1, 0⟩⟩, 0, [true]⟩

theorem flags_rewarded_once_lastSlotVote : ∃ after again,
    processAttestation Sample.ChainState votedState lastSlotVote false (some 0) =
        .ok (after, [(0, 0), (0, 2)], 37) ∧
      processAttestation Sample.ChainState after lastSlotVote false (some 0) =
        .ok (again, [], 0) := by
  have hReturns : (processAttestation Sample.ChainState votedState lastSlotVote false
      (some 0)).toOption.map Prod.snd = some ([(0, 0), (0, 2)], 37) := by
    decide +kernel
  cases hOk : processAttestation Sample.ChainState votedState lastSlotVote false (some 0) with
  | error refusal =>
    rw [hOk] at hReturns
    cases hReturns
  | ok result =>
    rw [hOk] at hReturns
    rcases result with ⟨after, additions, reward⟩
    cases hReturns
    rcases ((flags_rewarded_once Sample.ChainState).1 _ _ _ _ _ _ _ hOk).2.2.2.2 [] after rfl with
      ⟨again, hAgain, -⟩
    exact ⟨after, again, rfl, hAgain⟩

end

end Pharos.Stf.Participation
