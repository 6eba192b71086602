import Pharos.Pools.OperationPools
import Pharos.Sample

/-
  This file implements the report of the validators that were active in an epoch, and says when it
  leaves nobody out.

  The votes of the pool are not resolved. The report has the index of a committee where its members
  should be.

  Main theorems:
  * `liveness_complete_iff`
-/

----
-- Report
----

namespace Pharos.Api

open List BeaconSpec ForkChoice Pools

/- The flags of the votes that a state has counted, which there are not before Altair. -/
class ParticipationSpec (S : Type) where
  currentEpochParticipation : S → List Nat
  previousEpochParticipation : S → List Nat

open ParticipationSpec

variable {S : Type} [BeaconSpec S] [ParticipationSpec S]

def flagged (participation : List Nat) : List ValidatorIndex :=
  participation.zipIdx.filterMap fun entry => if entry.1 ≠ 0 then some entry.2 else none

def liveInState (epoch : Epoch) (state : S) : List ValidatorIndex :=
  let stateEpoch := computeEpochAtSlot S (stateSlot state)
  (if stateEpoch = epoch then flagged (currentEpochParticipation state) else []) ++
    if stateEpoch = Word.satAdd epoch 1 then flagged (previousEpochParticipation state) else []

/- A committee stands for the members that have voted. -/
def liveInPool (epoch : Epoch) (pools : OperationPools) : List Nat :=
  let attPool := pools.attestations.values
  let hasAttForEpoch := attPool.any fun att => att.data.target.epoch = epoch
  if hasAttForEpoch then
    (attPool.filter fun att => att.data.target.epoch = epoch).map fun att => att.data.index
  else
    []

def liveIndices (store : Store S) (pools : Option OperationPools) (epoch : Epoch) :
    List ValidatorIndex :=
  pools.toList.flatMap (liveInPool epoch) ++
    store.blockStates.entries.flatMap fun entry => liveInState epoch entry.2

def validatorLiveness (store : Store S) (pools : Option OperationPools) (epoch : Epoch)
    (indices : List ValidatorIndex) : List (ValidatorIndex × Bool) :=
  indices.map fun index => (index, decide (index ∈ liveIndices store pools epoch))

----
-- Who Is Left Out
----

/- The bit is set for the place of a validator in the committee. -/
def IsAttester (committees : Slot → Nat → List ValidatorIndex) (attestation : Attestation)
    (index : ValidatorIndex) : Prop :=
  ∃ position : Nat, (committees attestation.data.slot attestation.data.index)[position]? =
    some index ∧ attestation.aggregationBits[position]? = some true

/- A state has a flag of a validator for its own epoch, or for the one before. -/
def HasFlag (epoch : Epoch) (state : S) (index : ValidatorIndex) : Prop :=
  let stateEpoch := computeEpochAtSlot S (stateSlot state)
  ∃ flags ≠ 0,
    stateEpoch = epoch ∧ (currentEpochParticipation state)[index]? = some flags ∨
      stateEpoch = epoch + 1 ∧ (previousEpochParticipation state)[index]? = some flags

variable {epoch : Epoch} {i : ValidatorIndex}

theorem mem_flagged_iff {participation : List Nat} :
    i ∈ flagged participation ↔ ∃ flags ≠ 0, participation[i]? = some flags := by
  simp [flagged, mem_zipIdx_iff_getElem?, and_comm]

theorem mem_liveIndices_iff {store : Store S} {pools : OperationPools} :
    i ∈ liveIndices store (some pools) epoch ↔
      (∃ att ∈ pools.attestations.values, att.data.target.epoch = epoch ∧ att.data.index = i) ∨
        ∃ entry ∈ store.blockStates.entries, i ∈ liveInState epoch entry.2 := by
  simp only [liveIndices, liveInPool, Option.toList_some, flatMap_singleton, mem_append,
    mem_flatMap]
  apply or_congr_left
  split
  · simp [and_assoc]
  · simp_all

theorem mem_liveInState_of_hasFlag {s : S} (hSlot : stateSlot s ≤ Word.maxValue)
    (hFlag : HasFlag epoch s i) : i ∈ liveInState epoch s := by
  rcases hFlag with ⟨flags, hSet, ⟨hEp, hFlags⟩ | ⟨hEp, hFlags⟩⟩
  · apply mem_append_left
    rw [if_pos hEp]
    exact mem_flagged_iff.mpr ⟨flags, hSet, hFlags⟩
  · have hNext : epoch + 1 ≤ Word.maxValue := by
      rw [← hEp]
      exact (Nat.div_le_self _ _).trans hSlot
    have hSum : Word.satAdd epoch 1 = epoch + 1 := min_eq_left hNext
    apply mem_append_right
    rw [hSum, if_pos hEp]
    exact mem_flagged_iff.mpr ⟨flags, hSet, hFlags⟩

/-
  The report leaves out no validator that voted or has a flag exactly if each one that voted is, as
  a number, also the committee of a vote, or has a flag that is read.
-/
theorem liveness_complete_iff (committees : Slot → Nat → List ValidatorIndex) (store : Store S)
    (pools : OperationPools) (epoch : Epoch) (indices : List ValidatorIndex)
    (hSlots : ∀ entry ∈ store.blockStates.entries, stateSlot entry.2 ≤ Word.maxValue) :
    (∀ index ∈ indices,
      (∃ att ∈ pools.attestations.values,
          att.data.target.epoch = epoch ∧ IsAttester committees att index) ∨
        (∃ entry ∈ store.blockStates.entries, HasFlag epoch entry.2 index) →
      (index, true) ∈ validatorLiveness store (some pools) epoch indices) ↔
    ∀ index ∈ indices, ∀ att ∈ pools.attestations.values,
      att.data.target.epoch = epoch → IsAttester committees att index →
      (∃ other ∈ pools.attestations.values,
          other.data.target.epoch = epoch ∧ other.data.index = index) ∨
        ∃ entry ∈ store.blockStates.entries, index ∈ liveInState epoch entry.2 := by
  have hLive : ∀ i ∈ indices, (i, true) ∈ validatorLiveness store (some pools) epoch indices ↔
      i ∈ liveIndices store (some pools) epoch := by
    intro i hMem
    simp [validatorLiveness, hMem]
  simp only [← mem_liveIndices_iff]
  constructor
  · intro hAll i hMem att hPooled hTgt hVoted
    exact (hLive i hMem).mp (hAll i hMem (.inl ⟨att, hPooled, hTgt, hVoted⟩))
  · rintro hAll i hMem (⟨att, hPooled, hTgt, hVoted⟩ | ⟨e, hRow, hFlag⟩)
    · exact (hLive i hMem).mpr (hAll i hMem att hPooled hTgt hVoted)
    · refine (hLive i hMem).mpr (mem_liveIndices_iff.mpr (.inr ⟨e, hRow, ?_⟩))
      exact mem_liveInState_of_hasFlag (hSlots e hRow) hFlag

----
-- A Vote in the First Committee
----

open Sample

/- No votes are counted. -/
instance : ParticipationSpec ChainState where
  currentEpochParticipation _ := []
  previousEpochParticipation _ := []

def firstCommitteeVote : Attestation :=
  ⟨[true], ⟨8, 0, anchorRoot, ⟨0, anchorRoot⟩, ⟨1, anchorRoot⟩⟩, 0⟩

def oneVotePool : OperationPools :=
  { OperationPools.new with attestations := LruCache.empty.put ⟨0, 0⟩ firstCommitteeVote }

theorem liveness_complete_iff_ownCommittee :
    (0, true) ∈ validatorLiveness (getForkchoiceStore anchorState anchorBlock)
      (some oneVotePool) 1 [0] := by
  refine (liveness_complete_iff (fun _ _ => [0]) _ oneVotePool 1 [0] ?_).mpr ?_ 0 (by decide)
    (.inl ⟨firstCommitteeVote, by decide, rfl, 0, rfl, rfl⟩)
  · decide
  · intro i hMem _ _ _ _
    rw [mem_singleton.mp hMem]
    exact .inl ⟨firstCommitteeVote, by decide, rfl, rfl⟩

/- The only member of the committee has voted. It is not reported, since its index is not zero. -/
theorem attester_left_out :
    firstCommitteeVote ∈ oneVotePool.attestations.values ∧
      firstCommitteeVote.data.target.epoch = 1 ∧
      IsAttester (fun _ _ => [5]) firstCommitteeVote 5 ∧
      validatorLiveness (getForkchoiceStore anchorState anchorBlock) (some oneVotePool) 1 [5] =
        [(5, false)] :=
  ⟨by decide, rfl, ⟨0, rfl, rfl⟩, by decide⟩

end Pharos.Api
