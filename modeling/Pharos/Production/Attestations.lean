import Pharos.Pools.OperationPools
import Pharos.Sample

/-
  This file follows the attestations that validators submit to the node, through the pool, into the
  blocks of Electra.

  A submitted vote does not say where its validator stands in the committee. It is pooled with one
  bit, for the committee that its data names, so it is right only if the validator is that whole
  committee.

  Main theorems:
  * `submitted_votes_name_signers_iff`
-/

----
-- Submission and Production
----

namespace Pharos.Production

open List

section

open CommitteeSpec Pools

def pooledForm (att : SingleAttestation) : Attestation where
  aggregationBits := [true]
  data := att.data
  signature := att.signature

def submitSingleAttestations (S : Type) [SigningSpec S] (pools : OperationPools)
    (attestations : List SingleAttestation) : OperationPools :=
  attestations.foldl (fun pools att => pools.insertAttestation S (pooledForm att)) pools

def singleBit (length position : Nat) : List Bool :=
  (List.range length).map (· == position)

def onChainAggregate (S : Type) [CommitteeSpec S] (att : Attestation) :
    Option ElectraAttestation :=
  if maxCommitteesPerSlot S ≤ att.data.index then
    none
  else
    some
      { aggregationBits := att.aggregationBits
        data := { att.data with index := 0 }
        signature := att.signature
        committeeBits := singleBit (maxCommitteesPerSlot S) att.data.index }

def buildElectraOnChainAggregates (S : Type) [CommitteeSpec S] (pooled : List Attestation) :
    List ElectraAttestation :=
  pooled.filterMap (onChainAggregate S)

/- What becomes of votes that are submitted to a new pool. -/
def onChainFrom (S : Type) [BeaconSpec S] [SigningSpec S] [CommitteeSpec S]
    [OperationSpec S] (submissions : List SingleAttestation) (blockSlot : Slot) :
    List ElectraAttestation :=
  let pools := submitSingleAttestations S OperationPools.new submissions
  buildElectraOnChainAggregates S (pools.drainForBlock S blockSlot).1.attestations

end

----
-- Pooled Votes
----

section

open Pools LruCache

variable {S : Type} [SigningSpec S]

def PooledSingly (votes : List SingleAttestation) (pools : OperationPools) : Prop :=
  ∀ pooled ∈ pools.attestations.values, ∃ vote ∈ votes, pooled = pooledForm vote

/- Two votes are never merged, as they have a bit in common. -/
theorem pooledSingly_insert {votes : List SingleAttestation} {pools : OperationPools}
    (hPools : PooledSingly votes pools) {vote : SingleAttestation} (hVote : vote ∈ votes) :
    PooledSingly votes (pools.insertAttestation S (pooledForm vote)) := by
  rcases pools.insertAttestation_cases S (pooledForm vote) with
    ⟨k, hPut⟩ | ⟨existing, sig, hPeek, hDisjoint, _⟩
  · rw [hPut]
    intro pooled hPooled
    rcases mem_values_put hPooled with hNew | hOld
    · exact ⟨vote, hVote, hNew⟩
    · exact hPools pooled hOld
  · rcases hPools existing (mem_values_of_peek hPeek) with ⟨x, _, rfl⟩
    exact Bool.noConfusion hDisjoint

theorem pooledSingly_submit {votes submissions : List SingleAttestation}
    (hSubmissions : submissions ⊆ votes) {pools : OperationPools}
    (hPools : PooledSingly votes pools) :
    PooledSingly votes (submitSingleAttestations S pools submissions) := by
  induction submissions generalizing pools with
  | nil => exact hPools
  | cons vote xs ih =>
    apply ih
    · exact fun _ hxs =>
        hSubmissions (mem_cons_of_mem _ hxs)
    · apply pooledSingly_insert hPools
      exact hSubmissions mem_cons_self

end

----
-- Signers
----

section

open CommitteeSpec

variable {S : Type} [CommitteeSpec S]

/-
  The attestation has a bit for every member of the committees that it names, and is by certain
  validators.
-/
structure NamesSigners (state : S) (att : ElectraAttestation)
    (signers : List ValidatorIndex) : Prop where
  length : att.aggregationBits.length = ((getCommitteeIndices att.committeeBits).map
    fun index => (getBeaconCommittee state att.data.slot index).length).sum
  signers : ∀ validator, validator ∈ getAttestingIndicesElectra state att ↔ validator ∈ signers

theorem getCommitteeIndices_singleBit {len pos : Nat} (hPos : pos < len) :
    getCommitteeIndices (singleBit len pos) = [pos] := by
  unfold getCommitteeIndices setBits singleBit
  have hPairs : ((List.range len).map (· == pos)).zipIdx =
      (List.range len).map fun i =>
          (i == pos, i) := by
    apply ext_getElem
    · simp
    · simp
  rw [hPairs, filter_map, map_map]
  change ((List.range len).filter (· == pos)).map id = [pos]
  rw [map_id, filter_beq, count_eq_one_of_mem nodup_range (mem_range.mpr hPos)]
  rfl

variable {vote : SingleAttestation}

theorem onChainAggregate_pooledForm {att : ElectraAttestation}
    (hAtt : onChainAggregate S (pooledForm vote) = some att) :
    vote.data.index < maxCommitteesPerSlot S ∧ att.aggregationBits = [true] ∧
      att.data.slot = vote.data.slot ∧
      getCommitteeIndices att.committeeBits = [vote.data.index] := by
  unfold onChainAggregate at hAtt
  split at hAtt
  · cases hAtt
  · rename_i hIdx
    cases hAtt
    have hLess := not_le.mp hIdx
    exact ⟨hLess, rfl, rfl, getCommitteeIndices_singleBit hLess⟩

theorem foldl_pushAttesters_past_end (output members : List ValidatorIndex) {pos : Nat}
    (hPos : 0 < pos) :
    (members.zipIdx pos).foldl
      (fun output member =>
        if [true].getD (0 + member.2) false = true ∧ member.1 ∉ output then output ++ [member.1]
        else output) output = output := by
  induction members generalizing pos with
  | nil => rfl
  | cons a xs ih =>
    rw [zipIdx_cons, foldl_cons, if_neg, ih (Nat.lt_succ_of_lt hPos)]
    rintro ⟨hBit, _⟩
    rcases pos with _ | s
    · exact absurd hPos (lt_irrefl 0)
    · exact Bool.noConfusion hBit

theorem pushAttesters_singleton (committee : List ValidatorIndex) :
    pushAttesters [true] 0 [] committee = committee.take 1 := by
  cases committee with
  | nil => rfl
  | cons a xs =>
    unfold pushAttesters
    rw [zipIdx_cons, foldl_cons, foldl_pushAttesters_past_end _ _ Nat.one_pos]
    rfl

theorem namesSigners_iff {att : ElectraAttestation}
    (hAtt : onChainAggregate S (pooledForm vote) = some att) (s : S) :
    NamesSigners s att [vote.attesterIndex] ↔
      getBeaconCommittee s vote.data.slot vote.data.index = [vote.attesterIndex] := by
  rcases onChainAggregate_pooledForm hAtt with ⟨_, hBits, hSlot, hNamed⟩
  have hAttesting : getAttestingIndicesElectra s att =
      (getBeaconCommittee s vote.data.slot vote.data.index).take 1 := by
    unfold getAttestingIndicesElectra
    rw [hNamed, hBits, hSlot]
    exact pushAttesters_singleton _
  constructor
  · rintro ⟨hLen, hSigners⟩
    rw [hBits, hNamed, hSlot] at hLen
    rcases length_eq_one_iff.mp (by simpa using hLen.symm) with ⟨member, hMem⟩
    have hEq := (hSigners member).mp (by
      rw [hAttesting, hMem]
      exact mem_singleton_self _)
    rw [hMem, mem_singleton.mp hEq]
  · intro hCommittee
    constructor
    · rw [hBits, hNamed, hSlot]
      simp [hCommittee]
    · intro val
      rw [hAttesting, hCommittee]
      rfl

end

----
-- Main Theorem
----

section

open CommitteeSpec Pools OperationSpec

variable {S : Type} [BeaconSpec S]
variable [SigningSpec S] [CommitteeSpec S] [OperationSpec S]

def VotesNameSigners (state : S) (blockSlot : Slot) (submissions : List SingleAttestation) :
    Prop :=
  ∀ att ∈ onChainFrom S submissions blockSlot,
    (∃ vote ∈ submissions, onChainAggregate S (pooledForm vote) = some att) ∧
    ∀ vote ∈ submissions, onChainAggregate S (pooledForm vote) = some att →
      NamesSigners state att [vote.attesterIndex]

theorem exists_vote_of_mem_onChainFrom {submissions : List SingleAttestation} {blockSlot : Slot}
    {att : ElectraAttestation} (hAtt : att ∈ onChainFrom S submissions blockSlot) :
    ∃ vote ∈ submissions, onChainAggregate S (pooledForm vote) = some att ∧
      inInclusionWindow S blockSlot (pooledForm vote) = true := by
  rcases mem_filterMap.mp hAtt with ⟨pooled, hPooled, hOnChain⟩
  rcases LruCache.mem_values_of_mem_drained hPooled with ⟨hValue, hWin⟩
  have hNew : PooledSingly submissions OperationPools.new := by
    intro pooled hMem
    exact absurd hMem not_mem_nil
  have hSubmitted : PooledSingly submissions (submitSingleAttestations S OperationPools.new
      submissions) := pooledSingly_submit (List.Subset.refl submissions) hNew
  rcases hSubmitted pooled hValue with ⟨vote, hVote, rfl⟩
  exact ⟨vote, hVote, hOnChain, hWin⟩

theorem onChainFrom_singleton (hRoom : 0 < maxAttestations S) {blockSlot : Slot}
    {vote : SingleAttestation}
    (hWin : inInclusionWindow S blockSlot (pooledForm vote) = true) :
    onChainFrom S [vote] blockSlot = (onChainAggregate S (pooledForm vote)).toList := by
  have hPooled : (submitSingleAttestations S OperationPools.new [vote]).attestations =
      LruCache.empty.put (AttKey.primary (SigningSpec.attestationDataRoot S vote.data))
      (pooledForm vote) := rfl
  unfold onChainFrom OperationPools.drainForBlock
  dsimp only
  rw [hPooled, LruCache.drained_put_empty (by decide) hRoom hWin]
  unfold buildElectraOnChainAggregates
  rw [filterMap_cons]
  cases onChainAggregate S (pooledForm vote) with
  | none | some att => rfl

/-
  Whichever of some votes are submitted, all that come into a block are right, exactly if each one
  that can come into the block is from the only member of the committee that its data names.
-/
theorem submitted_votes_name_signers_iff (hRoom : 0 < maxAttestations S) (state : S)
    (blockSlot : Slot) (votes : List SingleAttestation) :
    (∀ submissions, submissions ⊆ votes → VotesNameSigners state blockSlot submissions) ↔
      ∀ vote ∈ votes, inInclusionWindow S blockSlot (pooledForm vote) = true →
        vote.data.index < maxCommitteesPerSlot S →
          getBeaconCommittee state vote.data.slot vote.data.index = [vote.attesterIndex] := by
  constructor
  · intro hRight vote hVote hWin hIdx
    have hAlone : VotesNameSigners state blockSlot [vote] := by
      apply hRight
      intro x hx
      rw [mem_singleton.mp hx]
      exact hVote
    have hSome : ∃ att, onChainAggregate S (pooledForm vote) = some att :=
      ⟨_, if_neg (not_le.mpr hIdx)⟩
    rcases hSome with ⟨att, hOnChain⟩
    have hAtt : att ∈ onChainFrom S [vote] blockSlot := by
      rw [onChainFrom_singleton hRoom hWin, hOnChain]
      exact mem_singleton_self att
    apply (namesSigners_iff hOnChain state).mp
    exact (hAlone att hAtt).2 vote (mem_singleton_self _) hOnChain
  · intro hCommittees submissions hSubmissions att hAtt
    rcases exists_vote_of_mem_onChainFrom hAtt with ⟨vote, hVote, hOnChain, hWin⟩
    refine ⟨⟨vote, hVote, hOnChain⟩, ?_⟩
    intro x hx hOtherOnChain
    rcases onChainAggregate_pooledForm hOnChain with ⟨_, _, hSlot, _⟩
    rcases onChainAggregate_pooledForm hOtherOnChain with ⟨hIdx, _, hOtherSlot, _⟩
    apply (namesSigners_iff hOtherOnChain state).mpr
    apply hCommittees x (hSubmissions hx) _ hIdx
    -- The two votes are for the same slot.
    unfold inInclusionWindow pooledForm at hWin ⊢
    rw [← hOtherSlot, hSlot]
    exact hWin

end

----
-- Sample
----

open Pools

instance : OperationSpec ChainState where
  maxProposerSlashings := 2
  maxAttesterSlashings := 2
  maxAttestations := 8
  maxVoluntaryExits := 2
  maxBlsToExecutionChanges := 2
  minAttestationInclusionDelay := 1

open Sample

def signedVote (slot : Slot) (attesterIndex : ValidatorIndex) : SingleAttestation where
  committeeIndex := 0
  attesterIndex
  data := ⟨slot, 0, anchorRoot, ⟨0, 0⟩, ⟨0, 0⟩⟩
  signature := 1000 * anchorRoot + 10 * slot

/- The only voter of the second slot. -/
theorem submitted_votes_name_signers_iff_alone :
    onChainFrom ChainState [signedVote 1 2] 2 ≠ [] ∧
      VotesNameSigners anchorState 2 [signedVote 1 2] := by
  refine ⟨by decide, ?_⟩
  apply (submitted_votes_name_signers_iff (by decide) anchorState 2 [signedVote 1 2]).mpr
  · intro vote hVote _ _
    rw [mem_singleton.mp hVote]
    rfl
  · exact List.Subset.refl _

/-
  Of the two voters of a first slot, the second one submits. Its vote has one bit, for the other
  voter.
-/
theorem submitted_vote_names_other :
    let vote := signedVote 4 1
    CommitteeSpec.getBeaconCommittee anchorState 4 vote.committeeIndex = [0, 1] ∧
      SigningSpec.blsVerify ChainState 101 (SigningSpec.attestationDataRoot ChainState
        vote.data) vote.signature = true ∧
      (onChainFrom ChainState [vote] 5).map (fun att => (att.aggregationBits,
          getAttestingIndicesElectra anchorState att)) = [([true], [0])] ∧
      ¬ VotesNameSigners anchorState 5 [vote] := by
  intro vote
  refine ⟨rfl, by decide, by decide, ?_⟩
  intro hRight
  have hOnChain : onChainFrom ChainState [vote] 5 = [⟨[true], vote.data, vote.signature,
      [true, false, false, false]⟩] := by
    decide
  have hNames :=
    (hRight _ (hOnChain ▸ mem_singleton_self _)).2 vote (mem_singleton_self _) (by decide)
  exact absurd hNames.length (by decide)

end Pharos.Production
