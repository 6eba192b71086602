import Mathlib.Algebra.Order.BigOperators.Group.List
import Pharos.ForkChoice.LmdGhost
import Pharos.Lib.Sums
import Pharos.Node.FreezerEviction

/-
  This file proves that votes are not counted twice on their way up the tree: the scores of the
  children of a block are no more than its own, as long as its own does not overflow.

  Main theorems:
  * `votes_conserved`
-/

----
-- Votes for Children
----

namespace Pharos.ForkChoice

open BeaconSpec

variable {S : Type} {st : Store S} {r c x : Root} {i : ValidatorIndex}

variable (hSlots : SlotsIncrease st.blocks)
include hSlots

theorem ancestor_of_votesFor (hIn : r ∈ st.blocks)
    (hVotes : votesFor st r i = true) :
    ∃ msg, st.latestMessages.lookup i = some msg ∧
      Forest.Ancestor (parentOf st.blocks) r msg.root := by
  rcases HashTable.mem_iff.mp hIn with ⟨blk, hBlk⟩
  exact ((votesFor_iff hSlots hBlk i).mp hVotes).2

theorem votesFor_parent (hIn : r ∈ st.blocks)
    (hKid : parentOf st.blocks c = some r)
    (hVotes : votesFor st c i = true) : votesFor st r i = true := by
  rcases HashTable.mem_iff.mp hIn with ⟨blk, hBlk⟩
  rcases ancestor_of_votesFor hSlots (mem_of_parentOf hKid) hVotes with ⟨msg, hMsg, hBelow⟩
  refine (votesFor_iff hSlots hBlk i).mpr ⟨?_, ?_⟩
  · intro hEquiv
    rw [not_votesFor_of_equivocating hEquiv] at hVotes
    cases hVotes
  · exact ⟨msg, hMsg, (Forest.Ancestor.of_parent hKid).trans hBelow⟩

theorem votesFor_sibling_eq
    (hKid : parentOf st.blocks c = some r)
    (hx : parentOf st.blocks x = some r)
    (hVotesChild : votesFor st c i = true)
    (hVotesOther : votesFor st x i = true) : c = x := by
  rcases ancestor_of_votesFor hSlots (mem_of_parentOf hKid) hVotesChild with
    ⟨msg, hMsg, hBelowChild⟩
  rcases ancestor_of_votesFor hSlots (mem_of_parentOf hx) hVotesOther with ⟨same, hEq, hBelowOther⟩
  have hOne : msg = same := Option.some.inj (hMsg.symm.trans hEq)
  rw [← hOne] at hBelowOther
  exact hSlots.ranked.sibling_eq hKid hx hBelowChild hBelowOther

variable [BeaconSpec S]

theorem sum_attestingBalances_children_le
    (hIn : r ∈ st.blocks) (s : S) (activeIndices : List ValidatorIndex) :
    ((childrenIndex st.blocks r).map fun c =>
        (attestingBalances st c s activeIndices).sum).sum ≤
      (attestingBalances st r s activeIndices).sum := by
  refine Sums.weigh_parts_le (nodup_childrenIndex r) ?_ ?_
  · intro c hKid i hVotes
    exact votesFor_parent hSlots hIn (mem_childrenIndex_iff.mp hKid) hVotes
  · intro c hKid x hx i hVotesChild hVotesOther
    exact votesFor_sibling_eq hSlots (mem_childrenIndex_iff.mp hKid)
      (mem_childrenIndex_iff.mp hx) hVotesChild hVotesOther

theorem sum_getAttestationScore_children_le
    (hIn : r ∈ st.blocks) (s : S) (activeIndices : List ValidatorIndex)
    (hTotal : (attestingBalances st r s activeIndices).sum < 2 ^ 64) :
    ((childrenIndex st.blocks r).map fun c =>
        getAttestationScore st c s activeIndices).sum ≤
      getAttestationScore st r s activeIndices := by
  calc ((childrenIndex st.blocks r).map fun c => getAttestationScore st c s activeIndices).sum
      ≤ ((childrenIndex st.blocks r).map fun c =>
          (attestingBalances st c s activeIndices).sum).sum :=
        List.sum_le_sum fun _ _ => Nat.mod_le _ _
    _ ≤ (attestingBalances st r s activeIndices).sum :=
        sum_attestingBalances_children_le hSlots hIn s activeIndices
    _ = getAttestationScore st r s activeIndices := (Word.wrapSum_of_lt hTotal).symm

omit hSlots

end Pharos.ForkChoice

----
-- Reachable Stores
----

namespace Pharos.Node

open BeaconSpec ForkChoice

variable {S : Type} [BeaconSpec S] [SigningSpec S] [CommitteeSpec S] [LawfulBeaconSpec S]

theorem slotsIncrease_runStore {anchor : CheckpointAnchor S} {node : NodeState S}
    (hStart : StartsAt anchor node) (interval : Nat) {acts : List StoreAction}
    (hChecked : ∀ signed ins, .importBlock signed ins ∈ acts → ins.validateResult = true)
    (hDistinct : DistinctRoots S (offeredBlocks anchor acts))
    (hLinked : HashLinked S (offeredBlocks anchor acts)) :
    SlotsIncrease (runStore interval node acts).store.blocks := by
  rcases hLinked with ⟨rank, hRank⟩
  have hOrdered := (runStore_invariant hStart interval hChecked hRank).1
  exact hOrdered.slotsIncrease (hRank _ List.mem_cons_self) hDistinct

/-
  In a store with the blocks of a reachable one, whatever the votes in it, the scores of the
  children of a block are together no more than its own, if the balances in its own have a sum of
  less than 2^64. No vote is counted for two children, and none of an equivocating validator for
  any.
-/
theorem votes_conserved (anchor : CheckpointAnchor S) (node : NodeState S)
    (hStart : StartsAt anchor node) (intervalEpochs : Nat) (actions : List StoreAction)
    (hChecked : ∀ signedBlock inputs,
      .importBlock signedBlock inputs ∈ actions → inputs.validateResult = true)
    (hDistinct : DistinctRoots S (offeredBlocks anchor actions))
    (hLinked : HashLinked S (offeredBlocks anchor actions)) (store : Store S)
    (hReached : store.blocks = (runStore intervalEpochs node actions).store.blocks)
    (state : S) (activeIndices : List ValidatorIndex) (root : Root)
    (hKnown : root ∈ store.blocks) :
    ((attestingBalances store root state activeIndices).sum < 2 ^ 64 →
      ((childrenIndex store.blocks root).map fun child =>
          getAttestationScore store child state activeIndices).sum ≤
        getAttestationScore store root state activeIndices) ∧
    (∀ index, ∀ child ∈ childrenIndex store.blocks root,
      ∀ other ∈ childrenIndex store.blocks root, votesFor store child index = true →
        votesFor store other index = true → child = other) ∧
    ∀ index ∈ store.equivocatingIndices,
      ∀ child ∈ childrenIndex store.blocks root, votesFor store child index = false := by
  have hSlots : SlotsIncrease store.blocks := by
    rw [hReached]
    exact slotsIncrease_runStore hStart intervalEpochs hChecked hDistinct hLinked
  refine ⟨?_, ?_, ?_⟩
  · exact sum_getAttestationScore_children_le hSlots hKnown state activeIndices
  · intro index child hKid other hx
    exact votesFor_sibling_eq hSlots (mem_childrenIndex_iff.mp hKid) (mem_childrenIndex_iff.mp hx)
  · intro index hEquiv child _
    exact not_votesFor_of_equivocating hEquiv

open Sample

/- Two validators vote for the tip, one for its parent. -/
def votedStore : Store Sample.ChainState :=
  let message (root : Root) : LatestMessage := ⟨2, root⟩
  { (runStore 1 syncedNode finalizeFirst).store with
    latestMessages :=
      (((∅ : HashMap ValidatorIndex LatestMessage).insert 0
        (message (treeHashRoot finalizingTip))).insert
          1 (message (treeHashRoot finalizingTip))).insert 2 (message justifiedRoot) }

theorem votes_conserved_votedStore :
    (attestingBalances votedStore justifiedRoot anchorState [0, 1, 2]).sum < 2 ^ 64 ∧
    ((childrenIndex votedStore.blocks justifiedRoot).map
        fun child => getAttestationScore votedStore child anchorState [0, 1, 2]).sum ≤
      getAttestationScore votedStore justifiedRoot anchorState [0, 1, 2] ∧
    getAttestationScore votedStore justifiedRoot anchorState [0, 1, 2] = 96 :=
  ⟨by decide, (votes_conserved sampleAnchor syncedNode startsAt_syncedNode 1 finalizeFirst
      finalizeFirst_checked (by decide) (hashLinked _)
      votedStore rfl anchorState [0, 1, 2]
      justifiedRoot (by decide)).1 (by decide),
    by decide⟩

/- The balances of the three voters have a sum of 2^64. -/
def wealthyState : Sample.ChainState :=
  { anchorState with slot := 200 }

theorem score_of_parent_wraps :
    votedStore.blocks = (runStore 1 syncedNode finalizeFirst).store.blocks ∧
    getActiveValidatorIndices wealthyState (getCurrentEpoch wealthyState) = [0, 1, 2] ∧
    (childrenIndex votedStore.blocks justifiedRoot).map
      (fun child => getAttestationScore votedStore child wealthyState [0, 1, 2]) = [2 ^ 63] ∧
    getAttestationScore votedStore justifiedRoot wealthyState [0, 1, 2] = 0 :=
  ⟨rfl, by decide, by decide, by decide⟩

end Pharos.Node
