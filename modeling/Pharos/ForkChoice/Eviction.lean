import Pharos.ForkChoice.Handlers

/-
  This file says what a store keeps when blocks are evicted from it, and compares the head and the
  blocks it accepts before and after old blocks are evicted.
-/

----
-- Blocks That Stay
----

namespace Pharos.ForkChoice

open HashTable

section

variable {S : Type} {store : Store S} {roots : List Root}

theorem lookup_blocks_evict (r : Root) :
    (store.evict roots).blocks.lookup r = if r ∈ roots then none
      else store.blocks.lookup r :=
  lookup_deleteAll _ _ _

variable {root : Root}

theorem mem_blocks_evict_iff :
    root ∈ (store.evict roots).blocks ↔ root ∉ roots ∧ root ∈ store.blocks := by
  rw [← AList.lookup_isSome, lookup_blocks_evict]
  by_cases hMem : root ∈ roots
  · simp [hMem]
  · simp [hMem, AList.lookup_isSome]

theorem parentOf_evict_some_iff {c par : Root} :
    parentOf (store.evict roots).blocks c = some par ↔
      c ∉ roots ∧ parentOf store.blocks c = some par := by
  unfold parentOf
  rw [lookup_blocks_evict]
  by_cases hMem : c ∈ roots
  · simp [hMem]
  · simp [hMem]

theorem isInvalid_evict_iff :
    (store.evict roots).IsInvalid root ↔ root ∉ roots ∧ store.IsInvalid root := by
  have hLookup : (store.evict roots).payloadStatuses.lookup root = if root ∈ roots then
          none
        else
          store.payloadStatuses.lookup root :=
    lookup_deleteAll _ _ _
  unfold Store.IsInvalid
  rw [hLookup]
  by_cases hMem : root ∈ roots
  · simp [hMem]
  · simp [hMem]

theorem notInvalid_evict (hOpen : ¬store.IsInvalid root) : ¬(store.evict roots).IsInvalid root :=
  fun hBad => hOpen (isInvalid_evict_iff.mp hBad).2

theorem notInvalid_of_evict (hOpen : ¬(store.evict roots).IsInvalid root) (hStay : root ∉ roots) :
    ¬store.IsInvalid root :=
  fun hBad => hOpen (isInvalid_evict_iff.mpr ⟨hStay, hBad⟩)

theorem parentLinked_evict (hLinked : ParentLinked store.blocks) :
    ParentLinked (store.evict roots).blocks := by
  rcases hLinked with ⟨rank, hRank⟩
  refine ⟨rank, ?_⟩
  intro c par hPar
  exact hRank c par (parentOf_evict_some_iff.mp hPar).2

/- A walk that leaves no evicted block behind is as long as before. -/
theorem getAncestor_evict_of (hLinked : ParentLinked store.blocks) {P : Root → Prop} {slot : Slot}
    (hWalk : ∀ r blk, P r → store.blocks.lookup r = some blk → blk.slot > slot →
      r ∉ roots ∧ P blk.parentRoot) {r : Root} (hr : P r) :
    getAncestor (store.evict roots) r slot = getAncestor store r slot := by
  have hStill : ParentLinked (store.evict roots).blocks := parentLinked_evict hLinked
  have hRank := hLinked
  rcases hRank with ⟨rank, hRanked⟩
  -- By induction on the rank of the root.
  induction hHeight : rank r using Nat.strong_induction_on generalizing r with
  | _ height ih =>
    rw [getAncestor_eq hStill, getAncestor_eq hLinked, lookup_blocks_evict]
    cases hBlk : store.blocks.lookup r with
    | none => simp
    | some blk =>
      by_cases hLater : blk.slot > slot
      · rcases hWalk r blk hr hBlk hLater with ⟨hStay, hUp⟩
        have hLess : rank blk.parentRoot < rank r :=
          hRanked r _ (by rw [parentOf, hBlk]; rfl)
        simp only [hStay, hLater, if_true, if_false]
        exact ih _ (hHeight ▸ hLess) hUp rfl
      · by_cases hMem : r ∈ roots <;> simp [hMem, hLater]

theorem blockSlotOrZero_evict (hStay : root ∉ roots) :
    blockSlotOrZero (store.evict roots) root = blockSlotOrZero store root := by
  unfold blockSlotOrZero
  rw [lookup_blocks_evict, if_neg hStay]

theorem effectiveBase_of_not_mem (hNot : store.justifiedCheckpoint.root ∉ store.blocks) :
    effectiveBase store = store.finalizedCheckpoint.root := by
  unfold effectiveBase
  rw [if_neg hNot]

theorem effectiveBase_evict (hStay : effectiveBase store ∉ roots) :
    effectiveBase (store.evict roots) = effectiveBase store := by
  by_cases hJust : store.justifiedCheckpoint.root ∈ store.blocks
  · unfold effectiveBase at hStay ⊢
    rw [if_pos hJust] at hStay ⊢
    exact if_pos (mem_blocks_evict_iff.mpr ⟨hStay, hJust⟩)
  · rw [effectiveBase_of_not_mem hJust]
    apply effectiveBase_of_not_mem
    intro hStill
    exact hJust (mem_blocks_evict_iff.mp hStill).2

theorem effectiveBase_evict_of_not_stays
    (hNot : effectiveBase store ∉ store.blocks ∨ effectiveBase store ∈ roots) :
    effectiveBase (store.evict roots) = store.finalizedCheckpoint.root := by
  apply effectiveBase_of_not_mem
  intro hStill
  rcases mem_blocks_evict_iff.mp hStill with ⟨hKept, hIn⟩
  have hJust : effectiveBase store = store.justifiedCheckpoint.root := if_pos hIn
  rw [hJust] at hNot
  rcases hNot with hUnknown | hEvicted
  · exact hUnknown hIn
  · exact hKept hEvicted

theorem not_reached_of_not_mem {base : Root} (hUnknown : base ∉ store.blocks) :
    ¬Reached store base base := by
  intro hAt
  exact hUnknown hAt.known

----
-- Weights of Blocks That Stay
----

/-
  A vote counts for a block as before: it is dropped and did not count, or it stays and the walk
  back from it does not change.
-/
def VoteKept (store : Store S) (roots : List Root) (root : Root) (message : LatestMessage) :
    Prop :=
  let slot := blockSlotOrZero store root
  (message.root ∈ roots ∧ getAncestor store message.root slot ≠ root) ∨ (message.root ∉ roots ∧
    getAncestor (store.evict roots) message.root slot = getAncestor store message.root slot)

theorem votesFor_evict (hStay : root ∉ roots) {i : ValidatorIndex}
    (hVote : i ∉ store.equivocatingIndices → ∀ msg,
      store.latestMessages.lookup i = some msg → VoteKept store roots root msg) :
    votesFor (store.evict roots) root i = votesFor store root i := by
  have hLookup : (store.evict roots).latestMessages.lookup i =
      (store.latestMessages.lookup i).filter (fun msg => msg.root ∉ roots) :=
      lookup_retain _ _ _
  have hSlot : blockSlotOrZero (store.evict roots) root = blockSlotOrZero store root :=
      blockSlotOrZero_evict hStay
  unfold votesFor
  rw [hSlot]
  by_cases hEquiv : i ∈ store.equivocatingIndices
  · have hStill : i ∈ (store.evict roots).equivocatingIndices := hEquiv
    simp [hEquiv, hStill]
  · have hStill : i ∉ (store.evict roots).equivocatingIndices := hEquiv
    cases hMsg : store.latestMessages.lookup i with
    | none => simp [hEquiv, hStill, hLookup, hMsg]
    | some msg =>
      rcases hVote hEquiv msg hMsg with ⟨hDropped, hNot⟩ | ⟨hKept, hWalk⟩
      · have hGone : (store.evict roots).latestMessages.lookup i = none := by
          rw [hLookup, hMsg]
          simp [Option.filter, hDropped]
        simp [hGone, hNot]
      · have hEq : (store.evict roots).latestMessages.lookup i = some msg := by
          rw [hLookup, hMsg]
          exact Option.filter_eq_some_iff.mpr ⟨rfl, decide_eq_true hKept⟩
        simp [hEquiv, hStill, hEq, hWalk]

variable [BeaconSpec S]

theorem getVotingSource_evict (hStay : root ∉ roots) :
    getVotingSource (store.evict roots) root = getVotingSource store root := by
  have hStates : (store.evict roots).blockStates.lookup root = store.blockStates.lookup root :=
      (lookup_deleteAll _ _ _).trans (if_neg hStay)
  have hUnrealized : (store.evict roots).unrealizedJustifications.lookup root =
      store.unrealizedJustifications.lookup root := (lookup_deleteAll _ _ _).trans
      (if_neg hStay)
  unfold getVotingSource
  rw [lookup_blocks_evict, if_neg hStay, hStates, hUnrealized]
  rfl

theorem getWeight_evict_of_votes (hStay : root ∉ roots)
    (hVotes : ∀ s, justifiedState store = some s →
      ∀ i ∈ activeIndicesForJustified store, isUnslashed s i = true →
        i ∉ store.equivocatingIndices →
        ∀ msg, store.latestMessages.lookup i = some msg → VoteKept store roots root msg)
    (hBoost : store.proposerBoostRoot = defaultRoot ∨
      getAncestor (store.evict roots) store.proposerBoostRoot (blockSlotOrZero store root) =
      getAncestor store store.proposerBoostRoot (blockSlotOrZero store root)) :
    getWeight (store.evict roots) root = getWeight store root := by
  have hJust : justifiedState (store.evict roots) = justifiedState store := rfl
  have hActive : activeIndicesForJustified (store.evict roots) = activeIndicesForJustified store :=
      rfl
  have hBoostRoot : (store.evict roots).proposerBoostRoot = store.proposerBoostRoot := rfl
  unfold getWeight getWeightWith
  rw [hJust, hActive, hBoostRoot]
  cases hs : justifiedState store with
  | none => rfl
  | some s =>
    have hScore : getAttestationScore (store.evict roots) root s
        (activeIndicesForJustified store) = getAttestationScore store root s
        (activeIndicesForJustified store) := by
      refine congrArg (fun voters : List ValidatorIndex =>
        Word.wrapSum (voters.map (effectiveBalanceOf s))) ?_
      refine List.filter_congr ?_
      intro i hIdx
      rw [List.mem_filter] at hIdx
      exact votesFor_evict hStay (hVotes s hs i hIdx.1 hIdx.2)
    dsimp only
    rw [hScore, blockSlotOrZero_evict hStay]
    rcases hBoost with hDefault | hWalk
    · rw [if_pos hDefault, if_pos hDefault]
    · rw [hWalk]
      rfl

end

----
-- Evicting Old Blocks
----

open BeaconSpec

variable {S : Type} {store : Store S} {roots : List Root} {bound : Slot}

/- All blocks before a slot are among some roots, and no block after it. -/
structure EvictsUpTo (store : Store S) (roots : List Root) (bound : Slot) : Prop where
  low : ∀ root ∈ roots, ∀ block, store.blocks.lookup root = some block → block.slot ≤ bound
  all : ∀ root block, store.blocks.lookup root = some block → block.slot < bound → root ∈ roots

namespace EvictsUpTo

variable {r : Root}

section

variable (hEvicts : EvictsUpTo store roots bound)
include hEvicts

theorem bound_le (hStay : r ∉ roots) (hIn : r ∈ store.blocks) :
    bound ≤ blockSlotOrZero store r := by
  rcases mem_iff.mp hIn with ⟨blk, hBlk⟩
  unfold blockSlotOrZero
  rw [hBlk]
  apply not_lt.mp
  intro hLess
  exact hStay (hEvicts.all r blk hBlk hLess)

theorem child_stays (hSlots : SlotsIncrease store.blocks) {par c : Root}
    (hStay : par ∉ roots) (hIn : par ∈ store.blocks)
    (hKid : parentOf store.blocks c = some par) : c ∉ roots := by
  rcases parentOf_some_iff.mp hKid with ⟨blk, hBlk, rfl⟩
  rcases mem_iff.mp hIn with ⟨up, hUp⟩
  have hFrom := hEvicts.bound_le hStay hIn
  unfold blockSlotOrZero at hFrom
  rw [hUp] at hFrom
  have hLess := hSlots c blk up hBlk hUp
  intro hMem
  have hLow := hEvicts.low c hMem blk hBlk
  exact absurd (lt_of_le_of_lt hFrom hLess) (not_lt.mpr hLow)

section

variable (hLinked : ParentLinked store.blocks)
include hLinked

/- A walk to a later slot meets no block that is missing. -/
theorem getAncestor_eq {slot : Slot} (hSlot : bound ≤ slot) (r : Root) :
    getAncestor (store.evict roots) r slot = getAncestor store r slot := by
  refine getAncestor_evict_of hLinked (P := fun _ => True) ?_ trivial
  intro r blk _ hBlk hLater
  refine ⟨fun hMem => ?_, trivial⟩
  exact absurd hLater (not_lt.mpr (le_trans (hEvicts.low r hMem blk hBlk) hSlot))

theorem voteKept (hStay : r ∉ roots) (hIn : r ∈ store.blocks) (msg : LatestMessage) :
    VoteKept store roots r msg := by
  have hSlot := hEvicts.bound_le hStay hIn
  by_cases hMem : msg.root ∈ roots
  · refine .inl ⟨hMem, ?_⟩
    have hx : msg.root ≠ r := by
      intro hEq
      exact hStay (hEq ▸ hMem)
    rw [ForkChoice.getAncestor_eq hLinked]
    cases hBlk : store.blocks.lookup msg.root with
    | none => exact hx
    | some blk =>
      have hLow := hEvicts.low _ hMem blk hBlk
      dsimp only
      rw [if_neg (not_lt.mpr (le_trans hLow hSlot))]
      exact hx
  · exact .inr ⟨hMem, hEvicts.getAncestor_eq hLinked hSlot _⟩

variable [BeaconSpec S]

theorem getWeight_eq (hStay : r ∉ roots) (hIn : r ∈ store.blocks) :
    getWeight (store.evict roots) r = getWeight store r := by
  apply getWeight_evict_of_votes hStay
  · intro s _ i _ _ _ msg _
    exact hEvicts.voteKept hLinked hStay hIn msg
  · exact .inr (hEvicts.getAncestor_eq hLinked (hEvicts.bound_le hStay hIn) _)

theorem isViableLeaf_eq
    (hBd : bound ≤ computeStartSlotAtEpoch S store.finalizedCheckpoint.epoch)
    (hStay : r ∉ roots) : isViableLeaf (store.evict roots) r = isViableLeaf store r := by
  have hCp : getCheckpointBlock (store.evict roots) r store.finalizedCheckpoint.epoch =
      getCheckpointBlock store r store.finalizedCheckpoint.epoch :=
      hEvicts.getAncestor_eq hLinked hBd r
  have hFin : (store.evict roots).finalizedCheckpoint = store.finalizedCheckpoint := rfl
  unfold isViableLeaf
  rw [getVotingSource_evict hStay, hFin, hCp]
  rfl

end

section

variable [BeaconSpec S] (hSlots : SlotsIncrease store.blocks)
  (hBd : bound ≤ computeStartSlotAtEpoch S store.finalizedCheckpoint.epoch)
include hSlots hBd

theorem viable_iff (hStay : r ∉ roots) : Viable (store.evict roots) r ↔ Viable store r := by
  have hTest : ∀ r ∉ roots, isViableLeaf (store.evict roots) r = isViableLeaf store r :=
    fun r hr => hEvicts.isViableLeaf_eq hSlots.parentLinked hBd hr
  constructor
  · intro hViable
    induction hViable with
    | @leaf r hIn hOpen hLeaf hViable =>
      have hHere := (mem_blocks_evict_iff.mp hIn).2
      refine .leaf hHere (notInvalid_of_evict hOpen hStay) ?_ ((hTest r hStay).symm.trans hViable)
      rw [childrenIndex_eq_nil_iff] at hLeaf ⊢
      intro c hKid
      exact hLeaf c (parentOf_evict_some_iff.mpr
        ⟨hEvicts.child_stays hSlots hStay hHere hKid, hKid⟩)
    | branch hIn hOpen hKid _ ih =>
      have hLink := parentOf_evict_some_iff.mp hKid
      exact .branch (mem_blocks_evict_iff.mp hIn).2 (notInvalid_of_evict hOpen hStay) hLink.2
        (ih hLink.1)
  · intro hViable
    induction hViable with
    | @leaf r hIn hOpen hLeaf hViable =>
      refine .leaf (mem_blocks_evict_iff.mpr ⟨hStay, hIn⟩) (notInvalid_evict hOpen) ?_
        ((hTest r hStay).trans hViable)
      rw [childrenIndex_eq_nil_iff] at hLeaf ⊢
      intro c hKid
      exact hLeaf c (parentOf_evict_some_iff.mp hKid).2
    | branch hIn hOpen hKid _ ih =>
      have hBelow := hEvicts.child_stays hSlots hStay hIn hKid
      exact .branch (mem_blocks_evict_iff.mpr ⟨hStay, hIn⟩) (notInvalid_evict hOpen)
        (parentOf_evict_some_iff.mpr ⟨hBelow, hKid⟩) (ih hBelow)

theorem nextHead_eq {head : Root} (hStay : head ∉ roots) (hAt : Reached store (effectiveBase store) head)
    (hStill : Reached (store.evict roots) (effectiveBase (store.evict roots)) head) :
    nextHead store head = nextHead (store.evict roots) head := by
  have hLinked := hSlots.parentLinked
  have hBelow : ∀ c, parentOf store.blocks c = some head → c ∉ roots :=
    fun c hKid => hEvicts.child_stays hSlots hStay hAt.known hKid
  refine (nextHead_congr hLinked (parentLinked_evict hLinked) hAt hStill ?_ ?_).symm
  · intro c
    rw [parentOf_evict_some_iff, and_iff_right_of_imp (hBelow c)]
    exact and_congr_right fun hKid => hEvicts.viable_iff hSlots hBd (hBelow c hKid)
  · intro c hKid _
    exact hEvicts.getWeight_eq hLinked (hBelow c hKid) (mem_of_parentOf hKid)

end

end

end EvictsUpTo

----
-- The Head without Old Blocks
----

variable [BeaconSpec S]

/-
  The search for the head still has a block to start from, or had none before, or ended at the
  finalized block.
-/
def SearchStays (store : Store S) (roots : List Root) : Prop :=
  let finalizedRoot := store.finalizedCheckpoint.root
  effectiveBase store ∉ store.blocks ∨ effectiveBase store ∉ roots ∨
    (finalizedRoot ∈ store.blocks ∧ finalizedRoot ∉ roots) ∨
    getHead store = finalizedRoot

namespace EvictsUpTo

section

variable (hEvicts : EvictsUpTo store roots bound)
include hEvicts

section

variable (hSlots : SlotsIncrease store.blocks)
include hSlots

theorem descent_passes_finalized {r : Root}
    (hOnChain : Forest.Ancestor (parentOf store.blocks) r (getHead store))
    (hStay : r ∉ roots) (hIn : r ∈ store.blocks)
    (hEvicted : effectiveBase store ∈ roots) (hBase : effectiveBase store ∈ store.blocks) :
    Forest.Reaches (nextHead store) (effectiveBase store) r := by
  have hLinked := hSlots.parentLinked
  have hBaseOnChain := (ancestor_getHead_iff hLinked (Forest.Ancestor.refl
    (effectiveBase store))).mpr .refl
  rcases hOnChain.total hBaseOnChain with hAbove | hBelow
  · -- The slots forbid the root to be above the base.
    exfalso
    have hFrom := hEvicts.bound_le hStay hIn
    rcases mem_iff.mp hIn with ⟨blk, hBlk⟩
    rcases mem_iff.mp hBase with ⟨base, hBaseBlock⟩
    have hLow := hEvicts.low _ hEvicted base hBaseBlock
    rcases hAbove.cases_child with hEq | ⟨up, hUp, hxs⟩
    · rw [hEq] at hStay
      exact hStay hEvicted
    · have hLess := hSlots.ranked _ _ hUp
      have hUpRank := hSlots.ranked.le_of_ancestor hxs
      have hStrict := lt_of_le_of_lt hUpRank hLess
      unfold slotRank at hStrict
      unfold blockSlotOrZero at hFrom
      rw [hBlk, hBaseBlock] at hStrict
      rw [hBlk] at hFrom
      have hNat : ∀ a b c : Nat, c ≤ a → b ≤ c → ¬a + 1 < b + 1 := by
        omega
      exact hNat _ _ _ hFrom hLow hStrict
  · exact (ancestor_getHead_iff hLinked hBelow).mp hOnChain

variable (hBd : bound ≤ computeStartSlotAtEpoch S store.finalizedCheckpoint.epoch)
include hBd

theorem getHead_eq_of_base (hStay : effectiveBase (store.evict roots) ∉ roots)
    (hIn : effectiveBase (store.evict roots) ∈ store.blocks)
    (hPath : Forest.Reaches (nextHead store) (effectiveBase store)
      (effectiveBase (store.evict roots))) : getHead (store.evict roots) = getHead store := by
  have hLinked := hSlots.parentLinked
  have hStill : ParentLinked (store.evict roots).blocks := parentLinked_evict hLinked
  refine getHead_eq_of_nextHead hLinked hStill hPath ?_
  intro head hDescent
  by_cases hOpen : Reached store (effectiveBase store) (effectiveBase store)
  · have hBase := reached_of_descent hLinked hOpen hPath
    have hAt :
        Reached (store.evict roots) (effectiveBase (store.evict roots)) head ∧ head ∉ roots := by
      induction hDescent with
      | refl =>
        exact ⟨.base (mem_blocks_evict_iff.mpr ⟨hStay, hIn⟩)
          (notInvalid_evict hBase.notInvalid), hStay⟩
      | tail _ hStep ih =>
        rcases parentOf_of_nextHead hLinked hStep with ⟨hKid, hKept⟩
        have hBelow := hEvicts.child_stays hSlots ih.2 (mem_blocks_evict_iff.mp ih.1.known).2 hKid
        exact ⟨.child ih.1 (parentOf_evict_some_iff.mpr ⟨hBelow, hKid⟩)
          (notInvalid_evict hKept.1.notInvalid), hBelow⟩
    exact hEvicts.nextHead_eq hSlots hBd hAt.2
      (reached_of_descent hLinked hOpen (hPath.trans hDescent)) hAt.1
  · -- An invalid base has nothing below it in either store.
    have hNone := nextHead_of_not_reached hLinked hOpen
    have hEq : effectiveBase store = effectiveBase (store.evict roots) := by
      rcases Relation.ReflTransGen.cases_head hPath with hEq | ⟨c, hStep, _⟩
      · exact hEq
      · exact absurd ((hNone _).symm.trans hStep) (by simp)
    rw [hNone, nextHead_of_not_reached hStill]
    intro hAgain
    apply hOpen
    rw [hEq]
    exact .base hIn (notInvalid_of_evict hAgain.notInvalid hStay)

theorem getHead_eq_iff (hOnChain :
      Forest.Ancestor (parentOf store.blocks) store.finalizedCheckpoint.root (getHead store)) :
    getHead (store.evict roots) = getHead store ↔ SearchStays store roots := by
  have hLinked := hSlots.parentLinked
  have hStill : ParentLinked (store.evict roots).blocks := parentLinked_evict hLinked
  -- Without a base, the finalized root is the head.
  have hLost : effectiveBase (store.evict roots) = store.finalizedCheckpoint.root →
        ¬(store.finalizedCheckpoint.root ∈ store.blocks ∧
        store.finalizedCheckpoint.root ∉ roots) → getHead (store.evict roots) =
        store.finalizedCheckpoint.root := by
    intro hBase hGone
    rw [← hBase]
    apply getHead_of_not_reached hStill
    apply not_reached_of_not_mem
    rw [hBase, mem_blocks_evict_iff]
    intro hHere
    exact hGone hHere.symm
  by_cases hIn : effectiveBase store ∈ store.blocks
  · by_cases hEvicted : effectiveBase store ∈ roots
    · have hBase := effectiveBase_evict_of_not_stays (.inr hEvicted)
      by_cases hFin : store.finalizedCheckpoint.root ∈ store.blocks ∧
          store.finalizedCheckpoint.root ∉ roots
      · refine iff_of_true ?_ (.inr (.inr (.inl hFin)))
        have hPath := hEvicts.descent_passes_finalized hSlots hOnChain hFin.2 hFin.1 hEvicted hIn
        rw [← hBase] at hPath hFin
        exact hEvicts.getHead_eq_of_base hSlots hBd hFin.2 hFin.1 hPath
      · rw [hLost hBase hFin]
        constructor
        · intro hEq
          exact .inr (.inr (.inr hEq.symm))
        · rintro (hUnknown | hStay | hStay | hEq)
          · exact absurd hIn hUnknown
          · exact absurd hEvicted hStay
          · exact absurd hStay hFin
          · exact hEq.symm
    · refine iff_of_true ?_ (.inr (.inl hEvicted))
      have hBase := effectiveBase_evict hEvicted
      apply hEvicts.getHead_eq_of_base hSlots hBd
      · rw [hBase]
        exact hEvicted
      · rw [hBase]
        exact hIn
      · rw [hBase]
  · refine iff_of_true ?_ (.inl hIn)
    have hFin : effectiveBase store = store.finalizedCheckpoint.root := by
      apply effectiveBase_of_not_mem
      intro hJust
      apply hIn
      unfold effectiveBase
      rw [if_pos hJust]
      exact hJust
    rw [hLost (effectiveBase_evict_of_not_stays (.inl hIn)) (fun hHere =>
        hIn (hFin ▸ hHere.1)), getHead_of_not_reached hLinked
        (not_reached_of_not_mem hIn), hFin]

end

end

end EvictsUpTo

----
-- Blocks That Are Accepted
----

theorem onBlock_isOk_iff {signed : SignedBeaconBlock} {post : S} {now : Nat}
    {pow : PowBlockProvider} :
    (onBlock store signed post now pow).2 = .ok () ↔
      validateOnBlock store signed.message pow = .ok () ∧
        ∃ pulledUp, processJustificationAndFinalization post = .ok pulledUp := by
  cases hValid : validateOnBlock store signed.message pow with
  | error e =>
    unfold onBlock
    simp [hValid]
  | ok done =>
    cases hPulled : processJustificationAndFinalization post with
    | error src =>
      rw [onBlock_of_pullUp_error hValid hPulled]
      simp
    | ok pulledUp =>
      rw [onBlock_of_pullUp_ok hValid hPulled]
      simp

namespace EvictsUpTo

variable (hEvicts : EvictsUpTo store roots bound) (hLinked : ParentLinked store.blocks)
  (hBd : bound ≤ computeStartSlotAtEpoch S store.finalizedCheckpoint.epoch)
include hEvicts hLinked hBd

theorem validateOnBlock_iff (blk : BeaconBlock) (pow : PowBlockProvider) :
    validateOnBlock (store.evict roots) blk pow = .ok () ↔
      validateOnBlock store blk pow = .ok () ∧ blk.parentRoot ∉ roots := by
  have hs : (store.evict roots).blockStates.lookup blk.parentRoot =
        if blk.parentRoot ∈ roots then
          none
        else
          store.blockStates.lookup blk.parentRoot :=
    lookup_deleteAll _ _ _
  have hCp : getCheckpointBlock (store.evict roots) blk.parentRoot
      store.finalizedCheckpoint.epoch = getCheckpointBlock store blk.parentRoot
      store.finalizedCheckpoint.epoch := hEvicts.getAncestor_eq hLinked hBd _
  have hFin : (store.evict roots).finalizedCheckpoint = store.finalizedCheckpoint := rfl
  unfold validateOnBlock
  rw [hs, hFin, hCp]
  by_cases hMem : blk.parentRoot ∈ roots
  · simp [hMem]
  · rw [if_neg hMem, and_iff_left hMem]
    exact Iff.rfl

theorem onBlock_isOk_iff (signed : SignedBeaconBlock) (post : S) (now : Nat)
    (pow : PowBlockProvider) :
    (onBlock (store.evict roots) signed post now pow).2 = .ok () ↔
      (onBlock store signed post now pow).2 = .ok () ∧ signed.message.parentRoot ∉ roots := by
  rw [ForkChoice.onBlock_isOk_iff, ForkChoice.onBlock_isOk_iff,
    hEvicts.validateOnBlock_iff hLinked hBd, and_right_comm]

end EvictsUpTo

end Pharos.ForkChoice
