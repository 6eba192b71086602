import Pharos.ForkChoice.Eviction
import Pharos.Sample

/-
  This file compares the head of a store with the head of the store without its invalid blocks and
  their descendants.

  The two differ in three ways: a block whose children are all invalid is a leaf only without them,
  votes for deleted blocks count for their ancestors only with them, and so does the boost of a
  deleted block.

  Main theorems:
  * `getHead_without_invalid`
-/

----
-- Evicting Whole Subtrees
----

namespace Pharos.ForkChoice

open List

section

def DescendantClosed (blocks : HashMap Root BeaconBlock) (roots : List Root) : Prop :=
  ∀ child parent, parentOf blocks child = some parent → parent ∈ roots → child ∈ roots

variable {S : Type} {st : Store S} {rs : List Root}

theorem getAncestor_evict (hLinked : ParentLinked st.blocks)
    (hClosed : DescendantClosed st.blocks rs) {r : Root} (hStay : r ∉ rs)
    (slot : Slot) : getAncestor (st.evict rs) r slot = getAncestor st r slot := by
  refine getAncestor_evict_of hLinked (P := (· ∉ rs)) ?_ hStay
  intro r blk hr hBlk _
  refine ⟨hr, fun hMem => hr (hClosed r blk.parentRoot ?_ hMem)⟩
  rw [parentOf, hBlk]
  rfl

end

----
-- Blocks That Stay
----

section

variable {S : Type} [BeaconSpec S] {store : Store S} {roots : List Root}

theorem isViableLeaf_evict (hLinked : ParentLinked store.blocks)
    (hClosed : DescendantClosed store.blocks roots) {r : Root} (hStay : r ∉ roots) :
    isViableLeaf (store.evict roots) r = isViableLeaf store r := by
  have hCp : ∀ epoch, getCheckpointBlock (store.evict roots) r epoch =
      getCheckpointBlock store r epoch :=
    fun epoch => getAncestor_evict hLinked hClosed hStay _
  unfold isViableLeaf
  rw [getVotingSource_evict hStay, hCp]
  rfl

end

----
-- Invalid Subtrees
----

section

variable {S : Type}

def invalidSubtrees (store : Store S) : List Root :=
  store.blocks.keys.filter fun root =>
    (Forest.chain (parentOf store.blocks)
      (store.blocks.keys.length + 1) root).any fun ancestor =>
        ancestor ∈ store.blocks ∧ store.IsInvalid ancestor

variable {st : Store S}

section

variable (hLinked : ParentLinked st.blocks)
include hLinked

theorem mem_invalidSubtrees_iff {r : Root} :
    r ∈ invalidSubtrees st ↔ r ∈ st.blocks ∧ ∃ anc ∈ st.blocks,
      st.IsInvalid anc ∧ Forest.Ancestor (parentOf st.blocks) anc r := by
  rcases hLinked.exists_height with ⟨height, hRank, hBd⟩
  have hChain :
      ∀ anc, anc ∈ Forest.chain (parentOf st.blocks) (st.blocks.keys.length +
        1) r ↔ Forest.Ancestor (parentOf st.blocks) anc r :=
    fun anc => hRank.mem_chain_iff (Nat.lt_succ_of_le (hBd r))
  unfold invalidSubtrees
  rw [mem_filter, any_eq_true]
  simp only [hChain, decide_eq_true_iff]
  constructor
  · rintro ⟨hIn, anc, hAbove, hMem, hBad⟩
    exact ⟨hIn, anc, hMem, hBad, hAbove⟩
  · rintro ⟨hIn, anc, hMem, hBad, hAbove⟩
    exact ⟨hIn, anc, hAbove, hMem, hBad⟩

theorem descendantClosed_invalidSubtrees : DescendantClosed st.blocks (invalidSubtrees st) := by
  intro c par hPar hMem
  rw [mem_invalidSubtrees_iff hLinked] at hMem ⊢
  rcases hMem with ⟨_, anc, hIn, hBad, hAbove⟩
  exact ⟨mem_of_parentOf hPar, anc, hIn, hBad, hAbove.trans (Forest.Ancestor.of_parent hPar)⟩

theorem isInvalid_of_mem_invalidSubtrees {c par : Root}
    (hPar : parentOf st.blocks c = some par) (hIn : par ∈ st.blocks)
    (hStay : par ∉ invalidSubtrees st) (hMem : c ∈ invalidSubtrees st) :
    st.IsInvalid c := by
  rcases (mem_invalidSubtrees_iff hLinked).mp hMem with ⟨_, anc, hAnc, hBad, hAbove⟩
  rcases hAbove.eq_or_up hPar with hEq | hxs
  · rw [← hEq]
    exact hBad
  · exact absurd ((mem_invalidSubtrees_iff hLinked).mpr ⟨hIn, anc, hAnc, hBad, hxs⟩) hStay

theorem Reached.stays {base r : Root} (hBase : base ∉ invalidSubtrees st)
    (hAt : Reached st base r) : r ∉ invalidSubtrees st := by
  induction hAt with
  | base _ _ => exact hBase
  | child hPar hKid hOpen ih =>
    intro hMem
    exact hOpen (isInvalid_of_mem_invalidSubtrees hLinked hKid hPar.known ih hMem)

theorem reached_evict_iff {base r : Root} (hBase : base ∉ invalidSubtrees st) :
    Reached (st.evict (invalidSubtrees st)) base r ↔ Reached st base r := by
  constructor
  · intro hAt
    induction hAt with
    | base hIn hOpen =>
      exact .base (mem_blocks_evict_iff.mp hIn).2 (notInvalid_of_evict hOpen hBase)
    | child _ hKid hOpen ih =>
      rw [parentOf_evict_some_iff] at hKid
      exact .child ih hKid.2 (notInvalid_of_evict hOpen hKid.1)
  · intro hAt
    induction hAt with
    | base hIn hOpen =>
      exact .base (mem_blocks_evict_iff.mpr ⟨hBase, hIn⟩) (notInvalid_evict hOpen)
    | child hPar hKid hOpen ih =>
      have hStay := (Reached.child hPar hKid hOpen).stays hLinked hBase
      exact .child ih (parentOf_evict_some_iff.mpr ⟨hStay, hKid⟩) (notInvalid_evict hOpen)

end

end

----
-- Choices without Invalid Blocks
----

section

variable {S : Type} [BeaconSpec S]

variable (store : Store S)

def withoutInvalid : Store S :=
  store.evict (invalidSubtrees store)

/-
  A block leads, through blocks that are not `Invalid`, to a block that passes the test of a leaf
  and has no other children than `Invalid` ones.
-/
inductive ViableAfter (store : Store S) : Root → Prop where
  | leaf {root : Root} (hKnown : root ∈ store.blocks) (hOpen : ¬store.IsInvalid root)
      (hLeaf : ∀ child ∈ childrenIndex store.blocks root, store.IsInvalid child)
      (hViable : isViableLeaf store root) :
      ViableAfter store root
  | branch {root child : Root} (hKnown : root ∈ store.blocks) (hOpen : ¬store.IsInvalid root)
      (hChild : parentOf store.blocks child = some root)
      (hViable : ViableAfter store child) :
      ViableAfter store root

theorem ViableAfter.notInvalid {store : Store S} {r : Root} (hViable : ViableAfter store r) :
    ¬store.IsInvalid r := by
  cases hViable with
  | leaf _ hOpen _ _ | branch _ hOpen _ _ => exact hOpen

/- A vote for a block counts, and is not for an `Invalid` block or a descendant of one. -/
def countsAfter (root : Root) (index : ValidatorIndex) : Bool :=
  votesFor store root index &&
    (store.latestMessages.lookup index).all fun message =>
      message.root ∉ invalidSubtrees store

/- The boost is for a block or a descendant, and not for an `Invalid` block or a descendant. -/
def BoostedAfter (root : Root) : Prop :=
  store.proposerBoostRoot ≠ defaultRoot ∧ store.proposerBoostRoot ∉ invalidSubtrees store ∧
    getAncestor store store.proposerBoostRoot (blockSlotOrZero store root) = root

instance (store : Store S) (root : Root) : Decidable (BoostedAfter store root) :=
  inferInstanceAs (Decidable (_ ∧ _ ∧ _))

def weightAfter (root : Root) : Gwei :=
  match justifiedState store with
  | none => 0
  | some state =>
    let voters := ((activeIndicesForJustified store).filter (isUnslashed state)).filter
      (countsAfter store root)
    Word.wrapAdd (Word.wrapSum (voters.map (effectiveBalanceOf state)))
      (if BoostedAfter store root then computeProposerScore state else 0)

/- The heaviest of the children that are viable. -/
def Chosen (viable : Root → Prop) (weight : Root → Gwei) (parent child : Root) : Prop :=
  (parentOf store.blocks child = some parent ∧ viable child) ∧
    ∀ other, parentOf store.blocks other = some parent → viable other →
      toLex (weight other, other) ≤ toLex (weight child, child)

/- The blocks that the search passes. -/
inductive OnDescent (store : Store S) : Root → Prop where
  | base (hBase : Reached store (effectiveBase store) (effectiveBase store)) :
      OnDescent store (effectiveBase store)
  | child {parent child : Root} (hParent : OnDescent store parent)
      (hChild : Chosen store (Viable store) (getWeight store) parent child) :
      OnDescent store child

/- At every block that the search passes, the choice is the one without the invalid blocks. -/
def ChoicesKept : Prop :=
  ∀ parent, OnDescent store parent → ∀ child,
    Chosen store (ViableAfter store) (weightAfter store) parent child ↔
      Chosen store (Viable store) (getWeight store) parent child

/- There is another child of the same parent that the search could go on with. -/
def Contested (child : Root) : Prop :=
  ∃ parent other, Reached store (effectiveBase store) parent ∧
    parentOf store.blocks child = some parent ∧ Viable store child ∧
    parentOf store.blocks other = some parent ∧ Viable store other ∧ other ≠ child

/-
  The invalid blocks decide nothing: no block below the base that becomes a leaf without them is
  viable, and neither a vote that counts for a contested block nor its boost is for one of them or a
  descendant.
-/
structure PruningSafe : Prop where
  leaves : ∀ root, Reached store (effectiveBase store) root → childrenIndex store.blocks root ≠ [] →
    (∀ child ∈ childrenIndex store.blocks root, store.IsInvalid child) →
    isViableLeaf store root = false
  votes : ∀ child, Contested store child → ∀ state, justifiedState store = some state →
    ∀ index ∈ activeIndicesForJustified store, isUnslashed state index = true →
      votesFor store child index = true → countsAfter store child index = true
  boost : ∀ child, Contested store child → store.proposerBoostRoot ≠ defaultRoot →
    getAncestor store store.proposerBoostRoot (blockSlotOrZero store child) = child →
    store.proposerBoostRoot ∉ invalidSubtrees store

----
-- The Store without Invalid Blocks
----

variable {store : Store S}

theorem nextHead_iff_chosen (hLinked : ParentLinked store.blocks) {head c : Root}
    (hAt : Reached store (effectiveBase store) head) :
    nextHead store head = some c ↔ Chosen store (Viable store) (getWeight store) head c :=
  nextHead_some_iff hLinked hAt

variable (hLinked : ParentLinked store.blocks)
include hLinked

section

variable {r : Root} (hStay : r ∉ invalidSubtrees store)
include hStay

omit [BeaconSpec S] in
theorem votesFor_withoutInvalid (i : ValidatorIndex) :
    votesFor (withoutInvalid store) r i = countsAfter store r i := by
  have hLookup : (withoutInvalid store).latestMessages.lookup i =
      (store.latestMessages.lookup i).filter (fun msg => msg.root ∉ invalidSubtrees store) :=
    HashTable.lookup_retain _ _ _
  have hEquiv : (withoutInvalid store).equivocatingIndices = store.equivocatingIndices := rfl
  have hSlot : blockSlotOrZero (withoutInvalid store) r = blockSlotOrZero store r :=
    blockSlotOrZero_evict hStay
  unfold countsAfter votesFor
  rw [hSlot, hLookup, hEquiv]
  cases store.latestMessages.lookup i with
  | none => simp
  | some msg =>
    by_cases hMsg : msg.root ∈ invalidSubtrees store
    · simp [Option.filter, hMsg]
    · have hWalk := getAncestor_evict hLinked (descendantClosed_invalidSubtrees hLinked) hMsg
        (blockSlotOrZero store r)
      simp [Option.filter, hMsg, withoutInvalid, hWalk]

omit [BeaconSpec S] in
theorem boosted_withoutInvalid_iff :
    store.proposerBoostRoot ≠ defaultRoot ∧ getAncestor (withoutInvalid store)
        store.proposerBoostRoot (blockSlotOrZero store r) = r ↔ BoostedAfter store r := by
  refine and_congr_right fun _ => ?_
  by_cases hBoost : store.proposerBoostRoot ∈ invalidSubtrees store
  · -- The walk from a deleted block ends there.
    have hStillLinked : ParentLinked (withoutInvalid store).blocks := parentLinked_evict hLinked
    have hGone : (withoutInvalid store).blocks.lookup store.proposerBoostRoot = none :=
      (lookup_blocks_evict _).trans (if_pos hBoost)
    have hWalk : getAncestor (withoutInvalid store) store.proposerBoostRoot
        (blockSlotOrZero store r) = store.proposerBoostRoot := by
      rw [getAncestor_eq hStillLinked, hGone]
    rw [hWalk]
    refine iff_of_false ?_ fun hBoth => hBoth.1 hBoost
    rintro rfl
    exact hStay hBoost
  · rw [withoutInvalid, getAncestor_evict hLinked (descendantClosed_invalidSubtrees hLinked) hBoost]
    exact (and_iff_right hBoost).symm

theorem getWeight_withoutInvalid : getWeight (withoutInvalid store) r = weightAfter store r := by
  have hJust : justifiedState (withoutInvalid store) = justifiedState store := rfl
  have hActive : activeIndicesForJustified (withoutInvalid store) =
      activeIndicesForJustified store := rfl
  have hBoostRoot : (withoutInvalid store).proposerBoostRoot = store.proposerBoostRoot := rfl
  have hSlot : blockSlotOrZero (withoutInvalid store) r = blockSlotOrZero store r :=
    blockSlotOrZero_evict hStay
  have hVotes : votesFor (withoutInvalid store) r = countsAfter store r :=
    funext (votesFor_withoutInvalid hLinked hStay)
  have hBoosted := boosted_withoutInvalid_iff hLinked hStay
  unfold getWeight getWeightWith weightAfter
  rw [hJust, hActive, hBoostRoot, hSlot]
  cases hs : justifiedState store with
  | none => rfl
  | some s =>
    unfold getAttestationScore attestingBalances getProposerScore
    rw [hVotes, hJust, hs]
    dsimp only
    by_cases hDefault : store.proposerBoostRoot = defaultRoot
    · rw [if_pos hDefault, if_neg fun hBoth : BoostedAfter store r => hBoth.1 hDefault]
      exact (Word.wrapAdd_wrapSum_zero _).symm
    · rw [if_neg hDefault]
      congr 1
      refine if_congr ?_ rfl rfl
      exact (and_iff_right hDefault).symm.trans hBoosted

end

variable (hBase : effectiveBase store ∉ invalidSubtrees store)
include hBase

theorem viable_withoutInvalid_iff {r : Root} (hAt : Reached store (effectiveBase store) r) :
    Viable (withoutInvalid store) r ↔ ViableAfter store r := by
  have hClosed := descendantClosed_invalidSubtrees hLinked
  constructor
  · intro hViable
    induction hViable with
    | @leaf r hIn _ hLeaf hTest =>
      have hStay := hAt.stays hLinked hBase
      refine .leaf hAt.known hAt.notInvalid ?_
        ((isViableLeaf_evict hLinked hClosed hStay).symm.trans hTest)
      intro c hKid
      have hPar := mem_childrenIndex_iff.mp hKid
      refine isInvalid_of_mem_invalidSubtrees hLinked hPar hAt.known hStay ?_
      by_contra hChildStays
      have hStill : c ∈ childrenIndex (withoutInvalid store).blocks r :=
        mem_childrenIndex_iff.mpr (parentOf_evict_some_iff.mpr ⟨hChildStays, hPar⟩)
      rw [hLeaf] at hStill
      exact absurd hStill not_mem_nil
    | @branch r c _ _ hKid hViable ih =>
      have hLink := parentOf_evict_some_iff.mp hKid
      have hOpen := notInvalid_of_evict hViable.notInvalid hLink.1
      exact .branch hAt.known hAt.notInvalid hLink.2 (ih (.child hAt hLink.2 hOpen))
  · intro hViable
    induction hViable with
    | @leaf r hIn hOpen hLeaf hTest =>
      have hStay := hAt.stays hLinked hBase
      refine .leaf (mem_blocks_evict_iff.mpr ⟨hStay, hIn⟩) (notInvalid_evict hOpen) ?_ ?_
      · refine eq_nil_iff_forall_not_mem.mpr ?_
        intro c hKid
        have hLink := parentOf_evict_some_iff.mp (mem_childrenIndex_iff.mp hKid)
        have hBad := hLeaf c (mem_childrenIndex_iff.mpr hLink.2)
        exact hLink.1 ((mem_invalidSubtrees_iff hLinked).mpr
          ⟨mem_of_parentOf hLink.2, c, mem_of_parentOf hLink.2, hBad, .refl c⟩)
      · exact (isViableLeaf_evict hLinked hClosed hStay).trans hTest
    | @branch r c hIn hOpen hKid hViable ih =>
      have hStay := hAt.stays hLinked hBase
      have hBelow : Reached store (effectiveBase store) c :=
        .child hAt hKid hViable.notInvalid
      exact .branch (mem_blocks_evict_iff.mpr ⟨hStay, hIn⟩) (notInvalid_evict hOpen)
        (parentOf_evict_some_iff.mpr ⟨hBelow.stays hLinked hBase, hKid⟩) (ih hBelow)

theorem viable_child_withoutInvalid_iff {head c : Root}
    (hAt : Reached store (effectiveBase store) head) :
    (parentOf (withoutInvalid store).blocks c = some head ∧ Viable (withoutInvalid store) c) ↔
      parentOf store.blocks c = some head ∧ ViableAfter store c := by
  constructor
  · rintro ⟨hLink, hViable⟩
    have hBoth := parentOf_evict_some_iff.mp hLink
    have hOpen := notInvalid_of_evict hViable.notInvalid hBoth.1
    exact ⟨hBoth.2, (viable_withoutInvalid_iff hLinked hBase (.child hAt hBoth.2 hOpen)).mp hViable⟩
  · rintro ⟨hLink, hViable⟩
    have hBelow : Reached store (effectiveBase store) c :=
      .child hAt hLink hViable.notInvalid
    exact ⟨parentOf_evict_some_iff.mpr ⟨hBelow.stays hLinked hBase, hLink⟩,
        (viable_withoutInvalid_iff hLinked hBase hBelow).mpr hViable⟩

/- One step of the search in the store without the invalid blocks. -/
theorem nextHead_withoutInvalid_iff {head c : Root}
    (hAt : Reached store (effectiveBase store) head) :
    nextHead (withoutInvalid store) head = some c ↔
      Chosen store (ViableAfter store) (weightAfter store) head c := by
  have hStill : Reached (withoutInvalid store) (effectiveBase (withoutInvalid store)) head := by
    rw [withoutInvalid, effectiveBase_evict hBase]
    exact (reached_evict_iff hLinked hBase).mpr hAt
  have hWeight : ∀ x, parentOf store.blocks x = some head → ViableAfter store x →
      getWeight (withoutInvalid store) x = weightAfter store x := by
    intro x hLink hViable
    exact getWeight_withoutInvalid hLinked
      ((Reached.child hAt hLink hViable.notInvalid).stays hLinked hBase)
  have hStillLinked : ParentLinked (withoutInvalid store).blocks := parentLinked_evict hLinked
  rw [nextHead_some_iff hStillLinked hStill, viable_child_withoutInvalid_iff hLinked hBase hAt]
  refine and_congr_right fun hKid => forall_congr' fun x => ?_
  rw [← and_imp, viable_child_withoutInvalid_iff hLinked hBase hAt, and_imp, hWeight c hKid.1 hKid.2]
  refine forall_congr' fun hLink => forall_congr' fun hViable => ?_
  rw [hWeight x hLink hViable]

----
-- The Head without Invalid Blocks
----

omit [BeaconSpec S] hLinked hBase in
theorem Reached.ancestor_base {base r : Root} (hAt : Reached store base r) :
    Forest.Ancestor (parentOf store.blocks) base r := by
  induction hAt with
  | base _ _ => exact .refl _
  | child _ hKid _ ih => exact ih.trans (Forest.Ancestor.of_parent hKid)

omit hLinked hBase in
theorem OnDescent.reached {r : Root} (hOn : OnDescent store r) :
    Reached store (effectiveBase store) r := by
  induction hOn with
  | base hBase => exact hBase
  | child _ hKid ih => exact .child ih hKid.1.1 hKid.1.2.notInvalid

omit hBase in
theorem onDescent_iff {r : Root} : OnDescent store r ↔
    Reached store (effectiveBase store) (effectiveBase store) ∧
      Forest.Reaches (nextHead store) (effectiveBase store) r := by
  constructor
  · intro hOn
    induction hOn with
    | base hOpen => exact ⟨hOpen, .refl⟩
    | child hPar hKid ih =>
      exact ⟨ih.1, ih.2.tail ((nextHead_iff_chosen hLinked hPar.reached).mpr hKid)⟩
  · rintro ⟨hOpen, hPath⟩
    induction hPath with
    | refl => exact .base hOpen
    | tail _ hStep ih =>
      exact .child ih ((nextHead_iff_chosen hLinked ih.reached).mp hStep)

theorem choicesKept_iff : ChoicesKept store ↔
    ∀ head, OnDescent store head → nextHead store head = nextHead (withoutInvalid store) head := by
  refine forall_congr' fun head => forall_congr' fun hOn => ?_
  have hAt := hOn.reached
  rw [Option.ext_iff]
  refine forall_congr' fun c => ?_
  rw [nextHead_iff_chosen hLinked hAt, nextHead_withoutInvalid_iff hLinked hBase hAt]
  exact Iff.comm

omit [BeaconSpec S] hBase in
theorem ancestor_withoutInvalid {r tip : Root} (hStay : tip ∉ invalidSubtrees store)
    (hAbove : Forest.Ancestor (parentOf store.blocks) r tip) :
    Forest.Ancestor (parentOf (withoutInvalid store).blocks) r tip := by
  induction hAbove using Relation.ReflTransGen.head_induction_on with
  | refl => exact .refl _
  | @head c par hPar _ ih =>
    have hUp : par ∉ invalidSubtrees store := fun hMem =>
      hStay (descendantClosed_invalidSubtrees hLinked c par hPar hMem)
    exact .head (parentOf_evict_some_iff.mpr ⟨hStay, hPar⟩) (ih hUp)

/- The two searches go the same way if they end at the same block. -/
theorem nextHead_eq_of_getHead_eq (hEq : getHead (withoutInvalid store) = getHead store)
    {head : Root} (hOn : OnDescent store head) :
    nextHead store head = nextHead (withoutInvalid store) head := by
  have hStillLinked : ParentLinked (withoutInvalid store).blocks := parentLinked_evict hLinked
  have hSameBase : effectiveBase (withoutInvalid store) = effectiveBase store :=
    effectiveBase_evict hBase
  have hPath := ((onDescent_iff hLinked).mp hOn).2
  cases hNext : nextHead store head with
  | none =>
    have hHead : head = getHead store :=
      Forest.eq_of_stops hPath hNext (Forest.follow_reaches _ _) (nextHead_getHead hLinked)
    rw [hHead, ← hEq]
    exact (nextHead_getHead hStillLinked).symm
  | some c =>
    have hKid := (parentOf_of_nextHead hLinked hNext).1
    have hEnd : OnDescent store (getHead store) := (onDescent_iff hLinked).mpr
      ⟨((onDescent_iff hLinked).mp hOn).1, Forest.follow_reaches _ _⟩
    have hTip := hEnd.reached.stays hLinked hBase
    have hOver := hOn.reached.ancestor_base
    -- The child is above the head in both stores, and so the other search passes it too.
    have hBelow : Forest.Ancestor (parentOf store.blocks) (effectiveBase store) c :=
      hOver.trans (Forest.Ancestor.of_parent hKid)
    have hAbove := (ancestor_getHead_iff hLinked hBelow).mpr (hPath.tail hNext)
    have hStays := (parentOf_of_nextHead hLinked hNext).2.1.stays hLinked hBase
    have hPasses : Forest.Reaches (nextHead (withoutInvalid store)) (effectiveBase store) c := by
      rw [← hSameBase]
      apply (ancestor_getHead_iff hStillLinked ?_).mp
      · rw [hEq]
        exact ancestor_withoutInvalid hLinked hTip hAbove
      · rw [hSameBase]
        exact ancestor_withoutInvalid hLinked hStays hBelow
    rcases Relation.ReflTransGen.cases_tail hPasses with hTop | ⟨par, _, hStep⟩
    · rcases hLinked with ⟨rank, hRank⟩
      have hUp := hRank c head hKid
      rw [hTop] at hUp
      exact absurd (hRank.le_of_ancestor hOver) (not_le.mpr hUp)
    · have hLink := (parentOf_evict_some_iff.mp (parentOf_of_nextHead hStillLinked hStep).1).2
      rw [← hStep, Option.some.inj (hLink.symm.trans hKid)]

theorem getHead_eq_of_choicesKept (hKept : ChoicesKept store) :
    getHead (withoutInvalid store) = getHead store := by
  have hStillLinked : ParentLinked (withoutInvalid store).blocks := parentLinked_evict hLinked
  have hSameBase : effectiveBase (withoutInvalid store) = effectiveBase store :=
    effectiveBase_evict hBase
  have hAgree : ∀ head, Forest.Reaches (nextHead store) (effectiveBase store) head →
      nextHead store head = nextHead (withoutInvalid store) head := by
    intro head hDescent
    by_cases hOpen : Reached store (effectiveBase store) (effectiveBase store)
    · exact (choicesKept_iff hLinked hBase).mp hKept head
        ((onDescent_iff hLinked).mpr ⟨hOpen, hDescent⟩)
    · have hStillClosed : ¬Reached (withoutInvalid store) (effectiveBase (withoutInvalid store))
          (effectiveBase (withoutInvalid store)) := by
        rw [hSameBase]
        intro hStill
        exact hOpen ((reached_evict_iff hLinked hBase).mp hStill)
      rw [nextHead_of_not_reached hLinked hOpen, nextHead_of_not_reached hStillLinked hStillClosed]
  apply getHead_eq_of_nextHead hLinked hStillLinked
  · rw [hSameBase]
  · rw [hSameBase]
    exact hAgree

----
-- Invalid Blocks That Decide Nothing
----

omit hLinked hBase

namespace PruningSafe

variable (hSafe : PruningSafe store)
include hSafe

theorem viableAfter_iff {r : Root} (hAt : Reached store (effectiveBase store) r) :
    ViableAfter store r ↔ Viable store r := by
  constructor
  · intro hViable
    induction hViable with
    | @leaf r hIn hOpen hLeaf hTest =>
      by_cases hNone : childrenIndex store.blocks r = []
      · exact .leaf hIn hOpen hNone hTest
      · exact absurd hTest (by simp [hSafe.leaves r hAt hNone hLeaf])
    | branch hIn hOpen hKid hViable ih =>
      exact .branch hIn hOpen hKid (ih (.child hAt hKid hViable.notInvalid))
  · intro hViable
    clear hAt
    induction hViable with
    | leaf hIn hOpen hLeaf hTest => exact .leaf hIn hOpen (by simp [hLeaf]) hTest
    | branch hIn hOpen hKid _ ih => exact .branch hIn hOpen hKid ih

theorem weightAfter_eq {c : Root} (hContested : Contested store c) :
    weightAfter store c = getWeight store c := by
  unfold weightAfter getWeight getWeightWith getAttestationScore attestingBalances getProposerScore
  cases hs : justifiedState store with
  | none => rfl
  | some s =>
    have hVoters : ((activeIndicesForJustified store).filter (isUnslashed s)).filter
        (countsAfter store c) = ((activeIndicesForJustified store).filter
        (isUnslashed s)).filter (votesFor store c) := by
      refine filter_congr fun i hIdx => ?_
      rw [mem_filter] at hIdx
      refine Bool.eq_iff_iff.mpr ⟨?_, hSafe.votes c hContested s hs i hIdx.1 hIdx.2⟩
      intro hCounts
      exact (Bool.and_eq_true_iff.mp hCounts).1
    dsimp only
    rw [hVoters]
    by_cases hDefault : store.proposerBoostRoot = defaultRoot
    · rw [if_pos hDefault, if_neg fun hBoth : BoostedAfter store c => hBoth.1 hDefault]
      exact Word.wrapAdd_wrapSum_zero _
    · rw [if_neg hDefault]
      congr 1
      refine if_congr ⟨fun hBoth => hBoth.2.2, fun hWalk => ?_⟩ rfl rfl
      exact ⟨hDefault, hSafe.boost c hContested hDefault hWalk, hWalk⟩

theorem choicesKept : ChoicesKept store := by
  intro par hOn c
  have hAt := hOn.reached
  have hViable : ∀ x, parentOf store.blocks x = some par ∧ ViableAfter store x ↔
      parentOf store.blocks x = some par ∧ Viable store x := by
    intro x
    refine and_congr_right fun hLink => ⟨fun hAfter => ?_, fun hNow => ?_⟩
    · exact (hSafe.viableAfter_iff (.child hAt hLink hAfter.notInvalid)).mp hAfter
    · exact (hSafe.viableAfter_iff (.child hAt hLink hNow.notInvalid)).mpr hNow
  unfold Chosen
  rw [hViable]
  refine and_congr_right fun hKid => forall_congr' fun x => ?_
  rw [← and_imp, ← and_imp, hViable]
  refine forall_congr' fun hRival => ?_
  by_cases hSame : x = c
  · rw [hSame]
    exact iff_of_true (le_refl _) (le_refl _)
  · rw [hSafe.weightAfter_eq ⟨par, x, hAt, hKid.1, hKid.2, hRival.1, hRival.2, hSame⟩,
      hSafe.weightAfter_eq
        ⟨par, c, hAt, hRival.1, hRival.2, hKid.1, hKid.2, fun hEq => hSame hEq.symm⟩]

end PruningSafe

end

----
-- Invalid Blocks That Move the Head
----

open Sample

def storeWith (blocks : List BeaconBlock) (invalid : List Root) : Store Sample.ChainState :=
  let start := getForkchoiceStore anchorState anchorBlock
  let grown := blocks.foldl
    (fun store block =>
      insertBlock store block (postState anchorState block))
    start
  invalid.foldl (fun store root => store.markPayloadStatus root .invalid) grown

def openBlock : BeaconBlock :=
  child anchorRoot 1 1 []

def openRoot : Root :=
  treeHashRoot openBlock

def rivalBlock : BeaconBlock :=
  child anchorRoot 1 2 []

def rivalRoot : Root :=
  treeHashRoot rivalBlock

def invalidBlock : BeaconBlock :=
  child openRoot 2 1 []

def invalidRoot : Root :=
  treeHashRoot invalidBlock

def siblingBlock : BeaconBlock :=
  child openRoot 2 2 []

def onlyChildInvalid : Store Sample.ChainState :=
  storeWith [openBlock, invalidBlock] [invalidRoot]

def votesForInvalid : Store Sample.ChainState :=
  { storeWith [openBlock, rivalBlock, invalidBlock, siblingBlock] [invalidRoot] with
    latestMessages :=
      ((AList.singleton 0 ⟨0, invalidRoot⟩ :
        HashMap ValidatorIndex LatestMessage).insert 1 ⟨0, invalidRoot⟩).insert 2 ⟨0, rivalRoot⟩ }

theorem parentLinked_of_parentRoot_lt {blks : HashMap Root BeaconBlock}
    (hAbove : ∀ e ∈ blks.entries, e.2.parentRoot < e.1) : ParentLinked blks := by
  refine ⟨id, ?_⟩
  intro c par hPar
  rcases parentOf_some_iff.mp hPar with ⟨blk, hBlk, hUp⟩
  rw [← hUp]
  exact hAbove ⟨c, blk⟩ (AList.mem_lookup_iff.mp hBlk)

end Pharos.ForkChoice
