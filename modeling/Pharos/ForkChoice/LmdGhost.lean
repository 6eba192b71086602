import Pharos.Lib.Descent
import Pharos.Lib.Slices
import Pharos.Sample

/-
  This file verifies the search for the head against the specification of LMD-GHOST.

  The search is given as it runs: it indexes the children of all blocks in one pass, filters along
  that index, indexes what is left, and remembers the weights it computed. The specification speaks
  of the tree only: a block is weighed by the validators that vote for one of its descendants, and
  the head is where the descent to the heaviest child ends.

  Main theorems:
  * `getHead_refines_lmdGhost`
-/

----
-- Search
----

namespace Pharos.ForkChoice.HeadSearch

open HashTable

section

open BeaconSpec

variable {S : Type} [BeaconSpec S]

/- An order in which the entries of a block map come. -/
structure IterationOrder where
  iter : HashMap Root BeaconBlock → List (Sigma fun _ : Root => BeaconBlock)
  perm : ∀ blocks, (iter blocks).Perm blocks.entries

def childrenIndex (order : IterationOrder) (blocks : HashMap Root BeaconBlock) :
    HashMap Root (List Root) :=
  group ((order.iter blocks).map fun entry =>
    (entry.2.parentRoot, entry.1))

def childrenOf (childrenIdx : HashMap Root (List Root)) (root : Root) : List Root :=
  (childrenIdx.lookup root).getD []

def filterBlockTree (store : Store S) (childrenIdx : HashMap Root (List Root)) :
    Nat → Root → HashMap Root BeaconBlock → Bool × HashMap Root BeaconBlock
| 0, _, blocks => (false, blocks)
| fuel + 1, blockRoot, blocks =>
  filterLevel store (filterBlockTree store childrenIdx fuel)
    (childrenOf childrenIdx blockRoot) blockRoot blocks

def getFilteredBlockTree (order : IterationOrder) (fuel : Nat) (store : Store S) :
    HashMap Root BeaconBlock :=
  (filterBlockTree store (childrenIndex order store.blocks) fuel (effectiveBase store) ∅).2

def weighChild (store : Store S) (activeIndices : List ValidatorIndex)
    (found : Option (Gwei × Root) × HashMap Root Gwei) (root : Root) :
    Option (Gwei × Root) × HashMap Root Gwei :=
  let weight := entryOr found.2 root (getWeightWith store root activeIndices)
  let best :=
    match found.1 with
    | none => (weight.1, root)
    | some best =>
      if toLex (weight.1, root) < toLex best then best else (weight.1, root)
  (some best, weight.2)

/-
  The descent. There is no answer when the fuel runs out, or when a list of children is found empty,
  where the source stops with a panic.
-/
def descend (store : Store S) (childrenIdx : HashMap Root (List Root))
    (activeIndices : List ValidatorIndex) : Nat → Root → HashMap Root Gwei → Option Root
| 0, _, _ => none
| fuel + 1, head, weights =>
  match childrenIdx.lookup head with
  | none => some head
  | some children =>
    let found := children.foldl (weighChild store activeIndices) (none, weights)
    match found.1 with
    | none => none
    | some best => descend store childrenIdx activeIndices fuel best.2 found.2

def getHead (order keptOrder : IterationOrder) (fuel : Nat) (store : Store S) : Option Root :=
  let blocks := getFilteredBlockTree order fuel store
  descend store (childrenIndex keptOrder blocks) (activeIndicesForJustified store) fuel
    (effectiveBase store) ∅

end

section

variable {order : IterationOrder} {blks : HashMap Root BeaconBlock}

theorem lookup_childrenIndex (r : Root) : (childrenIndex order blks).lookup r =
      if childrenOf (childrenIndex order blks) r = [] then none
      else some (childrenOf (childrenIndex order blks) r) := by
  unfold childrenOf childrenIndex
  rw [lookup_group]
  split
  · simp
  · rename_i hSome
    simp [hSome]

theorem mem_childrenOf_iff {r c : Root} :
    c ∈ childrenOf (childrenIndex order blks) r ↔ c ∈ ForkChoice.childrenIndex blks r := by
  have hItems : childrenOf (childrenIndex order blks) r =
      itemsOf ((order.iter blks).map fun e =>
            (e.2.parentRoot, e.1)) r := by
    unfold childrenOf childrenIndex
    rw [lookup_group]
    split
    · rename_i hNone
      rw [hNone]
      rfl
    · rfl
  rw [hItems, mem_itemsOf, mem_childrenIndex_iff, parentOf_some_iff, List.mem_map]
  constructor
  · rintro ⟨e, hRow, hPair⟩
    rw [Prod.mk.injEq] at hPair
    rw [(order.perm blks).mem_iff] at hRow
    refine ⟨e.2, ?_, hPair.1⟩
    rw [← hPair.2]
    exact AList.mem_lookup_iff.mpr hRow
  · rintro ⟨blk, hBlk, hPar⟩
    refine ⟨⟨c, blk⟩, ?_, by rw [← hPar]⟩
    rw [(order.perm blks).mem_iff]
    exact AList.mem_lookup_iff.mp hBlk

end

section

variable {S : Type} [BeaconSpec S] {st : Store S}

theorem lookup_filtered (hLinked : ParentLinked st.blocks) {fuel : Nat}
    (hFuel : st.blocks.keys.length < fuel) (order : IterationOrder) (r : Root) :
    (getFilteredBlockTree order fuel st).lookup r =
      (ForkChoice.getFilteredBlockTree st).lookup r := by
  rcases hLinked.exists_height with ⟨height, hRank, hBd⟩
  have hSpec : FilterSpec st (Viable st (effectiveBase st))
      (Kept st (effectiveBase st)) ∅ (filterBlockTree st (childrenIndex order st.blocks)
      fuel (effectiveBase st) ∅) := by
    apply filterSpec_of_levels (fun _ _ => mem_childrenOf_iff) (fun _ _ => rfl) hRank hBd
    omega
  have hx := filterSpec_filtered hLinked r
  by_cases hKept : Kept st (effectiveBase st) r
  · exact ((hSpec.2 r).1 hKept).trans (hx.1 hKept).symm
  · refine ((hSpec.2 r).2 hKept).trans ?_
    rw [hx.2 hKept]
    exact AList.lookup_empty r

end

----
-- Descent along the Index
----

open BeaconSpec

variable {S : Type} [BeaconSpec S] {store : Store S}

abbrev WeightsMemo (store : Store S) (weights : HashMap Root Gwei) : Prop :=
  HashTable.Memo weights (getWeight store)

/-
  The loop over the children, by induction from the right: what was found so far is the heaviest of
  them.
-/
theorem foldl_weighChild {weights : HashMap Root Gwei} (hMemo : WeightsMemo store weights)
    (cs : List Root) :
    (cs.foldl (weighChild store (activeIndicesForJustified store)) (none, weights)).1 =
        (heaviest store cs).map (fun r => (getWeight store r, r)) ∧
      WeightsMemo store (cs.foldl (weighChild store (activeIndicesForJustified store))
        (none, weights)).2 := by
  induction cs using List.reverseRecOn with
  | nil => exact ⟨rfl, hMemo⟩
  | append_singleton front last ih =>
    rcases ih with ⟨hBest, hTable⟩
    have hRow := hTable.entryOr last
    rw [List.foldl_append, List.foldl_cons, List.foldl_nil]
    refine ⟨?_, hRow.2⟩
    have hWeight : (entryOr (front.foldl (weighChild store
        (activeIndicesForJustified store)) (none, weights)).2 last
        (getWeightWith store last (activeIndicesForJustified store))).1 = getWeight store last :=
        hRow.1
    simp only [weighChild, hWeight, hBest]
    unfold heaviest
    rw [List.argmax_concat]
    cases hFront : front.argmax fun r =>
          toLex (getWeight store r, r) with
    | none => rfl
    | some best =>
      simp only [Option.map_some]
      rcases lt_trichotomy (toLex (getWeight store last, last))
          (toLex (getWeight store best, best)) with
        hLess | hEq | hMore
      · rw [if_pos hLess, if_neg (not_lt_of_gt hLess)]
        rfl
      · have hr : last = best := congrArg Prod.snd (toLex.injective hEq)
        subst hr
        rw [ite_self, ite_self]
        rfl
      · rw [if_neg (not_lt_of_gt hMore), if_pos hMore]
        rfl

theorem heaviest_congr {rs ys : List Root} (hEq : ∀ r, r ∈ rs ↔ r ∈ ys) :
    heaviest store rs = heaviest store ys := by
  refine Option.ext fun r => ?_
  rw [heaviest_some_iff, heaviest_some_iff]
  simp only [hEq]

/- With more fuel than the descent has steps, the loop answers where the step function leads. -/
theorem descend_eq_follow {childrenIdx : HashMap Root (List Root)} {next : Root → Option Root}
    {measure : Root → Nat}
    (hIdx :
      ∀ r, childrenIdx.lookup r = if childrenOf childrenIdx r = [] then none
        else some (childrenOf childrenIdx r))
    (hNext : ∀ r, next r = heaviest store (childrenOf childrenIdx r))
    (hMeas : ∀ head c, next head = some c → measure c < measure head) {fuel : Nat}
    {head : Root} (hFuel : measure head < fuel) {weights : HashMap Root Gwei}
    (hMemo : WeightsMemo store weights) :
    descend store childrenIdx (activeIndicesForJustified store) fuel head weights =
      some (Forest.follow next fuel head) := by
  induction fuel generalizing head weights with
  | zero => omega
  | succ fuel ih =>
    rw [descend, Forest.follow, hIdx, hNext head]
    by_cases hLeaf : childrenOf childrenIdx head = []
    · rw [if_pos hLeaf, hLeaf]
      rfl
    · rw [if_neg hLeaf]
      rcases foldl_weighChild hMemo (childrenOf childrenIdx head) with ⟨hBest, hTable⟩
      dsimp only
      rw [hBest]
      cases hKid : heaviest store (childrenOf childrenIdx head) with
      | none => exact absurd (List.argmax_eq_none.mp hKid) hLeaf
      | some c =>
        have hDown := hMeas head c ((hNext head).trans hKid)
        have hLeft : measure c < fuel := by omega
        exact ih hLeft hTable

theorem getHead_eq (hLinked : ParentLinked store.blocks) {fuel : Nat}
    (hFuel : store.blocks.keys.length < fuel) (order keptOrder : IterationOrder) :
    getHead order keptOrder fuel store = some (ForkChoice.getHead store) := by
  rcases exists_descent_measure hLinked with ⟨measure, hMeas, hBd⟩
  have hNext : ∀ r, nextHead store r = heaviest store (childrenOf
      (childrenIndex keptOrder (getFilteredBlockTree order fuel store)) r) := by
    intro r
    apply heaviest_congr
    intro c
    rw [mem_childrenOf_iff, mem_childrenIndex_iff, mem_childrenIndex_iff, parentOf, parentOf,
      lookup_filtered hLinked hFuel]
  have hBase := hBd (effectiveBase store)
  unfold getHead
  rw [descend_eq_follow lookup_childrenIndex hNext hMeas (lt_of_le_of_lt hBase hFuel)
    (HashTable.Memo.empty _), getHead_eq_follow]
  congr 1
  apply Forest.follow_eq_of_stops
  · exact Forest.follow_stops hMeas (hBase.trans hFuel.le)
  · exact Forest.follow_stops hMeas hBase

end Pharos.ForkChoice.HeadSearch

namespace Pharos.ForkChoice

section

open BeaconSpec

variable {S : Type} [BeaconSpec S] {st : Store S}

omit [BeaconSpec S] in
theorem getAncestor_eq_iff (hSlots : SlotsIncrease st.blocks) {r tip : Root}
    {blk : BeaconBlock} (hBlk : st.blocks.lookup r = some blk) :
    getAncestor st tip blk.slot = r ↔ Forest.Ancestor (parentOf st.blocks) r tip := by
  constructor
  · intro hWalk
    rw [← hWalk]
    exact ancestor_getAncestor tip blk.slot
  · intro hAnc
    induction hAnc using Relation.ReflTransGen.head_induction_on with
    | refl =>
      rw [getAncestor_eq hSlots.parentLinked, hBlk]
      simp
    | @head tip up hPar hxs ih =>
      rcases parentOf_some_iff.mp hPar with ⟨tipBlock, hTip, rfl⟩
      -- The ranks of the two blocks are their slots and one.
      have hLess : slotRank st.blocks r < slotRank st.blocks tip :=
          lt_of_le_of_lt (hSlots.ranked.le_of_ancestor hxs) (hSlots.ranked tip _ hPar)
      unfold slotRank at hLess
      rw [hBlk, hTip] at hLess
      have hLater : tipBlock.slot > blk.slot := Nat.lt_of_succ_lt_succ hLess
      rw [getAncestor_eq hSlots.parentLinked, hTip]
      simp only [hLater, if_true]
      exact ih

end

----
-- Specification
----

section

open BeaconSpec

variable {S : Type} [BeaconSpec S]

open Classical in
/-
  The active and unslashed validators that do not equivocate and whose latest vote is for a
  descendant of the root.
-/
noncomputable def supporters (store : Store S) (state : S) (root : Root) :
    Finset ValidatorIndex :=
  {index ∈ (getActiveValidatorIndices state (getCurrentEpoch state)).toFinset |
    isUnslashed state index ∧ index ∉ store.equivocatingIndices ∧
      ∃ message, store.latestMessages.lookup index = some message ∧
        Forest.Ancestor (parentOf store.blocks) root message.root}

open Classical in
/-
  The balance of the supporters, and the boost if the block that has it is a descendant, as words of
  64 bits.
-/
noncomputable def ghostWeight (store : Store S) (root : Root) : Gwei :=
  match justifiedState store with
  | none => 0
  | some state =>
    (∑ index ∈ supporters store state root, effectiveBalanceOf state index +
      if store.proposerBoostRoot ≠ defaultRoot ∧
          Forest.Ancestor (parentOf store.blocks) root store.proposerBoostRoot then
        computeProposerScore state
      else
        0) % 2 ^ 64

def FilteredChild (store : Store S) (head child : Root) : Prop :=
  parentOf store.blocks child = some head ∧ Kept store store.justifiedCheckpoint.root child

noncomputable def ghostKey (store : Store S) (root : Root) : Gwei ×ₗ Root :=
  toLex (ghostWeight store root, root)

/- Where the descent from the justified block ends. -/
def IsGhostHead (store : Store S) (head : Root) : Prop :=
  Descent.EndsAt (FilteredChild store) (ghostKey store) store.justifiedCheckpoint.root head

----
-- Weights
----

theorem nodup_getActiveValidatorIndices (s : S) (epoch : Epoch) :
    (getActiveValidatorIndices s epoch).Nodup :=
  Slices.nodup_filterMap_zipIdx (validators s) (isActiveValidator · epoch)

variable {st : Store S} {r : Root}

section

variable (hSlots : SlotsIncrease st.blocks)
include hSlots

omit [BeaconSpec S] in
/- The votes that the walk counts are those of supporters. -/
theorem votesFor_iff {blk : BeaconBlock}
    (hBlk : st.blocks.lookup r = some blk) (i : ValidatorIndex) :
    votesFor st r i = true ↔ i ∉ st.equivocatingIndices ∧ ∃ msg,
      st.latestMessages.lookup i = some msg ∧
      Forest.Ancestor (parentOf st.blocks) r msg.root := by
  unfold votesFor blockSlotOrZero
  rw [hBlk, Bool.and_eq_true, decide_eq_true_iff]
  refine and_congr_right fun _ => ?_
  cases st.latestMessages.lookup i with
  | none => simp
  | some msg => simp [getAncestor_eq_iff hSlots hBlk]

theorem getAttestationScore_eq {blk : BeaconBlock}
    (hBlk : st.blocks.lookup r = some blk) (s : S) :
    getAttestationScore st r s (getActiveValidatorIndices s (getCurrentEpoch s)) =
      (∑ i ∈ supporters st s r, effectiveBalanceOf s i) % 2 ^ 64 := by
  classical
  have hVoters : supporters st s r =
      (((getActiveValidatorIndices s (getCurrentEpoch s)).filter
        (isUnslashed s)).filter (votesFor st r)).toFinset := by
    ext i
    rw [supporters, Finset.mem_filter]
    simp only [List.mem_toFinset, List.mem_filter, votesFor_iff hSlots hBlk, and_assoc]
  have hNodup := ((nodup_getActiveValidatorIndices s (getCurrentEpoch s)).filter
    (isUnslashed s)).filter (votesFor st r)
  rw [hVoters, List.sum_toFinset _ hNodup]
  rfl

theorem ghostWeight_eq (hIn : r ∈ st.blocks) :
    ghostWeight st r = getWeight st r := by
  rcases HashTable.mem_iff.mp hIn with ⟨blk, hBlk⟩
  unfold ghostWeight getWeight getWeightWith activeIndicesForJustified getProposerScore
  cases hs : justifiedState st with
  | none => rfl
  | some s =>
    dsimp only
    rw [← Nat.mod_add_mod, ← getAttestationScore_eq hSlots hBlk s, blockSlotOrZero, hBlk]
    by_cases hBoost : st.proposerBoostRoot = defaultRoot
    · simpa [hBoost, getAttestationScore] using Word.wrapSum_lt _
    · have hIff : getAncestor st st.proposerBoostRoot blk.slot = r ↔
              Forest.Ancestor (parentOf st.blocks) r st.proposerBoostRoot :=
        getAncestor_eq_iff hSlots hBlk
      by_cases hBoosted : Forest.Ancestor (parentOf st.blocks) r st.proposerBoostRoot
      · simp [hBoost, hBoosted, hIff.mpr hBoosted, Word.wrapAdd]
      · simp [hBoost, hBoosted, mt hIff.mp hBoosted, Word.wrapAdd]

end

end

----
-- Refinement
----

section

variable {S : Type} [BeaconSpec S] {store : Store S}

section

variable (hSlots : SlotsIncrease store.blocks)
include hSlots

theorem best_of_nextHead
    (hBase : effectiveBase store = store.justifiedCheckpoint.root) {head c : Root}
    (hNext : nextHead store head = some c) :
    Descent.Best (FilteredChild store) (ghostKey store) head c := by
  have hKid := parentOf_of_nextHead hSlots.parentLinked hNext
  rw [hBase] at hKid
  refine ⟨hKid, ?_⟩
  intro x hx
  unfold ghostKey
  rw [ghostWeight_eq hSlots hx.2.2.known, ghostWeight_eq hSlots hKid.2.2.known]
  apply (heaviest_some_iff.mp hNext).2
  rw [mem_childrenIndex_iff, parentOf_filtered hSlots.parentLinked, hBase]
  exact hx

theorem no_child_of_nextHead
    (hBase : effectiveBase store = store.justifiedCheckpoint.root) {head : Root}
    (hNext : nextHead store head = none) (c : Root) : ¬FilteredChild store head c := by
  intro hKid
  have hNil := List.argmax_eq_none.mp hNext
  have hMem : c ∈ childrenIndex (getFilteredBlockTree store) head := by
    rw [mem_childrenIndex_iff, parentOf_filtered hSlots.parentLinked, hBase]
    exact hKid
  rw [hNil] at hMem
  exact absurd hMem List.not_mem_nil

theorem isGhostHead_getHead
    (hJust : store.justifiedCheckpoint.root ∈ store.blocks) :
    IsGhostHead store (getHead store) := by
  have hBase : effectiveBase store = store.justifiedCheckpoint.root := by
    rw [effectiveBase, if_pos hJust]
  rcases exists_descent_measure hSlots.parentLinked with ⟨measure, hMeas, hBd⟩
  unfold IsGhostHead
  rw [getHead_eq_follow, ← hBase]
  apply Descent.endsAt_follow hMeas (hBd _)
  · intro head c _ hNext
    exact best_of_nextHead hSlots hBase hNext
  · intro head _ hNext
    exact no_child_of_nextHead hSlots hBase hNext

end

/-
  When slots increase along the links and the justified block is known, LMD-GHOST has exactly one
  head. The search finds it for all orders of iteration, with any amount of fuel above the number of
  blocks.
-/
theorem getHead_refines_lmdGhost (store : Store S) (hSlots : SlotsIncrease store.blocks)
    (hJustified : store.justifiedCheckpoint.root ∈ store.blocks) :
    ∃ head, IsGhostHead store head ∧ (∀ other, IsGhostHead store other → other = head) ∧
      ∀ (order keptOrder : HeadSearch.IterationOrder) (fuel : Nat),
      store.blocks.keys.length < fuel →
      HeadSearch.getHead order keptOrder fuel store = some head := by
  have hHead := isGhostHead_getHead hSlots hJustified
  refine ⟨getHead store, hHead, ?_, ?_⟩
  · intro other hx
    exact hx.unique (fun _ _ hEq => congrArg Prod.snd (toLex.injective hEq)) hHead
  · intro order keptOrder fuel hFuel
    exact HeadSearch.getHead_eq hSlots.parentLinked hFuel order keptOrder

end

open Sample

/-
  Two children of the anchor. The lower root has the votes of two validators, the higher root that
  of one.
-/
def forkedStore : Store ChainState :=
  let store := getForkchoiceStore anchorState anchorBlock
  let left := child anchorRoot 1 0 []
  let right := child anchorRoot 2 1 []
  let leftRoot := treeHashRoot left
  let rightRoot := treeHashRoot right
  { store with
    blocks := (store.blocks.insert leftRoot left).insert rightRoot right
    latestMessages :=
      ((AList.singleton 0 ⟨0, leftRoot⟩).insert 1 ⟨0, leftRoot⟩).insert 2 ⟨0, rightRoot⟩ }

example : getHead forkedStore = treeHashRoot (child anchorRoot 1 0 []) := by
  decide

theorem getHead_refines_lmdGhost_forkedStore :
    SlotsIncrease forkedStore.blocks ∧ forkedStore.justifiedCheckpoint.root ∈ forkedStore.blocks ∧
      ∃ head,
        IsGhostHead forkedStore head ∧ (∀ other, IsGhostHead forkedStore other → other = head) ∧
          ∀ (order keptOrder : HeadSearch.IterationOrder) (fuel : Nat),
            forkedStore.blocks.keys.length < fuel →
              HeadSearch.getHead order keptOrder fuel forkedStore = some head := by
  have hSlots : SlotsIncrease forkedStore.blocks := by decide
  have hJust : forkedStore.justifiedCheckpoint.root ∈ forkedStore.blocks := by
    decide
  exact ⟨hSlots, hJust, getHead_refines_lmdGhost forkedStore hSlots hJust⟩

end Pharos.ForkChoice
