import Mathlib.Data.List.MinMax
import Mathlib.Data.Prod.Lex
import Pharos.ForkChoice.Store

/-
  This file implements the choice of the head: ancestors, weights, the filter for viable branches
  and the descent to the heaviest leaf.

  Loops along parents and children carry the number of blocks as fuel. For parent-linked blocks that
  is enough, and the theorems here state what the loops then compute.
-/

----
-- Ancestors
----

namespace Pharos.ForkChoice

open List Forest

variable {S : Type} [BeaconSpec S]

section

open BeaconSpec

def ancestorStep (blocks : HashMap Root BeaconBlock) (slot : Slot) (root : Root) : Option Root :=
  match blocks.lookup root with
  | none => none
  | some block =>
    if block.slot > slot then some block.parentRoot else none

section

variable (store : Store S)

def getAncestor (root : Root) (slot : Slot) : Root :=
  follow (ancestorStep store.blocks slot) store.blocks.keys.length root

def getCheckpointBlock (root : Root) (epoch : Epoch) : Root :=
  getAncestor store root (computeStartSlotAtEpoch S epoch)

----
-- Weights
----

def proposerScoreBoost : Nat := 40

/- The state whose balances weigh the votes. -/
def justifiedState : Option S :=
  store.checkpointStates.lookup store.justifiedCheckpoint

def activeIndicesForJustified : List ValidatorIndex :=
  match justifiedState store with
  | none => []
  | some state => getActiveValidatorIndices state (getCurrentEpoch state)

def blockSlotOrZero (root : Root) : Slot :=
  ((store.blocks.lookup root).map BeaconBlock.slot).getD 0

def isUnslashed (state : S) (index : ValidatorIndex) : Bool :=
  match (validators state)[index]? with
  | none => false
  | some validator => !validator.slashed

def votesFor (root : Root) (index : ValidatorIndex) : Bool :=
  index ∉ store.equivocatingIndices &&
    match store.latestMessages.lookup index with
    | none => false
    | some message => getAncestor store message.root (blockSlotOrZero store root) = root

omit [BeaconSpec S] in
theorem not_votesFor_of_equivocating {st : Store S} {r : Root} {i : ValidatorIndex}
    (hEquiv : i ∈ st.equivocatingIndices) : votesFor st r i = false := by
  simp [votesFor, hEquiv]

def effectiveBalanceOf (state : S) (index : ValidatorIndex) : Gwei :=
  ((validators state)[index]?.map Validator.effectiveBalance).getD 0

/- The balances of the validators whose votes count for a root. -/
def attestingBalances (root : Root) (state : S) (activeIndices : List ValidatorIndex) : List Gwei :=
  let voters := (activeIndices.filter (isUnslashed state)).filter (votesFor store root)
  voters.map (effectiveBalanceOf state)

def getAttestationScore (root : Root) (state : S) (activeIndices : List ValidatorIndex) : Gwei :=
  Word.wrapSum (attestingBalances store root state activeIndices)

end

def computeProposerScore (state : S) : Gwei :=
  let committeeWeight := getTotalActiveBalance state / slotsPerEpoch S
  Word.wrapMul committeeWeight proposerScoreBoost / 100

theorem computeProposerScore_lt (s : S) : computeProposerScore s < 2 ^ 64 :=
  lt_of_le_of_lt (Nat.div_le_self _ _) (Word.wrapMul_lt _ _)

section

variable (store : Store S)

def getProposerScore : Gwei :=
  match justifiedState store with
  | none => 0
  | some state => computeProposerScore state

def getWeightWith (root : Root) (activeIndices : List ValidatorIndex) : Gwei :=
  match justifiedState store with
  | none => 0
  | some state =>
    let attestationScore := getAttestationScore store root state activeIndices
    if store.proposerBoostRoot = defaultRoot then
      attestationScore
    else
      let proposerScore :=
        if getAncestor store store.proposerBoostRoot (blockSlotOrZero store root) = root then
          getProposerScore store
        else
          0
      Word.wrapAdd attestationScore proposerScore

def getWeight (root : Root) : Gwei :=
  getWeightWith store root (activeIndicesForJustified store)

----
-- Viable Branches
----

def getVotingSource (blockRoot : Root) : Checkpoint :=
  match store.blocks.lookup blockRoot with
  | none => Checkpoint.default
  | some block =>
    let blockEpoch := computeEpochAtSlot S block.slot
    if getCurrentStoreEpoch store > blockEpoch then
      (store.unrealizedJustifications.lookup blockRoot).getD Checkpoint.default
    else
      ((store.blockStates.lookup blockRoot).map currentJustifiedCheckpoint).getD Checkpoint.default

def isViableLeaf (blockRoot : Root) : Bool :=
  let currentEpoch := getCurrentStoreEpoch store
  let votingSource := getVotingSource store blockRoot
  let correctJustified :=
    store.justifiedCheckpoint.epoch = genesisEpoch ∨
      votingSource.epoch = store.justifiedCheckpoint.epoch ∨
      votingSource.epoch + 2 ≥ currentEpoch
  let finalizedCheckpointBlock := getCheckpointBlock store blockRoot store.finalizedCheckpoint.epoch
  let correctFinalized :=
    store.finalizedCheckpoint.epoch = genesisEpoch ∨
      store.finalizedCheckpoint.root = finalizedCheckpointBlock
  correctJustified ∧ correctFinalized

/-
  Whether a block leads to a viable leaf; viable blocks are added to the map. Every child is
  visited, also after one was found viable.
-/
def filterLevel (visit : Root → HashMap Root BeaconBlock → Bool × HashMap Root BeaconBlock)
    (children : List Root) (blockRoot : Root) (blocks : HashMap Root BeaconBlock) :
    Bool × HashMap Root BeaconBlock :=
  match store.blocks.lookup blockRoot with
  | none => (false, blocks)
  | some block =>
    if store.IsInvalid blockRoot then
      (false, blocks)
    else if children ≠ [] then
      let visited := children.foldl
        (fun found child =>
          let result := visit child found.2
          (found.1 || result.1, result.2))
        (false, blocks)
      if visited.1 then (true, visited.2.insert blockRoot block) else (false, visited.2)
    else if isViableLeaf store blockRoot then
      (true, blocks.insert blockRoot block)
    else
      (false, blocks)

def filterBlockTree (store : Store S) :
    Nat → Root → HashMap Root BeaconBlock → Bool × HashMap Root BeaconBlock
| 0, _, blocks => (false, blocks)
| fuel + 1, blockRoot, blocks =>
  filterLevel store (filterBlockTree store fuel) (childrenIndex store.blocks blockRoot)
    blockRoot blocks

def effectiveBase : Root :=
  if store.justifiedCheckpoint.root ∈ store.blocks then
    store.justifiedCheckpoint.root
  else
    store.finalizedCheckpoint.root

def getFilteredBlockTree : HashMap Root BeaconBlock :=
  (filterBlockTree store (store.blocks.keys.length + 1) (effectiveBase store) ∅).2

def heaviest (roots : List Root) : Option Root :=
  roots.argmax fun root => toLex (getWeight store root, root)

/- The heaviest leaf below the base. -/
def getHead : Root :=
  let blocks := getFilteredBlockTree store
  follow
    (fun head => heaviest store (childrenIndex blocks head))
    store.blocks.keys.length (effectiveBase store)

end

end

----
-- Ancestors of Parent-Linked Blocks
----

section

variable {S : Type} {st : Store S}

theorem parentOf_of_ancestorStep {blks : HashMap Root BeaconBlock} {slot : Slot}
    {r par : Root} (hStep : ancestorStep blks slot r = some par) :
    parentOf blks r = some par := by
  unfold ancestorStep at hStep
  split at hStep
  · cases hStep
  · rename_i blk hBlk
    split at hStep
    · rw [parentOf, hBlk]
      exact hStep
    · cases hStep

theorem getAncestor_eq (hLinked : ParentLinked st.blocks) (r : Root) (slot : Slot) :
    getAncestor st r slot =
      match st.blocks.lookup r with
      | none => r
      | some blk =>
        if blk.slot > slot then getAncestor st blk.parentRoot slot
        else r := by
  rcases hLinked.exists_height with ⟨height, hRank, hBd⟩
  have hMeas : ∀ node s', ancestorStep st.blocks slot node = some s' → height s' < height node := by
    intro node s' hStep
    exact hRank node s' (parentOf_of_ancestorStep hStep)
  unfold getAncestor
  rw [← follow_succ hMeas (hBd r), follow, ancestorStep]
  cases st.blocks.lookup r with
  | none => rfl
  | some blk =>
    by_cases hLater : blk.slot > slot
    · simp only [hLater, if_true]
    · simp only [hLater, if_false]

theorem ancestor_getAncestor (r : Root) (slot : Slot) :
    Ancestor (parentOf st.blocks) (getAncestor st r slot) r := by
  refine Relation.ReflTransGen.mono ?_ _ _ (follow_reaches _ r)
  intro node s' hStep
  exact parentOf_of_ancestorStep hStep

end

----
-- Paths without Invalid Blocks
----

section

variable {S : Type}

/- A block is reached from a base without passing an `Invalid` block. -/
inductive Reached (store : Store S) (base : Root) : Root → Prop where
  | base (hKnown : base ∈ store.blocks) (hOpen : ¬store.IsInvalid base) : Reached store base base
  | child {parent child : Root} (hParent : Reached store base parent)
      (hChild : parentOf store.blocks child = some parent)
      (hOpen : ¬store.IsInvalid child) :
      Reached store base child

variable {st : Store S}

namespace Reached

variable {base r : Root}

theorem known (hAt : Reached st base r) : r ∈ st.blocks := by
  cases hAt with
  | base hIn _ => exact hIn
  | child _ hKid _ => exact mem_of_parentOf hKid

theorem notInvalid (hAt : Reached st base r) : ¬st.IsInvalid r := by
  cases hAt with
  | base _ hOpen | child _ _ hOpen => exact hOpen

theorem base_reached (hAt : Reached st base r) : Reached st base base := by
  induction hAt with
  | base hIn hOpen => exact .base hIn hOpen
  | child _ _ _ ih => exact ih

theorem of_child {child : Root} (hBase : Reached st base base)
    (hKid : parentOf st.blocks child = some base) (hAt : Reached st child r) :
    Reached st base r := by
  induction hAt with
  | base _ hOpen => exact .child hBase hKid hOpen
  | child _ hStep hOpen ih => exact .child ih hStep hOpen

theorem cases_child (hAt : Reached st base r) :
    r = base ∨ ∃ child ∈ childrenIndex st.blocks base, Reached st child r := by
  induction hAt with
  | base _ _ => exact .inl rfl
  | @child par node _ hStep hOpen ih =>
    refine .inr ?_
    rcases ih with rfl | ⟨child, hKid, hAt⟩
    · exact ⟨node, mem_childrenIndex_iff.mpr hStep, .base (mem_of_parentOf hStep) hOpen⟩
    · exact ⟨child, hKid, .child hAt hStep hOpen⟩

end Reached

end

----
-- What the Filter Keeps
----

section

/- A block leads to a viable leaf through blocks that are not `Invalid`. -/
inductive Viable (store : Store S) : Root → Prop where
  | leaf {root : Root} (hKnown : root ∈ store.blocks) (hOpen : ¬store.IsInvalid root)
      (hLeaf : childrenIndex store.blocks root = [])
      (hViable : isViableLeaf store root) :
      Viable store root
  | branch {root child : Root} (hKnown : root ∈ store.blocks) (hOpen : ¬store.IsInvalid root)
      (hChild : parentOf store.blocks child = some root)
      (hViable : Viable store child) :
      Viable store root

variable {st : Store S}

namespace Viable

theorem known {r : Root} (hViable : Viable st r) : r ∈ st.blocks := by
  cases hViable with
  | leaf hIn _ _ _ | branch hIn _ _ _ => exact hIn

theorem notInvalid {r : Root} (hViable : Viable st r) : ¬st.IsInvalid r := by
  cases hViable with
  | leaf _ hOpen _ _ | branch _ hOpen _ _ => exact hOpen

end Viable

end

----
-- The Filtered Tree
----

section

/- The blocks that the filter keeps below a root. -/
def Kept (store : Store S) (root kept : Root) : Prop :=
  Reached store root kept ∧ Viable store kept

def FilterSpec (store : Store S) (viable : Prop) (kept : Root → Prop)
    (before : HashMap Root BeaconBlock) (result : Bool × HashMap Root BeaconBlock) : Prop :=
  (result.1 = true ↔ viable) ∧
    ∀ root, (kept root → result.2.lookup root = store.blocks.lookup root) ∧
      (¬kept root → result.2.lookup root = before.lookup root)

variable {store : Store S}
variable {visit : Root → HashMap Root BeaconBlock → Bool × HashMap Root BeaconBlock}
variable {children : List Root}

omit [BeaconSpec S] in
theorem filterSpec_foldl {viable : Root → Prop} {kept : Root → Root → Prop}
    (hVisit : ∀ child ∈ children, ∀ blks,
      FilterSpec store (viable child) (kept child) blks (visit child blks)) (y : Bool)
    (blks : HashMap Root BeaconBlock) :
    FilterSpec store (y = true ∨ ∃ child ∈ children, viable child)
      (fun r => ∃ child ∈ children, kept child r)
      blks
      (children.foldl
        (fun y child => (y.1 || (visit child y.2).1, (visit child y.2).2))
        (y, blks)) := by
  induction children generalizing y blks with
  | nil => exact ⟨by simp, fun r => by simp⟩
  | cons child xs ih =>
    have hKid := hVisit child mem_cons_self blks
    have hxs := ih (fun x hx =>
          hVisit x (mem_cons_of_mem _ hx))
        (y || (visit child blks).1)
        (visit child blks).2
    rw [foldl_cons]
    refine ⟨?_, fun r => ⟨?_, ?_⟩⟩
    · rw [hxs.1, Bool.or_eq_true, hKid.1]
      simp only [mem_cons, exists_eq_or_imp, or_assoc]
    · rintro ⟨x, hx, hKept⟩
      by_cases hLater : ∃ later ∈ xs, kept later r
      · exact (hxs.2 r).1 hLater
      · rw [(hxs.2 r).2 hLater]
        rcases mem_cons.mp hx with rfl | hThere
        · exact (hKid.2 r).1 hKept
        · exact absurd ⟨x, hThere, hKept⟩ hLater
    · intro hNone
      have hNotRest : ¬∃ later ∈ xs, kept later r := by
        rintro ⟨later, hLater, hKept⟩
        exact hNone ⟨later, mem_cons_of_mem _ hLater, hKept⟩
      rw [(hxs.2 r).2 hNotRest]
      refine (hKid.2 r).2 ?_
      intro hKept
      exact hNone ⟨child, mem_cons_self, hKept⟩

variable {root : Root}

theorem kept_iff {kept : Root} (hAt : Reached store root root) :
    Kept store root kept ↔ (kept = root ∧ Viable store root) ∨
      ∃ child ∈ childrenIndex store.blocks root, Kept store child kept := by
  constructor
  · rintro ⟨hPath, hViable⟩
    rcases hPath.cases_child with hHere | ⟨child, hKid, hBelow⟩
    · exact .inl ⟨hHere, hHere ▸ hViable⟩
    · exact .inr ⟨child, hKid, hBelow, hViable⟩
  · rintro (⟨rfl, hViable⟩ | ⟨child, hKid, hBelow, hViable⟩)
    · exact ⟨hAt, hViable⟩
    · exact ⟨.of_child hAt (mem_childrenIndex_iff.mp hKid) hBelow, hViable⟩

omit [BeaconSpec S] in
theorem filterSpec_insert {blk : BeaconBlock} {s s' : HashMap Root BeaconBlock}
    {viable : Prop} {keptBelow kept : Root → Prop}
    (hBlk : store.blocks.lookup root = some blk) (hViable : viable)
    (hKept : ∀ x, kept x ↔ (x = root ∧ viable) ∨ keptBelow x)
    (hPost : ∀ x, (keptBelow x → s'.lookup x = store.blocks.lookup x) ∧
      (¬keptBelow x → s'.lookup x = s.lookup x)) :
    FilterSpec store viable kept s (true, s'.insert root blk) := by
  refine ⟨by simp [hViable], fun x => ?_⟩
  by_cases hr : x = root
  · subst hr
    refine ⟨fun _ => ?_, fun hNot => ?_⟩
    · rw [AList.lookup_insert, hBlk]
    · exact absurd ((hKept x).mpr (.inl ⟨rfl, hViable⟩)) hNot
  · rw [AList.lookup_insert_ne hr, hKept]
    simpa [hr] using hPost x

def LevelViable (store : Store S) (children : List Root) (viable : Root → Prop) (root : Root) :
    Prop :=
  root ∈ store.blocks ∧ ¬store.IsInvalid root ∧
    ((children = [] ∧ isViableLeaf store root) ∨ ∃ child ∈ children, viable child)

def LevelKept (store : Store S) (children : List Root) (viable : Root → Prop)
    (kept : Root → Root → Prop) (root other : Root) : Prop :=
  root ∈ store.blocks ∧ ¬store.IsInvalid root ∧
    ((other = root ∧ LevelViable store children viable root) ∨ ∃ child ∈ children, kept child other)

/-
  One call of the filter: a block that is absent or `Invalid` keeps nothing, and a viable one is
  added to what its children keep.
-/
theorem filterSpec_filterLevel {viable : Root → Prop} {kept : Root → Root → Prop}
    (hVisit : ∀ child ∈ children, ∀ blks,
      FilterSpec store (viable child) (kept child) blks (visit child blks)) (root : Root)
    (blks : HashMap Root BeaconBlock) :
    FilterSpec store (LevelViable store children viable root)
      (LevelKept store children viable kept root) blks
      (filterLevel store visit children root blks) := by
  unfold filterLevel
  cases hBlk : store.blocks.lookup root with
  | none =>
    have hAbsent : root ∉ store.blocks := AList.lookup_eq_none.mp hBlk
    simp [FilterSpec, LevelViable, LevelKept, hAbsent]
  | some blk =>
    have hIn : root ∈ store.blocks := HashTable.mem_iff.mpr ⟨_, hBlk⟩
    dsimp only
    by_cases hBad : store.IsInvalid root
    · simp [FilterSpec, LevelViable, LevelKept, hBad]
    · rw [if_neg hBad]
      by_cases hLeaf : children = []
      · rw [if_neg (not_not.mpr hLeaf), hLeaf]
        by_cases hTest : isViableLeaf store root
        · rw [if_pos hTest]
          exact filterSpec_insert hBlk (by simp [LevelViable, hIn, hBad, hTest])
            (by simp [LevelKept, hIn, hBad]) (fun x => ⟨False.elim, fun _ => rfl⟩)
        · simp [FilterSpec, LevelViable, LevelKept, hTest]
      · rw [if_pos hLeaf]
        have hVisited := filterSpec_foldl hVisit false blks
        simp only [Bool.false_eq_true, false_or] at hVisited
        have hIff : LevelViable store children viable root ↔ ∃ child ∈ children, viable child := by
          simp [LevelViable, hIn, hBad, hLeaf]
        by_cases hViable : LevelViable store children viable root
        · rw [if_pos (hVisited.1.mpr (hIff.mp hViable))]
          exact filterSpec_insert hBlk hViable (by simp [LevelKept, hIn, hBad]) hVisited.2
        · rw [if_neg fun hGot =>
            hViable (hIff.mpr (hVisited.1.mp hGot))]
          refine ⟨by simp [hViable], fun x => ?_⟩
          simpa [LevelKept, hIn, hBad, hViable] using hVisited.2 x

section

variable (hChildren : ∀ child, child ∈ children ↔ child ∈ childrenIndex store.blocks root)
include hChildren

theorem levelViable_iff : LevelViable store children (Viable store) root ↔ Viable store root := by
  have hNil : children = [] ↔ childrenIndex store.blocks root = [] := by
    simp only [eq_nil_iff_forall_not_mem, hChildren]
  constructor
  · rintro ⟨hIn, hOpen, ⟨hLeaf, hTest⟩ | ⟨child, hKid, hViable⟩⟩
    · exact .leaf hIn hOpen (hNil.mp hLeaf) hTest
    · exact .branch hIn hOpen (mem_childrenIndex_iff.mp ((hChildren child).mp hKid)) hViable
  · intro hViable
    refine ⟨hViable.known, hViable.notInvalid, ?_⟩
    cases hViable with
    | leaf _ _ hLeaf hTest => exact .inl ⟨hNil.mpr hLeaf, hTest⟩
    | @branch _ child _ _ hKid hViable =>
      exact .inr ⟨child, (hChildren child).mpr (mem_childrenIndex_iff.mpr hKid), hViable⟩

theorem levelKept_iff {x : Root} :
    LevelKept store children (Viable store) (Kept store) root x ↔ Kept store root x := by
  unfold LevelKept
  rw [levelViable_iff hChildren]
  simp only [hChildren]
  constructor
  · rintro ⟨hIn, hOpen, hBelow⟩
    exact (kept_iff (.base hIn hOpen)).mpr hBelow
  · intro hKept
    have hAt := hKept.1.base_reached
    exact ⟨hAt.known, hAt.notInvalid, (kept_iff hAt).mp hKept⟩

theorem filterSpec_children (hVisit : ∀ child ∈ children, ∀ blks,
      FilterSpec store (Viable store child) (Kept store child) blks (visit child blks))
    (blks : HashMap Root BeaconBlock) :
    FilterSpec store (Viable store root) (Kept store root)
      blks (filterLevel store visit children root blks) := by
  have hLevel := filterSpec_filterLevel hVisit root blks
  rw [FilterSpec, levelViable_iff hChildren] at hLevel
  simp only [levelKept_iff hChildren] at hLevel
  exact hLevel

end

/-
  The filter, by induction on the fuel: along children the height grows, so that the fuel covers the
  rest of the tree.
-/
theorem filterSpec_of_levels {kids : Root → List Root}
    {f : Nat → Root → HashMap Root BeaconBlock → Bool × HashMap Root BeaconBlock}
    (hKids : ∀ r child, child ∈ kids r ↔ child ∈ childrenIndex store.blocks r)
    (hTree : ∀ fuel r, f (fuel + 1) r = filterLevel store (f fuel) (kids r) r)
    {height : Root → Nat} {b fuel : Nat} (hRank : Ranked (parentOf store.blocks) height)
    (hBd : ∀ x, height x ≤ b) (hFuel : b < fuel + height root)
    (blks : HashMap Root BeaconBlock) :
    FilterSpec store (Viable store root) (Kept store root) blks (f fuel root blks) := by
  induction fuel generalizing root blks with
  | zero =>
    have hLe := hBd root
    omega
  | succ fuel ih =>
    rw [hTree]
    apply filterSpec_children (hKids root)
    intro child hKid blks
    have hUp := hRank child root (mem_childrenIndex_iff.mp ((hKids root child).mp hKid))
    exact ih (by omega) blks

end

----
-- The Head
----

/- One step of the descent. -/
def nextHead (store : Store S) (head : Root) : Option Root :=
  heaviest store (childrenIndex (getFilteredBlockTree store) head)

variable {st : Store S}

theorem getHead_eq_follow :
    getHead st = follow (nextHead st) st.blocks.keys.length (effectiveBase st) :=
  rfl

variable {r : Root}

theorem heaviest_some_iff {rs : List Root} :
    heaviest st rs = some r ↔ r ∈ rs ∧ ∀ x ∈ rs,
      toLex (getWeight st x, x) ≤ toLex (getWeight st r, r) := by
  rw [heaviest, argmax_eq_some_iff]
  constructor
  · rintro ⟨hMem, hMax, _⟩
    exact ⟨hMem, hMax⟩
  · rintro ⟨hMem, hMax⟩
    refine ⟨hMem, hMax, ?_⟩
    intro x hx hLe
    have hEq := le_antisymm (hMax x hx) hLe
    have hr : x = r := congrArg Prod.snd (toLex.injective hEq)
    rw [hr]

variable (hLinked : ParentLinked st.blocks)
include hLinked

theorem filterSpec_filtered (r : Root) :
    (Kept st (effectiveBase st) r → (getFilteredBlockTree st).lookup r = st.blocks.lookup r) ∧
    (¬Kept st (effectiveBase st) r → (getFilteredBlockTree st).lookup r = none) := by
  rcases hLinked.exists_height with ⟨height, hRank, hBd⟩
  have hSpec := filterSpec_of_levels (f := filterBlockTree st) (fun _ _ => Iff.rfl) (fun _ _ => rfl)
    hRank hBd
    (show st.blocks.keys.length < st.blocks.keys.length + 1 + height (effectiveBase st) by omega) ∅
  exact ⟨(hSpec.2 r).1, fun hNot =>
    ((hSpec.2 r).2 hNot).trans (AList.lookup_empty r)⟩

variable {child : Root}

theorem parentOf_filtered {par : Root} :
    parentOf (getFilteredBlockTree st) child = some par ↔
      parentOf st.blocks child = some par ∧ Kept st (effectiveBase st) child := by
  have hSpec := filterSpec_filtered hLinked child
  by_cases hKept : Kept st (effectiveBase st) child
  · simp only [parentOf, hSpec.1 hKept, hKept, and_true]
  · simp only [parentOf, hSpec.2 hKept, hKept, and_false, Option.map_none, reduceCtorEq]

variable {head : Root}

theorem mem_children_filtered (hAt : Reached st (effectiveBase st) head) :
    child ∈ childrenIndex (getFilteredBlockTree st) head ↔
      parentOf st.blocks child = some head ∧ Viable st child := by
  rw [mem_childrenIndex_iff, parentOf_filtered hLinked]
  constructor
  · rintro ⟨hPar, hKept⟩
    exact ⟨hPar, hKept.2⟩
  · rintro ⟨hPar, hViable⟩
    exact ⟨hPar, .child hAt hPar hViable.notInvalid, hViable⟩

theorem parentOf_of_nextHead (hNext : nextHead st head = some child) :
    parentOf st.blocks child = some head ∧ Kept st (effectiveBase st) child := by
  have hMem := (heaviest_some_iff.mp hNext).1
  rw [mem_childrenIndex_iff] at hMem
  exact (parentOf_filtered hLinked).mp hMem

theorem nextHead_some_iff (hAt : Reached st (effectiveBase st) head) :
    nextHead st head = some child ↔ (parentOf st.blocks child = some head ∧ Viable st child) ∧
      ∀ x, parentOf st.blocks x = some head → Viable st x →
        toLex (getWeight st x, x) ≤ toLex (getWeight st child, child) := by
  rw [nextHead, heaviest_some_iff, mem_children_filtered hLinked hAt]
  simp only [mem_children_filtered hLinked hAt, and_imp]

/- A head goes on alike in two stores with the same weights and viable children. -/
theorem nextHead_congr {x : Store S}
    (hx : ParentLinked x.blocks) (hAt : Reached st (effectiveBase st) head)
    (hStill : Reached x (effectiveBase x) head)
    (hViable : ∀ child, (parentOf x.blocks child = some head ∧ Viable x child) ↔
      parentOf st.blocks child = some head ∧ Viable st child)
    (hWeight : ∀ child, parentOf st.blocks child = some head → Viable st child →
      getWeight x child = getWeight st child) :
    nextHead x head = nextHead st head := by
  refine Option.ext fun child => ?_
  rw [nextHead_some_iff hx hStill, nextHead_some_iff hLinked hAt, hViable]
  refine and_congr_right fun hKid => ?_
  constructor
  · intro hBest sibling hLink hOpen
    have hHere := (hViable sibling).mpr ⟨hLink, hOpen⟩
    rw [← hWeight sibling hLink hOpen, ← hWeight child hKid.1 hKid.2]
    exact hBest sibling hHere.1 hHere.2
  · intro hBest sibling hLink hOpen
    have hHere := (hViable sibling).mp ⟨hLink, hOpen⟩
    rw [hWeight sibling hHere.1 hHere.2, hWeight child hKid.1 hKid.2]
    exact hBest sibling hHere.1 hHere.2

theorem exists_descent_measure : ∃ measure : Root → Nat,
      (∀ head child, nextHead st head = some child → measure child < measure head) ∧
      ∀ r, measure r ≤ st.blocks.keys.length := by
  rcases hLinked.exists_height with ⟨height, hRank, hBd⟩
  refine ⟨fun r => st.blocks.keys.length - height r, ?_, fun r => Nat.sub_le _ _⟩
  intro head child hNext
  have hUp := hRank child head (parentOf_of_nextHead hLinked hNext).1
  have hLe := hBd child
  show st.blocks.keys.length - height child < st.blocks.keys.length - height head
  omega

theorem nextHead_getHead : nextHead st (getHead st) = none := by
  rcases exists_descent_measure hLinked with ⟨measure, hMeas, hBd⟩
  exact follow_stops hMeas (hBd _)

theorem not_viable_below_getHead (hAt : Reached st (effectiveBase st) (getHead st))
    (hKid : parentOf st.blocks child = some (getHead st)) : ¬Viable st child := by
  intro hViable
  have hMem := (mem_children_filtered hLinked hAt).mpr ⟨hKid, hViable⟩
  have hNone : childrenIndex (getFilteredBlockTree st) (getHead st) = [] :=
      argmax_eq_none.mp (nextHead_getHead hLinked)
  rw [hNone] at hMem
  exact absurd hMem not_mem_nil

theorem reached_of_descent
    (hBase : Reached st (effectiveBase st) (effectiveBase st))
    (hDescent : Reaches (nextHead st) (effectiveBase st) r) :
    Reached st (effectiveBase st) r := by
  induction hDescent with
  | refl => exact hBase
  | tail _ hStep _ => exact (parentOf_of_nextHead hLinked hStep).2.1

/- Nothing is below a base that is unknown or invalid. -/
theorem nextHead_of_not_reached
    (hClosed : ¬Reached st (effectiveBase st) (effectiveBase st)) (head : Root) :
    nextHead st head = none := by
  cases hNext : nextHead st head with
  | none => rfl
  | some child =>
    have hKept := (parentOf_of_nextHead hLinked hNext).2
    exact absurd hKept.1.base_reached hClosed

/- Without its base a search ends where it starts. -/
theorem getHead_of_not_reached
    (hClosed : ¬Reached st (effectiveBase st) (effectiveBase st)) :
    getHead st = effectiveBase st :=
  eq_of_stops (follow_reaches _ _) (nextHead_getHead hLinked) .refl
    (nextHead_of_not_reached hLinked hClosed _)

theorem ancestor_getHead_iff
    (hBelow : Ancestor (parentOf st.blocks) (effectiveBase st) r) :
    Ancestor (parentOf st.blocks) r (getHead st) ↔ Reaches (nextHead st) (effectiveBase st) r := by
  have hDescent : Reaches (nextHead st) (effectiveBase st) (getHead st) :=
    follow_reaches _ _
  have hUp : ∀ {a b : Root}, Reaches (nextHead st) a b → Ancestor (parentOf st.blocks) a b := by
    intro a b hPath
    induction hPath with
    | refl => exact Ancestor.refl a
    | tail _ hStep ih =>
      exact ih.trans (Ancestor.of_parent (parentOf_of_nextHead hLinked hStep).1)
  constructor
  · intro hAnc
    -- Climbing from the head along the descent meets the
    -- block before it passes the base.
    generalize getHead st = head at hAnc hDescent
    induction hDescent with
    | refl =>
      rcases hLinked with ⟨rank, hRank⟩
      rw [← hRank.ancestor_antisymm hBelow hAnc]
    | @tail mid last hPath hStep ih =>
      have hPar := (parentOf_of_nextHead hLinked hStep).1
      rcases hAnc.eq_or_up hPar with hEq | hxs
      · rw [hEq]
        exact hPath.tail hStep
      · exact ih hxs
  · intro hPath
    exact hUp (reaches_stop hPath hDescent (nextHead_getHead hLinked))

theorem getHead_eq_of_nextHead {x : Store S}
    (hOtherLinked : ParentLinked x.blocks)
    (hBase : Reaches (nextHead st) (effectiveBase st) (effectiveBase x))
    (hAgree : ∀ head, Reaches (nextHead st) (effectiveBase x) head →
      nextHead st head = nextHead x head) : getHead x = getHead st := by
  have hStop := nextHead_getHead hLinked
  have hxs : Reaches (nextHead st) (effectiveBase x) (getHead st) :=
      reaches_stop hBase (follow_reaches _ _) hStop
  have hOtherStop : nextHead x (getHead st) = none := by
    rw [← hAgree _ hxs]
    exact hStop
  have hOtherRest : Reaches (nextHead x) (effectiveBase x) (getHead st) := by
    generalize getHead st = head at hxs
    induction hxs with
    | refl => exact .refl
    | tail hPath hStep ih =>
      rw [hAgree _ hPath] at hStep
      exact ih.tail hStep
  exact eq_of_stops (follow_reaches _ _) (nextHead_getHead hOtherLinked) hOtherRest hOtherStop

omit hLinked

end Pharos.ForkChoice
