import Pharos.ForkChoice.GetHead

/-
  This file describes the head of a tree without forks, and the head of any tree when it is not the
  base of the search.

  Without forks there is one leaf. If it is viable it is the head, and if not the search stays at
  its base.
-/

----
-- Ancestors and Leaves
----

namespace Pharos.ForkChoice

open Forest

section

variable {S : Type} {st x : Store S}

theorem getAncestor_congr (hEq : ∀ r, x.blocks.lookup r = st.blocks.lookup r)
    (r : Root) (slot : Slot) : getAncestor x r slot = getAncestor st r slot := by
  have hStep : ancestorStep x.blocks slot = ancestorStep st.blocks slot := by
    funext node
    unfold ancestorStep
    rw [hEq]
  unfold getAncestor
  rw [hStep, HashTable.length_keys_congr hEq]

theorem effectiveBase_mem (hFin : st.finalizedCheckpoint.root ∈ st.blocks) :
    effectiveBase st ∈ st.blocks := by
  unfold effectiveBase
  split
  · assumption
  · exact hFin

variable [BeaconSpec S]

theorem leaf_getHead (hLinked : ParentLinked st.blocks)
    (hMoved : getHead st ≠ effectiveBase st) :
    getHead st ∈ st.blocks ∧ childrenIndex st.blocks (getHead st) = [] ∧
      isViableLeaf st (getHead st) = true := by
  have hDescent : Reaches (nextHead st) (effectiveBase st) (getHead st) :=
    follow_reaches _ _
  rcases hDescent.cases_tail with hEq | ⟨s, _, hStep⟩
  · exact absurd hEq hMoved
  · rcases (parentOf_of_nextHead hLinked hStep).2 with ⟨hAt, hViable⟩
    cases hViable with
    | leaf hIn _ hLeaf hTest => exact ⟨hIn, hLeaf, hTest⟩
    | branch _ _ hKid hBelow =>
      exact absurd hBelow (not_viable_below_getHead hLinked hAt hKid)

end

----
-- Trees without Forks
----

variable {S : Type}

/- All blocks are on the chain of a tip, and none is bad. -/
structure Linear (store : Store S) (tip : Root) : Prop where
  linked : ParentLinked store.blocks
  onChain : ∀ root ∈ store.blocks, Ancestor (parentOf store.blocks) root tip
  notInvalid : ∀ root, ¬store.IsInvalid root

namespace Linear

variable {st : Store S} {tip : Root}

variable (hLinear : Linear st tip)
include hLinear

theorem childless_tip : childrenIndex st.blocks tip = [] := by
  rw [childrenIndex_eq_nil_iff]
  intro c hKid
  rcases hLinear.linked with ⟨rank, hRank⟩
  exact hRank.not_ancestor_of_parent hKid (hLinear.onChain c (mem_of_parentOf hKid))

theorem exists_child {r : Root} (hIn : r ∈ st.blocks)
    (hAbove : r ≠ tip) : ∃ c, parentOf st.blocks c = some r := by
  rcases Relation.ReflTransGen.cases_tail (hLinear.onChain r hIn) with hEq | ⟨c, _, hKid⟩
  · exact absurd hEq hAbove
  · exact ⟨c, hKid⟩

variable [BeaconSpec S]

theorem viable_iff {r : Root} (hIn : r ∈ st.blocks) : Viable st r ↔ isViableLeaf st tip = true := by
  constructor
  · intro hViable
    induction hViable with
    | @leaf r hIn _ hLeaf hTest =>
      by_cases hTip : r = tip
      · rw [← hTip]
        exact hTest
      · rcases hLinear.exists_child hIn hTip with ⟨c, hKid⟩
        exact absurd hKid (childrenIndex_eq_nil_iff.mp hLeaf c)
    | branch _ _ hKid _ ih => exact ih (mem_of_parentOf hKid)
  · intro hTest
    have hAnc := hLinear.onChain r hIn
    induction hAnc with
    | refl => exact .leaf hIn (hLinear.notInvalid tip) hLinear.childless_tip hTest
    | tail _ hKid ih =>
      exact .branch hIn (hLinear.notInvalid _) hKid (ih (mem_of_parentOf hKid))

theorem getHead_eq (hBase : effectiveBase st ∈ st.blocks) :
    getHead st = if isViableLeaf st tip then tip else effectiveBase st := by
  have hLinked := hLinear.linked
  by_cases hTest : isViableLeaf st tip = true
  · rw [if_pos hTest]
    by_contra hNot
    -- A head above the tip has a child to which to go on.
    have hAt : Reached st (effectiveBase st) (getHead st) :=
        reached_of_descent hLinked (.base hBase (hLinear.notInvalid _)) (follow_reaches _ _)
    rcases hLinear.exists_child hAt.known hNot with ⟨c, hKid⟩
    have hViable := (hLinear.viable_iff (mem_of_parentOf hKid)).mpr hTest
    exact not_viable_below_getHead hLinked hAt hKid hViable
  · rw [if_neg hTest]
    by_contra hMoved
    rcases leaf_getHead hLinked hMoved with ⟨hIn, hLeaf, hViable⟩
    by_cases hTip : getHead st = tip
    · rw [hTip] at hViable
      exact hTest hViable
    · rcases hLinear.exists_child hIn hTip with ⟨c, hKid⟩
      exact childrenIndex_eq_nil_iff.mp hLeaf c hKid

omit hLinear

end Linear

end Pharos.ForkChoice
