import Pharos.Lib.Forest

/-
  This file implements greedy descents: from a node to the greatest of its children, and on until
  there is no child.

  Where a descent ends is a relation. When no two children have the same key it has at most one
  answer, whatever the order in which the children are looked at.
-/

----
-- Where a Descent Ends
----

namespace Descent

open Forest

variable {Node Key : Type} [LinearOrder Key]

def Best (child : Node → Node → Prop) (key : Node → Key) (node next : Node) : Prop :=
  child node next ∧ ∀ other, child node other → key other ≤ key next

/- Going to the best child, `first` leads to the leaf `last`. -/
def EndsAt (child : Node → Node → Prop) (key : Node → Key) (first last : Node) : Prop :=
  Relation.ReflTransGen (Best child key) first last ∧ ∀ next, ¬child last next

variable {c : Node → Node → Prop} {k : Node → Key}

theorem Best.unique (hKey : Function.Injective k) {node a b : Node}
    (hFst : Best c k node a) (hSnd : Best c k node b) :
    a = b := by
  apply hKey
  exact le_antisymm (hSnd.2 a hFst.1) (hFst.2 b hSnd.1)

theorem EndsAt.unique (hKey : Function.Injective k) {a last x : Node}
    (hLast : EndsAt c k a last) (hx : EndsAt c k a x) :
    last = x := by
  have hUnique : Relator.RightUnique (Best c k) := by
    intro node next s' hNext hPost
    exact hNext.unique hKey hPost
  have hLeaf : ∀ {leaf node : Node}, (∀ next, ¬c leaf next) →
      Relation.ReflTransGen (Best c k) leaf node →
      leaf = node := by
    intro leaf node hNone hPath
    rcases hPath.cases_head with hEq | ⟨next, hStep, _⟩
    · exact hEq
    · exact absurd hStep.1 (hNone next)
  rcases Relation.ReflTransGen.total_of_right_unique hUnique hLast.1 hx.1 with hDown | hBack
  · exact hLeaf hLast.2 hDown
  · exact (hLeaf hx.2 hBack).symm

theorem endsAt_follow {next : Node → Option Node} {measure : Node → Nat}
    (hMeas : ∀ node s', next node = some s' → measure s' < measure node) {fuel : Nat}
    {a : Node} (hFuel : measure a ≤ fuel)
    (hSome : ∀ node s', Reaches next a node → next node = some s' → Best c k node s')
    (hNone : ∀ node, Reaches next a node → next node = none → ∀ s', ¬c node s') :
    EndsAt c k a (follow next fuel a) := by
  have hPath : Reaches next a (follow next fuel a) := follow_reaches fuel a
  refine ⟨?_, hNone _ hPath (follow_stops hMeas hFuel)⟩
  generalize follow next fuel a = last at hPath
  induction hPath with
  | refl => exact Relation.ReflTransGen.refl
  | tail hFront hStep ih => exact ih.tail (hSome _ _ hFront hStep)

end Descent
