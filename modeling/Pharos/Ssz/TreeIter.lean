import Pharos.Ssz.Node

/-
  This file implements the iteration over a tree, which keeps a stack of the nodes that are still to
  be visited.
-/

----
-- Iteration
----

namespace Pharos.Ssz

open List

variable {Value : Type}

namespace Node

def weight : Node Value → Nat
| .branch left right _ => left.weight + right.weight + 1
| _ => 1

def elements : Nat → Node Value → List Value
| _, .leaf value => [value]
| _, .packedLeaf elems _ => elems
| _, .zeroSubtree _ => []
| 0, .branch _ _ _ => []
| depth + 1, .branch left right _ =>
  left.elements depth ++ right.elements depth

theorem Holds.elements {packed : Bool} {depth : Nat} {cells : List (List Value)}
    {node : Node Value} (hHolds : Holds packed depth cells node) :
    node.elements depth = cells.flatten := by
  induction hHolds with
  | zero depth => cases depth <;> rfl
  | @leaf node cell hCell =>
    cases node with
    | branch left right memo => exact absurd hCell (by simp [cellOf])
    | leaf v | packedLeaf es c => cases packed <;> simp_all [cellOf, Node.elements]
    | zeroSubtree d => exact absurd hCell (by simp [cellOf])
  | branch hLeft hRight ihLeft ihRight =>
    rw [Node.elements, ihLeft, ihRight, ← flatten_append, take_append_drop]

end Node

/- The nodes that are still to be visited, leftmost first. -/
structure TreeIter (Value : Type) where
  stack : List (Node Value × Nat)
  pending : List Value
  remaining : Nat

namespace TreeIter

def new (root : Node Value) (depth len : Nat) : TreeIter Value :=
  ⟨if 0 < len then [(root, depth)] else [], [], len⟩

def stackWeight (stack : List (Node Value × Nat)) : Nat :=
  (stack.map fun entry => entry.1.weight).sum

/- The loop that looks for the next element. -/
def search :
    List (Node Value × Nat) → List Value → Option (Value × List (Node Value × Nat) × List Value)
| stack, value :: pending => some (value, stack, pending)
| [], [] => none
| (.leaf value, _) :: stack, [] => some (value, stack, [])
| (.packedLeaf elems _, _) :: stack, [] => search stack elems
| (.zeroSubtree _, _) :: stack, [] => search stack []
| (.branch _ _ _, 0) :: stack, [] => search stack []
| (.branch left right _, childDepth + 1) :: stack, [] =>
  search ((left, childDepth) :: (right, childDepth) :: stack) []
termination_by stack => stackWeight stack
decreasing_by
  all_goals
    simp only [stackWeight, map_cons, sum_cons, Node.weight]
    omega

def next (iter : TreeIter Value) : Option (Value × TreeIter Value) :=
  if iter.remaining = 0 then
    none
  else
    (search iter.stack iter.pending).map
      fun (value, stack, pending) =>
        (value, ⟨stack, pending, iter.remaining - 1⟩)

def collect : Nat → TreeIter Value → List Value
| 0, _ => []
| calls + 1, iter =>
  match iter.next with
  | none => []
  | some (value, iter) => value :: iter.collect calls

/- All that is still to come, were there no bound. -/
def upcoming (stack : List (Node Value × Nat)) (pending : List Value) : List Value :=
  pending ++ stack.flatMap fun (node, depth) =>
    node.elements depth

theorem search_eq (stack : List (Node Value × Nat)) (pending : List Value) :
    match search stack pending with
    | none => upcoming stack pending = []
    | some (v, stack', pending') =>
      upcoming stack pending = v :: upcoming stack' pending' := by
  fun_induction search stack pending with
  | case1 stack v pending | case2 => simp [upcoming]
  | case3 v depth stack => simp [upcoming, Node.elements]
  | case4 es c depth stack ih | case5 d depth stack ih => simpa [upcoming, Node.elements] using ih
  | case6 left right memo stack ih => simpa [upcoming, Node.elements] using ih
  | case7 left right memo childDepth stack ih => simpa [upcoming, Node.elements] using ih

theorem collect_eq (stack : List (Node Value × Nat)) (pending : List Value) (remaining : Nat) :
    collect remaining ⟨stack, pending, remaining⟩ = (upcoming stack pending).take remaining := by
  induction remaining generalizing stack pending with
  | zero => rfl
  | succ remaining ih =>
    have hSearch := search_eq stack pending
    rw [collect, next]
    cases hNext : search stack pending with
    | none =>
      rw [hNext] at hSearch
      simp [hSearch]
    | some y =>
      rw [hNext] at hSearch
      simp [hSearch, ih]

theorem collect_new {packed : Bool} {d len : Nat} {cells : List (List Value)}
    {r : Node Value} (hHolds : r.Holds packed d cells) :
    collect len (new r d len) = cells.flatten.take len := by
  cases len with
  | zero => rfl
  | succ len =>
    rw [new, if_pos (Nat.succ_pos len), collect_eq]
    simp [upcoming, hHolds.elements]

end TreeIter

end Pharos.Ssz
