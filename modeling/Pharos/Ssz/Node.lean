import Pharos.Ssz.TreeHash

/-
  This file implements the persistent tree behind a sequence. An update copies the path to one leaf,
  and a node remembers its root once it was computed.

  A tree holds a list of cells, which are single elements or packed ones. Reading, writing and
  hashing a tree is reading, writing and hashing the list.
-/

----
-- Nodes
----

namespace Pharos.Ssz

inductive Node (Value : Type) where
  | branch (left right : Node Value) (hash : Option Hash256)
  | leaf (value : Value)
  | packedLeaf (elems : List Value) (chunk : Option Hash256)
  | zeroSubtree (depth : Nat)

namespace Node

variable {Value Cell : Type}

def descend (cellOf : Node Value → Option Cell) : Node Value → Nat → Nat → Option Cell
| .branch _ _ _, _, 0 => none
| .branch left right _, i, childDepth + 1 =>
  let mid := 2 ^ childDepth
  if i < mid then
    left.descend cellOf i childDepth
  else
    right.descend cellOf (i - mid) childDepth
| node, _, depth =>
  if depth = 0 then cellOf node else none

variable (node : Node Value)

/- A packed leaf is unreachable in a tree of elements. -/
def get (i depth : Nat) : Option Value :=
  node.descend
    (fun
      | .leaf value => some value
      | _ => none) i depth

/- A single element is unreachable in a tree of chunks. -/
def chunkAt (chunkIdx depth : Nat) : Option (List Value) :=
  node.descend
    (fun
      | .packedLeaf elems _ => some elems
      | _ => none) chunkIdx depth

/-
  Copy the path to a place, with a new leaf at its end. What is not on the path is shared, and the
  copies remember no root. A leaf above the last level is unreachable.
-/
def withCell (cell : Node Value) : Nat → Nat → Node Value → Node Value
| childDepth + 1, i, .branch left right _ =>
  let mid := 2 ^ childDepth
  if i < mid then
    .branch (withCell cell childDepth i left) right none
  else
    .branch left (withCell cell childDepth (i - mid) right) none
| childDepth + 1, i, .zeroSubtree d =>
  let mid := 2 ^ childDepth
  let zeroChild := .zeroSubtree (d - 1)
  if i < mid then
    .branch (withCell cell childDepth i zeroChild) (.zeroSubtree (d - 1)) none
  else
    .branch (.zeroSubtree (d - 1)) (withCell cell childDepth (i - mid) zeroChild) none
| _, _, _ => cell

def withSet (i : Nat) (value : Value) (depth : Nat) : Node Value :=
  withCell (.leaf value) depth i node

def withChunk (chunkIdx : Nat) (elems : List Value) (depth : Nat) : Node Value :=
  withCell (.packedLeaf elems none) depth chunkIdx node

def fromCells (leafOf : Cell → Node Value) : Nat → List Cell → Node Value
| 0, cells =>
  match cells.head? with
  | some cell => leafOf cell
  | none => .zeroSubtree 0
| childDepth + 1, cells =>
  let mid := 2 ^ childDepth
  let (left, right) :=
    if cells.length ≤ mid then (cells, []) else cells.splitAt mid
  .branch (fromCells leafOf childDepth left)
    (if right = [] then .zeroSubtree childDepth else fromCells leafOf childDepth right) none

/- The places are divided in the middle. -/
theorem fromCells_succ (leafOf : Cell → Node Value) (childDepth : Nat) (cells : List Cell) :
    fromCells leafOf (childDepth + 1) cells =
      .branch (fromCells leafOf childDepth (cells.take (2 ^ childDepth)))
        (if cells.drop (2 ^ childDepth) = [] then .zeroSubtree childDepth
        else fromCells leafOf childDepth (cells.drop (2 ^ childDepth))) none := by
  have hSplit : (if cells.length ≤ 2 ^ childDepth then (cells, [])
        else cells.splitAt (2 ^ childDepth)) =
      (cells.take (2 ^ childDepth), cells.drop (2 ^ childDepth)) := by
    by_cases hShort : cells.length ≤ 2 ^ childDepth
    · rw [if_pos hShort, List.take_of_length_le hShort, List.drop_eq_nil_of_le hShort]
    · rw [if_neg hShort, List.splitAt_eq]
  rw [fromCells]
  rw [hSplit]

def fromSlice (elems : List Value) (depth : Nat) : Node Value :=
  fromCells .leaf depth elems

def fromChunks (chunks : List (List Value)) (depth : Nat) : Node Value :=
  fromCells (fun elems => .packedLeaf elems none) depth chunks

end Node

end Pharos.Ssz

----
-- Roots
----

namespace Pharos.Ssz.Node

variable {Value : Type} (hash : HashConcat) (elem : ElementType Value)

def cachedRoot : Node Value → Hash256 × Node Value
| .leaf value => (elem.treeHashRoot value, .leaf value)
| .packedLeaf elems (some chunk) =>
  (chunk, .packedLeaf elems (some chunk))
| .packedLeaf elems none =>
  let chunk := elem.packChunk elems
  (chunk, .packedLeaf elems (some chunk))
| .zeroSubtree d => (zeroHash hash d, .zeroSubtree d)
| .branch left right (some root) =>
  (root, .branch left right (some root))
| .branch left right none =>
  let (l, left) := left.cachedRoot
  let (r, right) := right.cachedRoot
  let root := hash l r
  (root, .branch left right (some root))

/-
  Nodes are shared between trees, so that a node of this tree may come to remember its root because
  another tree is hashed.
-/
def cachedRootAt : List Bool → Node Value → Node Value
| [], node => (node.cachedRoot hash elem).2
| toRight :: path, .branch left right root =>
  if toRight then
    .branch left (right.cachedRootAt path) root
  else
    .branch (left.cachedRootAt path) right root
| _ :: _, node => node

def freshRoot : Node Value → Hash256
| .leaf value => elem.treeHashRoot value
| .packedLeaf elems _ => elem.packChunk elems
| .zeroSubtree d => zeroHash hash d
| .branch left right _ =>
  hash left.freshRoot right.freshRoot

/- What is remembered is what would be computed. -/
def Exact : Node Value → Prop
| .leaf _ => True
| .packedLeaf elems chunk =>
  ∀ root, chunk = some root → root = elem.packChunk elems
| .zeroSubtree _ => True
| .branch left right memo =>
  left.Exact ∧ right.Exact ∧
    ∀ root, memo = some root → root = hash (left.freshRoot hash elem) (right.freshRoot hash elem)

def forget : Node Value → Node Value
| .leaf value => .leaf value
| .packedLeaf elems _ => .packedLeaf elems none
| .zeroSubtree d => .zeroSubtree d
| .branch left right _ =>
  .branch left.forget right.forget none

variable {hash elem}

variable (node : Node Value)

theorem freshRoot_forget : node.forget.freshRoot hash elem = node.freshRoot hash elem := by
  induction node with
  | branch left right memo ihLeft ihRight => simp [forget, freshRoot, ihLeft, ihRight]
  | leaf v | packedLeaf es c | zeroSubtree d => rfl

theorem forget_cachedRoot : (node.cachedRoot hash elem).2.forget = node.forget := by
  induction node with
  | branch left right memo ihLeft ihRight =>
    cases memo with
    | none => simp [cachedRoot, forget, ihLeft, ihRight]
    | some r => rfl
  | leaf v => rfl
  | packedLeaf es c => cases c <;> rfl
  | zeroSubtree d => rfl

theorem forget_cachedRootAt (path : List Bool) (node : Node Value) :
    (node.cachedRootAt hash elem path).forget = node.forget := by
  induction path generalizing node with
  | nil => exact forget_cachedRoot node
  | cons turn path ih =>
    cases node with
    | branch left right memo => cases turn <;> simp [cachedRootAt, forget, ih]
    | leaf v | packedLeaf es c | zeroSubtree d => rfl

variable {node : Node Value}

theorem freshRoot_congr {x : Node Value} (hForget : node.forget = x.forget) :
    node.freshRoot hash elem = x.freshRoot hash elem := by
  rw [← freshRoot_forget node, hForget, freshRoot_forget]

theorem Exact.cachedRoot (hExact : node.Exact hash elem) :
    (node.cachedRoot hash elem).1 = node.freshRoot hash elem ∧
      (node.cachedRoot hash elem).2.Exact hash elem := by
  induction node with
  | branch left right memo ihLeft ihRight =>
    rcases hExact with ⟨hLeft, hRight, hMemo⟩
    cases memo with
    | none =>
      rcases ihLeft hLeft with ⟨hLeftRoot, hLeftExact⟩
      rcases ihRight hRight with ⟨hRightRoot, hRightExact⟩
      refine ⟨?_, hLeftExact, hRightExact, ?_⟩
      · simp [Node.cachedRoot, freshRoot, hLeftRoot, hRightRoot]
      · rintro r ⟨⟩
        rw [hLeftRoot, hRightRoot, freshRoot_congr (forget_cachedRoot left),
          freshRoot_congr (forget_cachedRoot right)]
    | some r => exact ⟨hMemo r rfl, hLeft, hRight, hMemo⟩
  | leaf v => exact ⟨rfl, trivial⟩
  | packedLeaf es c =>
    cases c with
    | none =>
      refine ⟨rfl, ?_⟩
      rintro r ⟨⟩
      rfl
    | some c => exact ⟨hExact c rfl, hExact⟩
  | zeroSubtree d => exact ⟨rfl, trivial⟩

theorem Exact.cachedRootAt (path : List Bool) (hExact : node.Exact hash elem) :
    (node.cachedRootAt hash elem path).Exact hash elem := by
  induction path generalizing node with
  | nil => exact hExact.cachedRoot.2
  | cons turn path ih =>
    cases node with
    | branch left right memo =>
      rcases hExact with ⟨hLeft, hRight, hMemo⟩
      cases turn with
      | false =>
        refine ⟨ih hLeft, hRight, ?_⟩
        rw [freshRoot_congr (forget_cachedRootAt path left)]
        exact hMemo
      | true =>
        refine ⟨hLeft, ih hRight, ?_⟩
        rw [freshRoot_congr (forget_cachedRootAt path right)]
        exact hMemo
    | leaf v | packedLeaf es c | zeroSubtree d => exact hExact

/- A copied path remembers nothing. -/
theorem Exact.withCell {cell : Node Value} (hCell : cell.Exact hash elem) (depth i : Nat)
    (hExact : node.Exact hash elem) : (withCell cell depth i node).Exact hash elem := by
  induction depth generalizing i node with
  | zero => cases node <;> exact hCell
  | succ depth ih =>
    cases node with
    | branch left right memo =>
      rcases hExact with ⟨hLeft, hRight, -⟩
      unfold Node.withCell
      dsimp only
      split
      · exact ⟨ih i hLeft, hRight, fun _ hNone =>
          nomatch hNone⟩
      · exact ⟨hLeft, ih _ hRight, fun _ hNone =>
          nomatch hNone⟩
    | leaf v | packedLeaf es c => exact hCell
    | zeroSubtree d =>
      have hZero : (Node.zeroSubtree (d - 1)).Exact hash elem := trivial
      unfold Node.withCell
      dsimp only
      split
      · exact ⟨ih i hZero, hZero, fun _ hNone =>
          nomatch hNone⟩
      · exact ⟨hZero, ih _ hZero, fun _ hNone =>
          nomatch hNone⟩

theorem exact_fromCells {Cell : Type} {leafOf : Cell → Node Value}
    (hLeaf : ∀ cell, (leafOf cell).Exact hash elem) (d : Nat) (cells : List Cell) :
    (fromCells leafOf d cells).Exact hash elem := by
  induction d generalizing cells with
  | zero =>
    cases cells with
    | nil => trivial
    | cons cell xs => exact hLeaf cell
  | succ d ih =>
    refine ⟨ih _, ?_, fun _ hNone => nomatch hNone⟩
    split
    · trivial
    · exact ih _

end Pharos.Ssz.Node

----
-- Cells
----

namespace Pharos.Ssz

open Chunks List

namespace Node

variable {Value Cell : Type}

def cellOf (packed : Bool) : Node Value → Option (List Value)
| .leaf value => if packed then none else some [value]
| .packedLeaf elems _ => if packed then some elems else none
| _ => none

/-
  A tree of some depth holds a list of cells. The first half of the places is on the left, and
  missing cells are zero.
-/
inductive Holds (packed : Bool) : Nat → List (List Value) → Node Value → Prop where
  | zero (depth : Nat) : Holds packed depth [] (.zeroSubtree depth)
  | leaf {node : Node Value} {cell : List Value} (hCell : cellOf packed node = some cell) :
      Holds packed 0 [cell] node
  | branch {depth : Nat} {cells : List (List Value)} {left right : Node Value}
      {memo : Option Hash256}
      (hLeft : Holds packed depth (cells.take (2 ^ depth)) left)
      (hRight : Holds packed depth (cells.drop (2 ^ depth)) right) :
      Holds packed (depth + 1) cells (.branch left right memo)

variable {packed : Bool} {depth : Nat} {cells : List (List Value)} {node : Node Value}

namespace Holds

theorem descend (hHolds : Holds packed depth cells node) {i : Nat} (hPlace : i < 2 ^ depth) :
    node.descend (cellOf packed) i depth = cells[i]? := by
  induction hHolds generalizing i with
  | zero depth => cases depth <;> rfl
  | @leaf node cell hCell =>
    have hZero : i = 0 := by omega
    subst hZero
    cases node with
    | branch left right memo => nomatch hCell
    | leaf v | packedLeaf es c | zeroSubtree d => exact hCell
  | @branch depth cells left right memo hLeft hRight ihLeft ihRight =>
    rw [Node.descend]
    by_cases hFst : i < 2 ^ depth
    · rw [if_pos hFst, ihLeft hFst, getElem?_take_of_lt hFst]
    · rw [if_neg hFst, ihRight (by omega), getElem?_drop]
      congr 1
      omega

theorem withCell {cell : Node Value} {newCell : List Value}
    (hCell : cellOf packed cell = some newCell) (hHolds : Holds packed depth cells node) {i : Nat}
    (hPlace : i < 2 ^ depth) (hLen : i ≤ cells.length) :
    Holds packed depth (put cells i newCell) (Node.withCell cell depth i node) := by
  induction depth generalizing cells node i with
  | zero =>
    have hZero : i = 0 := by omega
    subst hZero
    cases hHolds with
    | zero | leaf hOld => exact .leaf hCell
  | succ depth ih =>
    cases hHolds with
    | zero =>
      have hZero : i = 0 := Nat.le_zero.mp hLen
      have hPositive : 0 < 2 ^ depth := Nat.two_pow_pos depth
      subst hZero
      have hNew := ih (.zero depth) hPositive (Nat.le_refl 0)
      rw [Node.withCell]
      rw [if_pos hPositive, Nat.add_sub_cancel]
      refine .branch ?_ ?_
      · rw [take_of_length_le hPositive]
        exact hNew
      · rw [drop_eq_nil_of_le hPositive]
        exact .zero depth
    | @branch _ _ left right memo hLeft hRight =>
      rw [Node.withCell]
      by_cases hFst : i < 2 ^ depth
      · rw [if_pos hFst]
        refine .branch ?_ ?_
        · rw [take_put_of_lt hFst hLen]
          apply ih hLeft hFst
          rw [length_take]
          omega
        · rw [drop_put_of_lt hFst hLen]
          exact hRight
      · rw [not_lt] at hFst
        rw [if_neg (not_lt.mpr hFst)]
        refine .branch ?_ ?_
        · rw [take_put_of_le hFst hLen]
          exact hLeft
        · rw [drop_put_of_le hFst hLen]
          apply ih hRight
          · omega
          · rw [length_drop]
            omega

theorem freshRoot {hash : HashConcat} {x : ElementType Value} {cellRoot : List Value → Hash256}
    (hr : ∀ {node cell}, cellOf packed node = some cell → node.freshRoot hash x = cellRoot cell)
    (hHolds : Holds packed depth cells node) :
    node.freshRoot hash x = Merkle.root hash zeroChunk depth (cells.map cellRoot) := by
  induction hHolds with
  | zero depth =>
    rw [map_nil, Merkle.root_nil]
    rfl
  | leaf hCell => exact hr hCell
  | branch hLeft hRight ihLeft ihRight =>
    rw [Node.freshRoot, ihLeft, ihRight, Merkle.root, map_take, map_drop]

theorem of_forget {x : Node Value} (hHolds : Holds packed depth cells node)
    (hForget : x.forget = node.forget) : Holds packed depth cells x := by
  induction hHolds generalizing x with
  | zero depth =>
    cases x with
    | branch left right memo | leaf v | packedLeaf es c => nomatch hForget
    | zeroSubtree d =>
      rw [forget, forget, zeroSubtree.injEq] at hForget
      rw [hForget]
      exact .zero depth
  | @leaf node cell hCell =>
    apply Holds.leaf
    cases node <;> cases x <;> simp_all [forget, cellOf]
  | @branch depth cells left right memo hLeft hRight ihLeft ihRight =>
    cases x with
    | branch otherLeft otherRight otherMemo =>
      rw [forget, forget, branch.injEq] at hForget
      exact .branch (ihLeft hForget.1) (ihRight hForget.2.1)
    | leaf v | packedLeaf es c | zeroSubtree d => nomatch hForget

end Holds

theorem holds_fromCells {leafOf : Cell → Node Value} {toCell : Cell → List Value}
    (hLeaf : ∀ cell, cellOf packed (leafOf cell) = some (toCell cell)) {sources : List Cell}
    (hLen : sources.length ≤ 2 ^ depth) :
    Holds packed depth (sources.map toCell) (fromCells leafOf depth sources) := by
  induction depth generalizing sources with
  | zero =>
    cases sources with
    | nil => exact .zero 0
    | cons cell xs =>
      have hNone : xs = [] := by
        rw [length_cons] at hLen
        exact length_eq_zero_iff.mp (by omega)
      rw [hNone]
      exact .leaf (hLeaf cell)
  | succ depth ih =>
    rw [fromCells_succ]
    refine .branch ?_ ?_
    · rw [← map_take]
      apply ih
      rw [length_take]
      omega
    · rw [← map_drop]
      by_cases hNone : sources.drop (2 ^ depth) = []
      · rw [if_pos hNone, hNone]
        exact .zero depth
      · rw [if_neg hNone]
        apply ih
        rw [length_drop]
        omega

variable (node : Node Value)

theorem get_eq_descend (i depth : Nat) :
    node.get i depth = (node.descend (cellOf false) i depth).bind List.head? := by
  unfold get
  induction node generalizing i depth with
  | branch left right memo ihLeft ihRight =>
    cases depth with
    | zero => rfl
    | succ depth =>
      rw [descend, descend]
      by_cases hFst : i < 2 ^ depth
      · rw [if_pos hFst, if_pos hFst, ihLeft]
      · rw [if_neg hFst, if_neg hFst, ihRight]
  | leaf v | packedLeaf es c | zeroSubtree d => cases depth <;> rfl

theorem chunkAt_eq_descend (i depth : Nat) :
    node.chunkAt i depth = node.descend (cellOf true) i depth := by
  unfold chunkAt
  congr 1
  funext node
  cases node <;> rfl

end Node

end Pharos.Ssz
