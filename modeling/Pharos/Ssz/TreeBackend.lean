import Pharos.Ssz.Backend

/-
  This file shows that the tree behind a sequence is as good as the list of its elements. What is
  read from it, written to it or hashed is what the list gives, as long as the product of the limit
  and the size of an element is a machine word.
-/

----
-- Trees of Elements
----

namespace Pharos.Ssz

open Chunks

variable {Value : Type}

def ElementType.packed (elem : ElementType Value) : Bool :=
  elem.elemsPerChunk ≠ 1

/- A tree with room for `N` elements holds a list of them, and what its nodes remember is right. -/
structure TreeHolds (hash : HashConcat) (elem : ElementType Value) (N : Nat) (elems : List Value)
    (root : Node Value) : Prop where
  cells : root.Holds elem.packed (treeDepth N elem.elemsPerChunk) (chunks elem.elemsPerChunk elems)
  exact : root.Exact hash elem

variable {hash : HashConcat} {elem : ElementType Value} {N : Nat}

/- No overflow when the depth is computed. -/
def ElementType.Fits (elem : ElementType Value) (N : Nat) : Prop :=
  N * elem.leafSize < 2 ^ 64

theorem chunkLimit_eq (hElem : elem.Admissible) (hFits : elem.Fits N) :
    chunkLimit N elem.leafSize = (N + elem.elemsPerChunk - 1) / elem.elemsPerChunk := by
  rw [← chunkCount_mul hElem.elemsPerChunk_pos hElem.leafSize_pos, hElem.elemsPerChunk_mul,
    chunkLimit, Nat.mod_eq_of_lt hFits]
  rfl

/- There is a leaf for every element. -/
theorem chunkLimit_le_capacity (hElem : elem.Admissible) (hFits : elem.Fits N) :
    (N + elem.elemsPerChunk - 1) / elem.elemsPerChunk ≤ 2 ^ treeDepth N elem.elemsPerChunk := by
  rw [← chunkLimit_eq hElem hFits, treeDepth_eq_clog]
  exact Nat.le_pow_clog Nat.one_lt_two _

theorem chunk_lt_capacity (hElem : elem.Admissible) (hFits : elem.Fits N) {i : Nat}
    (hPlace : i < N) : i / elem.elemsPerChunk < 2 ^ treeDepth N elem.elemsPerChunk := by
  apply Nat.lt_of_lt_of_le _ (chunkLimit_le_capacity hElem hFits)
  rw [Nat.lt_iff_add_one_le, Nat.le_div_iff_mul_le hElem.elemsPerChunk_pos, Nat.add_mul,
    Nat.one_mul]
  have hPos := Nat.div_mul_le_self i elem.elemsPerChunk
  omega

theorem length_chunks_le_capacity (hElem : elem.Admissible) (hFits : elem.Fits N)
    {es : List Value} (hLen : es.length ≤ N) :
    (chunks elem.elemsPerChunk es).length ≤ 2 ^ treeDepth N elem.elemsPerChunk := by
  rw [length_chunks]
  refine (Nat.div_le_div_right ?_).trans (chunkLimit_le_capacity hElem hFits)
  omega

theorem treeHolds_treeFrom (hElem : elem.Admissible) (hFits : elem.Fits N) {es : List Value}
    (hLen : es.length ≤ N) : TreeHolds hash elem N es (treeFrom N elem es) := by
  have hRoom := length_chunks_le_capacity hElem hFits hLen
  unfold treeFrom
  by_cases hOne : elem.elemsPerChunk = 1
  · rw [hOne, chunks_one, List.length_map] at hRoom
    simp only [hOne, if_true]
    constructor
    · rw [hOne, chunks_one]
      apply Node.holds_fromCells _ hRoom
      simp [Node.cellOf, ElementType.packed, hOne]
    · apply Node.exact_fromCells
      exact fun _ => trivial
  · simp only [hOne, if_false]
    constructor
    · have hLeaf :
          ∀ cell : List Value, Node.cellOf elem.packed (.packedLeaf cell none) = some cell := by
        simp [Node.cellOf, ElementType.packed, hOne]
      have hCells := Node.holds_fromCells hLeaf hRoom
      rw [List.map_id'] at hCells
      exact hCells
    · apply Node.exact_fromCells
      intro cell v hNone
      cases hNone

/- A list without elements needs no nodes. -/
theorem treeHolds_zeroSubtree :
    TreeHolds hash elem N [] (.zeroSubtree (treeDepth N elem.elemsPerChunk)) where
  cells := by
    rw [chunks_nil]
    exact .zero _
  exact := trivial

----
-- Reading and Writing
----

variable {es : List Value} {r : Node Value}

namespace TreeHolds

variable {i : Nat}

section

variable (hTree : TreeHolds hash elem N es r) (hElem : elem.Admissible)
include hTree hElem

section

variable (hFits : elem.Fits N)
include hFits

theorem descend (hPlace : i < N) : r.descend (Node.cellOf elem.packed) (i / elem.elemsPerChunk)
        (treeDepth N elem.elemsPerChunk) =
      (chunks elem.elemsPerChunk es)[ i / elem.elemsPerChunk]? :=
  hTree.cells.descend (chunk_lt_capacity hElem hFits hPlace)

theorem get (hPlace : i < N) : treeGet N elem.elemsPerChunk r i = es[i]? := by
  have hCell := hTree.descend hElem hFits hPlace
  unfold treeGet
  by_cases hOne : elem.elemsPerChunk = 1
  · have hPacked : elem.packed = false := by
      simp [ElementType.packed, hOne]
    rw [hPacked, hOne, Nat.div_one, chunks_one] at hCell
    simp only [hOne, if_true]
    rw [Node.get_eq_descend, hCell, List.getElem?_map]
    cases es[i]? <;> rfl
  · have hPacked : elem.packed = true := by
      simp [ElementType.packed, hOne]
    rw [hPacked] at hCell
    simp only [hOne, if_false]
    rw [Node.chunkAt_eq_descend, hCell, getElem?_chunks hElem.elemsPerChunk_pos]

theorem write (hPlace : i < N) (hLen : i ≤ es.length) {v : Value} {cell : Node Value}
    (hCell : Node.cellOf elem.packed cell = some (put ((chunks elem.elemsPerChunk es)[
      i / elem.elemsPerChunk]?.getD []) (i % elem.elemsPerChunk) v))
    (hExact : cell.Exact hash elem) :
    TreeHolds hash elem N (put es i v)
      (Node.withCell cell (treeDepth N elem.elemsPerChunk) (i / elem.elemsPerChunk) r) where
  cells := by
    rw [chunks_put hElem.elemsPerChunk_pos hLen]
    exact hTree.cells.withCell hCell (chunk_lt_capacity hElem hFits hPlace)
      (div_le_length_chunks hElem.elemsPerChunk_pos hLen)
  exact := hExact.withCell _ _ hTree.exact

/- A single element is written as a leaf of its own. -/
theorem writeLeaf (hOne : elem.elemsPerChunk = 1) (hPlace : i < N) (hLen : i ≤ es.length)
    (v : Value) :
    TreeHolds hash elem N (put es i v) (r.withSet i v (treeDepth N 1)) := by
  have hCell : Node.cellOf elem.packed (.leaf v) = some
      (put ((chunks elem.elemsPerChunk es)[ i / elem.elemsPerChunk]?.getD [])
      (i % elem.elemsPerChunk) v) := by
    rw [hOne, chunks_one, Nat.div_one, Nat.mod_one, List.getElem?_map]
    cases es[i]? <;> simp [Node.cellOf, ElementType.packed, hOne]
  have hWrite := hTree.write hElem hFits hPlace hLen hCell trivial
  rw [hOne, Nat.div_one] at hWrite
  exact hWrite

theorem writeChunk (hPacked : elem.elemsPerChunk ≠ 1) (hPlace : i < N)
    (hLen : i ≤ es.length) {v : Value} {chunk : List Value}
    (hChunk : chunk = put ((chunks elem.elemsPerChunk es)[
      i / elem.elemsPerChunk]?.getD []) (i % elem.elemsPerChunk) v) :
    TreeHolds hash elem N (put es i v)
      (r.withChunk (i / elem.elemsPerChunk) chunk (treeDepth N elem.elemsPerChunk)) := by
  apply hTree.write hElem hFits hPlace hLen
  · simp [Node.cellOf, ElementType.packed, hPacked, hChunk]
  · intro cached hNone
    cases hNone

theorem withSet (hRoom : es.length ≤ N) (hPlace : i < es.length) (v : Value) :
    TreeHolds hash elem N (es.set i v) (treeWithSet N elem.elemsPerChunk r i v) := by
  have hLimit : i < N := hPlace.trans_le hRoom
  rw [← put_of_lt hPlace]
  unfold treeWithSet
  by_cases hOne : elem.elemsPerChunk = 1
  · simp only [hOne, if_true]
    exact hTree.writeLeaf hElem hFits hOne hLimit hPlace.le v
  · simp only [hOne, if_false]
    have hIn := hTree.descend hElem hFits hLimit
    have hPacked : elem.packed = true := by
      simp [ElementType.packed, hOne]
    rw [hPacked, ← Node.chunkAt_eq_descend] at hIn
    rw [hIn]
    apply hTree.writeChunk hElem hFits hOne hLimit hPlace.le
    -- The element that is replaced is in its chunk.
    have hOld := getElem?_chunks hElem.elemsPerChunk_pos es i
    rw [List.getElem?_eq_getElem hPlace] at hOld
    rcases Option.bind_eq_some_iff.mp hOld with ⟨chunk, hChunk, hElement⟩
    rw [hChunk, Option.getD_some]
    exact (put_of_lt (List.getElem?_eq_some_iff.mp hElement).1 v).symm

theorem withPush (hRoom : es.length < N) (v : Value) :
    TreeHolds hash elem N (es ++ [v]) (treeWithPush N elem.elemsPerChunk r es.length v) := by
  rw [← put_length]
  unfold treeWithPush
  by_cases hOne : elem.elemsPerChunk = 1
  · simp only [hOne, if_true]
    exact hTree.writeLeaf hElem hFits hOne hRoom le_rfl v
  · simp only [hOne, if_false]
    have hIn := hTree.descend hElem hFits hRoom
    have hPacked : elem.packed = true := by
      simp [ElementType.packed, hOne]
    rw [hPacked, ← Node.chunkAt_eq_descend] at hIn
    have hLast := length_nextChunk hElem.elemsPerChunk_pos es
    by_cases hFull : es.length % elem.elemsPerChunk = 0
    · rw [if_pos hFull]
      apply hTree.writeChunk hElem hFits hOne hRoom le_rfl
      rw [hFull, List.length_eq_zero_iff] at hLast
      rw [hLast, hFull, put_nil_zero]
    · rw [if_neg hFull, hIn]
      apply hTree.writeChunk hElem hFits hOne hRoom le_rfl
      rw [← hLast, put_length]

end

theorem iter : treeIter N elem.elemsPerChunk r es.length = es := by
  rw [treeIter, TreeIter.collect_new hTree.cells,
    flatten_chunks hElem.elemsPerChunk_pos, List.take_length]

end

end TreeHolds

----
-- Hashing
----

namespace TreeHolds

section

variable (hTree : TreeHolds hash elem N es r)
include hTree

theorem freshRoot_cells :
    r.freshRoot hash elem = Merkle.root hash zeroChunk (treeDepth N elem.elemsPerChunk)
      ((chunks elem.elemsPerChunk es).map elem.leafRoot) := by
  apply hTree.cells.freshRoot
  intro node cell hCell
  by_cases hOne : elem.elemsPerChunk = 1
  · cases node <;> simp_all [Node.cellOf, ElementType.packed, ElementType.leafRoot, Node.freshRoot]
    rw [← hCell]
    rfl
  · cases node <;> simp_all [Node.cellOf, ElementType.packed, ElementType.leafRoot, Node.freshRoot]

theorem freshRoot (hElem : elem.Admissible) :
    r.freshRoot hash elem =
      Merkle.root hash zeroChunk (treeDepth N elem.elemsPerChunk) (elem.flatLeaves es) := by
  rw [hElem.flatLeaves_eq]
  exact hTree.freshRoot_cells

theorem cachedRoot :
    (r.cachedRoot hash elem).1 = r.freshRoot hash elem ∧
      TreeHolds hash elem N es (r.cachedRoot hash elem).2 :=
  ⟨hTree.exact.cachedRoot.1, hTree.cells.of_forget (Node.forget_cachedRoot r),
    hTree.exact.cachedRoot.2⟩

theorem cachedRootAt (path : List Bool) :
    TreeHolds hash elem N es (r.cachedRootAt hash elem path) :=
  ⟨hTree.cells.of_forget (Node.forget_cachedRootAt path r), hTree.exact.cachedRootAt path⟩

end

end TreeHolds

/- The chunks of a plain list fit its limit. -/
theorem length_flatLeaves (hElem : elem.Admissible) : (elem.flatLeaves es).length =
      (es.length + elem.elemsPerChunk - 1) / elem.elemsPerChunk := by
  rw [hElem.flatLeaves_eq, List.length_map, length_chunks]

end Pharos.Ssz
