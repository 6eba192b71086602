import Pharos.Ssz.SequenceRuns

/-
  This file shows that lists and vectors are simulated by the lists of their elements, with both
  backends. So a program runs as it does without trees, whatever trees it makes.

  The depth of a tree is computed from a product of machine words. If that product overflows, a tree
  has not enough leaves for the elements it is given.

  Main theorems:
  * `Ssz.runsAsFlat_iff_fits`
-/

----
-- Both Backends
----

namespace Pharos.Ssz

open List

section

open Chunks Simulation

variable {Value : Type} {hash : HashConcat} {elem : ElementType Value} {N : Nat}

/- A backend holds exactly these elements. -/
def BackendHolds (hash : HashConcat) (elem : ElementType Value) (N : Nat) (elems : List Value)
    (epc : Nat) : Backend Value → Prop
| .flat others => others = elems
| .tree root =>
  epc = elem.elemsPerChunk ∧ TreeHolds hash elem N elems root

structure ListHolds (hash : HashConcat) (elem : ElementType Value) (N : Nat) (elems : List Value)
    (list : SszList Value) : Prop where
  room : elems.length ≤ N
  len : list.len = elems.length
  backend : BackendHolds hash elem N elems list.epc list.backend

structure VectorHolds (hash : HashConcat) (elem : ElementType Value) (N : Nat)
    (elems : List Value) (vector : SszVector Value) : Prop where
  length : elems.length = N
  backend : BackendHolds hash elem N elems vector.epc vector.backend

variable {es : List Value}

theorem backendHolds_shareRoot {epc : Nat} {backend : Backend Value}
    (hBack : BackendHolds hash elem N es epc backend) (path : List Bool) :
    BackendHolds hash elem N es epc (backend.shareRoot hash elem path) := by
  cases backend with
  | flat ys => exact hBack
  | tree r => exact ⟨hBack.1, hBack.2.cachedRootAt path⟩

variable (hElem : elem.Admissible)
include hElem

section

variable (hFits : elem.Fits N)
include hFits

theorem clog_limit :
    let limit :=
      if elem.treeHashType = .basic then chunkLimit N elem.codec.sszFixedLen else N
    Nat.clog 2 limit = treeDepth N elem.elemsPerChunk ∧
      limit = (N + elem.elemsPerChunk - 1) / elem.elemsPerChunk := by
  intro limit
  have hLimit : limit = chunkLimit N elem.leafSize := by
    by_cases hBasic : elem.treeHashType = .basic
    · simp only [limit, if_pos hBasic, hElem.leafSize_of_basic hBasic]
    · have hOne := ElementType.Admissible.elemsPerChunk_of_not_basic hBasic
      rw [chunkLimit_eq hElem hFits, hOne, Nat.div_one]
      simp [limit, hBasic]
  rw [hLimit, treeDepth_eq_clog]
  exact ⟨rfl, chunkLimit_eq hElem hFits⟩

theorem merkleizePadded_flatLeaves
    (hRoom : es.length ≤ N) :
    merkleizePadded hash (elem.flatLeaves es)
        (if elem.treeHashType = .basic then chunkLimit N elem.codec.sszFixedLen
        else N) =
      some (plainRoot hash elem N es) := by
  rcases clog_limit hElem hFits with ⟨hDepth, hLimit⟩
  rw [merkleizePadded_eq_root, hDepth]
  · rfl
  · rw [hLimit, length_flatLeaves hElem]
    apply Nat.div_le_div_right
    omega

theorem merkleize_flatLeaves
    (hLen : es.length = N) :
    merkleize hash (elem.flatLeaves es) = plainRoot hash elem N es := by
  rw [merkleize_eq_root, length_flatLeaves hElem, hLen,
    ← chunkLimit_eq hElem hFits, plainRoot, treeDepth_eq_clog]
  rfl

/- Places behind the end are not looked up. -/
theorem treeGet_of_length
    (hRoom : es.length ≤ N) {r : Node Value} (hTree : TreeHolds hash elem N es r)
    (i : Nat) :
    (if es.length ≤ i then none else treeGet N elem.elemsPerChunk r i) = es[i]? := by
  by_cases hEnd : es.length ≤ i
  · rw [if_pos hEnd, getElem?_eq_none hEnd]
  · rw [if_neg hEnd, hTree.get hElem hFits (by omega)]

end

theorem ListHolds.iter {list : SszList Value}
    (hHolds : ListHolds hash elem N es list) : list.iter N = es := by
  rcases list with ⟨backend, len, epc⟩
  rcases hHolds with ⟨-, hLen, hBack⟩
  cases backend with
  | flat ys => exact hBack
  | tree r =>
    cases hLen
    rcases hBack with ⟨rfl, hTree⟩
    exact hTree.iter hElem

theorem VectorHolds.iter {vector : SszVector Value}
    (hHolds : VectorHolds hash elem N es vector) : vector.iter N = es := by
  rcases vector with ⟨backend, epc⟩
  rcases hHolds with ⟨hLen, hBack⟩
  cases backend with
  | flat ys => exact hBack
  | tree r =>
    rcases hBack with ⟨rfl, hTree⟩
    have hIter := hTree.iter hElem
    rw [hLen] at hIter
    exact hIter

variable [BEq Value]

theorem ListHolds.eq {ys : List Value} {list x : SszList Value}
    (hHolds : ListHolds hash elem N es list) (hx : ListHolds hash elem N ys x) :
    list.eq N x = (es == ys) := by
  rw [SszList.eq_eq_iter, hHolds.iter hElem, hx.iter hElem, hHolds.len, hx.len]
  by_cases hLen : es.length = ys.length
  · rw [decide_eq_true hLen, Bool.true_and]
  · rw [decide_eq_false hLen, Bool.false_and]
    symm
    rw [Bool.eq_false_iff]
    exact fun hEq => hLen (length_eq_of_beq hEq)

theorem VectorHolds.eq {ys : List Value}
    {vector x : SszVector Value} (hHolds : VectorHolds hash elem N es vector)
    (hx : VectorHolds hash elem N ys x) : vector.eq N x = (es == ys) := by
  rw [SszVector.eq_eq_iter, hHolds.iter hElem, hx.iter hElem]

theorem simulates_listSequence (hFits : elem.Fits N) :
    Simulates (plainList hash elem N) (listSequence hash elem N) (ListHolds hash elem N) where
  fromVec es := by
    apply Meets.ite_error
    intro hRoom
    exact .ok ⟨not_lt.mp hRoom, rfl, rfl⟩
  fromVecTree es := by
    apply Meets.ite_error
    intro hRoom
    rw [Nat.not_lt] at hRoom
    exact .ok ⟨hRoom, rfl, rfl, treeHolds_treeFrom hElem hFits hRoom⟩
  empty := .some ⟨⟨Nat.zero_le N, rfl, rfl⟩, ⟨Nat.zero_le N, rfl, rfl, treeHolds_zeroSubtree⟩⟩
  intoTree := by
    rintro es ⟨backend, len, epc⟩ ⟨hRoom, hLen, hBack⟩
    cases backend with
    | tree r => exact .ok ⟨hRoom, hLen, hBack⟩
    | flat ys =>
      cases hBack
      change Meets _ _ (SszList.fromVecTree N elem es)
      rw [SszList.fromVecTree, if_neg (not_lt.mpr hRoom)]
      exact .ok ⟨hRoom, rfl, rfl, treeHolds_treeFrom hElem hFits hRoom⟩
  withPush := by
    rintro es ⟨backend, len, epc⟩ ⟨hRoom, rfl, hBack⟩ v
    apply Meets.ite_error
    intro hMore
    rw [not_le] at hMore
    have hLength : (es ++ [v]).length ≤ N := by
      rw [length_append]
      exact hMore
    cases backend with
    | flat ys =>
      cases hBack
      exact .ok ⟨hLength, rfl, rfl⟩
    | tree r =>
      rcases hBack with ⟨rfl, hTree⟩
      exact .ok ⟨hLength, by simp, rfl, hTree.withPush hElem hFits hMore v⟩
  withSet := by
    rintro es ⟨backend, len, epc⟩ ⟨hRoom, rfl, hBack⟩ i v
    apply Meets.ite_error
    intro hPlace
    rw [not_le] at hPlace
    have hLength : (es.set i v).length ≤ N := by
      simpa using hRoom
    cases backend with
    | flat ys =>
      cases hBack
      exact .ok ⟨hLength, by simp, rfl⟩
    | tree r =>
      rcases hBack with ⟨rfl, hTree⟩
      exact .ok ⟨hLength, by simp, rfl, hTree.withSet hElem hFits hRoom hPlace v⟩
  treeHashRoot := by
    rintro es ⟨backend, len, epc⟩ ⟨hRoom, rfl, hBack⟩
    cases backend with
    | flat ys =>
      cases hBack
      refine ⟨?_, hRoom, rfl, rfl⟩
      simp only [listSequence, plainList, SszList.treeHashRoot,
        merkleizePadded_flatLeaves hElem hFits hRoom, Option.map_some]
    | tree r =>
      rcases hBack with ⟨hEpc, hTree⟩
      rcases hTree.cachedRoot with ⟨hr, hPost⟩
      refine ⟨?_, hRoom, rfl, hEpc, hPost⟩
      simp only [listSequence, plainList, SszList.treeHashRoot, hr, hTree.freshRoot hElem]
      rfl
  shareRoot := by
    rintro es list ⟨hRoom, hLen, hBack⟩ path
    exact ⟨hRoom, hLen, backendHolds_shareRoot hBack path⟩
  len hHolds := hHolds.len.symm
  get := by
    rintro es ⟨backend, len, epc⟩ ⟨hRoom, rfl, hBack⟩ i
    cases backend with
    | flat ys =>
      cases hBack
      rfl
    | tree r =>
      rcases hBack with ⟨rfl, hTree⟩
      exact (treeGet_of_length hElem hFits hRoom hTree i).symm
  iter hHolds := (hHolds.iter hElem).symm
  eq hHolds hx := (hHolds.eq hElem hx).symm
  sszBytesLen hHolds :=
    congrArg _ (hHolds.iter hElem).symm
  asSszBytes hHolds :=
    congrArg _ (hHolds.iter hElem).symm

theorem simulates_vectorSequence (hFits : elem.Fits N) :
    Simulates (plainVector hash elem N) (vectorSequence hash elem N) (VectorHolds hash elem N) where
  fromVec es := by
    apply Meets.ite_error
    intro hLen
    exact .ok ⟨not_not.mp hLen, rfl⟩
  fromVecTree es := by
    apply Meets.ite_error
    intro hLen
    rw [not_not] at hLen
    exact .ok ⟨hLen, rfl, treeHolds_treeFrom hElem hFits hLen.le⟩
  empty := .none
  intoTree := by
    rintro es ⟨backend, epc⟩ ⟨hLen, hBack⟩
    cases backend with
    | tree r => exact .ok ⟨hLen, hBack⟩
    | flat ys =>
      cases hBack
      change Meets _ _ (SszVector.fromVecTree N elem es)
      rw [SszVector.fromVecTree, if_neg (not_not.mpr hLen)]
      exact .ok ⟨hLen, rfl, treeHolds_treeFrom hElem hFits hLen.le⟩
  withPush _ _ := .error _
  withSet := by
    rintro es ⟨backend, epc⟩ ⟨hLen, hBack⟩ i v
    apply Meets.ite_error
    intro hPlace
    rw [not_le, ← hLen] at hPlace
    have hSet : (es.set i v).length = N := by
      simpa using hLen
    cases backend with
    | flat ys =>
      cases hBack
      exact .ok ⟨hSet, rfl⟩
    | tree r =>
      rcases hBack with ⟨rfl, hTree⟩
      exact .ok ⟨hSet, rfl, hTree.withSet hElem hFits hLen.le hPlace v⟩
  treeHashRoot := by
    rintro es ⟨backend, epc⟩ ⟨hLen, hBack⟩
    cases backend with
    | flat ys =>
      cases hBack
      refine ⟨?_, hLen, rfl⟩
      simp only [vectorSequence, plainVector, SszVector.treeHashRoot,
        merkleize_flatLeaves hElem hFits hLen]
    | tree r =>
      rcases hBack with ⟨hEpc, hTree⟩
      rcases hTree.cachedRoot with ⟨hr, hPost⟩
      refine ⟨?_, hLen, hEpc, hPost⟩
      simp only [vectorSequence, plainVector, SszVector.treeHashRoot, hr, hTree.freshRoot hElem]
      rfl
  shareRoot := by
    rintro es vector ⟨hLen, hBack⟩ path
    exact ⟨hLen, backendHolds_shareRoot hBack path⟩
  len hHolds := hHolds.length
  get := by
    rintro es ⟨backend, epc⟩ ⟨hLen, hBack⟩ i
    cases backend with
    | flat ys =>
      cases hBack
      rfl
    | tree r =>
      rcases hBack with ⟨rfl, hTree⟩
      have hGet := treeGet_of_length hElem hFits hLen.le hTree i
      rw [hLen] at hGet
      exact hGet.symm
  iter hHolds := (hHolds.iter hElem).symm
  eq hHolds hx := (hHolds.eq hElem hx).symm
  sszBytesLen hHolds :=
    congrArg _ (hHolds.iter hElem).symm
  asSszBytes hHolds :=
    congrArg _ (hHolds.iter hElem).symm

omit hElem

end

----
-- Programs with Trees
----

section

open Outcome

variable {Value : Type} [BEq Value] {hash : HashConcat} {x : ElementType Value} {N : Nat}

theorem keepsFlat_listSequence : KeepsFlat (listSequence hash x N) where
  fromVec := by
    intro es made hOk
    rcases ite_error_ok_iff.mp hOk with ⟨-, hMade⟩
    cases hMade
    rfl
  new := by
    rintro pair ⟨⟩
    rfl
  withPush := by
    rintro ⟨es | r, len, epc⟩ v made ⟨⟩ hOk
    rcases ite_error_ok_iff.mp hOk with ⟨-, hMade⟩
    cases hMade
    rfl
  withSet := by
    rintro ⟨es | r, len, epc⟩ i v made ⟨⟩ hOk
    rcases ite_error_ok_iff.mp hOk with ⟨-, hMade⟩
    cases hMade
    rfl
  treeHashRoot := by
    rintro ⟨es | r, len, epc⟩ ⟨⟩
    rfl
  shareRoot := by
    rintro ⟨es | r, len, epc⟩ path ⟨⟩
    rfl

theorem keepsFlat_vectorSequence : KeepsFlat (vectorSequence hash x N) where
  fromVec := by
    intro es made hOk
    rcases ite_error_ok_iff.mp hOk with ⟨-, hMade⟩
    cases hMade
    rfl
  new := by
    intro pair hPair
    nomatch hPair
  withPush := by
    intro vector v made hFlat hOk
    nomatch hOk
  withSet := by
    rintro ⟨es | r, epc⟩ i v made ⟨⟩ hOk
    rcases ite_error_ok_iff.mp hOk with ⟨-, hMade⟩
    cases hMade
    rfl
  treeHashRoot := by
    rintro ⟨es | r, epc⟩ ⟨⟩
    rfl
  shareRoot := by
    rintro ⟨es | r, epc⟩ path ⟨⟩
    rfl

omit [BEq Value] in
theorem exact_of_backendHolds {es : List Value} {epc : Nat} {backend : Backend Value}
    (hBack : BackendHolds hash x N es epc backend) (r : Node Value)
    (hTree : backend = .tree r) : r.Exact hash x := by
  rw [hTree] at hBack
  exact hBack.2.exact

end

----
-- Overflow
----

open Chunks

variable {Value Cell : Type} {hash : HashConcat} {elem : ElementType Value} {N : Nat}

theorem length_elements_fromCells {leafOf : Cell → Node Value} {size : Nat} {cells : List Cell}
    (hLeaf : ∀ cell ∈ cells, ∀ d, ((leafOf cell).elements d).length ≤ size) (d : Nat) :
    ((Node.fromCells leafOf d cells).elements d).length ≤ 2 ^ d * size := by
  induction d generalizing cells with
  | zero =>
    cases cells with
    | nil => exact Nat.zero_le _
    | cons cell xs =>
      rw [Nat.pow_zero, Nat.one_mul]
      exact hLeaf cell mem_cons_self 0
  | succ d ih =>
    have hLeft : ((Node.fromCells leafOf d (cells.take (2 ^ d))).elements d).length ≤
        2 ^ d * size := ih fun cell hCell =>
        hLeaf cell (mem_of_mem_take hCell)
    have hRight : ((Node.fromCells leafOf d (cells.drop (2 ^ d))).elements d).length ≤
        2 ^ d * size := ih fun cell hCell =>
        hLeaf cell (mem_of_mem_drop hCell)
    rw [Node.fromCells_succ, Node.elements, length_append, pow_succ, mul_comm _ 2,
      Nat.mul_assoc, Nat.two_mul]
    apply Nat.add_le_add hLeft
    split
    · cases d <;> exact Nat.zero_le _
    · exact hRight

theorem capacity_lt_of_not_fits (hElem : elem.Admissible) (hOverflow : ¬ elem.Fits N) :
    2 ^ treeDepth N elem.elemsPerChunk * elem.elemsPerChunk < N := by
  have hOver : 2 ^ 64 ≤ N * elem.leafSize := not_lt.mp hOverflow
  by_contra hRoom
  rw [not_lt] at hRoom
  have hDepth : treeDepth N elem.elemsPerChunk = Nat.clog 2 (chunkLimit N elem.leafSize) :=
      treeDepth_eq_clog N elem.elemsPerChunk
  have hLimit : chunkLimit N elem.leafSize ≤ 2 ^ 59 := by
    unfold chunkLimit
    omega
  have hSmall : 2 ^ treeDepth N elem.elemsPerChunk ≤ 2 ^ 59 := by
    apply Nat.pow_le_pow_right Nat.two_pos
    rw [hDepth, Nat.clog_le_iff_le_pow Nat.one_lt_two]
    exact hLimit
  have hBytes := Nat.mul_le_mul_right elem.leafSize hRoom
  rw [Nat.mul_assoc, hElem.elemsPerChunk_mul] at hBytes
  have hExactly : N * elem.leafSize = 2 ^ 64 := by omega
  have hNone : chunkLimit N elem.leafSize = 0 := by
    rw [chunkLimit, hExactly, Nat.mod_self]
  rw [hDepth, hNone, Nat.clog_zero_right] at hBytes
  omega

theorem length_treeIter_le (N epc len : Nat) (r : Node Value) :
    (treeIter N epc r len).length ≤ (r.elements (treeDepth N epc)).length := by
  unfold treeIter TreeIter.new
  rw [TreeIter.collect_eq, length_take]
  refine (min_le_right _ _).trans ?_
  by_cases hSome : 0 < len
  · simp [TreeIter.upcoming, hSome]
  · simp [TreeIter.upcoming, hSome]

theorem length_elements_treeFrom (N : Nat) (es : List Value) :
    ((treeFrom N elem es).elements (treeDepth N elem.elemsPerChunk)).length ≤
      2 ^ treeDepth N elem.elemsPerChunk * elem.elemsPerChunk := by
  unfold treeFrom
  by_cases hOne : elem.elemsPerChunk = 1
  · simp only [hOne, if_true]
    apply length_elements_fromCells
    intro v _ d
    cases d <;> exact le_refl 1
  · simp only [hOne, if_false]
    apply length_elements_fromCells
    intro c hChunk d
    have hElements : (Node.packedLeaf c none).elements d = c := by
      cases d <;> rfl
    rw [hElements]
    rcases mem_map.mp hChunk with ⟨i, -, rfl⟩
    exact length_take_le _ _

variable [BEq Value]

/- Then a list that is long enough loses its end. -/
theorem not_runsAsFlat_of_not_fits [Nonempty Value] (hElem : elem.Admissible)
    (hOverflow : ¬ elem.Fits N) :
    ∃ acts, ¬ RunsAsFlat hash elem (listSequence hash elem N) acts := by
  rcases ‹Nonempty Value› with ⟨v⟩
  have hLong : ∃ es : List Value, es.length = N := ⟨List.replicate N v, length_replicate⟩
  rcases hLong with ⟨es, hLen⟩
  refine ⟨[.fromVecTree es], ?_⟩
  intro hRuns
  have hTree : (listSequence hash elem N).after [.fromVecTree es] =
      [⟨.tree (treeFrom N elem es), es.length, elem.elemsPerChunk⟩] := by
    simp [SszSequence.after, Run.final, Run.next, SszSequence.step, listSequence,
      SszList.fromVecTree, Except.map, hLen]
  have hFlat : (listSequence hash elem N).after [.fromVec es] = [⟨.flat es, es.length, 1⟩] := by
    simp [SszSequence.after, Run.final, Run.next, SszSequence.step, listSequence, SszList.fromVec,
      Except.map, hLen]
  have hEq := hRuns.same
  rw [hTree] at hEq
  change List.Forall₂ _ _ ((listSequence hash elem N).after [.fromVec es]) at hEq
  rw [hFlat, forall₂_cons] at hEq
  have hIter := congrArg List.length hEq.1.iter
  change (treeIter N elem.elemsPerChunk (treeFrom N elem es) es.length).length = es.length at hIter
  have hBd := (length_treeIter_le N elem.elemsPerChunk es.length (treeFrom N elem es)).trans
    (length_elements_treeFrom N es)
  have hRoom := capacity_lt_of_not_fits hElem hOverflow
  rw [hIter, hLen] at hBd
  omega

/-
  Programs on lists and vectors run as they do without trees if and only if the depth of a tree is
  computed without an overflow.
-/
theorem runsAsFlat_iff_fits [Nonempty Value] (hash : HashConcat) (elem : ElementType Value)
    (hElem : elem.Admissible) (N : Nat) :
    (∀ actions,
      RunsAsFlat hash elem (listSequence hash elem N) actions ∧
        RunsAsFlat hash elem (vectorSequence hash elem N) actions) ↔
      elem.Fits N := by
  constructor
  · intro hAll
    by_contra hOverflow
    rcases not_runsAsFlat_of_not_fits hElem hOverflow with ⟨actions, hFails⟩
    exact hFails (hAll actions).1
  · intro hFits actions
    constructor
    · exact (simulates_listSequence hElem hFits).runsAsFlat (fun _ act => by cases act <;> rfl)
        (fun _ => ⟨_, rfl⟩) keepsFlat_listSequence
        (fun hHolds => exact_of_backendHolds hHolds.backend) actions
    · exact (simulates_vectorSequence hElem hFits).runsAsFlat (fun _ act => by cases act <;> rfl)
        (fun _ => ⟨_, rfl⟩) keepsFlat_vectorSequence
        (fun hHolds => exact_of_backendHolds hHolds.backend) actions

/- Four numbers share a leaf. -/
theorem numbers_run_as_flat : RunsAsFlat (fun left _ => left) (uintElement .u64)
      (listSequence (fun left _ => left) (uintElement .u64) 6)
      [.fromVecTree [1, 2, 3, 4], .withPush 0 5, .withSet 1 2 9, .treeHashRoot 2, .withSet 2 7 0] :=
  ((runsAsFlat_iff_fits (fun left _ => left)
    (uintElement .u64) (admissible_uintElement .u64) 6).mpr
      (by unfold ElementType.Fits; decide) _).1

/- A flag whose leaf is a chunk of its own. -/
def flagElement : ElementType Bool where
  codec := boolCodec
  treeHashType := .container
  packedAsFullChunk := false
  treeHashRoot value := chunkOf [if value then 1 else 0]
  treeHashPackedEncoding _ := []

/- The depth of the tree is zero, and its second flag lost. -/
theorem flags_lost_in_tree : ¬ RunsAsFlat (fun left _ => left) flagElement
      (listSequence (fun left _ => left) flagElement (2 ^ 59))
      [.fromVecTree [false, true]] := by
  intro hRuns
  cases hRuns.same with
  | cons hFst _ => exact absurd (hFst.get 1) (by decide)

end Pharos.Ssz
