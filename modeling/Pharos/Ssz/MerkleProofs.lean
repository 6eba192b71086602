import Mathlib.Data.Nat.Bitwise
import Pharos.Ssz.TreeHash

/-
  This file implements merkleization as it is computed on machine words, with a parallel path for
  long levels, and Merkle proofs of single leaves.

  Main theorems:
  * `Ssz.merkleization_exact`
  * `Ssz.merkle_proofs_exact`
-/

----
-- Levels in Parallel
----

namespace Pharos.Ssz

open List

section

variable (hash : HashConcat)

/- The pairs of a level. A node without a partner is left out. -/
def hashPairs (current : List Hash256) : List Hash256 :=
  (List.range (current.length / 2)).map fun i =>
    hash (current.getD (2 * i) zeroChunk) (current.getD (2 * i + 1) zeroChunk)

/- The slots of the next level, each filled on its own. -/
def mergeLevelParallel (zero : Hash256) (current : List Hash256) : List Hash256 :=
  hashPairs hash current ++ if current.length % 2 = 1 then
    [hash (current.getD (2 * (current.length / 2)) zeroChunk) zero] else []

def mergeLevelsBy (inParallel : Nat → Bool) : Nat → Nat → List Hash256 → List Hash256
| _, 0, current => current
| depth, count + 1, current =>
  mergeLevelsBy inParallel (depth + 1) count
    (if inParallel (current.length / 2) then mergeLevelParallel hash (zeroHash hash depth) current
      else Merkle.mergeLevel hash (zeroHash hash depth) current)

/- Past the largest power of two in a word, the next one wraps to zero. -/
def nextPowOfTwoWord (n : Nat) : Nat :=
  nextPowOfTwo n % 2 ^ 64

def trailingZeros (word : Nat) : Nat :=
  if word = 0 then 64 else Nat.log 2 word

variable (inParallel : Nat → Bool)

section

variable (chunks : List Hash256)

/- The table of zero hashes has 64 entries, and there is no root without one. -/
def merkleizePaddedInnerBy (paddedLen : Nat) : Option Hash256 :=
  let totalDepth := trailingZeros paddedLen
  if chunks = [] then
    if totalDepth < 64 then some (zeroHash hash totalDepth) else none
  else
    some ((mergeLevelsBy hash inParallel 0 totalDepth chunks).head?.getD zeroChunk)

def merkleizeBy : Option Hash256 :=
  if chunks = [] then
    some (zeroHash hash 0)
  else
    merkleizePaddedInnerBy hash inParallel chunks (nextPowOfTwoWord chunks.length)

def merkleizePaddedBy (limit : Nat) : Option Hash256 :=
  merkleizePaddedWith hash (merkleizePaddedInnerBy hash inParallel) nextPowOfTwoWord chunks limit

def paddedChunks (limit : Nat) : List Hash256 :=
  chunks ++ List.replicate (nextPowOfTwo limit - chunks.length) zeroChunk

def paddedRoot (limit : Nat) : Hash256 :=
  Merkle.root hash zeroChunk (Nat.clog 2 limit) (paddedChunks chunks limit)

end

variable {hash}

theorem mergeLevelParallel_eq (zero : Hash256) (cur : List Hash256) :
    mergeLevelParallel hash zero cur = Merkle.mergeLevel hash zero cur := by
  match cur with
  | [] => rfl
  | [last] => simp [mergeLevelParallel, hashPairs, Merkle.mergeLevel]
  | a :: b :: xs =>
    have hHalf : (xs.length + 2) / 2 = xs.length / 2 + 1 := by omega
    have hOdd : (xs.length + 1 + 1) % 2 = xs.length % 2 := by omega
    rw [Merkle.mergeLevel, ← mergeLevelParallel_eq zero xs]
    simp [mergeLevelParallel, hashPairs, hHalf, hOdd, range_succ_eq_map, Function.comp_def, mul_add]

theorem mergeLevelsBy_eq (d n : Nat) (cur : List Hash256) :
    mergeLevelsBy hash inParallel d n cur = mergeLevels hash d n cur := by
  induction n generalizing d cur with
  | zero => rfl
  | succ n ih => rw [mergeLevelsBy, mergeLevels, mergeLevelParallel_eq, ite_self, ih]

theorem nextPowOfTwo_eq (n : Nat) : nextPowOfTwo n = 2 ^ Nat.clog 2 n := by
  unfold nextPowOfTwo
  split
  · rename_i hOne
    rw [Nat.clog_of_right_le_one hOne]
    rfl
  · rfl

/- A wrapped power has as many trailing zeros. -/
theorem trailingZeros_nextPowOfTwoWord {limit : Nat} (hWord : limit < 2 ^ 64) :
    trailingZeros (nextPowOfTwoWord limit) = Nat.clog 2 limit := by
  unfold trailingZeros nextPowOfTwoWord
  rw [nextPowOfTwo_eq]
  have hClog := (Nat.clog_le_iff_le_pow one_lt_two).mpr hWord.le
  rcases hClog.lt_or_eq with hLess | hLast
  · rw [Nat.mod_eq_of_lt (Nat.pow_lt_pow_right one_lt_two hLess),
      if_neg (Nat.two_pow_pos _).ne', Nat.log_pow one_lt_two]
  · rw [hLast, Nat.mod_self, if_pos rfl]

theorem merkleizePaddedInnerBy_eq (cs : List Hash256) {limit : Nat} (hWord : limit < 2 ^ 64) :
    merkleizePaddedInnerBy hash inParallel cs (nextPowOfTwoWord limit) =
      if cs = [] ∧ 2 ^ 63 < limit then none
      else some (merkleizePaddedInner hash cs (nextPowOfTwo limit)) := by
  have hLast : Nat.clog 2 limit < 64 ↔ ¬2 ^ 63 < limit := by
    rw [Nat.lt_succ_iff, Nat.clog_le_iff_le_pow one_lt_two, not_lt]
  unfold merkleizePaddedInnerBy merkleizePaddedInner
  rw [trailingZeros_nextPowOfTwoWord hWord, log_nextPowOfTwo]
  dsimp only
  rw [mergeLevelsBy_eq]
  by_cases hNone : cs = []
  · simp only [hNone, if_true, true_and, hLast, ite_not]
  · rw [if_neg hNone, if_neg fun hBoth => hNone hBoth.1, if_neg hNone]

theorem merkleizeBy_eq {cs : List Hash256} (hWord : cs.length < 2 ^ 64) :
    merkleizeBy hash inParallel cs = some (merkleize hash cs) := by
  unfold merkleizeBy merkleize
  split
  · rfl
  · rename_i hNone
    rw [merkleizePaddedInnerBy_eq _ _ hWord, if_neg fun hBoth => hNone hBoth.1]

theorem merkleizePaddedBy_eq (cs : List Hash256) {limit : Nat} (hWord : limit < 2 ^ 64) :
    merkleizePaddedBy hash inParallel cs limit =
      if cs = [] ∧ 2 ^ 63 < limit then none else merkleizePadded hash cs limit := by
  unfold merkleizePaddedBy merkleizePadded merkleizePaddedWith
  rw [merkleizePaddedInnerBy_eq _ _ (by omega : max limit 1 < 2 ^ 64)]
  have hMax : 2 ^ 63 < max limit 1 ↔ 2 ^ 63 < limit := by omega
  simp only [hMax]
  grind

theorem paddedRoot_eq (hash : HashConcat) (cs : List Hash256) (limit : Nat) :
    paddedRoot hash cs limit = Merkle.root hash zeroChunk (Nat.clog 2 limit) cs :=
  Merkle.root_append_replicate ..

/-
  Both functions give the root of the whole tree, whichever levels are merged in parallel. There is
  one exception: no chunks, under a limit whose next power of two is no machine word.
-/
theorem merkleization_exact (hash : HashConcat) (inParallel : Nat → Bool) (chunks : List Hash256)
    (limit : Nat) (hFits : chunks.length ≤ limit) (hWord : limit < 2 ^ 64) :
    merkleizeBy hash inParallel chunks = some (paddedRoot hash chunks chunks.length) ∧
      merkleizePaddedBy hash inParallel chunks limit =
        if chunks = [] ∧ 2 ^ 63 < limit then none else some (paddedRoot hash chunks limit) := by
  constructor
  · rw [merkleizeBy_eq _ (hFits.trans_lt hWord), merkleize_eq_root, paddedRoot_eq]
  · rw [merkleizePaddedBy_eq _ _ hWord, merkleizePadded_eq_root hFits, paddedRoot_eq]

def leftHash : HashConcat :=
  fun left _ => left

theorem merkleization_exact_oneChunk :
    merkleizeBy leftHash (16 ≤ ·) [zeroChunk] = some (paddedRoot leftHash [zeroChunk] 1) ∧
      merkleizePaddedBy leftHash (16 ≤ ·) [zeroChunk] 3 =
        if [zeroChunk] = [] ∧ 2 ^ 63 < 3 then none
        else some (paddedRoot leftHash [zeroChunk] 3) :=
  merkleization_exact leftHash (16 ≤ ·) [zeroChunk] 3 (by decide) (by decide)

theorem no_root_under_large_limit : merkleizePaddedBy leftHash (16 ≤ ·) [] (2 ^ 63 + 1) = none := by
  rw [merkleizePaddedBy_eq _ _ (by decide), if_pos ⟨rfl, by decide⟩]

end

----
-- Proofs of Leaves
----

abbrev GeneralizedIndex := Nat

structure MerkleProof where
  leaf : Hash256
  branch : List Hash256
  index : GeneralizedIndex

def getGeneralizedIndexLength (g : GeneralizedIndex) : Option Nat :=
  if g = 0 then none else some (Nat.log 2 g)

variable (hash : HashConcat)

/- From a leaf up to a root. The last bit of the index tells on which side the sibling is. -/
def climbBranch : Hash256 → GeneralizedIndex → List Hash256 → Hash256
| current, _, [] => current
| current, index, sibling :: rest =>
  climbBranch (if index % 2 = 1 then hash sibling current else hash current sibling) (index / 2) rest

def verifyMerkleProof (root : Hash256) (proof : MerkleProof) : Option Bool := do
  let depth ← getGeneralizedIndexLength proof.index
  if proof.branch.length ≠ depth then
    some false
  else
    some (climbBranch hash proof.leaf proof.index proof.branch = root)

/- The pairs that are hashed on the way. -/
def climbPairs : Hash256 → GeneralizedIndex → List Hash256 → List (Hash256 × Hash256)
| _, _, [] => []
| current, index, sibling :: rest =>
  let pair := if index % 2 = 1 then (sibling, current) else (current, sibling)
  pair :: climbPairs (hash pair.1 pair.2) (index / 2) rest

/- On some level the two ways hash different pairs to one value. -/
def Collide (pairs others : List (Hash256 × Hash256)) : Prop :=
  ∃ (level : Nat) (pair other : Hash256 × Hash256),
    pairs[level]? = some pair ∧ others[level]? = some other ∧ pair ≠ other ∧
      hash pair.1 pair.2 = hash other.1 other.2

def siblings : Nat → List Hash256 → Nat → List Hash256
| 0, _, _ => []
| fuel + 1, layer, pos =>
  if layer.length ≤ 1 then
    []
  else
    layer.getD (pos ^^^ 1) zeroChunk :: siblings fuel (hashPairs hash layer) (pos / 2)

def buildSingleProofFromLeaves (leaves : List Hash256) (index : GeneralizedIndex) :
    Option MerkleProof :=
  let n := nextPowOfTwo (max leaves.length 1)
  if n ≤ index ∧ index - n < n then
    let layer := paddedChunks leaves (max leaves.length 1)
    some ⟨layer.getD (index - n) zeroChunk, siblings hash n layer (index - n), index⟩
  else
    none

/- The leading bit is stripped from the child, and the product is one of machine words. -/
def concatGeneralizedIndices (parent child : GeneralizedIndex) : Option GeneralizedIndex := do
  let childDepth ← getGeneralizedIndexLength child
  if parent = 0 then none
  else some ((parent * 2 ^ childDepth + (child ^^^ 2 ^ childDepth)) % 2 ^ 64)

variable {hash}

theorem climbBranch_append (cur : Hash256) (i : Nat) (a b : List Hash256) :
    climbBranch hash cur i (a ++ b) =
      climbBranch hash (climbBranch hash cur i a) (i / 2 ^ a.length) b := by
  induction a generalizing cur i with
  | nil => simp [climbBranch]
  | cons sibling xs ih =>
    rw [cons_append, climbBranch, ih, climbBranch, length_cons, pow_succ', Nat.div_div_eq_div_mul]

theorem climbBranch_add_mul (cur : Hash256) (above i : Nat) (branch : List Hash256) :
    climbBranch hash cur (above * 2 ^ branch.length + i) branch =
      climbBranch hash cur i branch := by
  induction branch generalizing cur i with
  | nil => rfl
  | cons sibling xs ih =>
    have hShift : above * 2 ^ (xs.length + 1) = 2 * (above * 2 ^ xs.length) := by
      rw [pow_succ']
      exact mul_left_comm _ _ _
    rw [climbBranch, climbBranch, length_cons, hShift, Nat.mul_add_mod, Nat.mul_add_div two_pos, ih]

section

variable {layer : List Hash256} {n pos : Nat} (hLen : layer.length = 2 * n)
include hLen

theorem hashPairs_eq (zero : Hash256) :
    hashPairs hash layer = Merkle.mergeLevel hash zero layer := by
  simp [← mergeLevelParallel_eq, mergeLevelParallel, hLen]

theorem parent_eq (hPos : pos < 2 * n) :
    (if pos % 2 = 1 then hash (layer.getD (pos ^^^ 1) zeroChunk) (layer.getD pos zeroChunk)
      else hash (layer.getD pos zeroChunk) (layer.getD (pos ^^^ 1) zeroChunk)) =
      (hashPairs hash layer).getD (pos / 2) zeroChunk := by
  have hHalf : (pos ^^^ 1) / 2 = pos / 2 := by simp [Nat.xor_div_two]
  have hSide : (pos ^^^ 1) % 2 = (pos + 1) % 2 := Nat.xor_mod_two_eq
  have hIdx : pos / 2 < n := by omega
  rcases Nat.mod_two_eq_zero_or_one pos with hEven | hOdd
  · have hSelf : pos = 2 * (pos / 2) := by omega
    have hx : pos ^^^ 1 = 2 * (pos / 2) + 1 := by omega
    rw [if_neg (by omega), hx]
    nth_rewrite 1 [hSelf]
    simp [hashPairs, hLen, hIdx]
  · have hSelf : pos = 2 * (pos / 2) + 1 := by omega
    have hx : pos ^^^ 1 = 2 * (pos / 2) := by omega
    rw [if_pos hOdd, hx]
    nth_rewrite 2 [hSelf]
    simp [hashPairs, hLen, hIdx]

end

theorem climbBranch_siblings (zero : Hash256) {d fuel pos : Nat} {layer : List Hash256}
    (hFuel : d ≤ fuel) (hLen : layer.length = 2 ^ d) (hPos : pos < 2 ^ d) :
    (siblings hash fuel layer pos).length = d ∧
      climbBranch hash (layer.getD pos zeroChunk) pos (siblings hash fuel layer pos) =
        Merkle.root hash zero d layer := by
  induction d generalizing zero fuel layer pos with
  | zero =>
    rcases length_eq_one_iff.mp hLen with ⟨leaf, rfl⟩
    obtain rfl : pos = 0 := by simpa using hPos
    cases fuel <;> simp [siblings, climbBranch, Merkle.root]
  | succ d ih =>
    rcases Nat.exists_eq_succ_of_ne_zero (by omega : fuel ≠ 0) with ⟨fuel, rfl⟩
    rw [pow_succ'] at hLen hPos
    have hMany : ¬layer.length ≤ 1 := by
      omega
    have hNext : (hashPairs hash layer).length = 2 ^ d := by simp [hashPairs, hLen]
    have hxs := ih (hash zero zero) (Nat.le_of_succ_le_succ hFuel) hNext (Nat.div_lt_of_lt_mul hPos)
    rw [Nat.succ_eq_add_one, siblings, if_neg hMany, climbBranch, parent_eq hLen hPos,
      Merkle.root_succ, ← hashPairs_eq hLen, length_cons]
    exact ⟨congrArg (· + 1) hxs.1, hxs.2⟩

theorem climbBranch_cons (cur : Hash256) (i : Nat) (sibling : Hash256) (xs : List Hash256) :
    climbBranch hash cur i (sibling :: xs) =
      let pair := if i % 2 = 1 then (sibling, cur) else (cur, sibling)
      climbBranch hash (hash pair.1 pair.2) (i / 2) xs := by
  rw [climbBranch]
  split <;> rfl

/- Two ways up from one position to one root start at the same leaf, or collide. -/
theorem eq_or_collide_of_climbBranch {leaf other : Hash256} {i : Nat} {branch others : List Hash256}
    (hLen : branch.length = others.length)
    (hRoot : climbBranch hash leaf i branch = climbBranch hash other i others) :
    leaf = other ∨ Collide hash (climbPairs hash leaf i branch) (climbPairs hash other i others) := by
  induction branch generalizing leaf other i others with
  | nil =>
    obtain rfl : others = [] := length_eq_zero_iff.mp hLen.symm
    exact Or.inl hRoot
  | cons sibling xs ih =>
    rcases others with _ | ⟨second, ys⟩
    · simp at hLen
    rw [climbBranch_cons, climbBranch_cons] at hRoot
    rcases ih (by simpa using hLen) hRoot with hNext | ⟨level, pair, mate, hPair, hMate, hBoth⟩
    · by_cases hSame : (if i % 2 = 1 then (sibling, leaf) else (leaf, sibling)) =
        if i % 2 = 1 then (second, other) else (other, second)
      · left
        split at hSame
        · exact congrArg Prod.snd hSame
        · exact congrArg Prod.fst hSame
      · exact Or.inr ⟨0, _, _, rfl, rfl, hSame, hNext⟩
    · exact Or.inr ⟨level + 1, pair, mate, hPair, hMate, hBoth⟩

theorem verifyMerkleProof_eq_true_iff {r leaf : Hash256} {branch : List Hash256} {i : Nat} :
    verifyMerkleProof hash r ⟨leaf, branch, i⟩ = some true ↔
      i ≠ 0 ∧ branch.length = Nat.log 2 i ∧ climbBranch hash leaf i branch = r := by
  unfold verifyMerkleProof getGeneralizedIndexLength
  by_cases hZero : i = 0
  · simp [hZero]
  · by_cases hBranch : branch.length = Nat.log 2 i <;> simp [hZero, hBranch]

def leafAt (leaves : List Hash256) (index : GeneralizedIndex) : Hash256 :=
  (paddedChunks leaves leaves.length).getD (index - nextPowOfTwo leaves.length) zeroChunk

/- A child index is its leading bit, and the path below. -/
theorem two_pow_log_add_xor {g : Nat} (hSome : g ≠ 0) :
    2 ^ Nat.log 2 g + (g ^^^ 2 ^ Nat.log 2 g) = g := by
  have hLow := Nat.pow_log_le_self 2 hSome
  have hHigh := Nat.lt_pow_succ_log_self one_lt_two g
  generalize Nat.log 2 g = d at hLow hHigh
  rcases Nat.exists_eq_add_of_le hLow with ⟨path, rfl⟩
  have hPath : path < 2 ^ d := by omega
  congr 1
  apply Nat.eq_of_testBit_eq
  intro j
  rcases lt_trichotomy j d with hBelow | rfl | hAbove
  · simp [Nat.testBit_two_pow_add_gt hBelow, hBelow.ne']
  · simp [Nat.testBit_two_pow_add_eq, Nat.testBit_lt_two_pow hPath]
  · have hPow : 2 ^ (d + 1) ≤ 2 ^ j := Nat.pow_le_pow_right two_pos hAbove
    simp [Nat.testBit_lt_two_pow (hHigh.trans_le hPow), hAbove.ne,
      Nat.testBit_lt_two_pow (x := path) (i := j) (by omega)]

theorem verify_append_iff {x z : Hash256} {a b : List Hash256} {g h : Nat}
    (hKid : g ≠ 0) (hFst : a.length = Nat.log 2 g) (hPar : h ≠ 0)
    (hSnd : b.length = Nat.log 2 h) :
    verifyMerkleProof hash z ⟨x, a ++ b,
        (h * 2 ^ Nat.log 2 g + (g ^^^ 2 ^ Nat.log 2 g)) % 2 ^ 64⟩ = some true ↔
      Nat.log 2 h + Nat.log 2 g < 64 ∧ climbBranch hash (climbBranch hash x g a) h b = z := by
  have hPath := two_pow_log_add_xor hKid
  have hBelow := Nat.lt_pow_succ_log_self one_lt_two g
  generalize g ^^^ 2 ^ Nat.log 2 g = path at *
  have hLow : 2 ^ (Nat.log 2 h + Nat.log 2 g) ≤ h * 2 ^ Nat.log 2 g + path := by
    rw [Nat.pow_add]
    exact (Nat.mul_le_mul_right _ (Nat.pow_log_le_self 2 hPar)).trans (Nat.le_add_right _ _)
  have hHigh : h * 2 ^ Nat.log 2 g + path < 2 ^ (Nat.log 2 h + Nat.log 2 g + 1) := by
    have hNext := Nat.mul_le_mul_right (2 ^ Nat.log 2 g)
      (Nat.succ_le_of_lt (Nat.lt_pow_succ_log_self Nat.one_lt_two h))
    rw [Nat.succ_mul, ← Nat.pow_add, Nat.succ_add] at hNext
    omega
  rw [verifyMerkleProof_eq_true_iff, length_append, hFst, hSnd, Nat.add_comm (Nat.log 2 g)]
  by_cases hWord : Nat.log 2 h + Nat.log 2 g < 64
  · have hClimb : climbBranch hash x (h * 2 ^ Nat.log 2 g + path) (a ++ b) =
        climbBranch hash (climbBranch hash x g a) h b := by
      have hEq : climbBranch hash x _ _ = _ := climbBranch_add_mul x 1 path a
      rw [one_mul, hFst, hPath] at hEq
      rw [climbBranch_append, hEq, ← climbBranch_add_mul x h path a, hFst, mul_comm h,
        Nat.mul_add_div (Nat.two_pow_pos _), Nat.div_eq_of_lt (by omega), add_zero]
    have hSmall := hHigh.trans_le (Nat.pow_le_pow_right two_pos hWord)
    simp only [Nat.mod_eq_of_lt hSmall, hClimb, Nat.log_eq_of_pow_le_of_lt_pow hLow hHigh, hWord,
      true_and, ne_eq, ((Nat.two_pow_pos _).trans_le hLow).ne', not_false_eq_true]
  · refine ⟨fun hOk => absurd ?_ hWord, fun hOk => absurd hOk.1 hWord⟩
    rw [hOk.2.1]
    exact Nat.log_lt_of_lt_pow hOk.1 (Nat.mod_lt _ (Nat.two_pow_pos 64))

section

variable {ls : List Hash256} {pos : Nat}

theorem length_paddedChunks_self :
    (paddedChunks ls ls.length).length = 2 ^ Nat.clog 2 ls.length := by
  have hLe := Nat.le_pow_clog one_lt_two ls.length
  simp only [paddedChunks, nextPowOfTwo_eq, length_append, length_replicate]
  omega

theorem merkleize_eq_padded : merkleize hash ls =
    Merkle.root hash zeroChunk (Nat.clog 2 ls.length) (paddedChunks ls ls.length) := by
  rw [merkleize_eq_root, paddedChunks, Merkle.root_append_replicate]

theorem buildSingleProofFromLeaves_climbs (hash : HashConcat) (hSome : ls ≠ [])
    (hPos : pos < 2 ^ Nat.clog 2 ls.length) :
    let leaf := (paddedChunks ls ls.length).getD pos zeroChunk
    ∃ branch, buildSingleProofFromLeaves hash ls (2 ^ Nat.clog 2 ls.length + pos) =
        some ⟨leaf, branch, 2 ^ Nat.clog 2 ls.length + pos⟩ ∧
      branch.length = Nat.clog 2 ls.length ∧
      climbBranch hash leaf pos branch = merkleize hash ls := by
  have hOne : max ls.length 1 = ls.length :=
    max_eq_left (length_pos_of_ne_nil hSome)
  rw [merkleize_eq_padded]
  refine ⟨_, ?_, climbBranch_siblings zeroChunk Nat.lt_two_pow_self.le length_paddedChunks_self
    hPos⟩
  unfold buildSingleProofFromLeaves
  simp only [hOne, nextPowOfTwo_eq, Nat.add_sub_cancel_left]
  exact if_pos ⟨Nat.le_add_right _ _, hPos⟩

end

/-
  Proofs are complete and sound, and compose as long as the index of the composition is a machine
  word. A proof of another leaf at the same index gives away two pairs with one hash: one that its
  verification hashes, and one on the same level of the proof that was built.
-/
theorem merkle_proofs_exact (hash : HashConcat) :
    (∀ leaves (index : Nat), leaves ≠ [] → nextPowOfTwo leaves.length ≤ index →
      index < 2 * nextPowOfTwo leaves.length →
        ∃ proof, buildSingleProofFromLeaves hash leaves index = some proof ∧
          proof.leaf = leafAt leaves index ∧ proof.index = index ∧
          verifyMerkleProof hash (merkleize hash leaves) proof = some true ∧
          ∀ leaf branch,
            verifyMerkleProof hash (merkleize hash leaves) ⟨leaf, branch, index⟩ = some true →
            leaf = leafAt leaves index ∨
              Collide hash (climbPairs hash leaf index branch)
                (climbPairs hash proof.leaf index proof.branch)) ∧
    ∀ x y z first second (g h : Nat), verifyMerkleProof hash y ⟨x, first, g⟩ = some true →
      verifyMerkleProof hash z ⟨y, second, h⟩ = some true →
      ∃ index, concatGeneralizedIndices h g = some index ∧
        (verifyMerkleProof hash z ⟨x, first ++ second, index⟩ = some true ↔
          Nat.log 2 h + Nat.log 2 g < 64) := by
  constructor
  · intro leaves index hSome hLow hHigh
    rw [nextPowOfTwo_eq] at hLow hHigh
    rcases Nat.exists_eq_add_of_le hLow with ⟨pos, rfl⟩
    have hPos : pos < 2 ^ Nat.clog 2 leaves.length := by omega
    have hDepth : Nat.log 2 (2 ^ Nat.clog 2 leaves.length + pos) = Nat.clog 2 leaves.length :=
      Nat.log_eq_of_pow_le_of_lt_pow hLow (by rw [pow_succ']; exact hHigh)
    have hIdx : 2 ^ Nat.clog 2 leaves.length + pos ≠ 0 := by omega
    have hClimb (leaf : Hash256) (branch : List Hash256)
        (hBranch : branch.length = Nat.clog 2 leaves.length) : climbBranch hash leaf
          (2 ^ Nat.clog 2 leaves.length + pos) branch = climbBranch hash leaf pos branch := by
      have hAbove : climbBranch hash leaf _ _ = _ := climbBranch_add_mul leaf 1 pos branch
      rwa [Nat.one_mul, hBranch] at hAbove
    unfold leafAt
    rw [nextPowOfTwo_eq, Nat.add_sub_cancel_left]
    rcases buildSingleProofFromLeaves_climbs hash hSome hPos with ⟨branch, hBuilt, hLen, hRoot⟩
    rw [← hClimb _ _ hLen] at hRoot
    refine ⟨_, hBuilt, rfl, rfl, ?_, ?_⟩
    · rw [verifyMerkleProof_eq_true_iff, hDepth]
      exact ⟨hIdx, hLen, hRoot⟩
    · intro leaf others hOk
      rw [verifyMerkleProof_eq_true_iff, hDepth] at hOk
      rcases hOk with ⟨-, hOthers, hOther⟩
      exact eq_or_collide_of_climbBranch (hOthers.trans hLen.symm) (hOther.trans hRoot.symm)
  · intro x y z first second g h hFst hSnd
    rw [verifyMerkleProof_eq_true_iff] at hFst hSnd
    rcases hFst with ⟨hKid, hFstLen, rfl⟩
    rcases hSnd with ⟨hPar, hSndLen, rfl⟩
    refine ⟨(h * 2 ^ Nat.log 2 g + (g ^^^ 2 ^ Nat.log 2 g)) % 2 ^ 64, ?_, ?_⟩
    · simp [concatGeneralizedIndices, getGeneralizedIndexLength, hKid, hPar]
    · rw [verify_append_iff hKid hFstLen hPar hSndLen]
      exact and_iff_left rfl

theorem merkle_proofs_exact_twoLeaves :
    let leaves := [zeroChunk, zeroChunk]
    let root := merkleize leftHash leaves
    (∃ proof, buildSingleProofFromLeaves leftHash leaves 3 = some proof ∧
      proof.leaf = leafAt leaves 3 ∧ proof.index = 3 ∧
      verifyMerkleProof leftHash root proof = some true ∧
      ∀ leaf branch, verifyMerkleProof leftHash root ⟨leaf, branch, 3⟩ = some true →
        leaf = leafAt leaves 3 ∨ Collide leftHash (climbPairs leftHash leaf 3 branch)
          (climbPairs leftHash proof.leaf 3 proof.branch)) ∧
      ∃ index, concatGeneralizedIndices 2 2 = some index ∧
        (verifyMerkleProof leftHash zeroChunk ⟨zeroChunk, [zeroChunk, zeroChunk], index⟩ = some true ↔
          Nat.log 2 2 + Nat.log 2 2 < 64) := by
  have hOne : verifyMerkleProof leftHash zeroChunk ⟨zeroChunk, [zeroChunk], 2⟩ = some true :=
    verifyMerkleProof_eq_true_iff.mpr ⟨by decide, rfl, rfl⟩
  exact ⟨(merkle_proofs_exact leftHash).1 _ 3 (by decide) (by decide) (by decide),
    (merkle_proofs_exact leftHash).2 _ _ _ _ _ _ _ hOne hOne⟩

theorem composition_wraps :
    let branch := List.replicate 63 zeroChunk
    verifyMerkleProof leftHash zeroChunk ⟨zeroChunk, [zeroChunk], 2⟩ = some true ∧
      verifyMerkleProof leftHash zeroChunk ⟨zeroChunk, branch, 2 ^ 63⟩ = some true ∧
      concatGeneralizedIndices (2 ^ 63) 2 = some 0 ∧
      verifyMerkleProof leftHash zeroChunk ⟨zeroChunk, [zeroChunk] ++ branch, 0⟩ = none := by
  refine ⟨?_, ?_, by decide +kernel, rfl⟩
  · exact verifyMerkleProof_eq_true_iff.mpr ⟨by decide, rfl, rfl⟩
  · exact verifyMerkleProof_eq_true_iff.mpr ⟨by decide,
      by rw [length_replicate, Nat.log_pow one_lt_two], rfl⟩

end Pharos.Ssz
