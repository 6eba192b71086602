import Pharos.Ssz.BothBackends

/-
  This file determines which lists of byte vectors have the root of the specification, with one
  chunk for every element. A byte vector that is shorter than a chunk counts as a basic type, and so
  several of them share a chunk.

  Main theorems:
  * `Ssz.byteListsRooted_iff`
-/

----
-- Leaves
----

namespace Pharos.Ssz

open Chunks List

variable {M N : Nat} {hash : HashConcat} {es : List (FixedBytes M)}

/- One chunk for every element, and the length. -/
def byteListRoot (hash : HashConcat) (N : Nat) (elems : List (FixedBytes M)) : Hash256 :=
  mixInLength hash (Merkle.root hash zeroChunk (Nat.clog 2 N)
    (elems.map fun value => chunkOf value.val)) elems.length

/- Every list has that root, with both backends. -/
def ByteListsRooted (M N : Nat) : Prop :=
  ∀ hash (elems : List (FixedBytes M)) list,
    ListHolds hash (fixedBytesElement hash M) N elems list →
      (SszList.treeHashRoot N (fixedBytesElement hash M) hash list).1 =
        some (byteListRoot hash N elems)

theorem chunkLimit_eq_self {size : Nat} (hPos : 0 < size) (hLe : size ≤ 32)
    (hEach : N ≤ 1 ∨ size = 32 ∧ N * 32 < 2 ^ 64) : chunkLimit N size = N := by
  unfold chunkLimit
  rcases hEach with hOne | ⟨rfl, hFits⟩
  · rcases Nat.le_one_iff_eq_zero_or_eq_one.mp hOne with rfl | rfl
    · omega
    · omega
  · omega

theorem elemsPerChunk_byteList (hLe : M ≤ 32) :
    (fixedBytesElement hash M).elemsPerChunk = if M = 32 then 1 else 32 / M := by
  simp [ElementType.elemsPerChunk, fixedBytesElement, fixedBytesCodec, hLe]

theorem treeHashRoot_flat {n epc : Nat} (hLe : M ≤ 32) :
    (SszList.treeHashRoot N (fixedBytesElement hash M) hash ⟨.flat es, n, epc⟩).1 =
      (merkleizePadded hash (packBytesToChunks (es.flatMap Subtype.val)) (chunkLimit N M)).map
        (mixInLength hash · n) := by
  have hBasic : (fixedBytesElement hash M).treeHashType = .basic := if_pos hLe
  unfold SszList.treeHashRoot ElementType.flatLeaves
  dsimp only
  rw [if_pos hBasic, if_pos hBasic]
  rfl

section

variable (hPos : 0 < M) (hLe : M ≤ 32) (hEach : N ≤ 1 ∨ M = 32 ∧ N * 32 < 2 ^ 64)
include hPos hLe hEach

theorem treeDepth_byteList :
    treeDepth N (fixedBytesElement hash M).elemsPerChunk = Nat.clog 2 N := by
  rw [treeDepth_eq_clog, elemsPerChunk_byteList hLe, chunkLimit_eq_self]
  · split
    · decide
    · exact Nat.div_pos (Nat.div_le_self _ _) (Nat.div_pos hLe hPos)
  · exact Nat.div_le_self _ _
  · exact hEach.imp_right fun hWhole => ⟨by rw [if_pos hWhole.1], hWhole.2⟩

variable (hash) in
/- The leaves of both backends. -/
theorem leaves_byteList (hRoom : es.length ≤ N) :
    packBytesToChunks (es.flatMap Subtype.val) = es.map (chunkOf ·.val) ∧
      (chunks (fixedBytesElement hash M).elemsPerChunk es).map
        (fixedBytesElement hash M).leafRoot = es.map (chunkOf ·.val) := by
  have hRoot := treeHashRoot_fixedBytesElement hash hPos hLe
  rcases hEach with hOne | ⟨rfl, hFits⟩
  · have hEpc : 0 < (fixedBytesElement hash M).elemsPerChunk := by
      rw [elemsPerChunk_byteList hLe]
      split
      · decide
      · exact Nat.div_pos hLe hPos
    match es, hRoom.trans hOne with
    | [], _ => simp [packBytesToChunks]
    | [e], _ =>
      have hPack : (fixedBytesElement hash M).packChunk [e] = chunkOf e.val :=
        congrArg chunkOf (append_nil _)
      have hSome : e.val ≠ [] := ne_nil_of_length_pos (e.property.symm ▸ hPos)
      rw [chunks_of_ne_nil hEpc (cons_ne_nil _ _), take_of_length_le hEpc,
        drop_eq_nil_of_le hEpc, flatMap_singleton,
        packBytesToChunks_of_le hSome (e.property.trans_le hLe)]
      simp [ElementType.leafRoot, hPack, hRoot]
  · have hElem := admissible_fixedBytesElement hash (.inl (dvd_refl 32))
    have hFlat : packBytesToChunks (es.flatMap Subtype.val) =
        (fixedBytesElement hash 32).flatLeaves es := rfl
    rw [hFlat, hElem.flatLeaves_eq, and_self, elemsPerChunk_byteList hLe, if_pos rfl, chunks_one,
      map_map]
    apply map_congr_left
    simp [ElementType.leafRoot, elemsPerChunk_byteList, hRoot]

/- Both backends give the root of the specification. -/
theorem byteListsRooted_of_each : ByteListsRooted M N := by
  rintro hash es ⟨backend, len, epc⟩ ⟨hRoom, rfl, hBack⟩
  rcases leaves_byteList hash hPos hLe hEach hRoom with ⟨hFlat, hCells⟩
  cases backend with
  | flat ys =>
    cases hBack
    rw [treeHashRoot_flat hLe, chunkLimit_eq_self hPos hLe hEach, hFlat, merkleizePadded_eq_root]
    · rfl
    · rw [length_map]
      exact hRoom
  | tree r =>
    unfold byteListRoot SszList.treeHashRoot
    dsimp only
    rw [hBack.2.cachedRoot.1, hBack.2.freshRoot_cells, hCells, treeDepth_byteList hPos hLe hEach]

end

----
-- Chunks That Are Shared
----

theorem eq_of_merkleizePadded {cs : List Hash256} {limit : Nat} {r : Hash256}
    (hSome : merkleizePadded hash cs limit = some r) :
    cs.length ≤ limit ∧ Merkle.root hash zeroChunk (Nat.clog 2 limit) cs = r := by
  have hLimit : cs.length ≤ limit := by
    by_contra hMore
    rw [merkleizePadded, merkleizePaddedWith, if_pos (not_le.mp hMore)] at hSome
    cases hSome
  rw [merkleizePadded_eq_root hLimit] at hSome
  exact ⟨hLimit, Option.some.inj hSome⟩

theorem root_fst (d : Nat) (ls : List Hash256) :
    Merkle.root (fun a _ => a) zeroChunk d ls = ls.head?.getD zeroChunk := by
  induction d generalizing ls with
  | zero => rfl
  | succ d ih =>
    rw [Merkle.root, ih, head?_take, if_neg (Nat.two_pow_pos d).ne']

/- The first chunk has bytes of the second element. -/
theorem not_byteListsRooted_of_short (hPos : 0 < M) (hShort : M < 32) (hTwo : 1 < N) :
    ¬ByteListsRooted M N := by
  intro hRooted
  have hEq := hRooted (fun a _ => a) [⟨replicate M 0, by simp⟩, ⟨replicate M 1, by simp⟩]
    ⟨.flat _, 2, 1⟩ ⟨hTwo, rfl, rfl⟩
  rw [treeHashRoot_flat hShort.le, Option.map_eq_some_iff] at hEq
  rcases hEq with ⟨r, hSome, hEq⟩
  have hFst := (eq_of_merkleizePadded hSome).2
  rw [root_fst] at hFst
  change r = Merkle.root _ _ _ _ at hEq
  rw [← hFst, root_fst, packBytesToChunks, chunks_of_ne_nil (by decide)] at hEq
  · have hByte := congrArg (fun chunk => chunk.val[M]?) hEq
    simp [chunkOf, hShort, hPos] at hByte
  · simp [hPos.ne']

/- There are more elements than the limit has room for. -/
theorem not_byteListsRooted_of_overflow (hOver : 2 ^ 64 ≤ N * 32) : ¬ByteListsRooted 32 N := by
  intro hRooted
  have hLimit : chunkLimit N 32 < N := by
    unfold chunkLimit
    omega
  have hEq := hRooted (fun a _ => a) (replicate (chunkLimit N 32 + 1) zeroChunk)
    ⟨.flat _, _, 1⟩ ⟨(length_replicate ..).trans_le hLimit, rfl, rfl⟩
  rw [treeHashRoot_flat le_rfl, Option.map_eq_some_iff] at hEq
  rcases hEq with ⟨r, hSome, _⟩
  have hMore := (eq_of_merkleizePadded hSome).1
  rw [packBytesToChunks, length_map, length_chunks] at hMore
  simp [zeroChunk, chunkOf] at hMore
  omega

/-
  Lists have the root of the specification exactly if no two elements can share a chunk: there is
  room for one element only, or an element is a whole chunk and the bytes can be counted.
-/
theorem byteListsRooted_iff (hPos : 1 ≤ M) (hLe : M ≤ 32) :
    ByteListsRooted M N ↔ N ≤ 1 ∨ M = 32 ∧ N * 32 < 2 ^ 64 := by
  refine ⟨fun hRooted => ?_, byteListsRooted_of_each hPos hLe⟩
  by_contra hNot
  rw [not_or, not_le] at hNot
  rcases hLe.eq_or_lt with rfl | hShort
  · refine not_byteListsRooted_of_overflow ?_ hRooted
    by_contra hFits
    exact hNot.2 ⟨rfl, not_le.mp hFits⟩
  · exact not_byteListsRooted_of_short hPos hShort hNot.1 hRooted

theorem byteListsRooted_hashes : ByteListsRooted 32 1024 :=
  (byteListsRooted_iff (by decide) (by decide)).mpr (.inr ⟨rfl, by decide⟩)

/- Two addresses, of which the first is zero. -/
theorem addresses_share_chunk :
    let zero : FixedBytes 20 := ⟨replicate 20 0, rfl⟩
    let one : FixedBytes 20 := ⟨replicate 20 1, rfl⟩
    (SszList.treeHashRoot 2 (fixedBytesElement (fun a _ => a) 20) (fun a _ => a)
        ⟨.flat [zero, one], 2, 1⟩).1 ≠ some (byteListRoot (fun a _ => a) 2 [zero, one]) := by
  decide +kernel

end Pharos.Ssz
