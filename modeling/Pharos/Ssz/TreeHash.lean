import Mathlib.Data.Nat.Log
import Mathlib.Data.Nat.Size
import Pharos.Lib.Chunks
import Pharos.Lib.Merkle
import Pharos.Ssz.Sequence

/-
  This file implements the roots of values: how bytes are packed into chunks, and how chunks are
  merkleized. The hash of two chunks is a parameter.
-/

----
-- Merkleization
----

namespace Pharos.Ssz

open Bytes Chunks List

section

abbrev Hash256 :=
  FixedBytes 32

abbrev HashConcat :=
  Hash256 → Hash256 → Hash256

def chunkOf (bytes : List UInt8) : Hash256 :=
  ⟨(bytes ++ List.replicate 32 0).take 32, by simp⟩

def zeroChunk : Hash256 :=
  chunkOf []

def packBytesToChunks (bytes : List UInt8) : List Hash256 :=
  (chunks 32 bytes).map chunkOf

variable (hash : HashConcat)

def zeroHash (depth : Nat) : Hash256 :=
  Merkle.zeroRoot hash zeroChunk depth

def nextPowOfTwo (n : Nat) : Nat :=
  if n ≤ 1 then 1 else 2 ^ Nat.clog 2 n

def mergeLevels : Nat → Nat → List Hash256 → List Hash256
| _, 0, current => current
| depth, count + 1, current =>
  mergeLevels (depth + 1) count (Merkle.mergeLevel hash (zeroHash hash depth) current)

variable (chunks : List Hash256)

/- The length is a power of two. -/
def merkleizePaddedInner (paddedLen : Nat) : Hash256 :=
  let totalDepth := Nat.log 2 paddedLen
  if chunks = [] then
    zeroHash hash totalDepth
  else
    (mergeLevels hash 0 totalDepth chunks).head?.getD zeroChunk

def merkleize : Hash256 :=
  if chunks = [] then
    zeroHash hash 0
  else
    merkleizePaddedInner hash chunks (nextPowOfTwo chunks.length)

/- The checks of `merkleizePadded`, before `inner` merges the levels up to a padded length. -/
def merkleizePaddedWith
    (inner : List Hash256 → Nat → Option Hash256)
    (nextPow : Nat → Nat)
    (chunks : List Hash256)
    (limit : Nat) : Option Hash256 :=
  if limit < chunks.length then
    none
  else if chunks = [] ∧ limit = 0 then
    some (zeroHash hash 0)
  else
    inner chunks (nextPow (max limit 1))

/- On natural numbers. On machine words it is `merkleizePaddedBy`. -/
def merkleizePadded (limit : Nat) : Option Hash256 :=
  merkleizePaddedWith hash (fun cs paddedLen => some (merkleizePaddedInner hash cs paddedLen))
    nextPowOfTwo chunks limit

def mixInLength (root : Hash256) (length : Nat) : Hash256 :=
  hash root (chunkOf (toLittleEndian 8 length))

variable {hash}

theorem head?_mergeLevels (d n : Nat) {cur : List Hash256} (hSome : cur ≠ [])
    (default : Hash256) :
    (mergeLevels hash d n cur).head?.getD default = Merkle.climb hash n (zeroHash hash d) cur := by
  induction n generalizing d cur with
  | zero =>
    cases cur with
    | nil => exact absurd rfl hSome
    | cons a xs => rfl
  | succ n ih =>
    rw [mergeLevels, ih]
    · rfl
    · match cur with
      | [last] | a :: b :: xs => simp [Merkle.mergeLevel]

theorem merkleizePaddedInner_eq_root (paddedLen : Nat) :
    merkleizePaddedInner hash chunks paddedLen =
      Merkle.root hash zeroChunk (Nat.log 2 paddedLen) chunks := by
  unfold merkleizePaddedInner
  by_cases hNone : chunks = []
  · simp [hNone, zeroHash]
  · rw [if_neg hNone, head?_mergeLevels _ _ hNone, Merkle.root_eq_climb]
    rfl

theorem log_nextPowOfTwo (n : Nat) : Nat.log 2 (nextPowOfTwo n) = Nat.clog 2 n := by
  unfold nextPowOfTwo
  by_cases hOne : n ≤ 1
  · rw [if_pos hOne, Nat.log_one_right, Nat.clog_of_right_le_one hOne]
  · rw [if_neg hOne, Nat.log_pow one_lt_two]

theorem merkleize_eq_root :
    merkleize hash chunks = Merkle.root hash zeroChunk (Nat.clog 2 chunks.length) chunks := by
  unfold merkleize
  by_cases hNone : chunks = []
  · simp [hNone, zeroHash]
  · rw [if_neg hNone, merkleizePaddedInner_eq_root, log_nextPowOfTwo]

theorem merkleizePadded_eq_root {chunks : List Hash256} {limit : Nat}
    (hLimit : chunks.length ≤ limit) :
    merkleizePadded hash chunks limit =
      some (Merkle.root hash zeroChunk (Nat.clog 2 limit) chunks) := by
  unfold merkleizePadded merkleizePaddedWith
  rw [if_neg (not_lt.mpr hLimit)]
  by_cases hNone : chunks = [] ∧ limit = 0
  · rcases hNone with ⟨rfl, rfl⟩
    simp [zeroHash]
  · have hClog : Nat.clog 2 (max limit 1) = Nat.clog 2 limit := by
      cases limit with
      | zero => simp
      | succ limit => rw [max_eq_left (by omega)]
    rw [if_neg hNone]
    dsimp only
    rw [merkleizePaddedInner_eq_root, log_nextPowOfTwo, hClog]

end

----
-- Elements
----

inductive TreeHashType where
  | basic
  | container
  | vector
  | list
deriving DecidableEq, Repr

/- What sequences know of their elements. -/
structure ElementType (Value : Type) where
  codec : Codec Value
  treeHashType : TreeHashType
  packedAsFullChunk : Bool
  treeHashRoot : Value → Hash256
  treeHashPackedEncoding : Value → List UInt8

namespace ElementType

variable {Value : Type}

section

variable (elem : ElementType Value)

/-
  Basic elements are packed into chunks without a gap, and one that is a whole chunk has that chunk
  as its root.
-/
structure Admissible : Prop where
  width : elem.treeHashType = .basic →
    ∀ value, (elem.treeHashPackedEncoding value).length = elem.codec.sszFixedLen
  divides : elem.treeHashType = .basic → elem.codec.sszFixedLen ∣ 32
  full : elem.packedAsFullChunk = true → elem.codec.sszFixedLen = 32
  root : elem.treeHashType = .basic → elem.codec.sszFixedLen = 32 →
    ∀ value, elem.treeHashRoot value = chunkOf (elem.treeHashPackedEncoding value)

def elemsPerChunk : Nat :=
  if elem.treeHashType = .basic ∧ elem.packedAsFullChunk = false then
    32 / elem.codec.sszFixedLen
  else
    1

def packChunk (elems : List Value) : Hash256 :=
  chunkOf (elems.flatMap elem.treeHashPackedEncoding)

def packBasicElemsBytes (elems : List Value) : List UInt8 :=
  elems.flatMap elem.treeHashPackedEncoding

end

end ElementType

def boolElement : ElementType Bool where
  codec := boolCodec
  treeHashType := .basic
  packedAsFullChunk := false
  treeHashRoot value := chunkOf [if value then 1 else 0]
  treeHashPackedEncoding value := [if value then 1 else 0]

def uintElement (width : UintWidth) : ElementType (Fin (256 ^ width.bytes)) where
  codec := uintCodec width
  treeHashType := .basic
  packedAsFullChunk := false
  treeHashRoot value := chunkOf (toLittleEndian width.bytes value)
  treeHashPackedEncoding value := toLittleEndian width.bytes value

def fixedBytesElement (hash : HashConcat) (N : Nat) : ElementType (FixedBytes N) where
  codec := fixedBytesCodec N
  treeHashType := if N ≤ 32 then .basic else .vector
  packedAsFullChunk := N = 32
  treeHashRoot value := merkleize hash (packBytesToChunks value.val)
  treeHashPackedEncoding value := value.val

theorem packBytesToChunks_of_le {bytes : List UInt8} (hSome : bytes ≠ [])
    (hLe : bytes.length ≤ 32) : packBytesToChunks bytes = [chunkOf bytes] := by
  rw [packBytesToChunks, chunks_of_ne_nil (by omega) hSome, take_of_length_le hLe,
    drop_eq_nil_of_le hLe]
  simp

theorem treeHashRoot_fixedBytesElement (hash : HashConcat) {N : Nat} (hSome : 0 < N)
    (hLe : N ≤ 32) (v : FixedBytes N) :
    (fixedBytesElement hash N).treeHashRoot v = chunkOf v.val := by
  have hVal : v.val ≠ [] := ne_nil_of_length_pos (v.property.symm ▸ hSome)
  change merkleize hash (packBytesToChunks v.val) = _
  rw [packBytesToChunks_of_le hVal (v.property.symm ▸ hLe), merkleize_eq_root]
  simp [Merkle.root]

theorem admissible_boolElement : boolElement.Admissible where
  width _ _ := rfl
  divides _ := ⟨32, rfl⟩
  full hFull := nomatch hFull
  root _ hWidth := nomatch hWidth

theorem admissible_uintElement (width : UintWidth) : (uintElement width).Admissible where
  width _ v := length_toLittleEndian width.bytes v
  divides _ := by
    cases width <;> simp [uintElement, uintCodec, UintWidth.bytes]
  full hFull := nomatch hFull
  root _ _ _ := rfl

theorem admissible_fixedBytesElement (hash : HashConcat) {N : Nat} (hWidth : N ∣ 32 ∨ 32 < N) :
    (fixedBytesElement hash N).Admissible where
  width _ v := v.property
  divides hBasic := by
    rcases hWidth with hDivides | hLong
    · exact hDivides
    · simp [fixedBytesElement, not_le.mpr hLong] at hBasic
  full hFull := by
    simpa [fixedBytesElement, fixedBytesCodec] using hFull
  root _ hWhole v := by
    subst hWhole
    exact treeHashRoot_fixedBytesElement hash (by decide) (by decide) v

----
-- Leaves and Depths
----

/- The bits that are needed to index that many leaves. -/
def depthForLimit (n : Nat) : Nat :=
  if n ≤ 1 then 1 else Nat.size (n - 1)

/- The product is one of machine words. -/
def chunkLimit (n elemSize : Nat) : Nat :=
  ((n * elemSize) % 2 ^ 64 + 31) / 32

def treeDepth (n epc : Nat) : Nat :=
  let elemSize := 32 / epc
  let limit := max (chunkLimit n elemSize) 1
  if limit ≤ 1 then 0 else depthForLimit limit

theorem size_pred_eq_clog {n : Nat} (hSome : 1 < n) : Nat.size (n - 1) = Nat.clog 2 n := by
  apply eq_of_forall_ge_iff
  intro d
  rw [Nat.size_le, Nat.clog_le_iff_le_pow one_lt_two]
  omega

theorem treeDepth_eq_clog (n epc : Nat) :
    treeDepth n epc = Nat.clog 2 (chunkLimit n (32 / epc)) := by
  unfold treeDepth depthForLimit
  dsimp only
  by_cases hOne : chunkLimit n (32 / epc) ≤ 1
  · rw [max_eq_right hOne, if_pos (le_refl 1), Nat.clog_of_right_le_one hOne]
  · rw [max_eq_left (by omega), if_neg hOne, if_neg hOne, size_pred_eq_clog (by omega)]

namespace ElementType

variable {Value : Type} {elem : ElementType Value}

section

variable (elem : ElementType Value)

/- The bytes that an element takes in the leaves of a tree. -/
def leafSize : Nat :=
  32 / elem.elemsPerChunk

def leafRoot (cell : List Value) : Hash256 :=
  if elem.elemsPerChunk = 1 then
    (cell.head?.map elem.treeHashRoot).getD zeroChunk
  else
    elem.packChunk cell

def flatLeaves (elems : List Value) : List Hash256 :=
  if elem.treeHashType = .basic then
    packBytesToChunks (elem.packBasicElemsBytes elems)
  else
    elems.map elem.treeHashRoot

end

namespace Admissible

section

variable (hElem : elem.Admissible)
include hElem

theorem elemsPerChunk_mul : elem.elemsPerChunk * elem.leafSize = 32 := by
  apply Nat.mul_div_cancel'
  unfold elemsPerChunk
  by_cases hPacked : elem.treeHashType = .basic ∧ elem.packedAsFullChunk = false
  · rw [if_pos hPacked]
    exact Nat.div_dvd_of_dvd (hElem.divides hPacked.1)
  · rw [if_neg hPacked]
    exact one_dvd 32

theorem elemsPerChunk_pos : 0 < elem.elemsPerChunk := by
  apply pos_of_ne_zero
  intro hZero
  have hProduct := hElem.elemsPerChunk_mul
  rw [hZero, Nat.zero_mul] at hProduct
  nomatch hProduct

theorem leafSize_pos : 0 < elem.leafSize := by
  apply pos_of_ne_zero
  intro hZero
  have hProduct := hElem.elemsPerChunk_mul
  rw [hZero, Nat.mul_zero] at hProduct
  nomatch hProduct

theorem leafSize_of_basic (hBasic : elem.treeHashType = .basic) :
    elem.leafSize = elem.codec.sszFixedLen := by
  unfold leafSize elemsPerChunk
  by_cases hPacked : elem.packedAsFullChunk = false
  · rw [if_pos ⟨hBasic, hPacked⟩]
    exact Nat.div_div_self (hElem.divides hBasic) (by omega)
  · rw [if_neg fun hBoth => hPacked hBoth.2, hElem.full]
    rwa [Bool.not_eq_false] at hPacked

end

theorem elemsPerChunk_of_not_basic (hComposite : elem.treeHashType ≠ .basic) :
    elem.elemsPerChunk = 1 :=
  if_neg fun hBoth => hComposite hBoth.1

theorem flatLeaves_eq (hElem : elem.Admissible) (es : List Value) :
    elem.flatLeaves es = (chunks elem.elemsPerChunk es).map elem.leafRoot := by
  unfold flatLeaves
  by_cases hBasic : elem.treeHashType = .basic
  · have hCut := chunks_flatMap (hElem.width hBasic) (hElem.leafSize_of_basic hBasic ▸
      hElem.leafSize_pos) hElem.elemsPerChunk_pos es
    rw [← hElem.leafSize_of_basic hBasic, hElem.elemsPerChunk_mul] at hCut
    rw [if_pos hBasic, packBytesToChunks, packBasicElemsBytes, hCut, map_map]
    by_cases hOne : elem.elemsPerChunk = 1
    · have hWhole : elem.codec.sszFixedLen = 32 := by
        rw [← hElem.leafSize_of_basic hBasic, leafSize, hOne]
      rw [hOne, chunks_one, map_map, map_map]
      apply map_congr_left
      intro v _
      simp [leafRoot, hOne, hElem.root hBasic hWhole v]
    · apply map_congr_left
      simp [leafRoot, hOne, packChunk]
  · have hOne := elemsPerChunk_of_not_basic hBasic
    rw [if_neg hBasic, hOne, chunks_one, map_map]
    apply map_congr_left
    simp [leafRoot, hOne]

end Admissible

end ElementType

end Pharos.Ssz
