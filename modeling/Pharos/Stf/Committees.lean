import Pharos.Lib.HashTable
import Pharos.Lib.Outcome
import Pharos.Lib.Slices
import Pharos.Stf.State

/-
  This file implements the shuffling of the active validators and their division into the committees
  of an epoch. The hash is an arbitrary function; numbers of the source are words of 64 bits, and a
  panic is `none`.

  Main theorems:
  * `Committees.shuffled_permutation_eq`
  * `Committees.committees_partition`
-/

----
-- Shuffling
----

namespace Pharos.Stf.Committees

section

abbrev HashFunction :=
  List UInt8 → Vector UInt8 32

abbrev Seed :=
  Vector UInt8 32

/- The first eight bytes, the least significant first. -/
def bytesToUint64 (data : List UInt8) : Nat :=
  (data.take 8).foldr (fun byte rest => byte.toNat + 256 * rest) 0

/- A word of 32 bits, the least significant byte first. -/
def toLeBytes (value : Nat) : List UInt8 :=
  (List.range 4).map fun place =>
    UInt8.ofNat (value / 256 ^ place)

/- Where a round may send an index. -/
def flip (count pivot cur : Nat) : Nat :=
  (pivot + count + 2 ^ 64 - cur) % 2 ^ 64 % count

variable (hash : HashFunction)

def decision (seeded : List UInt8) (position : Nat) : Bool :=
  let bucket := position / 256 % 2 ^ 32
  let source := hash (seeded ++ toLeBytes bucket)
  let byteVal := source.get ⟨position % 256 / 8, by omega⟩
  byteVal.toNat / 2 ^ (position % 8) % 2 ≠ 0

/- Swap an index with its mirror image, or not. -/
def swapOrNot (decides : Nat → Bool) (count pivot cur : Nat) : Nat :=
  let flipped := flip count pivot cur
  if decides (max cur flipped) then flipped else cur

def shuffleRound (seed : Seed) (count cur round : Nat) : Nat :=
  let seeded := seed.toList ++ [UInt8.ofNat round]
  let pivot := bytesToUint64 ((hash seeded).toList.take 8) % count
  swapOrNot (decision hash seeded) count pivot cur

def shuffle (seed : Seed) (count rounds index : Nat) : Nat :=
  (List.range rounds).foldl (shuffleRound hash seed count) index

def computeShuffledIndex (index count : Nat) (seed : Seed) (rounds : Nat) : Option Nat :=
  if index < count then some (shuffle hash seed count rounds index) else none

----
-- Committees
----

/-
  The constants of a preset. The committees of an epoch are at most 2^24, so their boundaries do not
  overflow.
-/
structure CommitteePreset where
  slotsPerEpoch : Nat
  targetCommitteeSize : Nat
  maxCommitteesPerSlot : Nat
  slots_pos : 0 < slotsPerEpoch
  target_pos : 0 < targetCommitteeSize
  max_pos : 0 < maxCommitteesPerSlot
  fits : maxCommitteesPerSlot * slotsPerEpoch ≤ 2 ^ 24

def minimal : CommitteePreset where
  slotsPerEpoch := 8
  targetCommitteeSize := 4
  maxCommitteesPerSlot := 4
  slots_pos := Nat.add_one_pos 7
  target_pos := Nat.add_one_pos 3
  max_pos := Nat.add_one_pos 3
  fits := by omega

def computeCommittee (indices : List ValidatorIndex) (seed : Seed)
    (index count rounds : Nat) : Option (List ValidatorIndex) :=
  let n := indices.length
  let start := n * index % 2 ^ 64 / count
  let stop := n * (index + 1) % 2 ^ 64 / count
  (List.range' start (stop - start)).mapM fun i => do
    let shuffled ← computeShuffledIndex hash i n seed rounds
    indices[shuffled]?

def getCommitteeCountPerSlot (E : CommitteePreset) (active : Nat) : Nat :=
  committeeCountPerSlot E.slotsPerEpoch E.targetCommitteeSize E.maxCommitteesPerSlot active

def committeeOfSlot (slotsPerEpoch committeesPerSlot : Nat)
    (active : List ValidatorIndex) (seed : Seed) (rounds : Nat) (slot : Slot)
    (index : CommitteeIndex) : Option (List ValidatorIndex) :=
  let committeeIndex := slot % slotsPerEpoch * committeesPerSlot + index
  let committeeCount := committeesPerSlot * slotsPerEpoch
  computeCommittee hash active seed committeeIndex committeeCount rounds

def getBeaconCommittee (E : CommitteePreset)
    (active : List ValidatorIndex) (seed : Seed) (rounds : Nat) (slot : Slot)
    (index : CommitteeIndex) : Option (List ValidatorIndex) :=
  committeeOfSlot hash E.slotsPerEpoch (getCommitteeCountPerSlot E active.length)
    active seed rounds slot index

----
-- The shuffle permutes
----

variable {n pivot cur : Nat}

theorem flip_eq (hCount : n ≤ 2 ^ 63) (hPivot : pivot < n) (hCur : cur < n) :
    flip n pivot cur = (pivot + n - cur) % n := by
  unfold flip
  congr 1
  omega

theorem flip_lt (pivot : Nat) (hCur : cur < n) : flip n pivot cur < n :=
  Nat.mod_lt _ (by omega)

theorem flip_flip (hCount : n ≤ 2 ^ 63) (hPivot : pivot < n) (hCur : cur < n) :
    flip n pivot (flip n pivot cur) = cur := by
  rw [flip_eq hCount hPivot (flip_lt pivot hCur), flip_eq hCount hPivot hCur]
  -- An index at most the pivot is mirrored below it.
  by_cases hBelow : cur ≤ pivot
  · have hFlip : (pivot + n - cur) % n = pivot - cur := by
      rw [show pivot + n - cur = pivot - cur + n by
        omega, Nat.add_mod_right, Nat.mod_eq_of_lt]
      omega
    rw [hFlip, show pivot + n - (pivot - cur) =
      cur + n by omega, Nat.add_mod_right, Nat.mod_eq_of_lt hCur]
  · have hFlip : (pivot + n - cur) % n = pivot + n - cur := Nat.mod_eq_of_lt (by omega)
    rw [hFlip, show pivot + n - (pivot + n - cur) = cur by omega, Nat.mod_eq_of_lt hCur]

theorem swapOrNot_lt (decides : Nat → Bool) (pivot : Nat) (hCur : cur < n) :
    swapOrNot decides n pivot cur < n := by
  unfold swapOrNot
  dsimp only
  split
  · exact flip_lt pivot hCur
  · exact hCur

/-
  An index and its mirror image share the deciding position, so the second swap undoes the first.
-/
theorem swapOrNot_swapOrNot (decides : Nat → Bool) (hCount : n ≤ 2 ^ 63)
    (hPivot : pivot < n) (hCur : cur < n) :
    swapOrNot decides n pivot (swapOrNot decides n pivot cur) = cur := by
  have hTwice := flip_flip hCount hPivot hCur
  unfold swapOrNot
  dsimp only
  by_cases hBit : decides (max cur (flip n pivot cur))
  · rw [if_pos hBit, hTwice, max_comm, if_pos hBit]
  · rw [if_neg hBit, if_neg hBit]

variable (hash : HashFunction) (seed : Seed)

theorem shuffle_mapsTo (n m : Nat) :
    Set.MapsTo (shuffle hash seed n m) (Set.Iio n) (Set.Iio n) := by
  apply Slices.foldl_mapsTo
  intro round cur hCur
  exact swapOrNot_lt _ _ hCur

theorem shuffle_injOn (m : Nat) (hCount : n ≤ 2 ^ 63) :
    Set.InjOn (shuffle hash seed n m) (Set.Iio n) := by
  apply Slices.foldl_injOn
  · intro round cur hCur
    exact swapOrNot_lt _ _ hCur
  · intro round
    apply Set.LeftInvOn.injOn
    intro cur hCur
    have hPos : 0 < n := Nat.zero_lt_of_lt hCur
    apply swapOrNot_swapOrNot
    · exact hCount
    · exact Nat.mod_lt _ hPos
    · exact hCur

end

----
-- All indices at once
----

section

open HashTable

abbrev SourceCache :=
  HashTable Nat (Vector UInt8 32)

variable (hash : HashFunction)

def bucketSource (seeded : List UInt8) (bucket : Nat) : Vector UInt8 32 :=
  hash (seeded ++ toLeBytes bucket)

def sourceBit (source : Vector UInt8 32) (position : Nat) : Bool :=
  let byteVal := source.get ⟨position % 256 / 8, by omega⟩
  byteVal.toNat / 2 ^ (position % 8) % 2 ≠ 0

def swapAll (hash : HashFunction) (seeded : List UInt8) (count pivot : Nat) :
    List Nat → SourceCache → List Nat
| [], _ => []
| idx :: rest, sourceCache =>
  let flipped := flip count pivot idx
  let position := max idx flipped
  let bucket := position / 256 % 2 ^ 32
  let found := entryOr sourceCache bucket (bucketSource hash seeded bucket)
  let swapped :=
    if sourceBit found.1 position then flipped else idx
  swapped :: swapAll hash seeded count pivot rest found.2

def permuteRound (seed : Seed) (count : Nat) (indices : List Nat) (round : Nat) : List Nat :=
  let seeded := seed.toList ++ [UInt8.ofNat round]
  let pivot := bytesToUint64 ((hash seeded).toList.take 8) % count
  swapAll hash seeded count pivot indices ∅

def computeShuffledPermutation (count : Nat) (seed : Seed) (rounds : Nat) : List Nat :=
  if count = 0 then
    []
  else
    (List.range rounds).foldl (permuteRound hash seed count) (List.range count)

variable (hash : HashFunction) (seed : Seed)

/-
  The cache holds hashes of this round only, so every index meets the bit that it would compute by
  itself.
-/
theorem swapAll_eq (seeded : List UInt8) (n pivot : Nat) (indices : List Nat)
    {sourceCache : SourceCache} (hMemo : Memo sourceCache (bucketSource hash seeded)) :
    swapAll hash seeded n pivot indices sourceCache =
      indices.map (swapOrNot (decision hash seeded) n pivot) := by
  induction indices generalizing sourceCache with
  | nil => rfl
  | cons idx xs ih =>
    have hGot := hMemo.entryOr (max idx (flip n pivot idx) / 256 % 2 ^ 32)
    unfold swapAll
    dsimp only
    rw [hGot.1, ih hGot.2, List.map_cons]
    rfl

theorem permuteRound_eq (n : Nat) (indices : List Nat) (round : Nat) :
    permuteRound hash seed n indices round = indices.map (shuffleRound hash seed n · round) :=
  swapAll_eq hash _ n _ indices (Memo.empty _)

theorem foldl_permuteRound (n : Nat) (m indices : List Nat) :
    m.foldl (permuteRound hash seed n) indices =
      indices.map (m.foldl (shuffleRound hash seed n)) := by
  induction m generalizing indices with
  | nil => exact (List.map_id' indices).symm
  | cons round xs ih =>
    rw [List.foldl_cons, ih, permuteRound_eq, List.map_map]
    rfl

/- The entry of an index is the index shuffled by itself, and there is an entry for no other. -/
theorem shuffled_permutation_eq (count rounds index : Nat) :
    (computeShuffledPermutation hash count seed rounds)[index]? =
      computeShuffledIndex hash index count seed rounds := by
  unfold computeShuffledPermutation computeShuffledIndex
  by_cases hEmpty : count = 0
  · subst hEmpty
    rfl
  · rw [if_neg hEmpty, foldl_permuteRound, List.getElem?_map]
    by_cases hIdx : index < count
    · rw [if_pos hIdx, List.getElem?_range hIdx]
      rfl
    · rw [if_neg hIdx, List.getElem?_eq_none]
      · rfl
      · rw [List.length_range]
        omega

end

----
-- Slices of the shuffled list
----

section

open Slices

variable (hash : HashFunction) (seed : Seed)

def shuffledAt (active : List ValidatorIndex) (rounds place : Nat) : ValidatorIndex :=
  active.getD (shuffle hash seed active.length rounds place) 0

theorem shuffledAt_eq (active : List ValidatorIndex) (n : Nat) {i : Nat}
    (hPlace : i < active.length) :
    active[shuffle hash seed active.length n i]? = some (shuffledAt hash seed active n i) := by
  have hLt : shuffle hash seed active.length n i < active.length :=
      shuffle_mapsTo hash seed active.length n hPlace
  unfold shuffledAt
  rw [List.getD_eq_getElem?_getD, List.getElem?_eq_getElem hLt, Option.getD_some]

variable {active : List ValidatorIndex}

theorem perm_shuffledAt (n : Nat) (hSmall : active.length ≤ 2 ^ 63) :
    ((List.range active.length).map (shuffledAt hash seed active n)).Perm active := by
  have hPerm := perm_range (shuffle_mapsTo hash seed active.length n)
    (shuffle_injOn hash seed n hSmall)
  have hWhole : (List.range active.length).map (fun i => active.getD i 0) = active := by
    apply List.ext_getElem
    · simp
    · intro i hFst hSnd
      simp [hSnd]
  calc (List.range active.length).map (shuffledAt hash seed active n)
    _ = ((List.range active.length).map (shuffle hash seed active.length n)).map (fun i =>
          active.getD i 0) := by
        rw [List.map_map]
        rfl
    _ |>.Perm ((List.range active.length).map (fun i => active.getD i 0)) := hPerm.map _
    _ = active := hWhole

theorem shuffledAt_injOn (n : Nat) (hNodup : active.Nodup) (hSmall : active.length ≤ 2 ^ 63) :
    Set.InjOn (shuffledAt hash seed active n) (Set.Iio active.length) := by
  intro a hFst b hSnd hEq
  apply shuffle_injOn hash seed n hSmall hFst hSnd
  have hLt := shuffle_mapsTo hash seed active.length n hFst
  apply (List.getElem?_inj hLt hNodup).mp
  rw [shuffledAt_eq hash seed active n hFst, shuffledAt_eq hash seed active n hSnd, hEq]

theorem computeCommittee_eq (m : Nat) {i n : Nat} (hIdx : i < n)
    (hFits : active.length * n < 2 ^ 64) :
    computeCommittee hash active seed i n m =
      some ((slice (share active.length n) i).map (shuffledAt hash seed active m)) := by
  have hPre : active.length * i < 2 ^ 64 :=
    lt_of_le_of_lt (Nat.mul_le_mul_left _ hIdx.le) hFits
  have hPost : active.length * (i + 1) < 2 ^ 64 :=
    lt_of_le_of_lt (Nat.mul_le_mul_left _ hIdx) hFits
  unfold computeCommittee
  dsimp only
  rw [Nat.mod_eq_of_lt hPre, Nat.mod_eq_of_lt hPost]
  apply Outcome.mapM_eq_some
  intro j hPlace
  have hLt : j < active.length := lt_of_mem_share hIdx hPlace
  unfold computeShuffledIndex
  rw [if_pos hLt]
  exact shuffledAt_eq hash seed active m hLt

end

----
-- The committees of an epoch
----

open Slices

theorem nodup_getActiveValidatorIndices (vals : List Validator) (epoch : Epoch) :
    (getActiveValidatorIndices vals epoch).Nodup :=
  nodup_filterMap_zipIdx vals (isActiveValidator · epoch)

variable (p : CommitteePreset)

theorem getCommitteeCountPerSlot_pos (active : Nat) : 0 < getCommitteeCountPerSlot p active := by
  have hMax := p.max_pos
  unfold getCommitteeCountPerSlot committeeCountPerSlot
  omega

theorem committees_fit {active : Nat} (hSmall : active < 2 ^ 40) :
    active * (getCommitteeCountPerSlot p active * p.slotsPerEpoch) < 2 ^ 64 := by
  have hCount : getCommitteeCountPerSlot p active * p.slotsPerEpoch ≤ 2 ^ 24 :=
      (Nat.mul_le_mul_right _ (min_le_right _ _)).trans p.fits
  calc active * _
    _ ≤ active * 2 ^ 24 := Nat.mul_le_mul_left _ hCount
    _ < 2 ^ 64 := by omega

variable {perSlot : Nat}

theorem committeeIndex_lt (slot : Slot) {i : CommitteeIndex} (hIdx : i < perSlot) :
    slot % p.slotsPerEpoch * perSlot + i < perSlot * p.slotsPerEpoch := by
  have hSlot := Nat.mod_lt slot p.slots_pos
  calc slot % p.slotsPerEpoch * perSlot + i
    _ < slot % p.slotsPerEpoch * perSlot + perSlot := Nat.add_lt_add_left hIdx _
    _ = (slot % p.slotsPerEpoch + 1) * perSlot := by
        rw [Nat.succ_mul]
    _ ≤ p.slotsPerEpoch * perSlot := Nat.mul_le_mul_right _ hSlot
    _ = perSlot * p.slotsPerEpoch := mul_comm _ _

theorem epoch_add_offset (epoch : Epoch) {off : Nat} (hOffset : off < p.slotsPerEpoch) :
    (epoch * p.slotsPerEpoch + off) / p.slotsPerEpoch = epoch ∧
      (epoch * p.slotsPerEpoch + off) % p.slotsPerEpoch = off := by
  rw [mul_comm, Nat.mul_add_div p.slots_pos, Nat.div_eq_of_lt hOffset, Nat.mul_add_mod,
    Nat.mod_eq_of_lt hOffset]
  exact ⟨add_zero epoch, rfl⟩

theorem committeeIndex_inj {slot slot' : Slot} {i index' : CommitteeIndex}
    (hEp : slot / p.slotsPerEpoch = slot' / p.slotsPerEpoch)
    (hIdx : i < perSlot) (hIdx' : index' < perSlot)
    (hEq : slot % p.slotsPerEpoch * perSlot + i =
      slot' % p.slotsPerEpoch * perSlot + index') : slot = slot' ∧ i = index' := by
  have hRow : slot % p.slotsPerEpoch = slot' % p.slotsPerEpoch := by
    have hxs : ∀ row xs : Nat, xs < perSlot → (row * perSlot + xs) / perSlot = row := by
      intro row xs hLt
      rw [mul_comm, Nat.mul_add_div (by omega), Nat.div_eq_of_lt hLt, add_zero]
    calc slot % p.slotsPerEpoch
      _ = (slot % p.slotsPerEpoch * perSlot + i) / perSlot := (hxs _ i hIdx).symm
      _ = slot' % p.slotsPerEpoch := by
          rw [hEq, hxs _ index' hIdx']
  refine ⟨?_, ?_⟩
  · rw [← Nat.div_add_mod slot p.slotsPerEpoch, hEp, hRow, Nat.div_add_mod]
  · rw [hRow] at hEq
    exact Nat.add_left_cancel hEq

def committeeAt (hash : HashFunction) (active : List ValidatorIndex) (seed : Seed)
    (rounds count place : Nat) : List ValidatorIndex :=
  (slice (share active.length count) place).map (shuffledAt hash seed active rounds)

variable (hash : HashFunction) (seed : Seed) {active : List ValidatorIndex} (m : Nat)
variable {n : Nat}

theorem flatMap_committeeAt (hCount : 0 < n) :
    (List.range n).flatMap (committeeAt hash active seed m n) =
      (List.range active.length).map (shuffledAt hash seed active m) := by
  unfold committeeAt
  rw [← List.map_flatMap, flatMap_slice (monotone_share active.length n), share_zero,
    share_self _ hCount, Nat.sub_zero, List.range_eq_range']

theorem committeeAt_unique {a b : Nat} {val : ValidatorIndex}
    (hNodup : active.Nodup) (hSmall : active.length ≤ 2 ^ 63) (hFst : a < n)
    (hSnd : b < n)
    (hInFst : val ∈ committeeAt hash active seed m n a)
    (hInSnd : val ∈ committeeAt hash active seed m n b) :
    a = b := by
  rcases List.mem_map.mp hInFst with ⟨i, hI, rfl⟩
  rcases List.mem_map.mp hInSnd with ⟨j, hJ, hEq⟩
  have hPlace := shuffledAt_injOn hash seed m hNodup hSmall (lt_of_mem_share hSnd hJ)
    (lt_of_mem_share hFst hI) hEq
  rw [hPlace] at hJ
  exact slice_unique (monotone_share active.length n) hI hJ

theorem exists_committeeAt {val : ValidatorIndex} (hCount : 0 < n)
    (hSmall : active.length ≤ 2 ^ 63) (hActive : val ∈ active) :
    ∃ i < n, val ∈ committeeAt hash active seed m n i := by
  have hListed := (perm_shuffledAt hash seed m hSmall).mem_iff.mpr hActive
  rw [← flatMap_committeeAt hash seed m hCount] at hListed
  rcases List.mem_flatMap.mp hListed with ⟨i, hPlace, hMem⟩
  exact ⟨i, List.mem_range.mp hPlace, hMem⟩

theorem perm_committeeAt (hPerSlot : 0 < perSlot) (hSmall : active.length ≤ 2 ^ 63)
    (epoch : Epoch) :
    ((List.range p.slotsPerEpoch).flatMap fun off =>
      (List.range perSlot).flatMap fun i =>
        committeeAt hash active seed m (perSlot * p.slotsPerEpoch)
          ((epoch * p.slotsPerEpoch + off) % p.slotsPerEpoch * perSlot + i)).Perm active := by
  have hCount : 0 < perSlot * p.slotsPerEpoch := Nat.mul_pos hPerSlot p.slots_pos
  have hGrid := flatMap_grid p.slotsPerEpoch perSlot
    (committeeAt hash active seed m (perSlot * p.slotsPerEpoch))
  rw [mul_comm p.slotsPerEpoch perSlot] at hGrid
  refine (List.Perm.of_eq ?_).trans (perm_shuffledAt hash seed m hSmall)
  rw [← flatMap_committeeAt hash seed m hCount, ← hGrid]
  apply List.flatMap_congr
  intro off hOffset
  rw [(epoch_add_offset p epoch (List.mem_range.mp hOffset)).2]

/-
  Every validator active in an epoch is in exactly one of the committees of its slots, and the
  committees, slot by slot, are the active validators in another order.
-/
theorem committees_partition (hNodup : active.Nodup) (hSmall : active.length < 2 ^ 40)
    (epoch : Epoch) :
    let perSlot := getCommitteeCountPerSlot p active.length
    ∃ committee : Slot → CommitteeIndex → List ValidatorIndex,
      (∀ slot i, slot / p.slotsPerEpoch = epoch → i < perSlot →
      getBeaconCommittee hash p active seed m slot i = some (committee slot i)) ∧
      (∀ val ∈ active, ∃! j : Slot × CommitteeIndex,
      (j.1 / p.slotsPerEpoch = epoch ∧ j.2 < perSlot) ∧ val ∈
      committee j.1 j.2) ∧ ((List.range p.slotsPerEpoch).flatMap fun off =>
        (List.range perSlot).flatMap fun i =>
          committee (epoch * p.slotsPerEpoch + off) i).Perm active := by
  intro perSlot
  have hPerSlot : 0 < perSlot := getCommitteeCountPerSlot_pos p active.length
  have hCount : 0 < perSlot * p.slotsPerEpoch := Nat.mul_pos hPerSlot p.slots_pos
  have hLarge : active.length ≤ 2 ^ 63 := by omega
  refine ⟨fun slot i =>
    committeeAt hash active seed m (perSlot * p.slotsPerEpoch)
      (slot % p.slotsPerEpoch * perSlot + i),
    ?_, ?_, ?_⟩
  · intro slot i _ hIdx
    apply computeCommittee_eq
    · exact committeeIndex_lt p slot hIdx
    · exact committees_fit p hSmall
  · intro val hActive
    rcases exists_committeeAt hash seed m hCount hLarge hActive with ⟨j, hPlace, hMem⟩
    have hRow : j / perSlot < p.slotsPerEpoch := Nat.div_lt_of_lt_mul hPlace
    rcases epoch_add_offset p epoch hRow with ⟨hEp, hOffset⟩
    refine ⟨(epoch * p.slotsPerEpoch + j / perSlot, j % perSlot), ⟨⟨hEp, ?_⟩, ?_⟩, ?_⟩
    · exact Nat.mod_lt j hPerSlot
    · dsimp only
      rw [hOffset, Nat.div_add_mod']
      exact hMem
    · rintro ⟨slot, i⟩ ⟨⟨hSlot, hIdx⟩, hx⟩
      have hEq := committeeAt_unique hash seed m hNodup hLarge
        (committeeIndex_lt p slot hIdx) hPlace hx hMem
      rcases committeeIndex_inj p (hSlot.trans hEp.symm) hIdx (Nat.mod_lt j hPerSlot)
        (by rw [hEq, hOffset, Nat.div_add_mod']) with
        ⟨hSlots, hIndices⟩
      rw [Prod.mk.injEq]
      exact ⟨hSlots, hIndices⟩
  · exact perm_committeeAt p hash seed m hPerSlot hLarge epoch

/- A validator active since the first epoch. -/
def earlyValidator : Validator where
  pubkey := 0
  withdrawalCredentials := ⟨0, 0⟩
  effectiveBalance := 32
  slashed := false
  activationEligibilityEpoch := 0
  activationEpoch := 0
  exitEpoch := ⊤
  withdrawableEpoch := ⊤

theorem committees_partition_earlyValidators :
    let active := getActiveValidatorIndices (List.replicate 40 earlyValidator) 2
    active.Nodup ∧
      active.length < 2 ^ 40 ∧
        ∃ committee : Slot → CommitteeIndex → List ValidatorIndex,
          (∀ slot i,
            slot / minimal.slotsPerEpoch = 2 →
              i < getCommitteeCountPerSlot minimal active.length →
                getBeaconCommittee
                  (fun _ => Vector.replicate 32 85) minimal
                  active (Vector.replicate 32 1) 10 slot
                  i = some (committee slot i)) ∧
          ∀ val ∈ active,
            ∃! j : Slot × CommitteeIndex,
              (j.1 / minimal.slotsPerEpoch = 2 ∧
                j.2 < getCommitteeCountPerSlot minimal active.length) ∧
                val ∈ committee j.1 j.2 := by
  intro active
  have hNodup : active.Nodup :=
    nodup_getActiveValidatorIndices _ 2
  have hSmall : active.length < 2 ^ 40 := by
    have hLen := List.length_filterMap_le
      (fun e : Validator × Nat =>
        if isActiveValidator e.1 2 then some e.2 else none)
      (List.replicate 40 earlyValidator).zipIdx
    rw [List.length_zipIdx, List.length_replicate] at hLen
    exact hLen.trans_lt (by omega)
  rcases committees_partition minimal
    (fun _ => Vector.replicate 32 85)
    (Vector.replicate 32 1) 10 hNodup hSmall 2 with
    ⟨committee, hReturned, hOnce, -⟩
  exact ⟨hNodup, hSmall, committee, hReturned, hOnce⟩

end Pharos.Stf.Committees
