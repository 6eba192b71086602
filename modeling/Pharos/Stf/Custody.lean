import Mathlib.Data.List.Destutter
import Pharos.Lib.Bytes
import Pharos.Lib.Outcome

/-
  This file implements the custody groups of a node. They are drawn by hashing a counter that
  starts at the id of the node, and a group that was drawn before is passed over. The hash function
  is arbitrary, so the search has fuel: nothing says that the draws ever reach enough groups.

  Main theorems:
  * `Custody.custody_groups_nested`
-/

namespace Pharos.Stf.Custody

open List

----
-- Groups and Columns
----

structure CustodyPreset where
  numberOfCustodyGroups : Nat
  numberOfColumns : Nat
  groups_pos : 0 < numberOfCustodyGroups
  groups_dvd : numberOfCustodyGroups ∣ numberOfColumns

/- Both presets of the client. -/
def mainnet : CustodyPreset :=
  ⟨128, 128, by decide, by decide⟩

inductive Stop where
| panicked (message : String)
| outOfFuel

def bytesToUint64Le (bytes : List UInt8) : Nat :=
  Bytes.ofLittleEndian (bytes.take 8)

def carry : List UInt8 → List UInt8
| [] => []
| byte :: rest => if byte = 0xff then 0 :: carry rest else (byte + 1) :: rest

def incrementUint256Be (id : List UInt8) : List UInt8 :=
  (carry id.reverse).reverse

variable (E : CustodyPreset) (hash : List UInt8 → List UInt8)

def draw (groups : List Nat) (currentId : List UInt8) : List Nat :=
  let custodyGroup := bytesToUint64Le (hash currentId.reverse) % E.numberOfCustodyGroups
  if custodyGroup ∉ groups then groups ++ [custodyGroup] else groups

def searchGroups (count : Nat) : Nat → List UInt8 → List Nat → Except Stop (List Nat)
| 0, _, _ => .error .outOfFuel
| fuel + 1, currentId, groups =>
  if groups.length < count then
    searchGroups count fuel (incrementUint256Be currentId) (draw E hash groups currentId)
  else
    .ok groups

def getCustodyGroups (fuel : Nat) (nodeId : List UInt8) (count : Nat) : Except Stop (List Nat) :=
  if E.numberOfCustodyGroups < count then
    .error (.panicked (s!"custody_group_count {count} > " ++
      s!"NUMBER_OF_CUSTODY_GROUPS {E.numberOfCustodyGroups}"))
  else if count = E.numberOfCustodyGroups then
    .ok (List.range E.numberOfCustodyGroups)
  else
    (searchGroups E hash count fuel nodeId []).map (List.mergeSort ·)

def columnsOf (group : Nat) : List Nat :=
  (List.range (E.numberOfColumns / E.numberOfCustodyGroups)).map fun i =>
    E.numberOfCustodyGroups * i + group

def computeColumnsForCustodyGroup (group : Nat) : Except Stop (List Nat) :=
  if group < E.numberOfCustodyGroups then
    .ok (columnsOf E group)
  else
    .error (.panicked (s!"custody_group {group} >= " ++
      s!"NUMBER_OF_CUSTODY_GROUPS {E.numberOfCustodyGroups}"))

def custodyColumnsForCgc (fuel : Nat) (nodeId : List UInt8) (cgc : Nat) :
    Except Stop (List Nat) := do
  let groups ← getCustodyGroups E hash fuel nodeId cgc
  let columns ← groups.mapM (computeColumnsForCustodyGroup E)
  .ok (columns.flatten.mergeSort.destutter (· ≠ ·))

----
-- The Search
----

variable {E hash} {n more fuel otherFuel : Nat} {nodeId : List UInt8}
variable {groups y others : List Nat}

structure Drawn (E : CustodyPreset) (groups : List Nat) : Prop where
  nodup : groups.Nodup
  below : ∀ group ∈ groups, group < E.numberOfCustodyGroups

theorem Drawn.of_perm (hDrawn : Drawn E y) (hPerm : groups.Perm y) : Drawn E groups := by
  refine ⟨hPerm.nodup_iff.mpr hDrawn.nodup, ?_⟩
  exact fun group hGroup => hDrawn.below group (hPerm.mem_iff.mp hGroup)

theorem drawn_draw (hDrawn : Drawn E groups) (currentId : List UInt8) :
    Drawn E (draw E hash groups currentId) := by
  unfold draw
  dsimp only
  split
  case isTrue hNew =>
    refine Drawn.of_perm ⟨hDrawn.nodup.cons hNew, ?_⟩ (perm_append_singleton _ groups)
    rw [forall_mem_cons]
    exact ⟨Nat.mod_lt _ E.groups_pos, hDrawn.below⟩
  case isFalse => exact hDrawn

theorem prefix_draw (groups : List Nat) (currentId : List UInt8) :
    groups <+: draw E hash groups currentId ∧
      (draw E hash groups currentId).length ≤ groups.length + 1 := by
  unfold draw
  dsimp only
  split
  · exact ⟨prefix_append _ _, by simp⟩
  · exact ⟨prefix_rfl, by omega⟩

/- A search goes on from the groups it has, up to the number it looks for. -/
theorem searchGroups_ok (hDrawn : Drawn E groups) (hShort : groups.length ≤ n)
    (hOk : searchGroups E hash n fuel nodeId groups = .ok y) :
    Drawn E y ∧ y.length = n ∧ groups <+: y := by
  induction fuel generalizing nodeId groups with
  | zero => cases hOk
  | succ fuel ih =>
    rw [searchGroups] at hOk
    rcases prefix_draw groups nodeId with ⟨hPrefix, hLen⟩
    split at hOk
    case isTrue hMore =>
      rcases ih (drawn_draw hDrawn nodeId) (hLen.trans hMore) hOk with ⟨hGot, hCount, hxs⟩
      exact ⟨hGot, hCount, hPrefix.trans hxs⟩
    case isFalse hEnough =>
      cases hOk
      exact ⟨hDrawn, by omega, prefix_rfl⟩

/- Both searches draw the same groups, so the longer one only goes on. -/
theorem searchGroups_prefix (hMore : n ≤ more) (hDrawn : Drawn E groups)
    (hShort : groups.length ≤ n)
    (hOk : searchGroups E hash n fuel nodeId groups = .ok y)
    (hx : searchGroups E hash more otherFuel nodeId groups = .ok others) :
    y <+: others := by
  induction fuel generalizing nodeId groups otherFuel with
  | zero => cases hOk
  | succ fuel ih =>
    rw [searchGroups] at hOk
    split at hOk
    case isTrue hLess =>
      cases otherFuel with
      | zero => cases hx
      | succ otherFuel =>
        rw [searchGroups, if_pos (hLess.trans_le hMore)] at hx
        exact ih (drawn_draw hDrawn nodeId) ((prefix_draw groups nodeId).2.trans hLess) hOk hx
    case isFalse hEnough =>
      cases hOk
      exact (searchGroups_ok hDrawn (hShort.trans hMore) hx).2.2

theorem drawn_nil : Drawn E [] :=
  ⟨nodup_nil, by simp⟩

theorem drawn_range (E : CustodyPreset) :
    Drawn E (List.range E.numberOfCustodyGroups) :=
  ⟨nodup_range, fun _ => mem_range.mp⟩

theorem getCustodyGroups_cases
    (hOk : getCustodyGroups E hash fuel nodeId n = .ok groups) :
    n = E.numberOfCustodyGroups ∧ groups = List.range E.numberOfCustodyGroups ∨
      n < E.numberOfCustodyGroups ∧
        ∃ y, searchGroups E hash n fuel nodeId [] = .ok y ∧ groups.Perm y := by
  rcases Outcome.ite_error_ok_iff.mp hOk with ⟨hLe, hOk⟩
  split at hOk
  case isTrue hAll => exact .inl ⟨hAll, (Except.ok.inj hOk).symm⟩
  case isFalse hNot =>
    rcases Outcome.map_ok_iff.mp hOk with ⟨y, hGot, rfl⟩
    exact .inr ⟨by omega, y, hGot, y.mergeSort_perm _⟩

theorem getCustodyGroups_ok (hOk : getCustodyGroups E hash fuel nodeId n = .ok groups) :
    Drawn E groups ∧ groups.length = n := by
  rcases getCustodyGroups_cases hOk with ⟨rfl, rfl⟩ | ⟨_, y, hGot, hPerm⟩
  · exact ⟨drawn_range E, length_range⟩
  · rcases searchGroups_ok drawn_nil (Nat.zero_le n) hGot with ⟨hDrawn, hLen, _⟩
    exact ⟨hDrawn.of_perm hPerm, hPerm.length_eq.trans hLen⟩

theorem getCustodyGroups_subset (hMore : n ≤ more)
    (hOk : getCustodyGroups E hash fuel nodeId n = .ok groups)
    (hx : getCustodyGroups E hash otherFuel nodeId more = .ok others) :
    groups ⊆ others := by
  rcases getCustodyGroups_cases hx with ⟨_, rfl⟩ | ⟨hLess, later, hLater, hLaterPerm⟩
  · exact fun group hGroup => mem_range.mpr ((getCustodyGroups_ok hOk).1.below group hGroup)
  · rcases getCustodyGroups_cases hOk with ⟨hAll, _⟩ | ⟨_, y, hGot, hPerm⟩
    · omega
    · have hPrefix := searchGroups_prefix hMore drawn_nil (Nat.zero_le n) hGot hLater
      exact fun group hGroup => hLaterPerm.mem_iff.mpr (hPrefix.subset (hPerm.mem_iff.mp hGroup))

----
-- Columns of Groups
----

/- A column belongs to the group that it leaves as remainder. -/
theorem mem_columnsOf_iff {group col : Nat} (hGroup : group < E.numberOfCustodyGroups) :
    col ∈ columnsOf E group ↔ col < E.numberOfColumns ∧ col % E.numberOfCustodyGroups = group := by
  rcases E.groups_dvd with ⟨width, hWidth⟩
  unfold columnsOf
  rw [hWidth, Nat.mul_div_cancel_left _ E.groups_pos]
  simp only [mem_map, mem_range]
  constructor
  · rintro ⟨i, hI, rfl⟩
    refine ⟨?_, by rw [Nat.mul_add_mod, Nat.mod_eq_of_lt hGroup]⟩
    calc E.numberOfCustodyGroups * i + group
      _ < E.numberOfCustodyGroups * i + E.numberOfCustodyGroups := by omega
      _ ≤ E.numberOfCustodyGroups * width := Nat.mul_le_mul_left _ hI
  · rintro ⟨hCol, rfl⟩
    exact ⟨col / E.numberOfCustodyGroups, Nat.div_lt_of_lt_mul hCol, Nat.div_add_mod col _⟩

theorem nodup_flatMap_columnsOf (hDrawn : Drawn E groups) :
    (groups.flatMap (columnsOf E)).Nodup := by
  rw [nodup_flatMap]
  refine ⟨?_, hDrawn.nodup.imp_of_mem ?_⟩
  · intro group _
    refine List.Nodup.map (fun a b hEq => ?_) nodup_range
    exact Nat.eq_of_mul_eq_mul_left E.groups_pos (add_right_cancel hEq)
  · intro a b hFst hSnd hNe col hCol hx
    rw [mem_columnsOf_iff (hDrawn.below _ ‹_›)] at hCol hx
    exact hNe (hCol.2.symm.trans hx.2)

theorem mapM_computeColumns (hDrawn : Drawn E groups) :
    groups.mapM (computeColumnsForCustodyGroup E) = .ok (groups.map (columnsOf E)) := by
  rw [Outcome.mapM_ok_iff, forall₂_map_right_iff, forall₂_same]
  exact fun group hGroup => if_pos (hDrawn.below group hGroup)

/- No column comes twice, so that there is nothing to drop once they are sorted. -/
theorem custodyColumnsForCgc_ok
    (hOk : getCustodyGroups E hash fuel nodeId n = .ok groups) :
    ∃ columns, custodyColumnsForCgc E hash fuel nodeId n = .ok columns ∧
      columns.Perm (groups.flatMap (columnsOf E)) := by
  have hDrawn := (getCustodyGroups_ok hOk).1
  have hPerm := (groups.flatMap (columnsOf E)).mergeSort_perm (· ≤ ·)
  have hNodup := hPerm.nodup_iff.mpr (nodup_flatMap_columnsOf hDrawn)
  refine ⟨_, ?_, hPerm⟩
  rw [← destutter_of_isChain _ _ hNodup.isChain]
  exact Outcome.bind_ok_iff.mpr
    ⟨groups, hOk, Outcome.bind_ok_iff.mpr ⟨_, mapM_computeColumns hDrawn, rfl⟩⟩

/-
  A node that looks for some groups gets as many, all different, and keeps them when it looks for
  more. The columns of all groups together are all columns, each of them once, and more groups have
  all columns that fewer have.
-/
theorem custody_groups_nested (E : CustodyPreset) :
    (∀ (hash : List UInt8 → List UInt8) (nodeId : List UInt8) (fewer more : Nat), fewer ≤ more →
      ∀ fuel otherFuel groups others,
      getCustodyGroups E hash fuel nodeId fewer = .ok groups →
      getCustodyGroups E hash otherFuel nodeId more = .ok others →
        groups.length = fewer ∧ groups.Nodup ∧ groups ⊆ others ∧
          ∃ columns later, custodyColumnsForCgc E hash fuel nodeId fewer = .ok columns ∧
            custodyColumnsForCgc E hash otherFuel nodeId more = .ok later ∧
            columns ⊆ later) ∧
      ∃ parts, (List.range E.numberOfCustodyGroups).mapM
          (computeColumnsForCustodyGroup E) = .ok parts ∧
        parts.flatten.Perm (List.range E.numberOfColumns) := by
  refine ⟨?_, ?_⟩
  · intro hash nodeId fewer more hMore fuel otherFuel groups others hOk hx
    rcases getCustodyGroups_ok hOk with ⟨hDrawn, hLen⟩
    have hSubset := getCustodyGroups_subset hMore hOk hx
    rcases custodyColumnsForCgc_ok hOk with ⟨columns, hCols, hPerm⟩
    rcases custodyColumnsForCgc_ok hx with ⟨later, hLater, hLaterPerm⟩
    refine ⟨hLen, hDrawn.nodup, hSubset, columns, later, hCols, hLater, ?_⟩
    intro col hCol
    rcases mem_flatMap.mp (hPerm.mem_iff.mp hCol) with ⟨group, hGroup, hMem⟩
    exact hLaterPerm.mem_iff.mpr (mem_flatMap.mpr ⟨group, hSubset hGroup, hMem⟩)
  · have hAll := drawn_range E
    refine ⟨_, mapM_computeColumns hAll, ?_⟩
    rw [← flatMap_def, perm_ext_iff_of_nodup (nodup_flatMap_columnsOf hAll) nodup_range]
    intro col
    have hLt := Nat.mod_lt col E.groups_pos
    rw [mem_flatMap, mem_range]
    constructor
    · rintro ⟨group, hGroup, hCol⟩
      exact ((mem_columnsOf_iff (hAll.below group hGroup)).mp hCol).1
    · exact fun hCol => ⟨_, mem_range.mpr hLt, (mem_columnsOf_iff hLt).mpr ⟨hCol, rfl⟩⟩

/- The first group that is drawn is among the first two. -/
theorem custody_groups_nested_twoGroups : ∃ groups others,
    getCustodyGroups mainnet id 3 [9] 1 = .ok groups ∧
      getCustodyGroups mainnet id 3 [9] 2 = .ok others ∧ groups ⊆ others :=
  ⟨_, _, rfl, rfl, ((custody_groups_nested mainnet).1 id [9] 1 2 (by decide) 3 3 _ _ rfl rfl).2.2.1⟩

end Pharos.Stf.Custody
