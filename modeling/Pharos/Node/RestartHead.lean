import Pharos.ForkChoice.Linear
import Pharos.Node.Rehydration

/-
  This file says when a restart keeps the head.

  The rebuilt store has no unrealized justification. A head from an epoch before the saved time then
  counts as voting from the first epoch, and if that is too old the search stays at the justified
  block.

  Main theorems:
  * `restart_keeps_head_iff`
-/

----
-- A Chain in a Block Map
----

namespace Pharos.Node

open BeaconSpec ForkChoice HashTable Storage AList

variable {S : Type} [BeaconSpec S]

def HoldsUpTo (links : List (Link S)) (bound : Slot) (blocks : HashMap Root BeaconBlock) :
    Prop :=
  ∀ root block, blocks.lookup root = some block ↔
    ∃ link ∈ links, link.root = root ∧ link.block = block ∧ link.slot ≤ bound

namespace HoldsUpTo

variable {a : Link S} {xs : List (Link S)} {b : Slot}
variable {blocks : HashMap Root BeaconBlock}

section

variable (hHolds : HoldsUpTo (a :: xs) b blocks)
include hHolds

theorem lookup {l : Link S} (hLink : l ∈ a :: xs) (hUpTo : l.slot ≤ b) :
    blocks.lookup l.root = some l.block :=
  (hHolds _ _).mpr ⟨l, hLink, rfl, rfl, hUpTo⟩

theorem mem_iff {r : Root} : r ∈ blocks ↔ ∃ l ∈ a :: xs, l.root = r ∧ l.slot ≤ b := by
  constructor
  · intro hIn
    rcases HashTable.mem_iff.mp hIn with ⟨blk, hBlk⟩
    rcases (hHolds r blk).mp hBlk with ⟨l, hLink, hr, _, hUpTo⟩
    exact ⟨l, hLink, hr, hUpTo⟩
  · rintro ⟨l, hLink, hr, hUpTo⟩
    apply lookup_isSome.mp
    rw [← hr, hHolds.lookup hLink hUpTo]
    rfl

theorem mem_congr {others : HashMap Root BeaconBlock} {b' : Slot} {r : Root}
    (hOthers : HoldsUpTo (a :: xs) b' others)
    (hBoth : ∀ l ∈ a :: xs, l.root = r → l.slot ≤ b ∧ l.slot ≤ b') :
    r ∈ blocks ↔ r ∈ others := by
  rw [hHolds.mem_iff, hOthers.mem_iff]
  refine exists_congr fun l => and_congr_right fun hLink => and_congr_right fun hr => ?_
  exact iff_of_true (hBoth l hLink hr).1 (hBoth l hLink hr).2

theorem parentLinked (hLinked : HashLinked S ((a :: xs).map Link.block)) :
    ParentLinked blocks := by
  refine KeyedByRoot.parentLinked ?_ hLinked
  intro r blk hBlk
  rcases (hHolds r blk).mp hBlk with ⟨l, hLink, hr, hIs, _⟩
  rw [← hIs]
  exact ⟨List.mem_map_of_mem hLink, hr⟩

theorem ancestor (hChain : Chain (a :: xs))
    (hUnforked : Unforked S ((a :: xs).map Link.block)) {l tip : Link S}
    (hLink : l ∈ a :: xs) (hTip : tip ∈ a :: xs) (hPre : l.slot ≤ tip.slot)
    (hUpTo : tip.slot ≤ b) : Forest.Ancestor (parentOf blocks) l.root tip.root := by
  have hParents := hUnforked.parents
  rw [List.isChain_map] at hParents
  -- By induction on the slot of the tip.
  induction hSlot : tip.slot using Nat.strong_induction_on generalizing tip with
  | _ slot ih =>
    rcases eq_or_lt_of_le hPre with hEq | hLess
    · rw [hChain.eq_of_slot hLink hTip hEq]
      exact .refl _
    · rcases hChain.exists_before hParents hTip with hFst | ⟨par, hPar, hr, hOlder, hNext⟩
      · rw [hFst] at hLess
        exact absurd hLess (not_lt.mpr (hChain.first_le hLink))
      · have hUp : l.slot ≤ par.slot := (hNext l hLink).resolve_right (not_le.mpr hLess)
        have hAbove := ih par.slot (hSlot ▸ hOlder) hPar hUp (le_trans (le_of_lt hOlder) hUpTo) rfl
        refine hAbove.trans (.of_parent ?_)
        rw [parentOf, hHolds.lookup hTip hUpTo]
        exact congrArg some hr

end

end HoldsUpTo

----
-- A Node Without a Freezer
----

section

/-
  A node that has followed a chain, and of which the freezer has taken nothing. No payload was found
  invalid.
-/
structure Remembered (first : Link S) (rest : List (Link S)) (node : NodeState S) : Prop
    extends Kept first rest node where
  notFrozen : node.db.splitSlotOrZero = first.slot
  noRestorePoints : node.db.restorePoints = ∅
  blocks : ∀ root block, node.store.blocks.lookup root = some block ↔
    ∃ link ∈ first :: rest, link.root = root ∧ link.block = block
  states : ∀ link ∈ first :: rest, node.store.blockStates.lookup link.root = some link.postState
  notInvalid : ∀ root, ¬node.store.IsInvalid root
  notInvalidOnDisk : ∀ root, node.db.payloadStatus.lookup root ≠ some .invalid

variable {anchor : CheckpointAnchor S} {node s s' : NodeState S}

theorem StartsAt.remembered (hStart : StartsAt anchor node)
    (hOpen : ∀ r, ¬node.store.IsInvalid r) :
    Remembered (anchorLink anchor) [] node where
  toKept := hStart.kept
  notFrozen := by
    rw [hStart.db, slot_anchorLink]
    rfl
  noRestorePoints := by
    rw [hStart.db]
    rfl
  blocks r blk := by
    rw [hStart.blocks, lookup_singleton, ← root_anchorLink]
    simp only [List.mem_singleton, exists_eq_left]
    rw [eq_comm (a := (anchorLink anchor).root)]
    split
    · rename_i hr
      simp only [hr, true_and, Option.some.injEq]
      exact Iff.rfl
    · rename_i hr
      simp [hr]
  states l hLink := by
    rw [List.mem_singleton.mp hLink, hStart.blockStates,
      lookup_singleton, root_anchorLink, if_pos rfl]
    rfl
  notInvalid := hOpen
  notInvalidOnDisk r := by
    rw [hStart.db]
    show (putOptional (∅ : HashMap Root PayloadStatus)
      (some (anchor.blockRoot, .valid))).lookup r ≠ _
    rw [lookup_putOptional_some]
    split
    · simp
    · simp

namespace Remembered

variable {a : Link S} {xs : List (Link S)}

theorem clock (hNode : Remembered a xs s)
    (hEq : s'.store.knowledge = s.store.knowledge) (hDb : s'.db = s.db) :
    Remembered a xs s' := by
  have hBlks := blocks_of_same hEq
  have hStates := states_of_same hEq
  have hStatuses := statuses_of_same hEq
  refine ⟨⟨hNode.chain, ?_, ?_, ?_⟩, ?_, ?_, ?_, ?_, ?_, ?_⟩
  · rw [hDb]
    exact hNode.onDisk
  · rw [hStates]
    exact hNode.inMemory
  · rw [hDb, hNode.notFrozen]
    exact le_max_left _ _
  · rw [hDb]
    exact hNode.notFrozen
  · rw [hDb]
    exact hNode.noRestorePoints
  · rw [hBlks]
    exact hNode.blocks
  · rw [hStates]
    exact hNode.states
  · intro r
    unfold Store.IsInvalid
    rw [hStatuses]
    exact hNode.notInvalid r
  · rw [hDb]
    exact hNode.notInvalidOnDisk

variable [LawfulBeaconSpec S]

theorem imported (hNode : Remembered a xs s) {signed : SignedBeaconBlock}
    {post : S} (hImp : Imported s s' signed true post)
    (hUnforked : Unforked S ((a :: xs).map Link.block ++ [signed.message])) :
    Remembered a (xs ++ [⟨signed, post⟩]) s' := by
  have hKept := hNode.toKept.imported hImp hUnforked
  have hChain : Chain ((a :: xs) ++ [⟨signed, post⟩]) := hKept.chain
  refine ⟨hKept, ?_, ?_, ?_, ?_, ?_, ?_⟩
  · rw [hImp.frozen.2.2]
    exact hNode.notFrozen
  · rw [hImp.restorePoints]
    exact hNode.noRestorePoints
  · rw [hImp.blocks]
    exact lookup_insert_iff_exists hNode.blocks fun l hLink => (hChain.fresh hLink).2.1
  · intro l hLink
    rw [hImp.blockStates]
    rcases hChain.cases_append hLink with ⟨hOld, _, hr, _⟩ | hNew
    · have hx : l.root ≠ treeHashRoot S signed.message := hr
      rw [lookup_insert_ne hx]
      exact hNode.states l hOld
    · rw [hNew]
      exact lookup_insert _
  · intro r hBad
    rw [Store.IsInvalid, statuses_of_add hImp.knowledge] at hBad
    split at hBad
    · rcases Option.getD_eq_iff.mp (Option.some.inj hBad) with hBad | ⟨_, hBad⟩
      · exact hNode.notInvalid r hBad
      · cases hBad
    · exact hNode.notInvalid r hBad
  · intro r
    rcases hImp.persisted with ⟨headRoot, hDb⟩
    rw [hDb]
    show (putOptional s.db.payloadStatus (if _ then some (_, .notValidated) else none)).lookup r ≠ _
    split
    · rw [lookup_putOptional_some]
      split
      · simp
      · exact hNode.notInvalidOnDisk r
    · exact hNode.notInvalidOnDisk r

end Remembered

variable [LawfulBeaconSpec S]

theorem remembered_final (hStart : StartsAt anchor node)
    (hOpen : ∀ r, ¬node.store.IsInvalid r) {acts : List NodeAction}
    (hChecked : ∀ signed ins, .importBlock signed ins ∈ acts → ins.validateResult = true)
    (hUnforked : Unforked S (history anchor node acts)) :
    ∃ xs, (anchorLink anchor :: xs).map Link.block = history anchor node acts ∧
      Remembered (anchorLink anchor) xs (Run.final nodeStep node acts) := by
  refine imports_invariant (fun blocks node =>
      Unforked S blocks → ∃ xs, (anchorLink anchor :: xs).map Link.block = blocks ∧
        Remembered (anchorLink anchor) xs node)
    ?_ ?_ ?_ hUnforked
  · intro blocks s s' hPre hEq hDb hBlks
    rcases hPre hBlks with ⟨xs, hLinks, hNode⟩
    exact ⟨xs, hLinks, hNode.clock hEq hDb⟩
  · intro blocks s s' signed ins post hPre hAction hImp hLonger
    rcases hPre hLonger.front with ⟨xs, hLinks, hNode⟩
    rw [hChecked signed ins hAction] at hImp
    rw [← hLinks] at hLonger ⊢
    refine ⟨_, ?_, hNode.imported hImp hLonger⟩
    rw [← List.cons_append, List.map_append]
    rfl
  · intro _
    exact ⟨[], rfl, hStart.remembered hOpen⟩

end

----
-- The Restored Store
----

section

/- What a restored store has from the snapshot. -/
structure Restored (db : Db S) (snapshot : ForkChoiceSnapshot) (secondsPerSlot : Nat)
    (store : Store S) : Prop where
  time : store.time = snapshot.lastKnownTime
  genesisTime : store.genesisTime = snapshot.genesisTime
  secondsPerSlot : store.secondsPerSlot = secondsPerSlot
  justified : store.justifiedCheckpoint = snapshot.justifiedCheckpoint
  finalized : store.finalizedCheckpoint = snapshot.finalizedCheckpoint
  unrealized : store.unrealizedJustifications = ∅
  statuses : store.payloadStatuses =
    rehydratePayloadStatuses db.payloadStatus snapshot.finalizedCheckpoint.root

variable {db : Db S} {snap : ForkChoiceSnapshot} {secondsPerSlot : Nat}
variable {st : Store S}

theorem restored_of_ok (hOk : rehydrateForkChoiceStore db snap secondsPerSlot = .ok st) :
    Restored db snap secondsPerSlot st := by
  unfold rehydrateForkChoiceStore at hOk
  dsimp only at hOk
  split at hOk
  · cases hOk
  · split at hOk
    · cases hOk
    · cases hOk
      exact ⟨rfl, rfl, rfl, rfl, rfl, rfl, rfl⟩

omit [BeaconSpec S] in
/- No verdict of the database, no verdict after a restart. -/
theorem Restored.notInvalid (hRestored : Restored db snap secondsPerSlot st)
    (hOpen : ∀ r, db.payloadStatus.lookup r ≠ some .invalid) (r : Root) :
    ¬st.IsInvalid r := by
  unfold Store.IsInvalid
  rw [hRestored.statuses]
  unfold rehydratePayloadStatuses
  split
  · exact hOpen r
  · by_cases hr : r = snap.finalizedCheckpoint.root
    · rw [hr, lookup_insert]
      simp
    · rw [lookup_insert_ne hr]
      exact hOpen r

namespace Remembered

variable {a : Link S} {xs : List (Link S)} {node : NodeState S}
variable {l : Link S}

variable (hNode : Remembered a xs node)
include hNode

theorem isHot (hLink : l ∈ a :: xs) : IsHot node.db a.slot l.slot := by
  unfold IsHot
  rw [hNode.notFrozen]
  exact (eq_or_lt_of_le (hNode.chain.first_le hLink)).imp_left Eq.symm

theorem nearestRestorePoint_eq_none (slot : Slot) : node.db.nearestRestorePoint slot = none := by
  unfold Db.nearestRestorePoint
  rw [hNode.noRestorePoints, List.findSome?_eq_none_iff]
  intro x _
  rfl

theorem loadStateHotOrCold_eq_if
    (hLink : l ∈ a :: xs) (searchUpTo : Slot) :
    loadStateHotOrCold node.db l.stateRoot searchUpTo =
      if l.slot = a.slot ∨ l.slot % slotsPerEpoch S = 0 then some l.postState
      else none := by
  unfold loadStateHotOrCold
  rw [hNode.onDisk.hotState l hLink (hNode.isHot hLink)]
  split
  · rename_i y hGot
    exact hGot.symm
  · rename_i hNone
    rw [hNode.nearestRestorePoint_eq_none]
    exact hNone.symm

theorem getBlockHotOrCold_eq (hLink : l ∈ a :: xs) :
    node.db.getBlockHotOrCold l.root = some l.signedBlock := by
  unfold Db.getBlockHotOrCold
  rw [hNode.onDisk.hot l hLink, if_pos (hNode.isHot hLink)]
  rfl

theorem rehydrateForkChoiceStore_isOk_iff
    (snap : ForkChoiceSnapshot) (secondsPerSlot : Nat) :
    (∃ st, rehydrateForkChoiceStore node.db snap secondsPerSlot = .ok st) ↔
      ∃ final ∈ a :: xs, final.root = snap.finalizedCheckpoint.root ∧
      (final.slot = a.slot ∨ final.slot % slotsPerEpoch S = 0) := by
  constructor
  · rintro ⟨st, hOk⟩
    rcases finalized_mem_of_ok hNode.onDisk hOk with ⟨final, hFin, hr⟩
    refine ⟨final, hFin, hr, ?_⟩
    by_contra hNotFull
    unfold rehydrateForkChoiceStore at hOk
    dsimp only at hOk
    rw [← hr, hNode.getBlockHotOrCold_eq hFin] at hOk
    dsimp only at hOk
    have hNone := hNode.loadStateHotOrCold_eq_if hFin (max node.db.splitSlotOrZero final.slot)
    rw [if_neg hNotFull] at hNone
    unfold Link.stateRoot Link.slot Link.block at hNone
    rw [hNone] at hOk
    cases hOk
  · rintro ⟨final, hFin, hr, hFull⟩
    have hs := hNode.loadStateHotOrCold_eq_if hFin (max node.db.splitSlotOrZero final.slot)
    rw [if_pos hFull] at hs
    unfold Link.stateRoot Link.slot Link.block at hs
    unfold rehydrateForkChoiceStore
    dsimp only
    rw [← hr, hNode.getBlockHotOrCold_eq hFin]
    dsimp only
    rw [hs]
    exact ⟨_, rfl⟩

variable [LawfulBeaconSpec S]

theorem holdsUpTo_restored (hReplay : Replayable (a :: xs))
    (hOk : rehydrateForkChoiceStore node.db snap secondsPerSlot = .ok st)
    (hPre : ∀ final ∈ a :: xs,
      final.root = snap.finalizedCheckpoint.root → final.slot ≤ snap.headSlot) :
    HoldsUpTo (a :: xs) snap.headSlot st.blocks ∧ ∀ l ∈ a :: xs,
      l.slot ≤ snap.headSlot → st.blockStates.lookup l.root = some l.postState := by
  rcases rehydrateForkChoiceStore_ok hNode.chain hNode.onDisk hReplay hOk with
    ⟨final, hFin, hr, hBlks, hStates⟩
  have hCovered : ∀ l ∈ a :: xs, Covered node.db a.slot final
      (windowLength node.db snap.headSlot) l ↔ l.slot ≤ snap.headSlot := by
    intro l hLink
    unfold Covered
    rw [inWindow_windowLength_iff]
    constructor
    · rintro (hIs | ⟨_, _, hUpTo⟩)
      · rw [hIs]
        exact hPre final hFin hr
      · exact hUpTo
    · intro hUpTo
      refine .inr ⟨hNode.isHot hLink, ?_, hUpTo⟩
      rw [hNode.notFrozen]
      exact hNode.chain.first_le hLink
  refine ⟨?_, ?_⟩
  · intro r blk
    rw [hBlks, lookup_blocks_window hNode.chain hNode.onDisk hFin]
    refine exists_congr fun l => and_congr_right fun hLink => and_congr_right fun _ =>
        and_congr_right fun _ => ?_
    exact hCovered l hLink
  · intro l hLink hUpTo
    rw [hStates]
    refine (states_window_iff hNode.chain hNode.onDisk hReplay hFin _).mpr ?_ l hLink
      ((hCovered l hLink).mpr hUpTo)
    rw [firstStored_iff hNode.onDisk, hNode.notFrozen]
    intro hFrozen
    exact absurd hFrozen (lt_irrefl _)

omit hNode

end Remembered

end

----
-- The Head after a Restart
----

section

def FinalizedStored (anchorSlot : Slot) (store : Store S) : Prop :=
  ∃ block, store.blocks.lookup store.finalizedCheckpoint.root = some block ∧
    (block.slot = anchorSlot ∨ block.slot % slotsPerEpoch S = 0)

/-
  The head does not depend on an unrealized justification: the search did not leave its base, or any
  source is recent enough, or the head is not from an epoch before the clock's.
-/
def SourceKept (store : Store S) : Prop :=
  getHead store = effectiveBase store ∨ store.justifiedCheckpoint.epoch = genesisEpoch ∨
    getCurrentStoreEpoch store ≤ 2 ∨
    getCurrentStoreEpoch store ≤ computeEpochAtSlot S (blockSlotOrZero store (getHead store))

variable {a tip : Link S} {xs : List (Link S)}
variable {saved : NodeState S} {st : Store S}

theorem HoldsUpTo.linear (hHolds : HoldsUpTo (a :: xs) tip.slot st.blocks)
    (hChain : Chain (a :: xs)) (hUnforked : Unforked S ((a :: xs).map Link.block))
    (hLinked : HashLinked S ((a :: xs).map Link.block)) (hTip : tip ∈ a :: xs)
    (hOpen : ∀ r, ¬st.IsInvalid r) :
    Linear st tip.root where
  linked := hHolds.parentLinked hLinked
  onChain r hIn := by
    rcases hHolds.mem_iff.mp hIn with ⟨l, hLink, hr, hUpTo⟩
    rw [← hr]
    exact hHolds.ancestor hChain hUnforked hLink hTip hUpTo (le_refl _)
  notInvalid := hOpen

variable (hNode : Remembered a xs saved)
include hNode

theorem Remembered.holdsUpTo
    (hLast : ∀ x ∈ a :: xs, x.slot ≤ tip.slot) :
    HoldsUpTo (a :: xs) tip.slot saved.store.blocks := by
  intro r blk
  rw [hNode.blocks]
  refine exists_congr fun l => and_congr_right fun hLink => and_congr_right fun _ => ?_
  exact (and_iff_left (hLast l hLink)).symm

theorem isViableLeaf_restored_iff {snap : ForkChoiceSnapshot} {slot : Slot} (hTip : tip ∈ a :: xs)
    (hLast : ∀ x ∈ a :: xs, x.slot ≤ tip.slot)
    (hSnapshot : snap = forkChoiceSnapshot saved.store tip.root slot)
    (hRestored : Restored saved.db snap saved.store.secondsPerSlot st)
    (hHolds : HoldsUpTo (a :: xs) tip.slot st.blocks)
    (hs : st.blockStates.lookup tip.root = some tip.postState)
    (hViable : isViableLeaf saved.store tip.root = true) :
    isViableLeaf st tip.root = true ↔
      saved.store.justifiedCheckpoint.epoch = genesisEpoch ∨ getCurrentStoreEpoch saved.store ≤ 2 ∨
        getCurrentStoreEpoch saved.store ≤ computeEpochAtSlot S tip.slot := by
  have hSaved := hNode.holdsUpTo hLast
  have hJust : st.justifiedCheckpoint = saved.store.justifiedCheckpoint := by
    rw [hRestored.justified, hSnapshot]
    rfl
  have hFin : st.finalizedCheckpoint = saved.store.finalizedCheckpoint := by
    rw [hRestored.finalized, hSnapshot]
    rfl
  have hEp : getCurrentStoreEpoch st = getCurrentStoreEpoch saved.store := by
    apply getCurrentStoreEpoch_congr
    · rw [hRestored.time, hSnapshot]
      rfl
    · rw [hRestored.genesisTime, hSnapshot]
      rfl
    · exact hRestored.secondsPerSlot
  have hEq : ∀ r, st.blocks.lookup r = saved.store.blocks.lookup r := by
    intro r
    apply Option.ext
    intro blk
    rw [hHolds r blk, hSaved r blk]
  have hAnc : getCheckpointBlock st tip.root st.finalizedCheckpoint.epoch =
      getCheckpointBlock saved.store tip.root saved.store.finalizedCheckpoint.epoch := by
    rw [hFin]
    exact getAncestor_congr hEq _ _
  unfold isViableLeaf at hViable ⊢
  rw [decide_eq_true_iff] at hViable ⊢
  rw [hAnc, hJust, hFin, hEp, and_iff_left hViable.2]
  have hSrc : getVotingSource st tip.root =
        if getCurrentStoreEpoch saved.store > computeEpochAtSlot S tip.slot then
          Checkpoint.default
        else
          getVotingSource saved.store tip.root := by
    unfold getVotingSource
    rw [hHolds.lookup hTip (le_refl _), hSaved.lookup hTip (le_refl _), hRestored.unrealized,
      hs, hNode.states tip hTip, hEp]
    dsimp only
    unfold Link.slot
    split
    · rfl
    · rfl
  rw [hSrc]
  split
  · rename_i hOld
    have hNotLater := not_le.mpr hOld
    constructor
    · rintro (hGenesis | hEqual | hRecent)
      · exact .inl hGenesis
      · exact .inl hEqual.symm
      · exact .inr (.inl hRecent)
    · rintro (hGenesis | hRecent | hLater)
      · exact .inl hGenesis
      · exact .inr (.inr hRecent)
      · exact absurd hLater hNotLater
  · rename_i hNew
    refine iff_of_true hViable.1 ?_
    exact .inr (.inr (not_lt.mp hNew))

variable [LawfulBeaconSpec S]

theorem getHead_restored_iff (hReplay : Replayable (a :: xs)) {head : Link S} {slot : Slot}
    (hUnforked : Unforked S ((a :: xs).map Link.block))
    (hLinked : HashLinked S ((a :: xs).map Link.block)) (hMem : head ∈ a :: xs)
    (hIsHead : head.root = getHead saved.store)
    (hPre : ∀ final ∈ a :: xs,
      final.root = saved.store.finalizedCheckpoint.root → final.slot ≤ head.slot)
    (hOk : rehydrateForkChoiceStore saved.db (forkChoiceSnapshot saved.store head.root slot)
        saved.store.secondsPerSlot =
      .ok st) : getHead st = getHead saved.store ↔ SourceKept saved.store := by
  have hChain := hNode.chain
  rcases hChain.exists_last with ⟨last, hMemLast, hLast⟩
  have hSaved := hNode.holdsUpTo hLast
  have hHeadSlot : (forkChoiceSnapshot saved.store head.root slot).headSlot = head.slot := by
    unfold forkChoiceSnapshot
    rw [hSaved.lookup hMem (hLast head hMem)]
    rfl
  rcases finalized_mem_of_ok hNode.onDisk hOk with ⟨final, hFin, hr⟩
  have hRestored := restored_of_ok hOk
  have hBlks := hNode.holdsUpTo_restored hReplay hOk (hHeadSlot ▸ hPre)
  rw [hHeadSlot] at hBlks
  rcases hBlks with ⟨hHolds, hStates⟩
  -- The head before the restart.
  have hSavedHead := (hSaved.linear hChain hUnforked hLinked hMemLast hNode.notInvalid).getHead_eq
    (effectiveBase_mem (hSaved.mem_iff.mpr ⟨final, hFin, hr,
    hLast final hFin⟩))
  have hMoved : getHead saved.store ≠ effectiveBase saved.store →
      head = last ∧ isViableLeaf saved.store last.root = true := by
    intro hNot
    rw [hSavedHead] at hNot hIsHead
    split at hNot
    · rename_i hViable
      rw [if_pos hViable] at hIsHead
      exact ⟨hChain.eq_of_root hMem hMemLast hIsHead, hViable⟩
    · exact absurd rfl hNot
  -- The search starts where it started.
  have hBase : effectiveBase st = effectiveBase saved.store := by
    unfold effectiveBase
    rw [hRestored.justified, hRestored.finalized]
    refine if_congr (hHolds.mem_congr hSaved ?_) rfl rfl
    intro l hLink hLinkRoot
    refine ⟨?_, hLast l hLink⟩
    by_cases hStay : getHead saved.store = effectiveBase saved.store
    · have hIn : saved.store.justifiedCheckpoint.root ∈ saved.store.blocks :=
          hSaved.mem_iff.mpr ⟨l, hLink, hLinkRoot, hLast l hLink⟩
      unfold effectiveBase at hStay
      rw [if_pos hIn, ← hIsHead] at hStay
      rw [hChain.eq_of_root hMem hLink (hStay.trans hLinkRoot.symm)]
    · rw [(hMoved hStay).1]
      exact hLast l hLink
  have hHead := (hHolds.linear hChain hUnforked hLinked hMem
    (hRestored.notInvalid hNode.notInvalidOnDisk)).getHead_eq
    (effectiveBase_mem (hHolds.mem_iff.mpr ⟨final, hFin,
    hr.trans (congrArg Checkpoint.root hRestored.finalized).symm,
    hPre final hFin hr⟩))
  rw [hHead, hBase, ← hIsHead]
  by_cases hStay : getHead saved.store = effectiveBase saved.store
  · refine iff_of_true ?_ (.inl hStay)
    rw [← hStay, ← hIsHead, ite_self]
  · rcases hMoved hStay with ⟨rfl, hViable⟩
    have hIff := isViableLeaf_restored_iff hNode hMem hLast rfl hRestored hHolds
      (hStates head hMem (le_refl _)) hViable
    have hSlot : blockSlotOrZero saved.store (getHead saved.store) = head.slot := by
      unfold blockSlotOrZero
      rw [← hIsHead, hSaved.lookup hMem (le_refl _)]
      rfl
    unfold SourceKept
    rw [or_iff_right hStay, hSlot, ← hIff]
    rw [← hIsHead] at hStay
    constructor
    · intro hEq
      by_contra hNot
      rw [if_neg hNot] at hEq
      exact hStay hEq.symm
    · intro hTest
      rw [if_pos hTest]

omit hNode

omit [LawfulBeaconSpec S] in
theorem db_final_of_no_import {later : List NodeAction} (hLater : importedBlocks saved later = []) :
    (Run.final nodeStep saved later).db = saved.db := by
  refine imports_invariant (fun blks s => blks = [] → s.db = saved.db) ?_ ?_
    (fun _ : [] = [] => rfl) hLater
  · intro blks s s' hPre _ hDb hNone
    rw [hDb]
    exact hPre hNone
  · intro blks s s' signed ins post _ _ _ hNone
    exact absurd hNone (by simp)

/-
  A node follows a chain without forks, imports a last block, and goes on without another one until
  it is shut down. The restart succeeds exactly if the state of the finalized block was written. If
  the blocks go through unchecked too, it then keeps the head exactly if the head does not depend on
  an unrealized justification.
-/
theorem restart_keeps_head_iff (anchor : CheckpointAnchor S) (node : NodeState S)
    (hStart : StartsAt anchor node) (hOpen : ∀ root, ¬node.store.IsInvalid root)
    (past : List NodeAction) (signedBlock : SignedBeaconBlock) (inputs : ImportInputs)
    (hChecked : ∀ block blockInputs,
      .importBlock block blockInputs ∈ past ++ [.importBlock signedBlock inputs] →
        blockInputs.validateResult = true)
    (hUnforked : Unforked S (history anchor node (past ++ [.importBlock signedBlock inputs])))
    (hLinked : HashLinked S (history anchor node (past ++ [.importBlock signedBlock inputs])))
    (hReplay : ReplaysUnchecked anchor
      (history anchor node (past ++ [.importBlock signedBlock inputs])))
    (saved : NodeState S)
    (hSaved : nodeStep (Run.final nodeStep node past) (.importBlock signedBlock inputs) = .ok saved)
    (hBefore : blockSlotOrZero saved.store saved.store.finalizedCheckpoint.root ≤
      blockSlotOrZero saved.store (getHead saved.store))
    (later : List NodeAction)
    (hLater : importedBlocks saved later = []) :
    let db := (Run.final nodeStep saved later).db
    ∃ snap,
      db.forkchoice = some snap ∧ snap.headRoot = getHead saved.store ∧
        ((∃ st, rehydrateForkChoiceStore db snap saved.store.secondsPerSlot = .ok st) ↔
          FinalizedStored anchor.signedBlock.message.slot saved.store) ∧
        ∀ st, rehydrateForkChoiceStore db snap saved.store.secondsPerSlot = .ok st →
          (getHead st = snap.headRoot ↔ SourceKept saved.store) := by
  have hFinal : Run.final nodeStep node (past ++ [.importBlock signedBlock inputs]) = saved := by
    rw [Run.final_append]
    show Run.next nodeStep _ _ = saved
    unfold Run.next
    rw [hSaved]
  rcases remembered_final hStart hOpen hChecked hUnforked with ⟨xs, hLinks, hNode⟩
  rw [hFinal] at hNode
  rw [← hLinks] at hUnforked hLinked
  rcases nodeStep_importBlock_ok hSaved with ⟨outcome, hImport⟩
  rcases importBlock_saves hImport with ⟨hIn, hSnapshot⟩
  rcases hNode.chain.exists_last with ⟨last, _, hLast⟩
  have hHolds := hNode.holdsUpTo hLast
  rcases hHolds.mem_iff.mp hIn with ⟨head, hHead, hHeadRoot, _⟩
  have hSlotOf : ∀ l ∈ anchorLink anchor :: xs, blockSlotOrZero saved.store l.root = l.slot := by
    intro l hLink
    unfold blockSlotOrZero
    rw [hHolds.lookup hLink (hLast l hLink)]
    rfl
  rw [db_final_of_no_import hLater]
  refine ⟨_, hSnapshot, rfl, ?_, ?_⟩
  · rw [hNode.rehydrateForkChoiceStore_isOk_iff]
    constructor
    · rintro ⟨final, hFin, hr, hFull⟩
      refine ⟨final.block, ?_, hFull⟩
      rw [hNode.blocks]
      exact ⟨final, hFin, hr, rfl⟩
    · rintro ⟨block, hBlk, hFull⟩
      rcases (hNode.blocks _ _).mp hBlk with ⟨final, hFin, hr, hIs⟩
      rw [← hIs] at hFull
      exact ⟨final, hFin, hr, hFull⟩
  · intro st hOk
    rw [← hHeadRoot] at hOk
    refine getHead_restored_iff hNode (hReplay xs hLinks hNode.chain) hUnforked hLinked hHead hHeadRoot ?_ hOk
    intro final hFin hr
    rw [← hHeadRoot, ← hr, hSlotOf head hHead, hSlotOf final hFin] at hBefore
    exact hBefore

end

----
-- A Chain That Is Imported Late
----

open Sample

def tipBlock : BeaconBlock :=
  child (treeHashRoot epochBlock) 9 1 []

def tipRoot : Root :=
  treeHashRoot tipBlock

/- The condition, when the tip is imported in its epoch. -/
theorem restart_keeps_head_iff_importInTime : ∃ saved,
      nodeStep (Run.final nodeStep syncedNode (importAll 110 [epochBlock]))
          (.importBlock (signed tipBlock)
            { verifiedInputs with now := 110 }) =
        .ok saved ∧
      let db := (Run.final nodeStep saved [.tick 200]).db
      ∃ snap,
        db.forkchoice = some snap ∧ snap.headRoot = getHead saved.store ∧
          ((∃ st, rehydrateForkChoiceStore db snap saved.store.secondsPerSlot = .ok st) ↔
            FinalizedStored sampleAnchor.signedBlock.message.slot saved.store) ∧
          ∀ st, rehydrateForkChoiceStore db snap saved.store.secondsPerSlot = .ok st →
            (getHead st = snap.headRoot ↔ SourceKept saved.store) := by
  refine ⟨_, rfl, restart_keeps_head_iff sampleAnchor syncedNode startsAt_syncedNode ?_
    (importAll 110 [epochBlock]) (signed tipBlock)
    { verifiedInputs with now := 110 } ?_ ?_
    (hashLinked _) (replaysUnchecked _) _ rfl ?_ [.tick 200] rfl⟩
  · intro r
    show (AList.singleton anchorRoot .valid : HashMap Root PayloadStatus).lookup r ≠ some .invalid
    rw [HashTable.lookup_singleton]
    split
    · simp
    · simp
  · intro blk blockInputs hMem
    have hAll : .importBlock blk blockInputs ∈ importAll 110 [epochBlock, tipBlock] :=
      hMem
    exact validateResult_of_mem_importAll hAll
  · exact ⟨by decide, by decide, by decide⟩
  · decide

/-
  A chain that is imported an epoch late. Before the restart its tip is the head, and after it the
  justified block is.
-/
theorem restart_loses_head :
    let reached := Run.final nodeStep syncedNode (importAll 150 [epochBlock, tipBlock])
    ∃ snap st,
      reached.db.forkchoice = some snap ∧ getHead reached.store = tipRoot ∧
        snap.headRoot = tipRoot ∧
        rehydrateForkChoiceStore reached.db snap reached.store.secondsPerSlot = .ok st ∧
        st.blocks.lookup tipRoot = some tipBlock ∧
        getHead st = treeHashRoot epochBlock ∧
        treeHashRoot epochBlock ≠ tipRoot :=
  ⟨_, _, rfl, by decide, by decide, rfl, by decide, by decide, by decide⟩

end Pharos.Node
