import Pharos.Pools.OperationPools
import Pharos.Storage.Db

/-
  This file models the scan of the stored blocks for double proposals, and proves when it reports a
  proposer.

  The scan goes through the slot index, which leads to one block of a slot. A second block of the
  slot is compared with the first only if an earlier scan left the header of one of them.

  Main theorems:
  * `replay_reports_iff`
-/

----
-- Headers
----

namespace Pharos.Node.SlasherReplay

open Pools Storage List

/- The column family of headers and the pools. -/
structure ProposerSlasher where
  headers : HashMap (Slot × ValidatorIndex × Root) SignedBeaconBlockHeader
  opPools : OperationPools

variable (headerRoot : BeaconBlockHeader → Root)

namespace ProposerSlasher

variable (slasher : ProposerSlasher)

/- The scan of the keys that start with the slot and the proposer, in their order. -/
def slasherProposerHeadersAt (slot : Slot) (proposer : ValidatorIndex) :
    List SignedBeaconBlockHeader :=
  ((slasher.headers.entries.filter fun entry => entry.1.1 = slot ∧ entry.1.2.1 = proposer)
    |>.insertionSort fun first second => first.1.2.2 ≤ second.1.2.2).map Sigma.snd

def detected (header : SignedBeaconBlockHeader) : Option SignedBeaconBlockHeader :=
  (slasher.slasherProposerHeadersAt header.message.slot header.message.proposerIndex).find?
    fun prior => headerRoot prior.message ≠ headerRoot header.message

def observe (header : SignedBeaconBlockHeader) : ProposerSlasher where
  headers :=
    slasher.headers.insert
      (header.message.slot, header.message.proposerIndex, headerRoot header.message) header
  opPools :=
    match slasher.detected headerRoot header with
    | some prior => slasher.opPools.insertProposerSlashing ⟨prior, header⟩
    | none => slasher.opPools

/- The pool has a slashing for the proposer. -/
def Reports (proposer : ValidatorIndex) : Prop :=
  (slasher.opPools.proposerSlashings.peek proposer).isSome
deriving Decidable

def pooled : Nat :=
  slasher.opPools.proposerSlashings.table.entries.length

variable {headerRoot} {slasher : ProposerSlasher} {header : SignedBeaconBlockHeader}

theorem detected_observe_of_ne {x : SignedBeaconBlockHeader}
    (hSlot : x.message.slot ≠ header.message.slot) :
    (slasher.observe headerRoot header).detected headerRoot x = slasher.detected headerRoot x := by
  unfold detected slasherProposerHeadersAt observe
  rw [HashTable.filter_insert]
  simp [hSlot.symm]

theorem pooled_observe_le (headerRoot : BeaconBlockHeader → Root) (slasher : ProposerSlasher)
    (header : SignedBeaconBlockHeader) : (slasher.observe headerRoot header).pooled ≤
      slasher.pooled + (slasher.detected headerRoot header).toList.length := by
  unfold observe pooled
  cases slasher.detected headerRoot header with
  | none => exact le_rfl
  | some prior => exact LruCache.length_putIfAbsent_le _ _

theorem reports_observe_iff (hRoom : slasher.pooled +
      (slasher.detected headerRoot header).toList.length ≤ maxPoolEntries) (p : ValidatorIndex) :
    (slasher.observe headerRoot header).Reports p ↔ slasher.Reports p ∨ ∃ prior,
      slasher.detected headerRoot header = some prior ∧ prior.message.proposerIndex = p := by
  unfold observe Reports
  cases hDetected : slasher.detected headerRoot header with
  | none => simp
  | some prior =>
    rw [hDetected] at hRoom
    refine (LruCache.isSome_peek_putIfAbsent hRoom _ _ _).trans (or_congr_right ?_)
    simp [eq_comm]

end ProposerSlasher

----
-- Replay
----

variable {S : Type} (bodyRoot : BeaconBlock → Root)

def signedBlockHeader (block : SignedBeaconBlock) : SignedBeaconBlockHeader where
  message :=
    { slot := block.message.slot
      proposerIndex := block.message.proposerIndex
      parentRoot := block.message.parentRoot
      stateRoot := block.message.stateRoot
      bodyRoot := bodyRoot block.message }
  signature := block.signature

/- A block that is missing is logged and passed over. -/
def scanBlock (db : Db S) (slasher : ProposerSlasher) (blockRoot : Root) : ProposerSlasher :=
  match db.getBlockHotOrCold blockRoot with
  | some block => slasher.observe headerRoot (signedBlockHeader bodyRoot block)
  | none => slasher

def replay (db : Db S) (slasher : ProposerSlasher) (fromSlot toSlot : Slot) : ProposerSlasher :=
  (List.range' fromSlot (toSlot + 1 - fromSlot)).foldl
    (fun slasher slot =>
      match db.blockRootAtSlot slot with
      | some blockRoot => scanBlock headerRoot bodyRoot db slasher blockRoot
      | none => slasher)
    slasher

/- The header that is observed at a slot. -/
def scanned (db : Db S) (slot : Slot) : Option SignedBeaconBlockHeader :=
  ((db.blockRootAtSlot slot).bind db.getBlockHotOrCold).map (signedBlockHeader bodyRoot)

theorem replay_eq (db : Db S) (slasher : ProposerSlasher) (fromSlot toSlot : Slot) :
    replay headerRoot bodyRoot db slasher fromSlot toSlot =
      ((List.range' fromSlot (toSlot + 1 - fromSlot)).filterMap (scanned bodyRoot db)).foldl
        (ProposerSlasher.observe headerRoot) slasher := by
  rw [replay, foldl_filterMap]
  congr
  funext slasher slot
  rw [scanned]
  cases db.blockRootAtSlot slot with
  | none => rfl
  | some r =>
    change scanBlock headerRoot bodyRoot db slasher r = _
    rw [scanBlock, Option.bind_some]
    cases db.getBlockHotOrCold r <;> rfl

variable {headerRoot} {slasher : ProposerSlasher}

theorem reports_foldl_observe_iff {headers : List SignedBeaconBlockHeader}
    (hSlots : (headers.map (·.message.slot)).Nodup)
    (hRoom : slasher.pooled + (headers.filterMap (slasher.detected headerRoot)).length ≤
      maxPoolEntries) (p : ValidatorIndex) :
    (headers.foldl (ProposerSlasher.observe headerRoot) slasher).Reports p ↔
      slasher.Reports p ∨ ∃ header ∈ headers, ∃ prior,
        slasher.detected headerRoot header = some prior ∧ prior.message.proposerIndex = p := by
  induction headers generalizing slasher with
  | nil => simp
  | cons header xs ih =>
    rw [map_cons, nodup_cons, mem_map] at hSlots
    have hLater : ∀ x ∈ xs, (slasher.observe headerRoot header).detected headerRoot x =
        slasher.detected headerRoot x :=
      fun x hx => ProposerSlasher.detected_observe_of_ne fun hEq => hSlots.1 ⟨x, hx, hEq⟩
    have hLen : (((header :: xs).filterMap (slasher.detected headerRoot)).length) =
        (slasher.detected headerRoot header).toList.length +
          (xs.filterMap (slasher.detected headerRoot)).length := by
      cases hDetected : slasher.detected headerRoot header <;> simp [hDetected, Nat.add_comm]
    have hGrown := ProposerSlasher.pooled_observe_le headerRoot slasher header
    rw [foldl_cons, ih hSlots.2, ProposerSlasher.reports_observe_iff (by omega)]
    · rw [or_assoc, exists_mem_cons_iff]
      refine or_congr_right (or_congr_right (exists_congr fun x => and_congr_right fun hx => ?_))
      rw [hLater x hx]
    · rw [filterMap_congr hLater]
      omega

----
-- What a Replay Reports
----

/- The index leads to blocks of its slots, as imports write it. -/
def IndexedBySlot (db : Db S) : Prop :=
  ∀ entry ∈ db.slotToBlockRoot.entries, ∀ block ∈ db.getBlockHotOrCold entry.2,
    block.message.slot = entry.1
deriving Decidable

variable {bodyRoot} {db : Db S}

theorem slot_of_scanned (hIndex : IndexedBySlot db) {slot : Slot} {header : SignedBeaconBlockHeader}
    (hScanned : scanned bodyRoot db slot = some header) : header.message.slot = slot := by
  rcases Option.map_eq_some_iff.mp hScanned with ⟨blk, hStored, rfl⟩
  rcases Option.bind_eq_some_iff.mp hStored with ⟨r, hRoot, hBlk⟩
  exact hIndex ⟨slot, r⟩ (AList.mem_lookup_iff.mp hRoot) blk hBlk

theorem slots_scanned_sublist (hIndex : IndexedBySlot db) (slots : List Slot) :
    ((slots.filterMap (scanned bodyRoot db)).map (·.message.slot)).Sublist slots := by
  induction slots with
  | nil => exact .slnil
  | cons slot xs ih =>
    cases hScanned : scanned bodyRoot db slot with
    | none => simpa [hScanned] using ih.cons slot
    | some header =>
      rw [filterMap_cons_some hScanned, map_cons, slot_of_scanned hIndex hScanned]
      exact ih.cons_cons slot

/-
  A proposer is in the pool after a replay if it was there before, or if at some slot the block of
  the index contradicts a header that was on record before.
-/
theorem replay_reports_iff (hIndex : IndexedBySlot db) {fromSlot toSlot : Slot}
    (hRoom : slasher.pooled + (((List.range' fromSlot (toSlot + 1 - fromSlot)).filterMap
      (scanned bodyRoot db)).filterMap (slasher.detected headerRoot)).length ≤ maxPoolEntries)
    (proposer : ValidatorIndex) :
    (replay headerRoot bodyRoot db slasher fromSlot toSlot).Reports proposer ↔
      slasher.Reports proposer ∨ ∃ slot, (fromSlot ≤ slot ∧ slot ≤ toSlot) ∧
        ∃ header prior, scanned bodyRoot db slot = some header ∧
          slasher.detected headerRoot header = some prior ∧
          prior.message.proposerIndex = proposer := by
  have hRange : ∀ low high n : Nat, low ≤ n ∧ n < low + (high + 1 - low) ↔ low ≤ n ∧ n ≤ high := by
    omega
  rw [replay_eq, reports_foldl_observe_iff
    ((slots_scanned_sublist hIndex _).nodup nodup_range') hRoom]
  simp only [mem_filterMap, mem_range'_1, hRange]
  refine or_congr_right ⟨?_, ?_⟩
  · rintro ⟨header, ⟨slot, hSlot, hScanned⟩, prior, hPrior⟩
    exact ⟨slot, hSlot, header, prior, hScanned, hPrior⟩
  · rintro ⟨slot, hSlot, header, prior, hScanned, hPrior⟩
    exact ⟨header, ⟨slot, hSlot, hScanned⟩, prior, hPrior⟩

/- Two blocks of one slot and proposer, the second imported after the first. -/
def sibling (parentRoot : Root) : SignedBeaconBlock :=
  ⟨⟨.phase0, 5, 3, parentRoot, 0, none, none, none, [], []⟩, 0⟩

def siblingsStored : Db Unit :=
  ((Db.empty Unit).writeBlockTransition
    { block := some (10, sibling 1), slotIndex := some (5, 10) }).writeBlockTransition
      { block := some (11, sibling 2), slotIndex := some (5, 11) }

/- The header of the first was left by an earlier replay. -/
theorem replay_reports_iff_siblings :
    let slasher : ProposerSlasher :=
      ProposerSlasher.observe (·.parentRoot) ⟨∅, .new⟩ (signedBlockHeader (fun _ => 0) (sibling 1))
    (replay (·.parentRoot) (fun _ => 0) siblingsStored slasher 0 9).Reports 3 :=
  (replay_reports_iff (by decide) (by decide) 3).mpr (.inr ⟨5, by decide, _, _, rfl, rfl, rfl⟩)

theorem siblings_not_reported :
    siblingsStored.getBlockHotOrCold 10 = some (sibling 1) ∧
      siblingsStored.getBlockHotOrCold 11 = some (sibling 2) ∧ sibling 1 ≠ sibling 2 ∧
      ¬(replay (·.parentRoot) (fun _ => 0) siblingsStored ⟨∅, .new⟩ 0 9).Reports 3 := by
  decide

end Pharos.Node.SlasherReplay
