import Pharos.Node.Freezer

/-
  This file implements the regeneration of past states: the nearest stored state, and the replay of
  the indexed blocks from there. It says when the result is the state of the chain of the head.

  The nearest state is the one with the highest slot, no matter on which fork, and the first of them
  in the order in which the hash map is iterated.

  Main theorems:
  * `state_at_slot_canonical_iff`
-/

----
-- Nearest Stored State
----

namespace Pharos.Node

open BeaconSpec ForkChoice Storage List Option Forest

variable {S : Type} [BeaconSpec S]

/- A state with the root and the slot of its block. -/
structure StoredState (S : Type) where
  root : Root
  state : S
  slot : Slot

def inMemoryStates (store : Store S) (targetSlot : Slot) : List (StoredState S) :=
  store.blockStates.entries.filterMap fun entry =>
    if stateSlot entry.2 > targetSlot then none else some ⟨entry.1, entry.2, stateSlot entry.2⟩

def storedStateAt (db : Db S) (slot : Slot) : Option (StoredState S) := do
  let blockRoot ← db.blockRootAtSlot slot
  let summary ← db.stateSummary.lookup blockRoot
  let state ← db.states.lookup summary.stateRoot
  return ⟨blockRoot, state, slot⟩

def nearestEpochBoundaryStateOnDisk (db : Db S) (targetSlot : Slot) :
    Option (StoredState S) :=
  let epochs := List.range (targetSlot / slotsPerEpoch S + 1)
  epochs.reverse.findSome? fun epoch =>
    storedStateAt db (epoch * slotsPerEpoch S)

def nearestColdRestorePoint (db : Db S) (targetSlot : Slot) : Option (StoredState S) := do
  let (restoreSlot, _) ← db.nearestRestorePoint targetSlot
  let state ← db.coldStates.lookup restoreSlot
  let blockRoot ← db.blockRootAtSlot restoreSlot
  return ⟨blockRoot, state, restoreSlot⟩

/-
  The highest slot wins, and among equals the one that comes first: in memory, then on disk, then
  cold.
-/
def nearestStoredState (node : NodeState S) (targetSlot : Slot) : Option (StoredState S) :=
  let inMemoryBest := (inMemoryStates node.store targetSlot).argmax StoredState.slot
  let diskBest := nearestEpochBoundaryStateOnDisk node.db targetSlot
  let coldBest := nearestColdRestorePoint node.db targetSlot
  ([inMemoryBest, diskBest, coldBest].filterMap id).argmax StoredState.slot

----
-- Replay
----

section

inductive RegenError where
  | missingAnchorState
  | missingBlock (root : Root)
  | stf (source : StateTransitionError)
deriving DecidableEq, Repr

def findNextBlockSlot (db : Db S) (fromSlot maxSlot : Slot) : Option Slot :=
  (List.range' fromSlot (maxSlot + 1 - fromSlot)).find? fun slot => (db.blockRootAtSlot slot).isSome

def replayRound (db : Db S) (targetSlot : Slot) (state : S) (currentSlot : Slot) :
    Except RegenError (S × Slot) :=
  match db.blockRootAtSlot currentSlot with
  | some blockRoot =>
    match db.getBlockHotOrCold blockRoot with
    | none => .error (.missingBlock blockRoot)
    | some signedBlock =>
      match stateTransition state signedBlock false with
      | .error source => .error (.stf source)
      | .ok next => .ok (next, currentSlot + 1)
  | none =>
    let nextBlock := findNextBlockSlot db currentSlot targetSlot
    let advanceTo := max ((nextBlock.map fun slot => slot - 1).getD targetSlot) currentSlot
    match processSlotsFork state advanceTo with
    | .error source => .error (.stf source)
    | .ok next => .ok (next, advanceTo + 1)

def replayLoop (db : Db S) (targetSlot : Slot) : Nat → S → Slot → Except RegenError S
| 0, state, _ => .ok state
| fuel + 1, state, currentSlot =>
  if currentSlot > targetSlot then
    .ok state
  else
    match replayRound db targetSlot state currentSlot with
    | .error refusal => .error refusal
    | .ok (next, nextSlot) => replayLoop db targetSlot fuel next nextSlot

/- There is fuel for one round per slot. -/
def replayTo (db : Db S) (state : S) (startSlot targetSlot : Slot) :
    Except RegenError S :=
  if startSlot ≥ targetSlot then
    .ok state
  else
    replayLoop db targetSlot (targetSlot - startSlot) state (startSlot + 1)

def stateAtSlot (node : NodeState S) (slot : Slot) : Except RegenError S :=
  match nearestStoredState node slot with
  | none => .error .missingAnchorState
  | some nearest =>
    if nearest.slot = slot then
      .ok nearest.state
    else
      replayTo node.db nearest.state nearest.slot slot

variable {db : Db S}

theorem replayLoop_past (fuel : Nat) (s : S) {tgt currentSlot : Slot}
    (hPast : currentSlot > tgt) :
    replayLoop db tgt fuel s currentSlot = .ok s := by
  cases fuel with
  | zero => rfl
  | succ fuel =>
    unfold replayLoop
    rw [if_pos hPast]

theorem replayTo_of_empty {s : S} {startSlot targetSlot : Slot}
    (hs : stateSlot s = startSlot) (hPre : startSlot ≤ targetSlot)
    (hEmpty : ∀ slot, startSlot < slot → slot ≤ targetSlot → db.blockRootAtSlot slot = none) :
    replayTo db s startSlot targetSlot = (processSlotsFork s targetSlot).mapError .stf := by
  unfold replayTo
  split
  · rename_i hDone
    have hEq : targetSlot = stateSlot s := by
      rw [hs]
      exact le_antisymm hDone hPre
    rw [processSlotsFork_eq, hEq, Nat.sub_self, processSlots_zero]
    rfl
  · rename_i hLess
    rw [ge_iff_le, not_le] at hLess
    have hNext : findNextBlockSlot db (startSlot + 1) targetSlot = none := by
      unfold findNextBlockSlot
      rw [find?_eq_none]
      intro slot hSlot
      rw [mem_range'_1] at hSlot
      have hNat : ∀ s₀ tgt slot : Nat, s₀ < tgt → slot < s₀ + 1 +
          (tgt + 1 - (s₀ + 1)) → slot ≤ tgt := by
        omega
      rw [hEmpty slot hSlot.1 (hNat _ _ _ hLess hSlot.2)]
      exact Bool.false_ne_true
    rcases Nat.exists_eq_succ_of_ne_zero (Nat.sub_ne_zero_of_lt hLess) with ⟨fuel, hFuel⟩
    rw [hFuel]
    unfold replayLoop
    rw [if_neg (not_lt.mpr hLess)]
    unfold replayRound
    rw [hEmpty _ (Nat.lt_succ_self startSlot) hLess]
    dsimp only
    rw [hNext, map_none, getD_none, max_eq_left hLess]
    cases processSlotsFork s targetSlot with
    | error src => rfl
    | ok next => exact replayLoop_past fuel next (Nat.lt_succ_self targetSlot)

end

----
-- The State of the Chain
----

def CanonicalState (store : Store S) (slot : Slot) (state : S) : Prop :=
  ∃ block postState,
    ChainBlock store (getHead store) block ∧ block.slot ≤ slot ∧
      (∀ other, ChainBlock store (getHead store) other →
        other.slot ≤ slot → other.slot ≤ block.slot) ∧
      store.blockStates.lookup (treeHashRoot S block) = some postState ∧
      processSlotsFork postState slot = .ok state

/- A known block with the highest slot up to a slot. -/
structure HighestAt (store : Store S) (slot : Slot) (block : BeaconBlock) : Prop where
  known : store.blocks.lookup (treeHashRoot S block) = some block
  upTo : block.slot ≤ slot
  highest : ∀ root other, store.blocks.lookup root = some other →
    other.slot ≤ slot → other.slot ≤ block.slot

def NodeState.reorder (node : NodeState S) (order : HashMap Root S) : NodeState S :=
  { node with
    store := { node.store with blockStates := order } }

----
-- Finding the Nearest State
----

section

theorem argmax_cons_of_forall_le {Item Rank : Type} [LinearOrder Rank] (rank : Item → Rank)
    {a : Item} {xs : List Item} (hxs : ∀ item ∈ xs, rank item ≤ rank a) :
    (a :: xs).argmax rank = some a := by
  rw [argmax_cons]
  cases hBest : xs.argmax rank with
  | none => rfl
  | some best => exact if_neg (not_lt.mpr (hxs best (argmax_mem hBest)))

variable {anchor : CheckpointAnchor S}
variable {blks : List BeaconBlock} {node : NodeState S} {tgt : Slot} {old : StoredState S}

theorem mem_inMemoryStates_iff {st : Store S} : old ∈ inMemoryStates st tgt ↔
      st.blockStates.lookup old.root = some old.state ∧ stateSlot old.state = old.slot ∧
        old.slot ≤ tgt := by
  unfold inMemoryStates
  rw [mem_filterMap, ← mem_def, AList.mem_lookup_iff]
  constructor
  · rintro ⟨e, hRow, hSome⟩
    split at hSome
    · cases hSome
    · rename_i hSlot
      cases hSome
      exact ⟨hRow, rfl, not_lt.mp hSlot⟩
  · rintro ⟨hRow, hSlot, hUpTo⟩
    refine ⟨⟨old.root, old.state⟩, hRow, ?_⟩
    rw [hSlot, if_neg (not_lt.mpr hUpTo)]

variable {order : HashMap Root S} {blk : BeaconBlock}

theorem mem_inMemoryStates_of_mem (hDerived : AllDerived anchor blks node)
    (hOrder : order.entries.Perm node.store.blockStates.entries) (hBlk : blk ∈ blks)
    (hUpTo : blk.slot ≤ tgt) :
    ∃ old ∈ inMemoryStates (node.reorder order).store tgt, old.slot = blk.slot := by
  rcases hDerived blk hBlk with ⟨signed, post, hMsg, hHere⟩
  refine ⟨⟨treeHashRoot S blk, post, blk.slot⟩, ?_, rfl⟩
  rw [mem_inMemoryStates_iff]
  refine ⟨?_, ?_, hUpTo⟩
  · show order.lookup (treeHashRoot S blk) = _
    rw [AList.perm_lookup hOrder, ← hMsg]
    exact hHere.state
  · rw [← hMsg]
    exact hHere.slot

theorem exists_of_mem_inMemoryStates (hFol : Followed blks node)
    (hDerived : AllDerived anchor blks node)
    (hOrder : order.entries.Perm node.store.blockStates.entries)
    (hStored : old ∈ inMemoryStates (node.reorder order).store tgt) :
    ∃ blk,
      node.store.blocks.lookup (treeHashRoot S blk) = some blk ∧
        node.store.blockStates.lookup (treeHashRoot S blk) = some old.state ∧
        old.slot = blk.slot ∧
        blk.slot ≤ tgt := by
  rcases mem_inMemoryStates_iff.mp hStored with ⟨hLookup, hSlot, hUpTo⟩
  have hs : node.store.blockStates.lookup old.root = some old.state := by
    rw [← AList.perm_lookup hOrder]
    exact hLookup
  have hr : old.root ∈ node.store.blocks := by
    apply hFol.stateKnown
    exact HashTable.mem_iff.mpr ⟨_, hs⟩
  rcases HashTable.mem_iff.mp hr with ⟨blk, hBlk⟩
  have hKey := (hFol.keyed _ blk hBlk).2
  rw [← hKey] at hBlk hs
  have hEq : old.slot = blk.slot := by
    rw [← hSlot]
    exact (hDerived.of_lookup hFol hBlk hs).1
  exact ⟨blk, hBlk, hs, hEq, hEq ▸ hUpTo⟩

theorem exists_of_nearestOnDisk (hFol : Followed blks node)
    (hStored : nearestEpochBoundaryStateOnDisk node.db tgt = some old) :
    ∃ blk ∈ blks, blk.slot = old.slot ∧ blk.slot ≤ tgt := by
  rcases exists_of_findSome?_eq_some hStored with ⟨epoch, hEp, hHere⟩
  rw [mem_reverse, mem_range] at hEp
  rcases bind_eq_some_iff.mp hHere with ⟨r, hr, hxs⟩
  rcases bind_eq_some_iff.mp hxs with ⟨summary, _, hLast⟩
  rcases bind_eq_some_iff.mp hLast with ⟨s, _, hEq⟩
  rw [hFol.indexed] at hr
  rcases map_eq_some_iff.mp hr with ⟨blk, hLatest, _⟩
  rcases mem_of_latestAtSlot hLatest with ⟨hMem, hSlot⟩
  refine ⟨blk, hMem, ?_, ?_⟩
  · rw [hSlot, ← Option.some.inj hEq]
  · rw [hSlot]
    exact le_trans (Nat.mul_le_mul_right _ (Nat.le_of_lt_succ hEp))
      (Nat.div_mul_le_self tgt (slotsPerEpoch S))

omit [BeaconSpec S] in
theorem nearestColdRestorePoint_eq_none {db : Db S} (hNone : db.restorePoints = ∅)
    (tgt : Slot) : nearestColdRestorePoint db tgt = none := by
  have hNearest : db.nearestRestorePoint tgt = none := by
    unfold Db.nearestRestorePoint
    rw [findSome?_eq_none_iff]
    intro slot _
    rw [hNone, AList.lookup_empty]
    rfl
  unfold nearestColdRestorePoint
  rw [hNearest]
  rfl

variable (hFol : Followed blks node)
include hFol

section

variable (hDerived : AllDerived anchor blks node)
include hDerived

theorem nearestStoredState_eq
    (hOrder : order.entries.Perm node.store.blockStates.entries) (tgt : Slot) :
    nearestStoredState (node.reorder order) tgt =
      (inMemoryStates (node.reorder order).store tgt).argmax StoredState.slot := by
  unfold nearestStoredState
  rw [show (node.reorder order).db = node.db from rfl,
    nearestColdRestorePoint_eq_none hFol.noRestorePoints]
  cases hDisk : nearestEpochBoundaryStateOnDisk node.db tgt with
  | none =>
    cases (inMemoryStates (node.reorder order).store tgt).argmax StoredState.slot with
    | none | some best => rfl
  | some onDisk =>
    rcases exists_of_nearestOnDisk hFol hDisk with ⟨blk, hBlk, hSlot, hUpTo⟩
    rcases mem_inMemoryStates_of_mem hDerived hOrder hBlk hUpTo with ⟨inMemory, hMem, hEq⟩
    cases hBest : (inMemoryStates (node.reorder order).store tgt).argmax StoredState.slot with
    | none =>
      rw [argmax_eq_none] at hBest
      rw [hBest] at hMem
      exact absurd hMem not_mem_nil
    | some best =>
      have hLe := le_of_mem_argmax hMem hBest
      rw [hEq, hSlot] at hLe
      apply argmax_cons_of_forall_le
      intro x hx
      rw [mem_singleton.mp hx]
      exact hLe

theorem highestAt_of_nearest
    (hOrder : order.entries.Perm node.store.blockStates.entries) {nearest : StoredState S}
    (hNearest : nearestStoredState (node.reorder order) tgt = some nearest) :
    ∃ blk, HighestAt node.store tgt blk ∧ nearest.slot = blk.slot ∧
      node.store.blockStates.lookup (treeHashRoot S blk) = some nearest.state := by
  rw [nearestStoredState_eq hFol hDerived hOrder] at hNearest
  rcases exists_of_mem_inMemoryStates hFol hDerived hOrder (argmax_mem hNearest) with
    ⟨blk, hBlk, hs, hSlot, hUpTo⟩
  refine ⟨blk, ⟨hBlk, hUpTo, ?_⟩, hSlot, hs⟩
  intro r x hx hOtherUpTo
  rcases mem_inMemoryStates_of_mem hDerived hOrder (hFol.keyed r x hx).1 hOtherUpTo with
    ⟨old, hStored, hEq⟩
  rw [← hEq, ← hSlot]
  exact le_of_mem_argmax hStored hNearest

theorem exists_order_of_highestAt {post : S}
    (hHighest : HighestAt node.store tgt blk)
    (hs : node.store.blockStates.lookup (treeHashRoot S blk) = some post) :
    ∃ order : HashMap Root S, order.entries.Perm node.store.blockStates.entries ∧
      nearestStoredState (node.reorder order) tgt =
      some ⟨treeHashRoot S blk, post, blk.slot⟩ := by
  have hSlot : stateSlot post = blk.slot :=
    (hDerived.of_lookup hFol hHighest.known hs).1
  rcases HashTable.exists_order hs with ⟨order, xs, hEntries, hOrder⟩
  refine ⟨order, hOrder, ?_⟩
  rw [nearestStoredState_eq hFol hDerived hOrder]
  have hFst : ∃ others, inMemoryStates (node.reorder order).store tgt =
      ⟨treeHashRoot S blk, post, blk.slot⟩ :: others := by
    unfold inMemoryStates NodeState.reorder
    rw [hEntries, filterMap_cons, hSlot, if_neg (not_lt.mpr hHighest.upTo)]
    exact ⟨_, rfl⟩
  rcases hFst with ⟨others, hFst⟩
  have hBest : ∀ old ∈ inMemoryStates (node.reorder order).store tgt, old.slot ≤ blk.slot := by
    intro old hStored
    rcases exists_of_mem_inMemoryStates hFol hDerived hOrder hStored with ⟨x, hx, _, hEq, hUpTo⟩
    rw [hEq]
    exact hHighest.highest _ x hx hUpTo
  rw [hFst] at hBest ⊢
  apply argmax_cons_of_forall_le
  intro old hStored
  exact hBest old (mem_cons_of_mem _ hStored)

end

----
-- Regenerated States
----

variable {slot : Slot}

theorem blockRootAtSlot_of_highestAt
    (hHighest : HighestAt node.store tgt blk) (hPost : blk.slot < slot)
    (hUpTo : slot ≤ tgt) : node.db.blockRootAtSlot slot = none := by
  rw [hFol.indexed, map_eq_none_iff, latestAtSlot_eq_none_iff]
  intro x hx hSlot
  have hLe := hHighest.highest _ x (hFol.stored x hx) (hSlot ▸ hUpTo)
  rw [hSlot] at hLe
  exact absurd hPost (not_lt.mpr hLe)

theorem stateAtSlot_eq
    {nearest : StoredState S}
    (hNearest : nearestStoredState (node.reorder order) slot = some nearest)
    (hHighest : HighestAt node.store slot blk) (hSlot : nearest.slot = blk.slot)
    (hs : stateSlot nearest.state = blk.slot) :
    stateAtSlot (node.reorder order) slot =
      (processSlotsFork nearest.state slot).mapError .stf := by
  unfold stateAtSlot
  rw [hNearest]
  dsimp only
  split
  · rename_i hHere
    rw [processSlotsFork_eq, hs, ← hSlot, hHere, Nat.sub_self, processSlots_zero]
    rfl
  · rw [hSlot]
    apply replayTo_of_empty hs hHighest.upTo
    intro x hPost hUpTo
    exact blockRootAtSlot_of_highestAt hFol hHighest hPost hUpTo

variable [LawfulBeaconSpec S]

theorem CanonicalState.latest_onChain
    (hDerived : AllDerived anchor blks node) {s : S}
    (hCanonical : CanonicalState node.store slot s) :
    Ancestor (parentOf node.store.blocks) (latestBlock s).2 (getHead node.store) := by
  rcases hCanonical with ⟨blk, post, hChain, _, _, hs, hAdv⟩
  rw [latestBlock_processSlotsFork hAdv, (hDerived.of_lookup hFol hChain.known hs).2]
  exact hChain.onChain

omit hFol

/-
  After any imports from an anchor, the state regenerated for a slot is that of the head's chain, in
  whatever order the states are iterated, exactly if every block of the highest slot up to it, whose
  state can be advanced to the slot, is on the chain of the head.
-/
theorem state_at_slot_canonical_iff (anchor : CheckpointAnchor S) (node : NodeState S)
    (hStart : StartsAt anchor node) (actions : List NodeAction)
    (hChecked : ∀ signedBlock inputs, .importBlock signedBlock inputs ∈ actions →
      inputs.validateResult = true)
    (slot : Slot) :
    let reached := Run.final nodeStep node actions
    (∀ order : HashMap Root S,
        order.entries.Perm reached.store.blockStates.entries → ∀ s,
          stateAtSlot (reached.reorder order) slot = .ok s →
          CanonicalState reached.store slot s) ↔
      ∀ blk post advanced, HighestAt reached.store slot blk →
        reached.store.blockStates.lookup (treeHashRoot S blk) = some post →
        processSlotsFork post slot = .ok advanced →
          Ancestor (parentOf reached.store.blocks) (treeHashRoot S blk)
            (getHead reached.store) := by
  have hFol := followed_final hStart actions
  have hDerived := derived_final hStart hChecked
  constructor
  · intro hProperty blk post advanced hHighest hs hAdv
    rcases exists_order_of_highestAt hFol hDerived hHighest hs with ⟨order, hOrder, hNearest⟩
    rcases hDerived.of_lookup hFol hHighest.known hs with ⟨hSlot, hLatest⟩
    have hResult := stateAtSlot_eq hFol hNearest hHighest rfl hSlot
    rw [hAdv] at hResult
    have hOnChain := (hProperty order hOrder advanced hResult).latest_onChain hFol hDerived
    rw [latestBlock_processSlotsFork hAdv, hLatest] at hOnChain
    exact hOnChain
  · intro hCond order hOrder s hOk
    cases hNearest : nearestStoredState ((Run.final nodeStep node actions).reorder order) slot with
    | none =>
      unfold stateAtSlot at hOk
      rw [hNearest] at hOk
      cases hOk
    | some nearest =>
      rcases highestAt_of_nearest hFol hDerived hOrder hNearest with ⟨blk, hHighest, hEq, hs⟩
      have hSlot := (hDerived.of_lookup hFol hHighest.known hs).1
      rw [stateAtSlot_eq hFol hNearest hHighest hEq hSlot] at hOk
      have hAdv := Outcome.mapError_ok_iff.mp hOk
      have hOnChain := hCond blk nearest.state s hHighest hs hAdv
      refine ⟨blk, nearest.state, ⟨hHighest.known, hOnChain⟩, hHighest.upTo, ?_, hs, hAdv⟩
      intro x hx hUpTo
      exact hHighest.highest _ x hx.known hUpTo

end

----
-- A Fork with a Higher Slot
----

open Sample

/- A block that wins the tie against its siblings. -/
def winningBlock : BeaconBlock :=
  child anchorRoot 1 50 []

def winningRoot : Root :=
  treeHashRoot winningBlock

def laterSibling : BeaconBlock :=
  child anchorRoot 2 1 []

def headBlock : BeaconBlock :=
  child winningRoot 3 1 []

def headRoot : Root :=
  treeHashRoot headBlock

def importFork : List NodeAction :=
  importAll 60 [winningBlock, laterSibling, headBlock]

/- The condition, at the slot of the winning block. -/
theorem state_at_slot_canonical_iff_importFork :
    let reached := Run.final nodeStep syncedNode importFork
    stateAtSlot reached 1 = .ok (postState anchorState winningBlock) ∧
      ((∀ order : HashMap Root Sample.ChainState,
          order.entries.Perm reached.store.blockStates.entries →
            ∀ s, stateAtSlot (reached.reorder order) 1 = .ok s → CanonicalState reached.store 1 s) ↔
        ∀ blk post advanced, HighestAt reached.store 1 blk →
          reached.store.blockStates.lookup (treeHashRoot blk) = some post →
          processSlotsFork post 1 = .ok advanced →
            Ancestor (parentOf reached.store.blocks) (treeHashRoot blk)
              (getHead reached.store)) :=
  ⟨rfl, state_at_slot_canonical_iff sampleAnchor syncedNode startsAt_syncedNode importFork
      (fun _ _ => validateResult_of_mem_importAll) 1⟩

/-
  The state regenerated for a slot before the head is that of a block that is not on the chain of
  the head.
-/
theorem regenerates_other_fork :
    let reached := Run.final nodeStep syncedNode importFork
    let regenerated := postState anchorState laterSibling
    getHead reached.store = headRoot ∧ headBlock.slot = 3 ∧
      stateAtSlot reached 2 = .ok regenerated ∧
      ¬CanonicalState reached.store 2 regenerated := by
  have hHead : getHead (Run.final nodeStep syncedNode importFork).store = headRoot := by
    decide
  refine ⟨hHead, rfl, rfl, ?_⟩
  intro hCanonical
  have hFol :=
    followed_final startsAt_syncedNode importFork
  have hDerived :=
    derived_final startsAt_syncedNode
      fun signed ins hMem =>
        validateResult_of_mem_importAll (show .importBlock signed ins ∈ importFork from hMem)
  have hOnChain :=
    hCanonical.latest_onChain hFol hDerived
  have hLinked :=
    hFol.keyed.parentLinked (hashLinked _)
  rw [← isOnChain_iff hLinked, hHead] at hOnChain
  exact absurd hOnChain (by decide)

end Pharos.Node
