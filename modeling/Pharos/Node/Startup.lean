import Pharos.Node.Service
import Pharos.Node.StateRegen

/-
  This file implements the restart of the node, which rebuilds the fork-choice store from the
  database, and says what is replayed on the way.
-/

----
-- Replay
----

namespace Pharos.Node

open List BeaconSpec Storage

variable {S : Type} [BeaconSpec S]

inductive StorageError where
  | keyNotFound
deriving DecidableEq, Repr

/- Go through a slot without a block. -/
def replayEmptySlot (state : S) (slot : Slot) : Except StorageError S :=
  (processSlotsFork state slot).mapError fun _ =>
    .keyNotFound

/- Apply the indexed block of a slot. A block that is in no family counts as missed. -/
def inlineReplaySlot (db : Db S) (state : S) (slot : Slot) : Except StorageError S :=
  match db.blockRootAtSlot slot with
  | none => replayEmptySlot state slot
  | some blockRoot =>
    match db.getBlockHotOrCold blockRoot with
    | none => replayEmptySlot state slot
    | some signedBlock => (stateTransition state signedBlock false).mapError fun _ => .keyNotFound

def inlineReplayTo (db : Db S) (state : S) (startSlot targetSlot : Slot) :
    Except StorageError S :=
  (range' (startSlot + 1) (targetSlot - startSlot)).foldlM (inlineReplaySlot db) state

def namesState (db : Db S) (stateRoot : Root) (slot : Slot) : Bool :=
  match db.blockRootAtSlot slot with
  | none => false
  | some blockRoot =>
    match db.stateSummary.lookup blockRoot with
    | none => false
    | some summary => summary.stateRoot = stateRoot

def loadStateHotOrCold (db : Db S) (stateRoot : Root) (searchUpTo : Slot) : Option S :=
  match db.states.lookup stateRoot with
  | some state => some state
  | none =>
  match db.nearestRestorePoint searchUpTo with
  | none => none
  | some (restoreSlot, _) =>
  match db.coldStates.lookup restoreSlot with
  | none => none
  | some coldState =>
  match (range' restoreSlot (searchUpTo + 1 - restoreSlot)).find? (namesState db stateRoot) with
  | none => none
  | some slot => (inlineReplayTo db coldState restoreSlot slot).toOption

----
-- Restart
----

section

open ForkChoice

/- The maps so far, and the state from which to replay. -/
structure Rehydration (S : Type) where
  blocks : HashMap Root BeaconBlock
  blockStates : HashMap Root S
  replayAnchor : StoredState S

def rehydrateBlock (db : Db S) (anchorRoot : Root) (rebuilt : Rehydration S)
    (signedBlock : SignedBeaconBlock) : Rehydration S :=
  let block := signedBlock.message
  let blockRoot : Root := treeHashRoot S block
  if blockRoot = anchorRoot then
    rebuilt
  else
    let blocks := rebuilt.blocks.insert blockRoot block
    let withState (state : S) : Rehydration S :=
      { blocks
        blockStates := rebuilt.blockStates.insert blockRoot state
        replayAnchor := ⟨blockRoot, state, block.slot⟩ }
    match db.states.lookup block.stateRoot with
    | some state => withState state
    | none =>
      match inlineReplayTo db rebuilt.replayAnchor.state rebuilt.replayAnchor.slot block.slot with
      | .ok replayed => withState replayed
      | .error _ => { rebuilt with blocks }

def seedRehydration (anchorRoot : Root) (anchorBlock : BeaconBlock) (anchorState : S) :
    Rehydration S where
  blocks := AList.singleton anchorRoot anchorBlock
  blockStates := AList.singleton anchorRoot anchorState
  replayAnchor := ⟨anchorRoot, anchorState, anchorBlock.slot⟩

def rehydrateCheckpointStates (snapshot : ForkChoiceSnapshot) (blockStates : HashMap Root S) :
    HashMap Checkpoint S :=
  let insertKnown (states : HashMap Checkpoint S) (checkpoint : Checkpoint) :
      HashMap Checkpoint S :=
    match blockStates.lookup checkpoint.root with
    | none => states
    | some state => states.insert checkpoint state
  insertKnown (insertKnown ∅ snapshot.justifiedCheckpoint) snapshot.finalizedCheckpoint

/- The anchor counts as valid unless there is a verdict. -/
def rehydratePayloadStatuses (statuses : HashMap Root PayloadStatus) (anchorRoot : Root) :
    HashMap Root PayloadStatus :=
  if anchorRoot ∈ statuses then statuses else statuses.insert anchorRoot .valid

/- Rebuild the store from the finalized block and the hot blocks from the split to the head. -/
def rehydrateForkChoiceStore (db : Db S) (snapshot : ForkChoiceSnapshot)
    (secondsPerSlot : Nat) : Except StorageError (Store S) :=
  let splitSlot := db.splitSlotOrZero
  let anchorRoot := snapshot.finalizedCheckpoint.root
  match db.getBlockHotOrCold anchorRoot with
  | none => .error .keyNotFound
  | some anchorSigned =>
  let anchorBlock := anchorSigned.message
  match loadStateHotOrCold db anchorBlock.stateRoot (max splitSlot anchorBlock.slot) with
  | none => .error .keyNotFound
  | some anchorState =>
  let seed := seedRehydration anchorRoot anchorBlock anchorState
  let rebuilt :=
    if snapshot.headSlot ≥ splitSlot then
      (db.getBlocksByRange splitSlot
        (snapshot.headSlot - splitSlot + 1)).foldl (rehydrateBlock db anchorRoot) seed
    else
      seed
  .ok
    { time := snapshot.lastKnownTime
      genesisTime := snapshot.genesisTime
      justifiedCheckpoint := snapshot.justifiedCheckpoint
      finalizedCheckpoint := snapshot.finalizedCheckpoint
      unrealizedJustifiedCheckpoint := snapshot.unrealizedJustifiedCheckpoint
      unrealizedFinalizedCheckpoint := snapshot.unrealizedFinalizedCheckpoint
      proposerBoostRoot := snapshot.proposerBoostRoot
      equivocatingIndices := ∅
      blocks := rebuilt.blocks
      blockStates := rebuilt.blockStates
      blockTimeliness := ∅
      checkpointStates := rehydrateCheckpointStates snapshot rebuilt.blockStates
      latestMessages := ∅
      unrealizedJustifications := ∅
      payloadStatuses := rehydratePayloadStatuses db.payloadStatus anchorRoot
      terminalTotalDifficulty := 0
      terminalBlockHash := defaultHash
      terminalBlockHashActivationEpoch := 2 ^ 64 - 1
      secondsPerSlot }

end

----
-- Replaying a Chain
----

variable {db : Db S}

theorem inlineReplayTo_past (s : S) {startSlot tgt : Slot}
    (hPast : tgt ≤ startSlot) :
    inlineReplayTo db s startSlot tgt = .ok s := by
  unfold inlineReplayTo
  rw [Nat.sub_eq_zero_of_le hPast]
  rfl

theorem inlineReplayTo_trans (s : S) {startSlot mid tgt : Slot}
    (hFst : startSlot ≤ mid) (hSnd : mid ≤ tgt) :
    inlineReplayTo db s startSlot tgt = (inlineReplayTo db s startSlot mid).bind
      fun t => inlineReplayTo db t mid tgt := by
  have hRange :
      ∀ a b c : Nat, a ≤ b → b ≤ c → range' (a + 1) (c - a) = range' (a + 1) (b - a) ++
        range' (b + 1) (c - b) := by
    intro a b c hLower hUpper
    rw [show b + 1 = a + 1 + 1 * (b - a) by omega, range'_append]
    congr 1
    omega
  unfold inlineReplayTo
  rw [hRange _ _ _ hFst hSnd, foldlM_append]
  rfl

theorem inlineReplayTo_succ (s : S) (slot : Slot) :
    inlineReplayTo db s slot (slot + 1) = inlineReplaySlot db s (slot + 1) := by
  unfold inlineReplayTo
  rw [Nat.add_sub_cancel_left, range'_one, foldlM_cons]
  cases inlineReplaySlot db s (slot + 1) with
  | error e | ok next => rfl

variable [LawfulBeaconSpec S] {s : S}

theorem inlineReplayTo_of_empty {startSlot tgt : Slot}
    (hs : stateSlot s = startSlot) (hPre : startSlot ≤ tgt)
    (hEmpty : ∀ slot, startSlot < slot → slot ≤ tgt → db.blockRootAtSlot slot = none) :
    inlineReplayTo db s startSlot tgt = replayEmptySlot s tgt := by
  induction tgt, hPre using Nat.le_induction with
  | base =>
    rw [inlineReplayTo_past s (le_refl startSlot)]
    unfold replayEmptySlot
    rw [processSlotsFork_eq, hs, Nat.sub_self, processSlots_zero]
    rfl
  | succ tgt hPre ih =>
    have hPrev := ih fun slot hPost hUpTo =>
      hEmpty slot hPost (Nat.le_succ_of_le hUpTo)
    have hNone := hEmpty (tgt + 1) (Nat.lt_succ_of_le hPre) (le_refl _)
    rw [inlineReplayTo_trans s hPre (Nat.le_succ tgt), hPrev]
    unfold replayEmptySlot
    rw [processSlotsFork_trans (hs ▸ hPre) (Nat.le_succ tgt)]
    cases processSlotsFork s tgt with
    | error src => rfl
    | ok t =>
      show inlineReplayTo db t tgt (tgt + 1) = _
      rw [inlineReplayTo_succ, inlineReplaySlot, hNone]
      rfl

/-
  Every block, applied without the checks to the state after the one before it, gives the state that
  it gave with them. A block with a badly signed deposit of a new key does not, since the deposit is
  skipped only when its signature is checked.
-/
def Replayable (links : List (Link S)) : Prop :=
  links.IsChain fun parent child =>
    stateTransition parent.postState child.signedBlock false = .ok child.postState

/- The blocks of a history, as the chain from the anchor that they make, go through unchecked. -/
def ReplaysUnchecked (anchor : CheckpointAnchor S) (blocks : List BeaconBlock) : Prop :=
  ∀ links, (anchorLink anchor :: links).map Link.block = blocks →
    Chain (anchorLink anchor :: links) → Replayable (anchorLink anchor :: links)

variable {anchorSlot : Slot} {ls : List (Link S)} {l : Link S}

theorem inlineReplayTo_next (hChain : Chain ls) (hDisk : ChainOnDisk anchorSlot ls db)
    {par : Link S} (hPar : par ∈ ls) (hLink : l ∈ ls)
    (hReplay : stateTransition par.postState l.signedBlock false = .ok l.postState)
    (hLess : par.slot < l.slot)
    (hNext : ∀ x ∈ ls, x.slot ≤ par.slot ∨ l.slot ≤ x.slot) :
    inlineReplayTo db par.postState par.slot l.slot = .ok l.postState := by
  rcases Nat.exists_eq_add_one_of_ne_zero (ne_zero_of_lt hLess) with ⟨s, hPre⟩
  have hUpTo : par.slot ≤ s := by
    rw [hPre] at hLess
    exact Nat.le_of_lt_succ hLess
  rcases stateTransition_ok_iff.mp hReplay with ⟨advanced, hAdv, hBlk⟩
  have hSlot : l.signedBlock.message.slot = s + 1 := hPre
  rw [hSlot, processSlotsFork_trans ((hChain.postSlot par hPar).symm ▸ hUpTo)
    (Nat.le_succ s)] at hAdv
  rw [hPre, inlineReplayTo_trans _ hUpTo (Nat.le_succ s),
    inlineReplayTo_of_empty (hChain.postSlot par hPar) hUpTo]
  · unfold replayEmptySlot
    rcases Outcome.bind_ok_iff.mp hAdv with ⟨t, hReached, hAdv⟩
    have hApply : stateTransition t l.signedBlock false = .ok l.postState := by
      rw [stateTransition_ok_iff, hSlot]
      exact ⟨advanced, hAdv, hBlk⟩
    rw [hReached]
    show inlineReplayTo db t s (s + 1) = _
    rw [inlineReplayTo_succ]
    unfold inlineReplaySlot
    rw [← hPre, hDisk.indexed_of_mem hLink]
    dsimp only
    rw [hDisk.available l hLink]
    dsimp only
    rw [hApply]
    rfl
  · intro slot hPost hSlotUpTo
    cases hIndexed : db.blockRootAtSlot slot with
    | none => rfl
    | some r =>
      rcases (hDisk.indexed slot r).mp hIndexed with ⟨x, hx, hAt, _⟩
      rcases hNext x hx with hLow | hHigh
      · rw [hAt] at hLow
        exact absurd hPost (not_lt.mpr hLow)
      · rw [hAt, hPre] at hHigh
        exact absurd hHigh (not_le.mpr (Nat.lt_succ_of_le hSlotUpTo))

theorem inlineReplayTo_chain {a : Link S} {xs : List (Link S)}
    (hChain : Chain (a :: xs)) (hReplay : Replayable (a :: xs))
    (hDisk : ChainOnDisk anchorSlot (a :: xs) db)
    {s₀ : Link S} (hStart : s₀ ∈ a :: xs) (hLink : l ∈ a :: xs)
    (hPre : s₀.slot ≤ l.slot) :
    inlineReplayTo db s₀.postState s₀.slot l.slot = .ok l.postState := by
  -- By induction on the slot, from the link before.
  induction hSlot : l.slot using Nat.strong_induction_on generalizing l with
  | _ slot ih =>
    rcases eq_or_lt_of_le hPre with hEq | hLess
    · rw [← hSlot, ← hEq, inlineReplayTo_past _ (le_refl _), hChain.eq_of_slot hStart hLink hEq]
    · rcases hChain.exists_before hReplay hLink with
        hFst | ⟨par, hPar, hUnchecked, hParentLess, hNext⟩
      · rw [hFst] at hLess
        exact absurd hLess (not_lt.mpr (hChain.first_le hStart))
      · have hStartParent : s₀.slot ≤ par.slot :=
          (hNext s₀ hStart).resolve_right (not_le.mpr hLess)
        have hAt := ih par.slot (hSlot ▸ hParentLess) hPar hStartParent rfl
        rw [← hSlot, inlineReplayTo_trans _ hStartParent (le_of_lt hParentLess), hAt]
        exact inlineReplayTo_next hChain hDisk hPar hLink hUnchecked hParentLess hNext

omit [LawfulBeaconSpec S] in
theorem ChainOnDisk.slot_of_namesState {ls : List (Link S)}
    (hDisk : ChainOnDisk anchorSlot ls db) (hChain : Chain ls) (hLink : l ∈ ls)
    {slot : Slot} (hNames : namesState db l.stateRoot slot) : l.slot = slot := by
  unfold namesState at hNames
  split at hNames
  · cases hNames
  · rename_i r hr
    split at hNames
    · cases hNames
    · rename_i summary hSummary
      rcases (hDisk.indexed slot r).mp hr with ⟨x, hx, hSlot, hOtherRoot⟩
      rw [← hOtherRoot] at hSummary
      have hNamed := hDisk.summary x hx summary hSummary
      rw [← hSlot, hChain.eq_of_stateRoot hx hLink (hNamed.symm.trans (of_decide_eq_true hNames))]

omit [LawfulBeaconSpec S] in
theorem loadStateHotOrCold_some {stateRoot : Root} {searchUpTo : Slot}
    (hLoaded : loadStateHotOrCold db stateRoot searchUpTo = some s) :
    db.states.lookup stateRoot = some s ∨
      ∃ restoreSlot coldState slot,
        db.coldStates.lookup restoreSlot = some coldState ∧ restoreSlot ≤ slot ∧
          namesState db stateRoot slot ∧
          inlineReplayTo db coldState restoreSlot slot = .ok s := by
  unfold loadStateHotOrCold at hLoaded
  split at hLoaded
  · rename_i y hGot
    cases hLoaded
    exact .inl hGot
  · split at hLoaded
    · cases hLoaded
    · rename_i restoreSlot _ _
      split at hLoaded
      · cases hLoaded
      · rename_i coldState hCold
        split at hLoaded
        · cases hLoaded
        · rename_i slot hGot
          have hFrom : restoreSlot ≤ slot :=
            (mem_range'_1.mp (mem_of_find?_eq_some hGot)).1
          refine .inr ⟨restoreSlot, coldState, slot, hCold, hFrom, find?_some hGot, ?_⟩
          cases hReplayed : inlineReplayTo db coldState restoreSlot slot with
          | error src =>
            rw [hReplayed] at hLoaded
            exact absurd hLoaded (by simp [Except.toOption])
          | ok replayed =>
            rw [hReplayed] at hLoaded
            cases hLoaded
            rfl

theorem loadStateHotOrCold_eq {a : Link S} {xs : List (Link S)}
    (hChain : Chain (a :: xs)) (hReplay : Replayable (a :: xs))
    (hDisk : ChainOnDisk anchorSlot (a :: xs) db)
    (hLink : l ∈ a :: xs) {searchUpTo : Slot}
    (hLoaded : loadStateHotOrCold db l.stateRoot searchUpTo = some s) :
    s = l.postState := by
  rcases loadStateHotOrCold_some hLoaded with hStored |
    ⟨restoreSlot, coldState, slot, hCold, hFrom, hNames, hOk⟩
  · exact hDisk.state l hLink s hStored
  · rcases hDisk.coldState _ _ hCold with ⟨s₀, hStart, hAt, hs⟩
    have hSlot := hDisk.slot_of_namesState hChain hLink hNames
    rw [← hAt, ← hSlot] at hFrom
    rw [← hs, ← hAt, ← hSlot, inlineReplayTo_chain hChain hReplay hDisk hStart hLink hFrom] at hOk
    exact (Except.ok.inj hOk).symm

end Pharos.Node
