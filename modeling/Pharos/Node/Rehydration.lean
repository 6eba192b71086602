import Pharos.Node.Startup

/-
  This file says when a restart brings the chain back, from the finalized block to the head and with
  the right states.

  The rebuilt window starts at the split of the freezer, and not at the finalized block from which
  states are replayed.

  Main theorems:
  * `restart_rebuilds_states_iff`
-/

----
-- The Rebuilt Window
----

namespace Pharos.Node

open BeaconSpec HashTable Storage AList

section

variable {S : Type} [BeaconSpec S] {db : Db S} {anchorSlot : Slot}
variable {ls : List (Link S)} {finalized : Link S}

/- The maps after a number of slots from the split. -/
def rehydrateWindow (db : Db S) (finalized : Link S) (count : Nat) : Rehydration S :=
  (db.getBlocksByRange db.splitSlotOrZero count).foldl (rehydrateBlock db finalized.root)
    (seedRehydration finalized.root finalized.block finalized.postState)

def hotBlockAt (db : Db S) (slot : Slot) : Option SignedBeaconBlock :=
  (db.blockRootAtSlot slot).bind db.blocks.lookup

theorem rehydrateWindow_succ (n : Nat) : rehydrateWindow db finalized (n + 1) =
      match hotBlockAt db (db.splitSlotOrZero + n) with
      | none => rehydrateWindow db finalized n
      | some signed =>
        rehydrateBlock db finalized.root (rehydrateWindow db finalized n) signed := by
  unfold rehydrateWindow Db.getBlocksByRange hotBlockAt
  rw [List.range'_1_concat, List.filterMap_append, List.foldl_append, List.filterMap_cons,
    List.filterMap_nil]
  cases (db.blockRootAtSlot (db.splitSlotOrZero + n)).bind db.blocks.lookup with
  | none | some signed => rfl

theorem hotBlockAt_some_iff (hDisk : ChainOnDisk anchorSlot ls db) {slot : Slot}
    {signed : SignedBeaconBlock} :
    hotBlockAt db slot = some signed ↔ ∃ l ∈ ls,
      l.slot = slot ∧ l.signedBlock = signed ∧ IsHot db anchorSlot slot := by
  unfold hotBlockAt
  rw [Option.bind_eq_some_iff]
  constructor
  · rintro ⟨r, hr, hBlk⟩
    rcases (hDisk.indexed slot r).mp hr with ⟨l, hLink, hSlot, hLinkRoot⟩
    rw [← hLinkRoot, hDisk.hot l hLink, hSlot] at hBlk
    split at hBlk
    · rename_i hHot
      exact ⟨l, hLink, hSlot, Option.some.inj hBlk, hHot⟩
    · cases hBlk
  · rintro ⟨l, hLink, hSlot, hBlk, hHot⟩
    refine ⟨l.root, ?_, ?_⟩
    · rw [← hSlot]
      exact hDisk.indexed_of_mem hLink
    · rw [hDisk.hot l hLink, hSlot, if_pos hHot, hBlk]

theorem rehydrateWindow_cases (hChain : Chain ls) (hDisk : ChainOnDisk anchorSlot ls db)
    (finalized : Link S) (n : Nat) :
    (rehydrateWindow db finalized (n + 1) = rehydrateWindow db finalized n ∧
      ∀ l ∈ ls, l.slot = db.splitSlotOrZero + n → IsHot db anchorSlot l.slot → l = finalized) ∨
      ∃ l ∈ ls, l.slot = db.splitSlotOrZero + n ∧ IsHot db anchorSlot l.slot ∧ l ≠ finalized ∧
        rehydrateWindow db finalized (n + 1) =
        rehydrateBlock db finalized.root (rehydrateWindow db finalized n) l.signedBlock := by
  rw [rehydrateWindow_succ]
  cases hHere : hotBlockAt db (db.splitSlotOrZero + n) with
  | none =>
    refine .inl ⟨rfl, ?_⟩
    intro l hLink hSlot hHot
    rw [hSlot] at hHot
    have hSome := (hotBlockAt_some_iff hDisk).mpr ⟨l, hLink, hSlot, rfl, hHot⟩
    rw [hHere] at hSome
    cases hSome
  | some signed =>
    rcases (hotBlockAt_some_iff hDisk).mp hHere with ⟨l, hLink, hSlot, hBlk, hHot⟩
    by_cases hEq : l = finalized
    · left
      refine ⟨?_, ?_⟩
      · dsimp only
        unfold rehydrateBlock
        rw [if_pos]
        rw [← hBlk, hEq]
        rfl
      · intro x hx hOtherSlot _
        rw [← hEq]
        exact hChain.eq_of_slot hx hLink (hOtherSlot.trans hSlot.symm)
    · right
      refine ⟨l, hLink, hSlot, hSlot ▸ hHot, hEq, ?_⟩
      rw [hBlk]

/- What a block adds to the maps: itself, and its state if it is stored or can be replayed. -/
structure Added (db : Db S) (link : Link S) (before after : Rehydration S) : Prop where
  blocks : after.blocks = before.blocks.insert link.root link.block
  others : ∀ root, root ≠ link.root → after.blockStates.lookup root = before.blockStates.lookup root
  own : ∀ state,
    (db.states.lookup link.stateRoot = some state ∨
      db.states.lookup link.stateRoot = none ∧
        inlineReplayTo db before.replayAnchor.state before.replayAnchor.slot link.slot =
          .ok state) →
      after.blockStates.lookup link.root = some state ∧
        after.replayAnchor = ⟨link.root, state, link.slot⟩

variable {link : Link S}

theorem added_rehydrateBlock (db : Db S) (hChain : Chain ls)
    (hFin : finalized ∈ ls) (hLink : link ∈ ls) (hNe : link ≠ finalized)
    (rebuilt : Rehydration S) :
    Added db link rebuilt (rehydrateBlock db finalized.root rebuilt link.signedBlock) := by
  have hr : treeHashRoot S link.signedBlock.message ≠ finalized.root := by
    intro hEq
    exact hNe (hChain.eq_of_root hLink hFin hEq)
  unfold rehydrateBlock
  rw [if_neg hr]
  cases hs : db.states.lookup link.signedBlock.message.stateRoot with
  | some y =>
    refine ⟨rfl, ?_, ?_⟩
    · intro r hx
      exact lookup_insert_ne hx
    · intro s hCases
      rcases hCases with hGot | ⟨hNone, _⟩
      · rw [Option.some.inj (hs.symm.trans hGot)]
        exact ⟨lookup_insert _, rfl⟩
      · exact absurd (hs.symm.trans hNone) (by simp)
  | none =>
    cases hReplayed : inlineReplayTo db rebuilt.replayAnchor.state rebuilt.replayAnchor.slot
        link.signedBlock.message.slot with
    | error e =>
      refine ⟨rfl, fun _ _ => rfl, ?_⟩
      intro s hCases
      rcases hCases with hGot | ⟨_, hOk⟩
      · exact absurd (hs.symm.trans hGot) (by simp)
      · exact absurd (hReplayed.symm.trans hOk) (by simp)
    | ok replayed =>
      refine ⟨rfl, ?_, ?_⟩
      · intro r hx
        exact lookup_insert_ne hx
      · intro s hCases
        rcases hCases with hGot | ⟨_, hOk⟩
        · exact absurd (hs.symm.trans hGot) (by simp)
        · rw [Except.ok.inj (hReplayed.symm.trans hOk)]
          exact ⟨lookup_insert _, rfl⟩

----
-- Blocks of the Window
----

/- A hot block at one of the first slots from the split. -/
def InWindow (db : Db S) (anchorSlot : Slot) (count : Nat) (link : Link S) : Prop :=
  IsHot db anchorSlot link.slot ∧ db.splitSlotOrZero ≤ link.slot ∧
    link.slot < db.splitSlotOrZero + count

variable {count : Nat}

section

omit [BeaconSpec S]

theorem inWindow_succ_iff :
    InWindow db anchorSlot (count + 1) link ↔ InWindow db anchorSlot count link ∨
      IsHot db anchorSlot link.slot ∧ link.slot = db.splitSlotOrZero + count := by
  have hNat : ∀ slot split : Nat, (split ≤ slot ∧ slot < split + (count + 1)) ↔
      (split ≤ slot ∧ slot < split + count) ∨ slot = split + count := by
    omega
  unfold InWindow
  rw [hNat, and_or_left]

def Covered (db : Db S) (anchorSlot : Slot) (finalized : Link S) (count : Nat)
    (link : Link S) : Prop :=
  link = finalized ∨ InWindow db anchorSlot count link

theorem covered_zero_iff : Covered db anchorSlot finalized 0 link ↔ link = finalized := by
  refine or_iff_left ?_
  intro hWin
  exact absurd hWin.2.2 (not_lt.mpr hWin.2.1)

theorem covered_succ_iff : Covered db anchorSlot finalized (count + 1) link ↔
      Covered db anchorSlot finalized count link ∨
        IsHot db anchorSlot link.slot ∧ link.slot = db.splitSlotOrZero + count := by
  unfold Covered
  rw [inWindow_succ_iff, or_assoc]

theorem covered_succ_of_only (hOnly : ∀ link ∈ ls, link.slot = db.splitSlotOrZero + count →
      IsHot db anchorSlot link.slot → link = finalized) (hLink : link ∈ ls) :
    Covered db anchorSlot finalized (count + 1) link ↔
      Covered db anchorSlot finalized count link := by
  rw [covered_succ_iff]
  apply or_iff_left_of_imp
  rintro ⟨hHot, hSlot⟩
  exact .inl (hOnly link hLink hSlot hHot)

end

theorem covered_succ_of_here (hChain : Chain ls) {here : Link S} (hHere : here ∈ ls)
    (hSlot : here.slot = db.splitSlotOrZero + count) (hHot : IsHot db anchorSlot here.slot)
    (hLink : link ∈ ls) :
    Covered db anchorSlot finalized (count + 1) link ↔
      link = here ∨ Covered db anchorSlot finalized count link := by
  rw [covered_succ_iff, or_comm]
  apply or_congr_left
  constructor
  · rintro ⟨_, hLinkSlot⟩
    exact hChain.eq_of_slot hLink hHere (hLinkSlot.trans hSlot.symm)
  · rintro rfl
    exact ⟨hHot, hSlot⟩

theorem lookup_blocks_window (hChain : Chain ls)
    (hDisk : ChainOnDisk anchorSlot ls db) (hFin : finalized ∈ ls) (count : Nat)
    (r : Root) (blk : BeaconBlock) :
    (rehydrateWindow db finalized count).blocks.lookup r = some blk ↔ ∃ link ∈ ls,
      link.root = r ∧ link.block = blk ∧ Covered db anchorSlot finalized count link := by
  induction count generalizing blk with
  | zero =>
    show (AList.singleton finalized.root finalized.block :
      HashMap Root BeaconBlock).lookup r = _ ↔ _
    simp only [lookup_singleton, covered_zero_iff]
    constructor
    · intro hGot
      split at hGot
      · rename_i hr
        exact ⟨finalized, hFin, hr.symm, Option.some.inj hGot, rfl⟩
      · cases hGot
    · rintro ⟨link, _, hr, hBlk, hEq⟩
      rw [← hr, ← hBlk, hEq, if_pos rfl]
  | succ count ih =>
    rcases rehydrateWindow_cases hChain hDisk finalized count with
      ⟨hEq, hOnly⟩ | ⟨here, hHere, hSlot, hHot, hNe, hAdd⟩
    · rw [hEq, ih]
      refine exists_congr fun link => and_congr_right fun hLink => and_congr_right fun _ =>
          and_congr_right fun _ => ?_
      exact (covered_succ_of_only hOnly hLink).symm
    · have hCovered :
          ∀ link ∈ ls, Covered db anchorSlot finalized (count + 1) link ↔ link = here ∨
            Covered db anchorSlot finalized count link :=
        fun link hLink => covered_succ_of_here hChain hHere hSlot hHot hLink
      rw [hAdd, (added_rehydrateBlock db hChain hFin hHere hNe _).blocks]
      by_cases hr : r = here.root
      · rw [hr, lookup_insert]
        constructor
        · intro hBlk
          exact ⟨here, hHere, rfl, Option.some.inj hBlk, (hCovered here hHere).mpr (.inl rfl)⟩
        · rintro ⟨link, hLink, hLinkRoot, hBlk, _⟩
          rw [← hBlk, hChain.eq_of_root hLink hHere hLinkRoot]
      · rw [lookup_insert_ne hr, ih]
        refine exists_congr fun link => and_congr_right
          fun hLink => and_congr_right fun hLinkRoot =>
            and_congr_right fun _ => ?_
        rw [hCovered link hLink]
        refine (or_iff_right ?_).symm
        intro hIs
        rw [hIs] at hLinkRoot
        exact hr hLinkRoot.symm

end

----
-- States of the Window
----

section

variable {S : Type} [BeaconSpec S] [LawfulBeaconSpec S]
variable {db : Db S} {a finalized : Link S} {xs : List (Link S)}

def FirstStored (db : Db S) (anchorSlot : Slot) (links : List (Link S))
    (finalizedSlot : Slot) (count : Nat) : Prop :=
  ∀ link ∈ links, InWindow db anchorSlot count link → link.slot < finalizedSlot →
    (∀ other ∈ links, IsHot db anchorSlot other.slot →
      db.splitSlotOrZero ≤ other.slot → link.slot ≤ other.slot) →
      link.slot = anchorSlot ∨ link.slot % slotsPerEpoch S = 0

/-
  The maps have the right states, and replaying goes on from a block that has been passed, or from
  the finalized one if there was no other.
-/
structure Replayed (db : Db S) (anchorSlot : Slot) (links : List (Link S))
    (finalized : Link S) (count : Nat) (rebuilt : Rehydration S) : Prop where
  states : ∀ link ∈ links, Covered db anchorSlot finalized count link →
    rebuilt.blockStates.lookup link.root = some link.postState
  replayFrom : ∃ link ∈ links,
    rebuilt.replayAnchor.state = link.postState ∧ rebuilt.replayAnchor.slot = link.slot ∧
    (link.slot < db.splitSlotOrZero + count ∨ link = finalized ∧
    ∀ other ∈ links, InWindow db anchorSlot count other → other = finalized)

variable {n total : Nat} {l : Link S}

section

variable (hChain : Chain (a :: xs)) (hDisk : ChainOnDisk a.slot (a :: xs) db)
include hChain hDisk

/- The next block of the window gets its state. -/
theorem Replayed.own_state (hReplay : Replayable (a :: xs)) {rebuilt : Rehydration S}
    (hReplayed : Replayed db a.slot (a :: xs) finalized n rebuilt)
    (hStored : FirstStored db a.slot (a :: xs) finalized.slot total)
    (hTotal : n < total) (hLink : l ∈ a :: xs)
    (hSlot : l.slot = db.splitSlotOrZero + n) (hHot : IsHot db a.slot l.slot) :
    db.states.lookup l.stateRoot = some l.postState ∨ db.states.lookup l.stateRoot = none ∧
      inlineReplayTo db rebuilt.replayAnchor.state rebuilt.replayAnchor.slot l.slot =
      .ok l.postState := by
  have hOnDisk := hDisk.hotState l hLink hHot
  by_cases hFull : l.slot = a.slot ∨ l.slot % slotsPerEpoch S = 0
  · rw [if_pos hFull] at hOnDisk
    exact .inl hOnDisk
  · rw [if_neg hFull] at hOnDisk
    refine .inr ⟨hOnDisk, ?_⟩
    rcases hReplayed.replayFrom with ⟨s₀, hStart, hs, hStartSlot, hPassed⟩
    rw [hs, hStartSlot]
    by_cases hPre : s₀.slot ≤ l.slot
    · exact inlineReplayTo_chain hChain hReplay hDisk hStart hLink hPre
    · -- Then the link would be the first of the window.
      rw [not_le] at hPre
      exfalso
      rcases hPassed with hPast | ⟨hIs, hNone⟩
      · rw [← hSlot] at hPast
        exact absurd hPre (not_lt.mpr (le_of_lt hPast))
      · rw [hIs] at hPre
        apply hFull
        refine hStored l hLink ⟨hHot, ?_, ?_⟩ hPre ?_
        · rw [hSlot]
          exact Nat.le_add_right _ _
        · rw [hSlot]
          exact Nat.add_lt_add_left hTotal _
        · intro x hx hOtherHot hFrom
          by_contra hLess
          rw [not_le] at hLess
          have hOtherIs := hNone x hx ⟨hOtherHot, hFrom, hSlot ▸ hLess⟩
          rw [hOtherIs] at hLess
          exact absurd hLess (not_lt.mpr (le_of_lt hPre))

theorem replayed_window (hReplay : Replayable (a :: xs)) (hFin : finalized ∈ a :: xs)
    (hStored : FirstStored db a.slot (a :: xs) finalized.slot total)
    (hTotal : n ≤ total) :
    Replayed db a.slot (a :: xs) finalized n (rehydrateWindow db finalized n) := by
  induction n with
  | zero =>
    refine ⟨?_, finalized, hFin, rfl, rfl, .inr ⟨rfl, ?_⟩⟩
    · intro l _ hCovered
      rw [covered_zero_iff.mp hCovered]
      show (AList.singleton finalized.root finalized.postState : HashMap Root S).lookup _ = _
      rw [lookup_singleton, if_pos rfl]
    · intro x _ hWin
      exact covered_zero_iff.mp (.inr hWin)
  | succ n ih =>
    have hPre := ih (Nat.le_of_succ_le hTotal)
    rcases rehydrateWindow_cases hChain hDisk finalized n with
      ⟨hEq, hOnly⟩ | ⟨here, hHere, hSlot, hHot, hNe, hAdd⟩
    · rw [hEq]
      refine ⟨?_, ?_⟩
      · intro l hLink hCovered
        exact hPre.states l hLink ((covered_succ_of_only hOnly hLink).mp hCovered)
      · rcases hPre.replayFrom with ⟨s₀, hStart, hs, hStartSlot, hPassed⟩
        refine ⟨s₀, hStart, hs, hStartSlot, ?_⟩
        rcases hPassed with hPast | ⟨hIs, hNone⟩
        · exact .inl (Nat.lt_succ_of_lt hPast)
        · refine .inr ⟨hIs, ?_⟩
          intro x hx hIn
          rcases inWindow_succ_iff.mp hIn with hOld | ⟨hOtherHot, hOtherSlot⟩
          · exact hNone x hx hOld
          · exact hOnly x hx hOtherSlot hOtherHot
    · have hOwn := hPre.own_state hChain hDisk hReplay hStored (Nat.lt_of_succ_le hTotal) hHere
        hSlot hHot
      have hMore := added_rehydrateBlock db hChain hFin hHere hNe (rehydrateWindow db finalized n)
      rw [hAdd]
      refine ⟨?_, here, hHere, ?_, ?_, .inl ?_⟩
      · intro l hLink hCovered
        by_cases hIsHere : l = here
        · rw [hIsHere]
          exact (hMore.own _ hOwn).1
        · rw [hMore.others l.root fun hr =>
            hIsHere (hChain.eq_of_root hLink hHere hr)]
          rw [covered_succ_of_here hChain hHere hSlot hHot hLink] at hCovered
          exact hPre.states l hLink (hCovered.resolve_left hIsHere)
      · rw [(hMore.own _ hOwn).2]
      · rw [(hMore.own _ hOwn).2]
      · rw [hSlot]
        exact Nat.lt_succ_self _

section

omit [LawfulBeaconSpec S]

theorem rehydrateWindow_of_forall
    (hNone : ∀ l ∈ a :: xs, InWindow db a.slot n l → l = finalized) :
    rehydrateWindow db finalized n =
      seedRehydration finalized.root finalized.block finalized.postState := by
  induction n with
  | zero => rfl
  | succ n ih =>
    rcases rehydrateWindow_cases hChain hDisk finalized n with
      ⟨hEq, _⟩ | ⟨here, hHere, hSlot, hHot, hNe, _⟩
    · rw [hEq]
      apply ih
      intro l hLink hIn
      exact hNone l hLink (inWindow_succ_iff.mpr (.inl hIn))
    · exact absurd (hNone here hHere (inWindow_succ_iff.mpr (.inr ⟨hHot, hSlot⟩))) hNe

theorem blockStates_window_add (hFin : finalized ∈ a :: xs)
    (hPassed : l.slot < db.splitSlotOrZero + n) (hLink : l ∈ a :: xs) (more : Nat) :
    (rehydrateWindow db finalized (n + more)).blockStates.lookup l.root =
      (rehydrateWindow db finalized n).blockStates.lookup l.root := by
  induction more with
  | zero => rfl
  | succ more ih =>
    rcases rehydrateWindow_cases hChain hDisk finalized (n + more) with
      ⟨hEq, _⟩ | ⟨here, hHere, hSlot, _, hNe, hAdd⟩
    · rw [← add_assoc, hEq, ih]
    · rw [← add_assoc, hAdd, (added_rehydrateBlock db hChain hFin hHere hNe _).others, ih]
      intro hr
      have hIs := hChain.eq_of_root hLink hHere hr
      rw [hIs, hSlot, ← Nat.add_assoc] at hPassed
      exact absurd hPassed (not_lt.mpr (Nat.le_add_right _ _))

theorem blockStates_window_first (hFin : finalized ∈ a :: xs)
    (hLink : l ∈ a :: xs) (hWin : InWindow db a.slot total l)
    (hPre : l.slot < finalized.slot)
    (hFst : ∀ x ∈ a :: xs, IsHot db a.slot x.slot → db.splitSlotOrZero ≤ x.slot → l.slot ≤ x.slot)
    (hNotFull : ¬(l.slot = a.slot ∨ l.slot % slotsPerEpoch S = 0)) :
    (rehydrateWindow db finalized total).blockStates.lookup l.root = some finalized.postState := by
  rcases Nat.exists_eq_add_of_le hWin.2.1 with ⟨n, hSlot⟩
  have hNone : ∀ x ∈ a :: xs, InWindow db a.slot n x → x = finalized := by
    intro x hx hIn
    have hLess := hIn.2.2
    rw [← hSlot] at hLess
    exact absurd hLess (not_lt.mpr (hFst x hx hIn.1 hIn.2.1))
  have hTotal : n + 1 ≤ total := by
    have hUpTo := hWin.2.2
    rw [hSlot] at hUpTo
    exact lt_of_add_lt_add_left hUpTo
  have hPassed : l.slot < db.splitSlotOrZero + (n + 1) := by
    rw [hSlot]
    exact Nat.lt_succ_self _
  rw [← Nat.add_sub_cancel' hTotal, blockStates_window_add hChain hDisk hFin hPassed hLink]
  rcases rehydrateWindow_cases hChain hDisk finalized n with
    ⟨_, hOnly⟩ | ⟨here, hHere, hHereSlot, _, hNe, hAdd⟩
  · rw [hOnly l hLink hSlot hWin.1] at hPre
    exact absurd hPre (lt_irrefl _)
  · have hIs := hChain.eq_of_slot hHere hLink (hHereSlot.trans hSlot.symm)
    rw [hIs] at hHere hNe hAdd
    rw [hAdd, rehydrateWindow_of_forall hChain hDisk hNone]
    refine ((added_rehydrateBlock db hChain hFin hHere hNe _).own _ (.inr ⟨?_, ?_⟩)).1
    · rw [hDisk.hotState l hLink hWin.1, if_neg hNotFull]
    · exact inlineReplayTo_past _ (le_of_lt hPre)

end

theorem states_window_iff (hReplay : Replayable (a :: xs)) (hFin : finalized ∈ a :: xs)
    (total : Nat) :
    (∀ l ∈ a :: xs,
        Covered db a.slot finalized total l →
          (rehydrateWindow db finalized total).blockStates.lookup l.root = some l.postState) ↔
      FirstStored db a.slot (a :: xs) finalized.slot total := by
  constructor
  · intro hStates l hLink hWin hPre hFst
    by_contra hNotFull
    have hRight := hStates l hLink (.inr hWin)
    rw [blockStates_window_first hChain hDisk hFin hLink hWin hPre hFst hNotFull] at hRight
    -- The states tell the blocks apart.
    have hLatest := hChain.latest l hLink
    rw [← Option.some.inj hRight, hChain.latest finalized hFin] at hLatest
    have hSlot : finalized.slot = l.slot := congrArg Prod.fst hLatest
    rw [hSlot] at hPre
    exact absurd hPre (lt_irrefl _)
  · intro hStored
    exact (replayed_window hChain hDisk hReplay hFin hStored (le_refl total)).states

end

end

----
-- The Rebuilt Store
----

section

open ForkChoice

variable {S : Type} [BeaconSpec S]

/-
  A store has the blocks of a chain from the finalized slot to the head, and the state of every
  block it has.
-/
structure Rebuilt (links : List (Link S)) (finalizedSlot headSlot : Slot)
    (store : Store S) : Prop where
  chain : ∀ link ∈ links, finalizedSlot ≤ link.slot →
    link.slot ≤ headSlot → store.blocks.lookup link.root = some link.block
  states : ∀ root ∈ store.blocks,
    ∃ link ∈ links, link.root = root ∧ store.blockStates.lookup root = some link.postState

variable (S) in
/-
  No block after the finalized one is frozen. If a block was frozen, and the first one that was not
  comes before the finalized one, then it is the first block of an epoch.
-/
structure RestartSafe (blocks : List BeaconBlock) (anchorSlot splitSlot : Slot)
    (finalizedSlot headSlot : Slot) : Prop where
  notFrozen :
    ∀ block ∈ blocks, finalizedSlot < block.slot → block.slot ≤ headSlot → splitSlot < block.slot
  firstStored : anchorSlot < splitSlot →
    ∀ block ∈ blocks, splitSlot < block.slot → block.slot < finalizedSlot → block.slot ≤ headSlot →
      (∀ other ∈ blocks, splitSlot < other.slot → block.slot ≤ other.slot) →
        block.slot % slotsPerEpoch S = 0

def windowLength (db : Db S) (headSlot : Slot) : Nat :=
  if headSlot ≥ db.splitSlotOrZero then headSlot - db.splitSlotOrZero + 1 else 0

variable {db : Db S} {a final : Link S} {xs : List (Link S)} {headSlot : Slot}

omit [BeaconSpec S] in
theorem inWindow_windowLength_iff {anchorSlot : Slot} {l : Link S} :
    InWindow db anchorSlot (windowLength db headSlot) l ↔
      IsHot db anchorSlot l.slot ∧ db.splitSlotOrZero ≤ l.slot ∧ l.slot ≤ headSlot := by
  have hNat : ∀ slot split head : Nat,
        (split ≤ slot ∧ slot < split + (if head ≥ split then head - split + 1 else 0)) ↔
          split ≤ slot ∧ slot ≤ head := by
    intro slot split head
    split
    · omega
    · omega
  unfold InWindow windowLength
  rw [hNat]

section

variable (hChain : Chain (a :: xs)) (hDisk : ChainOnDisk a.slot (a :: xs) db)

include hDisk in
theorem firstStored_iff :
    FirstStored db a.slot (a :: xs) final.slot (windowLength db headSlot) ↔
      (a.slot < db.splitSlotOrZero →
        ∀ l ∈ a :: xs, db.splitSlotOrZero < l.slot → l.slot < final.slot → l.slot ≤ headSlot →
          (∀ x ∈ a :: xs, db.splitSlotOrZero < x.slot → l.slot ≤ x.slot) →
            l.slot % slotsPerEpoch S = 0) := by
  constructor
  · intro hStored hFrozen l hLink hPost hPre hUpTo hFst
    have hCases := hStored l hLink (inWindow_windowLength_iff.mpr ⟨.inr hPost,
      le_of_lt hPost, hUpTo⟩) hPre ?_
    · apply hCases.resolve_left
      intro hAnchor
      rw [hAnchor] at hPost
      exact absurd hPost (not_lt.mpr (le_of_lt hFrozen))
    · intro x hx hHot hFrom
      apply hFst x hx
      apply hHot.resolve_left
      intro hAnchor
      rw [hAnchor] at hFrom
      exact absurd hFrozen (not_lt.mpr hFrom)
  · intro hStored l hLink hWin hPre hFst
    rcases inWindow_windowLength_iff.mp hWin with ⟨hHot, _, hUpTo⟩
    refine or_iff_not_imp_left.mpr fun hNotAnchor => ?_
    have hPost := hHot.resolve_left hNotAnchor
    refine hStored ?_ l hLink hPost hPre hUpTo ?_
    · apply lt_of_le_of_ne hDisk.anchored
      intro hEq
      have hLeast := hFst a List.mem_cons_self (.inl rfl) (le_of_eq hEq.symm)
      rw [hEq] at hLeast
      exact absurd hPost (not_lt.mpr hLeast)
    · intro x hx hOtherHot
      exact hFst x hx (.inr hOtherHot) (le_of_lt hOtherHot)

include hChain hDisk

theorem blocks_window_iff (hFin : final ∈ a :: xs) (headSlot : Slot) :
    (∀ l ∈ a :: xs, final.slot ≤ l.slot →
        l.slot ≤ headSlot → (rehydrateWindow db final
          (windowLength db headSlot)).blocks.lookup l.root = some l.block) ↔
      ∀ l ∈ a :: xs, final.slot < l.slot → l.slot ≤ headSlot → db.splitSlotOrZero < l.slot := by
  constructor
  · intro hBlks l hLink hPost hUpTo
    have hGot := hBlks l hLink (le_of_lt hPost) hUpTo
    rw [lookup_blocks_window hChain hDisk hFin] at hGot
    rcases hGot with ⟨x, hx, hr, _, hCases⟩
    rw [hChain.eq_of_root hx hLink hr] at hCases
    rcases hCases with hEq | hWin
    · rw [hEq] at hPost
      exact absurd hPost (lt_irrefl _)
    · apply hWin.1.resolve_left
      intro hAnchor
      rw [hAnchor] at hPost
      exact absurd hPost (not_lt.mpr (hChain.first_le hFin))
  · intro hNotFrozen l hLink hFrom hUpTo
    rw [lookup_blocks_window hChain hDisk hFin]
    refine ⟨l, hLink, rfl, rfl, ?_⟩
    rcases eq_or_lt_of_le hFrom with hEq | hPost
    · exact .inl (hChain.eq_of_slot hLink hFin hEq.symm)
    · have hHot := hNotFrozen l hLink hPost hUpTo
      exact .inr (inWindow_windowLength_iff.mpr ⟨.inr hHot, le_of_lt hHot, hUpTo⟩)

variable [LawfulBeaconSpec S] {snap : ForkChoiceSnapshot} {secondsPerSlot : Nat} {st : Store S}
  (hReplay : Replayable (a :: xs))
  (hOk : rehydrateForkChoiceStore db snap secondsPerSlot = .ok st)
include hReplay hOk

omit hReplay [LawfulBeaconSpec S] hChain in
theorem finalized_mem_of_ok :
    ∃ final ∈ a :: xs, final.root = snap.finalizedCheckpoint.root := by
  unfold rehydrateForkChoiceStore at hOk
  dsimp only at hOk
  split at hOk
  · cases hOk
  · rename_i anchorSigned hSigned
    rcases hDisk.known hSigned with ⟨l, hLink, hr, _⟩
    exact ⟨l, hLink, hr⟩

theorem rehydrateForkChoiceStore_ok :
    ∃ final ∈ a :: xs,
      final.root = snap.finalizedCheckpoint.root ∧
        st.blocks = (rehydrateWindow db final (windowLength db snap.headSlot)).blocks ∧
        st.blockStates =
          (rehydrateWindow db final (windowLength db snap.headSlot)).blockStates := by
  unfold rehydrateForkChoiceStore at hOk
  dsimp only at hOk
  split at hOk
  · cases hOk
  · rename_i anchorSigned hSigned
    rcases hDisk.known hSigned with ⟨l, hLink, hr, hBlk⟩
    split at hOk
    · cases hOk
    · rename_i anchorState hs
      rw [← hBlk] at hs hOk
      have hPost := loadStateHotOrCold_eq hChain hReplay hDisk hLink hs
      rw [hPost, ← hr] at hOk
      have hRebuilt : rehydrateWindow db l (windowLength db snap.headSlot) =
            if snap.headSlot ≥ db.splitSlotOrZero then
              (db.getBlocksByRange db.splitSlotOrZero (snap.headSlot - db.splitSlotOrZero +
                1)).foldl (rehydrateBlock db l.root) (seedRehydration l.root l.block
                l.postState)
            else
              seedRehydration l.root l.block l.postState := by
        unfold windowLength
        split
        · rfl
        · rfl
      refine ⟨l, hLink, hr, ?_, ?_⟩
      · rw [hRebuilt, ← Except.ok.inj hOk]
        rfl
      · rw [hRebuilt, ← Except.ok.inj hOk]
        rfl

theorem rebuilt_iff :
    ∃ final ∈ a :: xs,
      final.root = snap.finalizedCheckpoint.root ∧
        (Rebuilt (a :: xs) final.slot snap.headSlot st ↔
          RestartSafe S ((a :: xs).map Link.block) a.slot db.splitSlotOrZero final.slot
            snap.headSlot) := by
  rcases rehydrateForkChoiceStore_ok hChain hDisk hReplay hOk with
    ⟨final, hFin, hr, hBlks, hStates⟩
  refine ⟨final, hFin, hr, ?_⟩
  have hGot := lookup_blocks_window hChain hDisk hFin (windowLength db snap.headSlot)
  have hChainPart := blocks_window_iff hChain hDisk hFin snap.headSlot
  have hStatePart := (states_window_iff hChain hDisk hReplay hFin
    (windowLength db snap.headSlot)).trans (firstStored_iff hDisk)
  rw [← hBlks] at hChainPart hGot
  rw [← hStates] at hStatePart
  constructor
  · intro hRebuilt
    refine ⟨?_, ?_⟩
    · rw [List.forall_mem_map]
      exact hChainPart.mp hRebuilt.chain
    · simp only [List.forall_mem_map]
      apply hStatePart.mp
      intro l hLink hIn
      have hMem : l.root ∈ st.blocks := by
        exact HashTable.mem_iff.mpr ⟨_, (hGot _ _).mpr ⟨l, hLink, rfl, rfl, hIn⟩⟩
      rcases hRebuilt.states l.root hMem with ⟨x, hx, hEq, hs⟩
      rw [hs, hChain.eq_of_root hx hLink hEq]
  · intro hSafe
    have hNotFrozen := hSafe.notFrozen
    have hStored := hSafe.firstStored
    simp only [List.forall_mem_map] at hNotFrozen hStored
    refine ⟨hChainPart.mpr hNotFrozen, ?_⟩
    intro r hMem
    rcases HashTable.mem_iff.mp hMem with ⟨blk, hBlk⟩
    rcases (hGot r blk).mp hBlk with ⟨l, hLink, hLinkRoot, _, hIn⟩
    refine ⟨l, hLink, hLinkRoot, ?_⟩
    rw [← hLinkRoot]
    exact hStatePart.mpr hStored l hLink hIn

end

variable [LawfulBeaconSpec S]

/-
  A node follows a chain without forks, whose blocks go through unchecked too, while the freezer
  runs. A restart that succeeds, from any snapshot, brings the chain back with the right states
  exactly if the split and the finalized block fit together.
-/
theorem restart_rebuilds_states_iff (anchor : CheckpointAnchor S) (node : NodeState S)
    (hStart : StartsAt anchor node) (intervalEpochs : Nat) (actions : List ServiceAction)
    (hChecked : ∀ signedBlock inputs, .follow (.importBlock signedBlock inputs) ∈ actions →
      inputs.validateResult = true)
    (hUnforked : Unforked S (serviceHistory intervalEpochs anchor node actions))
    (hReplay : ReplaysUnchecked anchor (serviceHistory intervalEpochs anchor node actions))
    (snapshot : ForkChoiceSnapshot)
    (secondsPerSlot : Nat)
    (store : Store S) :
    let reached := Run.final (serviceStep intervalEpochs) node actions
    let blks := serviceHistory intervalEpochs anchor node actions
    rehydrateForkChoiceStore reached.db snapshot secondsPerSlot = .ok store →
      ∃ xs,
        let ls := anchorLink anchor :: xs
        ls.map Link.block = blks ∧ Chain ls ∧
          ∃ final ∈ ls,
            final.root = snapshot.finalizedCheckpoint.root ∧
              (Rebuilt ls final.slot snapshot.headSlot store ↔
                RestartSafe S blks anchor.signedBlock.message.slot
                  reached.db.splitSlotOrZero final.slot
                  snapshot.headSlot) := by
  dsimp only
  intro hOk
  rcases kept_final hStart hChecked hUnforked with ⟨xs, hBlks, hKept⟩
  have hUnchecked := hReplay xs hBlks hKept.chain
  refine ⟨xs, hBlks, hKept.chain, ?_⟩
  rw [← hBlks]
  exact rebuilt_iff hKept.chain hKept.onDisk hUnchecked hOk

end

----
-- A Freezer That Is Late
----

open ForkChoice

def followAll (now : Nat) (blocks : List BeaconBlock) : List ServiceAction :=
  (importAll now blocks).map .follow

theorem validateResult_of_mem_followAll {now : Nat} {blks : List BeaconBlock}
    {signed : SignedBeaconBlock} {ins : ImportInputs}
    (hMem : .follow (.importBlock signed ins) ∈ followAll now blks) :
    ins.validateResult = true := by
  rcases List.mem_map.mp hMem with ⟨act, hAction, hEq⟩
  rw [ServiceAction.follow.inj hEq] at hAction
  exact validateResult_of_mem_importAll hAction

open Sample

def epochBlock : BeaconBlock :=
  child anchorRoot 4 1 []

def innerBlock : BeaconBlock :=
  child (treeHashRoot epochBlock) 5 1 []

def innerRoot : Root :=
  treeHashRoot innerBlock

def secondEpochBlock : BeaconBlock :=
  child innerRoot 8 1 []

def secondEpochRoot : Root :=
  treeHashRoot secondEpochBlock

/- A block whose state finalizes the second one. -/
def thirdEpochBlock : BeaconBlock :=
  child secondEpochRoot 12 1 []

def innerState : ChainState :=
  postState (postState anchorState epochBlock) innerBlock

def secondEpochState : ChainState :=
  postState innerState secondEpochBlock

def freezeInTime : List ServiceAction :=
  followAll 160 [epochBlock, innerBlock, secondEpochBlock, thirdEpochBlock] ++ [.freeze]

def freezeEarly : List ServiceAction :=
  followAll 160 [epochBlock, innerBlock, secondEpochBlock] ++
    [.freeze] ++ followAll 160 [thirdEpochBlock]

theorem freezeInTime_checked : ∀ signed ins,
      .follow (.importBlock signed ins) ∈ freezeInTime → ins.validateResult = true := by
  intro signed ins hMem
  rcases List.mem_append.mp hMem with hFollow | hFreeze
  · exact validateResult_of_mem_followAll hFollow
  · exact absurd hFreeze (by simp)

/- The sample protocol has the same checks either way. -/
theorem replaysUnchecked (blks : List BeaconBlock) : ReplaysUnchecked sampleAnchor blks :=
  fun _ _ hChain => hChain.applied.imp fun _ _ hApplied => hApplied.checked

/- The condition, when the freezer is not late. -/
theorem restart_rebuilds_states_iff_freezeInTime :
    let reached := Run.final (serviceStep 1) syncedNode freezeInTime
    let blks := serviceHistory 1 sampleAnchor syncedNode freezeInTime
    ∃ snap st,
      reached.db.forkchoice = some snap ∧ rehydrateForkChoiceStore reached.db snap 12 = .ok st ∧
        reached.db.splitSlotOrZero = 8 ∧
        ∃ xs,
          let ls := anchorLink sampleAnchor :: xs
          ls.map Link.block = blks ∧ Chain ls ∧ ∃ final ∈ ls, final.root =
            snap.finalizedCheckpoint.root ∧ (Rebuilt ls final.slot snap.headSlot
            st ↔ RestartSafe ChainState blks sampleAnchor.signedBlock.message.slot
            reached.db.splitSlotOrZero final.slot snap.headSlot) :=
  ⟨_, _, rfl, rfl, by decide, restart_rebuilds_states_iff sampleAnchor syncedNode
      startsAt_syncedNode 1 freezeInTime freezeInTime_checked
      ⟨by decide, by decide, by decide⟩ (replaysUnchecked _) _ 12 _ rfl⟩

/-
  After a restart with the split before the finalized block, a block between them has the state of
  the finalized one.
-/
theorem restart_gives_finalized_state :
    let reached := Run.final (serviceStep 1) syncedNode freezeEarly
    ∃ snap st, reached.db.forkchoice = some snap ∧
      rehydrateForkChoiceStore reached.db snap 12 = .ok st ∧ reached.db.splitSlotOrZero = 4 ∧
      snap.finalizedCheckpoint = ⟨2, secondEpochRoot⟩ ∧
      reached.store.blockStates.lookup innerRoot = some innerState ∧ st.blocks.lookup innerRoot =
      some innerBlock ∧ st.blockStates.lookup innerRoot = some secondEpochState ∧ innerState ≠
      secondEpochState :=
  ⟨_, _, rfl, rfl, by decide, by decide, by decide, by decide, by decide, by decide⟩

end Pharos.Node
