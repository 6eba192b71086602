import Pharos.Node.ChainOnDisk

/-
  This file implements a node that follows the chain while the freezer runs, and says what it keeps
  of a chain without forks, however the two take turns.
-/

----
-- Runs with a Freezer
----

namespace Pharos.Node

open List

section

open BeaconSpec ForkChoice HashTable Storage

/- The node follows the chain, and the freezer runs. -/
inductive ServiceAction where
  | follow (action : NodeAction)
  | freeze

def ServiceAction.block? : ServiceAction → Option BeaconBlock
| .follow action => action.block?
| .freeze => none

variable {S : Type} [BeaconSpec S]

def serviceStep (intervalEpochs : Nat) (node : NodeState S) :
    ServiceAction → Except ImportError (NodeState S)
| .follow action => nodeStep node action
| .freeze => .ok (freezerStep intervalEpochs node)

def serviceHistory (intervalEpochs : Nat) (anchor : CheckpointAnchor S)
    (node : NodeState S) (actions : List ServiceAction) : List BeaconBlock :=
  [anchor.signedBlock.message] ++
    (Run.accepted (serviceStep intervalEpochs) node actions).filterMap ServiceAction.block?

variable (S) in
/-
  Blocks that each name the one before them as their parent. No two of them have the same root, or
  name the same state.
-/
structure Unforked (blocks : List BeaconBlock) : Prop where
  parents : blocks.IsChain fun parent child => child.parentRoot = treeHashRoot S parent
  roots : (blocks.map (treeHashRoot S)).Nodup
  stateRoots : (blocks.map BeaconBlock.stateRoot).Nodup

theorem Unforked.front {blks : List BeaconBlock} {blk : BeaconBlock}
    (hUnforked : Unforked S (blks ++ [blk])) : Unforked S blks := by
  rcases hUnforked with ⟨hParents, hRoots, hStateRoots⟩
  rw [isChain_append] at hParents
  rw [map_append, nodup_append] at hRoots hStateRoots
  exact ⟨hParents.1, hRoots.1, hStateRoots.1⟩

----
-- What Is Kept
----

/-
  A node that has followed a chain. The freezer takes blocks and states away from memory, but the
  states that are left are those of the chain.
-/
structure Kept (first : Link S) (rest : List (Link S)) (node : NodeState S) : Prop where
  chain : Chain (first :: rest)
  onDisk : ChainOnDisk first.slot (first :: rest) node.db
  inMemory : ∀ root state, node.store.blockStates.lookup root = some state →
    ∃ link ∈ first :: rest, link.root = root ∧ link.postState = state
  split : node.db.splitSlotOrZero ≤
    max first.slot (computeStartSlotAtEpoch S node.store.finalizedEpoch)

variable {anchor : CheckpointAnchor S} {node s₁ s' : NodeState S}

theorem StartsAt.kept (hStart : StartsAt anchor node) : Kept (anchorLink anchor) [] node := by
  constructor
  · exact chain_anchorLink anchor
  · exact hStart.chainOnDisk
  · intro r s hs
    rw [hStart.blockStates] at hs
    rcases lookup_singleton_iff.mp hs with ⟨rfl, rfl⟩
    exact ⟨_, mem_singleton_self _, root_anchorLink anchor, rfl⟩
  · rw [hStart.db]
    exact le_trans (ge_of_eq (slot_anchorLink anchor)) (le_max_left _ _)

namespace Kept

variable {a : Link S} {xs : List (Link S)}

theorem clock (hKept : Kept a xs s₁)
    (hEq : s'.store.knowledge = s₁.store.knowledge)
    (hEp : s₁.store.finalizedEpoch ≤ s'.store.finalizedEpoch)
    (hDb : s'.db = s₁.db) : Kept a xs s' := by
  have hStates := states_of_same hEq
  constructor
  · exact hKept.chain
  · rw [hDb]
    exact hKept.onDisk
  · rw [hStates]
    exact hKept.inMemory
  · rw [hDb]
    exact le_trans hKept.split (max_le_max_left _ (Nat.mul_le_mul_right _ hEp))

theorem frozen (hKept : Kept a xs node) (interval : Nat) :
    Kept a xs (freezerStep interval node) := by
  have hDisk := hKept.onDisk.migrateTo hKept.chain interval
    (saturatingMul node.store.finalizedEpoch (slotsPerEpoch S))
  constructor
  · exact hKept.chain
  · unfold freezerStep
    rw [db_freezeTo]
    exact hDisk
  · intro r s hs
    apply hKept.inMemory r s
    unfold freezerStep freezeTo evictFinalizedFromFc at hs
    dsimp only at hs
    split at hs
    · exact hs
    · split at hs
      · exact hs
      · exact lookup_of_deleteAll hs
  · have hEp : (freezerStep interval node).store.finalizedEpoch = node.store.finalizedEpoch := by
      unfold freezerStep freezeTo evictFinalizedFromFc
      dsimp only
      split
      · rfl
      · split
        · rfl
        · rfl
    rw [hEp]
    unfold freezerStep
    rw [db_freezeTo]
    unfold migrateTo
    dsimp only
    split
    · exact hKept.split
    · exact le_trans (min_le_left _ _) (le_max_right _ _)

variable [LawfulBeaconSpec S]

/- A block on the last one makes the chain longer. -/
theorem imported (hKept : Kept a xs s₁) {signed : SignedBeaconBlock}
    {post : S} (hImp : Imported s₁ s' signed true post)
    (hUnforked : Unforked S ((a :: xs).map Link.block ++ [signed.message])) :
    Kept a (xs ++ [⟨signed, post⟩]) s' := by
  have hParents := hUnforked.parents
  rw [isChain_append, getLast?_map] at hParents
  have hExists : ∃ par, (a :: xs).getLast? = some par :=
    ⟨_, getLast?_eq_some_getLast (cons_ne_nil a xs)⟩
  rcases hExists with ⟨par, hLast⟩
  have hMem : par ∈ a :: xs := mem_of_getLast? hLast
  rw [hLast] at hParents
  have hr : signed.message.parentRoot = par.root := hParents.2.2 _ rfl _ rfl
  rcases hImp.prepared.transition with ⟨pre, hPre, hTrans⟩
  rcases hKept.inMemory _ _ hPre with ⟨x, hx, hOtherRoot, hs⟩
  rw [hKept.chain.eq_of_root hx hMem (hOtherRoot.trans hr)] at hs
  have hRoots := hUnforked.roots
  have hStateRoots := hUnforked.stateRoots
  rw [map_append, map_map] at hRoots hStateRoots
  have hChain : Chain ((a :: xs) ++ [⟨signed, post⟩]) := by
    refine hKept.chain.append hLast ?_ ?_ ?_
    · rw [hs]
      exact stateTransition_ok hTrans
    · rw [map_append]
      exact hRoots
    · rw [map_append]
      exact hStateRoots
  have hFst : a.slot < signed.message.slot := (hChain.fresh mem_cons_self).1
  constructor
  · exact hChain
  · apply hKept.onDisk.imported hChain _ hImp
    exact lt_of_le_of_lt hKept.split (max_lt hFst hImp.pastFinalized)
  · intro r s hGot
    rw [hImp.blockStates] at hGot
    rw [← cons_append, exists_mem_append_singleton]
    rcases HashTable.lookup_insert_cases hGot with ⟨hNew, hs⟩ | ⟨_, hGot⟩
    · exact .inr ⟨hNew.symm, hs.symm⟩
    · exact .inl (hKept.inMemory r s hGot)
  · rw [hImp.frozen.2.2]
    exact le_trans hKept.split (max_le_max_left _ (Nat.mul_le_mul_right _ hImp.finalizedEpoch))

end Kept

end

----
-- Whole Runs
----

open BeaconSpec ForkChoice Storage

variable {S : Type} [BeaconSpec S] [LawfulBeaconSpec S]
variable {anchor : CheckpointAnchor S} {node : NodeState S}

def KeepsChain (anchor : CheckpointAnchor S) (node : NodeState S)
    (past : List ServiceAction) : Prop :=
  let blocks := [anchor.signedBlock.message] ++ past.filterMap ServiceAction.block?
  Unforked S blocks →
    ∃ rest, (anchorLink anchor :: rest).map Link.block = blocks ∧ Kept (anchorLink anchor) rest node

variable {s' : NodeState S} {past : List ServiceAction} {act : ServiceAction}

section

variable (hPast : KeepsChain anchor node past)
include hPast

omit [LawfulBeaconSpec S] in
theorem KeepsChain.of_none (hNone : act.block? = none)
    (hKeeps : ∀ xs, Kept (anchorLink anchor) xs node → Kept (anchorLink anchor) xs s') :
    KeepsChain anchor s' (past ++ [act]) := by
  have hBlks : (past ++ [act]).filterMap ServiceAction.block? =
      past.filterMap ServiceAction.block? := by
    simp [hNone]
  unfold KeepsChain
  dsimp only
  rw [hBlks]
  intro hUnforked
  rcases hPast hUnforked with ⟨xs, hLinks, hKept⟩
  exact ⟨xs, hLinks, hKeeps xs hKept⟩

theorem KeepsChain.imported {signed : SignedBeaconBlock} {post : S} (hBlk : act.block? = some signed.message)
    (hImp : Imported node s' signed true post) :
    KeepsChain anchor s' (past ++ [act]) := by
  have hBlks : [anchor.signedBlock.message] ++ (past ++ [act]).filterMap ServiceAction.block? =
      [anchor.signedBlock.message] ++ past.filterMap ServiceAction.block? ++
      [signed.message] := by
    simp [hBlk]
  unfold KeepsChain
  dsimp only
  rw [hBlks]
  intro hLonger
  rcases hPast hLonger.front with ⟨xs, hLinks, hKept⟩
  rw [← hLinks] at hLonger ⊢
  refine ⟨_, ?_, hKept.imported hImp hLonger⟩
  rw [← cons_append, map_append]
  rfl

theorem keepsChain_step {interval : Nat}
    (hChecked : ∀ signed ins, act = .follow (.importBlock signed ins) → ins.validateResult = true)
    (hStep : serviceStep interval node act = .ok s') :
    KeepsChain anchor s' (past ++ [act]) := by
  cases act with
  | freeze =>
    cases hStep
    apply hPast.of_none rfl
    intro xs hKept
    exact hKept.frozen interval
  | follow followed =>
    rcases nodeStep_ok hStep with ⟨hNone, hEq, hEp, hDb⟩ | ⟨signed, ins, post, hAction, hImp⟩
    · refine hPast.of_none (show (ServiceAction.follow followed).block? = none from hNone) ?_
      intro xs hKept
      exact hKept.clock hEq hEp hDb
    · rw [hChecked signed ins (congrArg ServiceAction.follow hAction)] at hImp
      apply hPast.imported _ hImp
      rw [hAction]
      rfl

end

theorem kept_final (hStart : StartsAt anchor node) {interval : Nat}
    {acts : List ServiceAction}
    (hChecked : ∀ signed ins, .follow (.importBlock signed ins) ∈ acts → ins.validateResult = true)
    (hUnforked : Unforked S (serviceHistory interval anchor node acts)) :
    ∃ xs,
      (anchorLink anchor :: xs).map Link.block = serviceHistory interval anchor node acts ∧
        Kept (anchorLink anchor) xs (Run.final (serviceStep interval) node acts) := by
  have hNew : KeepsChain anchor node [] := by
    intro _
    exact ⟨[], rfl, hStart.kept⟩
  refine Run.history_of_step (KeepsChain anchor) ?_ hNew hUnforked
  intro s past act s' hAction hPast hStep
  apply keepsChain_step hPast _ hStep
  rintro signed ins rfl
  exact hChecked signed ins hAction

end Pharos.Node
