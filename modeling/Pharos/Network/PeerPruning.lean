import Mathlib.Data.List.Sort
import Pharos.Lib.HashTable

/-
  This file determines when the node prunes the peers with the lowest scores.

  The candidates come from a ranking of all peers that the scorer remembers. Only a part of it is
  looked at, and the connected peers in that part are taken: disconnected peers with low scores
  take the places of connected ones.

  Main theorems:
  * `should_prune_worst_iff`
-/

----
-- Peers and Scores
----

namespace Pharos.Network

open List

inductive PeerState where
  | connecting
  | handshaking
  | connected
  | disconnecting
  | banned
deriving DecidableEq

structure PeerManager (PeerId Score : Type) [DecidableEq PeerId] where
  peers : HashTable PeerId PeerState
  scores : HashTable PeerId Score
  zero : Score
  targetPeers : Nat

namespace PeerManager

variable {PeerId Score : Type} [DecidableEq PeerId] [LinearOrder Score]

section

variable (manager : PeerManager PeerId Score)

/- A peer that is not remembered has the score zero. -/
def scoreAt (peer : PeerId) : Score :=
  (manager.scores.lookup peer).getD manager.zero

def ranking : List PeerId :=
  manager.scores.keys.insertionSort fun a b => manager.scoreAt a ≤ manager.scoreAt b

def worstPeers (count : Nat) : List PeerId :=
  manager.ranking.take count

def connectedIds : List PeerId :=
  (manager.peers.entries.filter fun info => info.2 = .connected).map Sigma.fst

def excess : Nat :=
  manager.connectedIds.length - manager.targetPeers

/- The connected peers in the part of the ranking that is looked at. -/
def candidates : List PeerId :=
  (manager.worstPeers (manager.excess + manager.connectedIds.length)).filter
    (· ∈ manager.connectedIds)

def shouldPrune : List PeerId :=
  if manager.excess = 0 then [] else manager.candidates.take manager.excess

/- As many connected peers as are too many, and none with a score above that of one that stays. -/
structure PrunesWorst : Prop where
  count : manager.shouldPrune.length = manager.excess
  nodup : manager.shouldPrune.Nodup
  connected : ∀ peer ∈ manager.shouldPrune, manager.peers.lookup peer = some .connected
  worst : ∀ peer, manager.peers.lookup peer = some .connected → peer ∉ manager.shouldPrune →
    ∀ pruned ∈ manager.shouldPrune, ¬manager.scoreAt peer < manager.scoreAt pruned

/-
  With this peer of the ranking the excess is complete, and it lies in the part that is looked at:
  of those ranked before it, no more than all connected peers are not connected.
-/
structure CompletesExcess (front : List PeerId) (last : PeerId) : Prop where
  connected : manager.peers.lookup last = some .connected
  before : front.countP (· ∈ manager.connectedIds) + 1 = manager.excess
  others : front.countP (· ∉ manager.connectedIds) ≤ manager.connectedIds.length
  unknown : (∃ peer, manager.peers.lookup peer = some .connected ∧ peer ∉ manager.scores) →
    manager.scoreAt last ≤ manager.zero

end

----
-- What Is Pruned
----

variable {manager : PeerManager PeerId Score} {p : PeerId}

omit [LinearOrder Score] in
theorem mem_connectedIds_iff :
    p ∈ manager.connectedIds ↔ manager.peers.lookup p = some .connected := by
  rw [← Option.mem_def, AList.mem_lookup_iff]
  simp [connectedIds]

theorem mem_ranking_iff : p ∈ manager.ranking ↔ p ∈ manager.scores := by
  rw [ranking, (perm_insertionSort _ _).mem_iff, AList.mem_keys]

theorem shouldPrune_eq_take : manager.shouldPrune = manager.candidates.take manager.excess := by
  unfold shouldPrune
  split
  · rename_i hNone
    rw [hNone, take_zero]
  · rfl

/- The pruned peers are the first connected ones of the whole ranking. -/
theorem shouldPrune_isPrefix (manager : PeerManager PeerId Score) :
    manager.shouldPrune <+: manager.ranking.filter (· ∈ manager.connectedIds) := by
  rw [shouldPrune_eq_take]
  exact ( take_prefix _ _).trans (( take_prefix _ _).filter _)

theorem mem_of_mem_shouldPrune (hPruned : p ∈ manager.shouldPrune) :
    p ∈ manager.scores ∧ manager.peers.lookup p = some .connected := by
  have hMem := (shouldPrune_isPrefix manager).subset hPruned
  rw [mem_filter, mem_ranking_iff, decide_eq_true_iff, mem_connectedIds_iff] at hMem
  exact hMem

theorem nodup_shouldPrune : manager.shouldPrune.Nodup := by
  apply (shouldPrune_isPrefix manager).sublist.nodup
  apply List.Nodup.filter
  exact (perm_insertionSort _ _).nodup_iff.mpr manager.scores.keys_nodup

/- A connected peer that is remembered and stays comes later in the ranking. -/
theorem score_le_of_stays {pruned : PeerId} (hIn : p ∈ manager.scores)
    (hConnected : manager.peers.lookup p = some .connected)
    (hStay : p ∉ manager.shouldPrune) (hPruned : pruned ∈ manager.shouldPrune) :
    manager.scoreAt pruned ≤ manager.scoreAt p := by
  rcases shouldPrune_isPrefix manager with ⟨xs, hxs⟩
  have hSorted : manager.ranking.Pairwise fun a b => manager.scoreAt a ≤ manager.scoreAt b :=
    pairwise_insertionSort _ _
  have hPairs := hSorted.filter (· ∈ manager.connectedIds)
  rw [← hxs, pairwise_append] at hPairs
  have hMem : p ∈ manager.ranking.filter (· ∈ manager.connectedIds) := by
    rw [mem_filter, mem_ranking_iff, decide_eq_true_iff, mem_connectedIds_iff]
    exact ⟨hIn, hConnected⟩
  rw [← hxs, mem_append] at hMem
  exact hPairs.2.2 pruned hPruned p (hMem.resolve_left hStay)

omit [DecidableEq PeerId] in
/- The list up to the peer with which the excess is complete. -/
theorem exists_split_of_lt_length_filter {test : PeerId → Bool} {ranked : List PeerId} {m : Nat}
    (hMany : m < (ranked.filter test).length) :
    ∃ front last back, ranked = front ++ last :: back ∧ test last ∧ front.countP test = m := by
  have hSplit := (take_append_drop m (ranked.filter test)).symm
  rw [drop_eq_getElem_cons hMany] at hSplit
  generalize (ranked.filter test)[m] = last at hSplit
  rcases filter_eq_append_iff.mp hSplit with ⟨left, right, rfl, hLeft, hRight⟩
  rcases filter_eq_cons_iff.mp hRight with ⟨gap, back, rfl, hGap, hLast, -⟩
  refine ⟨left ++ gap, last, back, (append_assoc ..).symm, hLast, ?_⟩
  rw [countP_append, countP_eq_zero.mpr hGap, countP_eq_length_filter, hLeft, add_zero,
    length_take_of_le hMany.le]

theorem shouldPrune_of_worstPeers {front more : List PeerId} {last : PeerId}
    (hPart : manager.worstPeers (manager.excess + manager.connectedIds.length) =
      front ++ last :: more)
    (hLast : last ∈ manager.connectedIds)
    (hBefore : front.countP (· ∈ manager.connectedIds) + 1 = manager.excess) :
    manager.shouldPrune = front.filter (· ∈ manager.connectedIds) ++ [last] := by
  rw [countP_eq_length_filter] at hBefore
  rw [shouldPrune_eq_take, candidates, hPart, ← hBefore, filter_append, take_length_add_append]
  simp [hLast]

section

variable {front back : List PeerId} {last : PeerId}
  (hRanking : manager.ranking = front ++ last :: back)
  (hLast : manager.CompletesExcess front last)
include hRanking hLast

theorem shouldPrune_of_completesExcess :
    manager.shouldPrune = front.filter (· ∈ manager.connectedIds) ++ [last] := by
  have hTwo := length_eq_countP_add_countP (· ∈ manager.connectedIds) (l := front)
  have hBefore := hLast.before
  have hOthers := hLast.others
  apply shouldPrune_of_worstPeers _ (mem_connectedIds_iff.mpr hLast.connected) hBefore
  · exact back.take (manager.excess + manager.connectedIds.length - front.length - 1)
  · rw [worstPeers, hRanking, take_append, take_of_length_le (by grind), take_cons (by grind)]

theorem length_shouldPrune_of_completesExcess : manager.shouldPrune.length = manager.excess := by
  rw [shouldPrune_of_completesExcess hRanking hLast, length_append, ← countP_eq_length_filter]
  exact hLast.before

theorem score_le_of_completesExcess {pruned : PeerId} (hPruned : pruned ∈ manager.shouldPrune) :
    manager.scoreAt pruned ≤ manager.scoreAt last := by
  have hSorted : manager.ranking.Pairwise fun a b => manager.scoreAt a ≤ manager.scoreAt b :=
    pairwise_insertionSort _ _
  rw [hRanking, pairwise_append] at hSorted
  rw [shouldPrune_of_completesExcess hRanking hLast, mem_append, mem_singleton] at hPruned
  rcases hPruned with hFront | rfl
  · exact hSorted.2.2 pruned (mem_of_mem_filter hFront) last mem_cons_self
  · exact le_rfl

end

omit [LinearOrder Score] in
theorem scoreAt_of_notMem (hUnknown : p ∉ manager.scores) : manager.scoreAt p = manager.zero := by
  rw [scoreAt, AList.lookup_eq_none.mpr hUnknown, Option.getD_none]

/- A whole excess is taken from the part that is looked at, so one peer completes it there. -/
theorem PrunesWorst.exists_completesExcess (hWorst : manager.PrunesWorst)
    (hExcess : manager.excess ≠ 0) :
    ∃ front last back, manager.ranking = front ++ last :: back ∧
      manager.CompletesExcess front last := by
  have hCount := hWorst.count
  rw [shouldPrune_eq_take, length_take] at hCount
  have hEnough := min_eq_left_iff.mp hCount
  rcases exists_split_of_lt_length_filter (m := manager.excess - 1)
    (show manager.excess - 1 < manager.candidates.length by omega) with
    ⟨front, last, back, hPart, hLast, hFront⟩
  have hLength := congrArg List.length hPart
  have hRanking := take_append_drop (manager.excess + manager.connectedIds.length) manager.ranking
  have hTwo := length_eq_countP_add_countP (· ∈ manager.connectedIds) (l := front)
  rw [← worstPeers, hPart, append_assoc, cons_append] at hRanking
  rw [worstPeers, length_take, length_append, length_cons] at hLength
  have hConnected := mem_connectedIds_iff.mp (of_decide_eq_true hLast)
  refine ⟨front, last, _, hRanking.symm, hConnected, by omega, by grind, ?_⟩
  rintro ⟨peer, hPeer, hUnknown⟩
  have hStay : peer ∉ manager.shouldPrune := fun hMem => hUnknown (mem_of_mem_shouldPrune hMem).1
  rw [← scoreAt_of_notMem hUnknown]
  apply not_lt.mp
  apply hWorst.worst peer hPeer hStay
  rw [shouldPrune_of_worstPeers hPart (of_decide_eq_true hLast) (by omega)]
  exact mem_append_right _ mem_cons_self

/-
  One connected peer has to complete the excess: the connected peers that are ranked before it are
  one less, and the others are no more than all connected peers. If a connected peer is not
  remembered, that peer must not score above zero.
-/
theorem should_prune_worst_iff (manager : PeerManager PeerId Score) :
    manager.PrunesWorst ↔
      manager.excess = 0 ∨
        ∃ front last back, manager.ranking = front ++ last :: back ∧
          manager.CompletesExcess front last := by
  constructor
  · intro hWorst
    by_cases hExcess : manager.excess = 0
    · exact Or.inl hExcess
    · exact Or.inr (hWorst.exists_completesExcess hExcess)
  · rintro (hNone | ⟨front, last, back, hRanking, hLast⟩)
    · have hEmpty : manager.shouldPrune = [] := if_pos hNone
      exact ⟨by simp [hEmpty, hNone], nodup_shouldPrune, by simp [hEmpty], by simp [hEmpty]⟩
    · refine ⟨length_shouldPrune_of_completesExcess hRanking hLast, nodup_shouldPrune,
        fun peer hPruned => (mem_of_mem_shouldPrune hPruned).2, ?_⟩
      intro peer hConnected hStay pruned hPruned
      rw [not_lt]
      by_cases hIn : peer ∈ manager.scores
      · exact score_le_of_stays hIn hConnected hStay hPruned
      · rw [scoreAt_of_notMem hIn]
        exact (score_le_of_completesExcess hRanking hLast hPruned).trans
          (hLast.unknown ⟨peer, hConnected, hIn⟩)

/- Three disconnected peers with low scores, and two connected ones where one is wanted. -/
theorem remembered_peers_stop_pruning :
    let manager : PeerManager Nat Int :=
      { peers := HashTable.putAll ∅ [(1, .connected), (2, .connected)]
        scores := HashTable.putAll ∅ [(1, 0), (2, 5), (3, -1), (4, -1), (5, -1)]
        zero := 0
        targetPeers := 1 }
    manager.excess = 1 ∧ manager.shouldPrune = [] := by
  decide

end PeerManager

end Pharos.Network
