import Pharos.Lib.Sums
import Pharos.Types

/-
  This file implements the queue of orphans, blocks that wait for their parent, and says that it is
  a first-in-first-out queue with two limits.

  The entries stand in a bucket for each parent. Beside the buckets the queue counts the entries of
  each peer, lists them in the order of their arrival, and has their number.

  Main theorems:
  * `orphan_queue_keeps_books`
-/

----
-- Buckets and Counts
----

namespace Pharos.Node

open List AList

abbrev PeerId :=
  Nat

def maxPendingPerPeer : Nat :=
  256

def maxPendingBlocks : Nat :=
  4096

structure PendingEntry where
  peer : PeerId
  blockRoot : Root
  data : List UInt8
  forkDigest : List UInt8

structure PendingInner where
  byParent : HashTable Root (List PendingEntry)
  perPeerCount : HashTable PeerId Nat
  order : List (Root × Root)
  total : Nat

inductive PendingCall where
  | insert (parentRoot : Root) (entry : PendingEntry)
  | drainChildren (parentRoot : Root)

/- An entry, with the parent that it waits for. -/
abbrev Orphan :=
  Root × PendingEntry

/- What a call does: it may accept an entry, and entries may leave. -/
structure Turn (S : Type) where
  state : S
  accepted : List Orphan
  left : List Orphan

namespace PendingInner

def new : PendingInner :=
  ⟨∅, ∅, [], 0⟩

/- One entry less; a peer without entries has no count. -/
def releasePeer (counts : HashTable PeerId Nat) (peer : PeerId) : HashTable PeerId Nat :=
  let count := (counts.lookup peer).getD 0 - 1
  if count = 0 then counts.erase peer else counts.insert peer count

section

variable (inner : PendingInner)

def evictOldest : PendingInner × List Orphan :=
  match inner.order with
  | [] => (inner, [])
  | (parentRoot, blockRoot) :: order =>
    let bucket := (inner.byParent.lookup parentRoot).getD []
    match bucket.find? (·.blockRoot = blockRoot) with
    | none => ({ inner with order }, [])
    | some entry =>
      let bucket := bucket.eraseP (·.blockRoot = blockRoot)
      ({ byParent :=
          if bucket.isEmpty then inner.byParent.erase parentRoot
          else inner.byParent.insert parentRoot bucket
         perPeerCount := releasePeer inner.perPeerCount entry.peer
         order
         total := inner.total - 1 }, [(parentRoot, entry)])

def insert (inner : PendingInner) (parentRoot : Root) (entry : PendingEntry) : Turn PendingInner :=
  let bucket := (inner.byParent.lookup parentRoot).getD []
  let peerCount := (inner.perPeerCount.lookup entry.peer).getD 0
  if bucket.any (·.blockRoot = entry.blockRoot) then
    ⟨inner, [], []⟩
  else if maxPendingPerPeer ≤ peerCount then
    ⟨inner, [], []⟩
  else
    let inner : PendingInner :=
      { byParent := inner.byParent.insert parentRoot (bucket ++ [entry])
        perPeerCount := inner.perPeerCount.insert entry.peer (peerCount + 1)
        order := inner.order ++ [(parentRoot, entry.blockRoot)]
        total := inner.total + 1 }
    if maxPendingBlocks < inner.total then
      ⟨inner.evictOldest.1, [(parentRoot, entry)], inner.evictOldest.2⟩
    else
      ⟨inner, [(parentRoot, entry)], []⟩

def drainChildren (parentRoot : Root) : Turn PendingInner :=
  match inner.byParent.lookup parentRoot with
  | none => ⟨inner, [], []⟩
  | some bucket =>
    let blockRoots := bucket.map PendingEntry.blockRoot
    { state :=
        { byParent := inner.byParent.erase parentRoot
          perPeerCount := (bucket.map PendingEntry.peer).foldl releasePeer inner.perPeerCount
          order := inner.order.filter fun pair => ¬(pair.1 = parentRoot ∧ pair.2 ∈ blockRoots)
          total := inner.total - bucket.length }
      accepted := []
      left := bucket.map (parentRoot, ·) }

def step : PendingCall → Turn PendingInner
| .insert parentRoot entry => inner.insert parentRoot entry
| .drainChildren parentRoot => inner.drainChildren parentRoot

end

end PendingInner

/- The state after some calls, and all that was accepted and has left. -/
def runCalls {S : Type} (step : S → PendingCall → Turn S) (start : S)
    (calls : List PendingCall) : Turn S :=
  calls.foldl
    (fun run call =>
      let turn := step run.state call
      ⟨turn.state, run.accepted ++ turn.accepted, run.left ++ turn.left⟩)
    ⟨start, [], []⟩

----
-- The Queue
----

namespace Orphan

def key (orphan : Orphan) : Root × Root :=
  (orphan.1, orphan.2.blockRoot)

section

variable (queue : List Orphan)

def peers : List PeerId :=
  queue.map fun orphan => orphan.2.peer

def bucket (parentRoot : Root) : List PendingEntry :=
  (queue.filter (·.1 = parentRoot)).map Prod.snd

/- What the calls do to a list of the entries in the order of their arrival. -/
def step : PendingCall → Turn (List Orphan)
| .insert parentRoot entry =>
  if (parentRoot, entry.blockRoot) ∈ queue.map key then
    ⟨queue, [], []⟩
  else if maxPendingPerPeer ≤ (peers queue).count entry.peer then
    ⟨queue, [], []⟩
  else
    let queue := queue ++ [(parentRoot, entry)]
    if maxPendingBlocks < queue.length then
      ⟨queue.tail, [(parentRoot, entry)], queue.take 1⟩
    else
      ⟨queue, [(parentRoot, entry)], []⟩
| .drainChildren parentRoot =>
  ⟨queue.filter (·.1 ≠ parentRoot), [], queue.filter (·.1 = parentRoot)⟩

end

end Orphan

----
-- The Queue in the Buckets
----

section

open Orphan PendingInner

/- Every table has what the list would give. -/
structure Represents (inner : PendingInner) (queue : List Orphan) : Prop where
  byParent : ∀ parentRoot, (inner.byParent.lookup parentRoot).getD [] = bucket queue parentRoot
  perPeer : ∀ peer, (inner.perPeerCount.lookup peer).getD 0 = (peers queue).count peer
  order : inner.order = queue.map key
  total : inner.total = queue.length

structure Turn.Represents (turn : Turn PendingInner) (listed : Turn (List Orphan)) : Prop where
  state : Node.Represents turn.state listed.state
  accepted : turn.accepted = listed.accepted
  left : turn.left = listed.left

variable {inner : PendingInner} {queue : List Orphan}

theorem getD_releasePeer (counts : HashTable PeerId Nat) (released peer : PeerId) :
    ((releasePeer counts released).lookup peer).getD 0 =
      (counts.lookup peer).getD 0 - if released = peer then 1 else 0 := by
  unfold releasePeer
  dsimp only
  by_cases hEq : peer = released
  · subst hEq
    split
    · rename_i hNone
      simp [hNone]
    · simp
  · rw [if_neg (Ne.symm hEq)]
    split
    · rw [lookup_erase_ne hEq, Nat.sub_zero]
    · rw [lookup_insert_ne hEq, Nat.sub_zero]

theorem getD_foldl_releasePeer (counts : HashTable PeerId Nat) (released : List PeerId)
    (peer : PeerId) :
    ((released.foldl releasePeer counts).lookup peer).getD 0 =
      (counts.lookup peer).getD 0 - released.count peer := by
  induction released generalizing counts with
  | nil => rfl
  | cons a xs ih =>
    rw [foldl_cons, ih, getD_releasePeer, count_cons]
    simp only [beq_iff_eq]
    omega

theorem bucket_cons (orphan : Orphan) (queue : List Orphan) (parentRoot : Root) :
    bucket (orphan :: queue) parentRoot =
      if orphan.1 = parentRoot then orphan.2 :: bucket queue parentRoot
      else bucket queue parentRoot := by
  unfold bucket
  by_cases hEq : orphan.1 = parentRoot
  · simp [hEq]
  · simp [hEq]

/- The first of the order is the first of its bucket. -/
theorem represents_evictOldest {oldest : Orphan} (hQueue : Represents inner (oldest :: queue)) :
    Represents inner.evictOldest.1 queue ∧ inner.evictOldest.2 = [oldest] := by
  have hBucket := hQueue.byParent oldest.1
  rw [bucket_cons, if_pos rfl] at hBucket
  unfold evictOldest
  rw [hQueue.order]
  simp only [map_cons, key, hBucket, find?_cons_of_pos, decide_true, eraseP_cons_of_pos]
  refine ⟨⟨fun parentRoot => ?_, fun peer => ?_, rfl, ?_⟩, trivial⟩
  · by_cases hEq : parentRoot = oldest.1
    · rw [hEq]
      cases bucket queue oldest.1 with
      | nil | cons a xs => simp
    · have hx := hQueue.byParent parentRoot
      rw [bucket_cons, if_neg (Ne.symm hEq)] at hx
      split
      · rw [lookup_erase_ne hEq, hx]
      · rw [lookup_insert_ne hEq, hx]
  · dsimp only
    rw [getD_releasePeer, hQueue.perPeer, peers, map_cons, count_cons]
    simp [peers]
  · simp [hQueue.total]

namespace Represents

variable (hQueue : Represents inner queue)
include hQueue

theorem sum_byParent : (inner.byParent.entries.map fun e => e.2.length).sum = queue.length := by
  refine (Sums.sum_counts fun parentRoot => ?_).trans (length_map Prod.fst)
  have hLen : ((inner.byParent.lookup parentRoot).map List.length).getD 0 =
      ((inner.byParent.lookup parentRoot).getD []).length := by
    cases inner.byParent.lookup parentRoot <;> rfl
  rw [hLen, hQueue.byParent, bucket, length_map, ← countP_eq_length_filter, List.count, countP_map]
  rfl

theorem sum_perPeer : (inner.perPeerCount.entries.map Sigma.snd).sum = queue.length := by
  have hSum : (inner.perPeerCount.entries.map fun e => id e.2).sum =
      (peers queue).length := Sums.sum_counts fun peer => by rw [Option.map_id, id, hQueue.perPeer]
  rwa [peers, length_map] at hSum

theorem push (parentRoot : Root) (e : PendingEntry) :
    Represents
      { byParent := inner.byParent.insert parentRoot (bucket queue parentRoot ++ [e])
        perPeerCount := inner.perPeerCount.insert e.peer ((peers queue).count e.peer + 1)
        order := inner.order ++ [(parentRoot, e.blockRoot)]
        total := queue.length + 1 }
      (queue ++ [(parentRoot, e)]) where
  byParent parent := by
    by_cases hEq : parent = parentRoot
    · subst hEq
      simp [bucket]
    · simp [lookup_insert_ne hEq, hQueue.byParent, bucket, Ne.symm hEq]
  perPeer peer := by
    by_cases hEq : peer = e.peer
    · subst hEq
      simp [peers]
    · simp [lookup_insert_ne hEq, hQueue.perPeer, peers, Ne.symm hEq]
  order := by simp [hQueue.order, key]
  total := by simp

theorem insert (parentRoot : Root) (e : PendingEntry) :
    (inner.insert parentRoot e).Represents (Orphan.step queue (.insert parentRoot e)) := by
  have hThere : (bucket queue parentRoot).any (·.blockRoot = e.blockRoot) = true ↔
      (parentRoot, e.blockRoot) ∈ queue.map key := by
    simp [bucket, key]
  have hPushed := hQueue.push parentRoot e
  unfold PendingInner.insert Orphan.step
  simp only [hQueue.byParent, hQueue.perPeer, hThere, hQueue.total, length_append, length_singleton]
  split
  · exact ⟨hQueue, rfl, rfl⟩
  · split
    · exact ⟨hQueue, rfl, rfl⟩
    · split
      · cases hShape : queue ++ [(parentRoot, e)] with
        | nil => simp at hShape
        | cons oldest xs =>
          rw [hShape] at hPushed
          rcases represents_evictOldest hPushed with ⟨hxs, hEvicted⟩
          exact ⟨hxs, rfl, hEvicted⟩
      · exact ⟨hPushed, rfl, rfl⟩

theorem drainChildren (parentRoot : Root) : (inner.drainChildren parentRoot).Represents
      (Orphan.step queue (.drainChildren parentRoot)) := by
  have hBucket := hQueue.byParent parentRoot
  have hSplit := filter_append_perm (fun orphan => decide (orphan.1 = parentRoot)) queue
  unfold PendingInner.drainChildren Orphan.step
  dsimp only
  split
  · rename_i hNone
    rw [hNone, Option.getD_none, bucket, eq_comm, map_eq_nil_iff] at hBucket
    rw [hBucket, filter_eq_self.mpr]
    · exact ⟨hQueue, rfl, rfl⟩
    · intro orphan hMem
      simpa using filter_eq_nil_iff.mp hBucket orphan hMem
  · rename_i y hGot
    rw [hGot, Option.getD_some] at hBucket
    subst hBucket
    have hLeft : ∀ orphan ∈ queue.filter (·.1 = parentRoot), (parentRoot, orphan.2) = orphan := by
      simp +contextual [eq_comm]
    refine ⟨⟨fun parent => ?_, fun peer => ?_, ?_, ?_⟩, rfl, ?_⟩
    · by_cases hEq : parent = parentRoot
      · subst hEq
        simp [bucket]
      · dsimp only
        rw [lookup_erase_ne hEq, hQueue.byParent, bucket, bucket, filter_filter]
        congr 1
        apply filter_congr
        intro orphan _
        by_cases hPar : orphan.1 = parent
        · simp [hPar, hEq]
        · simp [hPar]
    · have hCount := (hSplit.map fun orphan => orphan.2.peer).count_eq peer
      rw [getD_foldl_releasePeer, hQueue.perPeer, peers, ← hCount]
      simp [bucket, peers, Function.comp_def]
    · dsimp only
      rw [hQueue.order, filter_map]
      congr 1
      apply filter_congr
      intro orphan hMem
      by_cases hPar : orphan.1 = parentRoot
      · have hDrained : orphan.2.blockRoot ∈ (bucket queue parentRoot).map PendingEntry.blockRoot :=
          mem_map_of_mem (mem_map_of_mem (mem_filter.mpr ⟨hMem, by simpa⟩))
        rw [Function.comp_apply, key, decide_eq_false (not_not_intro ⟨hPar, hDrained⟩),
          decide_eq_false (not_not_intro hPar)]
      · simp [key, hPar]
    · have hLen := hSplit.length_eq
      simp only [hQueue.total, ← hLen]
      simp [bucket]
    · dsimp only
      rw [bucket, map_map]
      exact (map_congr_left hLeft).trans (map_id _)

theorem step (call : PendingCall) : (inner.step call).Represents (Orphan.step queue call) := by
  cases call with
  | insert parentRoot e => exact hQueue.insert parentRoot e
  | drainChildren parentRoot => exact hQueue.drainChildren parentRoot

end Represents

----
-- Runs
----

/- No entry twice, and both limits. -/
structure Bounded (queue : List Orphan) : Prop where
  nodup : (queue.map key).Nodup
  perPeer : ∀ peer, (peers queue).count peer ≤ maxPendingPerPeer
  total : queue.length ≤ maxPendingBlocks

theorem Bounded.step (hBounded : Bounded queue) (call : PendingCall) :
    Bounded (Orphan.step queue call).state := by
  cases call with
  | insert parentRoot e =>
    unfold Orphan.step
    dsimp only
    split
    · exact hBounded
    · rename_i hNew
      split
      · exact hBounded
      · rename_i hRoom
        have hNodup : ((queue ++ [(parentRoot, e)]).map key).Nodup := by
          rw [map_append, map_singleton, ← concat_eq_append]
          exact hBounded.nodup.concat hNew
        have hPerPeer : ∀ peer,
            (peers (queue ++ [(parentRoot, e)])).count peer ≤ maxPendingPerPeer := by
          intro peer
          by_cases hEq : e.peer = peer
          · subst hEq
            simpa [peers, Nat.succ_le_iff] using hRoom
          · simpa [peers, hEq] using hBounded.perPeer peer
        split
        · have hTail := tail_sublist (queue ++ [(parentRoot, e)])
          refine ⟨hNodup.sublist (hTail.map key), fun peer => ?_, ?_⟩
          · exact ((hTail.map _).count_le peer).trans (hPerPeer peer)
          · simpa using hBounded.total
        · rename_i hTotal
          exact ⟨hNodup, hPerPeer, not_lt.mp hTotal⟩
  | drainChildren parentRoot =>
    have hxs : (queue.filter (·.1 ≠ parentRoot)).Sublist queue := filter_sublist
    exact ⟨hBounded.nodup.sublist (hxs.map key),
      fun peer => ((hxs.map _).count_le peer).trans (hBounded.perPeer peer),
      hxs.length_le.trans hBounded.total⟩

/- What was in the queue or is accepted leaves it or stays. -/
theorem perm_step (queue : List Orphan) (call : PendingCall) :
    (queue ++ (Orphan.step queue call).accepted).Perm
      ((Orphan.step queue call).left ++ (Orphan.step queue call).state) := by
  cases call with
  | insert parentRoot e =>
    unfold Orphan.step
    dsimp only
    split
    · simp
    · split
      · simp
      · split
        · rw [← drop_one, take_append_drop]
        · simp
  | drainChildren parentRoot =>
    have hSplit := filter_append_perm (fun orphan => decide (orphan.1 = parentRoot)) queue
    simpa [Orphan.step] using hSplit.symm

theorem represents_run (calls : List PendingCall) :
    let listed := runCalls Orphan.step [] calls
    (runCalls PendingInner.step .new calls).Represents listed ∧ Bounded listed.state ∧
      listed.accepted.Perm (listed.left ++ listed.state) := by
  induction calls using List.reverseRecOn with
  | nil =>
    exact ⟨⟨⟨fun _ => rfl, fun _ => rfl, rfl, rfl⟩, rfl, rfl⟩,
      ⟨nodup_nil, fun _ => Nat.zero_le _, Nat.zero_le _⟩, .refl _⟩
  | append_singleton calls call ih =>
    rcases ih with ⟨hRun, hBounded, hPerm⟩
    simp only [runCalls, foldl_concat] at *
    have hStep := hRun.state.step call
    refine ⟨⟨hStep.state, ?_, ?_⟩, hBounded.step call, ?_⟩
    · rw [hRun.accepted, hStep.accepted]
    · rw [hRun.left, hStep.left]
    · rw [append_assoc]
      refine (hPerm.append_right _).trans ?_
      rw [append_assoc]
      exact (perm_step _ call).append_left _

/-
  The tables stay in step with a list of the entries in the order of their arrival, within both
  limits. What is accepted leaves it once: with all others that wait for the same parent, or as the
  oldest when there are too many.
-/
theorem orphan_queue_keeps_books (calls : List PendingCall) :
    let run := runCalls PendingInner.step .new calls
    let inner := run.state
    let listed := runCalls Orphan.step [] calls
    let queue := listed.state
    run.accepted = listed.accepted ∧ run.left = listed.left ∧
      run.accepted.Perm (run.left ++ queue) ∧
      (∀ parentRoot, (inner.byParent.lookup parentRoot).getD [] = bucket queue parentRoot) ∧
      inner.order = queue.map key ∧ (queue.map key).Nodup ∧
      inner.total = (inner.byParent.entries.map fun e => e.2.length).sum ∧
      inner.total = inner.order.length ∧
      inner.total = (inner.perPeerCount.entries.map Sigma.snd).sum ∧
      inner.total ≤ maxPendingBlocks ∧
      ∀ peer, (inner.perPeerCount.lookup peer).getD 0 = (peers queue).count peer ∧
        (peers queue).count peer ≤ maxPendingPerPeer := by
  rcases represents_run calls with ⟨hRun, hBounded, hPerm⟩
  have hQueue := hRun.state
  dsimp only
  rw [hRun.accepted, hRun.left]
  refine ⟨rfl, rfl, hPerm, hQueue.byParent, hQueue.order, hBounded.nodup, ?_, ?_, ?_, ?_,
    fun peer => ⟨hQueue.perPeer peer, hBounded.perPeer peer⟩⟩
  · rw [hQueue.total, hQueue.sum_byParent]
  · rw [hQueue.total, hQueue.order, length_map]
  · rw [hQueue.total, hQueue.sum_perPeer]
  · rw [hQueue.total]
    exact hBounded.total

end

end Pharos.Node
