import Pharos.ForkChoice.InvalidPruning
import Pharos.ForkChoice.Optimistic

/-
  This file proves which blocks an invalid payload takes down: the one that the last valid hash
  points to, and all that descend from it.

  The walk to it stops before the default root, which stands for no parent. It begins at the block
  in question itself, whose own hash is therefore the first to match.

  Main theorems:
  * `invalidation_exact`
-/

----
-- The Block to Blame
----

namespace Pharos.ForkChoice

open Sample

section

open Forest

variable {S : Type} {store : Store S}

section

variable (store : Store S)

def isExecutionBlock (root : Root) : Bool :=
  match store.blocks.lookup root with
  | none => false
  | some block => blockIsExecutionEnabled block

def NoPayload (cur : Root) : Prop :=
  ∀ above, Ancestor (walkParent store.blocks) above cur → isExecutionBlock store above = false

/- The block on the walk from which on payloads are live. -/
structure FirstPayload (cur root : Root) : Prop where
  ancestor : Ancestor (walkParent store.blocks) root cur
  live : isExecutionBlock store root = true
  first : ∀ above, Ancestor (walkParent store.blocks) above root →
    isExecutionBlock store above = true → above = root

abbrev NearestWithHash (hash : Hash256) : Root → Root → Prop :=
  Nearest (walkParent store.blocks) fun root =>
    executionBlockHashAtRoot store root = hash

def IsAfterValid (hash : Hash256) (blockInQuestion root : Root) : Prop :=
  (root = blockInQuestion ∧ ∀ above, Ancestor (walkParent store.blocks) above blockInQuestion →
    executionBlockHashAtRoot store above ≠ hash) ∨
  ∃ valid, NearestWithHash store hash blockInQuestion valid ∧
    (valid = blockInQuestion ∧ root = blockInQuestion ∨ walkParent store.blocks root = some valid ∧
    Ancestor (walkParent store.blocks) root blockInQuestion)

def IsInvalidBlock (blockInQuestion : Root) : Option Hash256 → Root → Prop
| none, root => root = blockInQuestion
| some hash, root =>
  if hash = defaultHash then
    FirstPayload store blockInQuestion root ∨
      NoPayload store blockInQuestion ∧ root = blockInQuestion
  else
    IsAfterValid store hash blockInQuestion root

end

theorem parentOf_of_walkParent {blks : HashMap Root BeaconBlock} {r up : Root}
    (hWalk : walkParent blks r = some up) : parentOf blks r = some up := by
  unfold walkParent at hWalk
  split at hWalk
  · cases hWalk
  · rename_i blk hBlk
    split at hWalk
    · cases hWalk
    · exact parentOf_some_iff.mpr ⟨blk, hBlk, Option.some.inj hWalk⟩

theorem ParentLinked.walk_ranked {blks : HashMap Root BeaconBlock}
    (hLinked : ParentLinked blks) :
    ∃ height, Ranked (walkParent blks) height ∧ ∀ r, height r ≤ blks.keys.length := by
  rcases hLinked with ⟨rank, hRank⟩
  have hWalks : Ranked (walkParent blks) rank := by
    intro c up hWalk
    exact hRank c up (parentOf_of_walkParent hWalk)
  apply hWalks.exists_bounded_rank
  intro c up hWalk
  exact mem_of_parentOf (parentOf_of_walkParent hWalk)

----
-- The Walks
----

variable {height : Root → Nat} {fuel : Nat} {cur par : Root}

theorem firstPayload_or_noPayload (store : Store S) (firstExec : Option Root)
    (hPlain : ∀ above, Ancestor (walkParent store.blocks) above cur →
      above = cur ∨ isExecutionBlock store above = false) :
    (∃ r, (if isExecutionBlock store cur then some cur else firstExec) = some r ∧
        FirstPayload store cur r) ∨
      (if isExecutionBlock store cur then some cur else firstExec) = firstExec ∧
        NoPayload store cur := by
  cases hLive : isExecutionBlock store cur with
  | true =>
    refine .inl ⟨cur, rfl, .refl cur, hLive, ?_⟩
    intro above hAbove hx
    rcases hPlain above hAbove with hEq | hNot
    · exact hEq
    · rw [hNot] at hx
      cases hx
  | false =>
    refine .inr ⟨rfl, ?_⟩
    intro above hAbove
    rcases hPlain above hAbove with hEq | hNot
    · rw [hEq]
      exact hLive
    · exact hNot

section

variable (hRank : Ranked (walkParent store.blocks) height)
include hRank

theorem deepestExecutionBlock_cases (hFuel : height cur < fuel) (firstExec : Option Root) : (∃ r,
      deepestExecutionBlock store fuel cur firstExec = some r ∧ FirstPayload store cur r) ∨
    deepestExecutionBlock store fuel cur firstExec = firstExec ∧ NoPayload store cur := by
  induction fuel generalizing cur firstExec with
  | zero => omega
  | succ fuel ih =>
    rw [deepestExecutionBlock]
    cases hBlk : store.blocks.lookup cur with
    | none =>
      refine .inr ⟨rfl, ?_⟩
      intro above hAbove
      have hEnd : walkParent store.blocks cur = none := by
        rw [walkParent, hBlk]
      rw [hAbove.eq_of_none hEnd, isExecutionBlock, hBlk]
    | some blk =>
      have hHere : isExecutionBlock store cur = blockIsExecutionEnabled blk := by
        rw [isExecutionBlock, hBlk]
      dsimp only
      rw [← hHere]
      cases hWalk : walkParent store.blocks cur with
      | none =>
        exact firstPayload_or_noPayload store firstExec fun above hAbove =>
          .inl (hAbove.eq_of_none hWalk)
      | some par =>
        have hLess := hRank cur par hWalk
        have hShorter : height par < fuel := by omega
        dsimp only
        rcases ih hShorter _ with ⟨r, hr, hFst⟩ | ⟨hGot, hAbove⟩
        · exact .inl ⟨r, hr, hFst.ancestor.trans (.of_parent hWalk), hFst.live, hFst.first⟩
        · rw [hGot]
          exact firstPayload_or_noPayload store firstExec fun above hOver =>
            (hOver.eq_or_up hWalk).imp_right (hAbove above)

theorem childOfLatestValid_cases (hash : Hash256) (hFuel : height cur < fuel)
    (prevChild : Option Root) :
    (executionBlockHashAtRoot store cur = hash ∧
      childOfLatestValid store hash fuel cur prevChild = prevChild) ∨
    (∃ valid c,
      childOfLatestValid store hash fuel cur prevChild = some c ∧
        NearestWithHash store hash cur valid ∧
        walkParent store.blocks c = some valid ∧
        Ancestor (walkParent store.blocks) c cur) ∨
    childOfLatestValid store hash fuel cur prevChild = none ∧
      ∀ above, Ancestor (walkParent store.blocks) above cur →
        executionBlockHashAtRoot store above ≠ hash := by
  induction fuel generalizing cur prevChild with
  | zero => omega
  | succ fuel ih =>
    rw [childOfLatestValid]
    by_cases hHere : executionBlockHashAtRoot store cur = hash
    · exact .inl ⟨hHere, if_pos hHere⟩
    · rw [if_neg hHere]
      refine .inr ?_
      cases hWalk : walkParent store.blocks cur with
      | none =>
        refine .inr ⟨rfl, ?_⟩
        intro above hAbove
        rw [hAbove.eq_of_none hWalk]
        exact hHere
      | some par =>
        have hLess := hRank cur par hWalk
        have hShorter : height par < fuel := by omega
        rcases ih hShorter (some cur) with ⟨hMatch, hKid⟩ |
          ⟨valid, c, hKid, hNearest, hUp, hAbove⟩ | ⟨hNone, hx⟩
        · exact .inl ⟨par, cur, hKid, Nearest.of_parent hHere hWalk
            (Nearest.self hMatch), hWalk, .refl cur⟩
        · exact .inl ⟨valid, c, hKid, Nearest.of_parent hHere hWalk hNearest, hUp,
            hAbove.trans (.of_parent hWalk)⟩
        · refine .inr ⟨hNone, ?_⟩
          intro above hAbove
          rcases hAbove.eq_or_up hWalk with hEq | hxs
          · rw [hEq]
            exact hHere
          · exact hx above hxs

----
-- Exactly One Block
----

theorem isInvalidBlock_resolve (hFuel : height cur < fuel) (validHash : Option Hash256) :
    IsInvalidBlock store cur validHash (resolveInvalidBlockWithin fuel store cur validHash) := by
  cases validHash with
  | none => exact rfl
  | some hash =>
    unfold resolveInvalidBlockWithin IsInvalidBlock
    dsimp only
    by_cases hZero : hash = defaultHash
    · rw [if_pos hZero, if_pos hZero]
      rcases deepestExecutionBlock_cases hRank hFuel none with ⟨r, hr, hFst⟩ | ⟨hGot, hNone⟩
      · rw [hr]
        exact .inl hFst
      · rw [hGot]
        exact .inr ⟨hNone, rfl⟩
    · rw [if_neg hZero, if_neg hZero]
      rcases childOfLatestValid_cases hRank hash hFuel none with ⟨hMatch, hGot⟩ |
        ⟨valid, c, hGot, hNearest, hPath⟩ | ⟨hGot, hx⟩
      · rw [hGot]
        exact .inr ⟨cur, Nearest.self hMatch, .inl ⟨rfl, rfl⟩⟩
      · rw [hGot]
        exact .inr ⟨valid, hNearest, .inr hPath⟩
      · rw [hGot]
        exact .inl ⟨rfl, hx⟩

end

theorem FirstPayload.unique {a b : Root} (hFst : FirstPayload store cur a)
    (hSnd : FirstPayload store cur b) : a = b := by
  rcases hFst.ancestor.total hSnd.ancestor with hOver | hUnder
  · exact hSnd.first a hOver hFst.live
  · exact (hFst.first b hUnder hSnd.live).symm

theorem FirstPayload.not_noPayload {r : Root} (hFst : FirstPayload store cur r) :
    ¬NoPayload store cur := by
  intro hNone
  have hLive := hFst.live
  rw [hNone r hFst.ancestor] at hLive
  cases hLive

theorem IsAfterValid.unique (hRank : Ranked (walkParent store.blocks) height) {hash : Hash256}
    {a b : Root} (hFst : IsAfterValid store hash cur a)
    (hSnd : IsAfterValid store hash cur b) : a = b := by
  rcases hFst with ⟨hFst, hNone⟩ | ⟨valid, hValid, hFst⟩
  · rcases hSnd with ⟨hSnd, _⟩ | ⟨valid, hValid, _⟩
    · rw [hFst, hSnd]
    · exact absurd hValid.holds (hNone valid hValid.ancestor)
  · rcases hSnd with ⟨_, hNone⟩ | ⟨x, hx, hSnd⟩
    · exact absurd hValid.holds (hNone valid hValid.ancestor)
    · have hEq : x = valid := hRank.ancestor_antisymm (hValid.first x hx.ancestor hx.holds)
        (hx.first valid hValid.ancestor hValid.holds)
      subst hEq
      rcases hFst with ⟨hSelf, hFst⟩ | ⟨hUp, hPath⟩
      · rcases hSnd with ⟨_, hSnd⟩ | ⟨hUp, hPath⟩
        · rw [hFst, hSnd]
        · rw [hSelf] at hUp
          exact absurd hPath (hRank.not_ancestor_of_parent hUp)
      · rcases hSnd with ⟨hSelf, _⟩ | ⟨hUp', hPath'⟩
        · rw [hSelf] at hUp
          exact absurd hPath (hRank.not_ancestor_of_parent hUp)
        · exact hRank.sibling_eq hUp hUp' hPath hPath'

theorem IsInvalidBlock.unique (hRank : Ranked (walkParent store.blocks) height)
    {valid : Option Hash256} {a b : Root}
    (hFst : IsInvalidBlock store cur valid a)
    (hSnd : IsInvalidBlock store cur valid b) : a = b := by
  cases valid with
  | none => exact Eq.trans hFst (Eq.symm hSnd)
  | some hash =>
    unfold IsInvalidBlock at hFst hSnd
    dsimp only at hFst hSnd
    by_cases hZero : hash = defaultHash
    · rw [if_pos hZero] at hFst hSnd
      rcases hFst with hFst | ⟨hNone, hFst⟩
      · rcases hSnd with hSnd | ⟨hNone, _⟩
        · exact hFst.unique hSnd
        · exact absurd hNone hFst.not_noPayload
      · rcases hSnd with hSnd | ⟨_, hSnd⟩
        · exact absurd hNone hSnd.not_noPayload
        · rw [hFst, hSnd]
    · rw [if_neg hZero] at hFst hSnd
      exact hFst.unique hRank hSnd

----
-- The Descendants
----

/- No loop is cut off by the number of the blocks. -/
theorem applyInvalidPayloadWithin_eq (hLinked : ParentLinked store.blocks)
    (blockInQuestion : Root) (valid : Option Hash256)
    (hFuel : store.blocks.keys.length < fuel) :
    applyInvalidPayloadWithin fuel store blockInQuestion valid =
      applyInvalidPayload store blockInQuestion valid := by
  rcases hLinked.walk_ranked with ⟨height, hRank, hHeight⟩
  have hShort := hHeight blockInQuestion
  have hEq : resolveInvalidBlockWithin fuel store blockInQuestion valid =
      resolveInvalidBlock store blockInQuestion valid :=
      (isInvalidBlock_resolve hRank (lt_of_le_of_lt hShort hFuel) valid).unique hRank
      (isInvalidBlock_resolve hRank (Nat.lt_succ_of_le hShort) valid)
  rcases hLinked with ⟨rank, hBlks⟩
  have hVisits : ∀ s₀, bfs (childrenIndex store.blocks) fuel [s₀] =
      bfs (childrenIndex store.blocks) (store.blocks.keys.length + 1) [s₀] :=
    hBlks.bfs_eq_of_le (fun _ _ => mem_childrenIndex_iff) nodup_childrenIndex
      (fun c up hPar => List.mem_toFinset.mpr (mem_of_parentOf hPar))
      (Nat.lt_succ_of_le (List.toFinset_card_le _)) hFuel
  unfold applyInvalidPayload applyInvalidPayloadWithin
  dsimp only
  rw [hEq, hVisits]
  rfl

/-
  All loops end. One block is to blame; it and its descendants become invalid, and nothing else
  changes.
-/
theorem invalidation_exact (hLinked : ParentLinked store.blocks) (blockInQuestion : Root)
    (latestValidHash : Option Hash256) :
    (∀ fuel > store.blocks.keys.length,
      applyInvalidPayloadWithin fuel store blockInQuestion latestValidHash =
        applyInvalidPayload store blockInQuestion latestValidHash) ∧
    ∃ invalidRoot payloadStatuses,
      (∀ root, IsInvalidBlock store blockInQuestion latestValidHash root ↔ root = invalidRoot) ∧
      applyInvalidPayload store blockInQuestion latestValidHash = { store with payloadStatuses } ∧
      ∀ root,
        (Ancestor (parentOf store.blocks) invalidRoot root →
          payloadStatuses.lookup root = some .invalid) ∧
        (¬Ancestor (parentOf store.blocks) invalidRoot root →
          payloadStatuses.lookup root = store.payloadStatuses.lookup root) := by
  refine ⟨fun fuel hFuel => applyInvalidPayloadWithin_eq hLinked
    blockInQuestion latestValidHash hFuel, ?_⟩
  rcases hLinked.walk_ranked with ⟨height, hRank, hHeight⟩
  have hBlamed : IsInvalidBlock store blockInQuestion latestValidHash
      (resolveInvalidBlock store blockInQuestion latestValidHash) :=
      isInvalidBlock_resolve hRank (Nat.lt_succ_of_le (hHeight blockInQuestion)) latestValidHash
  have hApplied : ∃ payloadStatuses,
      applyInvalidPayload store blockInQuestion latestValidHash = { store with payloadStatuses } :=
    exists_foldl_mark _ _
  rcases hApplied with ⟨payloadStatuses, hApplied⟩
  refine ⟨resolveInvalidBlock store blockInQuestion latestValidHash,
    payloadStatuses, ?_, hApplied, ?_⟩
  · intro root
    constructor
    · intro hr
      exact hr.unique hRank hBlamed
    · rintro rfl
      exact hBlamed
  · intro root
    have hMarked := lookup_applyInvalid hLinked blockInQuestion root latestValidHash
    rw [hApplied] at hMarked
    exact hMarked

end

----
-- A Hash That Matches Twice
----

def repeatedHash : Store ChainState :=
  storeWith
    [{ openBlock with executionBlockHash := some 7 }, invalidBlock,
      { child invalidRoot 3 1 [] with executionBlockHash := some 7 }] []

def repeatingRoot : Root :=
  treeHashRoot (child invalidRoot 3 1 [])

theorem invalidation_exact_repeatedHash : ParentLinked repeatedHash.blocks ∧ ∃ invalidRoot, ∀ root,
      IsInvalidBlock repeatedHash repeatingRoot (some 7) root ↔ root = invalidRoot := by
  have hLinked : ParentLinked repeatedHash.blocks := parentLinked_of_parentRoot_lt (by decide)
  rcases (invalidation_exact hLinked repeatingRoot (some 7)).2 with ⟨invalidRoot, _, hBad, _⟩
  exact ⟨hLinked, invalidRoot, hBad⟩

/-
  The child of the nearest ancestor with the hash is spared: the hash of the block in question is
  found first.
-/
theorem repeated_hash_spares_child :
    ParentLinked repeatedHash.blocks ∧ repeatingRoot ∈ repeatedHash.blocks ∧
      parentOf repeatedHash.blocks repeatingRoot = some invalidRoot ∧
      executionBlockHashAtRoot repeatedHash invalidRoot ≠ 7 ∧
      parentOf repeatedHash.blocks invalidRoot = some openRoot ∧
      executionBlockHashAtRoot repeatedHash openRoot = 7 ∧
      (applyInvalidPayload repeatedHash repeatingRoot
        (some 7)).payloadStatuses.lookup invalidRoot ≠ some .invalid :=
  ⟨parentLinked_of_parentRoot_lt (by decide), by decide, by decide,
    by decide, by decide, by decide, by decide⟩

end Pharos.ForkChoice
