import Pharos.ForkChoice.GetHead

/-
  This file implements optimistic sync: which blocks count as verified, and how a verdict of the
  execution layer spreads over the tree of blocks.
-/

----
-- Verified Blocks
----

namespace Pharos.ForkChoice

open Forest

variable {S : Type}

def safeSlotsToImportOptimistically : Nat := 128

variable (store : Store S)

/- A block may be imported before its payload is verified. -/
def isOptimisticCandidateBlock (currentSlot : Slot) (parentRoot : Root) (blockSlot : Slot) : Bool :=
  let parentIsExecution :=
    match store.blocks.lookup parentRoot with
    | some parent => blockIsExecutionEnabled parent
    | none => false
  parentIsExecution || blockSlot + safeSlotsToImportOptimistically ≤ currentSlot

/- A known block whose payload has not been verified. -/
def isOptimistic (root : Root) : Bool :=
  match store.blocks.lookup root with
  | none => false
  | some block => blockIsExecutionEnabled block && store.payloadStatuses.lookup root ≠ some .valid

def executionBlockHashAtRoot (root : Root) : Hash256 :=
  match store.blocks.lookup root with
  | none => defaultHash
  | some block => block.executionBlockHash.getD defaultHash

def walkParent (blocks : HashMap Root BeaconBlock) (root : Root) : Option Root :=
  match blocks.lookup root with
  | none => none
  | some block =>
    if block.parentRoot = defaultRoot ∨ block.parentRoot = root then
      none
    else
      some block.parentRoot

----
-- The Invalid Block
----

/- The last block with a live payload on the walk. -/
def deepestExecutionBlock (store : Store S) : Nat → Root → Option Root → Option Root
| 0, _, firstExec => firstExec
| fuel + 1, cur, firstExec =>
  match store.blocks.lookup cur with
  | none => firstExec
  | some block =>
    let found :=
      if blockIsExecutionEnabled block then some cur else firstExec
    match walkParent store.blocks cur with
    | none => found
    | some parent => deepestExecutionBlock store fuel parent found

def childOfLatestValid (store : Store S) (latestValidHash : Hash256) :
    Nat → Root → Option Root → Option Root
| 0, _, _ => none
| fuel + 1, cur, prevChild =>
  if executionBlockHashAtRoot store cur = latestValidHash then
    prevChild
  else
    match walkParent store.blocks cur with
    | none => none
    | some parent => childOfLatestValid store latestValidHash fuel parent (some cur)

def resolveInvalidBlockWithin (fuel : Nat) (store : Store S) (blockInQuestion : Root)
    (latestValidHash : Option Hash256) : Root :=
  match latestValidHash with
  | none => blockInQuestion
  | some hash =>
    if hash = defaultHash then
      (deepestExecutionBlock store fuel blockInQuestion none).getD blockInQuestion
    else
      (childOfLatestValid store hash fuel blockInQuestion none).getD blockInQuestion

/- The block to blame. A walk takes at most as many steps as there are blocks. -/
def resolveInvalidBlock (blockInQuestion : Root) (latestValidHash : Option Hash256) : Root :=
  resolveInvalidBlockWithin (store.blocks.keys.length + 1) store blockInQuestion latestValidHash

----
-- Spreading a Verdict
----

def promoteFrom : Nat → Store S → Root → Store S
| 0, store, _ => store
| fuel + 1, store, cur =>
  match store.payloadStatuses.lookup cur with
  -- The ancestors of a valid block are taken as promoted.
  | some .valid => store
  | some .invalid => store
  | some .notValidated | none =>
    let marked := store.markPayloadStatus cur .valid
    match walkParent marked.blocks cur with
    | none => marked
    | some parent => promoteFrom fuel marked parent

def promoteValidAncestors (root : Root) : Store S :=
  promoteFrom (store.blocks.keys.length + 1) store root

def verifiedFrom (store : Store S) : Nat → Root → Root
| 0, cur => cur
| fuel + 1, cur =>
  if !isOptimistic store cur then
    cur
  else
    match store.blocks.lookup cur with
    | none => store.finalizedCheckpoint.root
    | some _ =>
    match walkParent store.blocks cur with
    | none => cur
    | some parent =>
      if parent ∉ store.blocks then
        store.finalizedCheckpoint.root
      else
        verifiedFrom store fuel parent

/- The first block towards the anchor that is verified. -/
def latestVerifiedAncestor (root : Root) : Root :=
  verifiedFrom store (store.blocks.keys.length + 1) root

def applyInvalidPayloadWithin (fuel : Nat) (store : Store S) (blockInQuestion : Root)
    (latestValidHash : Option Hash256) : Store S :=
  let invalidRoot := resolveInvalidBlockWithin fuel store blockInQuestion latestValidHash
  let visited := bfs (childrenIndex store.blocks) fuel [invalidRoot]
  visited.foldl (fun marked root => marked.markPayloadStatus root .invalid) store

def applyInvalidPayload (blockInQuestion : Root) (latestValidHash : Option Hash256) : Store S :=
  applyInvalidPayloadWithin (store.blocks.keys.length + 1) store blockInQuestion latestValidHash

----
-- What the Verdicts Become
----

variable {st : Store S}

@[simp] theorem blocks_mark (r : Root) (status : PayloadStatus) :
    (st.markPayloadStatus r status).blocks = st.blocks :=
  rfl

theorem lookup_mark (r x : Root) (status : PayloadStatus) :
    (st.markPayloadStatus r status).payloadStatuses.lookup x =
      if x = r then some status
      else st.payloadStatuses.lookup x := by
  by_cases hEq : x = r
  · rw [if_pos hEq, hEq]
    exact AList.lookup_insert _
  · rw [if_neg hEq]
    exact AList.lookup_insert_ne hEq

variable {r : Root}

theorem isOptimistic_eq_false_iff {blk : BeaconBlock}
    (hBlk : st.blocks.lookup r = some blk) :
    isOptimistic st r = false ↔
      st.payloadStatuses.lookup r = some .valid ∨ blockIsExecutionEnabled blk = false := by
  rw [isOptimistic, hBlk]
  by_cases hValid : st.payloadStatuses.lookup r = some .valid
  · simp [hValid]
  · simp [hValid]

theorem latestVerifiedAncestor_of_verified (hVerified : isOptimistic st r = false) :
    latestVerifiedAncestor st r = r := by
  simp [latestVerifiedAncestor, verifiedFrom, hVerified]

theorem exists_foldl_mark (rs : List Root) (status : PayloadStatus) :
    ∃ payloadStatuses,
      rs.foldl (fun marked r => marked.markPayloadStatus r status) st =
        { st with payloadStatuses } := by
  induction rs generalizing st with
  | nil => exact ⟨st.payloadStatuses, rfl⟩
  | cons a xs ih =>
    exact ih

theorem lookup_foldl_mark (rs : List Root) (status : PayloadStatus) (x : Root) :
    (rs.foldl (fun marked r => marked.markPayloadStatus r status) st).payloadStatuses.lookup x =
      if x ∈ rs then some status
      else st.payloadStatuses.lookup x := by
  induction rs generalizing st with
  | nil => simp
  | cons a xs ih =>
    rw [List.foldl_cons, ih, lookup_mark]
    by_cases hxs : x ∈ xs
    · simp [hxs]
    · by_cases hFst : x = a
      · simp [hFst]
      · simp [hxs, hFst]

@[simp] theorem blocks_applyInvalid (r : Root) (valid : Option Hash256) :
    (applyInvalidPayload st r valid).blocks = st.blocks := by
  unfold applyInvalidPayload applyInvalidPayloadWithin
  rcases exists_foldl_mark _ _ with ⟨payloadStatuses, hMarked⟩
  rw [hMarked]

@[simp] theorem blockStates_applyInvalid (r : Root) (valid : Option Hash256) :
    (applyInvalidPayload st r valid).blockStates = st.blockStates := by
  unfold applyInvalidPayload applyInvalidPayloadWithin
  rcases exists_foldl_mark _ _ with ⟨payloadStatuses, hMarked⟩
  rw [hMarked]

theorem lookup_applyInvalid (hLinked : ParentLinked st.blocks) (r x : Root)
    (valid : Option Hash256) :
    (Ancestor (parentOf st.blocks) (resolveInvalidBlock st r valid) x →
      (applyInvalidPayload st r valid).payloadStatuses.lookup x = some .invalid) ∧
    (¬Ancestor (parentOf st.blocks) (resolveInvalidBlock st r valid) x →
      (applyInvalidPayload st r valid).payloadStatuses.lookup x = st.payloadStatuses.lookup x) := by
  rcases hLinked with ⟨rank, hRank⟩
  have hVisited : x ∈ bfs (childrenIndex st.blocks) (st.blocks.keys.length +
        1) [resolveInvalidBlock st r valid] ↔
        Ancestor (parentOf st.blocks) (resolveInvalidBlock st r valid)
        x :=
    hRank.mem_bfs_iff (fun _ _ => mem_childrenIndex_iff) nodup_childrenIndex
      (fun c up hPar => List.mem_toFinset.mpr (mem_of_parentOf hPar))
      (Nat.lt_succ_of_le (List.toFinset_card_le _))
  unfold applyInvalidPayload applyInvalidPayloadWithin
  rw [lookup_foldl_mark]
  constructor
  · intro hBelow
    exact if_pos (hVisited.mpr hBelow)
  · intro hApart
    exact if_neg (hApart ∘ hVisited.mp)

end Pharos.ForkChoice
