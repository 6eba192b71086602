import Pharos.Node.PayloadVerdicts

/-
  This file proves that no block is reported as verified before the execution layer has verified it.

  The walk to the latest verified ancestor has other ends besides a verified block. They are not
  reached: every block that is not verified has its parent in the store, and the anchor is verified.

  Main theorems:
  * `optimistic_blocks_not_reported`
-/

----
-- The Walk
----

namespace Pharos.ForkChoice

variable {S : Type}

/- A known block that is valid or carries no payload. -/
def Verified (store : Store S) (root : Root) : Prop :=
  ∃ block, store.blocks.lookup root = some block ∧
    (store.payloadStatuses.lookup root = some .valid ∨ blockIsExecutionEnabled block = false)

variable {store : Store S} {root : Root}

theorem verified_iff (hIn : root ∈ store.blocks) :
    Verified store root ↔ isOptimistic store root = false := by
  rcases HashTable.mem_iff.mp hIn with ⟨blk, hBlk⟩
  rw [isOptimistic_eq_false_iff hBlk]
  simp [Verified, hBlk]

def WalksOn (store : Store S) : Prop :=
  ∀ root ∈ store.blocks, isOptimistic store root = true → ∃ parent ∈ store.blocks,
    parentOf store.blocks root = some parent ∧ walkParent store.blocks root = some parent

theorem nearest_verifiedFrom {height : Root → Nat}
    (hRank : Forest.Ranked (parentOf store.blocks) height) (hWalks : WalksOn store) {fuel : Nat}
    (hIn : root ∈ store.blocks) (hFuel : height root < fuel) :
    Forest.Nearest (parentOf store.blocks) (Verified store)
      root (verifiedFrom store fuel root) := by
  induction fuel generalizing root with
  | zero => exact absurd hFuel (Nat.not_lt_zero _)
  | succ fuel ih =>
    rcases HashTable.mem_iff.mp hIn with ⟨blk, hBlk⟩
    rw [verifiedFrom]
    cases hOptimistic : isOptimistic store root with
    | false => exact .self ((verified_iff hIn).mpr hOptimistic)
    | true =>
      rcases hWalks root hIn hOptimistic with ⟨par, hParentKnown, hPar, hWalk⟩
      have hLower := hRank root par hPar
      have hFails : ¬Verified store root := by
        rw [verified_iff hIn, hOptimistic]
        simp
      simp only [hBlk, hWalk, hParentKnown, not_true_eq_false, if_false, Bool.not_true,
        Bool.false_eq_true]
      exact .of_parent hFails hPar (ih hParentKnown (by omega))

theorem nearest_latestVerifiedAncestor (hLinked : ParentLinked store.blocks)
    (hWalks : WalksOn store) (hIn : root ∈ store.blocks) :
    Forest.Nearest (parentOf store.blocks) (Verified store)
      root (latestVerifiedAncestor store root) := by
  rcases hLinked.exists_height with ⟨height, hRank, hBd⟩
  exact nearest_verifiedFrom hRank hWalks hIn (Nat.lt_succ_of_le (hBd root))

def ReportsVerified (store : Store S) (hash : Hash256) : Prop :=
  hash = defaultHash ∨
    ∃ root block,
      store.blocks.lookup root = some block ∧ store.payloadStatuses.lookup root = some .valid ∧
        block.executionBlockHash = some hash

theorem reportsVerified_latestVerifiedAncestor (hLinked : ParentLinked store.blocks)
    (hWalks : WalksOn store) (root : Root) :
    ReportsVerified store (executionBlockHashAtRoot store (latestVerifiedAncestor store root)) := by
  by_cases hIn : root ∈ store.blocks
  · rcases (nearest_latestVerifiedAncestor hLinked hWalks hIn).holds with ⟨blk, hBlk, hVerified⟩
    unfold executionBlockHashAtRoot
    rw [hBlk]
    dsimp only
    cases hHash : blk.executionBlockHash with
    | none => exact .inl rfl
    | some hash =>
      rcases hVerified with hValid | hNone
      · exact .inr ⟨_, blk, hBlk, hValid, hHash⟩
      · rw [blockIsExecutionEnabled, hHash] at hNone
        exact .inl (by simpa using hNone)
  · -- an unknown root is its own answer, and has no payload
    have hNotOptimistic : isOptimistic store root = false := by
      rw [isOptimistic, AList.lookup_eq_none.mpr hIn]
    rw [latestVerifiedAncestor_of_verified hNotOptimistic, executionBlockHashAtRoot,
      AList.lookup_eq_none.mpr hIn]
    exact .inl rfl

end Pharos.ForkChoice

----
-- Runs with Requests
----

namespace Pharos.Node

open BeaconSpec ForkChoice

variable {S : Type} [BeaconSpec S]

/- The driver, and the payloads it was asked to send. -/
structure RequestRun (S : Type) where
  driver : EngineDriver S
  requested : List Root

/-
  A block that is refused late stays in the store. Only one that is not refused has its payload
  sent, so that answers are about such blocks.
-/
def requestStep (run : RequestRun S) : Action S → RequestRun S
| .tick time =>
  { run with driver.store := onTick run.driver.store time }
| .block signedBlock postState now powProvider =>
  let result := onBlock run.driver.store signedBlock postState now powProvider
  { driver := { run.driver with store := result.1 }
    requested :=
      match result.2 with
      | .ok () => treeHashRoot S signedBlock.message :: run.requested
      | .error _ => run.requested }
| .newPayload blockRoot answer powProvider =>
  if blockRoot ∈ run.requested then
    { run with driver := onNewPayload run.driver blockRoot answer powProvider }
  else
    run
| .forkchoiceUpdated change answer =>
  { run with driver := onForkchoiceUpdated run.driver change answer }

def requestRun (anchorState : S) (anchorBlock : BeaconBlock) (actions : List (Action S)) :
    RequestRun S :=
  actions.foldl requestStep ⟨start anchorState anchorBlock, []⟩

/- The known blocks hang together below the anchor, which was verified when the store was made. -/
structure Anchored (blocks : List BeaconBlock) (anchorRoot : Root)
    (store : Store S) : Prop where
  keyed : KeyedByRoot S blocks store.blocks
  states : StatesKnown store
  parents : ∀ root block, store.blocks.lookup root = some block →
    root ≠ anchorRoot → block.parentRoot ∈ store.blocks
  verdict : store.payloadStatuses.lookup anchorRoot = some .valid ∨ store.IsInvalid anchorRoot

namespace Anchored

variable {blks : List BeaconBlock} {anchorRoot : Root} {st s' : Store S}

theorem getForkchoiceStore {anchorState : S} {anchorBlock : BeaconBlock}
    (hMem : anchorBlock ∈ blks) :
    Anchored blks (treeHashRoot S anchorBlock) (getForkchoiceStore anchorState anchorBlock) where
  keyed := KeyedByRoot.getForkchoiceStore hMem
  states _ hr := hr
  parents r blk hBlk hx := by
    exact absurd (HashTable.lookup_singleton_iff.mp hBlk).1 hx
  verdict := .inl (AList.lookup_insert ∅)

section

variable (hAnchored : Anchored blks anchorRoot st)
include hAnchored

theorem rank_anchor_le {rank : Root → Nat}
    (hRank : ∀ blk ∈ blks, rank blk.parentRoot < rank (treeHashRoot S blk))
    {r : Root} (hIn : r ∈ st.blocks) : rank anchorRoot ≤ rank r := by
  induction hHeight : rank r using Nat.strongRecOn generalizing r with
  | ind height ih =>
    rcases HashTable.mem_iff.mp hIn with ⟨blk, hBlk⟩
    by_cases hAnchor : r = anchorRoot
    · rw [← hHeight, hAnchor]
    · rcases hAnchored.keyed r blk hBlk with ⟨hMem, hr⟩
      have hLower := hRank blk hMem
      rw [hr, hHeight] at hLower
      have hPar := ih _ hLower (hAnchored.parents r blk hBlk hAnchor) rfl
      exact hPar.trans (le_of_lt hLower)

theorem root_ne_anchor (hLinked : HashLinked S blks) {blk : BeaconBlock}
    (hMem : blk ∈ blks) (hPar : blk.parentRoot ∈ st.blockStates) :
    treeHashRoot S blk ≠ anchorRoot := by
  rcases hLinked with ⟨rank, hRank⟩
  intro hr
  have hLower := hRank blk hMem
  have hAbove := hAnchored.rank_anchor_le hRank (hAnchored.states _ hPar)
  rw [hr] at hLower
  exact absurd hLower (not_lt.mpr hAbove)

theorem of_eq (hBlks : s'.blocks = st.blocks)
    (hStates : s'.blockStates = st.blockStates)
    (hSaid : s'.payloadStatuses.lookup anchorRoot = some .invalid ∨
      s'.payloadStatuses.lookup anchorRoot = st.payloadStatuses.lookup anchorRoot) :
    Anchored blks anchorRoot s' where
  keyed := hBlks ▸ hAnchored.keyed
  states := hAnchored.states.of_eq hBlks hStates
  parents := hBlks ▸ hAnchored.parents
  verdict := by
    rcases hSaid with hBad | hEq
    · exact .inr hBad
    · rw [Store.IsInvalid, hEq]
      exact hAnchored.verdict

section

variable (hLinked : HashLinked S blks)
include hLinked

theorem addBlock {blk : BeaconBlock} {post : S}
    (hMem : blk ∈ blks) (hPar : blk.parentRoot ∈ st.blockStates)
    (hPost : s'.knowledge = st.knowledge.addBlock blk post) :
    Anchored blks anchorRoot s' := by
  have hNew := hAnchored.root_ne_anchor hLinked hMem hPar
  have hBlks := blocks_of_add hPost
  refine ⟨?_, hAnchored.states.addBlock hPost, ?_, ?_⟩
  · rw [hBlks]
    exact hAnchored.keyed.insert hMem
  · intro r x hx hr
    rw [hBlks] at hx ⊢
    rw [AList.mem_insert]
    right
    rcases HashTable.lookup_insert_cases hx with ⟨rfl, rfl⟩ | ⟨_, hx⟩
    · exact hAnchored.states _ hPar
    · exact hAnchored.parents r x hx hr
  · rw [Store.IsInvalid, statuses_of_add hPost, if_neg hNew.symm]
    exact hAnchored.verdict

theorem invalidated (r : Root)
    (valid : Option Hash256) :
    Anchored blks anchorRoot (applyInvalidPayload st r valid) := by
  have hSaid := lookup_applyInvalid (hAnchored.keyed.parentLinked hLinked) r anchorRoot valid
  apply hAnchored.of_eq (blocks_applyInvalid _ _) (blockStates_applyInvalid _ _)
  by_cases hBelow : Forest.Ancestor (parentOf st.blocks) (resolveInvalidBlock st r valid) anchorRoot
  · exact .inl (hSaid.1 hBelow)
  · exact .inr (hSaid.2 hBelow)

theorem walksOn
    (hRoots : ∀ blk ∈ blks, treeHashRoot S blk ≠ defaultRoot)
    (hValid : ¬st.IsInvalid anchorRoot) : WalksOn st := by
  intro r hIn hOptimistic
  rcases HashTable.mem_iff.mp hIn with ⟨blk, hBlk⟩
  have hBelow : r ≠ anchorRoot := by
    intro hAnchor
    have hVerified : isOptimistic st r = false := by
      apply (isOptimistic_eq_false_iff hBlk).mpr
      rw [hAnchor]
      exact .inl (hAnchored.verdict.resolve_right hValid)
    rw [hVerified] at hOptimistic
    cases hOptimistic
  have hParentKnown := hAnchored.parents r blk hBlk hBelow
  have hPar : parentOf st.blocks r = some blk.parentRoot :=
      parentOf_some_iff.mpr ⟨blk, hBlk, rfl⟩
  have hDefault : blk.parentRoot ≠ defaultRoot := by
    rcases HashTable.mem_iff.mp hParentKnown with ⟨par, hUp⟩
    rcases hAnchored.keyed _ par hUp with ⟨hMem, hr⟩
    rw [← hr]
    exact hRoots par hMem
  have hSelf : blk.parentRoot ≠ r := by
    intro hEq
    rcases hAnchored.keyed.parentLinked hLinked with ⟨rank, hRank⟩
    have hLower := hRank r _ hPar
    rw [hEq] at hLower
    exact lt_irrefl _ hLower
  refine ⟨blk.parentRoot, hParentKnown, hPar, ?_⟩
  simp [walkParent, hBlk, hDefault, hSelf]

end

end

end Anchored

----
-- Reported Blocks
----

variable {blocks : List BeaconBlock} {anchorRoot : Root}

/- The anchor's payload was not asked for. -/
structure AnchoredRun (blocks : List BeaconBlock) (anchorRoot : Root)
    (run : RequestRun S) : Prop where
  store : Anchored blocks anchorRoot run.driver.store
  requests : anchorRoot ∉ run.requested

theorem anchored_requestStep {run : RequestRun S} {act : Action S}
    (hLinked : HashLinked S blocks)
    (hBlk : ∀ blk, act.block? = some blk → blk ∈ blocks)
    (hRun : AnchoredRun blocks anchorRoot run) :
    AnchoredRun blocks anchorRoot (requestStep run act) := by
  cases act with
  | tick t =>
    have hEq : (onTick run.driver.store t).knowledge = run.driver.store.knowledge :=
        knowledge_onTick t
    refine ⟨hRun.store.of_eq (blocks_of_same hEq) (states_of_same hEq) ?_, hRun.requests⟩
    exact .inr (congrArg (AList.lookup anchorRoot) (statuses_of_same hEq))
  | block signed post now pow =>
    have hMem := hBlk signed.message rfl
    refine ⟨?_, ?_⟩
    · rcases onBlock_cases run.driver.store signed post now pow with hEq | ⟨hPar, hAdd⟩
      · simp only [requestStep, hEq]
        exact hRun.store
      · exact hRun.store.addBlock hLinked hMem hPar hAdd
    · unfold requestStep
      dsimp only
      cases hDone : (onBlock run.driver.store signed post now pow).2 with
      | error e => exact hRun.requests
      | ok done =>
        have hNew := hRun.store.root_ne_anchor hLinked hMem (onBlock_ok hDone).1
        exact List.not_mem_cons_of_ne_of_not_mem hNew.symm hRun.requests
  | newPayload r ans pow =>
    unfold requestStep
    dsimp only
    split
    · rename_i hAsked
      refine ⟨?_, hRun.requests⟩
      rcases store_onNewPayload run.driver r ans pow with
        ⟨status, _, _, hMarked⟩ | ⟨_, hEq | ⟨valid, hSpread⟩⟩
      · have hx : anchorRoot ≠ r := by
          intro hr
          exact hRun.requests (hr ▸ hAsked)
        rw [hMarked]
        refine hRun.store.of_eq rfl rfl (.inr ?_)
        rw [lookup_mark, if_neg hx]
      · rw [hEq]
        exact hRun.store
      · rw [hSpread]
        exact hRun.store.invalidated hLinked r valid
    · exact hRun
  | forkchoiceUpdated change ans =>
    refine ⟨?_, hRun.requests⟩
    unfold requestStep
    rcases store_onForkchoiceUpdated run.driver change ans with hEq | ⟨valid, hSpread⟩
    · rw [hEq]
      exact hRun.store
    · rw [hSpread]
      exact hRun.store.invalidated hLinked change.headRoot valid

theorem anchored_requestRun (anchorState : S) (anchorBlock : BeaconBlock)
    (acts : List (Action S))
    (hLinked : HashLinked S (anchorBlock :: acts.filterMap Action.block?)) :
    AnchoredRun (anchorBlock :: acts.filterMap Action.block?) (treeHashRoot S anchorBlock)
      (requestRun anchorState anchorBlock acts) := by
  refine List.foldlRecOn acts requestStep
    ⟨Anchored.getForkchoiceStore List.mem_cons_self, List.not_mem_nil⟩ ?_
  intro run hRun act hAction
  apply anchored_requestStep hLinked _ hRun
  intro blk hBlk
  exact List.mem_cons_of_mem _ (List.mem_filterMap.mpr ⟨act, hAction, hBlk⟩)

/-
  In every run in which the anchor is not found invalid, the walk from a known block ends at its
  nearest ancestor that is verified, and neither the safe nor the finalized hash is that of a
  payload not yet verified.
-/
theorem optimistic_blocks_not_reported (anchorState : S) (anchorBlock : BeaconBlock)
    (actions : List (Action S))
    (hLinked : HashLinked S (anchorBlock :: actions.filterMap Action.block?))
    (hRoots : ∀ block ∈ anchorBlock :: actions.filterMap Action.block?,
      treeHashRoot S block ≠ defaultRoot)
    (hAnchor : ¬(requestRun anchorState anchorBlock
      actions).driver.store.IsInvalid (treeHashRoot S anchorBlock)) :
    let store := (requestRun anchorState anchorBlock actions).driver.store
    (∀ r ∈ store.blocks, Forest.Nearest (parentOf store.blocks) (Verified store) r
        (latestVerifiedAncestor store r)) ∧ ReportsVerified store (computeSafeBlockHash store) ∧
        ReportsVerified store (computeFinalizedBlockHash store) := by
  have hStore := (anchored_requestRun anchorState anchorBlock actions hLinked).store
  have hParents := hStore.keyed.parentLinked hLinked
  have hWalks := hStore.walksOn hLinked hRoots hAnchor
  refine ⟨?_, ?_, ?_⟩
  · intro r hIn
    exact nearest_latestVerifiedAncestor hParents hWalks hIn
  · exact reportsVerified_latestVerifiedAncestor hParents hWalks _
  · exact reportsVerified_latestVerifiedAncestor hParents hWalks _

/- Two blocks on the anchor, and no verdict on them yet. -/
def twoUndecided : List (Action Sample.ChainState) :=
  [.tick 40, addFirst, addSecond, .newPayload firstRoot (.ok ⟨.syncing, none⟩) none]

open Sample

theorem optimistic_blocks_not_reported_twoUndecided :
    let store := (requestRun anchorState anchorBlock twoUndecided).driver.store
    isOptimistic store secondRoot = true ∧ Forest.Nearest (parentOf store.blocks) (Verified store)
      secondRoot Sample.anchorRoot := by
  have hReported := optimistic_blocks_not_reported anchorState anchorBlock
    twoUndecided (hashLinked _) (by decide) (by decide)
  refine ⟨by decide, ?_⟩
  exact hReported.1 secondRoot (by decide)

end Pharos.Node
