import Pharos.Node.EngineDriver

/-
  This file follows the verdicts on payloads through the runs of the driver, and says when an
  invalid block makes its descendants invalid and stays invalid.

  Main theorems:
  * `payload_statuses_consistent_iff`
-/

----
-- Verdicts along Parent Links
----

namespace Pharos.Node

open List BeaconSpec ForkChoice AList Forest

variable {S : Type}

section

/- The children of an invalid block are invalid. -/
def Consistent (store : Store S) : Prop :=
  ∀ child parent, parentOf store.blocks child = some parent →
    store.IsInvalid parent → store.IsInvalid child

variable {st : Store S} {status : PayloadStatus}

theorem isInvalid_mark_iff (hStatus : status ≠ .invalid) {r x : Root} :
    (st.markPayloadStatus r status).IsInvalid x ↔ x ≠ r ∧ st.IsInvalid x := by
  unfold Store.IsInvalid
  rw [lookup_mark]
  by_cases hEq : x = r
  · simp [hEq, hStatus]
  · simp [hEq]

theorem Consistent.decided (hCons : Consistent st) (hStatus : status ≠ .invalid)
    {r : Root} (hOpen : ¬st.IsInvalid r) :
    Consistent (st.markPayloadStatus r status) := by
  intro child par hPar hBad
  rw [isInvalid_mark_iff hStatus] at hBad ⊢
  have hKid := hCons child par hPar hBad.2
  refine ⟨?_, hKid⟩
  intro hEq
  exact hOpen (hEq ▸ hKid)

theorem isInvalid_applyInvalid_iff (hLinked : ParentLinked st.blocks)
    {r x : Root} {valid : Option Hash256} :
    (applyInvalidPayload st r valid).IsInvalid x ↔ st.IsInvalid x ∨
      Ancestor (parentOf st.blocks) (resolveInvalidBlock st r valid)
      x := by
  have hLookup := lookup_applyInvalid hLinked r x valid
  unfold Store.IsInvalid
  by_cases hBelow : Ancestor (parentOf st.blocks) (resolveInvalidBlock st r valid) x
  · rw [hLookup.1 hBelow]
    simp [hBelow]
  · rw [hLookup.2 hBelow]
    simp [hBelow]

theorem Consistent.invalidated (hCons : Consistent st)
    (hLinked : ParentLinked st.blocks) (r : Root) (valid : Option Hash256) :
    Consistent (applyInvalidPayload st r valid) := by
  intro child par hPar hBad
  rw [blocks_applyInvalid] at hPar
  rw [isInvalid_applyInvalid_iff hLinked] at hBad ⊢
  rcases hBad with hPre | hBelow
  · exact .inl (hCons child par hPar hPre)
  · exact .inr (hBelow.trans (Ancestor.of_parent hPar))

theorem isInvalid_markIfAbsent_iff (hStatus : status ≠ .invalid) {r x : Root} :
    (st.markPayloadStatusIfAbsent r status).IsInvalid x ↔ st.IsInvalid x := by
  unfold Store.markPayloadStatusIfAbsent
  by_cases hIn : r ∈ st.payloadStatuses
  · rw [if_pos hIn]
  · rw [if_neg hIn, isInvalid_mark_iff hStatus]
    refine ⟨fun hBoth => hBoth.2, fun hBad => ⟨?_, hBad⟩⟩
    intro hEq
    rw [hEq, Store.IsInvalid, lookup_eq_none.mpr hIn] at hBad
    cases hBad

/- Only the blocks and the verdicts matter. -/
theorem Consistent.of_knowledge_eq {x : Store S} (hCons : Consistent x)
    (hEq : st.knowledge = x.knowledge) : Consistent st := by
  have hBlks := blocks_of_same hEq
  have hStatuses := statuses_of_same hEq
  unfold Consistent Store.IsInvalid at hCons ⊢
  rw [hBlks, hStatuses]
  exact hCons

theorem isInvalid_of_knowledge_eq {x : Store S} (hEq : st.knowledge = x.knowledge) (r : Root) :
    st.IsInvalid r ↔ x.IsInvalid r := by
  unfold Store.IsInvalid
  rw [statuses_of_same hEq]

end

variable [BeaconSpec S]

theorem Consistent.addBlock {st : Store S} (hCons : Consistent st) {blk : BeaconBlock}
    (post : S)
    (hOpen : ¬st.IsInvalid blk.parentRoot ∨ st.IsInvalid (treeHashRoot S blk)) :
    Consistent ((insertBlock st blk
      post).markPayloadStatusIfAbsent (treeHashRoot S blk) .notValidated) := by
  have hVerdicts : ∀ r, (insertBlock st blk post).IsInvalid r ↔ st.IsInvalid r :=
    fun r => Iff.rfl
  intro child par hPar
  rw [isInvalid_markIfAbsent_iff (by simp),
    isInvalid_markIfAbsent_iff (by simp), hVerdicts, hVerdicts]
  rw [blocks_of_add (knowledge_markIfAbsent_insertBlock blk post)] at hPar
  intro hBad
  by_cases hNew : child = treeHashRoot S blk
  · rw [parentOf, hNew, lookup_insert] at hPar
    have hUp : blk.parentRoot = par := Option.some.inj hPar
    rcases hOpen with hParentOpen | hIn
    · exact absurd (hUp ▸ hBad) hParentOpen
    · rw [hNew]
      exact hIn
  · rw [parentOf, lookup_insert_ne hNew] at hPar
    exact hCons child par hPar hBad

----
-- Consistent Verdicts
----

section

def Respects (driver : EngineDriver S) : Action S → Prop
| .tick _ => True
| .block signedBlock postState now powProvider =>
  (onBlock driver.store signedBlock postState now powProvider).2 = .ok () →
    ¬driver.store.IsInvalid signedBlock.message.parentRoot ∨
      driver.store.IsInvalid (treeHashRoot S signedBlock.message)
| .newPayload blockRoot answer powProvider =>
  openVerdict driver.store blockRoot answer powProvider ≠ none → ¬driver.store.IsInvalid blockRoot
| .forkchoiceUpdated _ _ => True

/-
  What holds along a run: the blocks are among those of the run, and the verdicts are consistent.
-/
structure Sound (blocks : List BeaconBlock) (store : Store S) : Prop where
  keyed : KeyedByRoot S blocks store.blocks
  consistent : Consistent store

variable {blocks : List BeaconBlock}

theorem sound_start {anchorState : S} {anchorBlock : BeaconBlock}
    (hAnchor : anchorBlock ∈ blocks) :
    Sound blocks (start anchorState anchorBlock).store where
  keyed := KeyedByRoot.getForkchoiceStore hAnchor
  consistent := by
    intro child par _ hBad
    have hRow := mem_lookup_iff.mp hBad
    simp [start, getForkchoiceStore, AList.singleton] at hRow

theorem Sound.invalidated {st : Store S} (hSound : Sound blocks st)
    (hLinked : HashLinked S blocks) (r : Root) (valid : Option Hash256) :
    Sound blocks (applyInvalidPayload st r valid) ∧ ∀ x, st.IsInvalid x →
      (applyInvalidPayload st r valid).IsInvalid x := by
  have hParents := hSound.keyed.parentLinked hLinked
  refine ⟨⟨?_, hSound.consistent.invalidated hParents r valid⟩, ?_⟩
  · rw [blocks_applyInvalid]
    exact hSound.keyed
  · intro x hBad
    exact (isInvalid_applyInvalid_iff hParents).mpr (.inl hBad)

theorem sound_step {driver after : EngineDriver S} {act : Action S}
    (hLinked : HashLinked S blocks)
    (hBlk : ∀ blk, act.block? = some blk → blk ∈ blocks)
    (hSound : Sound blocks driver.store) (hRespects : Respects driver act)
    (hStep : step driver act = .ok after) :
    Sound blocks after.store ∧ ∀ r, driver.store.IsInvalid r → after.store.IsInvalid r := by
  cases act with
  | tick t =>
    cases hStep
    have hEq : (onTick driver.store t).knowledge = driver.store.knowledge :=
        knowledge_onTick t
    refine ⟨⟨?_, hSound.consistent.of_knowledge_eq hEq⟩, fun r =>
        (isInvalid_of_knowledge_eq hEq r).mpr⟩
    show KeyedByRoot S blocks (onTick driver.store t).knowledge.blocks
    rw [hEq]
    exact hSound.keyed
  | block signed post now pow =>
    rcases step_block_ok_iff.mp hStep with ⟨hDone, hPost⟩
    have hAdd := (onBlock_ok hDone).2
    have hEq := hAdd.trans (knowledge_markIfAbsent_insertBlock signed.message post).symm
    rw [← hPost]
    refine ⟨⟨?_, ?_⟩, ?_⟩
    · show KeyedByRoot S blocks (onBlock driver.store signed post now pow).1.knowledge.blocks
      rw [hAdd]
      exact hSound.keyed.insert (hBlk signed.message rfl)
    · exact (hSound.consistent.addBlock post (hRespects hDone)).of_knowledge_eq hEq
    · intro r hBad
      rw [isInvalid_of_knowledge_eq hEq, isInvalid_markIfAbsent_iff (by simp)]
      exact hBad
  | newPayload r ans pow =>
    cases hStep
    rcases store_onNewPayload driver r ans pow with
      ⟨status, hSaid, hStatus, hMarked⟩ | ⟨_, hEq | ⟨valid, hSpread⟩⟩
    · have hOpen : ¬driver.store.IsInvalid r := by
        apply hRespects
        rw [hSaid]
        simp
      rw [hMarked]
      refine ⟨⟨hSound.keyed, hSound.consistent.decided hStatus hOpen⟩, ?_⟩
      intro x hBad
      rw [isInvalid_mark_iff hStatus]
      refine ⟨?_, hBad⟩
      intro hr
      exact hOpen (hr ▸ hBad)
    · rw [hEq]
      exact ⟨hSound, fun _ hBad => hBad⟩
    · rw [hSpread]
      exact hSound.invalidated hLinked r valid
  | forkchoiceUpdated change ans =>
    cases hStep
    rcases store_onForkchoiceUpdated driver change ans with hEq | ⟨valid, hSpread⟩
    · rw [hEq]
      exact ⟨hSound, fun _ hBad => hBad⟩
    · rw [hSpread]
      exact hSound.invalidated hLinked change.headRoot valid

theorem sound_final {driver : EngineDriver S} {acts : List (Action S)}
    (hLinked : HashLinked S blocks)
    (hBlks : ∀ act ∈ acts, ∀ blk, act.block? = some blk → blk ∈ blocks)
    (hMeet : Run.StepsMeet step Respects driver acts) (hSound : Sound blocks driver.store) :
    Sound blocks (Run.final step driver acts).store ∧ ∀ r, driver.store.IsInvalid r →
      (Run.final step driver acts).store.IsInvalid r := by
  refine Run.invariant (fun reached : EngineDriver S =>
      Sound blocks reached.store ∧ ∀ r, driver.store.IsInvalid r → reached.store.IsInvalid r)
    ?_ hMeet ⟨hSound, fun _ hBad => hBad⟩
  intro before act after hAction hPre hRespects hStep
  have hKept := sound_step hLinked (hBlks act hAction) hPre.1 hRespects hStep
  exact ⟨hKept.1, fun r hBad =>
    hKept.2 r (hPre.2 r hBad)⟩

end

----
-- Known States
----

def StatesKnown (store : Store S) : Prop :=
  ∀ root ∈ store.blockStates, root ∈ store.blocks

theorem StatesKnown.addBlock {st after : Store S} (hIn : StatesKnown st)
    {blk : BeaconBlock} {post : S}
    (hPost : after.knowledge = st.knowledge.addBlock blk post) : StatesKnown after := by
  intro r hr
  have hInserted : r ∈ after.knowledge.blockStates := hr
  show r ∈ after.knowledge.blocks
  rw [hPost] at hInserted ⊢
  rcases (mem_insert _).mp hInserted with hNew | hOld
  · exact (mem_insert _).mpr (.inl hNew)
  · exact (mem_insert _).mpr (.inr (hIn r hOld))

omit [BeaconSpec S] in
theorem StatesKnown.of_eq {st after : Store S} (hIn : StatesKnown st)
    (hBlks : after.blocks = st.blocks) (hStates : after.blockStates = st.blockStates) :
    StatesKnown after := by
  unfold StatesKnown
  rw [hBlks, hStates]
  exact hIn

theorem statesKnown_step {driver after : EngineDriver S} {act : Action S}
    (hIn : StatesKnown driver.store) (hStep : step driver act = .ok after) :
    StatesKnown after.store := by
  cases act with
  | tick t =>
    cases hStep
    exact hIn.of_eq (blocks_of_same (knowledge_onTick t)) (states_of_same (knowledge_onTick t))
  | block signed post now pow =>
    rcases step_block_ok_iff.mp hStep with ⟨hDone, hPost⟩
    rw [← hPost]
    exact hIn.addBlock (onBlock_ok hDone).2
  | newPayload r ans pow =>
    cases hStep
    rcases store_onNewPayload driver r ans pow with
      ⟨status, _, _, hMarked⟩ | ⟨_, hEq | ⟨valid, hSpread⟩⟩
    · rw [hMarked]
      exact hIn
    · rw [hEq]
      exact hIn
    · rw [hSpread]
      exact hIn.of_eq (blocks_applyInvalid _ _) (blockStates_applyInvalid _ _)
  | forkchoiceUpdated change ans =>
    cases hStep
    rcases store_onForkchoiceUpdated driver change ans with hEq | ⟨valid, hSpread⟩
    · rw [hEq]
      exact hIn
    · rw [hSpread]
      exact hIn.of_eq (blocks_applyInvalid _ _) (blockStates_applyInvalid _ _)

theorem statesKnown_final (anchorState : S) (anchorBlock : BeaconBlock)
    (acts : List (Action S)) :
    StatesKnown (Run.final step (start anchorState anchorBlock) acts).store := by
  have hStart : StatesKnown (start anchorState anchorBlock).store := fun _ hr => hr
  refine Run.invariant_of_step (fun reached : EngineDriver S =>
      StatesKnown reached.store) ?_ hStart
  intro before act after _ hPre hStep
  exact statesKnown_step hPre hStep

----
-- Verdicts along a Run
----

/-
  No block below an invalid one is valid or undecided at any point of a run, and a block that is
  invalid at one point is invalid ever after.
-/
structure VerdictsKept (driver : EngineDriver S) (actions : List (Action S)) : Prop where
  children :
    ∀ earlier later, actions = earlier ++ later →
      ∀ child parent,
        let reached := (Run.final step driver earlier).store
        parentOf reached.blocks child = some parent →
        parent ∈ reached.blocks →
        reached.IsInvalid parent → reached.payloadStatuses.lookup child ≠ some .valid ∧
          reached.payloadStatuses.lookup child ≠ some .notValidated
  invalid : ∀ earlier middle later, actions = earlier ++ middle ++ later → ∀ root,
    (Run.final step driver earlier).store.IsInvalid root →
    (Run.final step driver (earlier ++ middle)).store.IsInvalid root

theorem respects_of_kept {driver : EngineDriver S} {act : Action S}
    (hIn : StatesKnown driver.store)
    (hChildren :
      ∀ child par,
        let reached := (Run.next step driver act).store
        parentOf reached.blocks child = some par →
        par ∈ reached.blocks →
        reached.IsInvalid par → reached.payloadStatuses.lookup child ≠ some .valid ∧
          reached.payloadStatuses.lookup child ≠ some .notValidated)
    (hBad : ∀ r, driver.store.IsInvalid r → (Run.next step driver act).store.IsInvalid r) :
    Respects driver act := by
  cases act with
  | tick t | forkchoiceUpdated change ans => trivial
  | newPayload r ans pow =>
    intro hSaid hPre
    have hPost := hBad r hPre
    rcases store_onNewPayload driver r ans pow with ⟨status, _, hStatus, hMarked⟩ | ⟨hNone, _⟩
    · have hStore : (Run.next step driver (.newPayload r ans pow)).store =
          driver.store.markPayloadStatus r status := hMarked
      rw [hStore, isInvalid_mark_iff hStatus] at hPost
      exact hPost.1 rfl
    · exact hSaid hNone
  | block signed post now pow =>
    intro hDone
    have hAdd := onBlock_ok hDone
    have hNext : (Run.next step driver (.block signed post now
        pow)).store.knowledge = driver.store.knowledge.addBlock signed.message
        post := by
      unfold Run.next
      rw [step_block_ok_iff.mpr ⟨hDone, rfl⟩]
      exact hAdd.2
    have hBlks := blocks_of_add hNext
    by_contra hBreaks
    rw [not_or, not_not] at hBreaks
    have hHere := hChildren (treeHashRoot S signed.message) signed.message.parentRoot
      (by rw [hBlks, parentOf, lookup_insert]; rfl)
      (by
        rw [hBlks, mem_insert]
        exact .inr (hIn _ hAdd.1))
      (hBad _ hBreaks.1)
    rw [statuses_of_add hNext, if_pos rfl] at hHere
    rcases hStatus : driver.store.payloadStatuses.lookup (treeHashRoot S signed.message) with
      _ | _ | _ | _
    · exact hHere.2 (by rw [hStatus]; rfl)
    · exact hHere.1 (by rw [hStatus]; rfl)
    · exact hBreaks.2 hStatus
    · exact hHere.2 (by rw [hStatus]; rfl)

theorem stepsMeet_of_kept {anchorState : S} {anchorBlock : BeaconBlock}
    {acts : List (Action S)} (hKept : VerdictsKept (start anchorState anchorBlock) acts) :
    Run.StepsMeet step Respects (start anchorState anchorBlock) acts := by
  apply Run.stepsMeet_of_forall_split
  intro past act xs hSplit
  have hNext : Run.final step (start anchorState anchorBlock) (past ++ [act]) =
      Run.next step (Run.final step (start anchorState anchorBlock) past) act := by
    rw [Run.final_append]
    rfl
  have hCut : acts = past ++ [act] ++ xs := by
    rw [hSplit, append_assoc]
    rfl
  apply respects_of_kept
  · exact statesKnown_final anchorState anchorBlock past
  · rw [← hNext]
    exact hKept.children _ xs hCut
  · rw [← hNext]
    exact hKept.invalid past [act] xs hCut

theorem kept_of_stepsMeet {anchorState : S} {anchorBlock : BeaconBlock}
    {acts : List (Action S)}
    (hLinked : HashLinked S (anchorBlock :: acts.filterMap Action.block?))
    (hMeet : Run.StepsMeet step Respects (start anchorState anchorBlock) acts) :
    VerdictsKept (start anchorState anchorBlock) acts := by
  have hBlks : ∀ act ∈ acts, ∀ blk, act.block? = some blk → blk ∈ anchorBlock ::
      acts.filterMap Action.block? := by
    intro act hAction blk hBlk
    exact mem_cons_of_mem _ (mem_filterMap.mpr ⟨act, hAction, hBlk⟩)
  have hSound : ∀ earlier later, acts = earlier ++ later → Sound (anchorBlock ::
      acts.filterMap Action.block?) (Run.final step (start anchorState anchorBlock)
      earlier).store := by
    intro earlier later hSplit
    have hEarlier := hMeet
    rw [hSplit, Run.stepsMeet_append] at hEarlier
    refine (sound_final hLinked ?_ hEarlier.1 (sound_start mem_cons_self)).1
    intro act hAction
    apply hBlks act
    rw [hSplit]
    exact mem_append_left _ hAction
  constructor
  · intro earlier later hSplit child par
    dsimp only
    intro hPar _ hBad
    have hKid := (hSound earlier later hSplit).consistent child par hPar hBad
    rw [hKid]
    exact ⟨by simp, by simp⟩
  · intro earlier mid later hSplit r hBad
    have hMiddle := hMeet
    rw [hSplit, Run.stepsMeet_append, Run.stepsMeet_append] at hMiddle
    rw [Run.final_append]
    refine (sound_final hLinked ?_ hMiddle.1.2 (hSound earlier (mid ++ later) ?_)).2 r hBad
    · intro act hAction
      apply hBlks act
      rw [hSplit]
      exact mem_append_left _ (mem_append_right _ hAction)
    · rw [hSplit, append_assoc]

/-
  The verdicts along a run are consistent and kept exactly if every action respects the invalid
  blocks of its time.
-/
theorem payload_statuses_consistent_iff (anchorState : S) (anchorBlock : BeaconBlock)
    (actions : List (Action S))
    (hLinked : HashLinked S (anchorBlock :: actions.filterMap Action.block?)) :
    VerdictsKept (start anchorState anchorBlock) actions ↔
      Run.StepsMeet step Respects (start anchorState anchorBlock) actions := by
  constructor
  · intro hKept
    exact stepsMeet_of_kept hKept
  · intro hMeet
    exact kept_of_stepsMeet hLinked hMeet

----
-- A Rejected Block
----

def answerFirst (status : PayloadStatusStatus) : Action Sample.ChainState :=
  .newPayload firstRoot (.ok ⟨status, none⟩) none

open Sample

/- The condition, for a block that is rejected twice. -/
theorem payload_statuses_consistent_iff_rejectedTwice :
    (reachedBy [addFirst, answerFirst .invalid]).store.IsInvalid firstRoot ∧
      VerdictsKept (start anchorState anchorBlock)
        [.tick 40, addFirst, answerFirst .invalid, answerFirst .invalid, .tick 60] := by
  refine ⟨by decide, ?_⟩
  apply (payload_statuses_consistent_iff anchorState anchorBlock _ (hashLinked _)).mpr
  exact ⟨trivial, fun _ => .inl (by decide), fun hSaid => absurd rfl hSaid, fun hSaid =>
    absurd rfl hSaid, trivial, trivial⟩

/-
  A block is added below an invalid one as undecided, and an answer that the engine is syncing lifts
  the invalid verdict.
-/
theorem invalid_verdict_is_lost :
    let reached := (reachedBy [addFirst, answerFirst .invalid, addSecond]).store
    let later :=
      (reachedBy [addFirst, answerFirst .invalid, addSecond, answerFirst .syncing]).store
    (parentOf reached.blocks secondRoot = some firstRoot ∧ firstRoot ∈ reached.blocks ∧
        reached.IsInvalid firstRoot ∧ reached.payloadStatuses.lookup secondRoot =
        some .notValidated) ∧ ¬later.IsInvalid firstRoot := by
  decide

end Pharos.Node
