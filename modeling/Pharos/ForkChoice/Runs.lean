import Pharos.Lib.Run
import Pharos.Sample

/-
  This file describes the runs of a fork-choice store: any sequence of ticks, blocks, votes of
  either form and proofs of equivocations that the handlers accept.

  The caller runs the state transition and supplies its result with the block. From the slots that
  the transition checks it follows that parents come before their children, so that the walk to an
  ancestor comes to an end.

  Main theorems:
  * `store_runs_keep_order`
-/

----
-- Votes of Electra
----

namespace Pharos.ForkChoice

open BeaconSpec AList Forest

variable {S : Type} [BeaconSpec S] [SigningSpec S] [CommitteeSpec S]

section

open SigningSpec

variable {S : Type} [BeaconSpec S]

def onAttestationElectra [SigningSpec S] [CommitteeSpec S] (store : Store S)
    (attestation : ElectraAttestation) (isFromBlock : Bool) :
    Store S × Except ForkChoiceError Unit :=
  let data := attestation.data
  match validateOnAttestationData store data isFromBlock with
  | .error refusal => (store, .error refusal)
  | .ok () =>
  match storeTargetCheckpointState store data.target with
  | .error refusal => (store, .error refusal)
  | .ok prepared =>
  match prepared.checkpointStates.lookup data.target with
  | none => (prepared, .error (.missingBlock data.target.root))
  | some targetState =>
    let indices := (getAttestingIndicesElectra targetState attestation).mergeSort
    let pubkeys := indices.filterMap (validatorPubkey targetState)
    let domain := getDomain targetState .beaconAttester data.target.epoch
    let signingRoot := computeSigningRoot S (attestationDataRoot S data) domain
    if indices = [] then
      (prepared, .error (.invalidAttestation "indexed attestation has no attesters"))
    else if ¬indices.IsChain (· < ·) then
      (prepared, .error (.invalidAttestation "indexed attestation indices not strictly sorted"))
    else if pubkeys.length ≠ indices.length then
      (prepared, .error (.invalidAttestation "indexed attestation references unknown validator"))
    else if fastAggregateVerify S pubkeys signingRoot attestation.signature then
      (updateLatestMessages prepared indices data, .ok ())
    else
      (prepared, .error (.invalidAttestation "invalid indexed attestation signature"))

end

----
-- What a Vote Writes
----

section

variable {S : Type} [BeaconSpec S] {store : Store S}

/- The states of checkpoints after a vote for a target. -/
inductive StatesAfter (store : Store S) (target : Checkpoint) :
    HashMap Checkpoint S → Prop where
  | kept : StatesAfter store target store.checkpointStates
  | added {baseState state : S} : target ∉ store.checkpointStates →
      store.blockStates.lookup target.root = some baseState →
      processSlotsFork baseState (computeStartSlotAtEpoch S target.epoch) = .ok state →
      StatesAfter store target (store.checkpointStates.insert target state)

theorem storeTargetCheckpointState_ok {tgt : Checkpoint} {prepared : Store S}
    (hOk : storeTargetCheckpointState store tgt = .ok prepared) :
    ∃ states,
      StatesAfter store tgt states ∧ prepared = { store with checkpointStates := states } := by
  rcases Outcome.bind_ok_iff.mp hOk with ⟨s, hs, hOk⟩
  split at hOk
  · exact ⟨store.checkpointStates, .kept, (Except.ok.inj hOk).symm⟩
  · rename_i hNew
    refine ⟨store.checkpointStates.insert tgt s, ?_, (Except.ok.inj hOk).symm⟩
    unfold targetCheckpointState at hs
    rw [lookup_eq_none.mpr hNew] at hs
    dsimp only at hs
    split at hs
    · cases hs
    · rename_i baseState hBase
      exact .added hNew hBase (Outcome.mapError_ok_iff.mp hs)

omit [BeaconSpec S] in
theorem updateLatestMessages_eq (store : Store S) (indices : List ValidatorIndex)
    (data : AttestationData) :
    ∃ messages,
      updateLatestMessages store indices data =
        { store with latestMessages := messages } := by
  unfold updateLatestMessages
  induction indices generalizing store with
  | nil => exact ⟨store.latestMessages, rfl⟩
  | cons i xs ih =>
    rw [List.foldl_cons]
    have hFst : ∃ messages,
        updateLatestMessage data store i = { store with latestMessages := messages } := by
      unfold updateLatestMessage
      dsimp only
      split
      · exact ⟨store.latestMessages, rfl⟩
      · cases store.latestMessages.lookup i with
        | none => exact ⟨_, rfl⟩
        | some msg =>
          dsimp only
          split
          · exact ⟨_, rfl⟩
          · exact ⟨store.latestMessages, rfl⟩
    rcases hFst with ⟨messages, hMessages⟩
    rw [hMessages]
    exact ih _

/- What a vote leaves behind, be it accepted or refused. -/
structure Voted (store after : Store S) (target : Checkpoint) : Prop where
  written : ∃ states messages,
    StatesAfter store target states ∧
      after = { store with
          checkpointStates := states
          latestMessages := messages }

/- The votes that are counted; a refused vote counts for nobody. -/
structure Counted (store after : Store S) (data : AttestationData) : Prop where
  written : ∃ states attestingIndices,
    StatesAfter store data.target states ∧
      after = updateLatestMessages { store with checkpointStates := states } attestingIndices data

theorem Counted.refused (store : Store S) (data : AttestationData) : Counted store store data :=
  ⟨⟨store.checkpointStates, [], .kept, rfl⟩⟩

theorem Counted.prepared {data : AttestationData} {prepared : Store S}
    (hPrep : storeTargetCheckpointState store data.target = .ok prepared)
    (indices : List ValidatorIndex) :
    Counted store (updateLatestMessages prepared indices data) data := by
  rcases storeTargetCheckpointState_ok hPrep with ⟨states, hStates, rfl⟩
  exact ⟨⟨states, indices, hStates, rfl⟩⟩

theorem Counted.voted {s' : Store S} {data : AttestationData}
    (hCounted : Counted store s' data) : Voted store s' data.target := by
  rcases hCounted with ⟨states, indices, hStates, rfl⟩
  rcases updateLatestMessages_eq { store with checkpointStates := states } indices data with
    ⟨messages, hMessages⟩
  exact ⟨⟨states, messages, hStates, hMessages⟩⟩

theorem counted_onAttestation (store : Store S) (att : Attestation)
    (isFromBlock : Bool) :
    Counted store (onAttestation store att isFromBlock).1 att.data := by
  unfold onAttestation
  dsimp only
  split
  · exact Counted.refused store _
  · split
    · exact Counted.refused store _
    · rename_i prepared hPrep
      have hCounted := Counted.prepared hPrep
      split
      · exact hCounted []
      · split
        · exact hCounted _
        · exact hCounted []

theorem counted_onAttestationElectra [SigningSpec S] [CommitteeSpec S]
    (store : Store S) (att : ElectraAttestation) (isFromBlock : Bool) :
    Counted store (onAttestationElectra store att isFromBlock).1 att.data := by
  unfold onAttestationElectra
  dsimp only
  split
  · exact Counted.refused store _
  · split
    · exact Counted.refused store _
    · rename_i prepared hPrep
      have hCounted := Counted.prepared hPrep
      split
      · exact hCounted []
      · -- The four checks on the attesters, in their order.
        split
        · exact hCounted []
        · split
          · exact hCounted []
          · split
            · exact hCounted []
            · split
              · exact hCounted _
              · exact hCounted []

theorem onAttesterSlashing_ok {attesterSlashing : AttesterSlashing} {s' : Store S}
    (hOk : onAttesterSlashing store attesterSlashing = .ok s') :
    ∃ added, s' = { store with equivocatingIndices := store.equivocatingIndices ∪ added } := by
  unfold onAttesterSlashing at hOk
  dsimp only at hOk
  split at hOk
  · cases hOk
  · split at hOk
    · cases hOk
    · split at hOk
      · cases hOk
      · split at hOk
        · cases hOk
        · exact ⟨_, (Except.ok.inj hOk).symm⟩

end

----
-- Actions
----

/- The calls that change a store. -/
inductive StoreAction (S : Type) where
  | tick (time : Nat)
  | block (signedBlock : SignedBeaconBlock) (postState : S) (now : Nat)
      (powProvider : PowBlockProvider)
  | attestation (attestation : Attestation) (isFromBlock : Bool)
  | electraAttestation (attestation : ElectraAttestation) (isFromBlock : Bool)
  | attesterSlashing (attesterSlashing : AttesterSlashing)

def StoreAction.block? {S : Type} : StoreAction S → Option BeaconBlock
| .block signedBlock _ _ _ => some signedBlock.message
| _ => none

def returned (result : Store S × Except ForkChoiceError Unit) :
    Except ForkChoiceError (Store S) :=
  match result with
  | (after, .ok ()) => .ok after
  | (_, .error refusal) => .error refusal

def storeStep (store : Store S) : StoreAction S → Except ForkChoiceError (Store S)
| .tick time => .ok (onTick store time)
| .block signedBlock postState now powProvider =>
  returned (onBlock store signedBlock postState now powProvider)
| .attestation attestation isFromBlock =>
  returned (onAttestation store attestation isFromBlock)
| .electraAttestation attestation isFromBlock =>
  returned (onAttestationElectra store attestation isFromBlock)
| .attesterSlashing attesterSlashing =>
  onAttesterSlashing store attesterSlashing

def storeEffect (store : Store S) : StoreAction S → Store S
| .tick time => onTick store time
| .block signedBlock postState now powProvider =>
  (onBlock store signedBlock postState now powProvider).1
| .attestation attestation isFromBlock =>
  (onAttestation store attestation isFromBlock).1
| .electraAttestation attestation isFromBlock =>
  (onAttestationElectra store attestation isFromBlock).1
| .attesterSlashing attesterSlashing =>
  match onAttesterSlashing store attesterSlashing with
  | .ok after => after
  | .error _ => store

omit [BeaconSpec S] [SigningSpec S] [CommitteeSpec S] in
theorem returned_ok_iff {res : Store S × Except ForkChoiceError Unit}
    {s' : Store S} : returned res = .ok s' ↔ res.2 = .ok () ∧ res.1 = s' := by
  rcases res with ⟨st, outcome⟩
  cases outcome with
  | ok done | error e => simp [returned]

theorem storeStep_cases {st s' : Store S} {act : StoreAction S}
    (hStep : storeStep st act = .ok s') :
    (act.block? = none ∧ s'.knowledge = st.knowledge ∧ CheckpointsAdvance st s') ∨
      (∃ signed post now pow,
        act = .block signed post now pow ∧ (onBlock st signed post now pow).2 = .ok () ∧
          (onBlock st signed post now pow).1 = s') ∨
      (act.block? = none ∧ ∃ tgt, Voted st s' tgt) ∨
      (act.block? = none ∧ ∃ indices, s' = { st with equivocatingIndices := indices }) := by
  cases act with
  | tick t =>
    cases hStep
    exact .inl ⟨rfl, knowledge_onTick t, advance_onTick t⟩
  | block signed post now pow =>
    rcases returned_ok_iff.mp hStep with ⟨hOk, hPost⟩
    exact .inr (.inl ⟨signed, post, now, pow, rfl, hOk, hPost⟩)
  | attestation att isFromBlock =>
    rcases returned_ok_iff.mp hStep with ⟨hOk, hPost⟩
    rw [← hPost]
    exact .inr (.inr (.inl ⟨rfl, _, (counted_onAttestation st att isFromBlock).voted⟩))
  | electraAttestation att isFromBlock =>
    rcases returned_ok_iff.mp hStep with ⟨hOk, hPost⟩
    rw [← hPost]
    exact .inr (.inr (.inl ⟨rfl, _, (counted_onAttestationElectra st att isFromBlock).voted⟩))
  | attesterSlashing attesterSlashing =>
    rcases onAttesterSlashing_ok hStep with ⟨added, hPost⟩
    exact .inr (.inr (.inr ⟨rfl, _, hPost⟩))

theorem advance_storeStep {st s' : Store S} {act : StoreAction S}
    (hStep : storeStep st act = .ok s') : CheckpointsAdvance st s' := by
  rcases storeStep_cases hStep with ⟨_, _, hAdvance⟩ | ⟨signed, post, now, pow, _,
    hOk, rfl⟩ | ⟨_, tgt, states, messages, _, rfl⟩ | ⟨_, indices, rfl⟩
  · exact hAdvance
  · exact (advance_onBlock hOk).2
  · exact ⟨le_rfl, le_rfl, le_rfl, le_rfl⟩
  · exact ⟨le_rfl, le_rfl, le_rfl, le_rfl⟩

----
-- Ancestors of Ancestors
----

section

variable {S : Type} {st : Store S}

theorem ancestorStep_mono {blks : HashMap Root BeaconBlock} {early late : Slot}
    (hSlots : early ≤ late) {r par : Root}
    (hStep : ancestorStep blks late r = some par) :
    ancestorStep blks early r = some par := by
  unfold ancestorStep at hStep ⊢
  split at hStep
  · cases hStep
  · rename_i blk hBlk
    split at hStep
    · rename_i hLater
      rw [if_pos (lt_of_le_of_lt hSlots hLater)]
      exact hStep
    · cases hStep

/- The walk ends where the loop of the source ends. -/
theorem ancestorStep_getAncestor (hLinked : ParentLinked st.blocks) (r : Root) (slot : Slot) :
    ancestorStep st.blocks slot (getAncestor st r slot) = none := by
  rcases hLinked.exists_height with ⟨height, hRank, hBd⟩
  refine follow_stops ?_ (hBd r)
  intro node s' hStep
  exact hRank node s' (parentOf_of_ancestorStep hStep)

theorem getAncestor_getAncestor (hLinked : ParentLinked st.blocks) (r : Root)
    {early late : Slot} (hSlots : early ≤ late) :
    getAncestor st (getAncestor st r late) early = getAncestor st r early := by
  have hxs : Forest.Reaches (ancestorStep st.blocks early) r (getAncestor st r late) := by
    refine Relation.ReflTransGen.mono ?_ _ _ (follow_reaches _ r)
    intro node s' hStep
    exact ancestorStep_mono hSlots hStep
  refine eq_of_stops (hxs.trans (follow_reaches _ _))
    (ancestorStep_getAncestor hLinked _ early) (follow_reaches _ r)
    (ancestorStep_getAncestor hLinked r early)

end

----
-- Consistent Stores
----

section

variable {S : Type} [BeaconSpec S]

def Supplied (store : Store S) : StoreAction S → Prop
| .block signedBlock postState _ _ =>
  ∀ preState, store.blockStates.lookup signedBlock.message.parentRoot = some preState →
    stateTransition preState signedBlock true = .ok postState
| _ => True

def runBlocks (anchorBlock : BeaconBlock) (actions : List (StoreAction S)) : List BeaconBlock :=
  anchorBlock :: actions.filterMap StoreAction.block?

/-
  No two of some blocks have the same root, none but the block of the header in a state has the root
  of that header, and no chain of hashes is a cycle.
-/
structure HashesApart (state : S) (blocks : List BeaconBlock) : Prop where
  injective : ∀ first ∈ blocks, ∀ second ∈ blocks,
    treeHashRoot S first = treeHashRoot S second → first = second
  header : ∀ block ∈ blocks,
    treeHashRoot S block = (latestBlock state).2 → block.slot = (latestBlock state).1
  linked : HashLinked S blocks

/-
  What holds of the blocks in a store with a given anchor. The header in the state of a block is
  that of the block, if it has its root.
-/
structure Consistent (anchorRoot : Root) (blocks : List BeaconBlock)
    (store : Store S) : Prop where
  keyed : KeyedByRoot S blocks store.blocks
  sameKeys : ∀ root, root ∈ store.blocks ↔ root ∈ store.blockStates
  parents : ∀ root block, store.blocks.lookup root = some block → root ≠ anchorRoot →
    ∃ parent, store.blocks.lookup block.parentRoot = some parent ∧ parent.slot < block.slot
  headers : ∀ root block state, store.blocks.lookup root = some block →
    store.blockStates.lookup root = some state →
    (latestBlock state).2 = root → (latestBlock state).1 = block.slot

variable {anchorState : S} {anchorBlock : BeaconBlock} {blks : List BeaconBlock}

theorem consistent_anchored (hApart : HashesApart anchorState blks)
    (hMem : anchorBlock ∈ blks) :
    Consistent (treeHashRoot S anchorBlock) blks (getForkchoiceStore anchorState anchorBlock) where
  keyed := KeyedByRoot.getForkchoiceStore hMem
  sameKeys _ := Iff.rfl
  parents r blk hBlk hx := absurd (HashTable.lookup_singleton_iff.mp hBlk).1 hx
  headers r blk s hBlk hs hHeader := by
    rcases HashTable.lookup_singleton_iff.mp hBlk with ⟨hr, rfl⟩
    rcases HashTable.lookup_singleton_iff.mp hs with ⟨_, rfl⟩
    exact (hApart.header _ hMem (hr.symm.trans hHeader.symm)).symm

theorem Consistent.congr {anchorRoot : Root} {st s' : Store S}
    (hCons : Consistent anchorRoot blks st) (hBlks : s'.blocks = st.blocks)
    (hStates : s'.blockStates = st.blockStates) :
    Consistent anchorRoot blks s' where
  keyed := by
    rw [hBlks]
    exact hCons.keyed
  sameKeys := by
    rw [hBlks, hStates]
    exact hCons.sameKeys
  parents := by
    rw [hBlks]
    exact hCons.parents
  headers := by
    rw [hBlks, hStates]
    exact hCons.headers

end

----
-- One More Block
----

section

variable {S : Type} [BeaconSpec S] [LawfulBeaconSpec S]
variable {anchorState : S} {anchorRoot : Root} {blks : List BeaconBlock} {st : Store S}

open HashTable

theorem Consistent.parent_slot_lt (hChecks : ChecksParent S)
    (hCons : Consistent anchorRoot blks st) {signed : SignedBeaconBlock}
    {pre post : S}
    (hs : st.blockStates.lookup signed.message.parentRoot = some pre)
    (hTrans : stateTransition pre signed true = .ok post) :
    ∃ par, st.blocks.lookup signed.message.parentRoot = some par ∧
      par.slot < signed.message.slot := by
  have hIn : signed.message.parentRoot ∈ st.blocks := by
    rw [hCons.sameKeys]
    exact mem_iff.mpr ⟨_, hs⟩
  rcases mem_iff.mp hIn with ⟨par, hPar⟩
  refine ⟨par, hPar, ?_⟩
  have hHeader := hCons.headers _ par pre hPar hs (hChecks.stateTransition hTrans)
  rw [← hHeader]
  exact (stateTransition_ok hTrans).newer

variable (hInjective : ∀ a ∈ blks, ∀ b ∈ blks, treeHashRoot S a = treeHashRoot S b → a = b)
include hInjective

omit [LawfulBeaconSpec S] in
theorem lookup_insert_of_lookup
    (hKeyed : KeyedByRoot S blks st.blocks) {blk x : BeaconBlock}
    (hMem : blk ∈ blks) {r : Root} (hx : st.blocks.lookup r = some x) :
    (st.blocks.insert (treeHashRoot S blk) blk).lookup r = some x := by
  by_cases hr : r = treeHashRoot S blk
  · rcases hKeyed r x hx with ⟨hStored, hKey⟩
    have hEq : x = blk := hInjective x hStored blk hMem (hKey.trans hr)
    rw [hr, lookup_insert, hEq]
  · rw [lookup_insert_ne hr]
    exact hx

theorem Consistent.onBlock (hChecks : ChecksParent S)
    (hCons : Consistent anchorRoot blks st) {signed : SignedBeaconBlock}
    {post : S} {now : Nat} {pow : PowBlockProvider}
    (hMem : signed.message ∈ blks)
    (hSupplied : Supplied st (.block signed post now pow))
    (hOk : (onBlock st signed post now pow).2 = .ok ()) :
    Consistent anchorRoot blks (onBlock st signed post now pow).1 := by
  rcases onBlock_ok hOk with ⟨hParentKnown, hKnow⟩
  rcases mem_iff.mp hParentKnown with ⟨pre, hPreState⟩
  have hTrans := hSupplied pre hPreState
  have hBlks := blocks_of_add hKnow
  have hStates := states_of_add hKnow
  have hStay : ∀ r x, st.blocks.lookup r = some x →
      (st.blocks.insert (treeHashRoot S signed.message) signed.message).lookup
      r = some x := by
    intro r x hStored
    exact lookup_insert_of_lookup hInjective hCons.keyed hMem hStored
  refine ⟨?_, ?_, ?_, ?_⟩
  · rw [hBlks]
    exact hCons.keyed.insert hMem
  · intro r
    rw [hBlks, hStates, mem_insert, mem_insert, hCons.sameKeys]
  · intro r blk hBlk hx
    rw [hBlks] at hBlk ⊢
    rcases lookup_insert_cases hBlk with ⟨rfl, rfl⟩ | ⟨_, hBlk⟩
    · rcases hCons.parent_slot_lt hChecks hPreState hTrans with ⟨par, hPar, hSlot⟩
      exact ⟨par, hStay _ par hPar, hSlot⟩
    · rcases hCons.parents r blk hBlk hx with ⟨par, hPar, hSlot⟩
      exact ⟨par, hStay _ par hPar, hSlot⟩
  · intro r blk s hBlk hs hHeader
    rw [hBlks] at hBlk
    rw [hStates] at hs
    by_cases hr : r = treeHashRoot S signed.message
    · rw [hr, lookup_insert] at hBlk hs
      rw [← Option.some.inj hBlk, ← Option.some.inj hs, (stateTransition_ok hTrans).latest]
    · rw [lookup_insert_ne hr] at hBlk hs
      exact hCons.headers r blk s hBlk hs hHeader

theorem consistent_storeStep [SigningSpec S] [CommitteeSpec S]
    (hChecks : ChecksParent S) {s' : Store S}
    {act : StoreAction S} (hBlk : ∀ blk ∈ act.block?, blk ∈ blks)
    (hCons : Consistent anchorRoot blks st) (hSupplied : Supplied st act)
    (hStep : storeStep st act = .ok s') : Consistent anchorRoot blks s' := by
  rcases storeStep_cases hStep with ⟨_, hKnow, _⟩ |
    ⟨signed, post, now, pow, rfl, hOk, rfl⟩ |
    ⟨_, tgt, states, messages, _, rfl⟩ | ⟨_, indices, rfl⟩
  · exact hCons.congr (blocks_of_same hKnow) (states_of_same hKnow)
  · exact hCons.onBlock hInjective hChecks (hBlk _ rfl) hSupplied hOk
  · exact hCons.congr rfl rfl
  · exact hCons.congr rfl rfl

end

----
-- Runs
----

def storeAfter (anchorState : S) (anchorBlock : BeaconBlock)
    (actions : List (StoreAction S)) : Store S :=
  Run.final storeStep (getForkchoiceStore anchorState anchorBlock) actions

theorem advance_final (st : Store S) (acts : List (StoreAction S)) :
    CheckpointsAdvance st (Run.final storeStep st acts) := by
  refine Run.invariant_of_step (CheckpointsAdvance st) ?_ (CheckpointsAdvance.refl st)
  intro s act s' _ hPre hStep
  exact hPre.trans (advance_storeStep hStep)

variable [LawfulBeaconSpec S]

theorem consistent_storeAfter (hChecks : ChecksParent S) {anchorState : S}
    {anchorBlock : BeaconBlock} {acts : List (StoreAction S)}
    (hApart : HashesApart anchorState (runBlocks anchorBlock acts))
    (hSupplied :
      Run.StepsMeet storeStep Supplied (getForkchoiceStore anchorState anchorBlock) acts) :
    Consistent (treeHashRoot S anchorBlock) (runBlocks anchorBlock acts)
      (storeAfter anchorState anchorBlock acts) := by
  refine Run.invariant (Consistent (treeHashRoot S anchorBlock) (runBlocks anchorBlock acts))
    ?_ hSupplied (consistent_anchored hApart List.mem_cons_self)
  intro s act s' hAction hPre hHere hStep
  refine consistent_storeStep hApart.injective hChecks ?_ hPre hHere hStep
  intro blk hBlk
  exact List.mem_cons_of_mem _ (List.mem_filterMap.mpr ⟨act, hAction, hBlk⟩)

/-
  In every run from an anchor, a stored block has its parent in the store, with a smaller slot,
  unless it is the anchor; blocks and states have the same keys; no checkpoint goes back to an
  earlier epoch; and the walk to an ancestor ends and can rest on its way.
-/
theorem store_runs_keep_order (hChecks : ChecksParent S) (anchorState : S)
    (anchorBlock : BeaconBlock) (actions : List (StoreAction S))
    (hApart : HashesApart anchorState (runBlocks anchorBlock actions))
    (hSupplied : Run.StepsMeet storeStep Supplied (getForkchoiceStore anchorState anchorBlock)
      actions) :
    let store := storeAfter anchorState anchorBlock actions
    (∀ r blk, store.blocks.lookup r = some blk →
      r ≠ treeHashRoot S anchorBlock →
        ∃ par, store.blocks.lookup blk.parentRoot = some par ∧ par.slot < blk.slot) ∧
      (∀ r, r ∈ store.blocks ↔ r ∈ store.blockStates) ∧
      (∀ past xs,
        actions = past ++ xs →
          CheckpointsAdvance (storeAfter anchorState anchorBlock past) store) ∧
      (∀ r slot, ancestorStep store.blocks slot (getAncestor store r slot) = none) ∧
      (∀ r early late, early ≤ late → getAncestor store (getAncestor store r late) early =
        getAncestor store r early) := by
  have hCons :=
    consistent_storeAfter hChecks hApart hSupplied
  have hLinked :=
    hCons.keyed.parentLinked hApart.linked
  refine ⟨hCons.parents, hCons.sameKeys, ?_, ?_, ?_⟩
  · intro past xs hActions
    rw [hActions]
    unfold storeAfter
    rw [Run.final_append]
    exact advance_final _ xs
  · exact ancestorStep_getAncestor hLinked
  · intro r early late hSlots
    exact getAncestor_getAncestor hLinked r hSlots

open Sample

/- A slot passes, and a block is built on the anchor. -/
def oneBlockRun : List (StoreAction Sample.ChainState) :=
  let block := child anchorRoot 1 0 []
  [.tick 12, .block (signed block) (postState anchorState block) 12 fun _ => .ok none]

theorem oneBlockRun_keeps_order : ∃ block parent : BeaconBlock,
      (storeAfter anchorState anchorBlock oneBlockRun).blocks.lookup 1011 = some block ∧
        (storeAfter anchorState anchorBlock
          oneBlockRun).blocks.lookup block.parentRoot = some parent ∧
        parent.slot < block.slot := by
  have hApart : HashesApart anchorState (runBlocks anchorBlock oneBlockRun) := by
    refine ⟨by decide, by decide, hashLinked _⟩
  have hSupplied : Run.StepsMeet storeStep Supplied (getForkchoiceStore anchorState
      anchorBlock) oneBlockRun := by
    refine ⟨trivial, ?_, trivial⟩
    intro pre hs
    have hAnchor : anchorState = pre := Option.some.inj hs
    rw [← hAnchor]
    rfl
  have hOrder := (store_runs_keep_order checksParent anchorState anchorBlock
    oneBlockRun hApart hSupplied).1 1011 (child anchorRoot 1 0 []) rfl (by decide)
  rcases hOrder with ⟨parent, hPar, hSlot⟩
  exact ⟨_, parent, rfl, hPar, hSlot⟩

end Pharos.ForkChoice
