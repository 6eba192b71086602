import Pharos.ForkChoice.GetHead

/-
  This file implements the handlers that change the fork-choice store: the clock, a new block, a
  vote and proof of an equivocation.
-/

----
-- Terminal Blocks
----

namespace Pharos.ForkChoice

open BeaconSpec

variable {S : Type} [BeaconSpec S]

structure PowBlock where
  blockHash : Hash256
  parentHash : Hash256
  totalDifficulty : Nat
deriving DecidableEq, Repr

inductive PowBlockError where
  | executionLayer (reason : String)
deriving DecidableEq, Repr

abbrev PowBlockProvider :=
  Hash256 → Except PowBlockError (Option PowBlock)

inductive ValidateMergeBlockError where
  | activationEpochNotReached
  | parentHashMismatch
  | powBlockNotFound (hash : Hash256)
  | powParentNotFound (hash : Hash256)
  | invalidTerminalPowBlock
  | provider (source : PowBlockError)
deriving DecidableEq, Repr

def isValidTerminalPowBlock (block parent : PowBlock) (ttd : Nat) : Bool :=
  block.totalDifficulty ≥ ttd && parent.totalDifficulty < ttd

def getPowBlock (powProvider : PowBlockProvider) (hash : Hash256)
    (notFound : ValidateMergeBlockError) : Except ValidateMergeBlockError PowBlock :=
  match powProvider hash with
  | .error source => .error (.provider source)
  | .ok none => .error notFound
  | .ok (some block) => .ok block

def validateMergeBlock (payloadParentHash : Hash256) (currentEpoch : Epoch)
    (terminalBlockHash : Hash256) (terminalBlockHashActivationEpoch : Epoch)
    (terminalTotalDifficulty : Nat) (powProvider : PowBlockProvider) :
    Except ValidateMergeBlockError Unit := do
  if terminalBlockHash ≠ defaultHash then
    if currentEpoch < terminalBlockHashActivationEpoch then
      .error .activationEpochNotReached
    else if payloadParentHash ≠ terminalBlockHash then
      .error .parentHashMismatch
    else
      .ok ()
  else
    let powBlock ← getPowBlock powProvider payloadParentHash (.powBlockNotFound payloadParentHash)
    -- The first block of the execution chain has no parent.
    if powBlock.parentHash = defaultHash then
      if powBlock.totalDifficulty ≥ terminalTotalDifficulty then
        .ok ()
      else
        .error .invalidTerminalPowBlock
    else
      let powParent ← getPowBlock powProvider powBlock.parentHash
        (.powParentNotFound powBlock.parentHash)
      if isValidTerminalPowBlock powBlock powParent terminalTotalDifficulty then
        .ok ()
      else
        .error .invalidTerminalPowBlock

----
-- Checkpoints
----

inductive ForkChoiceError where
  | invalidBlock (reason : String)
  | invalidAttestation (reason : String)
  | missingBlock (root : Root)
  | beforeFinalized (slot finalizedSlot : Slot)
  | futureSlot (current blockSlot : Slot)
  | stateTransition (source : StateTransitionError)
  | epochProcessing (source : EpochProcessingError)
  | invalidTerminalPowBlock (source : ValidateMergeBlockError)
deriving DecidableEq, Repr

variable (store : Store S)

/- Take over checkpoints of a later epoch. -/
def updateCheckpoints (justified finalized : Checkpoint) : Store S :=
  { store with
    justifiedCheckpoint :=
      if justified.epoch > store.justifiedCheckpoint.epoch then
        justified
      else
        store.justifiedCheckpoint
    finalizedCheckpoint :=
      if finalized.epoch > store.finalizedCheckpoint.epoch then
        finalized
      else
        store.finalizedCheckpoint }

def updateUnrealizedCheckpoints (justified finalized : Checkpoint) : Store S :=
  { store with
    unrealizedJustifiedCheckpoint :=
      if justified.epoch > store.unrealizedJustifiedCheckpoint.epoch then
        justified
      else
        store.unrealizedJustifiedCheckpoint
    unrealizedFinalizedCheckpoint :=
      if finalized.epoch > store.unrealizedFinalizedCheckpoint.epoch then
        finalized
      else
        store.unrealizedFinalizedCheckpoint }

def computePulledUpTip (blockRoot : Root) : Except ForkChoiceError (Store S) :=
  match store.blockStates.lookup blockRoot with
  | none => .error (.missingBlock blockRoot)
  | some state =>
  match processJustificationAndFinalization state with
  | .error source => .error (.epochProcessing source)
  | .ok pulledUp =>
    let justified := currentJustifiedCheckpoint pulledUp
    let finalized := BeaconSpec.finalizedCheckpoint pulledUp
    let recorded :=
      { store with
        unrealizedJustifications := store.unrealizedJustifications.insert blockRoot justified }
    let updated := updateUnrealizedCheckpoints recorded justified finalized
    let blockEpoch :=
      ((updated.blocks.lookup blockRoot).map fun block =>
        computeEpochAtSlot S block.slot).getD 0
    if blockEpoch < getCurrentStoreEpoch updated then
      .ok (updateCheckpoints updated justified finalized)
    else
      .ok updated

----
-- Clock
----

def onTickPerSlot (time : Nat) : Store S :=
  let previousSlot := getCurrentSlot store
  let ticked := { store with time }
  let currentSlot := getCurrentSlot ticked
  if currentSlot > previousSlot then
    let reset := { ticked with proposerBoostRoot := defaultRoot }
    if computeSlotsSinceEpochStart S currentSlot = 0 then
      updateCheckpoints reset reset.unrealizedJustifiedCheckpoint
        reset.unrealizedFinalizedCheckpoint
    else
      reset
  else
    ticked

def catchUp (slotMs : Nat) (tickSlot : Slot) : Nat → Store S → Store S
| 0, store => store
| fuel + 1, store =>
  if getCurrentSlot store < tickSlot then
    let previousTime := slotStartTime (getCurrentSlot store + 1) store.genesisTime slotMs
    catchUp slotMs tickSlot fuel (onTickPerSlot store previousTime)
  else
    store

def onTick (time : Nat) : Store S :=
  let slotMs := storeSlotMs store
  let tickSlot := slotFromTime time store.genesisTime slotMs
  onTickPerSlot (catchUp slotMs tickSlot (tickSlot - getCurrentSlot store) store) time

----
-- Blocks
----

section

variable (S) in
def getSlotComponentDurationMs (basisPointsOfSlot : Nat) : Nat :=
  basisPointsOfSlot * slotDurationMs S / basisPoints S

variable (store : Store S)

/- Note whether a block came before attestations are due. -/
def recordBlockTimeliness (root : Root) : Store S :=
  let isBeforeAttestingInterval :=
    timeIntoCurrentSlotMs store < getSlotComponentDurationMs S (attestationDueBps S)
  let isTimely := getCurrentSlot store = blockSlotOrZero store root ∧ isBeforeAttestingInterval
  { store with blockTimeliness := store.blockTimeliness.insert root isTimely }

def updateProposerBoostRoot (root : Root) : Store S :=
  let isFirstBlock := store.proposerBoostRoot = defaultRoot
  let isTimely := (store.blockTimeliness.lookup root).getD false
  if isTimely ∧ isFirstBlock then
    match store.blockStates.lookup (getHead store) with
    | none => store
    | some headState =>
    match processSlotsFork headState (getCurrentSlot store) with
    | .error _ => store
    | .ok advanced =>
    match store.blocks.lookup root with
    | none => store
    | some block =>
      if block.proposerIndex = getBeaconProposerIndex advanced then
        { store with proposerBoostRoot := root }
      else
        store
  else
    store

def validateMergeTransition (preState : S) (block : BeaconBlock)
    (powProvider : PowBlockProvider) : Except ForkChoiceError Unit :=
  if isMergeTransitionBlock preState block then
    match validateMergeBlock (block.executionParentHash.getD defaultHash)
        (computeEpochAtSlot S block.slot)
        store.terminalBlockHash
        store.terminalBlockHashActivationEpoch
        store.terminalTotalDifficulty powProvider with
    | .ok () => .ok ()
    -- The terminal block is unknown: imported optimistically.
    | .error (.powBlockNotFound _) => .ok ()
    | .error source => .error (.invalidTerminalPowBlock source)
  else
    .ok ()

def validateOnBlock (block : BeaconBlock) (powProvider : PowBlockProvider) :
    Except ForkChoiceError Unit :=
  match store.blockStates.lookup block.parentRoot with
  | none => .error (.missingBlock block.parentRoot)
  | some preState =>
    let currentSlot := getCurrentSlot store
    let finalizedSlot := computeStartSlotAtEpoch S store.finalizedCheckpoint.epoch
    if currentSlot < block.slot then
      .error (.futureSlot currentSlot block.slot)
    else if block.slot ≤ finalizedSlot then
      .error (.beforeFinalized block.slot finalizedSlot)
    else if store.finalizedCheckpoint.root ≠ getCheckpointBlock store block.parentRoot
          store.finalizedCheckpoint.epoch then
      .error (.invalidBlock "block is not a descendant of the finalized checkpoint")
    else
      validateMergeTransition store preState block powProvider

def insertBlock (block : BeaconBlock) (postState : S) : Store S :=
  let blockRoot := treeHashRoot S block
  { store with
    blocks := store.blocks.insert blockRoot block
    blockStates := store.blockStates.insert blockRoot postState }

/- Add a checked block, before its tip is pulled up. -/
def acceptBlock (block : BeaconBlock) (postState : S) (now : Nat) : Store S :=
  let blockRoot := treeHashRoot S block
  let inserted :=
    (insertBlock store block postState).markPayloadStatusIfAbsent blockRoot .notValidated
  let timed :=
    { recordBlockTimeliness { inserted with time := now } blockRoot with
      time := store.time }
  let boosted := updateProposerBoostRoot timed blockRoot
  updateCheckpoints boosted (currentJustifiedCheckpoint postState)
    (BeaconSpec.finalizedCheckpoint postState)

/- Add a block. When pulling up the tip fails, the block has already been added. -/
def onBlock (signedBlock : SignedBeaconBlock) (postState : S)
    (now : Nat) (powProvider : PowBlockProvider) : Store S × Except ForkChoiceError Unit :=
  let block := signedBlock.message
  match validateOnBlock store block powProvider with
  | .error refusal => (store, .error refusal)
  | .ok () =>
    let accepted := acceptBlock store block postState now
    match computePulledUpTip accepted (treeHashRoot S block) with
    | .error refusal => (accepted, .error refusal)
    | .ok pulledUp => (pulledUp, .ok ())

----
-- Votes
----

def validateTargetEpochAgainstCurrentTime (data : AttestationData) : Except ForkChoiceError Unit :=
  let targetEpoch := data.target.epoch
  let currentEpoch := getCurrentStoreEpoch store
  let previousEpoch := currentEpoch - 1
  if targetEpoch ≠ currentEpoch ∧ targetEpoch ≠ previousEpoch then
    .error (.invalidAttestation
      s!"target epoch {targetEpoch} is neither current ({currentEpoch}) nor previous ({previousEpoch})")
  else
    .ok ()

def validateOnAttestationData (data : AttestationData) (isFromBlock : Bool) :
    Except ForkChoiceError Unit := do
  let target := data.target
  let targetEpoch := target.epoch
  let slot := data.slot
  if !isFromBlock then
    validateTargetEpochAgainstCurrentTime store data
  let expectedEpoch := computeEpochAtSlot S slot
  if targetEpoch ≠ expectedEpoch then
    .error (.invalidAttestation
      s!"target epoch {targetEpoch} != epoch at attestation slot {slot} (expected {expectedEpoch})")
  else if target.root ∉ store.blocks then
    .error (.missingBlock target.root)
  else if data.beaconBlockRoot ∉ store.blocks then
    .error (.missingBlock data.beaconBlockRoot)
  else
    let attestedSlot := blockSlotOrZero store data.beaconBlockRoot
    let currentSlot := getCurrentSlot store
    if attestedSlot > slot then
      .error (.invalidAttestation s!"attested block slot {attestedSlot} > attestation slot {slot}")
    else if target.root ≠ getCheckpointBlock store data.beaconBlockRoot targetEpoch then
      .error (.invalidAttestation "target root is not the checkpoint block for the target epoch")
    else if currentSlot < slot + 1 then
      .error (.invalidAttestation
        s!"attestation slot {slot} is not in the past (current {currentSlot})")
    else
      .ok ()

def targetCheckpointState (target : Checkpoint) : Except ForkChoiceError S :=
  match store.checkpointStates.lookup target with
  | some state => .ok state
  | none =>
  match store.blockStates.lookup target.root with
  | none => .error (.missingBlock target.root)
  | some baseState =>
    (processSlotsFork baseState (computeStartSlotAtEpoch S target.epoch)).mapError .stateTransition

def storeTargetCheckpointState (target : Checkpoint) : Except ForkChoiceError (Store S) := do
  let state ← targetCheckpointState store target
  if target ∈ store.checkpointStates then
    return store
  else
    return { store with checkpointStates := store.checkpointStates.insert target state }

/- A vote replaces the latest one of an earlier epoch. -/
def updateLatestMessage (data : AttestationData) (store : Store S) (index : ValidatorIndex) :
    Store S :=
  let shouldUpdate :=
    match store.latestMessages.lookup index with
    | none => true
    | some message => data.target.epoch > message.epoch
  if index ∈ store.equivocatingIndices then
    store
  else if shouldUpdate then
    { store with
      latestMessages := store.latestMessages.insert index
        ⟨data.target.epoch, data.beaconBlockRoot⟩ }
  else
    store

def updateLatestMessages (attestingIndices : List ValidatorIndex)
    (data : AttestationData) : Store S :=
  attestingIndices.foldl (updateLatestMessage data) store

/-
  Check a vote and record it. The state of its target stays in the store even when the vote is then
  refused.
-/
def onAttestation (attestation : Attestation) (isFromBlock : Bool) :
    Store S × Except ForkChoiceError Unit :=
  let target := attestation.data.target
  match validateOnAttestationData store attestation.data isFromBlock with
  | .error refusal => (store, .error refusal)
  | .ok () =>
  match storeTargetCheckpointState store target with
  | .error refusal => (store, .error refusal)
  | .ok prepared =>
  match prepared.checkpointStates.lookup target with
  | none => (prepared, .error (.missingBlock target.root))
  | some targetState =>
    let indexed : IndexedAttestation :=
      ⟨(getAttestingIndices targetState attestation).mergeSort,
        attestation.data, attestation.signature⟩
    if isValidIndexedAttestation targetState indexed then
      (updateLatestMessages prepared indexed.attestingIndices attestation.data, .ok ())
    else
      (prepared, .error (.invalidAttestation "invalid indexed attestation signature"))

def isSlashableAttestationData (first second : AttestationData) : Bool :=
  (first ≠ second ∧ first.target.epoch = second.target.epoch) ∨
    (first.source.epoch < second.source.epoch ∧ second.target.epoch < first.target.epoch)

/- Exclude the votes of equivocating validators. -/
def onAttesterSlashing (attesterSlashing : AttesterSlashing) : Except ForkChoiceError (Store S) :=
  let att1 := attesterSlashing.attestation1
  let att2 := attesterSlashing.attestation2
  if !isSlashableAttestationData att1.data att2.data then
    .error (.invalidAttestation "attestation data is not slashable")
  else
    match store.blockStates.lookup store.justifiedCheckpoint.root with
    | none => .error (.missingBlock store.justifiedCheckpoint.root)
    | some state =>
      if !isValidIndexedAttestation state att1 then
        .error (.invalidAttestation "attestation_1 is not a valid indexed attestation")
      else if !isValidIndexedAttestation state att2 then
        .error (.invalidAttestation "attestation_2 is not a valid indexed attestation")
      else
        let common := att1.attestingIndices.filter fun index =>
          index ∈ att2.attestingIndices
        .ok { store with equivocatingIndices := store.equivocatingIndices ∪ common.toFinset }

----
-- What the Handlers Leave Alone
----

/-
  The part of a store that neither the clock nor the bookkeeping of checkpoints and of the boost
  touches.
-/
structure Knowledge (S : Type) where
  blocks : HashMap Root BeaconBlock
  blockStates : HashMap Root S
  checkpointStates : HashMap Checkpoint S
  latestMessages : HashMap ValidatorIndex LatestMessage
  equivocatingIndices : Finset ValidatorIndex
  payloadStatuses : HashMap Root PayloadStatus

def Store.knowledge : Knowledge S where
  blocks := store.blocks
  blockStates := store.blockStates
  checkpointStates := store.checkpointStates
  latestMessages := store.latestMessages
  equivocatingIndices := store.equivocatingIndices
  payloadStatuses := store.payloadStatuses

def Knowledge.addBlock (known : Knowledge S) (block : BeaconBlock) (postState : S) :
    Knowledge S :=
  let blockRoot : Root := treeHashRoot S block
  { known with
    blocks := known.blocks.insert blockRoot block
    blockStates := known.blockStates.insert blockRoot postState
    payloadStatuses :=
      if blockRoot ∈ known.payloadStatuses then
        known.payloadStatuses
      else
        known.payloadStatuses.insert blockRoot .notValidated }

variable {st : Store S}

section

variable {x : Store S} {blk : BeaconBlock} {post : S}

section

variable (hKnow : x.knowledge = st.knowledge)
include hKnow
omit [BeaconSpec S]

theorem blocks_of_same : x.blocks = st.blocks :=
  congrArg Knowledge.blocks hKnow

theorem states_of_same : x.blockStates = st.blockStates :=
  congrArg Knowledge.blockStates hKnow

theorem statuses_of_same : x.payloadStatuses = st.payloadStatuses :=
  congrArg Knowledge.payloadStatuses hKnow

end

theorem blocks_of_add (hKnow : x.knowledge = st.knowledge.addBlock blk post) :
    x.blocks = st.blocks.insert (treeHashRoot S blk) blk :=
  congrArg Knowledge.blocks hKnow

theorem states_of_add (hKnow : x.knowledge = st.knowledge.addBlock blk post) :
    x.blockStates = st.blockStates.insert (treeHashRoot S blk) post :=
  congrArg Knowledge.blockStates hKnow

/- The verdict on a block that is known already stays. -/
theorem statuses_of_add (hKnow : x.knowledge = st.knowledge.addBlock blk post) (r : Root) :
    x.payloadStatuses.lookup r = if r = treeHashRoot S blk then
      some ((st.payloadStatuses.lookup r).getD .notValidated) else st.payloadStatuses.lookup r := by
  have hStatuses : x.payloadStatuses = _ := congrArg Knowledge.payloadStatuses hKnow
  rw [hStatuses, Knowledge.addBlock]
  grind [HashTable.mem_iff, AList.lookup_insert, AList.lookup_insert_ne, AList.lookup_eq_none,
    Store.knowledge]

end

theorem knowledge_markIfAbsent_insertBlock (blk : BeaconBlock) (post : S) :
    ((insertBlock st blk
      post).markPayloadStatusIfAbsent (treeHashRoot S blk) .notValidated).knowledge =
      st.knowledge.addBlock blk post := by
  have hEq : (insertBlock st blk post).payloadStatuses = st.knowledge.payloadStatuses := rfl
  unfold Store.markPayloadStatusIfAbsent Knowledge.addBlock
  rw [hEq]
  by_cases hIn : treeHashRoot S blk ∈ st.knowledge.payloadStatuses
  · simp only [hIn, if_true]
    rfl
  · simp only [hIn, if_false]
    rfl

@[simp] theorem knowledge_onTickPerSlot (t : Nat) :
    (onTickPerSlot st t).knowledge = st.knowledge := by
  unfold onTickPerSlot
  dsimp only
  split
  · split
    · rfl
    · rfl
  · rfl

/- What holds from slot to slot holds after a tick. -/
theorem onTick_induction {P : Store S → Prop} (hStart : P st)
    (hSlot : ∀ s t, P s → P (onTickPerSlot s t)) (t : Nat) : P (onTick st t) := by
  have hCaughtUp : ∀ slotMs tickSlot fuel, P (catchUp slotMs tickSlot fuel st) := by
    intro slotMs tickSlot fuel
    induction fuel generalizing st with
    | zero => exact hStart
    | succ fuel ih =>
      rw [catchUp]
      split
      · exact ih (hSlot _ _ hStart)
      · exact hStart
  exact hSlot _ t (hCaughtUp _ _ _)

@[simp] theorem knowledge_onTick (t : Nat) : (onTick st t).knowledge = st.knowledge := by
  refine onTick_induction (P := fun s => s.knowledge = st.knowledge) rfl ?_ t
  intro s t hEq
  rw [knowledge_onTickPerSlot, hEq]

theorem updateProposerBoostRoot_eq (st : Store S) (r : Root) :
    updateProposerBoostRoot st r = { st with
        proposerBoostRoot := (updateProposerBoostRoot st r).proposerBoostRoot } := by
  unfold updateProposerBoostRoot
  dsimp only
  repeat' split
  all_goals rfl

@[simp] theorem knowledge_updateProposerBoostRoot (r : Root) :
    (updateProposerBoostRoot st r).knowledge = st.knowledge := by
  rw [updateProposerBoostRoot_eq]
  rfl

theorem knowledge_acceptBlock (blk : BeaconBlock) (post : S) (now : Nat) :
    (acceptBlock st blk post now).knowledge = st.knowledge.addBlock blk post := by
  rw [← knowledge_markIfAbsent_insertBlock]
  exact knowledge_updateProposerBoostRoot _

theorem lookup_blockStates_acceptBlock (blk : BeaconBlock) (post : S) (now : Nat) :
    (acceptBlock st blk post now).blockStates.lookup (treeHashRoot S blk) = some post := by
  show (acceptBlock st blk post now).knowledge.blockStates.lookup _ = _
  rw [knowledge_acceptBlock]
  exact AList.lookup_insert _

theorem knowledge_computePulledUpTip {r : Root} {s' : Store S}
    (hOk : computePulledUpTip st r = .ok s') : s'.knowledge = st.knowledge := by
  unfold computePulledUpTip at hOk
  split at hOk
  · cases hOk
  · split at hOk
    · cases hOk
    · dsimp only at hOk
      split at hOk
      · cases hOk
        rfl
      · cases hOk
        rfl

variable {pow : PowBlockProvider}

theorem parent_mem_of_validateOnBlock {blk : BeaconBlock}
    (hValid : validateOnBlock st blk pow = .ok ()) :
    blk.parentRoot ∈ st.blockStates := by
  unfold validateOnBlock at hValid
  split at hValid
  · cases hValid
  · rename_i pre hs
    exact HashTable.mem_iff.mpr ⟨_, hs⟩

variable {signed : SignedBeaconBlock} {post : S} {now : Nat}

theorem onBlock_ok (hOk : (onBlock st signed post now pow).2 = .ok ()) :
    signed.message.parentRoot ∈ st.blockStates ∧
      (onBlock st signed post now pow).1.knowledge = st.knowledge.addBlock signed.message post := by
  unfold onBlock at hOk ⊢
  dsimp only at hOk ⊢
  split at hOk
  · cases hOk
  · rename_i hValid
    split at hOk
    · cases hOk
    · rename_i pulledUp hPulled
      refine ⟨parent_mem_of_validateOnBlock hValid, ?_⟩
      rw [knowledge_computePulledUpTip hPulled, knowledge_acceptBlock]

theorem onBlock_of_pullUp_error
    (hValid : validateOnBlock st signed.message pow = .ok ())
    {src : EpochProcessingError}
    (hFails : processJustificationAndFinalization post = .error src) :
    onBlock st signed post now pow =
      (acceptBlock st signed.message post now, .error (.epochProcessing src)) := by
  unfold onBlock computePulledUpTip
  simp only [hValid, lookup_blockStates_acceptBlock, hFails]

theorem onBlock_of_pullUp_ok
    (hValid : validateOnBlock st signed.message pow = .ok ()) {pulledUp : S}
    (hPulled : processJustificationAndFinalization post = .ok pulledUp) :
    (onBlock st signed post now pow).2 = .ok () := by
  unfold onBlock computePulledUpTip
  simp only [hValid, lookup_blockStates_acceptBlock, hPulled]
  split
  · rename_i hErr
    split at hErr
    · cases hErr
    · cases hErr
  · rfl

theorem onBlock_cases (st : Store S) (signed : SignedBeaconBlock) (post : S)
    (now : Nat) (pow : PowBlockProvider) :
    (onBlock st signed post now pow).1 = st ∨
      signed.message.parentRoot ∈ st.blockStates ∧
        (onBlock st signed post now pow).1.knowledge =
          st.knowledge.addBlock signed.message post := by
  unfold onBlock
  dsimp only
  split
  · exact .inl rfl
  · rename_i hValid
    refine .inr ⟨parent_mem_of_validateOnBlock hValid, ?_⟩
    split
    · exact knowledge_acceptBlock _ _ _
    · rename_i pulledUp hPulled
      rw [knowledge_computePulledUpTip hPulled, knowledge_acceptBlock]

end

----
-- Finalization
----

section

def Store.finalizedEpoch (store : Store S) : Epoch :=
  store.finalizedCheckpoint.epoch

/- The checkpoints of a store only move on to later epochs. -/
structure CheckpointsAdvance (before after : Store S) : Prop where
  justified : before.justifiedCheckpoint.epoch ≤ after.justifiedCheckpoint.epoch
  finalized : before.finalizedEpoch ≤ after.finalizedEpoch
  unrealizedJustified :
    before.unrealizedJustifiedCheckpoint.epoch ≤ after.unrealizedJustifiedCheckpoint.epoch
  unrealizedFinalized :
    before.unrealizedFinalizedCheckpoint.epoch ≤ after.unrealizedFinalizedCheckpoint.epoch

section Advance

omit [BeaconSpec S]

variable {st : Store S}

theorem CheckpointsAdvance.refl (st : Store S) : CheckpointsAdvance st st :=
  ⟨le_rfl, le_rfl, le_rfl, le_rfl⟩

theorem CheckpointsAdvance.trans {s mid s' : Store S}
    (hFst : CheckpointsAdvance s mid) (hSnd : CheckpointsAdvance mid s') :
    CheckpointsAdvance s s' where
  justified := le_trans hFst.justified hSnd.justified
  finalized := le_trans hFst.finalized hSnd.finalized
  unrealizedJustified := le_trans hFst.unrealizedJustified hSnd.unrealizedJustified
  unrealizedFinalized := le_trans hFst.unrealizedFinalized hSnd.unrealizedFinalized

/- The later of two checkpoints, as the store takes it over. -/
theorem epoch_le_ite (cur candidate : Checkpoint) :
    cur.epoch ≤ (if candidate.epoch > cur.epoch then candidate else cur).epoch := by
  split
  · rename_i hLater
    exact le_of_lt hLater
  · exact le_rfl

theorem advance_updateCheckpoints (justified final : Checkpoint) :
    CheckpointsAdvance st (updateCheckpoints st justified final) where
  justified := epoch_le_ite _ _
  finalized := epoch_le_ite _ _
  unrealizedJustified := le_rfl
  unrealizedFinalized := le_rfl

end Advance

variable {st : Store S}

/- The clock takes over what would be justified by now. -/
theorem advance_onTickPerSlot (t : Nat) : CheckpointsAdvance st (onTickPerSlot st t) := by
  unfold onTickPerSlot
  dsimp only
  split
  · split
    · refine CheckpointsAdvance.trans ?_ (advance_updateCheckpoints _ _)
      exact ⟨le_rfl, le_rfl, le_rfl, le_rfl⟩
    · exact ⟨le_rfl, le_rfl, le_rfl, le_rfl⟩
  · exact ⟨le_rfl, le_rfl, le_rfl, le_rfl⟩

theorem advance_onTick (t : Nat) : CheckpointsAdvance st (onTick st t) :=
  onTick_induction (.refl st) (fun _ t hAdv => hAdv.trans (advance_onTickPerSlot t)) t

theorem advance_acceptBlock (blk : BeaconBlock) (post : S) (now : Nat) :
    CheckpointsAdvance st (acceptBlock st blk post now) := by
  have hMarked : CheckpointsAdvance st ((insertBlock st blk
      post).markPayloadStatusIfAbsent (treeHashRoot S blk) .notValidated) := by
    unfold Store.markPayloadStatusIfAbsent
    split
    · exact ⟨le_rfl, le_rfl, le_rfl, le_rfl⟩
    · exact ⟨le_rfl, le_rfl, le_rfl, le_rfl⟩
  refine CheckpointsAdvance.trans ?_ (advance_updateCheckpoints _ _)
  rw [updateProposerBoostRoot_eq]
  exact hMarked.trans ⟨le_rfl, le_rfl, le_rfl, le_rfl⟩

theorem advance_computePulledUpTip {r : Root} {s' : Store S}
    (hOk : computePulledUpTip st r = .ok s') : CheckpointsAdvance st s' := by
  unfold computePulledUpTip at hOk
  split at hOk
  · cases hOk
  · split at hOk
    · cases hOk
    · rename_i pulledUp _
      have hUnrealized : CheckpointsAdvance st (updateUnrealizedCheckpoints { st with
              unrealizedJustifications := st.unrealizedJustifications.insert r
                (currentJustifiedCheckpoint pulledUp) }
            (currentJustifiedCheckpoint pulledUp)
            (BeaconSpec.finalizedCheckpoint pulledUp)) :=
        ⟨le_rfl, le_rfl, epoch_le_ite _ _, epoch_le_ite _ _⟩
      dsimp only at hOk
      split at hOk
      · cases hOk
        exact hUnrealized.trans (advance_updateCheckpoints _ _)
      · cases hOk
        exact hUnrealized

theorem advance_onBlock {signed : SignedBeaconBlock} {post : S}
    {now : Nat} {pow : PowBlockProvider}
    (hOk : (onBlock st signed post now pow).2 = .ok ()) :
    computeStartSlotAtEpoch S st.finalizedEpoch < signed.message.slot ∧
      CheckpointsAdvance st (onBlock st signed post now pow).1 := by
  unfold onBlock at hOk ⊢
  dsimp only at hOk ⊢
  split at hOk
  · cases hOk
  · rename_i hValid
    split at hOk
    · cases hOk
    · rename_i pulledUp hPulled
      refine ⟨?_, ?_⟩
      · unfold validateOnBlock at hValid
        split at hValid
        · cases hValid
        · dsimp only at hValid
          split at hValid
          · cases hValid
          · split at hValid
            · cases hValid
            · rename_i hPast
              exact not_le.mp hPast
      · exact (advance_acceptBlock _ _ _).trans (advance_computePulledUpTip hPulled)

end

----
-- Links by Hashes
----

variable (S) in
def HashLinked (blocks : List BeaconBlock) : Prop :=
  ∃ rank : Root → Nat, ∀ block ∈ blocks, rank block.parentRoot < rank (treeHashRoot S block)

variable (S) in
def KeyedByRoot (blocks : List BeaconBlock) (stored : HashMap Root BeaconBlock) : Prop :=
  ∀ root block, stored.lookup root = some block → block ∈ blocks ∧ treeHashRoot S block = root

namespace KeyedByRoot

variable {blks : List BeaconBlock} {old : HashMap Root BeaconBlock}

section

variable (hKeyed : KeyedByRoot S blks old)
include hKeyed

theorem parentLinked (hLinked : HashLinked S blks) : ParentLinked old := by
  rcases hLinked with ⟨rank, hRank⟩
  refine ⟨rank, ?_⟩
  intro c par hPar
  rcases parentOf_some_iff.mp hPar with ⟨blk, hBlk, hUp⟩
  rcases hKeyed c blk hBlk with ⟨hMem, hr⟩
  have hLess := hRank blk hMem
  rw [hUp, hr] at hLess
  exact hLess

theorem insert {blk : BeaconBlock}
    (hMem : blk ∈ blks) :
    KeyedByRoot S blks (old.insert (treeHashRoot S blk) blk) := by
  intro r x hx
  rcases HashTable.lookup_insert_cases hx with ⟨rfl, rfl⟩ | ⟨_, hx⟩
  · exact ⟨hMem, rfl⟩
  · exact hKeyed r x hx

theorem mono {more : List BeaconBlock}
    (hSubset : ∀ blk ∈ blks, blk ∈ more) : KeyedByRoot S more old := by
  intro r blk hBlk
  rcases hKeyed r blk hBlk with ⟨hMem, hr⟩
  exact ⟨hSubset blk hMem, hr⟩

end

theorem getForkchoiceStore {anchorState : S} {anchorBlock : BeaconBlock}
    (hMem : anchorBlock ∈ blks) :
    KeyedByRoot S blks (getForkchoiceStore anchorState anchorBlock).blocks := by
  intro r blk hBlk
  rcases HashTable.lookup_singleton_iff.mp hBlk with ⟨rfl, rfl⟩
  exact ⟨hMem, rfl⟩

end KeyedByRoot

end Pharos.ForkChoice
