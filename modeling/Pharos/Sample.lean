import Pharos.ForkChoice.Handlers
import Pharos.StateTransition
import Pharos.Validator.Signing

/-
  This file implements a protocol small enough to evaluate the node's logic on: four slots per
  epoch, three validators, and states that record the blocks applied to them. One epoch after its
  start, an epoch is justified and finalized. From slot 200 on, the balances have a sum of 2^64.
-/

----
-- Protocol
----

namespace Pharos.Sample

/- The slot, and the slots and roots of the applied blocks. -/
structure ChainState where
  slot : Slot
  applied : List (Slot × Root)
deriving DecidableEq, Repr

/- The decimals of a root spell the path from the anchor. -/
def treeHashRoot (block : BeaconBlock) : Root :=
  1000 * block.parentRoot + 10 * block.slot + block.proposerIndex + 1

def previousCheckpoint (state : ChainState) : Checkpoint :=
  let epoch := state.slot / 4 - 1
  let block := state.applied.find? fun entry =>
    entry.1 ≤ epoch * 4
  ⟨epoch, (block.map Prod.snd).getD defaultRoot⟩

def latestBlock (state : ChainState) : Slot × Root :=
  state.applied.head?.getD (0, defaultRoot)

def processBlock (state : ChainState) (block : BeaconBlock) :
    Except StateTransitionError ChainState :=
  if block.slot ≠ state.slot then
    .error (.blockProcessing "slot mismatch")
  else if block.slot ≤ (latestBlock state).1 then
    .error (.blockProcessing "block is not newer")
  else if (latestBlock state).2 ≠ block.parentRoot then
    .error (.blockProcessing "parent root mismatch")
  else
    .ok ⟨state.slot, (block.slot, treeHashRoot block) :: state.applied⟩

instance : BeaconSpec ChainState where
  slotsPerEpoch := 4
  slotDurationMs := 12000
  attestationDueBps := 3333
  basisPoints := 10000
  effectiveBalanceIncrement := 1
  treeHashRoot := treeHashRoot
  stateTreeHashRoot state :=
    (latestBlock state).2 + state.slot
  stateSlot := ChainState.slot
  latestBlock := latestBlock
  genesisTime _ := 0
  currentJustifiedCheckpoint := previousCheckpoint
  finalizedCheckpoint := previousCheckpoint
  validators state :=
    (if state.slot < 200 then [32, 32, 32] else [2 ^ 62, 2 ^ 62, 2 ^ 63]).map
      fun balance => ⟨balance, false, 0, 100⟩
  isMergeTransitionBlock _ _ := false
  getBeaconProposerIndex _ := 0
  getAttestingIndices _ attestation :=
    (attestation.aggregationBits.zipIdx.filter Prod.fst).map Prod.snd
  isValidIndexedAttestation _ _ := true
  processSlot state :=
    .ok { state with slot := state.slot + 1 }
  processBlock _ state signedBlock :=
    processBlock state signedBlock.message
  processJustificationAndFinalization := .ok

theorem processBlock_ok {s s' : ChainState} {blk : BeaconBlock}
    (hOk : processBlock s blk = .ok s') :
    s.slot = blk.slot ∧ (latestBlock s).1 < blk.slot ∧ (latestBlock s).2 = blk.parentRoot ∧
      s' = ⟨s.slot, (blk.slot, treeHashRoot blk) :: s.applied⟩ := by
  unfold processBlock at hOk
  split at hOk
  · cases hOk
  · rename_i hSlot
    split at hOk
    · cases hOk
    · rename_i hNewer
      split at hOk
      · cases hOk
      · rename_i hPar
        exact ⟨(not_not.mp hSlot).symm, not_le.mp hNewer, not_not.mp hPar, (Except.ok.inj hOk).symm⟩

instance : LawfulBeaconSpec ChainState where
  slot_processSlot hOk := by
    cases hOk
    rfl
  latestBlock_processSlot hOk := by
    cases hOk
    rfl
  slot_processBlock hOk := by
    rcases processBlock_ok hOk with ⟨hSlot, hNewer, _, hAfter⟩
    rw [hAfter]
    exact ⟨hSlot, hSlot, hNewer⟩
  latestBlock_processBlock hOk := by
    rw [(processBlock_ok hOk).2.2.2]
    rfl

theorem checksParent : ChecksParent ChainState := by
  intro _ s s' signed hOk
  exact (processBlock_ok hOk).2.2.1

/- A signature is valid if it is the root that is signed. -/
instance : SigningSpec ChainState where
  attestationDataRoot data :=
    1000 * data.beaconBlockRoot + 10 * data.slot + data.index
  slotRoot slot := slot
  aggregateAndProofRoot message := message.aggregatorIndex
  electraAggregateAndProofRoot message :=
    message.aggregatorIndex
  syncAggregatorSelectionDataRoot slot index := slot + index
  contributionAndProofRoot message := message.aggregatorIndex
  computeSigningRoot root _ := root
  hashSignature signature := signature
  getDomain _ _ _ := 0
  validatorPubkey _ index :=
    if index < 3 then some (100 + index) else none
  blsVerify _ root signature := signature = root
  fastAggregateVerify _ root signature := signature = root
  aggregate signatures := some signatures.sum

/- Two validators vote in the first slot, one in the second. -/
instance : CommitteeSpec ChainState where
  targetCommitteeSize := 1
  maxCommitteesPerSlot := 4
  syncCommitteeSize := 4
  syncCommitteeSubnetCount := 4
  epochsPerSyncCommitteePeriod := 8
  targetAggregatorsPerSyncSubcommittee := 1
  getBeaconCommittee _ slot index :=
    if index = 0 ∧ slot % 4 = 0 then [0, 1]
    else if index = 0 ∧ slot % 4 = 1 then [2]
    else []
  stateForkVariant _ := .bellatrix
  proposerLookaheadAt _ := none
  getBeaconProposerIndexElectra _ := 0
  latestExecutionBlockHash _ := none
  syncCommitteePubkeys _ := none

instance : Validator.DomainSpec ChainState where
  computeDomain _ version _ := version
  hexEncode root := toString root

----
-- Blocks
----

def child (parentRoot : Root) (slot : Slot) (proposerIndex : ValidatorIndex)
    (attestations : List Attestation) :
    BeaconBlock where
  forkVariant := .bellatrix
  slot
  proposerIndex
  parentRoot
  stateRoot := 1000 * parentRoot + 11 * slot + proposerIndex + 1
  executionBlockHash := some (slot + 1)
  executionParentHash := some slot
  executionTimestamp := some (12 * slot)
  attestations
  blobKzgCommitments := []

def anchorBlock : BeaconBlock :=
  child defaultRoot 0 0 []

def anchorRoot : Root :=
  treeHashRoot anchorBlock

def anchorState : ChainState :=
  ⟨0, [(0, anchorRoot)]⟩

def postState (parentState : ChainState) (block : BeaconBlock) : ChainState :=
  ⟨block.slot, (block.slot, treeHashRoot block) :: parentState.applied⟩

def signed (block : BeaconBlock) : SignedBeaconBlock :=
  ⟨block, 0⟩

/- A root is above the root of the parent. -/
theorem hashLinked (blks : List BeaconBlock) : ForkChoice.HashLinked ChainState blks := by
  have hAbove : ∀ par slot proposer : Nat, par < 1000 * par + 10 * slot + proposer + 1 := by
    omega
  refine ⟨id, ?_⟩
  intro blk _
  exact hAbove blk.parentRoot blk.slot blk.proposerIndex

end Pharos.Sample
