import Pharos.Gossip.Host

/-
  This file implements the validation of blocks received on gossip.

  A block that fails a check of its own, and not only of what is around it, is remembered by its
  root. Such a root marks the blocks and the votes that come after it.
-/

----
-- Checks
----

namespace Pharos.Gossip

open BeaconSpec CommitteeSpec SigningSpec Checks

section

variable {S : Type}

/- Remember a root and stop, if something is wrong. -/
def rejectIf (bad : Bool) (root : Root) (reason : String) : Validation S Unit :=
  if bad then do
    modify fun host =>
      { host with invalidBlockRoots := insert root host.invalidBlockRoots }
    stop (.reject reason)
  else
    pure ()

variable (fc : ForkChoice.Store S)

def invalidParentVerdict (parentRoot : Root) (reason : String) : GossipVerdict :=
  match (fc.payloadStatuses.lookup parentRoot).getD .notValidated with
  | .notValidated => .reject reason
  | _ => .ignore "block: parent invalid with known EL result"

/- A block comes before its slot, in exact arithmetic. -/
def Host.isFutureBlock (host : Host S) (block : BeaconBlock) : Bool :=
  host.nowMs + maximumGossipClockDisparityMs <
    host.forkChoice.genesisTime * 1000 + block.slot * host.runtimeCfg.secondsPerSlot * 1000

/- The number of commitments is above the limit of the fork. -/
def tooManyCommitments (cfg : RuntimeConfig) (block : BeaconBlock) : Bool :=
  match block.forkVariant with
  | .electra => cfg.maxBlobsPerBlockElectra < block.blobKzgCommitments.length
  | .deneb => cfg.maxBlobsPerBlock < block.blobKzgCommitments.length
  | _ => false

variable [BeaconSpec S]

section

variable (block : BeaconBlock)

def proposerOutOfRange : Bool :=
  match fc.blockStates.lookup block.parentRoot with
  | some state => (validators state).length ≤ block.proposerIndex
  | none => false

def parentElInvalid : Bool :=
  block.executionTimestamp.isSome && fc.payloadStatuses.lookup block.parentRoot = some .invalid

def notAfterParent : Bool :=
  block.slot ≤ ((fc.blocks.lookup block.parentRoot).map BeaconBlock.slot).getD 0

end

def finalizedNotAncestor (root : Root) : Bool :=
  ForkChoice.getCheckpointBlock fc root fc.finalizedCheckpoint.epoch ≠ fc.finalizedCheckpoint.root

/-
  The payload is live and does not have the time of the slot. It is live if the parent's state has a
  payload, or if it has a time at all.
-/
def wrongTimestamp [CommitteeSpec S] (cfg : RuntimeConfig) (block : BeaconBlock) : Bool :=
  match block.executionTimestamp with
  | none => false
  | some timestamp =>
    let expected := Word.satAdd fc.genesisTime (Word.satMul block.slot cfg.secondsPerSlot)
    let mergeComplete :=
      match (fc.blockStates.lookup block.parentRoot).bind latestExecutionBlockHash with
      | some hash => hash ≠ defaultHash
      | none => false
    (mergeComplete || timestamp ≠ 0) && timestamp ≠ expected

def proposerSignatureValid [SigningSpec S] (state : S) (pubkey : BLSPubkey)
    (signedBlock : SignedBeaconBlock) : Bool :=
  let block := signedBlock.message
  let domain := getDomain state .beaconProposer (computeEpochAtSlot S block.slot)
  blsVerify S pubkey (computeSigningRoot S (treeHashRoot S block) domain) signedBlock.signature

end

----
-- Validation
----

variable {S : Type} [BeaconSpec S]

def checkSurroundings (block : BeaconBlock) : Validation S Unit := do
  let fc ← asks Host.forkChoice
  let invalidParent ← asks fun host =>
    decide (block.parentRoot ∈ host.invalidBlockRoots)
  stopIf invalidParent (invalidParentVerdict fc block.parentRoot "block: parent in invalid set")
  let future ← asks fun host => host.isFutureBlock block
  stopIf future (.ignore "block: from future slot")
  stopIf (block.slot ≤ computeStartSlotAtEpoch S fc.finalizedCheckpoint.epoch)
    (.ignore "block: not greater than finalized slot")
  let seen ← asks fun host =>
    decide ((block.slot, block.proposerIndex) ∈ host.seenBlockProposers)
  stopIf seen (.ignore "block: duplicate proposer/slot")
  stopIf (proposerOutOfRange fc block) (.reject "block: proposer index out of range")
  stopIf (block.parentRoot ∉ fc.blocks) (.ignore "block: parent unseen")
  stopIf (block.parentRoot ∉ fc.blockStates)
    (invalidParentVerdict fc block.parentRoot "block: parent invalid")
  stopIf (parentElInvalid fc block) (.ignore "block: parent EL-invalid")

def checkContents [CommitteeSpec S] (block : BeaconBlock) : Validation S Unit := do
  let root := treeHashRoot S block
  let fc ← asks Host.forkChoice
  let cfg ← asks Host.runtimeCfg
  rejectIf (notAfterParent fc block) root "block: not higher than parent slot"
  rejectIf (finalizedNotAncestor fc block.parentRoot) root "block: finalized not ancestor"
  rejectIf (tooManyCommitments cfg block) root "block: too many blob kzg commitments"
  rejectIf (wrongTimestamp fc cfg block) root "block: incorrect execution payload timestamp"

def checkSignature [SigningSpec S] (expected : ValidatorIndex × S)
    (signedBlock : SignedBeaconBlock) :
    Validation S Unit := do
  let block := signedBlock.message
  let root := treeHashRoot S block
  rejectIf (expected.1 ≠ block.proposerIndex) root "block: proposer mismatch"
  match validatorPubkey expected.2 block.proposerIndex with
  | none => rejectIf true root "block: proposer index out of range"
  | some pubkey =>
    rejectIf (!proposerSignatureValid expected.2 pubkey signedBlock)
      root "block: invalid proposer signature"

def checkProposer [CommitteeSpec S] [SigningSpec S] (signedBlock : SignedBeaconBlock) :
    Validation S Unit := do
  let block := signedBlock.message
  let found ← lookupOrComputeExpectedProposer block.slot block.parentRoot
  let expected ← orStop found (.ignore "block: shuffling unavailable")
  checkSignature expected signedBlock

def validateBeaconBlock [CommitteeSpec S] [SigningSpec S]
    (signedBlock : SignedBeaconBlock) :
    Validation S Unit := do
  let block := signedBlock.message
  checkSurroundings block
  checkContents block
  checkProposer signedBlock
  modify fun host =>
    { host with
      seenBlockProposers := insert (block.slot, block.proposerIndex) host.seenBlockProposers }

end Pharos.Gossip
