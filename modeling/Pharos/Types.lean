import Mathlib.Data.List.AList
import Pharos.Lib.Word

/-
  This file implements the data of the beacon chain that the node's logic reads, and the interface
  to the parts of the protocol that it calls: hashing and the state transition.

  Roots and hashes are natural numbers; their order is the byte order that breaks ties, and zero is
  the default root. Hash maps are association lists, whose order is the order of iteration.
-/

----
-- Primitive Types
----

namespace Pharos

abbrev Root := Nat

abbrev Hash256 := Nat

abbrev Slot := Nat

abbrev Epoch := Nat

abbrev Gwei := Nat

abbrev ValidatorIndex := Nat

abbrev KzgCommitment := Nat

abbrev defaultRoot : Root := 0

abbrev defaultHash : Hash256 := 0

abbrev genesisEpoch : Epoch := 0

abbrev HashMap (Key Value : Type) :=
  AList fun _ : Key => Value

----
-- Containers
----

structure Checkpoint where
  epoch : Epoch
  root : Root
deriving DecidableEq, Repr

def Checkpoint.default : Checkpoint where
  epoch := 0
  root := defaultRoot

structure Validator where
  effectiveBalance : Gwei
  slashed : Bool
  activationEpoch : Epoch
  exitEpoch : Epoch
deriving DecidableEq, Repr

structure AttestationData where
  slot : Slot
  index : Nat
  beaconBlockRoot : Root
  source : Checkpoint
  target : Checkpoint
deriving DecidableEq, Repr

structure Attestation where
  aggregationBits : List Bool
  data : AttestationData
  signature : Nat
deriving DecidableEq, Repr

structure IndexedAttestation where
  attestingIndices : List ValidatorIndex
  data : AttestationData
  signature : Nat
deriving DecidableEq, Repr

structure AttesterSlashing where
  attestation1 : IndexedAttestation
  attestation2 : IndexedAttestation
deriving DecidableEq, Repr

/- The forks of the protocol, oldest first. -/
inductive ForkVariant where
  | phase0
  | altair
  | bellatrix
  | capella
  | deneb
  | electra
  | fulu
deriving DecidableEq, Repr

/-
  A block of any fork. The execution fields are absent before Bellatrix, and there are no
  commitments before Deneb.
-/
structure BeaconBlock where
  forkVariant : ForkVariant
  slot : Slot
  proposerIndex : ValidatorIndex
  parentRoot : Root
  stateRoot : Root
  executionBlockHash : Option Hash256
  executionParentHash : Option Hash256
  executionTimestamp : Option Nat
  attestations : List Attestation
  blobKzgCommitments : List KzgCommitment
deriving DecidableEq, Repr

structure SignedBeaconBlock where
  message : BeaconBlock
  signature : Nat
deriving DecidableEq, Repr

/- The verdict of the execution layer on a payload. -/
inductive PayloadStatus where
  | valid
  | invalid
  | notValidated
deriving DecidableEq, Repr

def blockIsExecutionEnabled (block : BeaconBlock) : Bool :=
  match block.executionBlockHash with
  | some hash => hash ≠ defaultHash
  | none => false

----
-- Protocol Interface
----

inductive StateTransitionError where
  | invalidBlockSignature
  | stateRootMismatch (expected actual : Root)
  | slotProcessing (reason : String)
  | blockProcessing (reason : String)
deriving DecidableEq, Repr

inductive EpochProcessingError where
  | failed (reason : String)
deriving DecidableEq, Repr

/-
  What the node takes from the protocol: the constants of a preset, the hash function, the fields of
  a state that are read, and the steps of the state transition under the node's fork schedule. The
  latest block is given by the slot of the header in the state and by the root of that header with
  its state root filled in.
-/
class BeaconSpec (S : Type) where
  slotsPerEpoch : Nat
  slotDurationMs : Nat
  attestationDueBps : Nat
  basisPoints : Nat
  effectiveBalanceIncrement : Gwei
  treeHashRoot : BeaconBlock → Root
  stateTreeHashRoot : S → Root
  stateSlot : S → Slot
  latestBlock : S → Slot × Root
  genesisTime : S → Nat
  currentJustifiedCheckpoint : S → Checkpoint
  finalizedCheckpoint : S → Checkpoint
  validators : S → List Validator
  isMergeTransitionBlock : S → BeaconBlock → Bool
  getBeaconProposerIndex : S → ValidatorIndex
  getAttestingIndices : S → Attestation → List ValidatorIndex
  isValidIndexedAttestation : S → IndexedAttestation → Bool
  processSlot : S → Except StateTransitionError S
  processBlock : Bool → S → SignedBeaconBlock → Except StateTransitionError S
  processJustificationAndFinalization : S → Except EpochProcessingError S

----
-- Accessors
----

open BeaconSpec

variable (S : Type) [BeaconSpec S]

def computeEpochAtSlot (slot : Slot) : Epoch :=
  slot / slotsPerEpoch S

def computeStartSlotAtEpoch (epoch : Epoch) : Slot :=
  epoch * slotsPerEpoch S

variable {S}

def getCurrentEpoch (state : S) : Epoch :=
  computeEpochAtSlot S (stateSlot state)

def isActiveValidator (validator : Validator) (epoch : Epoch) : Bool :=
  validator.activationEpoch ≤ epoch && epoch < validator.exitEpoch

def getActiveValidatorIndices (state : S) (epoch : Epoch) : List ValidatorIndex :=
  (validators state).zipIdx.filterMap fun entry =>
    if isActiveValidator entry.1 epoch then some entry.2 else none

def getTotalActiveBalance (state : S) : Gwei :=
  let epoch := getCurrentEpoch state
  let active := (validators state).filter fun validator =>
    isActiveValidator validator epoch
  max (Word.wrapSum (active.map Validator.effectiveBalance)) (effectiveBalanceIncrement S)

def processSlotsFork (state : S) (slot : Slot) : Except StateTransitionError S :=
  (List.range (slot - stateSlot state)).foldlM (fun current _ => processSlot current) state

def stateTransition (state : S) (signedBlock : SignedBeaconBlock) (validateResult : Bool) :
    Except StateTransitionError S := do
  let state ← processSlotsFork state signedBlock.message.slot
  processBlock validateResult state signedBlock

end Pharos
