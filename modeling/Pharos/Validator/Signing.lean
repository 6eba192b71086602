import Pharos.ForkSchedule
import Pharos.Lib.Checks
import Pharos.Messages
import Pharos.Slashing.Protection

/-
  This file implements the signing of the validator client.

  A message is signed under a domain, which is computed from the purpose of the message and from a
  fork version. Blocks and attestations are recorded in the slashing-protection database before they
  are signed.
-/

----
-- Requests
----

namespace Pharos.Validator

section

open BeaconSpec SigningSpec

/- The fork version under which messages are signed. -/
structure ForkContext where
  currentVersion : Version
  genesisValidatorsRoot : Root
deriving DecidableEq, Repr

/- The kinds of messages that the duties ask for. -/
inductive SigningType where
  | blockV2
  | attestation
  | randaoReveal
  | aggregationSlot
  | aggregateAndProof
  | syncCommitteeMessage
  | syncCommitteeSelectionProof
  | syncCommitteeContributionAndProof
deriving DecidableEq, Repr

/- What is signed. -/
inductive SigningObject where
  | beaconBlock (block : BeaconBlock)
  | epoch (epoch : Epoch)
  | attestationData (data : AttestationData)
  | slot (slot : Slot)
  | aggregateAndProof (message : AggregateAndProof Attestation)
  | electraAggregateAndProof (message : AggregateAndProof ElectraAttestation)
  | blockRoot (root : Root)
  | syncAggregatorSelectionData (slot : Slot) (subcommitteeIndex : Nat)
  | contributionAndProof (message : ContributionAndProof)
deriving DecidableEq, Repr

/-
  A request to a signer. It carries the root that is signed, and the fork under which the root was
  computed.
-/
structure SigningRequest where
  signingType : SigningType
  object : SigningObject
  signingRoot : Root
  forkInfo : ForkContext
deriving DecidableEq, Repr

/- Domains, and the text of a root. -/
class DomainSpec (S : Type) where
  computeDomain : DomainType → Version → Root → Domain
  hexEncode : Root → String

open DomainSpec

variable (S : Type)

def SigningObject.treeHashRoot [BeaconSpec S] [SigningSpec S] : SigningObject → Root
| .beaconBlock block => BeaconSpec.treeHashRoot S block
| .epoch number => slotRoot S number
| .attestationData data => attestationDataRoot S data
| .slot number => slotRoot S number
| .aggregateAndProof message =>
  aggregateAndProofRoot S message
| .electraAggregateAndProof message =>
  electraAggregateAndProofRoot S message
| .blockRoot root => root
| .syncAggregatorSelectionData number index =>
  syncAggregatorSelectionDataRoot S number index
| .contributionAndProof message =>
  contributionAndProofRoot S message

def domainFor [DomainSpec S] (fork : ForkContext) (domainType : DomainType) : Domain :=
  computeDomain S domainType fork.currentVersion fork.genesisValidatorsRoot

def SigningRequest.new [BeaconSpec S] [SigningSpec S] [DomainSpec S]
    (signingType : SigningType) (domainType : DomainType) (object : SigningObject)
    (fork : ForkContext) :
    SigningRequest where
  signingType
  object
  signingRoot :=
    computeSigningRoot S (object.treeHashRoot S) (domainFor S fork domainType)
  forkInfo := fork

end

----
-- Signers
----

open Checks DomainSpec Slashing

/- What the client sends to the beacon node. -/
inductive Submission where
  | block (signedBlock : SignedBeaconBlock)
  | attestations (list : List Attestation)
  | singleAttestations (list : List SingleAttestation)
  | aggregateAndProofs (list : List (SignedAggregateAndProof Attestation))
  | aggregateAndProofsV2 (list : List (SignedAggregateAndProof ElectraAttestation))
  | syncCommitteeMessages (list : List SyncCommitteeMessage)
  | contributionAndProofs (list : List SignedContributionAndProof)
  | beaconCommitteeSubscription (validatorIndex : ValidatorIndex) (committeeIndex : CommitteeIndex)
      (committeesAtSlot : Nat)
      (slot : Slot)
  | syncCommitteeSubscription (validatorIndex : ValidatorIndex) (syncCommitteeIndices : List Nat)
      (untilEpoch : Epoch)
deriving DecidableEq, Repr

/- What others see of the client. -/
inductive ClientEvent where
  | signed (request : SigningRequest) (answer : Option BLSSignature)
  | submitted (submission : Submission)
deriving DecidableEq, Repr

/- Why a duty is given up. -/
inductive Skipped where
  | slashing (error : SlashingError)
  | signer
  | beaconNode
  | notDue
deriving DecidableEq

/- A validator's state in the hold-off at startup. -/
inductive ValidatorState where
  | holdOff (clearEpoch : Epoch)
  | cleared
deriving DecidableEq, Repr

structure DoppelgangerGuard where
  enabled : Bool
  states : HashMap String ValidatorState

/- What the client keeps from slot to slot. -/
structure Client where
  slashingDb : SqliteSlashingProtection
  doppelganger : DoppelgangerGuard

abbrev Duty (Value : Type) :=
  Checks Client ClientEvent Skipped Value

/- A validator, with the signer that holds its key. -/
structure ValidatorEntry where
  index : ValidatorIndex
  pubkeyHex : String
  signer : SigningRequest → Option BLSSignature

def ValidatorEntry.sign (entry : ValidatorEntry) (request : SigningRequest) :
    Duty BLSSignature := do
  note (.signed request (entry.signer request))
  orStop (entry.signer request) .signer

def recordFirst (check : SqliteSlashingProtection → Except SlashingError SqliteSlashingProtection) :
    Duty Unit := do
  let db ← asks Client.slashingDb
  match check db with
  | .ok after => modify fun client => { client with slashingDb := after }
  | .error error => stop (.slashing error)

variable (S : Type) [BeaconSpec S] [SigningSpec S] [DomainSpec S]

section

variable (entry : ValidatorEntry)

def signBeaconBlock (block : BeaconBlock) (slot : Slot) (fork : ForkContext) :
    Duty BLSSignature := do
  let request := SigningRequest.new S .blockV2 .beaconProposer (.beaconBlock block) fork
  recordFirst fun db =>
    db.checkAndRecordBlockProposal entry.pubkeyHex (UInt64.ofNat slot)
      (some (hexEncode S request.signingRoot))
  entry.sign request

def signRandaoReveal (epoch : Epoch) (fork : ForkContext) : Duty BLSSignature :=
  entry.sign (SigningRequest.new S .randaoReveal .randao (.epoch epoch) fork)

def recordOfVote (data : AttestationData)
    (sourceEpoch targetEpoch : Epoch) (fork : ForkContext) (db : SqliteSlashingProtection) :
    Except SlashingError SqliteSlashingProtection :=
  let request := SigningRequest.new S .attestation .beaconAttester (.attestationData data) fork
  db.checkAndRecordAttestation entry.pubkeyHex (UInt64.ofNat sourceEpoch) (UInt64.ofNat targetEpoch)
    (some (hexEncode S request.signingRoot))

def signAttestation (data : AttestationData)
    (sourceEpoch targetEpoch : Epoch) (fork : ForkContext) :
    Duty BLSSignature := do
  recordFirst (recordOfVote S entry data sourceEpoch targetEpoch fork)
  entry.sign (SigningRequest.new S .attestation .beaconAttester (.attestationData data) fork)

def signSelectionProof (slot : Slot) (fork : ForkContext) : Duty BLSSignature :=
  entry.sign (SigningRequest.new S .aggregationSlot .selectionProof (.slot slot) fork)

def signAggregateAndProof (message : SigningObject) (fork : ForkContext) : Duty BLSSignature :=
  entry.sign (SigningRequest.new S .aggregateAndProof .aggregateAndProof message fork)

def signSyncCommitteeMessage (beaconBlockRoot : Root) (fork : ForkContext) : Duty BLSSignature :=
  entry.sign (SigningRequest.new S .syncCommitteeMessage
    .syncCommittee (.blockRoot beaconBlockRoot) fork)

def signSyncCommitteeSelectionProof (slot : Slot)
    (subcommitteeIndex : Nat) (fork : ForkContext) : Duty BLSSignature :=
  entry.sign
    (SigningRequest.new S .syncCommitteeSelectionProof .syncCommitteeSelectionProof
      (.syncAggregatorSelectionData slot subcommitteeIndex)
      fork)

def signContributionAndProof (message : ContributionAndProof)
    (fork : ForkContext) : Duty BLSSignature :=
  entry.sign
    (SigningRequest.new S .syncCommitteeContributionAndProof
      .contributionAndProof (.contributionAndProof message)
      fork)

end

end Pharos.Validator
