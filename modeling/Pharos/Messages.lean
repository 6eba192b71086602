import Mathlib.Data.List.Dedup
import Pharos.Types

/-
  This file implements the messages that validators sign, and the interface to what signing takes
  from the protocol: hashes, keys, domains and committees.

  Signatures and keys are natural numbers, and verification is an arbitrary predicate on them.
-/

----
-- Containers
----

namespace Pharos

section

abbrev BLSPubkey := Nat

abbrev BLSSignature := Nat

abbrev Domain := Nat

abbrev CommitteeIndex := Nat

abbrev SubnetId := Nat

/- The purposes for which validators sign. -/
inductive DomainType where
  | beaconProposer
  | beaconAttester
  | randao
  | deposit
  | voluntaryExit
  | selectionProof
  | aggregateAndProof
  | syncCommittee
  | syncCommitteeSelectionProof
  | contributionAndProof
  | blsToExecutionChange
deriving DecidableEq, Repr

/- A vote of one validator, in the form gossiped by Electra. -/
structure SingleAttestation where
  committeeIndex : CommitteeIndex
  attesterIndex : ValidatorIndex
  data : AttestationData
  signature : BLSSignature
deriving DecidableEq, Repr

/- The bits of the committees that are set, one after the other. -/
structure ElectraAttestation where
  aggregationBits : List Bool
  data : AttestationData
  signature : BLSSignature
  committeeBits : List Bool
deriving DecidableEq, Repr

structure AggregateAndProof (Aggregate : Type) where
  aggregatorIndex : ValidatorIndex
  aggregate : Aggregate
  selectionProof : BLSSignature
deriving DecidableEq, Repr

structure SignedAggregateAndProof (Aggregate : Type) where
  message : AggregateAndProof Aggregate
  signature : BLSSignature
deriving DecidableEq, Repr

structure SyncCommitteeMessage where
  slot : Slot
  beaconBlockRoot : Root
  validatorIndex : ValidatorIndex
  signature : BLSSignature
deriving DecidableEq, Repr

structure SyncCommitteeContribution where
  slot : Slot
  beaconBlockRoot : Root
  subcommitteeIndex : Nat
  aggregationBits : List Bool
  signature : BLSSignature
deriving DecidableEq, Repr

structure ContributionAndProof where
  aggregatorIndex : ValidatorIndex
  contribution : SyncCommitteeContribution
  selectionProof : BLSSignature
deriving DecidableEq, Repr

structure SignedContributionAndProof where
  message : ContributionAndProof
  signature : BLSSignature
deriving DecidableEq, Repr

structure BeaconBlockHeader where
  slot : Slot
  proposerIndex : ValidatorIndex
  parentRoot : Root
  stateRoot : Root
  bodyRoot : Root
deriving DecidableEq, Repr

structure SignedBeaconBlockHeader where
  message : BeaconBlockHeader
  signature : BLSSignature
deriving DecidableEq, Repr

structure ProposerSlashing where
  signedHeader1 : SignedBeaconBlockHeader
  signedHeader2 : SignedBeaconBlockHeader
deriving DecidableEq, Repr

structure VoluntaryExit where
  epoch : Epoch
  validatorIndex : ValidatorIndex
deriving DecidableEq, Repr

structure SignedVoluntaryExit where
  message : VoluntaryExit
  signature : BLSSignature
deriving DecidableEq, Repr

structure BLSToExecutionChange where
  validatorIndex : ValidatorIndex
  fromBlsPubkey : BLSPubkey
  toExecutionAddress : Nat
deriving DecidableEq, Repr

structure SignedBLSToExecutionChange where
  message : BLSToExecutionChange
  signature : BLSSignature
deriving DecidableEq, Repr

def setBits (bits : List Bool) : List Nat :=
  (bits.zipIdx.filter Prod.fst).map Prod.snd

/- Hashes, keys and domains. -/
class SigningSpec (S : Type) where
  attestationDataRoot : AttestationData → Root
  slotRoot : Slot → Root
  aggregateAndProofRoot : AggregateAndProof Attestation → Root
  electraAggregateAndProofRoot : AggregateAndProof ElectraAttestation → Root
  syncAggregatorSelectionDataRoot : Slot → Nat → Root
  contributionAndProofRoot : ContributionAndProof → Root
  computeSigningRoot : Root → Domain → Root
  hashSignature : BLSSignature → Nat
  getDomain : S → DomainType → Epoch → Domain
  validatorPubkey : S → ValidatorIndex → Option BLSPubkey
  blsVerify : BLSPubkey → Root → BLSSignature → Bool
  fastAggregateVerify : List BLSPubkey → Root → BLSSignature → Bool
  aggregate : List BLSSignature → Option BLSSignature

/- The sizes of committees, who is in them, and who proposes. -/
class CommitteeSpec (S : Type) where
  targetCommitteeSize : Nat
  maxCommitteesPerSlot : Nat
  syncCommitteeSize : Nat
  syncCommitteeSubnetCount : Nat
  epochsPerSyncCommitteePeriod : Nat
  targetAggregatorsPerSyncSubcommittee : Nat
  getBeaconCommittee : S → Slot → CommitteeIndex → List ValidatorIndex
  stateForkVariant : S → ForkVariant
  proposerLookaheadAt : S → Option ValidatorIndex
  getBeaconProposerIndexElectra : S → ValidatorIndex
  latestExecutionBlockHash : S → Option Hash256
  syncCommitteePubkeys : S → Option (List BLSPubkey × List BLSPubkey)

----
-- Committees
----

open BeaconSpec SigningSpec CommitteeSpec

variable {S : Type} [BeaconSpec S]

def attestationSubnetCount : Nat := 64

def targetAggregatorsPerCommittee : Nat := 16

def committeeCountPerSlot (slotsPerEpoch targetCommitteeSize maxCommitteesPerSlot active : Nat) :
    Nat :=
  min (max (active / slotsPerEpoch / targetCommitteeSize) 1) maxCommitteesPerSlot

def getCommitteeCountPerSlot [CommitteeSpec S] (state : S) (epoch : Epoch) : Nat :=
  committeeCountPerSlot (slotsPerEpoch S) (targetCommitteeSize S)
    (maxCommitteesPerSlot S) (getActiveValidatorIndices state epoch).length

variable (S) in
def computeSubnetForAttestation (committeesPerSlot : Nat) (slot : Slot)
    (committeeIndex : CommitteeIndex) : SubnetId :=
  let slotsSinceEpochStart := slot % slotsPerEpoch S
  let committeesSince := committeesPerSlot * slotsSinceEpochStart
  (committeesSince + committeeIndex) % attestationSubnetCount

omit [BeaconSpec S] in
variable (S) in
def isAggregator [SigningSpec S] (committeeLength : Nat) (slotSignature : BLSSignature) :
    Bool :=
  let modulo := max 1 (committeeLength / targetAggregatorsPerCommittee)
  hashSignature S slotSignature % modulo = 0

def getIndexedAttestation (state : S) (attestation : Attestation) : IndexedAttestation :=
  ⟨(getAttestingIndices state attestation).mergeSort, attestation.data, attestation.signature⟩

omit [BeaconSpec S] in
variable (S) in
def isSyncCommitteeAggregator [SigningSpec S] [CommitteeSpec S]
    (selectionProof : BLSSignature) : Bool :=
  let modulo :=
    max 1 (syncCommitteeSize S / syncCommitteeSubnetCount S /
      targetAggregatorsPerSyncSubcommittee S)
  hashSignature S selectionProof % modulo = 0

variable (S) in
def activeSyncPubkeys [CommitteeSpec S] (currentPubkeys nextPubkeys : List BLSPubkey)
    (stateSlot : Slot) : List BLSPubkey :=
  let period := fun slot : Slot =>
    computeEpochAtSlot S slot / epochsPerSyncCommitteePeriod S
  if period stateSlot = period (stateSlot + 1) then currentPubkeys else nextPubkeys

variable (S) in
def syncSubcommitteeSize [CommitteeSpec S] : Nat :=
  syncCommitteeSize S / syncCommitteeSubnetCount S

variable (S) in
def computeSubnetsForSyncCommittee [CommitteeSpec S]
    (currentPubkeys nextPubkeys : List BLSPubkey) (stateSlot : Slot) (validatorPubkey : BLSPubkey) :
    List SubnetId :=
  let pubkeys := activeSyncPubkeys S currentPubkeys nextPubkeys stateSlot
  ((pubkeys.zipIdx.filter fun entry =>
    entry.1 = validatorPubkey).map fun entry =>
      entry.2 / syncSubcommitteeSize S).dedup

variable (S) in
def getSyncSubcommitteePubkeys [CommitteeSpec S] (currentPubkeys nextPubkeys : List BLSPubkey)
    (stateSlot : Slot) (subcommitteeIndex : Nat) : List BLSPubkey :=
  let pubkeys := activeSyncPubkeys S currentPubkeys nextPubkeys stateSlot
  let size := syncSubcommitteeSize S
  let start := subcommitteeIndex * size
  if syncCommitteeSubnetCount S ≤ subcommitteeIndex then
    []
  else if pubkeys.length < start + size then
    []
  else
    (pubkeys.drop start).take size

end

----
-- Attesters of Electra
----

open CommitteeSpec

variable {S : Type} [CommitteeSpec S]

def getCommitteeIndices (committeeBits : List Bool) : List CommitteeIndex :=
  setBits committeeBits

def pushAttesters (aggregationBits : List Bool) (offset : Nat)
    (output committee : List ValidatorIndex) : List ValidatorIndex :=
  committee.zipIdx.foldl
    (fun output member =>
      if aggregationBits.getD (offset + member.2) false ∧ member.1 ∉ output then
        output ++ [member.1]
      else
        output)
    output

/- The bits of a committee begin where those of the committee before it end. -/
def getAttestingIndicesElectra (state : S) (attestation : ElectraAttestation) :
    List ValidatorIndex :=
  ((getCommitteeIndices attestation.committeeBits).foldl
    (fun (offset, output) committeeIndex =>
      let committee := getBeaconCommittee state attestation.data.slot committeeIndex
      (offset + committee.length,
        pushAttesters attestation.aggregationBits offset output committee))
    (0, [])).2

end Pharos
