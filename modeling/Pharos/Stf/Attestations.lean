import Pharos.Stf.Committees

/-
  This file implements the checks of an attestation of Electra against the state that a block is
  applied to, and the signature set that is collected for it.
-/

----
-- Committees of a State
----

namespace Pharos.Stf

open BeaconSpec SigningSpec CommitteeSpec PresetSpec StfSpec Outcome
open Pharos.Validator (DomainSpec)

variable (E : Type) [BeaconSpec E] [CommitteeSpec E] [PresetSpec E] [StfSpec E]

variable (state : BeaconState)

def getCommitteeCountPerSlot (epoch : Epoch) : Nat :=
  committeeCountPerSlot (slotsPerEpoch E) (targetCommitteeSize E) (maxCommitteesPerSlot E)
    (getActiveValidatorIndices state.validators epoch).length

/- A committee of indices in range, and so nothing panics. -/
def getBeaconCommittee (slot : Slot) (index : CommitteeIndex) : List ValidatorIndex :=
  let epoch := computeEpochAtSlot E slot
  (Committees.committeeOfSlot (hash E) (slotsPerEpoch E) (getCommitteeCountPerSlot E state epoch)
    (getActiveValidatorIndices state.validators epoch)
    (getSeed E state epoch .beaconAttester)
    (shuffleRoundCount E) slot index).getD []

----
-- Checks
----

variable [SigningSpec E] [DomainSpec E]

def pubkeysOf (indices : List ValidatorIndex) : List BLSPubkey :=
  indices.filterMap fun index =>
    state.validators[index]?.map Validator.pubkey

/- Keys, a message and a signature that should belong. -/
structure SignatureSet where
  pubkeys : List BLSPubkey
  message : Root
  signature : BLSSignature
deriving DecidableEq, Repr

def checkAttestationData (boundedAge : Bool) (state : BeaconState) (data : AttestationData) :
    Except StateTransitionError Unit := do
  require (data.target.epoch = getCurrentEpoch E state ∨
      data.target.epoch = getPreviousEpoch E state)
    (.invalidAttestation .targetEpochMismatch)
  require (data.target.epoch = computeEpochAtSlot E data.slot)
    (.invalidAttestation .targetEpochMismatch)
  require (data.slot + minAttestationInclusionDelay E ≤ state.slot)
    (.invalidAttestation .slotTooNew)
  require (boundedAge → state.slot ≤ data.slot + slotsPerEpoch E) (.invalidAttestation .slotTooOld)

def checkParticipation (data : AttestationData) : Except StateTransitionError Unit := do
  let justified :=
    if data.target.epoch = getCurrentEpoch E state then
      state.currentJustifiedCheckpoint
    else
      state.previousJustifiedCheckpoint
  let _ ← okOr (getBlockRootAtSlot E state (computeStartSlotAtEpoch E data.target.epoch))
    .slotOutOfRange
  let _ ← okOr (getBlockRootAtSlot E state data.slot) .slotOutOfRange
  require (data.source = justified) (.invalidAttestation .invalidSourceCheckpoint)

section

variable (attestation : ElectraAttestation)

def checkCommittee (offset : Nat) (committeeIndex : CommitteeIndex) :
    Except StateTransitionError Nat := do
  let data := attestation.data
  require (committeeIndex < getCommitteeCountPerSlot E state data.target.epoch)
    (.invalidAttestation .committeeIndexOutOfRange)
  let committee := getBeaconCommittee E state data.slot committeeIndex
  require (∃ position ∈ List.range committee.length,
      attestation.aggregationBits.getD (offset + position) false = true)
    (.invalidAttestation .emptyAttestingIndices)
  .ok (offset + committee.length)

def attestersOfElectra : List ValidatorIndex :=
  ((getCommitteeIndices attestation.committeeBits).foldl
    (fun (offset, output) committeeIndex =>
      let committee := getBeaconCommittee E state attestation.data.slot committeeIndex
      (offset + committee.length,
        pushAttesters attestation.aggregationBits offset output committee))
    (0, [])).2

def checkAttestationElectra : Except StateTransitionError Unit := do
  let data := attestation.data
  checkAttestationData E false state data
  require (data.index = 0) (.invalidAttestation .committeeIndexOutOfRange)
  let bits ←
    (getCommitteeIndices attestation.committeeBits).foldlM (checkCommittee E state attestation) 0
  require (attestation.aggregationBits.length = bits)
    (.invalidAttestation .aggregationBitsLengthMismatch)
  checkParticipation E state data

def attestationSignatureSetElectra : Except StateTransitionError SignatureSet := do
  let data := attestation.data
  let indices := (attestersOfElectra E state attestation).mergeSort
  let pubkeys := pubkeysOf state indices
  require (indices ≠ [] ∧ indices.Pairwise (· < ·) ∧ pubkeys.length = indices.length)
    (.invalidAttestation .invalidSignature)
  .ok
    { pubkeys := pubkeys
      message :=
        computeSigningRoot E (attestationDataRoot E data)
          (getDomain E state .beaconAttester data.target.epoch)
      signature := attestation.signature }

end

end Pharos.Stf
