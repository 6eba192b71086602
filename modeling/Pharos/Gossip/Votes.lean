import Pharos.Gossip.Blocks

/-
  This file implements the validation of votes received on gossip: attestations and aggregates, in
  the form before Electra and in the form from Electra on.

  The four validators share the check of the time and the checks of the block that is voted for.
  Each names itself in its verdicts.
-/

----
-- Shared Checks
----

namespace Pharos.Gossip

open BeaconSpec CommitteeSpec SigningSpec Checks

variable {S : Type} [BeaconSpec S]

/- A vote is only passed on for some slots. -/
def checkPropagationRange (label : String) (slot : Slot) : Validation S Unit := do
  let inRange ← asks fun host => host.inPropagationRange slot
  stopIf (!inRange) (.ignore (label ++ ": slot not in propagation range"))

/- The block voted for is known, and on the chain of the target and of the finalized block. -/
def checkVotedBlock (label : String) (data : AttestationData) : Validation S Unit := do
  let root := data.beaconBlockRoot
  let failed ← asks fun host =>
    decide (root ∈ host.invalidBlockRoots)
  stopIf failed (.reject (label ++ ": voted block failed validation"))
  let fc ← asks Host.forkChoice
  stopIf (root ∉ fc.blocks) (.ignore (label ++ ": voted block unseen"))
  stopIf (root ∉ fc.blockStates) (.reject (label ++ ": voted block invalid"))
  stopIf (ForkChoice.getCheckpointBlock fc root data.target.epoch ≠ data.target.root)
    (.reject (label ++ ": target not ancestor"))
  stopIf (finalizedNotAncestor fc root) (.ignore (label ++ ": finalized not ancestor"))

/- Each bit that is set is also set in the stored bits. -/
def covered (bits stored : List Bool) : Bool :=
  bits.zipIdx.all fun entry =>
    !entry.1 || stored.getD entry.2 false

/- The aggregator has signed the proof of its selection, and the message. -/
def checkAggregatorSignatures [SigningSpec S] (label : String) (headState : S)
    (data : AttestationData) (pubkey : BLSPubkey) (messageRoot : Root)
    (selectionProof signature : BLSSignature) :
    Validation S Unit := do
  let selectionDomain := getDomain headState .selectionProof data.target.epoch
  stopIf
    (!blsVerify S pubkey (computeSigningRoot S (slotRoot S data.slot) selectionDomain)
      selectionProof)
    (.reject (label ++ ": invalid selection proof signature"))
  let domain := getDomain headState .aggregateAndProof data.target.epoch
  stopIf (!blsVerify S pubkey (computeSigningRoot S messageRoot domain) signature)
    (.reject (label ++ ": invalid aggregator signature"))

----
-- Attestations
----

variable [CommitteeSpec S] [SigningSpec S]

/- An accepted vote goes into the pools, and to the slasher. -/
def Host.feed (host : Host S) (attestation : Attestation) (indexed : IndexedAttestation) :
    Host S :=
  let pools := host.opPools.insertAttestation S attestation
  let observed := host.slasher.observe S pools indexed host.currentEpoch
  { host with opPools := observed.2, slasher := observed.1 }

/- The one bit that is set gives the validator. -/
def validateAttestation (subnet : SubnetId) (att : Attestation) : Validation S Unit := do
  let data := att.data
  let head ← headStateAtSlot data.slot
  let headState ← orStop head (.ignore "att: head state unavailable")
  let attEpoch := computeEpochAtSlot S data.slot
  let committeeCount := getCommitteeCountPerSlot headState attEpoch
  stopIf (committeeCount ≤ data.index) (.reject "att: committee index out of range")
  stopIf (computeSubnetForAttestation S committeeCount data.slot data.index ≠ subnet)
    (.reject "att: wrong subnet")
  checkPropagationRange "att" data.slot
  stopIf (data.target.epoch ≠ attEpoch) (.reject "att: target epoch mismatch")
  stopIf ((setBits att.aggregationBits).length ≠ 1) (.reject "att: not unaggregated")
  let found ← lookupOrComputeCommittee data.slot data.index
  let committee ← orStop found (.ignore "att: committee unavailable")
  stopIf (att.aggregationBits.length ≠ committee.length) (.reject "att: agg bits length mismatch")
  let participant := committee.getD ((setBits att.aggregationBits).headD 0) 0
  let seen ← asks fun host =>
    decide ((participant, data.target.epoch) ∈ host.seenAttestationValidators)
  stopIf seen (.ignore "att: duplicate validator/epoch")
  let indexed := getIndexedAttestation headState att
  stopIf (!isValidIndexedAttestation headState indexed) (.reject "att: invalid signature")
  checkVotedBlock "att" data
  modify fun host =>
    { host with
      seenAttestationValidators :=
        insert (participant, data.target.epoch) host.seenAttestationValidators }
  modify fun host => host.feed att indexed

/- From Electra on, a vote names its validator. It is not fed to the pools. -/
def validateSingleAttestation (subnet : SubnetId) (att : SingleAttestation) :
    Validation S Unit := do
  let data := att.data
  let head ← headStateAtSlot data.slot
  let headState ← orStop head (.ignore "single-att: head state unavailable")
  stopIf (data.index ≠ 0) (.reject "single-att: data index is non-zero")
  let attEpoch := computeEpochAtSlot S data.slot
  let committeeCount := getCommitteeCountPerSlot headState attEpoch
  stopIf (committeeCount ≤ att.committeeIndex) (.reject "single-att: committee index out of range")
  stopIf (computeSubnetForAttestation S committeeCount data.slot att.committeeIndex ≠ subnet)
    (.reject "single-att: wrong subnet")
  checkPropagationRange "single-att" data.slot
  stopIf (data.target.epoch ≠ attEpoch) (.reject "single-att: target epoch mismatch")
  let found ← lookupOrComputeCommittee data.slot att.committeeIndex
  let committee ← orStop found (.ignore "single-att: committee unavailable")
  stopIf (att.attesterIndex ∉ committee) (.reject "single-att: attester not in committee")
  let seen ← asks fun host =>
    decide ((att.attesterIndex, data.target.epoch) ∈ host.seenAttestationValidators)
  stopIf seen (.ignore "single-att: duplicate validator/epoch")
  let pubkey ←
    orStop (validatorPubkey headState att.attesterIndex)
      (.reject "single-att: attester index out of range")
  let domain := getDomain headState .beaconAttester data.target.epoch
  stopIf
    (!blsVerify S pubkey (computeSigningRoot S (attestationDataRoot S data) domain) att.signature)
    (.reject "single-att: invalid signature")
  checkVotedBlock "single-att" data
  modify fun host =>
    { host with
      seenAttestationValidators :=
        insert (att.attesterIndex, data.target.epoch) host.seenAttestationValidators }

----
-- Aggregates
----

/- An aggregate that adds no vote to those seen is ignored. -/
def validateAggregateAndProof (saap : SignedAggregateAndProof Attestation) :
    Validation S Unit := do
  let agg := saap.message.aggregate
  let data := agg.data
  let head ← headStateAtSlot data.slot
  let headState ← orStop head (.ignore "agg: head state unavailable")
  let attEpoch := computeEpochAtSlot S data.slot
  let committeeCount := getCommitteeCountPerSlot headState attEpoch
  stopIf (committeeCount ≤ data.index) (.reject "agg: committee index out of range")
  checkPropagationRange "agg" data.slot
  stopIf (data.target.epoch ≠ attEpoch) (.reject "agg: target epoch mismatch")
  let found ← lookupOrComputeCommittee data.slot data.index
  let committee ← orStop found (.ignore "agg: committee unavailable")
  stopIf (agg.aggregationBits.length ≠ committee.length) (.reject "agg: agg bits length mismatch")
  stopIf (getAttestingIndices headState agg).isEmpty (.reject "agg: no participants")
  let dataRoot := attestationDataRoot S data
  let stored ← asks fun host =>
    host.seenAggregateData.lookup dataRoot
  stopIf (stored.any (covered agg.aggregationBits)) (.ignore "agg: superset seen")
  let aggregatorIndex := saap.message.aggregatorIndex
  let seen ← asks fun host =>
    decide ((aggregatorIndex, data.target.epoch) ∈ host.seenAggregators)
  stopIf seen (.ignore "agg: duplicate aggregator/epoch")
  stopIf (!isAggregator S committee.length saap.message.selectionProof)
    (.reject "agg: not selected as aggregator")
  stopIf (aggregatorIndex ∉ committee) (.reject "agg: aggregator not in committee")
  let pubkey ←
    orStop (validatorPubkey headState aggregatorIndex)
      (.reject "agg: aggregator index out of range")
  checkAggregatorSignatures "agg" headState data pubkey (aggregateAndProofRoot S saap.message)
    saap.message.selectionProof saap.signature
  let indexed := getIndexedAttestation headState agg
  stopIf (!isValidIndexedAttestation headState indexed) (.reject "agg: invalid aggregate signature")
  checkVotedBlock "agg" data
  modify fun host =>
    { host with
      seenAggregators := insert (aggregatorIndex, data.target.epoch) host.seenAggregators
      seenAggregateData :=
        host.seenAggregateData.insert dataRoot
          (Pools.setBitsOf
            ((host.seenAggregateData.lookup dataRoot).getD (List.replicate committee.length false))
            agg.aggregationBits) }
  modify fun host => host.feed agg indexed

def maxValidatorsPerCommittee : Nat := 2048

/- The members whose bits are set. -/
def attestingMembers (committee : List ValidatorIndex) (bits : List Bool) : List ValidatorIndex :=
  ((committee.zip bits).filter Prod.snd).map Prod.fst

/- The votes of one committee, though the format has room for several. -/
def validateAggregateAndProofElectra (saap : SignedAggregateAndProof ElectraAttestation) :
    Validation S Unit := do
  let agg := saap.message.aggregate
  let data := agg.data
  let head ← headStateAtSlot data.slot
  let headState ← orStop head (.ignore "agg-e: head state unavailable")
  stopIf (data.index ≠ 0) (.reject "agg-e: aggregate data index is non-zero")
  let committeeIndices := setBits agg.committeeBits
  stopIf (committeeIndices.length ≠ 1)
    (.reject "agg-e: committee bits must specify exactly one committee")
  let committeeIndex := committeeIndices.headD 0
  let attEpoch := computeEpochAtSlot S data.slot
  let committeeCount := getCommitteeCountPerSlot headState attEpoch
  stopIf (committeeCount ≤ committeeIndex) (.reject "agg-e: committee index out of range")
  checkPropagationRange "agg-e" data.slot
  stopIf (data.target.epoch ≠ attEpoch) (.reject "agg-e: target epoch mismatch")
  let found ← lookupOrComputeCommittee data.slot committeeIndex
  let committee ← orStop found (.ignore "agg-e: committee unavailable")
  stopIf (agg.aggregationBits.length ≠ committee.length) (.reject "agg-e: agg bits length mismatch")
  let attesting := attestingMembers committee agg.aggregationBits
  stopIf attesting.isEmpty (.reject "agg-e: no participants")
  let key := (attestationDataRoot S data, committeeIndex)
  let stored ← asks fun host =>
    host.seenAggregateDataElectra.lookup key
  stopIf (stored.any (covered agg.aggregationBits)) (.ignore "agg-e: superset seen")
  let aggregatorIndex := saap.message.aggregatorIndex
  let seen ← asks fun host =>
    decide ((aggregatorIndex, data.target.epoch) ∈ host.seenAggregators)
  stopIf seen (.ignore "agg-e: duplicate aggregator/epoch")
  stopIf (!isAggregator S committee.length saap.message.selectionProof)
    (.reject "agg-e: not selected as aggregator")
  stopIf (aggregatorIndex ∉ committee) (.reject "agg-e: aggregator not in committee")
  let pubkey ←
    orStop (validatorPubkey headState aggregatorIndex)
      (.reject "agg-e: aggregator index out of range")
  checkAggregatorSignatures "agg-e" headState data pubkey
    (electraAggregateAndProofRoot S saap.message)
    saap.message.selectionProof saap.signature
  stopIf (maxValidatorsPerCommittee < attesting.length)
    (.reject "agg-e: too many attesting indices")
  let indexed : IndexedAttestation := ⟨attesting.mergeSort, data, agg.signature⟩
  stopIf (!isValidIndexedAttestation headState indexed)
    (.reject "agg-e: invalid aggregate signature")
  checkVotedBlock "agg-e" data
  modify fun host =>
    { host with
      seenAggregators := insert (aggregatorIndex, data.target.epoch) host.seenAggregators
      seenAggregateDataElectra :=
        host.seenAggregateDataElectra.insert key
          (Pools.setBitsOf
            ((host.seenAggregateDataElectra.lookup key).getD
              (List.replicate committee.length false))
            agg.aggregationBits) }

end Pharos.Gossip
