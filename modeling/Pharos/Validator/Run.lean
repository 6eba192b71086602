import Pharos.Lib.HashTable
import Pharos.Validator.Signing

/-
  This file implements the main loop of the validator client: once per slot, it asks the beacon node
  for its fork and then does the duties of the slot.
-/

----
-- Beacon Node
----

namespace Pharos.Validator

structure SyncingData where
  isSyncing : Bool
  isOptimistic : Bool
  elOffline : Bool
deriving DecidableEq, Repr

/-
  The answers of the beacon node during a slot. There is no answer if a request fails, or if the
  answer makes no sense.
-/
structure BeaconNode where
  getSyncing : Option SyncingData
  getFork : Option Version
  produceBlockV3 : Slot → BLSSignature → Option BeaconBlock
  getAttestationData : Slot → CommitteeIndex → Option AttestationData
  getAggregateAttestation : Root → Slot → Option Attestation
  getAggregateAttestationV2 : Root → Slot → Option ElectraAttestation
  getHeadBlockRoot : Option Root
  submitSyncCommitteeMessages : List SyncCommitteeMessage → Bool
  getSyncCommitteeContribution : Slot → Nat → Root → Option SyncCommitteeContribution

structure AttesterDuty where
  validatorIndex : ValidatorIndex
  committeeIndex : CommitteeIndex
  committeeLength : Nat
  committeesAtSlot : Nat
  validatorCommitteeIndex : Nat
deriving DecidableEq, Repr

structure SyncDuty where
  pubkey : String
  validatorSyncCommitteeIndices : List Nat
deriving DecidableEq, Repr

structure EpochDuties where
  proposer : HashMap Slot String
  attester : HashMap Slot (List AttesterDuty)
  sync : List SyncDuty

structure VcConfig where
  genesisTime : Nat
  slotsPerEpoch : Nat
  slotDurationMs : Nat
  electraForkVersion : Option Version
deriving DecidableEq, Repr

end Pharos.Validator

namespace Pharos.Validator.DoppelgangerGuard

def maySign (guard : DoppelgangerGuard) (pubkeyHex : String) (currentEpoch : Epoch) : Bool :=
  !guard.enabled ||
    match guard.states.lookup pubkeyHex with
    | some .cleared => true
    | some (.holdOff clearEpoch) => clearEpoch ≤ currentEpoch
    | none => false

/- Clear the validators whose hold-off is over. -/
def advance (guard : DoppelgangerGuard) (currentEpoch : Epoch) : DoppelgangerGuard :=
  { guard with
    states := HashTable.mapValues guard.states fun state =>
      match state with
      | .holdOff clearEpoch =>
        if clearEpoch ≤ currentEpoch then .cleared else .holdOff clearEpoch
      | .cleared => .cleared }

end Pharos.Validator.DoppelgangerGuard

----
-- Duties
----

namespace Pharos.Validator

section

open SigningSpec Checks

variable (S : Type) [BeaconSpec S]
variable [SigningSpec S] [CommitteeSpec S] [DomainSpec S]

variable (bn : BeaconNode)

section

variable (entry : ValidatorEntry)

def runProposer (slot : Slot) (epoch : Epoch) (fork : ForkContext) : Duty Unit := do
  let randao ← signRandaoReveal S entry epoch fork
  let block ← orStop (bn.produceBlockV3 slot randao) .beaconNode
  let signature ← signBeaconBlock S entry block slot fork
  note (.submitted (.block ⟨block, signature⟩))

def ownBit (committeeLength position : Nat) : List Bool :=
  (List.range committeeLength).map fun index =>
    index == position

def runAggregator (duty : AttesterDuty) (slot : Slot)
    (fork : ForkContext) (isElectra : Bool) (dataRoot : Root) :
    Duty Unit := do
  let proof ← signSelectionProof S entry slot fork
  stopIf (!isAggregator S duty.committeeLength proof) .notDue
  if isElectra then
    let aggregate ← orStop (bn.getAggregateAttestationV2 dataRoot slot) .beaconNode
    let message : AggregateAndProof ElectraAttestation := ⟨entry.index, aggregate, proof⟩
    let signature ← signAggregateAndProof S entry (.electraAggregateAndProof message) fork
    note (.submitted (.aggregateAndProofsV2 [⟨message, signature⟩]))
  else
    let aggregate ← orStop (bn.getAggregateAttestation dataRoot slot) .beaconNode
    let message : AggregateAndProof Attestation := ⟨entry.index, aggregate, proof⟩
    let signature ← signAggregateAndProof S entry (.aggregateAndProof message) fork
    note (.submitted (.aggregateAndProofs [⟨message, signature⟩]))
  note (.submitted
    (.beaconCommitteeSubscription entry.index duty.committeeIndex duty.committeesAtSlot slot))

def runAttester (duty : AttesterDuty) (slot : Slot) (fork : ForkContext) (isElectra : Bool) :
    Duty Unit := do
  let attData ← orStop (bn.getAttestationData slot duty.committeeIndex) .beaconNode
  let typedAtt :=
    if isElectra then { attData with index := 0 } else attData
  let signature ← signAttestation S entry typedAtt attData.source.epoch attData.target.epoch fork
  note (.submitted
    (if isElectra then
      .singleAttestations [⟨duty.committeeIndex, entry.index, typedAtt, signature⟩]
    else
      .attestations
        [⟨ownBit duty.committeeLength duty.validatorCommitteeIndex, attData, signature⟩]))
  runAggregator S bn entry duty slot fork isElectra (attestationDataRoot S typedAtt)

def runContribution (slot : Slot) (fork : ForkContext)
    (headBlockRoot : Root) (syncCommitteeIndex : Nat) :
    Duty SignedContributionAndProof := do
  let subnetId := syncCommitteeIndex / 128
  let proof ← signSyncCommitteeSelectionProof S entry slot subnetId fork
  stopIf (!isSyncCommitteeAggregator S proof) .notDue
  let contribution ←
    orStop (bn.getSyncCommitteeContribution slot subnetId headBlockRoot) .beaconNode
  let message : ContributionAndProof := ⟨entry.index, contribution, proof⟩
  let signature ← signContributionAndProof S entry message fork
  pure ⟨message, signature⟩

def runSyncCommittee (syncDuties : List SyncDuty)
    (slot : Slot) (fork : ForkContext) (headBlockRoot : Root) :
    Duty Unit := do
  let duty ← orStop (syncDuties.find? fun duty => duty.pubkey = entry.pubkeyHex) .notDue
  let signature ← signSyncCommitteeMessage S entry headBlockRoot fork
  let messages : List SyncCommitteeMessage := [⟨slot, headBlockRoot, entry.index, signature⟩]
  note (.submitted (.syncCommitteeMessages messages))
  stopIf (!bn.submitSyncCommitteeMessages messages) .beaconNode
  let contributions ←
    attemptEach (runContribution S bn entry slot fork headBlockRoot)
      duty.validatorSyncCommitteeIndices
  if contributions ≠ [] then
    note (.submitted (.contributionAndProofs contributions))
  note (.submitted
    (.syncCommitteeSubscription entry.index duty.validatorSyncCommitteeIndices
      ((slot / 32 / 256 + 1) * 256)))

end

end

----
-- Slots
----

open Checks

/- The next slot to begin, counted from genesis. -/
def VcConfig.currentSlot (config : VcConfig) (nowMs : Nat) : Slot :=
  (nowMs - Word.satMul config.genesisTime 1000) / config.slotDurationMs + 1

def VcConfig.epochOf (config : VcConfig) (slot : Slot) : Epoch :=
  slot / config.slotsPerEpoch

/- The later of two entries replaces the other in a map. -/
def entryBy (validators : List ValidatorEntry) (isIt : ValidatorEntry → Bool) :
    Option ValidatorEntry :=
  validators.reverse.find? isIt

def unlessHeldOff (entry : ValidatorEntry) (epoch : Epoch) (duty : Duty Unit) : Duty Unit := do
  let guard ← asks Client.doppelganger
  stopIf (!guard.maySign entry.pubkeyHex epoch) .notDue
  duty

variable (S : Type) [BeaconSpec S]
variable [SigningSpec S] [CommitteeSpec S] [DomainSpec S]

variable (bn : BeaconNode)

section

variable (validators : List ValidatorEntry)

def proposerPath (duties : EpochDuties) (slot : Slot) (epoch : Epoch) (fork : ForkContext) :
    Duty Unit := do
  let pubkey ← orStop (duties.proposer.lookup slot) .notDue
  let entry ← orStop (entryBy validators fun entry => entry.pubkeyHex = pubkey) .notDue
  unlessHeldOff entry epoch (runProposer S bn entry slot epoch fork)

def attesterPath (slot : Slot)
    (epoch : Epoch) (fork : ForkContext) (isElectra : Bool) (duty : AttesterDuty) :
    Duty Unit := do
  let entry ← orStop (entryBy validators fun entry => entry.index = duty.validatorIndex) .notDue
  unlessHeldOff entry epoch (runAttester S bn entry duty slot fork isElectra)

end

def runVcSlot (config : VcConfig) (genesisValidatorsRoot : Root)
    (validators : List ValidatorEntry) (bn : BeaconNode) (duties : HashMap Epoch EpochDuties)
    (nowMs : Nat) :
    Duty Unit := do
  let currentSlot := config.currentSlot nowMs
  let currentEpoch := config.epochOf currentSlot
  modify fun client =>
    { client with doppelganger := client.doppelganger.advance currentEpoch }
  let sync ← orStop bn.getSyncing .beaconNode
  stopIf (sync.isSyncing || sync.isOptimistic || sync.elOffline) .beaconNode
  let currentVersion ← orStop bn.getFork .beaconNode
  let fork : ForkContext := ⟨currentVersion, genesisValidatorsRoot⟩
  let isElectra := decide (config.electraForkVersion = some currentVersion)
  let dutiesForSlot ← orStop (duties.lookup currentEpoch) .notDue
  let _ ← attempt (proposerPath S bn validators dutiesForSlot currentSlot currentEpoch fork)
  let _ ← attemptEach (attesterPath S bn validators currentSlot currentEpoch fork isElectra)
    ((dutiesForSlot.attester.lookup currentSlot).getD [])
  let headBlockRoot ← orStop bn.getHeadBlockRoot .beaconNode
  let _ ← attemptEach
    (fun entry =>
      unlessHeldOff entry currentEpoch
        (runSyncCommittee S bn entry dutiesForSlot.sync currentSlot fork headBlockRoot))
    validators
  pure ()

end Pharos.Validator
