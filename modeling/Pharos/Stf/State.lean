import Mathlib.Order.Lattice.Nat
import Pharos.Validator.Signing

/-
  This file implements the state that the state transition works on and the accessors that the
  transition reads the state by.

  One record stands for the states of all forks. What a fork does not have yet is not read while the
  state is of that fork. An epoch that is never reached is the top element.
-/

----
-- Containers
----

namespace Pharos.Stf

abbrev FarEpoch := WithTop Epoch

abbrev farFutureEpoch : FarEpoch := ⊤

abbrev ExecutionAddress := Nat

/- The first byte, and the others. -/
structure WithdrawalCredentials where
  leadingByte : Nat
  rest : Nat
deriving DecidableEq, Repr

structure Validator where
  pubkey : BLSPubkey
  withdrawalCredentials : WithdrawalCredentials
  effectiveBalance : Gwei
  slashed : Bool
  activationEligibilityEpoch : FarEpoch
  activationEpoch : FarEpoch
  exitEpoch : FarEpoch
  withdrawableEpoch : FarEpoch
deriving DecidableEq

structure Eth1Data where
  depositRoot : Root
  depositCount : Nat
  blockHash : Hash256
deriving DecidableEq, Repr

structure Withdrawal where
  index : Nat
  validatorIndex : ValidatorIndex
  address : ExecutionAddress
  amount : Gwei
deriving DecidableEq, Repr

structure PendingPartialWithdrawal where
  validatorIndex : ValidatorIndex
  amount : Gwei
  withdrawableEpoch : Epoch
deriving DecidableEq, Repr

/- The field of a payload that is checked here. -/
structure ExecutionPayload where
  withdrawals : List Withdrawal
deriving DecidableEq, Repr

/- The lists of a payload are kept by their roots. -/
structure ExecutionPayloadHeader where
  parentHash : Hash256
  prevRandao : Hash256
  timestamp : Nat
  blockHash : Hash256
  withdrawalsRoot : Root
  others : Nat
deriving DecidableEq, Repr

structure SyncAggregate where
  syncCommitteeBits : List Bool
  syncCommitteeSignature : BLSSignature
deriving DecidableEq, Repr

structure ConsolidationRequest where
  sourceAddress : ExecutionAddress
  sourcePubkey : BLSPubkey
  targetPubkey : BLSPubkey
deriving DecidableEq, Repr

structure PendingDeposit where
  pubkey : BLSPubkey
  withdrawalCredentials : WithdrawalCredentials
  amount : Gwei
  signature : BLSSignature
  slot : Slot
deriving DecidableEq, Repr

structure PendingConsolidation where
  sourceIndex : ValidatorIndex
  targetIndex : ValidatorIndex
deriving DecidableEq, Repr

----
-- States
----

/- Balances, and what rewards and penalties are computed from. -/
structure Accounting where
  balances : List Gwei
  previousEpochParticipation : List Nat
  currentEpochParticipation : List Nat
  inactivityScores : List Nat
  slashings : List Gwei
deriving DecidableEq, Repr

structure BeaconState where
  validators : List Validator
  accounting : Accounting
  randaoMixes : List Hash256
  previousJustifiedCheckpoint : Checkpoint
  currentJustifiedCheckpoint : Checkpoint
  finalizedCheckpoint : Checkpoint
  nextWithdrawalIndex : Nat
  nextWithdrawalValidatorIndex : ValidatorIndex
  depositRequestsStartIndex : Nat
  depositBalanceToConsume : Gwei
  exitBalanceToConsume : Gwei
  earliestExitEpoch : Epoch
  consolidationBalanceToConsume : Gwei
  earliestConsolidationEpoch : Epoch
  pendingDeposits : List PendingDeposit
  pendingPartialWithdrawals : List PendingPartialWithdrawal
  pendingConsolidations : List PendingConsolidation
  proposerLookahead : List ValidatorIndex
  forkVariant : ForkVariant
  genesisValidatorsRoot : Root
  slot : Slot
  fork : Fork
  blockRoots : List Root
  eth1DepositIndex : Nat
deriving DecidableEq

----
-- Errors
----

inductive AttestationInvalidReason where
  | slotTooOld
  | slotTooNew
  | targetEpochMismatch
  | committeeIndexOutOfRange
  | aggregationBitsLengthMismatch
  | invalidSourceCheckpoint
  | invalidSignature
  | emptyAttestingIndices
deriving DecidableEq, Repr

/- Those of the modelled steps. -/
inductive StateTransitionError where
  | invalidAttestation (reason : AttestationInvalidReason)
  | slotOutOfRange
  | targetSlotNotAfterCurrent (current target : Slot)
  | withdrawalsMismatch
  | indexOutOfRange (index : Nat)
  | ssz
deriving DecidableEq, Repr

----
-- Protocol Interface
----

/- The constants of a preset that the transition reads. -/
class PresetSpec (E : Type) where
  slotsPerHistoricalRoot : Nat
  epochsPerHistoricalVector : Nat
  minSeedLookahead : Nat
  maxSeedLookahead : Nat
  minAttestationInclusionDelay : Nat
  churnLimitQuotient : Nat
  minPerEpochChurnLimit : Nat
  minValidatorWithdrawabilityDelay : Nat
  maxEffectiveBalanceElectra : Gwei
  minActivationBalance : Gwei
  maxWithdrawalsPerPayload : Nat
  maxValidatorsPerWithdrawalsSweep : Nat
  maxPendingPartialsPerWithdrawalsSweep : Nat
  shuffleRoundCount : Nat

/-
  What the transition takes from elsewhere: the hash, the seed that it makes of a mix, the address
  in credentials, and the draw of a proposer.
-/
class StfSpec (E : Type) where
  hash : List UInt8 → Vector UInt8 32
  hashSeed : DomainType → Epoch → Hash256 → Vector UInt8 32
  addressOf : WithdrawalCredentials → ExecutionAddress
  computeProposerIndexElectra :
    List Validator → List ValidatorIndex → Vector UInt8 32 → Slot → ValidatorIndex

----
-- Accessors
----

open BeaconSpec SigningSpec CommitteeSpec
open Pharos.Validator (DomainSpec)
open Pharos.Validator.DomainSpec PresetSpec StfSpec

def isActiveValidator (validator : Validator) (epoch : Epoch) : Bool :=
  validator.activationEpoch ≤ (epoch : FarEpoch) && (epoch : FarEpoch) < validator.exitEpoch

def getActiveValidatorIndices (validators : List Validator) (epoch : Epoch) : List ValidatorIndex :=
  validators.zipIdx.filterMap fun entry =>
    if isActiveValidator entry.1 epoch then some entry.2 else none

def activeBalances (validators : List Validator) (epoch : Epoch) : List Gwei :=
  (validators.filter fun validator =>
    isActiveValidator validator epoch).map Validator.effectiveBalance

variable (E : Type) [BeaconSpec E]

variable (state : BeaconState)

def getCurrentEpoch : Epoch :=
  computeEpochAtSlot E state.slot

def getPreviousEpoch : Epoch :=
  getCurrentEpoch E state - 1

def domainOf [DomainSpec E] (domainType : DomainType) (version : Version) : Domain :=
  computeDomain E domainType version state.genesisValidatorsRoot

def getDomain [DomainSpec E] (domainType : DomainType) (epoch : Epoch) : Domain :=
  domainOf E state domainType
    (if epoch < state.fork.epoch then state.fork.previousVersion else state.fork.currentVersion)

def getRandaoMix [PresetSpec E] (epoch : Epoch) : Hash256 :=
  state.randaoMixes.getD (epoch % epochsPerHistoricalVector E) defaultHash

def getSeed [PresetSpec E] [StfSpec E] (epoch : Epoch)
    (domainType : DomainType) : Vector UInt8 32 :=
  hashSeed E domainType epoch
    (getRandaoMix E state (epoch + epochsPerHistoricalVector E - minSeedLookahead E - 1))

def getBeaconProposerIndexElectra [PresetSpec E] [StfSpec E] : ValidatorIndex :=
  let epoch := getCurrentEpoch E state
  computeProposerIndexElectra E state.validators (getActiveValidatorIndices state.validators epoch)
    (getSeed E state epoch .beaconProposer) state.slot

def getBlockRootAtSlot [PresetSpec E] (slot : Slot) : Option Root :=
  if slot < state.slot ∧ state.slot ≤ slot + slotsPerHistoricalRoot E then
    state.blockRoots[slot % slotsPerHistoricalRoot E]?
  else
    none

def getTotalActiveBalance : Gwei :=
  max (activeBalances state.validators (getCurrentEpoch E state)).sum (effectiveBalanceIncrement E)

end Pharos.Stf
