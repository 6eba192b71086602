import Pharos.Stf.LightClient

/-
  This file implements the projections of a state of Electra or Fulu to an earlier fork, whose
  processing runs on the projected state, and the steps that write the result back. Every field is
  copied by hand, in both directions.

  The forks extend one another. The root that a state remembers is left out.

  Main theorems:
  * `Projections.projections_lose_nothing`
-/

----
-- States of the Forks
----

namespace Pharos.Stf.Projections

open LightClient (SyncCommittee)

/- What all forks since Altair have. -/
structure AltairState where
  genesisTime : Nat
  genesisValidatorsRoot : Root
  slot : Slot
  fork : Fork
  latestBlockHeader : BeaconBlockHeader
  blockRoots : List Root
  stateRoots : List Root
  historicalRoots : List Root
  eth1Data : Eth1Data
  eth1DataVotes : List Eth1Data
  eth1DepositIndex : Nat
  validators : List Validator
  balances : List Gwei
  randaoMixes : List Hash256
  slashings : List Gwei
  previousEpochParticipation : List Nat
  currentEpochParticipation : List Nat
  justificationBits : List Bool
  previousJustifiedCheckpoint : Checkpoint
  currentJustifiedCheckpoint : Checkpoint
  finalizedCheckpoint : Checkpoint
  inactivityScores : List Nat
  currentSyncCommittee : SyncCommittee
  nextSyncCommittee : SyncCommittee

/- Bellatrix, Capella and Deneb add these. -/
structure DenebState extends AltairState where
  latestExecutionPayloadHeader : ExecutionPayloadHeader
  nextWithdrawalIndex : Nat
  nextWithdrawalValidatorIndex : ValidatorIndex
  historicalSummaries : List (Root × Root)

structure ElectraState extends DenebState where
  depositRequestsStartIndex : Nat
  depositBalanceToConsume : Gwei
  exitBalanceToConsume : Gwei
  earliestExitEpoch : Epoch
  consolidationBalanceToConsume : Gwei
  earliestConsolidationEpoch : Epoch
  pendingDeposits : List PendingDeposit
  pendingPartialWithdrawals : List PendingPartialWithdrawal
  pendingConsolidations : List PendingConsolidation

structure FuluState extends ElectraState where
  proposerLookahead : List ValidatorIndex

----
-- Projections
----

section

variable (state : ElectraState)

def electraStateToAltair : AltairState :=
  { genesisTime := state.genesisTime, genesisValidatorsRoot := state.genesisValidatorsRoot,
    slot := state.slot, fork := state.fork, latestBlockHeader := state.latestBlockHeader,
    blockRoots := state.blockRoots, stateRoots := state.stateRoots,
    historicalRoots := state.historicalRoots, eth1Data := state.eth1Data,
    eth1DataVotes := state.eth1DataVotes, eth1DepositIndex := state.eth1DepositIndex,
    validators := state.validators, balances := state.balances, randaoMixes := state.randaoMixes,
    slashings := state.slashings, previousEpochParticipation := state.previousEpochParticipation,
    currentEpochParticipation := state.currentEpochParticipation,
    justificationBits := state.justificationBits,
    previousJustifiedCheckpoint := state.previousJustifiedCheckpoint,
    currentJustifiedCheckpoint := state.currentJustifiedCheckpoint,
    finalizedCheckpoint := state.finalizedCheckpoint, inactivityScores := state.inactivityScores,
    currentSyncCommittee := state.currentSyncCommittee,
    nextSyncCommittee := state.nextSyncCommittee }

def updateElectraFromAltair (altair : AltairState) : ElectraState :=
  { state with
    genesisTime := altair.genesisTime, genesisValidatorsRoot := altair.genesisValidatorsRoot,
    slot := altair.slot, fork := altair.fork, latestBlockHeader := altair.latestBlockHeader,
    blockRoots := altair.blockRoots, stateRoots := altair.stateRoots,
    historicalRoots := altair.historicalRoots, eth1Data := altair.eth1Data,
    eth1DataVotes := altair.eth1DataVotes, eth1DepositIndex := altair.eth1DepositIndex,
    validators := altair.validators, balances := altair.balances, randaoMixes := altair.randaoMixes,
    slashings := altair.slashings, previousEpochParticipation := altair.previousEpochParticipation,
    currentEpochParticipation := altair.currentEpochParticipation,
    justificationBits := altair.justificationBits,
    previousJustifiedCheckpoint := altair.previousJustifiedCheckpoint,
    currentJustifiedCheckpoint := altair.currentJustifiedCheckpoint,
    finalizedCheckpoint := altair.finalizedCheckpoint, inactivityScores := altair.inactivityScores,
    currentSyncCommittee := altair.currentSyncCommittee,
    nextSyncCommittee := altair.nextSyncCommittee }

def electraStateToDeneb : DenebState :=
  { genesisTime := state.genesisTime, genesisValidatorsRoot := state.genesisValidatorsRoot,
    slot := state.slot, fork := state.fork, latestBlockHeader := state.latestBlockHeader,
    blockRoots := state.blockRoots, stateRoots := state.stateRoots,
    historicalRoots := state.historicalRoots, eth1Data := state.eth1Data,
    eth1DataVotes := state.eth1DataVotes, eth1DepositIndex := state.eth1DepositIndex,
    validators := state.validators, balances := state.balances, randaoMixes := state.randaoMixes,
    slashings := state.slashings, previousEpochParticipation := state.previousEpochParticipation,
    currentEpochParticipation := state.currentEpochParticipation,
    justificationBits := state.justificationBits,
    previousJustifiedCheckpoint := state.previousJustifiedCheckpoint,
    currentJustifiedCheckpoint := state.currentJustifiedCheckpoint,
    finalizedCheckpoint := state.finalizedCheckpoint, inactivityScores := state.inactivityScores,
    currentSyncCommittee := state.currentSyncCommittee,
    nextSyncCommittee := state.nextSyncCommittee,
    latestExecutionPayloadHeader := state.latestExecutionPayloadHeader,
    nextWithdrawalIndex := state.nextWithdrawalIndex,
    nextWithdrawalValidatorIndex := state.nextWithdrawalValidatorIndex,
    historicalSummaries := state.historicalSummaries }

def updateElectraFromDeneb (deneb : DenebState) : ElectraState :=
  { state with
    genesisTime := deneb.genesisTime, genesisValidatorsRoot := deneb.genesisValidatorsRoot,
    slot := deneb.slot, fork := deneb.fork, latestBlockHeader := deneb.latestBlockHeader,
    blockRoots := deneb.blockRoots, stateRoots := deneb.stateRoots,
    historicalRoots := deneb.historicalRoots, eth1Data := deneb.eth1Data,
    eth1DataVotes := deneb.eth1DataVotes, eth1DepositIndex := deneb.eth1DepositIndex,
    validators := deneb.validators, balances := deneb.balances, randaoMixes := deneb.randaoMixes,
    slashings := deneb.slashings, previousEpochParticipation := deneb.previousEpochParticipation,
    currentEpochParticipation := deneb.currentEpochParticipation,
    justificationBits := deneb.justificationBits,
    previousJustifiedCheckpoint := deneb.previousJustifiedCheckpoint,
    currentJustifiedCheckpoint := deneb.currentJustifiedCheckpoint,
    finalizedCheckpoint := deneb.finalizedCheckpoint, inactivityScores := deneb.inactivityScores,
    currentSyncCommittee := deneb.currentSyncCommittee,
    nextSyncCommittee := deneb.nextSyncCommittee,
    latestExecutionPayloadHeader := deneb.latestExecutionPayloadHeader,
    nextWithdrawalIndex := deneb.nextWithdrawalIndex,
    nextWithdrawalValidatorIndex := deneb.nextWithdrawalValidatorIndex,
    historicalSummaries := deneb.historicalSummaries }

end

def fuluStateToElectra (state : FuluState) : ElectraState :=
  { genesisTime := state.genesisTime, genesisValidatorsRoot := state.genesisValidatorsRoot,
    slot := state.slot, fork := state.fork, latestBlockHeader := state.latestBlockHeader,
    blockRoots := state.blockRoots, stateRoots := state.stateRoots,
    historicalRoots := state.historicalRoots, eth1Data := state.eth1Data,
    eth1DataVotes := state.eth1DataVotes, eth1DepositIndex := state.eth1DepositIndex,
    validators := state.validators, balances := state.balances, randaoMixes := state.randaoMixes,
    slashings := state.slashings, previousEpochParticipation := state.previousEpochParticipation,
    currentEpochParticipation := state.currentEpochParticipation,
    justificationBits := state.justificationBits,
    previousJustifiedCheckpoint := state.previousJustifiedCheckpoint,
    currentJustifiedCheckpoint := state.currentJustifiedCheckpoint,
    finalizedCheckpoint := state.finalizedCheckpoint, inactivityScores := state.inactivityScores,
    currentSyncCommittee := state.currentSyncCommittee,
    nextSyncCommittee := state.nextSyncCommittee,
    latestExecutionPayloadHeader := state.latestExecutionPayloadHeader,
    nextWithdrawalIndex := state.nextWithdrawalIndex,
    nextWithdrawalValidatorIndex := state.nextWithdrawalValidatorIndex,
    historicalSummaries := state.historicalSummaries,
    depositRequestsStartIndex := state.depositRequestsStartIndex,
    depositBalanceToConsume := state.depositBalanceToConsume,
    exitBalanceToConsume := state.exitBalanceToConsume,
    earliestExitEpoch := state.earliestExitEpoch,
    consolidationBalanceToConsume := state.consolidationBalanceToConsume,
    earliestConsolidationEpoch := state.earliestConsolidationEpoch,
    pendingDeposits := state.pendingDeposits,
    pendingPartialWithdrawals := state.pendingPartialWithdrawals,
    pendingConsolidations := state.pendingConsolidations }

def updateFuluFromElectra (state : FuluState) (electra : ElectraState) : FuluState :=
  { state with
    genesisTime := electra.genesisTime, genesisValidatorsRoot := electra.genesisValidatorsRoot,
    slot := electra.slot, fork := electra.fork, latestBlockHeader := electra.latestBlockHeader,
    blockRoots := electra.blockRoots, stateRoots := electra.stateRoots,
    historicalRoots := electra.historicalRoots, eth1Data := electra.eth1Data,
    eth1DataVotes := electra.eth1DataVotes, eth1DepositIndex := electra.eth1DepositIndex,
    validators := electra.validators, balances := electra.balances,
    randaoMixes := electra.randaoMixes, slashings := electra.slashings,
    previousEpochParticipation := electra.previousEpochParticipation,
    currentEpochParticipation := electra.currentEpochParticipation,
    justificationBits := electra.justificationBits,
    previousJustifiedCheckpoint := electra.previousJustifiedCheckpoint,
    currentJustifiedCheckpoint := electra.currentJustifiedCheckpoint,
    finalizedCheckpoint := electra.finalizedCheckpoint,
    inactivityScores := electra.inactivityScores,
    currentSyncCommittee := electra.currentSyncCommittee,
    nextSyncCommittee := electra.nextSyncCommittee,
    latestExecutionPayloadHeader := electra.latestExecutionPayloadHeader,
    nextWithdrawalIndex := electra.nextWithdrawalIndex,
    nextWithdrawalValidatorIndex := electra.nextWithdrawalValidatorIndex,
    historicalSummaries := electra.historicalSummaries,
    depositRequestsStartIndex := electra.depositRequestsStartIndex,
    depositBalanceToConsume := electra.depositBalanceToConsume,
    exitBalanceToConsume := electra.exitBalanceToConsume,
    earliestExitEpoch := electra.earliestExitEpoch,
    consolidationBalanceToConsume := electra.consolidationBalanceToConsume,
    earliestConsolidationEpoch := electra.earliestConsolidationEpoch,
    pendingDeposits := electra.pendingDeposits,
    pendingPartialWithdrawals := electra.pendingPartialWithdrawals,
    pendingConsolidations := electra.pendingConsolidations }

/-
  A projection that is written back unchanged leaves the state as it was. One that was changed
  replaces the part of the state that belongs to the earlier fork, and nothing else.
-/
theorem projections_lose_nothing :
    (∀ state, updateElectraFromAltair state (electraStateToAltair state) = state) ∧
      (∀ state, updateElectraFromDeneb state (electraStateToDeneb state) = state) ∧
      (∀ state, updateFuluFromElectra state (fuluStateToElectra state) = state) ∧
      (∀ state altair,
        electraStateToAltair (updateElectraFromAltair state altair) = altair ∧
          updateElectraFromAltair state altair = { state with toAltairState := altair }) ∧
      (∀ state deneb,
        electraStateToDeneb (updateElectraFromDeneb state deneb) = deneb ∧
          updateElectraFromDeneb state deneb = { state with toDenebState := deneb }) ∧
      ∀ state electra,
        fuluStateToElectra (updateFuluFromElectra state electra) = electra ∧
          updateFuluFromElectra state electra = { state with toElectraState := electra } := by
  refine ⟨?_, ?_, ?_, ?_, ?_, ?_⟩
  · exact fun _ => rfl
  · exact fun _ => rfl
  · exact fun _ => rfl
  · exact fun _ _ => ⟨rfl, rfl⟩
  · exact fun _ _ => ⟨rfl, rfl⟩
  · exact fun _ _ => ⟨rfl, rfl⟩

end Pharos.Stf.Projections
