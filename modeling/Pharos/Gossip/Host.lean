import Pharos.ForkChoice.GetHead
import Pharos.Lib.Checks
import Pharos.Pools.Slasher

/-
  This file implements the node as the gossip validators see it: the fork-choice store, the clock,
  and the caches in which they remember what they have seen.

  Validation is a program of checks. It stops early with a verdict, and logs the target slot of
  every call to `process_slots_fork`. The caches have room for everything.
-/

----
-- Host
----

namespace Pharos.Gossip

variable {S : Type}

inductive GossipVerdict where
  | accept
  | ignore (reason : String)
  | reject (reason : String)
deriving DecidableEq, Repr

/- The settings of the network that validation reads. -/
structure RuntimeConfig where
  secondsPerSlot : Nat
  maxBlobsPerBlock : Nat
  maxBlobsPerBlockElectra : Nat
deriving DecidableEq, Repr

structure ForkContext where
  genesisTimeSecs : Nat
  denebForkEpoch : Epoch
deriving DecidableEq, Repr

structure Host (S : Type) where
  forkChoice : ForkChoice.Store S
  forkContext : ForkContext
  runtimeCfg : RuntimeConfig
  nowMs : Nat
  seenBlockProposers : Finset (Slot × ValidatorIndex)
  proposerCache : HashMap (Slot × Root) ValidatorIndex
  invalidBlockRoots : Finset Root
  seenAttestationValidators : Finset (ValidatorIndex × Epoch)
  committeeCache : HashMap (Slot × CommitteeIndex × Root) (List ValidatorIndex)
  seenAggregators : Finset (ValidatorIndex × Epoch)
  seenAggregateData : HashMap Root (List Bool)
  seenAggregateDataElectra : HashMap (Root × CommitteeIndex) (List Bool)
  seenSyncMessages : Finset (Slot × ValidatorIndex × SubnetId)
  seenSyncContributionAggregators : Finset (ValidatorIndex × Slot × Nat)
  seenSyncContributionData : HashMap (Slot × Root × Nat) (List Bool)
  opPools : Pools.OperationPools
  slasher : Pools.AttestationSlasher

abbrev Validation (S Value : Type) :=
  Checks (Host S) Slot GossipVerdict Value

/- What a validator answers. -/
def verdictOf (outcome : Except GossipVerdict Unit) : GossipVerdict :=
  match outcome with
  | .ok () => .accept
  | .error verdict => verdict

def Host.new (forkChoice : ForkChoice.Store S) (forkContext : ForkContext)
    (runtimeCfg : RuntimeConfig) (nowMs : Nat) :
    Host S where
  forkChoice
  forkContext
  runtimeCfg
  nowMs
  seenBlockProposers := ∅
  proposerCache := ∅
  invalidBlockRoots := ∅
  seenAttestationValidators := ∅
  committeeCache := ∅
  seenAggregators := ∅
  seenAggregateData := ∅
  seenAggregateDataElectra := ∅
  seenSyncMessages := ∅
  seenSyncContributionAggregators := ∅
  seenSyncContributionData := ∅
  opPools := Pools.OperationPools.new
  slasher := Pools.AttestationSlasher.new

----
-- Clock
----

section

open BeaconSpec Word

def maximumGossipClockDisparityMs : Nat := 500

def attestationPropagationSlotRange : Nat := 32

namespace Host

def slotStartMs (host : Host S) (slot : Slot) : Nat :=
  satAdd (satMul host.forkChoice.genesisTime 1000)
    (satMul (satMul slot host.runtimeCfg.secondsPerSlot) 1000)

/- The start of a slot comes later than the clock allows. -/
def isFutureSlot (host : Host S) (slot : Slot) : Bool :=
  wrapAdd host.nowMs maximumGossipClockDisparityMs < host.slotStartMs slot

def isNotCurrentSlot (host : Host S) (slot : Slot) : Bool :=
  let slotEndMs := satAdd (host.slotStartMs slot) (satMul host.runtimeCfg.secondsPerSlot 1000)
  host.isFutureSlot slot || wrapAdd slotEndMs maximumGossipClockDisparityMs < host.nowMs

variable [BeaconSpec S]

section

variable (host : Host S)

def currentEpoch : Epoch :=
  let genesisTimeSecs := host.forkContext.genesisTimeSecs
  let nowSecs := host.nowMs / 1000
  if nowSecs < genesisTimeSecs then
    0
  else
    let elapsedMs := satMul (nowSecs - genesisTimeSecs) 1000
    let slotMs := max (satMul host.runtimeCfg.secondsPerSlot 1000) 1
    elapsedMs / slotMs / slotsPerEpoch S

/- The clock is in an epoch, give or take the disparity. -/
def inEpoch (genesisTimeMs slotMs : Nat) (epoch : Epoch) : Bool :=
  let startMs := satAdd genesisTimeMs (satMul (satMul epoch (slotsPerEpoch S)) slotMs)
  let endMs := satAdd genesisTimeMs (satMul (satMul (satAdd epoch 1) (slotsPerEpoch S)) slotMs)
  startMs ≤ satAdd host.nowMs maximumGossipClockDisparityMs &&
    host.nowMs ≤ satAdd endMs maximumGossipClockDisparityMs

def isAttSlotInEip7045Window (attSlot : Slot) (genesisTimeMs slotMs : Nat) : Bool :=
  let attEpoch := attSlot / slotsPerEpoch S
  host.inEpoch genesisTimeMs slotMs attEpoch ||
    host.inEpoch genesisTimeMs slotMs (satAdd attEpoch 1)

/-
  The check that the four validators of votes make: a slot is not in the future, and not too old.
  From Deneb on, the current and the previous epoch are not too old.
-/
def inPropagationRange (slot : Slot) : Bool :=
  let genesisTimeMs := satMul host.forkChoice.genesisTime 1000
  let slotMs := satMul host.runtimeCfg.secondsPerSlot 1000
  if host.isFutureSlot slot then
    false
  else if host.forkContext.denebForkEpoch ≤ host.currentEpoch then
    host.isAttSlotInEip7045Window slot genesisTimeMs slotMs
  else
    let endTimeMs :=
      satAdd genesisTimeMs (satMul (satAdd (satAdd slot attestationPropagationSlotRange) 1) slotMs)
    host.nowMs ≤ satAdd endTimeMs maximumGossipClockDisparityMs

end

end Host

end

----
-- Lookups
----

open BeaconSpec CommitteeSpec Checks

variable [BeaconSpec S]

def advanceTo (state : S) (slot : Slot) : Validation S (Option S) :=
  if stateSlot state < slot then do
    note slot
    pure (processSlotsFork state slot).toOption
  else
    pure (some state)

def headStateAtSlot (slot : Slot) : Validation S (Option S) := do
  let fc ← asks Host.forkChoice
  match fc.blockStates.lookup (ForkChoice.getHead fc) with
  | some state => advanceTo state slot
  | none => pure none

def lookupOrComputeCommittee [CommitteeSpec S] (slot : Slot) (index : CommitteeIndex) :
    Validation S (Option (List ValidatorIndex)) := do
  let fc ← asks Host.forkChoice
  let key := (slot, index, ForkChoice.getHead fc)
  let cached ← asks fun host => host.committeeCache.lookup key
  match cached with
  | some committee => pure (some committee)
  | none =>
  match fc.blockStates.lookup (ForkChoice.getHead fc) with
  | none => pure none
  | some state => do
      let advanced ← advanceTo state slot
      match advanced with
      | none => pure none
      | some state => do
          let committee := getBeaconCommittee state slot index
          modify fun host =>
            { host with committeeCache := host.committeeCache.insert key committee }
          pure (some committee)

def proposerIndexOf [CommitteeSpec S] (state : S) : ValidatorIndex :=
  match stateForkVariant state with
  | .fulu => (proposerLookaheadAt state).getD (getBeaconProposerIndexElectra state)
  | .electra => getBeaconProposerIndexElectra state
  | _ => getBeaconProposerIndex state

def lookupOrComputeExpectedProposer [CommitteeSpec S] (slot : Slot) (parentRoot : Root) :
    Validation S (Option (ValidatorIndex × S)) := do
  let fc ← asks Host.forkChoice
  match fc.blockStates.lookup parentRoot with
  | none => pure none
  | some parentState => do
      let cached ← asks fun host =>
        host.proposerCache.lookup (slot, parentRoot)
      let advanced ← advanceTo parentState slot
      match advanced, cached with
      | none, _ => pure none
      | some state, some index => pure (some (index, state))
      | some state, none => do
          modify fun host =>
            { host with
              proposerCache :=
                host.proposerCache.insert (slot, parentRoot) (proposerIndexOf state) }
          pure (some (proposerIndexOf state, state))

end Pharos.Gossip
