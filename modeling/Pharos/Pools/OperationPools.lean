import Mathlib.Data.List.Sort
import Pharos.Lib.LruCache
import Pharos.Messages

/-
  This file implements the pools in which the node collects operations until it puts them into a
  block.
-/

----
-- Pools
----

namespace Pharos.Pools

section

def maxPoolEntries : Nat := 16384

/- The limits on what a block holds. -/
class OperationSpec (S : Type) where
  maxProposerSlashings : Nat
  maxAttesterSlashings : Nat
  maxAttestations : Nat
  maxVoluntaryExits : Nat
  maxBlsToExecutionChanges : Nat
  minAttestationInclusionDelay : Nat

/- The root of the data, and a number to tell apart votes. -/
structure AttKey where
  attDataRoot : Root
  subkey : Nat
deriving DecidableEq, Repr

def AttKey.primary (root : Root) : AttKey :=
  ⟨root, 0⟩

structure SyncMessageKey where
  slot : Slot
  subcommitteeIndex : Nat
  beaconBlockRoot : Root
deriving DecidableEq, Repr

structure OperationPools where
  attestations : LruCache AttKey Attestation maxPoolEntries
  attesterSlashings : LruCache Nat AttesterSlashing maxPoolEntries
  proposerSlashings : LruCache ValidatorIndex ProposerSlashing maxPoolEntries
  voluntaryExits : LruCache ValidatorIndex SignedVoluntaryExit maxPoolEntries
  blsToExecutionChanges : LruCache ValidatorIndex SignedBLSToExecutionChange maxPoolEntries
  syncMessages : LruCache SyncMessageKey (List SyncCommitteeMessage) maxPoolEntries

namespace OperationPools

def new : OperationPools where
  attestations := LruCache.empty
  attesterSlashings := LruCache.empty
  proposerSlashings := LruCache.empty
  voluntaryExits := LruCache.empty
  blsToExecutionChanges := LruCache.empty
  syncMessages := LruCache.empty

end OperationPools

----
-- Attestations
----

open SigningSpec

def nextFreeSubkey (cache : LruCache AttKey Attestation maxPoolEntries) (dataRoot : Root) : Nat :=
  ((List.range' 1 (cache.table.entries.length + 1)).find?
    fun subkey =>
      (⟨dataRoot, subkey⟩ : AttKey) ∉ cache.table).getD 0

def bitsDisjoint (first second : List Bool) : Bool :=
  (first.zip second).all fun pair => !(pair.1 && pair.2)

def setBitsOf (first second : List Bool) : List Bool :=
  first.zipIdx.map fun entry =>
    entry.1 || second.getD entry.2 false

namespace OperationPools

variable (S : Type) [SigningSpec S]

variable (pools : OperationPools)

def insertAttestation (attestation : Attestation) : OperationPools :=
  let dataRoot := attestationDataRoot S attestation.data
  let cache := pools.attestations
  let fresh : AttKey := ⟨dataRoot, nextFreeSubkey cache dataRoot⟩
  match cache.peek (AttKey.primary dataRoot) with
  | none => { pools with attestations := cache.put (AttKey.primary dataRoot) attestation }
  | some existing =>
    if bitsDisjoint existing.aggregationBits attestation.aggregationBits then
      match aggregate S [existing.signature, attestation.signature] with
      | some signature =>
        { pools with
          attestations :=
            cache.put (AttKey.primary dataRoot)
              ⟨setBitsOf existing.aggregationBits attestation.aggregationBits,
                existing.data, signature⟩ }
      | none => { pools with attestations := cache.put fresh attestation }
    else
      { pools with attestations := cache.put fresh attestation }

theorem insertAttestation_cases (att : Attestation) : (∃ k, insertAttestation S pools att =
        { pools with attestations := pools.attestations.put k att }) ∨
      ∃ existing sig,
        let k := AttKey.primary (attestationDataRoot S att.data)
        pools.attestations.peek k = some existing ∧
          bitsDisjoint existing.aggregationBits att.aggregationBits = true ∧
          aggregate S [existing.signature, att.signature] = some sig ∧
          insertAttestation S pools att = { pools with
              attestations :=
                pools.attestations.put k
                  ⟨setBitsOf existing.aggregationBits att.aggregationBits,
                    existing.data, sig⟩ } := by
  unfold insertAttestation
  dsimp only
  cases hPeek : pools.attestations.peek (AttKey.primary (attestationDataRoot S att.data)) with
  | none => exact .inl ⟨_, rfl⟩
  | some existing =>
    by_cases hDisjoint : bitsDisjoint existing.aggregationBits att.aggregationBits = true
    · cases hAggregate : aggregate S [existing.signature, att.signature] with
      | none =>
        left
        simp only [hDisjoint, if_true, hAggregate]
        exact ⟨_, rfl⟩
      | some sig =>
        right
        refine ⟨existing, sig, rfl, hDisjoint, hAggregate, ?_⟩
        simp only [hDisjoint, if_true, hAggregate]
    · left
      simp only [hDisjoint]
      exact ⟨_, rfl⟩

end OperationPools

end

----
-- Other Operations
----

def indexSet (indexed : IndexedAttestation) : List ValidatorIndex :=
  indexed.attestingIndices.dedup.insertionSort (· ≤ ·)

/- The indices on both sides, in order. -/
def sharedIndices (slashing : AttesterSlashing) : List ValidatorIndex :=
  (indexSet slashing.attestation1).filter (· ∈ indexSet slashing.attestation2)

def attesterSlashingKey (slashing : AttesterSlashing) : Nat :=
  let set1 := indexSet slashing.attestation1
  let set2 := indexSet slashing.attestation2
  match sharedIndices slashing with
  | [] => (set1.foldl (· ^^^ ·) 0) ||| ((set2.foldl (· ^^^ ·) 0) <<< 64)
  | [first] => first
  | first :: second :: _ => first ||| (second <<< 64)

namespace OperationPools

variable (pools : OperationPools)

def insertAttesterSlashing (slashing : AttesterSlashing) : OperationPools :=
  { pools with
    attesterSlashings :=
      pools.attesterSlashings.putIfAbsent (attesterSlashingKey slashing) slashing }

def insertProposerSlashing (slashing : ProposerSlashing) : OperationPools :=
  { pools with
    proposerSlashings :=
      pools.proposerSlashings.putIfAbsent slashing.signedHeader1.message.proposerIndex slashing }

def replaceOrPush (messages : List SyncCommitteeMessage) (message : SyncCommitteeMessage) :
    List SyncCommitteeMessage :=
  match messages with
  | [] => [message]
  | first :: rest =>
    if first.validatorIndex = message.validatorIndex then
      message :: rest
    else
      first :: replaceOrPush rest message

def insertSyncMessage (message : SyncCommitteeMessage) (subcommitteeIndex : Nat) : OperationPools :=
  let key : SyncMessageKey := ⟨message.slot, subcommitteeIndex, message.beaconBlockRoot⟩
  let messages := (pools.syncMessages.peek key).getD []
  { pools with syncMessages := pools.syncMessages.put key (replaceOrPush messages message) }

end OperationPools

----
-- Draining
----

open BeaconSpec OperationSpec

/- What the node puts into a block. There are no deposits. -/
structure BlockOperations where
  proposerSlashings : List ProposerSlashing
  attesterSlashings : List AttesterSlashing
  attestations : List Attestation
  voluntaryExits : List SignedVoluntaryExit
  blsToExecutionChanges : List SignedBLSToExecutionChange
deriving DecidableEq, Repr

variable (S : Type) [BeaconSpec S] [OperationSpec S]

def inInclusionWindow (blockSlot : Slot) (attestation : Attestation) : Bool :=
  let slot := attestation.data.slot
  Word.satAdd slot (minAttestationInclusionDelay S) ≤ blockSlot &&
    blockSlot ≤ Word.satAdd slot (slotsPerEpoch S)

namespace OperationPools

def drainForBlock (pools : OperationPools) (blockSlot : Slot) : BlockOperations × OperationPools :=
  let proposerSlashings := pools.proposerSlashings.drain (maxProposerSlashings S) fun _ => true
  let attesterSlashings := pools.attesterSlashings.drain (maxAttesterSlashings S) fun _ => true
  let attestations :=
    pools.attestations.drain (maxAttestations S) (inInclusionWindow S blockSlot)
  let voluntaryExits := pools.voluntaryExits.drain (maxVoluntaryExits S) fun _ => true
  let blsToExecutionChanges :=
    pools.blsToExecutionChanges.drain (maxBlsToExecutionChanges S) fun _ => true
  (⟨proposerSlashings.1, attesterSlashings.1, attestations.1,
      voluntaryExits.1, blsToExecutionChanges.1⟩,
    { pools with
      proposerSlashings := proposerSlashings.2
      attesterSlashings := attesterSlashings.2
      attestations := attestations.2
      voluntaryExits := voluntaryExits.2
      blsToExecutionChanges := blsToExecutionChanges.2 })

end OperationPools

end Pharos.Pools
