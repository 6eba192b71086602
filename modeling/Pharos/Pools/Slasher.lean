import Pharos.Pools.OperationPools

/-
  This file implements the slasher that watches the accepted attestations for double votes and
  surround votes.
-/

----
-- Records
----

namespace Pharos.Pools

def historyEpochs : Nat := 54

/- An attestation that was observed. -/
structure AttestRecord where
  sourceEpoch : Epoch
  targetEpoch : Epoch
  dataRoot : Root
  indexed : IndexedAttestation
deriving DecidableEq, Repr

inductive SlashKind where
  | none
  | doubleVote
  | surroundVote
deriving DecidableEq, Repr

def isSlashablePair (existing : AttestRecord) (newSource newTarget : Epoch) (newRoot : Root) :
    SlashKind :=
  if existing.targetEpoch = newTarget ∧ existing.dataRoot ≠ newRoot then
    .doubleVote
  else if existing.sourceEpoch < newSource ∧ newTarget < existing.targetEpoch then
    .surroundVote
  else if newSource < existing.sourceEpoch ∧ existing.targetEpoch < newTarget then
    .surroundVote
  else
    .none

----
-- Observations
----

open SigningSpec

structure AttestationSlasher where
  records : HashMap ValidatorIndex (List AttestRecord)

namespace AttestationSlasher

def new : AttestationSlasher where
  records := ∅

variable (S : Type) [SigningSpec S]

def recordOf (indexed : IndexedAttestation) : AttestRecord where
  sourceEpoch := indexed.data.source.epoch
  targetEpoch := indexed.data.target.epoch
  dataRoot := attestationDataRoot S indexed.data
  indexed := indexed

/-
  Look at one validator: forget what is too old, find the first record that conflicts, and record
  the attestation.
-/
def observeValidator (indexed : IndexedAttestation) (currentEpoch : Epoch)
    (slasher : AttestationSlasher) (validator : ValidatorIndex) :
    Option IndexedAttestation × AttestationSlasher :=
  let new := recordOf S indexed
  let history :=
    ((slasher.records.lookup validator).getD []).filter
      fun record =>
        currentEpoch - historyEpochs ≤ record.targetEpoch
  let detection := history.find? fun existing =>
    isSlashablePair existing new.sourceEpoch new.targetEpoch new.dataRoot ≠ .none
  let alreadyStored := history.any fun record =>
    record.targetEpoch = new.targetEpoch ∧ record.dataRoot = new.dataRoot
  let history :=
    if alreadyStored then history else history ++ [new]
  (detection.map AttestRecord.indexed, ⟨slasher.records.insert validator history⟩)

def observe (slasher : AttestationSlasher) (pools : OperationPools) (indexed : IndexedAttestation)
    (currentEpoch : Epoch) : AttestationSlasher × OperationPools :=
  let found := indexed.attestingIndices.foldl
    (fun (seen : List IndexedAttestation × AttestationSlasher) validator =>
      let answer := observeValidator S indexed currentEpoch seen.2 validator
      (seen.1 ++ answer.1.toList, answer.2))
    ([], slasher)
  (found.2, found.1.foldl (fun pools prior => pools.insertAttesterSlashing ⟨prior, indexed⟩) pools)

end AttestationSlasher

end Pharos.Pools
