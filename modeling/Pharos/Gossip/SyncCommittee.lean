import Pharos.Gossip.Votes

/-
  This file implements the validation of sync committee messages and contributions received on
  gossip.
-/

----
-- Validation
----

namespace Pharos.Gossip

open BeaconSpec CommitteeSpec SigningSpec Checks

variable {S : Type} [BeaconSpec S] [CommitteeSpec S] [SigningSpec S]

/- A message of the current slot, one for each subnet of its validator. -/
def validateSyncCommitteeMessage (subnet : SubnetId) (msg : SyncCommitteeMessage) :
    Validation S Unit := do
  let notCurrent ← asks fun host =>
    host.isNotCurrentSlot msg.slot
  stopIf notCurrent (.ignore "sync_msg: slot not current")
  let head ← headStateAtSlot msg.slot
  let headState ← orStop head (.ignore "sync_msg: head state unavailable")
  stopIf ((validators headState).length ≤ msg.validatorIndex)
    (.reject "sync_msg: validator index out of range")
  let pubkey ←
    orStop (validatorPubkey headState msg.validatorIndex)
      (.reject "sync_msg: validator index out of range")
  let committees ←
    orStop (syncCommitteePubkeys headState) (.reject "sync_msg: no sync committee (pre-altair)")
  stopIf
    (subnet ∉ computeSubnetsForSyncCommittee S committees.1
      committees.2 (stateSlot headState) pubkey)
    (.reject "sync_msg: subnet not valid for validator")
  let key := (msg.slot, msg.validatorIndex, subnet)
  let seen ← asks fun host =>
    decide (key ∈ host.seenSyncMessages)
  stopIf seen (.ignore "sync_msg: duplicate (slot, validator, subnet)")
  let domain := getDomain headState .syncCommittee (computeEpochAtSlot S msg.slot)
  stopIf (!blsVerify S pubkey (computeSigningRoot S msg.beaconBlockRoot domain) msg.signature)
    (.reject "sync_msg: invalid signature")
  modify fun host =>
    { host with
      seenSyncMessages := insert key host.seenSyncMessages
      opPools := host.opPools.insertSyncMessage msg subnet }

/- What can be checked without the head state is checked first. -/
def validateSyncCommitteeContributionAndProof (signed : SignedContributionAndProof) :
    Validation S Unit := do
  let msg := signed.message
  let contribution := msg.contribution
  let notCurrent ← asks fun host =>
    host.isNotCurrentSlot contribution.slot
  stopIf notCurrent (.ignore "sync_contrib: slot not current")
  stopIf (syncCommitteeSubnetCount S ≤ contribution.subcommitteeIndex)
    (.reject "sync_contrib: subcommittee index out of range")
  stopIf (!contribution.aggregationBits.any id) (.reject "sync_contrib: no participants")
  stopIf (!isSyncCommitteeAggregator S msg.selectionProof)
    (.reject "sync_contrib: not selected as aggregator")
  let head ← headStateAtSlot contribution.slot
  let headState ← orStop head (.ignore "sync_contrib: head state unavailable")
  stopIf ((validators headState).length ≤ msg.aggregatorIndex)
    (.reject "sync_contrib: aggregator index out of range")
  let pubkey ←
    orStop (validatorPubkey headState msg.aggregatorIndex)
      (.reject "sync_contrib: aggregator index out of range")
  let committees ←
    orStop (syncCommitteePubkeys headState) (.reject "sync_contrib: no sync committee (pre-altair)")
  let subcommittee :=
    getSyncSubcommitteePubkeys S committees.1 committees.2
      (stateSlot headState) contribution.subcommitteeIndex
  stopIf (pubkey ∉ subcommittee) (.reject "sync_contrib: aggregator not in subcommittee")
  let dataKey := (contribution.slot, contribution.beaconBlockRoot, contribution.subcommitteeIndex)
  let stored ← asks fun host =>
    host.seenSyncContributionData.lookup dataKey
  stopIf (stored.any (covered contribution.aggregationBits))
    (.ignore "sync_contrib: contribution superset seen")
  let aggKey := (msg.aggregatorIndex, contribution.slot, contribution.subcommitteeIndex)
  let seen ← asks fun host =>
    decide (aggKey ∈ host.seenSyncContributionAggregators)
  stopIf seen (.ignore "sync_contrib: duplicate aggregator/slot/subcommittee")
  let epoch := computeEpochAtSlot S contribution.slot
  stopIf
    (!blsVerify S pubkey
      (computeSigningRoot S
        (syncAggregatorSelectionDataRoot S contribution.slot contribution.subcommitteeIndex)
        (getDomain headState .syncCommitteeSelectionProof epoch))
      msg.selectionProof)
    (.reject "sync_contrib: invalid selection proof signature")
  stopIf
    (!blsVerify S pubkey
      (computeSigningRoot S (contributionAndProofRoot S msg)
        (getDomain headState .contributionAndProof epoch))
      signed.signature)
    (.reject "sync_contrib: invalid aggregator signature")
  let participants := attestingMembers subcommittee contribution.aggregationBits
  stopIf
    (!fastAggregateVerify S participants
      (computeSigningRoot S contribution.beaconBlockRoot (getDomain headState .syncCommittee epoch))
      contribution.signature)
    (.reject "sync_contrib: invalid aggregate signature")
  modify fun host =>
    { host with
      seenSyncContributionAggregators := insert aggKey host.seenSyncContributionAggregators
      seenSyncContributionData :=
        host.seenSyncContributionData.insert dataKey
          (Pools.setBitsOf
            ((host.seenSyncContributionData.lookup dataKey).getD
              (List.replicate contribution.aggregationBits.length false))
            contribution.aggregationBits) }

end Pharos.Gossip
