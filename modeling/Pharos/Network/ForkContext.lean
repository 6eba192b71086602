import Pharos.ForkSchedule
import Pharos.Ssz.Codec

/-
  This file implements the digests that name the fork of a response chunk, and determines when a
  digest is understood.

  Before Fulu a digest belongs to a fork. Within Fulu it also depends on the blob parameters of the
  epoch, but the node writes and recognizes the digest of the current epoch only.

  Main theorems:
  * `context_bytes_decodable_iff`
-/

----
-- Digests
----

namespace Pharos.Network

open List

section

open Ssz

abbrev ForkDigest :=
  FixedBytes 4

/- What the network layer asks the node about forks. -/
structure ForkContext where
  forkDigestFor : ForkVariant → ForkDigest
  forkFromContext : ForkDigest → Option ForkVariant

/- The root of fork data, and the hash of some bytes. -/
structure DigestHashes where
  computeForkDataRoot : Version → Root → FixedBytes 32
  hash : List UInt8 → FixedBytes 32

theorem length_take_four (bs : FixedBytes 32) : (bs.val.take 4).length = 4 := by
  rw [length_take, bs.property]
  rfl

def firstFour (bytes : FixedBytes 32) : ForkDigest :=
  ⟨bytes.val.take 4, length_take_four bytes⟩

theorem length_zipWith_xor (left right : ForkDigest) :
    (zipWith (· ^^^ ·) left.val right.val).length = 4 := by
  rw [length_zipWith, left.property, right.property]
  rfl

def ForkDigest.xor (left right : ForkDigest) : ForkDigest :=
  ⟨zipWith (· ^^^ ·) left.val right.val, length_zipWith_xor left right⟩

variable (hashes : DigestHashes)

def computeForkDigest (currentVersion : Version) (genesisValidatorsRoot : Root) : ForkDigest :=
  firstFour (hashes.computeForkDataRoot currentVersion genesisValidatorsRoot)

/- Both numbers are hashed as eight bytes each. -/
def computeForkDigestFulu (baseVersion : Version) (genesisValidatorsRoot : Root)
    (blobParams : BlobParameters) : ForkDigest :=
  let base := computeForkDigest hashes baseVersion genesisValidatorsRoot
  let preimage :=
    Bytes.toLittleEndian 8 blobParams.epoch ++ Bytes.toLittleEndian 8 blobParams.maxBlobsPerBlock
  base.xor (firstFour (hashes.hash preimage))

def computeForkDigestForEpoch (version : Version) (genesisValidatorsRoot : Root)
    (epoch fuluForkEpoch : Epoch) (blobSchedule : List BlobScheduleEntry)
    (electraForkEpoch : Epoch) (maxBlobsPerBlockElectra : Nat) : ForkDigest :=
  if epoch < fuluForkEpoch then
    computeForkDigest hashes version genesisValidatorsRoot
  else
    computeForkDigestFulu hashes version genesisValidatorsRoot
      (getBlobParameters epoch blobSchedule electraForkEpoch maxBlobsPerBlockElectra)

end

----
-- The Node's Context
----

section

/- What a node knows about the forks of its network. -/
structure HostForks where
  forkSchedule : ForkSchedule
  blobSchedule : List BlobScheduleEntry
  genesisValidatorsRoot : Root
  maxBlobsPerBlockElectra : Nat
deriving DecidableEq, Repr

namespace HostForks

def blobParameters (host : HostForks) (epoch : Epoch) : BlobParameters :=
  getBlobParameters epoch host.blobSchedule host.forkSchedule.electraForkEpoch
    host.maxBlobsPerBlockElectra

end HostForks

variable (hashes : DigestHashes) (host : HostForks)

def fuluAwareForkDigest (epoch : Epoch) : ForkDigest :=
  computeForkDigestForEpoch hashes (host.forkSchedule.currentForkVersion epoch)
    host.genesisValidatorsRoot epoch
    host.forkSchedule.fuluForkEpoch host.blobSchedule
    host.forkSchedule.electraForkEpoch
    host.maxBlobsPerBlockElectra

variable (currentEpoch : Epoch)

def forkDigestFor (fork : ForkVariant) : ForkDigest :=
  let schedule := host.forkSchedule
  let digestOf := fun version =>
    computeForkDigest hashes version host.genesisValidatorsRoot
  match fork with
  | .phase0 => digestOf schedule.genesisForkVersion
  | .altair => digestOf schedule.altairForkVersion
  | .bellatrix => digestOf schedule.bellatrixForkVersion
  | .capella => digestOf schedule.capellaForkVersion
  | .deneb => digestOf schedule.denebForkVersion
  | .electra => digestOf schedule.electraForkVersion
  | .fulu => fuluAwareForkDigest hashes host currentEpoch

def forkFromContext (context : ForkDigest) : Option ForkVariant :=
  let schedule := host.forkSchedule
  let digestOf := fun version =>
    computeForkDigest hashes version host.genesisValidatorsRoot
  if context = digestOf schedule.genesisForkVersion then
    some .phase0
  else if context = digestOf schedule.altairForkVersion then
    some .altair
  else if context = digestOf schedule.bellatrixForkVersion then
    some .bellatrix
  else if context = digestOf schedule.capellaForkVersion then
    some .capella
  else if context = digestOf schedule.denebForkVersion then
    some .deneb
  else if context = digestOf schedule.electraForkVersion then
    some .electra
  else if context = fuluAwareForkDigest hashes host currentEpoch then
    some .fulu
  else
    none

def hostForkContext : ForkContext where
  forkDigestFor := forkDigestFor hashes host currentEpoch
  forkFromContext := forkFromContext hashes host currentEpoch

end

----
-- Digests That Are Understood
----

section

variable {hashes : DigestHashes} {host : HostForks}

variable (hashes host) in
def plainDigest (fork : ForkVariant) : ForkDigest :=
  computeForkDigest hashes (host.forkSchedule.forkVersion fork) host.genesisValidatorsRoot

variable (hashes host) in
/-
  The digests of the forks before Fulu, and those of the blob parameters within Fulu, are all
  different.
-/
structure DistinctDigests : Prop where
  plain : ∀ fork other, fork ≠ .fulu → other ≠ .fulu →
    plainDigest hashes host fork = plainDigest hashes host other → fork = other
  fulu : ∀ fork epoch, fork ≠ .fulu → host.forkSchedule.fuluForkEpoch ≤ epoch →
    fuluAwareForkDigest hashes host epoch ≠ plainDigest hashes host fork
  blobs : ∀ epoch other, host.forkSchedule.fuluForkEpoch ≤ epoch →
    host.forkSchedule.fuluForkEpoch ≤ other →
    fuluAwareForkDigest hashes host epoch = fuluAwareForkDigest hashes host other →
      host.blobParameters epoch = host.blobParameters other

theorem fuluAwareForkDigest_of_le {epoch : Epoch}
    (hFulu : host.forkSchedule.fuluForkEpoch ≤ epoch) :
    fuluAwareForkDigest hashes host epoch =
      computeForkDigestFulu hashes host.forkSchedule.fuluForkVersion host.genesisValidatorsRoot
        (host.blobParameters epoch) := by
  rw [fuluAwareForkDigest, computeForkDigestForEpoch, if_neg (not_lt.mpr hFulu),
    ForkSchedule.currentForkVersion_eq, ForkSchedule.activeFork_eq_fulu_iff.mpr hFulu]
  rfl

theorem forkDigestFor_of_ne_fulu (now : Epoch) {fork : ForkVariant}
    (hEarly : fork ≠ .fulu) :
    forkDigestFor hashes host now fork = plainDigest hashes host fork := by
  cases fork with
  | fulu => exact absurd rfl hEarly
  | _ => rfl

theorem forkFromContext_eq (now : Epoch) (context : ForkDigest) :
    forkFromContext hashes host now context =
      if context = plainDigest hashes host .phase0 then some .phase0
      else if context = plainDigest hashes host .altair then some .altair
      else if context = plainDigest hashes host .bellatrix then some .bellatrix
      else if context = plainDigest hashes host .capella then some .capella
      else if context = plainDigest hashes host .deneb then some .deneb
      else if context = plainDigest hashes host .electra then some .electra
      else if context = fuluAwareForkDigest hashes host now then some .fulu
      else none :=
  rfl

theorem forkFromContext_plainDigest (hDistinct : DistinctDigests hashes host)
    (now : Epoch) {fork : ForkVariant} (hEarly : fork ≠ .fulu) :
    forkFromContext hashes host now (plainDigest hashes host fork) = some fork := by
  have hEq : ∀ x, x ≠ ForkVariant.fulu → (plainDigest hashes host fork =
      plainDigest hashes host x ↔ fork = x) :=
    fun x hx =>
      ⟨hDistinct.plain fork x hEarly hx, congrArg (plainDigest hashes host)⟩
  simp only [forkFromContext_eq, hEq .phase0 (by simp), hEq .altair (by simp),
    hEq .bellatrix (by simp), hEq .capella (by simp), hEq .deneb (by simp),
    hEq .electra (by simp)]
  cases fork with
  | fulu => exact absurd rfl hEarly
  | _ => simp

theorem forkFromContext_of_ne_plainDigest (now : Epoch) {context : ForkDigest}
    (hx : ∀ fork, fork ≠ ForkVariant.fulu → context ≠ plainDigest hashes host fork) :
    forkFromContext hashes host now context =
      if context = fuluAwareForkDigest hashes host now then some .fulu
      else none := by
  rw [forkFromContext_eq, if_neg (hx .phase0 (by simp)), if_neg (hx .altair (by simp)),
    if_neg (hx .bellatrix (by simp)), if_neg (hx .capella (by simp)),
    if_neg (hx .deneb (by simp)), if_neg (hx .electra (by simp))]

theorem fuluAwareForkDigest_eq_iff (hDistinct : DistinctDigests hashes host) {epoch x : Epoch}
    (hEp : host.forkSchedule.fuluForkEpoch ≤ epoch)
    (hx : host.forkSchedule.fuluForkEpoch ≤ x) :
    fuluAwareForkDigest hashes host epoch = fuluAwareForkDigest hashes host x ↔
      host.blobParameters epoch = host.blobParameters x := by
  constructor
  · exact hDistinct.blobs epoch x hEp hx
  · intro hEq
    rw [fuluAwareForkDigest_of_le hEp, fuluAwareForkDigest_of_le hx, hEq]

/-
  The digest of a past epoch is understood, and written for the blocks of that epoch, exactly if the
  blob parameters of a Fulu epoch are still those of the current epoch.
-/
theorem context_bytes_decodable_iff (hashes : DigestHashes) (host : HostForks)
    (hDistinct : DistinctDigests hashes host) (currentEpoch epoch : Epoch)
    (hPast : epoch ≤ currentEpoch) :
    (forkFromContext hashes host currentEpoch (fuluAwareForkDigest hashes host epoch) =
        some (host.forkSchedule.activeFork epoch) ∧
      forkDigestFor hashes host currentEpoch (host.forkSchedule.activeFork epoch) =
        fuluAwareForkDigest hashes host epoch) ↔
      (host.forkSchedule.fuluForkEpoch ≤ epoch →
        host.blobParameters epoch = host.blobParameters currentEpoch) := by
  by_cases hFulu : host.forkSchedule.fuluForkEpoch ≤ epoch
  · have hCur := hFulu.trans hPast
    have hActive := ForkSchedule.activeFork_eq_fulu_iff.mpr hFulu
    rw [hActive, imp_iff_right hFulu, ← fuluAwareForkDigest_eq_iff hDistinct hFulu hCur,
      forkFromContext_of_ne_plainDigest currentEpoch fun fork hFork =>
      hDistinct.fulu fork epoch hFork hFulu]
    constructor
    · exact fun hBoth => hBoth.2.symm
    · intro hEq
      exact ⟨if_pos hEq, hEq.symm⟩
  · have hActive : host.forkSchedule.activeFork epoch ≠ .fulu := fun hIs =>
        hFulu (ForkSchedule.activeFork_eq_fulu_iff.mp hIs)
    rw [fuluAwareForkDigest, computeForkDigestForEpoch, if_pos (not_le.mp hFulu),
      ForkSchedule.currentForkVersion_eq, ← plainDigest]
    refine iff_of_true ⟨?_, ?_⟩ fun hLe => absurd hLe hFulu
    · exact forkFromContext_plainDigest hDistinct currentEpoch hActive
    · exact forkDigestFor_of_ne_fulu currentEpoch hActive

end

----
-- A Change of the Blob Parameters
----

theorem length_first_and_zeros (byte : UInt8) : (byte :: replicate 31 0).length = 32 := by
  rw [length_cons, length_replicate]

def byteRoot (byte : UInt8) : Ssz.FixedBytes 32 :=
  ⟨byte :: replicate 31 0, length_first_and_zeros byte⟩

/- Roots are versions, and a hash is the number of blobs. -/
def byteHashes : DigestHashes where
  computeForkDataRoot version _ := byteRoot (UInt8.ofNat version)
  hash bytes := byteRoot (bytes.getD 8 0)

/- One fork an epoch; the parameters change in the eighth. -/
def blobHost : HostForks where
  forkSchedule :=
    { genesisForkVersion := 0
      altairForkVersion := 1
      altairForkEpoch := 1
      bellatrixForkVersion := 2
      bellatrixForkEpoch := 2
      capellaForkVersion := 3
      capellaForkEpoch := 3
      denebForkVersion := 4
      denebForkEpoch := 4
      electraForkVersion := 5
      electraForkEpoch := 5
      fuluForkVersion := 6
      fuluForkEpoch := 6 }
  blobSchedule := [⟨8, 12⟩]
  genesisValidatorsRoot := defaultRoot
  maxBlobsPerBlockElectra := 9

theorem blobParameters_blobHost (epoch : Epoch) :
    blobHost.blobParameters epoch = if 8 ≤ epoch then ⟨8, 12⟩ else ⟨5, 9⟩ := by
  by_cases hLate : 8 ≤ epoch
  · simp [HostForks.blobParameters, getBlobParameters, blobHost, laterEntry, hLate]
  · simp [HostForks.blobParameters, getBlobParameters, blobHost, hLate]

theorem fuluAwareForkDigest_blobHost {epoch : Epoch} (hFulu : 6 ≤ epoch) :
    fuluAwareForkDigest byteHashes blobHost epoch =
      if 8 ≤ epoch then computeForkDigestFulu byteHashes 6 defaultRoot ⟨8, 12⟩
      else computeForkDigestFulu byteHashes 6 defaultRoot ⟨5, 9⟩ := by
  rw [fuluAwareForkDigest_of_le hFulu, blobParameters_blobHost]
  split
  · rfl
  · rfl

theorem distinctDigests_blobHost : DistinctDigests byteHashes blobHost where
  plain fork x hFork hx hEq := by
    revert hFork hx hEq
    cases fork with
    | _ => cases x with | _ => decide
  fulu fork epoch hFork hFulu := by
    rw [fuluAwareForkDigest_blobHost hFulu]
    split
    · revert hFork
      cases fork with | _ => decide
    · revert hFork
      cases fork with | _ => decide
  blobs epoch x hEp hx hEq := by
    rw [fuluAwareForkDigest_blobHost hEp, fuluAwareForkDigest_blobHost hx] at hEq
    rw [blobParameters_blobHost, blobParameters_blobHost]
    by_cases hLate : 8 ≤ epoch
    · by_cases hAlso : 8 ≤ x
      · rw [if_pos hLate, if_pos hAlso]
      · rw [if_pos hLate, if_neg hAlso] at hEq
        exact absurd hEq (by decide)
    · by_cases hAlso : 8 ≤ x
      · rw [if_neg hLate, if_pos hAlso] at hEq
        exact absurd hEq (by decide)
      · rw [if_neg hLate, if_neg hAlso]

/- Within Fulu, before the parameters change. -/
theorem context_bytes_decodable_iff_blobHost :
    6 ≤ 7 ∧ forkFromContext byteHashes blobHost 7 (fuluAwareForkDigest byteHashes blobHost 6) =
      some .fulu := by
  refine ⟨by decide, ?_⟩
  exact ((context_bytes_decodable_iff byteHashes blobHost
    distinctDigests_blobHost 7 6 (by decide)).mpr fun _ => by decide).1

/-
  After the change, the digest of an earlier Fulu epoch is unknown, and another one is written for
  its blocks.
-/
theorem earlier_fulu_digest_unknown :
    DistinctDigests byteHashes blobHost ∧ blobHost.forkSchedule.activeFork 6 = .fulu ∧
      forkFromContext byteHashes blobHost 8 (fuluAwareForkDigest byteHashes blobHost 6) = none ∧
      forkDigestFor byteHashes blobHost 8 .fulu ≠ fuluAwareForkDigest byteHashes blobHost 6 := by
  refine ⟨distinctDigests_blobHost, ?_⟩
  decide

end Pharos.Network
