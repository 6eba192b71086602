import Pharos.Node.BlockPipelines
import Pharos.Ssz.MerkleProofs

/-
  This file implements the production of the column sidecars of a block, and says when they pass
  the checks of their receivers. A blob with too few cells or proofs is left out of the columns
  that it has no cell or proof for.

  The root of a list of commitments is arbitrary. Of the signed header, the slot and the root of
  the body are kept.

  Main theorems:
  * `produced_sidecars_verify_iff`
-/

----
-- Production
----

namespace Pharos.Node

open Ssz KzgSpec

structure SignedHeader where
  slot : Slot
  bodyRoot : Ssz.Hash256
deriving DecidableEq

structure ProducedSidecar extends Storage.DataColumnSidecar where
  signedBlockHeader : SignedHeader
  kzgCommitmentsInclusionProof : List Ssz.Hash256
deriving DecidableEq

section

variable (hash : HashConcat) (S : Type) [KzgSpec S] (maxBlobCommitments depth : Nat)
variable (header : SignedHeader) (kzgCommitments : List KzgCommitment)
variable (bodyFieldHashes : Vector Ssz.Hash256 13) (inclusionProof : List Ssz.Hash256)
variable (cellsAndKzgProofs : List (List Cell × List KzgProof))

def isValidMerkleBranch (leaf : Ssz.Hash256) (branch : List Ssz.Hash256) (depth index : Nat)
    (root : Ssz.Hash256) : Bool :=
  depth = branch.length ∧ climbBranch hash leaf index branch = root

/- The field is the twelfth of sixteen. -/
def blobKzgCommitmentsGindex : GeneralizedIndex := 16 + 11

def getSubtreeIndex (gindex : GeneralizedIndex) : Nat :=
  gindex % 16

def verifyDataColumnSidecarInclusionProof (commitmentsRoot : List KzgCommitment → Ssz.Hash256)
    (sidecar : ProducedSidecar) : Except DataColumnVerifyError Unit :=
  if isValidMerkleBranch hash (commitmentsRoot sidecar.kzgCommitments)
      sidecar.kzgCommitmentsInclusionProof depth (getSubtreeIndex blobKzgCommitmentsGindex)
      sidecar.signedBlockHeader.bodyRoot then
    .ok ()
  else
    .error .inclusionProofInvalid

def bodyLeaves : List Ssz.Hash256 :=
  bodyFieldHashes.toList ++ List.replicate 3 zeroChunk

def buildKzgCommitmentsInclusionProof : Option (List Ssz.Hash256) :=
  (buildSingleProofFromLeaves hash (bodyLeaves bodyFieldHashes) blobKzgCommitmentsGindex).map
    MerkleProof.branch

def cellAndProof (column : Nat) (blob : List Cell × List KzgProof) : Option (Cell × KzgProof) := do
  let cell ← blob.1[column]?
  let proof ← blob.2[column]?
  some (cell, proof)

def columnSidecar (column : Nat) : ProducedSidecar :=
  let selected := cellsAndKzgProofs.filterMap (cellAndProof column)
  { index := column
    column := selected.map Prod.fst
    kzgCommitments
    kzgProofs := selected.map Prod.snd
    slot := header.slot
    signedBlockHeader := header
    kzgCommitmentsInclusionProof := inclusionProof }

def getDataColumnSidecars : Except DataColumnVerifyError (List ProducedSidecar) :=
  let blobs := cellsAndKzgProofs.length
  if blobs ≠ kzgCommitments.length then
    .error (.lengthMismatch blobs kzgCommitments.length blobs)
  else if maxBlobCommitments < kzgCommitments.length then
    .error (.tooManyCommitments kzgCommitments.length maxBlobCommitments)
  else if inclusionProof.length ≠ depth then
    .error .inclusionProofInvalid
  else
    (List.range (numberOfColumns S)).mapM fun column =>
      let sidecar := columnSidecar header kzgCommitments inclusionProof cellsAndKzgProofs column
      if maxBlobCommitments < sidecar.column.length then
        .error (.tooManyCommitments blobs maxBlobCommitments)
      else
        .ok sidecar

/- Without a proof the source stops with a panic. -/
def getDataColumnSidecarsFromBlock : Option (Except DataColumnVerifyError (List ProducedSidecar)) :=
  (buildKzgCommitmentsInclusionProof hash bodyFieldHashes).map fun inclusionProof =>
    getDataColumnSidecars S maxBlobCommitments depth header kzgCommitments inclusionProof
      cellsAndKzgProofs

----
-- Checks of the Receivers
----

variable {hash S maxBlobCommitments depth header kzgCommitments inclusionProof}
variable {cellsAndKzgProofs} {sidecars : List ProducedSidecar}

theorem getDataColumnSidecars_ok
    (hOk : getDataColumnSidecars S maxBlobCommitments depth header kzgCommitments
      inclusionProof cellsAndKzgProofs = .ok sidecars) :
    cellsAndKzgProofs.length = kzgCommitments.length ∧ inclusionProof.length = depth ∧
      (List.range (numberOfColumns S)).map
        (columnSidecar header kzgCommitments inclusionProof cellsAndKzgProofs) = sidecars := by
  rcases Outcome.ite_error_ok_iff.mp hOk with ⟨hBlobs, hOk⟩
  rcases Outcome.ite_error_ok_iff.mp hOk with ⟨_, hOk⟩
  rcases Outcome.ite_error_ok_iff.mp hOk with ⟨hDepth, hOk⟩
  refine ⟨not_not.mp hBlobs, not_not.mp hDepth, ?_⟩
  have hAll := (Outcome.mapM_ok_iff.mp hOk).imp fun _ _ hSidecar =>
    Except.ok.inj (Outcome.ite_error_ok_iff.mp hSidecar).2
  rwa [← List.forall₂_map_left_iff, List.forall₂_eq_eq_eq] at hAll

/- The body is padded with zeros, which does not change its root. -/
theorem isValidMerkleBranch_built {branch : List Ssz.Hash256}
    (hBuilt : buildKzgCommitmentsInclusionProof hash bodyFieldHashes = some branch) :
    isValidMerkleBranch hash bodyFieldHashes[11] branch branch.length
      (getSubtreeIndex blobKzgCommitmentsGindex) (merkleize hash bodyFieldHashes.toList) = true := by
  have hLen : (bodyLeaves bodyFieldHashes).length = 16 := by simp [bodyLeaves]
  have hWidth : Nat.clog 2 16 = 4 := by decide +kernel
  have hr : merkleize hash (bodyLeaves bodyFieldHashes) =
      merkleize hash bodyFieldHashes.toList := by
    have hFields : Nat.clog 2 13 = 4 := by decide +kernel
    rw [merkleize_eq_root, hLen, bodyLeaves, merkleize_eq_root, Merkle.root_append_replicate,
      hWidth, Vector.length_toList, hFields]
  have hPos : 11 < 2 ^ Nat.clog 2 (bodyLeaves bodyFieldHashes).length := by
    rw [hLen, hWidth]
    decide
  have hClimbs := buildSingleProofFromLeaves_climbs hash (List.ne_nil_of_length_eq_add_one hLen)
    hPos
  rw [hLen, hWidth, hr] at hClimbs
  rcases hClimbs with ⟨built, hProof, _, hClimb⟩
  have hBranch : some built = some branch := by
    rw [← hBuilt]
    exact (congrArg (Option.map MerkleProof.branch) hProof).symm
  have hLeaf : (paddedChunks (bodyLeaves bodyFieldHashes) 16).getD 11 zeroChunk =
      bodyFieldHashes[11] := by
    rw [paddedChunks, bodyLeaves, List.append_assoc, List.getD_eq_getElem?_getD,
      List.getElem?_append_left (by simp)]
    simp
  rw [← hLeaf, ← Option.some.inj hBranch]
  exact decide_eq_true ⟨rfl, hClimb⟩

theorem verifyDataColumnSidecar_columnSidecar [BeaconSpec S] {limit col : Nat}
    (hCol : col < numberOfColumns S) (hSome : kzgCommitments ≠ [])
    (hLimit : kzgCommitments.length ≤ limit)
    (hBlobs : cellsAndKzgProofs.length = kzgCommitments.length) :
    verifyDataColumnSidecar S (columnSidecar header kzgCommitments inclusionProof
        cellsAndKzgProofs col).toDataColumnSidecar limit = .ok () ↔
      ∀ blob ∈ cellsAndKzgProofs, col < blob.1.length ∧ col < blob.2.length := by
  have hCounts : (cellsAndKzgProofs.filterMap (cellAndProof col)).length =
      kzgCommitments.length ↔
        ∀ blob ∈ cellsAndKzgProofs, col < blob.1.length ∧ col < blob.2.length := by
    rw [← hBlobs, List.filterMap_length_eq_length]
    refine forall₂_congr fun blob _ => ?_
    simp [cellAndProof, Option.isSome_iff_exists, Option.bind_eq_some_iff,
      List.getElem?_eq_some_iff]
  rw [← hCounts]
  unfold verifyDataColumnSidecar columnSidecar
  rw [if_neg (not_le.mpr hCol), if_neg (mt List.length_eq_zero_iff.mp hSome),
    if_neg (not_lt.mpr hLimit)]
  simp [eq_comm]

/-
  Whatever is produced for a block is included in its body. It has the shape that receivers ask for
  exactly if every blob has a cell and a proof for each column.
-/
theorem produced_sidecars_verify_iff [BeaconSpec S]
    (commitmentsRoot : List KzgCommitment → Ssz.Hash256) {limit : Nat}
    (hField : bodyFieldHashes[11] = commitmentsRoot kzgCommitments)
    (hBody : header.bodyRoot = merkleize hash bodyFieldHashes.toList)
    (hSome : kzgCommitments ≠ []) (hLimit : kzgCommitments.length ≤ limit)
    (hOk : getDataColumnSidecarsFromBlock hash S maxBlobCommitments depth header
      kzgCommitments bodyFieldHashes cellsAndKzgProofs = some (.ok sidecars)) :
    (∀ sidecar ∈ sidecars,
        verifyDataColumnSidecarInclusionProof hash depth commitmentsRoot sidecar = .ok ()) ∧
      ((∀ sidecar ∈ sidecars,
          verifyDataColumnSidecar S sidecar.toDataColumnSidecar limit = .ok ()) ↔
        ∀ blob ∈ cellsAndKzgProofs, numberOfColumns S ≤ blob.1.length ∧
          numberOfColumns S ≤ blob.2.length) := by
  rcases Option.map_eq_some_iff.mp hOk with ⟨branch, hBuilt, hOk⟩
  rcases getDataColumnSidecars_ok hOk with ⟨hBlobs, hDepth, rfl⟩
  rw [List.forall_mem_map, List.forall_mem_map]
  constructor
  · intro col _
    have hBranch := isValidMerkleBranch_built bodyFieldHashes hBuilt
    rw [hField, hDepth, ← hBody] at hBranch
    exact if_pos hBranch
  · constructor
    · intro hPass blob hBlob
      rcases Nat.eq_zero_or_pos (numberOfColumns S) with hNone | hPos
      · rw [hNone]
        exact ⟨Nat.zero_le _, Nat.zero_le _⟩
      · have hLast := Nat.sub_one_lt_of_lt hPos
        have hHere := (verifyDataColumnSidecar_columnSidecar hLast hSome hLimit hBlobs).mp
          (hPass _ (List.mem_range.mpr hLast)) blob hBlob
        exact ⟨Nat.le_of_pred_lt hHere.1, Nat.le_of_pred_lt hHere.2⟩
    · intro hLong col hCol
      rw [List.mem_range] at hCol
      rw [verifyDataColumnSidecar_columnSidecar hCol hSome hLimit hBlobs]
      intro blob hBlob
      exact ⟨hCol.trans_le (hLong blob hBlob).1, hCol.trans_le (hLong blob hBlob).2⟩

end

----
-- One Blob
----

/- The sidecars of a block with one blob, under a hash that is its first argument. -/
def oneBlob (blob : List Cell × List KzgProof) :
    Option (Except DataColumnVerifyError (List ProducedSidecar)) :=
  getDataColumnSidecarsFromBlock (fun left _ => left) Sample.ChainState 1 4 ⟨1, zeroChunk⟩ [7]
    (Vector.replicate 13 zeroChunk) [blob]

def oneBlobSidecars (blob : List Cell × List KzgProof) : List ProducedSidecar :=
  (List.range 2).map (columnSidecar ⟨1, zeroChunk⟩ [7] (List.replicate 4 zeroChunk) [blob])

theorem produced_sidecars_verify_iff_twoCells :
    let blob := ([[7], [7]], [[7], [7]])
    oneBlob blob = some (.ok (oneBlobSidecars blob)) ∧ ∀ sidecar ∈ oneBlobSidecars blob,
      verifyDataColumnSidecar Sample.ChainState sidecar.toDataColumnSidecar 1 = .ok () := by
  intro blob
  have hOk : oneBlob blob = some (.ok (oneBlobSidecars blob)) := by decide +kernel
  refine ⟨hOk, (produced_sidecars_verify_iff (Vector.replicate 13 zeroChunk) (fun _ => zeroChunk)
    rfl ?_ ?_ ?_ hOk).2.mpr ?_⟩
  · decide +kernel
  · decide
  · decide
  · decide

/- Without cells the columns are empty, and nobody accepts them. -/
theorem short_blob_fails :
    oneBlob ([], []) = some (.ok (oneBlobSidecars ([], []))) ∧
      (oneBlobSidecars ([], [])).map
          (verifyDataColumnSidecar Sample.ChainState ·.toDataColumnSidecar 1) =
        List.replicate 2 (.error (.lengthMismatch 0 1 0)) := by
  exact ⟨by decide +kernel, rfl⟩

end Pharos.Node
