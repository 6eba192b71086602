import Pharos.Node.Import
import Pharos.Storage.Sidecars

/-
  This file implements the checks that the data of a block is available, and the gate of an import
  that asks for them.

  The checkers never see the fork of a block: the checker for both kinds of sidecars is content with
  either kind. A block whose data is missing gets a second chance with the blobs of the execution
  engine, which the gate stores itself.

  Reads and writes of the sidecars do not fail. A batch of proofs is verified if each proof of it
  is.
-/

----
-- Commitments
----

namespace Pharos

/-
  The constants of the data layer, with the polynomial commitments that it calls. A blob has 131072
  bytes and a proof 48.
-/
class KzgSpec (S : Type) where
  bytesPerBlob : Nat
  bytesPerProof : Nat
  numberOfColumns : Nat
  kzgCommitmentToVersionedHash : KzgCommitment → Hash256
  verifyBlobKzgProof : Blob → KzgCommitment → KzgProof → Bool
  verifyCellKzgProof : KzgCommitment → ColumnIndex → Cell → KzgProof → Bool

/- What a node checks columns with. -/
structure ColumnConfig where
  expectedColumns : List ColumnIndex
  blobSchedule : List BlobScheduleEntry
  electraForkEpoch : Epoch
  maxBlobsPerBlockElectra : Nat
deriving DecidableEq, Repr

inductive DataColumnVerifyError where
  | indexOutOfRange (index numberOfColumns : Nat)
  | noCommitments
  | tooManyCommitments (got max : Nat)
  | lengthMismatch (column commitments proofs : Nat)
  | kzgProofInvalid
  | inclusionProofInvalid
deriving DecidableEq, Repr

end Pharos

----
-- Checkers
----

namespace Pharos.Node

section

open BeaconSpec KzgSpec Storage

variable (S : Type) [BeaconSpec S] [KzgSpec S]

section

variable (sidecar : DataColumnSidecar)

def verifyDataColumnSidecar (maxBlobsPerBlock : Nat) : Except DataColumnVerifyError Unit :=
  let commitments := sidecar.kzgCommitments.length
  let column := sidecar.column.length
  let proofs := sidecar.kzgProofs.length
  if sidecar.index ≥ numberOfColumns S then
    .error (.indexOutOfRange sidecar.index (numberOfColumns S))
  else if commitments = 0 then
    .error .noCommitments
  else if commitments > maxBlobsPerBlock then
    .error (.tooManyCommitments commitments maxBlobsPerBlock)
  else if column ≠ commitments ∨ column ≠ proofs then
    .error (.lengthMismatch column commitments proofs)
  else
    .ok ()

def verifyDataColumnSidecarKzgProofs : Except DataColumnVerifyError Unit :=
  let proven := sidecar.kzgCommitments.zip (sidecar.column.zip sidecar.kzgProofs)
  if proven.all fun entry =>
      verifyCellKzgProof S entry.1 sidecar.index entry.2.1 entry.2.2 then
    .ok ()
  else
    .error .kzgProofInvalid

end

variable (config : ColumnConfig)

/- A column that passes both checks, at its own epoch. -/
def verifyStoredColumn (sidecar : DataColumnSidecar) : Except DataColumnVerifyError Unit :=
  let blobParams := getBlobParameters (computeEpochAtSlot S sidecar.slot) config.blobSchedule
    config.electraForkEpoch config.maxBlobsPerBlockElectra
  match verifyDataColumnSidecar S sidecar blobParams.maxBlobsPerBlock with
  | .error refusal => .error refusal
  | .ok () => verifyDataColumnSidecarKzgProofs S sidecar

section

variable (store : SidecarStore)

def columnVerdict (blockRoot : Root)
    (kzgCommitments : List KzgCommitment) : DataAvailabilityVerdict :=
  if kzgCommitments = [] then
    .irrelevant
  else if config.expectedColumns.all fun column =>
      match store.getDataColumnSidecar blockRoot column with
      | none => false
      | some sidecar => verifyStoredColumn S config sidecar = .ok ()
      then
    .available
  else
    .notAvailable

/- A blob, with what it is checked against. -/
structure BlobProof where
  blob : Blob
  kzgCommitment : KzgCommitment
  kzgProof : KzgProof
deriving DecidableEq, Repr

def blobBatch (sidecars : List BlobSidecar) : Nat → List KzgCommitment → Option (List BlobProof)
| _, [] => some []
| index, commitment :: rest =>
  match sidecars.find? fun sidecar =>
      sidecar.index = index with
  | none => none
  | some sidecar =>
    if sidecar.blob.length ≠ bytesPerBlob S then
      none
    else
      (blobBatch sidecars (index + 1) rest).map (⟨sidecar.blob, commitment, sidecar.kzgProof⟩ :: ·)

def verifyBlobKzgProofBatch (batch : List BlobProof) : Bool :=
  batch.all fun entry =>
    verifyBlobKzgProof S entry.blob entry.kzgCommitment entry.kzgProof

def blobVerdict (blockRoot : Root) (kzgCommitments : List KzgCommitment) :
    DataAvailabilityVerdict :=
  let sidecars := store.getBlobSidecarsByRoot blockRoot
  if kzgCommitments = [] then
    .irrelevant
  else if sidecars.length < kzgCommitments.length then
    .notAvailable
  else
    match blobBatch S sidecars 0 kzgCommitments with
    | none => .notAvailable
    | some batch =>
      if verifyBlobKzgProofBatch S batch then .available else .notAvailable

def combineDaVerdicts : DataAvailabilityVerdict → DataAvailabilityVerdict → DataAvailabilityVerdict
| .available, _ => .available
| _, .available => .available
| .irrelevant, .irrelevant => .irrelevant
| _, _ => .notAvailable

def forkAwareVerdict (blockRoot : Root)
    (kzgCommitments : List KzgCommitment) : DataAvailabilityVerdict :=
  let column := columnVerdict S config store blockRoot kzgCommitments
  if column = .available then
    .available
  else
    combineDaVerdicts (blobVerdict S store blockRoot kzgCommitments) column

/- Which checker an import is given. -/
inductive Checker where
  | noop
  | forkAware
deriving DecidableEq, Repr

def Checker.verdict (blockRoot : Root)
    (kzgCommitments : List KzgCommitment) : Checker → DataAvailabilityVerdict
| .noop => .irrelevant
| .forkAware =>
  forkAwareVerdict S config store blockRoot kzgCommitments

end

end

----
-- Gate of an Import
----

section

open BeaconSpec ForkChoice KzgSpec Storage

variable (S : Type) [BeaconSpec S] [KzgSpec S]

structure BlobAndProof where
  blob : Blob
  proof : KzgProof
deriving DecidableEq, Repr

/- What an import meets besides the node: the engine first. -/
structure ImportSetting where
  getBlobsV1 : List Hash256 → List (Option BlobAndProof)
  payloadStatus : Option PayloadVerificationStatus
  validateResult : Bool
  now : Nat
  powProvider : PowBlockProvider

def elSatisfied (answer : List (Option BlobAndProof)) (kzgCommitments : List KzgCommitment) :
    Bool :=
  !answer.isEmpty && answer.length = kzgCommitments.length && answer.all Option.isSome

def storeEngineBlobs (blockRoot : Root) :
    Nat → List (Option BlobAndProof) → List KzgCommitment → SidecarStore → SidecarStore
| index, some found :: answer, commitment :: rest, store =>
  let stored :=
    if found.blob.length = bytesPerBlob S ∧ found.proof.length = bytesPerProof S then
      store.putBlobSidecar blockRoot index ⟨index, found.blob, commitment, found.proof, 0⟩
    else
      store
  storeEngineBlobs blockRoot (index + 1) answer rest stored
| index, none :: answer, _ :: rest, store =>
  storeEngineBlobs blockRoot (index + 1) answer rest store
| _, [], _, store => store
| _, _ :: _, [], store => store

def refetch (setting : ImportSetting) (store : SidecarStore) (block : BeaconBlock) :
    Option SidecarStore :=
  let commitments := block.blobKzgCommitments
  let answer := setting.getBlobsV1 (commitments.map (kzgCommitmentToVersionedHash S))
  if elSatisfied answer commitments then
    some (storeEngineBlobs S (treeHashRoot S block) 0 answer commitments store)
  else
    none

variable (config : ColumnConfig)

def importInputs (checker : Checker) (setting : ImportSetting)
    (store : SidecarStore) (block : BeaconBlock) : ImportInputs :=
  let verdict := fun sidecars =>
    checker.verdict S config sidecars (treeHashRoot S block) block.blobKzgCommitments
  { dataVerdict := verdict store
    refetchedVerdict := (refetch S setting store block).map verdict
    payloadStatus := setting.payloadStatus
    validateResult := setting.validateResult
    now := setting.now
    powProvider := setting.powProvider }

def sidecarsAfterGate (checker : Checker) (setting : ImportSetting)
    (store : SidecarStore) (block : BeaconBlock) : SidecarStore :=
  match (importInputs S config checker setting store block).dataVerdict with
  | .notAvailable => (refetch S setting store block).getD store
  | _ => store

variable {S}

/- A node, with its sidecars. -/
structure DataNode (S : Type) where
  node : NodeState S
  sidecars : SidecarStore

/- The gate stands behind two other checks. -/
def reachesGate (store : Store S) (block : BeaconBlock) : Bool :=
  (store.blockStates.lookup block.parentRoot).isSome && treeHashRoot S block ∉ store.blocks

def importWith (checker : Checker) (setting : ImportSetting)
    (host : DataNode S) (signedBlock : SignedBeaconBlock) : DataNode S :=
  let block := signedBlock.message
  { node :=
      (importBlock host.node signedBlock
        (importInputs S config checker setting host.sidecars block)).1
    sidecars :=
      if reachesGate host.node.store block then
        sidecarsAfterGate S config checker setting host.sidecars block
      else
        host.sidecars }

end

----
-- Verdicts
----

section

open BeaconSpec KzgSpec Storage

variable {S : Type} [BeaconSpec S] [KzgSpec S]
variable {cfg : ColumnConfig} {st : SidecarStore} {blockRoot : Root}
variable {kzgs : List KzgCommitment}

theorem columnVerdict_eq_available_iff (hCarries : kzgs ≠ []) :
    columnVerdict S cfg st blockRoot kzgs = .available ↔
      ∀ col ∈ cfg.expectedColumns, ∃ sidecar,
      st.getDataColumnSidecar blockRoot col = some sidecar ∧
      verifyStoredColumn S cfg sidecar = .ok () := by
  unfold columnVerdict
  rw [if_neg hCarries]
  split
  · rename_i hAll
    rw [List.all_eq_true] at hAll
    refine iff_of_true rfl ?_
    intro col hCol
    have hPasses := hAll col hCol
    split at hPasses
    · exact absurd hPasses Bool.false_ne_true
    · rename_i sidecar hStored
      exact ⟨sidecar, hStored, of_decide_eq_true hPasses⟩
  · rename_i hAll
    refine iff_of_false (by simp) ?_
    intro hCols
    apply hAll
    rw [List.all_eq_true]
    intro col hCol
    rcases hCols col hCol with ⟨sidecar, hStored, hVerified⟩
    rw [hStored]
    exact decide_eq_true hVerified

variable (S cfg st blockRoot) in
theorem columnVerdict_ne_irrelevant (hCarries : kzgs ≠ []) :
    columnVerdict S cfg st blockRoot kzgs ≠ .irrelevant := by
  unfold columnVerdict
  rw [if_neg hCarries]
  split <;> simp

omit [BeaconSpec S] in
theorem mem_blobBatch {sidecars : List BlobSidecar} {i : Nat} {batch : List BlobProof}
    (hBatch : blobBatch S sidecars i kzgs = some batch)
    {commitment : KzgCommitment} (hCommitment : commitment ∈ kzgs) :
    ∃ sidecar ∈ sidecars, ⟨sidecar.blob, commitment, sidecar.kzgProof⟩ ∈ batch := by
  induction kzgs generalizing i batch with
  | nil => exact absurd hCommitment List.not_mem_nil
  | cons a xs ih =>
    rw [blobBatch] at hBatch
    split at hBatch
    · cases hBatch
    · rename_i sidecar hGot
      split at hBatch
      · cases hBatch
      · rcases Option.map_eq_some_iff.mp hBatch with ⟨ys, hOthers, rfl⟩
        rcases List.mem_cons.mp hCommitment with rfl | hLater
        · exact ⟨sidecar, List.mem_of_find?_eq_some hGot, List.mem_cons_self⟩
        · rcases ih hOthers hLater with ⟨x, hx, hChecked⟩
          exact ⟨x, hx, List.mem_cons_of_mem _ hChecked⟩

omit [BeaconSpec S] in
theorem blobs_of_blobVerdict
    (hAvail : blobVerdict S st blockRoot kzgs = .available)
    {commitment : KzgCommitment} (hCommitment : commitment ∈ kzgs) :
    ∃ i sidecar, st.blobSidecars.lookup (blockRoot, i) = some sidecar ∧
      verifyBlobKzgProof S sidecar.blob commitment sidecar.kzgProof = true := by
  unfold blobVerdict at hAvail
  dsimp only at hAvail
  split at hAvail
  · cases hAvail
  · split at hAvail
    · cases hAvail
    · split at hAvail
      · cases hAvail
      · rename_i batch hBatch
        split at hAvail
        · rename_i hVerified
          rcases mem_blobBatch hBatch hCommitment with ⟨sidecar, hSidecar, hChecked⟩
          rcases SidecarStore.mem_getBlobSidecarsByRoot.mp hSidecar with ⟨i, hStored⟩
          refine ⟨i, sidecar, hStored, ?_⟩
          exact List.all_eq_true.mp hVerified _ hChecked
        · cases hAvail

theorem forkAwareVerdict_eq_available_iff :
    forkAwareVerdict S cfg st blockRoot kzgs = .available ↔
      columnVerdict S cfg st blockRoot kzgs = .available ∨
        blobVerdict S st blockRoot kzgs = .available := by
  unfold forkAwareVerdict
  cases columnVerdict S cfg st blockRoot kzgs <;> cases blobVerdict S st blockRoot kzgs <;>
    simp [combineDaVerdicts]

variable (S cfg st blockRoot) in
theorem forkAwareVerdict_ne_irrelevant (hCarries : kzgs ≠ []) :
    forkAwareVerdict S cfg st blockRoot kzgs ≠ .irrelevant := by
  have hCol := columnVerdict_ne_irrelevant S cfg st blockRoot hCarries
  unfold forkAwareVerdict
  revert hCol
  cases columnVerdict S cfg st blockRoot kzgs <;> cases blobVerdict S st blockRoot kzgs <;>
    simp [combineDaVerdicts]

end

----
-- Blocks That Enter
----

open BeaconSpec KzgSpec Storage

variable {S : Type} [BeaconSpec S] [KzgSpec S]

omit [BeaconSpec S] in
@[simp] theorem dataColumnSidecars_storeEngineBlobs (blockRoot : Root) (i : Nat)
    (ans : List (Option BlobAndProof)) (kzgs : List KzgCommitment)
    (st : SidecarStore) :
    (storeEngineBlobs S blockRoot i ans kzgs st).dataColumnSidecars = st.dataColumnSidecars := by
  fun_induction storeEngineBlobs S blockRoot i ans kzgs st with
  | case1 i found ans commitment xs st stored ih =>
    rw [ih]
    unfold stored
    split <;> rfl
  | case2 i ans commitment xs st ih => exact ih
  | case3 | case4 => rfl

variable {setting : ImportSetting} {st : SidecarStore} {blk : BeaconBlock}

omit [BeaconSpec S] in
theorem lookup_storeEngineBlobs {blockRoot : Root} {i : Nat} {ans : List (Option BlobAndProof)}
    {kzgs : List KzgCommitment} {st : SidecarStore} {key : Root × Nat} {sidecar : BlobSidecar}
    (hGot : (storeEngineBlobs S blockRoot i ans kzgs st).blobSidecars.lookup key =
      some sidecar) : sidecar.slot = 0 ∨ st.blobSidecars.lookup key = some sidecar := by
  fun_induction storeEngineBlobs S blockRoot i ans kzgs st with
  | case1 i found ans commitment xs st stored ih =>
    rcases ih hGot with hZero | hGot
    · exact .inl hZero
    · unfold stored at hGot
      split at hGot
      · rcases HashTable.lookup_insert_cases hGot with ⟨_, rfl⟩ | ⟨_, hOld⟩
        · exact .inl rfl
        · exact .inr hOld
      · exact .inr hGot
  | case2 i ans commitment xs st ih => exact ih hGot
  | case3 | case4 => exact .inr hGot

theorem dataColumnSidecars_refetch {old : SidecarStore}
    (hRefetch : refetch S setting st blk = some old) :
    old.dataColumnSidecars = st.dataColumnSidecars := by
  unfold refetch at hRefetch
  dsimp only at hRefetch
  split at hRefetch
  · cases hRefetch
    exact dataColumnSidecars_storeEngineBlobs _ _ _ _ _
  · cases hRefetch

variable {cfg : ColumnConfig}

theorem passes_forkAware (hCarries : blk.blobKzgCommitments ≠ [])
    (hPasses : isDataAvailable (importInputs S cfg .forkAware setting st blk) = true) :
    columnVerdict S cfg st (treeHashRoot S blk) blk.blobKzgCommitments = .available ∨
      blobVerdict S (sidecarsAfterGate S cfg .forkAware setting st blk) (treeHashRoot S blk)
          blk.blobKzgCommitments = .available := by
  have hRelevant := fun sidecars =>
    forkAwareVerdict_ne_irrelevant S cfg sidecars (treeHashRoot S blk) hCarries
  unfold sidecarsAfterGate
  unfold isDataAvailable at hPasses
  split at hPasses
  · rename_i hSaid
    rw [hSaid]
    exact forkAwareVerdict_eq_available_iff.mp hSaid
  · rename_i hSaid
    exact absurd hSaid (hRelevant st)
  · rename_i hSaid
    rw [hSaid]
    split at hPasses
    · exact absurd hPasses Bool.false_ne_true
    · rename_i verdict hRefetched
      rcases Option.map_eq_some_iff.mp hRefetched with ⟨old, hStored, hPost⟩
      unfold columnVerdict SidecarStore.getDataColumnSidecar
      rw [hStored, ← dataColumnSidecars_refetch hStored]
      apply forkAwareVerdict_eq_available_iff.mp
      have hGot := of_decide_eq_true hPasses
      rw [← hPost] at hGot
      cases hSnd : forkAwareVerdict S cfg old (treeHashRoot S blk) blk.blobKzgCommitments with
      | available => rfl
      | notAvailable => exact absurd hSnd hGot
      | irrelevant => exact absurd hSnd (hRelevant old)

theorem sidecarsAfterGate_of_column
    (hCols : columnVerdict S cfg st (treeHashRoot S blk) blk.blobKzgCommitments = .available) :
    sidecarsAfterGate S cfg .forkAware setting st blk = st := by
  have hSaid : (importInputs S cfg .forkAware setting st blk).dataVerdict =
      .available := forkAwareVerdict_eq_available_iff.mpr (.inl hCols)
  unfold sidecarsAfterGate
  rw [hSaid]

theorem dataColumnSidecars_sidecarsAfterGate (cfg : ColumnConfig) (checker : Checker)
    (setting : ImportSetting) (st : SidecarStore) (blk : BeaconBlock) :
    (sidecarsAfterGate S cfg checker setting st blk).dataColumnSidecars =
      st.dataColumnSidecars := by
  unfold sidecarsAfterGate
  split
  · cases hRefetch : refetch S setting st blk with
    | none => rfl
    | some old => exact dataColumnSidecars_refetch hRefetch
  · rfl

theorem passes_of_enters {checker : Checker} {host : DataNode S}
    {signed : SignedBeaconBlock}
    (hNew : treeHashRoot S signed.message ∉ host.node.store.blocks)
    (hEntered : treeHashRoot S signed.message ∈
      (importWith cfg checker setting host signed).node.store.blocks) :
    isDataAvailable (importInputs S cfg checker setting host.sidecars signed.message) = true ∧
      (importWith cfg checker setting host signed).sidecars =
        sidecarsAfterGate S cfg checker setting host.sidecars signed.message := by
  unfold importWith at hEntered ⊢
  dsimp only at hEntered ⊢
  cases hPrep : prepareImport host.node.store signed
      (importInputs S cfg checker setting host.sidecars signed.message) with
  | error e =>
    rw [importBlock, hPrep] at hEntered
    exact absurd hEntered hNew
  | ok post =>
    refine ⟨(prepareImport_ok hPrep).2, ?_⟩
    rcases (prepareImport_ok hPrep).1.transition with ⟨pre, hPre, _⟩
    apply if_pos
    unfold reachesGate
    rw [hPre, decide_eq_true hNew]
    rfl

end Pharos.Node
