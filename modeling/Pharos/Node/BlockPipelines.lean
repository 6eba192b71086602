import Pharos.Node.DataAvailability
import Pharos.Node.Freezer

/-
  This file implements the pipelines that import blocks from the network, with the checker each of
  them brings, and says when a block that enters the fork choice has its data.

  Gossip asks for either kind of sidecars. A lookup fetches the kind of the block first, and files
  what it is sent under the root of the block, unchecked. Backfill asks for nothing.

  Main theorems:
  * `entering_blocks_have_data_iff`
-/

----
-- Pipelines
----

namespace Pharos.Node

open BeaconSpec KzgSpec Storage List

variable {S : Type} [BeaconSpec S] [KzgSpec S]

/- What a peer sends for a block; nothing if it fails. -/
structure FetchedSidecars where
  blobsByRoot : List BlobSidecar
  dataColumnsByRoot : List DataColumnSidecar
deriving DecidableEq, Repr

variable (S) in
/- File what a peer sent for the fork of the block. -/
def storeFetched (fetched : FetchedSidecars) (store : SidecarStore) (block : BeaconBlock) :
    SidecarStore :=
  let blockRoot := treeHashRoot S block
  if block.forkVariant = .fulu then
    fetched.dataColumnsByRoot.foldl
      (fun stored sidecar =>
        stored.putDataColumnSidecar blockRoot sidecar)
      store
  else
    fetched.blobsByRoot.foldl
      (fun stored sidecar =>
        stored.putBlobSidecar blockRoot sidecar.index sidecar)
      store

variable (config : ColumnConfig)

def tryImport (fetched : FetchedSidecars) (setting : ImportSetting)
    (host : DataNode S) (signedBlock : SignedBeaconBlock) : DataNode S :=
  let block := signedBlock.message
  if block.blobKzgCommitments = [] then
    importWith config .noop setting host signedBlock
  else
    let sidecars := storeFetched S fetched host.sidecars block
    importWith config .forkAware setting { host with sidecars } signedBlock

/-
  An import through one of the pipelines, or whatever else changes the node or its sidecars between
  two of them.
-/
inductive PipelineEvent (S : Type) where
  | gossip (signedBlock : SignedBeaconBlock) (setting : ImportSetting)
  | lookup (signedBlock : SignedBeaconBlock) (fetched : FetchedSidecars) (setting : ImportSetting)
  | backfill (signedBlock : SignedBeaconBlock) (setting : ImportSetting)
  | elsewhere (host : DataNode S)

def pipelineStep (host : DataNode S) : PipelineEvent S → DataNode S
| .gossip signedBlock setting =>
  importWith config .forkAware setting host signedBlock
| .lookup signedBlock fetched setting =>
  tryImport config fetched setting host signedBlock
| .backfill signedBlock setting =>
  importWith config .noop setting host signedBlock
| .elsewhere after => after

def runPipelines (start : DataNode S) (events : List (PipelineEvent S)) : DataNode S :=
  events.foldl (pipelineStep config) start

----
-- Data of a Block
----

section

variable (S : Type) [BeaconSpec S] [KzgSpec S]

def HasBlobs (store : SidecarStore) (block : BeaconBlock) : Prop :=
  ∀ commitment ∈ block.blobKzgCommitments, ∃ index sidecar,
    store.blobSidecars.lookup (treeHashRoot S block, index) = some sidecar ∧
    verifyBlobKzgProof S sidecar.blob commitment sidecar.kzgProof = true

variable (config : ColumnConfig)

section

variable (store : SidecarStore)

def ColumnsOfBlock (block : BeaconBlock) : Prop :=
  ∀ column ∈ config.expectedColumns, ∀ sidecar,
    store.getDataColumnSidecar (treeHashRoot S block) column = some sidecar →
    sidecar.kzgCommitments = block.blobKzgCommitments

def HasColumns (block : BeaconBlock) : Prop :=
  ∀ column ∈ config.expectedColumns,
    ∃ sidecar,
      store.getDataColumnSidecar (treeHashRoot S block) column = some sidecar ∧
        sidecar.kzgCommitments = block.blobKzgCommitments ∧
        verifyStoredColumn S config sidecar = .ok ()

def HasData (block : BeaconBlock) : Prop :=
  if block.forkVariant = .fulu then
    HasColumns S config store block
  else
    HasBlobs S store block

end

variable {S} {cfg : ColumnConfig} {blk : BeaconBlock}

theorem hasColumns_iff {st : SidecarStore} (hCarries : blk.blobKzgCommitments ≠ []) :
    HasColumns S cfg st blk ↔ ColumnsOfBlock S cfg st blk ∧
      columnVerdict S cfg st (treeHashRoot S blk)
      blk.blobKzgCommitments = .available := by
  rw [columnVerdict_eq_available_iff hCarries]
  constructor
  · intro hCols
    constructor
    · intro col hCol sidecar hStored
      rcases hCols col hCol with ⟨x, hx, hOwn, _⟩
      rw [hStored] at hx
      cases hx
      exact hOwn
    · intro col hCol
      rcases hCols col hCol with ⟨sidecar, hStored, _, hVerified⟩
      exact ⟨sidecar, hStored, hVerified⟩
  · rintro ⟨hOwn, hCols⟩ col hCol
    rcases hCols col hCol with ⟨sidecar, hStored, hVerified⟩
    exact ⟨sidecar, hStored, hOwn col hCol sidecar hStored, hVerified⟩

end

----
-- Blocks That Enter
----

def PipelineEvent.block? : PipelineEvent S → Option BeaconBlock
| .gossip signedBlock _ => some signedBlock.message
| .lookup signedBlock _ _ => some signedBlock.message
| .backfill signedBlock _ => some signedBlock.message
| .elsewhere _ => none

variable (config : ColumnConfig)

/- A pipeline adds a block to the fork choice. -/
structure Enters (host : DataNode S) (event : PipelineEvent S) (block : BeaconBlock) : Prop where
  imports : event.block? = some block
  new : treeHashRoot S block ∉ host.node.store.blocks
  entered : treeHashRoot S block ∈ (pipelineStep config host event).node.store.blocks

variable (S) in
def KindIsEnough (setting : ImportSetting) (store : SidecarStore) (block : BeaconBlock) : Prop :=
  let root := treeHashRoot S block
  let commitments := block.blobKzgCommitments
  let columnsPass := columnVerdict S config store root commitments = .available
  if block.forkVariant = .fulu then
    ColumnsOfBlock S config store block ∧
      (blobVerdict S (sidecarsAfterGate S config .forkAware setting store block)
          root commitments = .available →
        columnsPass)
  else
    columnsPass → HasBlobs S store block

def SafeToImport (host : DataNode S) (block : BeaconBlock) : PipelineEvent S → Prop
| .gossip _ setting =>
  KindIsEnough S config setting host.sidecars block
| .lookup _ fetched setting =>
  KindIsEnough S config setting (storeFetched S fetched host.sidecars block) block
| .backfill _ _ => HasData S config host.sidecars block
| .elsewhere _ => True

theorem hasData_iff_of_forkAware {cfg : ColumnConfig} {setting : ImportSetting}
    {host : DataNode S} {signed : SignedBeaconBlock}
    (hCarries : signed.message.blobKzgCommitments ≠ [])
    (hNew : treeHashRoot S signed.message ∉ host.node.store.blocks)
    (hEntered : treeHashRoot S signed.message ∈
      (importWith cfg .forkAware setting host signed).node.store.blocks) :
    HasData S cfg (importWith cfg .forkAware setting host signed).sidecars signed.message ↔
      KindIsEnough S cfg setting host.sidecars signed.message := by
  rcases passes_of_enters hNew hEntered with ⟨hPasses, hSidecars⟩
  have hGot := passes_forkAware hCarries hPasses
  rw [hSidecars]
  unfold HasData KindIsEnough
  dsimp only
  split
  · unfold HasColumns SidecarStore.getDataColumnSidecar
    rw [dataColumnSidecars_sidecarsAfterGate]
    change HasColumns S cfg host.sidecars signed.message ↔ _
    rw [hasColumns_iff hCarries]
    apply and_congr_right
    intro _
    constructor
    · exact fun hCols _ => hCols
    · exact fun hEnough => hGot.elim id hEnough
  · constructor
    · intro hBlobs hCols
      rw [sidecarsAfterGate_of_column hCols] at hBlobs
      exact hBlobs
    · intro hEnough
      rcases hGot with hCols | hBlobs
      · rw [sidecarsAfterGate_of_column hCols]
        exact hEnough hCols
      · intro commitment hCommitment
        exact blobs_of_blobVerdict hBlobs hCommitment

/-
  Whatever happened before, a block that enters the fork choice has its data exactly when what is
  not checked holds anyway.
-/
theorem entering_blocks_have_data_iff (config : ColumnConfig) (start : DataNode S)
    (past : List (PipelineEvent S)) (event : PipelineEvent S) (block : BeaconBlock)
    (hCarries : block.blobKzgCommitments ≠ [])
    (hEnters : Enters config (runPipelines config start past) event block) :
    HasData S config (pipelineStep config (runPipelines config start past) event).sidecars block ↔
      SafeToImport config (runPipelines config start past) block event := by
  rcases hEnters with ⟨hImports, hNew, hEntered⟩
  cases event with
  | gossip signed setting =>
    cases hImports
    exact hasData_iff_of_forkAware hCarries hNew hEntered
  | lookup signed fetched setting =>
    cases hImports
    unfold pipelineStep tryImport at hEntered ⊢
    dsimp only at hEntered ⊢
    rw [if_neg hCarries] at hEntered ⊢
    exact hasData_iff_of_forkAware hCarries hNew hEntered
  | backfill signed setting =>
    cases hImports
    have hEq := (passes_of_enters hNew hEntered).2
    unfold pipelineStep
    rw [hEq]
    exact Iff.rfl
  | elsewhere s' => exact absurd hImports (Option.some_ne_none _).symm

----
-- Blocks Without Data
----

open ForkChoice

/- A proof is the blob or cell, which spells the commitment. -/
instance : KzgSpec ChainState where
  bytesPerBlob := 1
  bytesPerProof := 1
  numberOfColumns := 2
  kzgCommitmentToVersionedHash commitment := commitment
  verifyBlobKzgProof blob commitment proof :=
    blob = [UInt8.ofNat commitment] && proof = blob
  verifyCellKzgProof commitment _ cell proof :=
    cell = [UInt8.ofNat commitment] && proof = cell

/- Both columns are expected, of at most two blobs. -/
def bothColumns : ColumnConfig where
  expectedColumns := [0, 1]
  blobSchedule := []
  electraForkEpoch := 0
  maxBlobsPerBlockElectra := 2

open Sample

def blobBlock (forkVariant : ForkVariant) : BeaconBlock :=
  { child anchorRoot 1 0 [] with forkVariant, blobKzgCommitments := [7] }

def emptyHost : DataNode ChainState :=
  ⟨syncedNode, SidecarStore.empty⟩

def settingWith (hasBlobs : Bool) : ImportSetting where
  getBlobsV1 hashes :=
    if hasBlobs then
      hashes.map fun hash =>
        some ⟨[UInt8.ofNat hash], [UInt8.ofNat hash]⟩
    else
      []
  payloadStatus := none
  validateResult := true
  now := 12
  powProvider := fun _ => .ok none

def columnsOf (commitment : KzgCommitment) : FetchedSidecars where
  blobsByRoot := []
  dataColumnsByRoot :=
    [0, 1].map fun index =>
      ⟨index, [[UInt8.ofNat commitment]], [commitment], [[UInt8.ofNat commitment]], 1⟩

def sidecarsOf (commitment : KzgCommitment) : SidecarStore :=
  storeFetched ChainState (columnsOf commitment) SidecarStore.empty (blobBlock .fulu)

theorem kzgCommitments_sidecarsOf {commitment : KzgCommitment} {col : ColumnIndex}
    (hCol : col ∈ bothColumns.expectedColumns) {sidecar : DataColumnSidecar}
    (hStored :
      (sidecarsOf commitment).getDataColumnSidecar (treeHashRoot (blobBlock .fulu)) col =
        some sidecar) : sidecar.kzgCommitments = [commitment] := by
  rcases mem_pair.mp hCol with rfl | hSnd
  · cases hStored
    rfl
  · subst hSnd
    cases hStored
    rfl

def gossiped (forkVariant : ForkVariant) (hasBlobs : Bool) : PipelineEvent ChainState :=
  .gossip (signed (blobBlock forkVariant)) (settingWith hasBlobs)

/- The columns of the block have been stored. -/
theorem entering_blocks_have_data_iff_fulu :
    Enters bothColumns ⟨syncedNode, sidecarsOf 7⟩ (gossiped .fulu false) (blobBlock .fulu) ∧
      HasData ChainState bothColumns
        (pipelineStep bothColumns ⟨syncedNode, sidecarsOf 7⟩ (gossiped .fulu false)).sidecars
        (blobBlock .fulu) := by
  have hEnters :
      Enters bothColumns ⟨syncedNode, sidecarsOf 7⟩ (gossiped .fulu false) (blobBlock .fulu) :=
    ⟨rfl, by decide, by decide⟩
  refine ⟨hEnters, ?_⟩
  apply (entering_blocks_have_data_iff bothColumns ⟨syncedNode,
    sidecarsOf 7⟩ [] (gossiped .fulu false) (blobBlock .fulu) (by decide) hEnters).mpr
  constructor
  · intro col hCol sidecar hStored
    exact kzgCommitments_sidecarsOf hCol hStored
  · decide

/- A block of the current epoch enters without its data. -/
structure EntersWithout (host : DataNode ChainState)
    (event : PipelineEvent ChainState) (block : BeaconBlock) : Prop where
  carries : block.blobKzgCommitments ≠ []
  enters : Enters bothColumns host event block
  current : computeEpochAtSlot ChainState block.slot =
    getCurrentStoreEpoch (pipelineStep bothColumns host event).node.store
  missing :
    ¬HasData ChainState bothColumns (pipelineStep bothColumns host event).sidecars block

/-
  Backfill asks for nothing. The blobs of the engine let a block of Fulu in, and so do the columns
  of other blobs that a peer sent. Columns let an older block in.
-/
theorem blocks_enter_without_data :
    EntersWithout emptyHost (.backfill (signed (blobBlock .electra)) (settingWith false))
        (blobBlock .electra) ∧
      EntersWithout emptyHost (gossiped .fulu true) (blobBlock .fulu) ∧
      EntersWithout emptyHost (.lookup (signed (blobBlock .fulu)) (columnsOf 8) (settingWith false))
        (blobBlock .fulu) ∧
      EntersWithout ⟨syncedNode, sidecarsOf 7⟩ (gossiped .electra false) (blobBlock .electra) := by
  refine ⟨?_, ?_, ?_, ?_⟩
  · refine ⟨cons_ne_nil _ _, ⟨rfl, by decide, by decide⟩, rfl, ?_⟩
    intro hBlobs
    rcases hBlobs 7 mem_cons_self with ⟨i, sidecar, hStored, _⟩
    exact nomatch hStored.symm.trans (AList.lookup_empty _)
  · refine ⟨cons_ne_nil _ _, ⟨rfl, by decide, by decide⟩, rfl, ?_⟩
    intro hCols
    rcases hCols 0 mem_cons_self with ⟨sidecar, hStored, _⟩
    exact nomatch hStored.symm.trans (AList.lookup_empty _)
  · refine ⟨cons_ne_nil _ _, ⟨rfl, by decide, by decide⟩, rfl, ?_⟩
    intro hCols
    rcases hCols 0 mem_cons_self with ⟨sidecar, hStored, hOwn, _⟩
    have hx : sidecar.kzgCommitments = [8] :=
      kzgCommitments_sidecarsOf mem_cons_self hStored
    exact absurd (hx.symm.trans hOwn) (by decide)
  · refine ⟨cons_ne_nil _ _, ⟨rfl, by decide, by decide⟩, rfl, ?_⟩
    intro hBlobs
    rcases hBlobs 7 mem_cons_self with ⟨i, sidecar, hStored, _⟩
    exact nomatch hStored.symm.trans (AList.lookup_empty _)

end Pharos.Node
