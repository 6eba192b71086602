import Pharos.Node.BlockPipelines

/-
  This file says when pruning leaves the blobs of a recent block alone.

  A sidecar from the network is filed under the root of its own header. The blobs of the engine are
  filed under the root of the block that is imported, with an empty header.

  Main theorems:
  * `pruning_keeps_recent_iff`
-/

----
-- Writers of Sidecars
----

namespace Pharos.Node

open BeaconSpec Storage

variable {S : Type} [BeaconSpec S] [KzgSpec S]

inductive BlobEvent where
  | ingested (header : BeaconBlockHeader) (sidecar : BlobSidecar)
  | imported (signedBlock : SignedBeaconBlock) (checker : Checker) (setting : ImportSetting)

def blobStep (config : ColumnConfig) (headerRoot : BeaconBlockHeader → Root)
    (host : DataNode S) : BlobEvent → DataNode S
| .ingested header sidecar =>
  { host with
    sidecars := host.sidecars.putBlobSidecar (headerRoot header) sidecar.index
      { sidecar with slot := header.slot } }
| .imported signedBlock checker setting => importWith config checker setting host signedBlock

def runBlobs (config : ColumnConfig) (headerRoot : BeaconBlockHeader → Root)
    (start : NodeState S) (events : List BlobEvent) : SidecarStore :=
  (events.foldl (blobStep config headerRoot) ⟨start, SidecarStore.empty⟩).sidecars

----
-- Slots of Sidecars
----

variable {cfg : ColumnConfig} {headerRoot : BeaconBlockHeader → Root} {block : BeaconBlock}

variable (S) in
/- The sidecars of a block have its slot, or that of an empty header. -/
def SlotsFiled (block : BeaconBlock) (store : SidecarStore) : Prop :=
  ∀ index sidecar, store.blobSidecars.lookup (treeHashRoot S block, index) = some sidecar →
    sidecar.slot = block.slot ∨ sidecar.slot = 0

theorem slotsFiled_sidecarsAfterGate {checker : Checker} {setting : ImportSetting}
    {st : SidecarStore} {blk : BeaconBlock} (hFiled : SlotsFiled S block st) :
    SlotsFiled S block (sidecarsAfterGate S cfg checker setting st blk) := by
  unfold sidecarsAfterGate refetch
  dsimp only
  split
  · split
    · intro i sidecar hGot
      rcases lookup_storeEngineBlobs hGot with hZero | hOld
      · exact .inr hZero
      · exact hFiled i sidecar hOld
    · exact hFiled
  · exact hFiled

theorem slotsFiled_blobStep
    (hApart : ∀ header, headerRoot header = treeHashRoot S block → header.slot = block.slot)
    {host : DataNode S} (event : BlobEvent) (hFiled : SlotsFiled S block host.sidecars) :
    SlotsFiled S block (blobStep cfg headerRoot host event).sidecars := by
  cases event with
  | ingested header sidecar =>
    intro i x hx
    rcases HashTable.lookup_insert_cases hx with ⟨hKey, rfl⟩ | ⟨_, hOld⟩
    · exact .inl (hApart header (congrArg Prod.fst hKey).symm)
    · exact hFiled i x hOld
  | imported signed checker setting =>
    unfold blobStep importWith
    dsimp only
    split
    · exact slotsFiled_sidecarsAfterGate hFiled
    · exact hFiled

variable (S) in
def KeepsBlobs (store : SidecarStore) (block : BeaconBlock) (pruneSlot : Slot) : Prop :=
  ∀ index sidecar, store.blobSidecars.lookup (treeHashRoot S block, index) = some sidecar →
    (store.pruneBlobSidecarsBelowSlot pruneSlot).blobSidecars.lookup
      (treeHashRoot S block, index) = some sidecar

/-
  Pruning deletes no sidecar of a block that is not before the slot exactly if the slot is the first
  or no sidecar of the block has the slot of an empty header, which only the engine's blobs have.
-/
theorem pruning_keeps_recent_iff (config : ColumnConfig) (headerRoot : BeaconBlockHeader → Root)
    (start : NodeState S) (events : List BlobEvent) (block : BeaconBlock) (pruneSlot : Slot)
    (hApart : ∀ header, headerRoot header = treeHashRoot S block → header.slot = block.slot)
    (hRecent : pruneSlot ≤ block.slot) :
    let store := runBlobs config headerRoot start events
    KeepsBlobs S store block pruneSlot ↔ pruneSlot = 0 ∨ ∀ index sidecar,
      store.blobSidecars.lookup (treeHashRoot S block, index) = some sidecar →
        sidecar.slot ≠ 0 := by
  intro store
  have hFiled : SlotsFiled S block store :=
    List.foldlRecOn (motive := fun host : DataNode S => SlotsFiled S block host.sidecars)
      events (blobStep config headerRoot) (fun _ _ hGot => nomatch hGot)
      fun _ hFiled event _ => slotsFiled_blobStep hApart event hFiled
  simp only [KeepsBlobs, SidecarStore.pruneBlobSidecarsBelowSlot, HashTable.lookup_retain,
    Option.filter_eq_some_iff, decide_eq_true_eq]
  constructor
  · intro hKept
    refine or_iff_not_imp_left.mpr fun hPos i sidecar hGot hZero => ?_
    have hSlot := (hKept i sidecar hGot).2
    rw [hZero] at hSlot
    exact hSlot (Nat.pos_of_ne_zero hPos)
  · rintro (rfl | hHeaded) i sidecar hGot
    · exact ⟨hGot, Nat.not_lt_zero _⟩
    · refine ⟨hGot, not_lt.mpr ?_⟩
      rw [(hFiled i sidecar hGot).resolve_right (hHeaded i sidecar hGot)]
      exact hRecent

open Sample

def sampleHeaderRoot (header : BeaconBlockHeader) : Root :=
  1000 * anchorRoot + 10 * header.slot + 1

/- The blob of the engine, and later the sidecar of the network. -/
theorem pruning_keeps_recent_iff_ingested :
    let store := runBlobs bothColumns sampleHeaderRoot syncedNode
      [.imported (signed (blobBlock .electra)) .forkAware (settingWith true),
        .ingested ⟨1, 0, anchorRoot, 0, 0⟩ ⟨0, [7], 7, [7], 1⟩]
    KeepsBlobs Sample.ChainState store (blobBlock .electra) 1 := by
  intro store
  refine (pruning_keeps_recent_iff bothColumns sampleHeaderRoot syncedNode _ (blobBlock .electra) 1
    ?_ (by decide)).mpr (.inr ?_)
  · intro header hRoot
    exact Nat.eq_of_mul_eq_mul_left (Nat.succ_pos 9) (add_left_cancel (Nat.succ.inj hRoot))
  · intro i sidecar hGot
    have hHeaded : ∀ row ∈ store.blobSidecars.entries, row.2.slot ≠ 0 := by decide
    exact hHeaded _ (AList.mem_lookup_iff.mp hGot)

/- The blob of the engine alone. -/
theorem recent_blob_is_pruned :
    let store := runBlobs bothColumns sampleHeaderRoot syncedNode
      [.imported (signed (blobBlock .electra)) .forkAware (settingWith true)]
    let key := (treeHashRoot (blobBlock .electra), 0)
    store.blobSidecars.lookup key = some ⟨0, [7], 7, [7], 0⟩ ∧ (blobBlock .electra).slot = 1 ∧
      (store.pruneBlobSidecarsBelowSlot 1).blobSidecars.lookup key = none := by
  decide

end Pharos.Node
