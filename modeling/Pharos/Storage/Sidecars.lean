import Mathlib.Data.List.Sort
import Pharos.Lib.HashTable
import Pharos.Types

/-
  This file implements the column families of blob and data column sidecars, keyed by a block root
  and an index.

  The big endian index ends the key, so that going through the keys of a root is going through its
  indices in order.
-/

----
-- Sidecars
----

namespace Pharos

open List

abbrev ColumnIndex := Nat

abbrev Blob := List UInt8

abbrev Cell := List UInt8

abbrev KzgProof := List UInt8

namespace Storage

/- The slot is the one of the signed block header. -/
structure BlobSidecar where
  index : Nat
  blob : Blob
  kzgCommitment : KzgCommitment
  kzgProof : KzgProof
  slot : Slot
deriving DecidableEq, Repr

structure DataColumnSidecar where
  index : ColumnIndex
  column : List Cell
  kzgCommitments : List KzgCommitment
  kzgProofs : List KzgProof
  slot : Slot
deriving DecidableEq, Repr

structure SidecarStore where
  blobSidecars : HashMap (Root × Nat) BlobSidecar
  dataColumnSidecars : HashMap (Root × ColumnIndex) DataColumnSidecar

namespace SidecarStore

def empty : SidecarStore where
  blobSidecars := ∅
  dataColumnSidecars := ∅

section

variable (store : SidecarStore)

def putBlobSidecar (blockRoot : Root) (index : Nat) (sidecar : BlobSidecar) : SidecarStore :=
  { store with blobSidecars := store.blobSidecars.insert (blockRoot, index) sidecar }

/- A column is filed under its own index. -/
def putDataColumnSidecar (blockRoot : Root) (sidecar : DataColumnSidecar) : SidecarStore :=
  { store with
    dataColumnSidecars := store.dataColumnSidecars.insert (blockRoot, sidecar.index) sidecar }

def getDataColumnSidecar (blockRoot : Root) (index : ColumnIndex) : Option DataColumnSidecar :=
  store.dataColumnSidecars.lookup (blockRoot, index)

def getBlobSidecarsByRoot (blockRoot : Root) : List BlobSidecar :=
  let found := store.blobSidecars.entries.filter fun entry =>
    entry.1.1 = blockRoot
  let sorted := found.insertionSort fun entry other =>
    entry.1.2 ≤ other.1.2
  sorted.map fun entry => entry.2

/- Sidecars are old by the slot of their own header. -/
def pruneBlobSidecarsBelowSlot (pruneSlot : Slot) : SidecarStore :=
  { store with
    blobSidecars := HashTable.retain store.blobSidecars fun _ sidecar => ¬sidecar.slot < pruneSlot }

end

theorem mem_getBlobSidecarsByRoot {st : SidecarStore} {blockRoot : Root}
    {sidecar : BlobSidecar} :
    sidecar ∈ st.getBlobSidecarsByRoot blockRoot ↔
      ∃ i, st.blobSidecars.lookup (blockRoot, i) = some sidecar := by
  unfold getBlobSidecarsByRoot
  rw [mem_map]
  constructor
  · rintro ⟨⟨⟨r, i⟩, v⟩, hGot, hValue⟩
    rw [mem_insertionSort, mem_filter] at hGot
    rcases hGot with ⟨hRow, hr⟩
    cases of_decide_eq_true hr
    subst hValue
    exact ⟨i, AList.mem_lookup_iff.mpr hRow⟩
  · rintro ⟨i, hStored⟩
    refine ⟨⟨(blockRoot, i), sidecar⟩, ?_, rfl⟩
    rw [mem_insertionSort, mem_filter]
    exact ⟨AList.mem_lookup_iff.mp hStored, decide_eq_true rfl⟩

end SidecarStore

end Storage

end Pharos
