import Pharos.Lib.Forest
import Pharos.Lib.HashTable
import Pharos.Types

/-
  This file implements the fork-choice store: the blocks and states the node knows, the checkpoints,
  the votes and the verdicts of the execution layer.
-/

----
-- Store
----

namespace Pharos.ForkChoice

open List AList Forest

section

structure LatestMessage where
  epoch : Epoch
  root : Root
deriving DecidableEq, Repr

structure Store (S : Type) where
  time : Nat
  genesisTime : Nat
  justifiedCheckpoint : Checkpoint
  finalizedCheckpoint : Checkpoint
  unrealizedJustifiedCheckpoint : Checkpoint
  unrealizedFinalizedCheckpoint : Checkpoint
  proposerBoostRoot : Root
  equivocatingIndices : Finset ValidatorIndex
  blocks : HashMap Root BeaconBlock
  blockStates : HashMap Root S
  blockTimeliness : HashMap Root Bool
  checkpointStates : HashMap Checkpoint S
  latestMessages : HashMap ValidatorIndex LatestMessage
  unrealizedJustifications : HashMap Root Checkpoint
  payloadStatuses : HashMap Root PayloadStatus
  terminalTotalDifficulty : Nat
  terminalBlockHash : Hash256
  terminalBlockHashActivationEpoch : Epoch
  secondsPerSlot : Nat

namespace Store

variable {S : Type}

variable (store : Store S)

/- Record the verdict of the execution layer. -/
def markPayloadStatus (root : Root) (status : PayloadStatus) : Store S :=
  { store with payloadStatuses := store.payloadStatuses.insert root status }

/- Record a verdict unless there is one. -/
def markPayloadStatusIfAbsent (root : Root) (status : PayloadStatus) : Store S :=
  if root ∈ store.payloadStatuses then store else store.markPayloadStatus root status

open HashTable

/- Forget some blocks, and the votes for them. The states of checkpoints stay. -/
def evict (roots : List Root) : Store S :=
  { store with
    blocks := deleteAll store.blocks roots
    blockStates := deleteAll store.blockStates roots
    blockTimeliness := deleteAll store.blockTimeliness roots
    unrealizedJustifications := deleteAll store.unrealizedJustifications roots
    payloadStatuses := deleteAll store.payloadStatuses roots
    latestMessages := retain store.latestMessages fun _ message => message.root ∉ roots }

/- The verdict on a block is `Invalid`. -/
def IsInvalid (root : Root) : Prop :=
  store.payloadStatuses.lookup root = some .invalid

instance (store : Store S) (root : Root) : Decidable (store.IsInvalid root) :=
  inferInstanceAs (Decidable (_ = _))

end Store

----
-- Slots and Time
----

open BeaconSpec

variable {S : Type} [BeaconSpec S]

variable (store : Store S)

/- Milliseconds per slot, from the runtime configuration. -/
def storeSlotMs : Nat :=
  let ms := Word.satMul store.secondsPerSlot 1000
  if ms = 0 then slotDurationMs S else ms

/- The milliseconds since genesis wrap around. -/
def slotFromTime (time genesisTime slotMs : Nat) : Slot :=
  Word.wrapMul (time - genesisTime) 1000 / max slotMs 1

def slotStartTime (slot : Slot) (genesisTime slotMs : Nat) : Nat :=
  Word.wrapAdd genesisTime (Word.wrapMul slot slotMs / 1000)

/- Here they saturate. -/
def timeIntoCurrentSlotMs : Nat :=
  Word.satMul (store.time - store.genesisTime) 1000 % max (storeSlotMs store) 1

def getCurrentSlot : Slot :=
  slotFromTime store.time store.genesisTime (storeSlotMs store)

def getCurrentStoreEpoch : Epoch :=
  computeEpochAtSlot S (getCurrentSlot store)

theorem getCurrentSlot_congr {st x : Store S} (hTime : st.time = x.time)
    (hGenesis : st.genesisTime = x.genesisTime)
    (hSeconds : st.secondsPerSlot = x.secondsPerSlot) :
    getCurrentSlot st = getCurrentSlot x := by
  unfold getCurrentSlot storeSlotMs
  rw [hTime, hGenesis, hSeconds]

theorem getCurrentStoreEpoch_congr {st x : Store S} (hTime : st.time = x.time)
    (hGenesis : st.genesisTime = x.genesisTime)
    (hSeconds : st.secondsPerSlot = x.secondsPerSlot) :
    getCurrentStoreEpoch st = getCurrentStoreEpoch x := by
  unfold getCurrentStoreEpoch
  rw [getCurrentSlot_congr hTime hGenesis hSeconds]

variable (S) in
def computeSlotsSinceEpochStart (slot : Slot) : Nat :=
  slot - computeStartSlotAtEpoch S (computeEpochAtSlot S slot)

def getForkchoiceStore (anchorState : S) (anchorBlock : BeaconBlock) : Store S :=
  let anchorRoot : Root := treeHashRoot S anchorBlock
  let checkpoint : Checkpoint := ⟨getCurrentEpoch anchorState, anchorRoot⟩
  { time := slotStartTime (stateSlot anchorState) (genesisTime anchorState) (slotDurationMs S)
    genesisTime := genesisTime anchorState
    justifiedCheckpoint := checkpoint
    finalizedCheckpoint := checkpoint
    unrealizedJustifiedCheckpoint := checkpoint
    unrealizedFinalizedCheckpoint := checkpoint
    proposerBoostRoot := defaultRoot
    equivocatingIndices := ∅
    blocks := AList.singleton anchorRoot anchorBlock
    blockStates := AList.singleton anchorRoot anchorState
    blockTimeliness := ∅
    checkpointStates := AList.singleton checkpoint anchorState
    latestMessages := ∅
    unrealizedJustifications := AList.singleton anchorRoot checkpoint
    payloadStatuses := AList.singleton anchorRoot .valid
    terminalTotalDifficulty := 0
    terminalBlockHash := defaultHash
    terminalBlockHashActivationEpoch := 2 ^ 64 - 1
    secondsPerSlot := slotDurationMs S / 1000 }

end

----
-- Parent Links
----

section

variable (blocks : HashMap Root BeaconBlock)

def parentOf (root : Root) : Option Root :=
  (blocks.lookup root).map BeaconBlock.parentRoot

def childrenIndex (root : Root) : List Root :=
  (blocks.entries.filter fun entry =>
    entry.2.parentRoot = root).map Sigma.fst

def ParentLinked : Prop :=
  ∃ rank, Ranked (parentOf blocks) rank

def isOnChain (root tip : Root) : Bool :=
  root ∈ chain (parentOf blocks) (blocks.keys.length + 1) tip

end

variable {blocks : HashMap Root BeaconBlock}

theorem parentOf_some_iff {c par : Root} : parentOf blocks c = some par ↔
      ∃ blk, blocks.lookup c = some blk ∧ blk.parentRoot = par := by
  simp [parentOf]

theorem mem_of_parentOf {c par : Root} (hPar : parentOf blocks c = some par) : c ∈ blocks := by
  rcases parentOf_some_iff.mp hPar with ⟨blk, hBlk, _⟩
  exact HashTable.mem_iff.mpr ⟨_, hBlk⟩

theorem mem_childrenIndex_iff {c par : Root} :
    c ∈ childrenIndex blocks par ↔ parentOf blocks c = some par := by
  rw [parentOf_some_iff, childrenIndex, mem_map]
  constructor
  · rintro ⟨e, hRow, rfl⟩
    rw [mem_filter] at hRow
    exact ⟨e.2, mem_lookup_iff.mpr hRow.1, by simpa using hRow.2⟩
  · rintro ⟨blk, hBlk, hPar⟩
    refine ⟨⟨c, blk⟩, ?_, rfl⟩
    rw [mem_filter]
    exact ⟨mem_lookup_iff.mp hBlk, by simpa⟩

theorem childrenIndex_eq_nil_iff {r : Root} :
    childrenIndex blocks r = [] ↔ ∀ c, parentOf blocks c ≠ some r := by
  rw [eq_nil_iff_forall_not_mem]
  simp only [mem_childrenIndex_iff, ne_eq]

theorem nodup_childrenIndex (par : Root) : (childrenIndex blocks par).Nodup := by
  have hKeys : (blocks.entries.map Sigma.fst).Nodup := blocks.nodupKeys
  exact hKeys.sublist (List.Sublist.map _ filter_sublist)

theorem ParentLinked.exists_height (hLinked : ParentLinked blocks) : ∃ height : Root → Nat,
      Ranked (parentOf blocks) height ∧ ∀ r, height r ≤ blocks.keys.length := by
  rcases hLinked with ⟨rank, hRank⟩
  refine hRank.exists_bounded_rank ?_
  intro c par hPar
  exact mem_of_parentOf hPar

theorem isOnChain_iff (hLinked : ParentLinked blocks) {r tip : Root} :
    isOnChain blocks r tip = true ↔ Ancestor (parentOf blocks) r tip := by
  rcases hLinked.exists_height with ⟨height, hRank, hBd⟩
  unfold isOnChain
  rw [decide_eq_true_iff]
  exact hRank.mem_chain_iff (Nat.lt_succ_of_le (hBd tip))

def SlotsIncrease (blocks : HashMap Root BeaconBlock) : Prop :=
  ∀ root block parent, blocks.lookup root = some block →
    blocks.lookup block.parentRoot = some parent → parent.slot < block.slot

theorem slotsIncrease_iff_entries {blocks : HashMap Root BeaconBlock} :
    SlotsIncrease blocks ↔ ∀ e ∈ blocks.entries, ∀ up ∈ blocks.entries,
      e.2.parentRoot = up.1 → up.2.slot < e.2.slot := by
  constructor
  · intro hSlots e hRow up hUp hPar
    apply hSlots e.1 e.2 up.2
    · exact mem_lookup_iff.mpr hRow
    · rw [hPar]
      exact mem_lookup_iff.mpr hUp
  · intro hEntries r blk par hBlk hPar
    exact hEntries ⟨r, blk⟩ (mem_lookup_iff.mp hBlk) ⟨blk.parentRoot,
      par⟩ (mem_lookup_iff.mp hPar) rfl

instance (blocks : HashMap Root BeaconBlock) : Decidable (SlotsIncrease blocks) :=
  decidable_of_iff _ slotsIncrease_iff_entries.symm

def slotRank (blocks : HashMap Root BeaconBlock) (root : Root) : Nat :=
  match blocks.lookup root with
  | none => 0
  | some block => block.slot + 1

theorem SlotsIncrease.ranked (hSlots : SlotsIncrease blocks) :
    Ranked (parentOf blocks) (slotRank blocks) := by
  intro c up hPar
  rcases parentOf_some_iff.mp hPar with ⟨blk, hBlk, rfl⟩
  unfold slotRank
  rw [hBlk]
  cases hUp : blocks.lookup blk.parentRoot with
  | none => exact Nat.succ_pos _
  | some par => exact Nat.succ_lt_succ (hSlots c blk par hBlk hUp)

theorem SlotsIncrease.parentLinked (hSlots : SlotsIncrease blocks) : ParentLinked blocks :=
  ⟨slotRank blocks, hSlots.ranked⟩

end Pharos.ForkChoice
