import Pharos.Network.Responses

/-
  This file determines which lists of blocks are read back from the responses they are written to.

  The writer takes blocks of any size. The reader refuses those of more than 200 KiB, and it takes
  fewer blocks of a response by head than of the others.

  Main theorems:
  * `block_responses_survive_iff`
-/

----
-- Payloads
----

namespace Pharos.Network

open List

section

open Ssz Wire

variable {snap : SnapCrate}

theorem reads_readSszSnappyPayload (hSnap : snap.Inverts) {type : SszType}
    (hType : type.WellFormed) {maxSsz : Nat} (hMax : maxSsz < 2 ^ 32) {v : type.Value}
    (hShort : (type.codec.asSszBytes v).length ≤ maxSsz) :
    Reads (readSszSnappyPayload snap type maxSsz) (writeSszSnappy snap (type.codec.asSszBytes v))
      v := by
  have hFits : (type.codec.asSszBytes v).length < 2 ^ 64 := by
    omega
  refine (reads_readVarint hFits).bind ?_
  rw [if_neg (not_lt.mpr hShort)]
  refine (reads_readBoundedSnappy hSnap _).bind_nil ?_
  have hValue : type.codec.fromSszBytes (type.codec.asSszBytes v) = .ok v :=
      type.roundTrips_codec hType v (lt_of_le_of_lt hShort hMax)
  rw [hValue]
  exact reads_pure v

theorem refuses_readSszSnappyPayload {type : SszType} {maxSsz : Nat} {v : type.Value}
    (hLong : maxSsz < (type.codec.asSszBytes v).length)
    (hFits : (type.codec.asSszBytes v).length < 2 ^ 64) :
    Refuses (readSszSnappyPayload snap type maxSsz)
      (writeSszSnappy snap (type.codec.asSszBytes v)) := by
  refine (reads_readVarint hFits).bind_refuses ?_
  rw [if_pos hLong]
  exact refuses_throw _ _

theorem reads_readDigest (digest : ForkDigest) : Reads readDigest digest.val digest := by
  refine (reads_readExact _ digest.property).bind_nil ?_
  rw [dif_pos digest.property]
  exact reads_pure digest

theorem reads_readContext {ctx : ForkContext} {method : RpcMethod} {fork : ForkVariant}
    (hNamed : method.hasContextBytes = true)
    (hIn : ctx.forkFromContext (ctx.forkDigestFor fork) = some fork) :
    Reads (readContext (some ctx) method) (ctx.forkDigestFor fork).val (some fork) := by
  rw [readContext, if_pos hNamed]
  refine (reads_readDigest _).bind_nil ?_
  dsimp only
  rw [hIn]
  exact reads_pure _

end

----
-- Lists of Blocks
----

section

open Ssz Wire

/- The methods that answer with blocks. -/
inductive BlockMethod where
  | byRange
  | byRoot
  | byHead
deriving DecidableEq, Repr

variable {types : ResponseTypes}

namespace BlockMethod

def method : BlockMethod → RpcMethod
| .byRange => .blocksByRange
| .byRoot => .blocksByRoot
| .byHead => .beaconBlocksByHead

def response (blocks : List (SignedBlock types)) : BlockMethod → RpcResponse types
| .byRange => .blocksByRange blocks
| .byRoot => .blocksByRoot blocks
| .byHead => .beaconBlocksByHead blocks

/- How many blocks the reader takes. -/
def limit : BlockMethod → Nat
| .byRange | .byRoot => maxRequestBlocks
| .byHead => maxRequestBlocksDeneb

def blocks (collected : Collected types) : BlockMethod → List (SignedBlock types)
| .byRange | .byRoot => collected.blocks
| .byHead => collected.byHeadBlocks

end BlockMethod

def blockSsz (block : SignedBlock types) : List UInt8 :=
  (types.signedBeaconBlock block.1).codec.asSszBytes block.2

/- The reader has room for some more blocks. -/
structure BlockMethod.Accepts (method : BlockMethod) (already : Nat)
    (more : List (SignedBlock types)) : Prop where
  count : already + more.length ≤ method.limit
  size : ∀ block ∈ more, (blockSsz block).length ≤ maxSignedBeaconBlockSszBytes

variable {method : BlockMethod} {block : SignedBlock types}

theorem BlockMethod.accepts_cons_iff {already : Nat} {more : List (SignedBlock types)} :
    method.Accepts already (block :: more) ↔
      already < method.limit ∧ (blockSsz block).length ≤ maxSignedBeaconBlockSszBytes ∧
        method.Accepts (already + 1) more := by
  constructor
  · rintro ⟨hCount, hSize⟩
    rw [length_cons] at hCount
    refine ⟨by omega, hSize block mem_cons_self, ?_, ?_⟩
    · omega
    · exact fun x hx =>
        hSize x (mem_cons_of_mem _ hx)
  · rintro ⟨_, hFst, hCount, hSize⟩
    refine ⟨?_, ?_⟩
    · rw [length_cons]
      omega
    · intro x hx
      rcases mem_cons.mp hx with hEq | hxs
      · rw [hEq]
        exact hFst
      · exact hSize x hxs

variable {snap : SnapCrate} {forkContext : ForkContext}

theorem readChunk_blocks (snap : SnapCrate) (method : BlockMethod) (collected : Collected types)
    (chunkFork : Option ForkVariant) :
    ∃ (e : String)
      (keep : List (SignedBlock types) → Collected types),
      (∀ blocks, method.blocks (keep blocks) = blocks) ∧
        readChunk snap collected chunkFork method.method = (do
            let blocks ← pushChunk method.limit e (method.blocks collected)
              (readSignedBlock types snap chunkFork)
            pure (.more (keep blocks))) := by
  cases method with
  | byRange | byRoot =>
    exact ⟨_, fun blocks => { collected with blocks }, fun _ => rfl, rfl⟩
  | byHead =>
    exact ⟨_, fun byHeadBlocks =>
      { collected with byHeadBlocks }, fun _ => rfl, rfl⟩

theorem writeResponse_blocks (method : BlockMethod) (blocks : List (SignedBlock types)) :
    writeResponse snap (some forkContext) (method.response blocks) =
      .ok (blocks.flatMap (blockChunk snap forkContext)) := by
  cases method with
  | _ => rfl

theorem checkContext_blocks (method : BlockMethod) (chunkFork : Option ForkVariant) :
    checkContext chunkFork method.method = pure () := by
  cases method with
  | _ => rfl

theorem hasContextBytes_blocks (method : BlockMethod) : method.method.hasContextBytes = true := by
  cases method with
  | _ => rfl

def chunkTail (snap : SnapCrate) (forkContext : ForkContext) (block : SignedBlock types) :
    List UInt8 :=
  (forkContext.forkDigestFor block.1).val ++ writeSszSnappy snap (blockSsz block)

theorem reads_blockChunk (hSnap : snap.Inverts)
    (hTypes : ∀ fork, (types.signedBeaconBlock fork).WellFormed)
    (hIn : ∀ fork, forkContext.forkFromContext (forkContext.forkDigestFor fork) = some fork)
    {collected : Collected types} (hRoom : (method.blocks collected).length < method.limit)
    (hShort : (blockSsz block).length ≤ maxSignedBeaconBlockSszBytes) :
    ∃ s' : Collected types,
      method.blocks s' = method.blocks collected ++ [block] ∧
        Reads (readAfterCode snap (some forkContext) method.method collected 0)
          (chunkTail snap forkContext block)
          (.more s') := by
  rcases readChunk_blocks snap method collected (some block.1) with ⟨e, keep, hKeep, hChunk⟩
  refine ⟨keep (method.blocks collected ++ [block]), hKeep _, ?_⟩
  refine (reads_readContext (hasContextBytes_blocks method) (hIn block.1)).bind ?_
  rw [checkContext_blocks, pure_bind, hChunk, pushChunk, if_neg (not_le.mpr hRoom), bind_assoc]
  have hInner := reads_readSszSnappyPayload hSnap (hTypes block.1) (by decide) hShort
  exact (hInner.bind_nil (reads_pure block)).bind_nil (reads_pure _)

theorem refuses_blockChunk
    (hIn : ∀ fork, forkContext.forkFromContext (forkContext.forkDigestFor fork) = some fork)
    {collected : Collected types} (hFits : (blockSsz block).length ≤ maxPayloadSize)
    (hRefused : method.limit ≤ (method.blocks collected).length ∨
      maxSignedBeaconBlockSszBytes < (blockSsz block).length) :
    Refuses (readAfterCode snap (some forkContext) method.method collected 0)
      (chunkTail snap forkContext block) := by
  rcases readChunk_blocks snap method collected (some block.1) with ⟨e, keep, hKeep, hChunk⟩
  refine (reads_readContext (hasContextBytes_blocks method) (hIn block.1)).bind_refuses ?_
  rw [checkContext_blocks, pure_bind, hChunk]
  refine Refuses.bind ?_ _
  rw [pushChunk]
  by_cases hFull : method.limit ≤ (method.blocks collected).length
  · rw [if_pos hFull]
    exact refuses_throw _ _
  · rw [if_neg hFull]
    have hLong := hRefused.resolve_left hFull
    exact ((refuses_readSszSnappyPayload hLong (hFits.trans_lt (by decide))).bind _).bind _

end

----
-- Whole Responses
----

section

open Wire

variable {types : ResponseTypes} {snap : SnapCrate} {forkContext : ForkContext}

section

variable (hSnap : snap.Inverts) (hTypes : ∀ fork, (types.signedBeaconBlock fork).WellFormed)
  (hIn : ∀ fork, forkContext.forkFromContext (forkContext.forkDigestFor fork) = some fork)
  (method : BlockMethod) {blocks : List (SignedBlock types)}
  (hSize : ∀ blk ∈ blocks, (blockSsz blk).length ≤ maxPayloadSize)
include hSnap hTypes hIn hSize

/-
  The loop over the chunks of some blocks, by induction on the blocks: it gives them all, or it is
  refused at the first one that the reader has no room for or that is too long.
-/
theorem readLoop_blocks {fuel : Nat} {collected : Collected types}
    (hFuel : (blocks.flatMap (blockChunk snap forkContext)).length < fuel)
    (hRoom : (method.blocks collected).length ≤ method.limit) :
    let res := readLoop snap (some forkContext) method.method fuel collected
      (blocks.flatMap (blockChunk snap forkContext))
    method.Accepts (method.blocks collected).length blocks ∧
        res = .ok (method.response (method.blocks collected ++ blocks)) ∨
      ¬method.Accepts (method.blocks collected).length blocks ∧ ∃ e, res = .error e := by
  induction blocks generalizing fuel collected with
  | nil =>
    cases fuel with
    | zero => exact absurd hFuel (Nat.not_lt_zero _)
    | succ fuel =>
      refine .inl ⟨⟨hRoom, by simp⟩, ?_⟩
      rw [append_nil]
      cases method <;> rfl
  | cons blk xs ih =>
    have hHere := hSize blk mem_cons_self
    have hxs : ∀ x ∈ xs, (blockSsz x).length ≤ maxPayloadSize :=
      fun x hx =>
        hSize x (mem_cons_of_mem _ hx)
    have hBytes : (blk :: xs).flatMap (blockChunk snap forkContext) =
        0 :: (chunkTail snap forkContext blk ++ xs.flatMap (blockChunk snap forkContext)) :=
      rfl
    rw [hBytes, length_cons, length_append] at hFuel
    cases fuel with
    | zero => exact absurd hFuel (Nat.not_lt_zero _)
    | succ fuel =>
      rw [hBytes, readLoop, BlockMethod.accepts_cons_iff]
      by_cases hTaken : (method.blocks collected).length < method.limit ∧
          (blockSsz blk).length ≤ maxSignedBeaconBlockSszBytes
      · rcases reads_blockChunk hSnap hTypes hIn hTaken.1 hTaken.2 with ⟨s', hPost, hReads⟩
        have hMore : (xs.flatMap (blockChunk snap forkContext)).length < fuel := by
          omega
        have hStill : (method.blocks s').length ≤ method.limit := by
          rw [hPost, length_append]
          exact hTaken.1
        have hNext := ih hxs hMore hStill
        rw [hPost, length_append, append_assoc] at hNext
        rw [hReads]
        rcases hNext with ⟨hAccepts, hDone⟩ | ⟨hNot, hRefused⟩
        · exact .inl ⟨⟨hTaken.1, hTaken.2, hAccepts⟩, hDone⟩
        · exact .inr ⟨fun hAll => hNot hAll.2.2, hRefused⟩
      · right
        refine ⟨fun hAll =>
          hTaken ⟨hAll.1, hAll.2.1⟩, ?_⟩
        have hWhy : method.limit ≤ (method.blocks collected).length ∨
            maxSignedBeaconBlockSszBytes < (blockSsz blk).length := by
          by_contra hNeither
          rw [not_or, not_le, not_lt] at hNeither
          exact hTaken hNeither
        have hRefuses : Refuses (readAfterCode snap (some forkContext) method.method collected 0)
            (chunkTail snap forkContext blk) :=
          refuses_blockChunk hIn hHere hWhy
        rcases hRefuses _ with ⟨e, hRefusal⟩
        refine ⟨e, ?_⟩
        rw [hRefusal]
        rfl

theorem readResponse_blocks_iff :
    readResponse snap (some forkContext) method.method
          (blocks.flatMap (blockChunk snap forkContext)) =
        .ok (method.response blocks) ↔
      method.Accepts 0 blocks := by
  have hNone : method.blocks (⟨[], [], [], [], []⟩ : Collected types) = [] := by
    cases method with
    | _ => rfl
  have hLoop := readLoop_blocks hSnap hTypes hIn method
    hSize (Nat.lt_succ_self _) (by
      rw [hNone]
      exact Nat.zero_le method.limit)
  rw [hNone] at hLoop
  unfold readResponse
  rcases hLoop with ⟨hAccepts, hDone⟩ | ⟨hNot, hRefused⟩
  · exact iff_of_true hDone hAccepts
  · rcases hRefused with ⟨e, hRefusal⟩
    refine iff_of_false ?_ hNot
    intro hOk
    rw [hRefusal] at hOk
    cases hOk

end

/-
  A list of blocks is read back from its response exactly if no block has more than 200 KiB and, in
  a response by head, there are no more blocks than a request may ask for.
-/
theorem block_responses_survive_iff (hSnap : snap.Inverts)
    (hTypes : ∀ fork, (types.signedBeaconBlock fork).WellFormed)
    (hKnown : ∀ fork, forkContext.forkFromContext (forkContext.forkDigestFor fork) = some fork)
    (method : BlockMethod) (blocks : List (SignedBlock types))
    (hCount : blocks.length ≤ maxRequestBlocks)
    (hSize : ∀ block ∈ blocks, (blockSsz block).length ≤ maxPayloadSize) :
    ∃ bytes, writeResponse snap (some forkContext) (method.response blocks) = .ok bytes ∧
      (readResponse snap (some forkContext) method.method bytes = .ok (method.response blocks) ↔
      (∀ block ∈ blocks, (blockSsz block).length ≤ maxSignedBeaconBlockSszBytes) ∧
      (method = .byHead → blocks.length ≤ maxRequestBlocksDeneb)) := by
  refine ⟨_, writeResponse_blocks method blocks, ?_⟩
  rw [readResponse_blocks_iff hSnap hTypes hKnown method hSize]
  constructor
  · rintro ⟨hLimit, hShort⟩
    rw [zero_add] at hLimit
    refine ⟨hShort, fun hHead => ?_⟩
    rw [hHead] at hLimit
    exact hLimit
  · rintro ⟨hShort, hHead⟩
    refine ⟨?_, hShort⟩
    rw [zero_add]
    cases method with
    | byRange | byRoot => exact hCount
    | byHead => exact hHead rfl

end

----
-- Short and Long Blocks
----

open Ssz

/- No block is compressed. -/
def storingSnap : SnapCrate where
  checksum _ := [0, 0, 0, 0]
  compress _ := none
  decompressLen body := .ok body.length
  decompress body := .ok body

theorem inverts_storingSnap : storingSnap.Inverts where
  checksum _ := rfl
  shorter _ _ hSome := absurd hSome (by simp [storingSnap])
  decompressLen _ _ hSome :=
    absurd hSome (by simp [storingSnap])
  decompress _ _ hSome := absurd hSome (by simp [storingSnap])

def stringTypes (length : Nat) : ResponseTypes where
  status := .bool
  statusV2 := .bool
  metaDataV1 := .bool
  metaDataV2 := .bool
  metaDataV3 := .bool
  signedBeaconBlock _ := .fixedBytes length
  lightClientBootstrap := .bool
  lightClientUpdate := .bool
  lightClientFinalityUpdate := .bool
  lightClientOptimisticUpdate := .bool
  blobSidecar := .bool
  dataColumnSidecar := .bool
  errorMessage := .bool

theorem wellFormed_stringTypes (len : Nat) (fork : ForkVariant) :
    ((stringTypes len).signedBeaconBlock fork).WellFormed :=
  trivial

def zeroBlock (length : Nat) (fork : ForkVariant) : SignedBlock (stringTypes length) :=
  ⟨fork, (⟨List.replicate length 0, List.length_replicate⟩ : FixedBytes length)⟩

theorem length_blockSsz {len : Nat} (blk : SignedBlock (stringTypes len)) :
    (blockSsz blk).length = len :=
  (blk.2 : FixedBytes len).property

theorem forkFromContext_forkDigestFor_blobHost (fork : ForkVariant) :
    (hostForkContext byteHashes blobHost 7).forkFromContext
        ((hostForkContext byteHashes blobHost 7).forkDigestFor fork) = some fork := by
  cases fork with
  | _ => decide

/- Two blocks of different forks are read back. -/
theorem block_responses_survive_iff_shortBlocks : ∃ bytes,
      writeResponse storingSnap (some (hostForkContext byteHashes blobHost 7))
          (BlockMethod.byRange.response [zeroBlock 4 .deneb, zeroBlock 4 .electra]) =
        .ok bytes ∧
      readResponse storingSnap (some (hostForkContext byteHashes blobHost 7)) .blocksByRange bytes =
        .ok (BlockMethod.byRange.response [zeroBlock 4 .deneb, zeroBlock 4 .electra]) := by
  rcases block_responses_survive_iff inverts_storingSnap (wellFormed_stringTypes 4)
      forkFromContext_forkDigestFor_blobHost .byRange [zeroBlock 4 .deneb,
      zeroBlock 4 .electra] (by decide) (fun blk _ => by
        rw [length_blockSsz]
        decide) with
    ⟨bytes, hWritten, hRead⟩
  refine ⟨bytes, hWritten, hRead.mpr ⟨?_, by simp⟩⟩
  intro blk _
  rw [length_blockSsz]
  decide

/- One byte more than the reader takes. -/
def longBlock : SignedBlock (stringTypes (200 * 1024 + 1)) :=
  zeroBlock (200 * 1024 + 1) .deneb

/- A block of more than 200 KiB is written, and not read. -/
theorem long_block_is_lost : (blockSsz longBlock).length ≤ maxPayloadSize ∧
      ∃ bytes,
        writeResponse storingSnap (some (hostForkContext byteHashes blobHost 7))
            (BlockMethod.byRange.response [longBlock]) =
          .ok bytes ∧
        readResponse storingSnap (some (hostForkContext byteHashes blobHost 7))
            .blocksByRange bytes ≠
          .ok (BlockMethod.byRange.response [longBlock]) := by
  have hLen : (blockSsz longBlock).length = 200 * 1024 + 1 := length_blockSsz longBlock
  have hSize : ∀ blk ∈ [longBlock], (blockSsz blk).length ≤ maxPayloadSize := by
    intro blk _
    rw [length_blockSsz]
    decide
  refine ⟨hSize longBlock mem_cons_self, _, writeResponse_blocks .byRange [longBlock], ?_⟩
  intro hRead
  have hAccepts := (readResponse_blocks_iff inverts_storingSnap (wellFormed_stringTypes _)
    forkFromContext_forkDigestFor_blobHost .byRange hSize).mp hRead
  have hShort := hAccepts.size longBlock mem_cons_self
  rw [hLen] at hShort
  exact absurd hShort (by decide)

end Pharos.Network
