import Pharos.Network.ForkContext
import Pharos.Network.SnappyFrame
import Pharos.Ssz.Universe

/-
  This file implements the codec of responses.

  A response is a row of chunks: a result code, for most methods the digest of a fork, and a payload
  with its length in front. Blocks are read as those of the fork that the digest names.
-/

----
-- Messages
----

namespace Pharos.Network

section

open Ssz

inductive RpcMethod where
  | status
  | statusV2
  | goodbye
  | ping
  | metaData
  | metaDataV1
  | metaDataV3
  | blocksByRange
  | blocksByRoot
  | lightClientBootstrap
  | lightClientUpdatesByRange
  | lightClientFinalityUpdate
  | lightClientOptimisticUpdate
  | blobSidecarsByRange
  | blobSidecarsByRoot
  | dataColumnSidecarsByRange
  | dataColumnSidecarsByRoot
  | beaconBlocksByHead
deriving DecidableEq, Repr

def RpcMethod.hasContextBytes : RpcMethod → Bool
| .blocksByRange
| .blocksByRoot
| .lightClientBootstrap
| .lightClientUpdatesByRange
| .lightClientFinalityUpdate
| .lightClientOptimisticUpdate
| .blobSidecarsByRange
| .blobSidecarsByRoot
| .dataColumnSidecarsByRange
| .dataColumnSidecarsByRoot
| .beaconBlocksByHead => true
| _ => false

/- The types of what responses carry. -/
structure ResponseTypes where
  status : SszType
  statusV2 : SszType
  metaDataV1 : SszType
  metaDataV2 : SszType
  metaDataV3 : SszType
  signedBeaconBlock : ForkVariant → SszType
  lightClientBootstrap : SszType
  lightClientUpdate : SszType
  lightClientFinalityUpdate : SszType
  lightClientOptimisticUpdate : SszType
  blobSidecar : SszType
  dataColumnSidecar : SszType
  errorMessage : SszType

variable (types : ResponseTypes)

abbrev SignedBlock :=
  (fork : ForkVariant) × (types.signedBeaconBlock fork).Value

inductive MetaDataResponse where
  | v1 (metaData : types.metaDataV1.Value)
  | v2 (metaData : types.metaDataV2.Value)
  | v3 (metaData : types.metaDataV3.Value)

inductive RpcResponse where
  | status (status : types.status.Value)
  | statusV2 (status : types.statusV2.Value)
  | goodbye (reason : (SszType.uint .u64).Value)
  | ping (seqNumber : (SszType.uint .u64).Value)
  | metaData (metaData : MetaDataResponse types)
  | blocksByRange (blocks : List (SignedBlock types))
  | blocksByRoot (blocks : List (SignedBlock types))
  | lightClientBootstrap (bootstrap : types.lightClientBootstrap.Value)
  | lightClientUpdatesByRange (updates : List types.lightClientUpdate.Value)
  | lightClientFinalityUpdate (update : types.lightClientFinalityUpdate.Value)
  | lightClientOptimisticUpdate (update : types.lightClientOptimisticUpdate.Value)
  | blobSidecars (sidecars : List types.blobSidecar.Value)
  | dataColumnSidecars (sidecars : List types.dataColumnSidecar.Value)
  | beaconBlocksByHead (blocks : List (SignedBlock types))
  | error (code : UInt8) (message : types.errorMessage.Value)

def maxRequestBlocks : Nat := 1024

def maxRequestBlocksDeneb : Nat := 128

def maxRequestLightClientUpdates : Nat := 128

def maxRequestDataColumnSidecars : Nat := 128 * 128

def computeMaxRequestBlobSidecars (isElectra : Bool) : Nat :=
  if isElectra then 1152 else 768

def maxLightClientObjectSszBytes : Nat := 64 * 1024

def maxBlobSidecarSszBytes : Nat := 200 * 1024

def maxDataColumnSidecarSszBytes : Nat := 10 * 1024 * 1024

def maxSignedBeaconBlockSszBytes : Nat := 200 * 1024

def maxPayloadSize : Nat := 10 * 1024 * 1024

end

----
-- Writing
----

section

open Ssz

variable {types : ResponseTypes} (snap : SnapCrate)

def writeSszSnappy (ssz : List UInt8) : List UInt8 :=
  writeVarint ssz.length ++ encodeSnappyFrame snap ssz

def plainChunk (code : UInt8) (type : SszType) (value : type.Value) : List UInt8 :=
  code :: writeSszSnappy snap (type.codec.asSszBytes value)

/- A payload after a success code and the digest of a fork. -/
def contextChunk (forkContext : ForkContext) (fork : ForkVariant) (type : SszType)
    (value : type.Value) : List UInt8 :=
  0 :: ((forkContext.forkDigestFor fork).val ++ writeSszSnappy snap (type.codec.asSszBytes value))

def blockChunk (forkContext : ForkContext) (block : SignedBlock types) : List UInt8 :=
  contextChunk snap forkContext block.1 (types.signedBeaconBlock block.1) block.2

variable (forkContext : Option ForkContext)

def withContext (write : ForkContext → List UInt8) : Except IoError (List UInt8) :=
  match forkContext with
  | none =>
    .error (.other "missing fork context: cannot encode context bytes")
  | some forkContext => .ok (write forkContext)

def writeResponse : RpcResponse types → Except IoError (List UInt8)
| .error code message =>
  .ok (plainChunk snap code types.errorMessage message)
| .status status => .ok (plainChunk snap 0 types.status status)
| .statusV2 status =>
  .ok (plainChunk snap 0 types.statusV2 status)
| .goodbye reason => .ok (plainChunk snap 0 (.uint .u64) reason)
| .ping seqNumber =>
  .ok (plainChunk snap 0 (.uint .u64) seqNumber)
| .metaData (.v1 metaData) =>
  .ok (plainChunk snap 0 types.metaDataV1 metaData)
| .metaData (.v2 metaData) =>
  .ok (plainChunk snap 0 types.metaDataV2 metaData)
| .metaData (.v3 metaData) =>
  .ok (plainChunk snap 0 types.metaDataV3 metaData)
| .lightClientBootstrap bootstrap =>
  withContext forkContext fun context =>
    contextChunk snap context .altair types.lightClientBootstrap bootstrap
| .lightClientUpdatesByRange updates =>
  withContext forkContext fun context =>
    updates.flatMap (contextChunk snap context .altair types.lightClientUpdate)
| .lightClientFinalityUpdate update =>
  withContext forkContext fun context =>
    contextChunk snap context .altair types.lightClientFinalityUpdate update
| .lightClientOptimisticUpdate update =>
  withContext forkContext fun context =>
    contextChunk snap context .altair types.lightClientOptimisticUpdate update
| .blocksByRange blocks
| .blocksByRoot blocks
| .beaconBlocksByHead blocks =>
  withContext forkContext fun context =>
    blocks.flatMap (blockChunk snap context)
| .blobSidecars sidecars =>
  withContext forkContext fun context =>
    sidecars.flatMap (contextChunk snap context .deneb types.blobSidecar)
| .dataColumnSidecars sidecars =>
  withContext forkContext fun context =>
    sidecars.flatMap (contextChunk snap context .fulu types.dataColumnSidecar)

end

----
-- Reading
----

open Ssz Wire

variable {types : ResponseTypes} (snap : SnapCrate)

def readSszSnappyPayload (type : SszType) (maxSsz : Nat) : Reader IoError type.Value := do
  let sszLen ← readVarint
  if maxSsz < sszLen then
    throw (.other "ssz length out of bounds")
  else do
    let bytes ← readBoundedSnappy snap sszLen
    match type.codec.fromSszBytes bytes with
    | .ok value => pure value
    | .error refusal => throw (.sszDecode refusal)

def readDigest : Reader IoError ForkDigest := do
  let bytes ← readExact .unexpectedEof 4
  if hLength : bytes.length = 4 then pure ⟨bytes, hLength⟩ else throw .unexpectedEof

variable (forkContext : Option ForkContext)

def readContext (method : RpcMethod) : Reader IoError (Option ForkVariant) :=
  if method.hasContextBytes then do
    let context ← readDigest
    match forkContext with
    | none =>
      throw (.other "missing fork context: cannot decode context bytes")
    | some forkContext =>
      match forkContext.forkFromContext context with
      | some fork => pure (some fork)
      | none =>
        throw (.other "unknown context bytes in response chunk")
  else
    pure none

def checkContext (chunkFork : Option ForkVariant) : RpcMethod → Reader IoError Unit
| .lightClientBootstrap
| .lightClientUpdatesByRange
| .lightClientFinalityUpdate
| .lightClientOptimisticUpdate =>
  if chunkFork = some .altair ∨ chunkFork = some .capella then
    pure ()
  else
    throw (.other ("light-client chunk has " ++ "non-altair/capella context bytes"))
| .blobSidecarsByRange
| .blobSidecarsByRoot =>
  if chunkFork = some .deneb ∨ chunkFork = some .electra then
    pure ()
  else
    throw (.other "blob sidecar chunk has non-deneb context bytes")
| .dataColumnSidecarsByRange
| .dataColumnSidecarsByRoot =>
  if chunkFork = some .fulu then
    pure ()
  else
    throw (.other ("data column sidecar chunk has " ++ "non-fulu context bytes"))
| _ => pure ()

variable (types) in
/- What the chunks so far have brought. -/
structure Collected where
  blocks : List (SignedBlock types)
  lcUpdates : List types.lightClientUpdate.Value
  blobSidecars : List types.blobSidecar.Value
  dataColumnSidecars : List types.dataColumnSidecar.Value
  byHeadBlocks : List (SignedBlock types)

variable (types) in
/- A chunk ends the response, or others may follow. -/
inductive ChunkResult where
  | done (response : RpcResponse types)
  | more (collected : Collected types)

def pushChunk {Value : Type} (limit : Nat) (refusal : String) (values : List Value)
    (read : Reader IoError Value) : Reader IoError (List Value) :=
  if limit ≤ values.length then
    throw (.other refusal)
  else do
    let value ← read
    pure (values ++ [value])

variable (types) in
def readSignedBlock (chunkFork : Option ForkVariant) : Reader IoError (SignedBlock types) := do
  let fork := chunkFork.getD .phase0
  let inner ← readSszSnappyPayload snap (types.signedBeaconBlock fork) maxSignedBeaconBlockSszBytes
  pure ⟨fork, inner⟩

def readChunk (collected : Collected types) (chunkFork : Option ForkVariant) :
    RpcMethod → Reader IoError (ChunkResult types)
| .status => do
    let status ← readSszSnappyPayload snap types.status 84
    pure (.done (.status status))
| .statusV2 => do
    let status ← readSszSnappyPayload snap types.statusV2 92
    pure (.done (.statusV2 status))
| .goodbye => do
    let reason ← readSszSnappyPayload snap (.uint .u64) 8
    pure (.done (.goodbye reason))
| .ping => do
    let seqNumber ← readSszSnappyPayload snap (.uint .u64) 8
    pure (.done (.ping seqNumber))
| .metaData => do
    let metaData ← readSszSnappyPayload snap types.metaDataV2 64
    pure (.done (.metaData (.v2 metaData)))
| .metaDataV1 => do
    let metaData ← readSszSnappyPayload snap types.metaDataV1 16
    pure (.done (.metaData (.v1 metaData)))
| .metaDataV3 => do
    let metaData ← readSszSnappyPayload snap types.metaDataV3 64
    pure (.done (.metaData (.v3 metaData)))
| .blocksByRange
| .blocksByRoot => do
    let blocks ← pushChunk maxRequestBlocks "response exceeds MAX_REQUEST_BLOCKS"
      collected.blocks (readSignedBlock types snap chunkFork)
    pure (.more { collected with blocks })
| .lightClientBootstrap => do
    let bootstrap ← readSszSnappyPayload snap
      types.lightClientBootstrap maxLightClientObjectSszBytes
    pure (.done (.lightClientBootstrap bootstrap))
| .lightClientUpdatesByRange => do
    let lcUpdates ← pushChunk maxRequestLightClientUpdates
      "response exceeds MAX_REQUEST_LIGHT_CLIENT_UPDATES"
      collected.lcUpdates
      (readSszSnappyPayload snap types.lightClientUpdate maxLightClientObjectSszBytes)
    pure (.more { collected with lcUpdates })
| .lightClientFinalityUpdate => do
    let update ← readSszSnappyPayload snap types.lightClientFinalityUpdate
      maxLightClientObjectSszBytes
    pure (.done (.lightClientFinalityUpdate update))
| .lightClientOptimisticUpdate => do
    let update ← readSszSnappyPayload snap types.lightClientOptimisticUpdate
      maxLightClientObjectSszBytes
    pure (.done (.lightClientOptimisticUpdate update))
| .blobSidecarsByRange
| .blobSidecarsByRoot => do
    let blobSidecars ← pushChunk (computeMaxRequestBlobSidecars (chunkFork = some .electra))
      "response exceeds MAX_REQUEST_BLOB_SIDECARS"
      collected.blobSidecars
      (readSszSnappyPayload snap types.blobSidecar maxBlobSidecarSszBytes)
    pure (.more { collected with blobSidecars })
| .dataColumnSidecarsByRange
| .dataColumnSidecarsByRoot => do
    let dataColumnSidecars ← pushChunk maxRequestDataColumnSidecars
      "response exceeds MAX_REQUEST_DATA_COLUMN_SIDECARS"
      collected.dataColumnSidecars
      (readSszSnappyPayload snap types.dataColumnSidecar maxDataColumnSidecarSszBytes)
    pure (.more { collected with dataColumnSidecars })
| .beaconBlocksByHead => do
    let byHeadBlocks ← pushChunk maxRequestBlocksDeneb "response exceeds MAX_REQUEST_BLOCKS_DENEB"
      collected.byHeadBlocks
      (readSignedBlock types snap chunkFork)
    pure (.more { collected with byHeadBlocks })

def endResponse (collected : Collected types) : RpcMethod → Except IoError (RpcResponse types)
| .blocksByRange => .ok (.blocksByRange collected.blocks)
| .blocksByRoot => .ok (.blocksByRoot collected.blocks)
| .lightClientUpdatesByRange =>
  .ok (.lightClientUpdatesByRange collected.lcUpdates)
| .blobSidecarsByRange
| .blobSidecarsByRoot =>
  .ok (.blobSidecars collected.blobSidecars)
| .dataColumnSidecarsByRange
| .dataColumnSidecarsByRoot =>
  .ok (.dataColumnSidecars collected.dataColumnSidecars)
| .beaconBlocksByHead =>
  .ok (.beaconBlocksByHead collected.byHeadBlocks)
| _ =>
  .error (.other "expected response chunk; stream closed early")

def readAfterCode (method : RpcMethod)
    (collected : Collected types) (code : UInt8) : Reader IoError (ChunkResult types) :=
  if code ≠ 0 then do
    let message ← readSszSnappyPayload snap types.errorMessage (256 + 8)
    pure (.done (.error code message))
  else do
    let chunkFork ← readContext forkContext method
    checkContext chunkFork method
    readChunk snap collected chunkFork method

def readLoop (forkContext : Option ForkContext) (method : RpcMethod) :
    Nat → Collected types → List UInt8 → Except IoError (RpcResponse types)
| 0, _, _ => .error .unexpectedEof
| _ + 1, collected, [] => endResponse collected method
| fuel + 1, collected, code :: stream => do
    let (result, rest) ← (readAfterCode snap forkContext method collected code).run stream
    match result with
    | .done response => .ok response
    | .more collected => readLoop forkContext method fuel collected rest

/- Every chunk takes its code at least. -/
def readResponse (method : RpcMethod) (stream : List UInt8) : Except IoError (RpcResponse types) :=
  readLoop snap forkContext method (stream.length + 1) ⟨[], [], [], [], []⟩ stream

end Pharos.Network
