import Pharos.Lib.Chunks
import Pharos.Network.Varint

/-
  This file implements payloads in the framing format of snappy: an identifier, and one frame for
  every 64 KiB.

  The compression itself is that of another crate. It is assumed to be undone by the decompression,
  and not to make a frame longer.
-/

----
-- Frames
----

namespace Pharos.Network

open List

section

open Wire

/- The compression of one block. A block that does not get shorter is not compressed. -/
structure SnapCrate where
  checksum : List UInt8 → List UInt8
  compress : List UInt8 → Option (List UInt8)
  decompressLen : List UInt8 → Except String Nat
  decompress : List UInt8 → Except String (List UInt8)

structure SnapCrate.Inverts (snap : SnapCrate) : Prop where
  checksum : ∀ block, (snap.checksum block).length = 4
  shorter : ∀ block body, snap.compress block = some body → body.length ≤ block.length
  decompressLen :
    ∀ block body, snap.compress block = some body → snap.decompressLen body = .ok block.length
  decompress : ∀ block body, snap.compress block = some body → snap.decompress body = .ok block

/- What a frame holds at most before it is compressed. -/
def maxBlockSize : Nat := 65536

def maxSnappyFramePayload : Nat := 65540

/- The bytes of `sNaPpY`. -/
def streamIdentifier : List UInt8 :=
  [0x73, 0x4e, 0x61, 0x50, 0x70, 0x59]

def frameBytes (chunkType : UInt8) (payload : List UInt8) : List UInt8 :=
  chunkType :: (Bytes.toLittleEndian 3 payload.length ++ payload)

variable (snap : SnapCrate)

def encodeBlock (block : List UInt8) : List UInt8 :=
  match snap.compress block with
  | some body => frameBytes 0x00 (snap.checksum block ++ body)
  | none => frameBytes 0x01 (snap.checksum block ++ block)

/- Nothing is written for an empty payload. -/
def encodeSnappyFrame (uncompressed : List UInt8) : List UInt8 :=
  if uncompressed = [] then
    []
  else
    frameBytes 0xff streamIdentifier ++
      (Chunks.chunks maxBlockSize uncompressed).flatMap (encodeBlock snap)

section

variable (expected : Nat)

def appendDecoded (decoded raw : List UInt8) : Reader IoError (List UInt8) :=
  if expected < decoded.length + raw.length then
    throw (.other "snappy frame would exceed expected uncompressed length")
  else
    pure (decoded ++ raw)

def decompressInto (decoded compressed : List UInt8) : Reader IoError (List UInt8) :=
  match snap.decompressLen compressed with
  | .error message => throw (.other ("snappy decompress_len: " ++ message))
  | .ok frameDecodedLen =>
    if expected < decoded.length + frameDecodedLen then
      throw (.other ("snappy frame would exceed " ++ "expected uncompressed length"))
    else
      match snap.decompress compressed with
      | .error message => throw (.other ("snappy decompress: " ++ message))
      | .ok raw => pure (decoded ++ raw)

def readData (kind : String) (sawStreamId : Bool) (chunkLen : Nat) : Reader IoError (List UInt8) :=
  if sawStreamId = false then
    throw (.other (kind ++ " frame before stream-id"))
  else if chunkLen < 4 then
    throw (.other (kind ++ " frame too short"))
  else do
    let payload ← readExact .unexpectedEof chunkLen
    pure (payload.drop 4)

def readFramePayload (decoded : List UInt8) (sawStreamId : Bool)
    (chunkType : UInt8) (chunkLen : Nat) : Reader IoError (List UInt8 × Bool) :=
  if maxSnappyFramePayload < chunkLen then
    throw (.other "snappy frame payload exceeds max")
  else if chunkType = 0xff then
    if chunkLen ≠ 6 then
      throw (.other "bad snappy stream-id length")
    else do
      let payload ← readExact .unexpectedEof 6
      if payload ≠ streamIdentifier then
        throw (.other "bad snappy stream-id payload")
      else
        pure (decoded, true)
  else if chunkType = 0x00 then do
    let compressed ← readData "compressed" sawStreamId chunkLen
    let decoded ← decompressInto snap expected decoded compressed
    pure (decoded, sawStreamId)
  else if chunkType = 0x01 then do
    let raw ← readData "uncompressed" sawStreamId chunkLen
    let decoded ← appendDecoded expected decoded raw
    pure (decoded, sawStreamId)
  else if 0x80 ≤ chunkType then do
    -- padding and the reserved types that may be skipped
    let _ ← readExact .unexpectedEof chunkLen
    pure (decoded, sawStreamId)
  else
    throw (.other ("unknown snappy chunk type 0x" ++
      String.ofList (Nat.toDigits 16 chunkType.toNat)))

def readFrame (decoded : List UInt8) (sawStreamId : Bool) : Reader IoError (List UInt8 × Bool) := do
  let chunkType ← readByte .unexpectedEof
  let lengthBytes ← readExact .unexpectedEof 3
  readFramePayload snap expected decoded sawStreamId chunkType (Bytes.ofLittleEndian lengthBytes)

def readFrames (expected : Nat) : Nat → List UInt8 → Bool → Reader IoError (List UInt8)
| 0, _, _ => throw .unexpectedEof
| fuel + 1, decoded, sawStreamId =>
  if expected ≤ decoded.length then
    pure decoded
  else do
    let frame ← readFrame snap expected decoded sawStreamId
    readFrames expected fuel frame.1 frame.2

/-
  A frame takes bytes from the stream, which ends before there have been as many frames as bytes.
-/
def readBoundedSnappy : Reader IoError (List UInt8) :=
  fun stream =>
    readFrames snap expected (stream.length + 1) [] false stream

end

end

----
-- The Round Trip
----

open Wire

variable {snap : SnapCrate} {expected : Nat}

theorem reads_readFrame {decoded payload : List UInt8} {sawStreamId : Bool} {chunkType : UInt8}
    {s' : List UInt8 × Bool} (hLen : payload.length ≤ maxSnappyFramePayload)
    (hPayload : Reads
      (readFramePayload snap expected decoded sawStreamId chunkType payload.length) payload s') :
    Reads (readFrame snap expected decoded sawStreamId) (frameBytes chunkType payload) s' := by
  have hFits : payload.length < 256 ^ 3 := lt_of_le_of_lt hLen (by decide)
  have hHeader : Reads (readExact IoError.unexpectedEof 3) (Bytes.toLittleEndian 3 payload.length)
      (Bytes.toLittleEndian 3 payload.length) := reads_readExact _ (Bytes.length_toLittleEndian _ _)
  refine (reads_readByte _ chunkType).bind (hHeader.bind ?_)
  rw [Bytes.ofLittleEndian_toLittleEndian hFits]
  exact hPayload

theorem reads_readData {kind : String} {checksum body : List UInt8}
    (hChecksum : checksum.length = 4) :
    Reads (readData kind true (checksum ++ body).length) (checksum ++ body) body := by
  have hLong : ¬(checksum ++ body).length < 4 := by
    rw [length_append]
    omega
  have hBody : (checksum ++ body).drop 4 = body := by
    rw [← hChecksum, drop_left]
  rw [readData, if_neg (by simp), if_neg hLong]
  refine (reads_readExact _ rfl).bind_nil ?_
  rw [hBody]
  exact reads_pure body

theorem reads_identifier (expected : Nat) (decoded : List UInt8) (sawStreamId : Bool) :
    Reads (readFrame snap expected decoded sawStreamId)
      (frameBytes 0xff streamIdentifier) (decoded, true) := by
  have hRead : Reads (readExact IoError.unexpectedEof 6) streamIdentifier streamIdentifier :=
      reads_readExact _ rfl
  apply reads_readFrame (by decide)
  refine hRead.bind_nil ?_
  exact reads_pure _

theorem reads_encodeBlock (hSnap : snap.Inverts) {decoded blk : List UInt8}
    (hBlk : blk.length ≤ maxBlockSize) (hFits : decoded.length + blk.length ≤ expected) :
    Reads (readFrame snap expected decoded true) (encodeBlock snap blk) (decoded ++ blk, true) := by
  have hChecksum := hSnap.checksum blk
  have hPayload : ∀ body, body.length ≤ blk.length →
      (snap.checksum blk ++ body).length ≤ maxSnappyFramePayload := by
    intro body hBody
    rw [length_append, hChecksum]
    unfold maxBlockSize at hBlk
    unfold maxSnappyFramePayload
    omega
  unfold encodeBlock
  cases hCompress : snap.compress blk with
  | some body =>
    have hShort := hPayload body (hSnap.shorter blk body hCompress)
    apply reads_readFrame hShort
    rw [readFramePayload, if_neg (not_lt.mpr hShort), if_neg (by decide), if_pos rfl]
    refine (reads_readData hChecksum).bind_nil ?_
    rw [decompressInto, hSnap.decompressLen blk body hCompress]
    dsimp only
    rw [if_neg (not_lt.mpr hFits), hSnap.decompress blk body hCompress]
    exact (reads_pure _).bind_nil (reads_pure _)
  | none =>
    have hShort := hPayload blk (le_refl _)
    apply reads_readFrame hShort
    rw [readFramePayload, if_neg (not_lt.mpr hShort),
      if_neg (by decide), if_neg (by decide), if_pos rfl]
    refine (reads_readData hChecksum).bind_nil ?_
    rw [appendDecoded, if_neg (not_lt.mpr hFits)]
    exact (reads_pure _).bind_nil (reads_pure _)

theorem encodeBlock_ne_nil (snap : SnapCrate) (blk : List UInt8) : encodeBlock snap blk ≠ [] := by
  unfold encodeBlock frameBytes
  split
  · exact cons_ne_nil _ _
  · exact cons_ne_nil _ _

theorem reads_readFrames (hSnap : snap.Inverts) {fuel : Nat} {decoded : List UInt8}
    (payload : List UInt8) (hExpected : decoded.length + payload.length = expected)
    (hFuel : ((Chunks.chunks maxBlockSize payload).flatMap (encodeBlock snap)).length < fuel) :
    Reads (readFrames snap expected fuel decoded true)
      ((Chunks.chunks maxBlockSize payload).flatMap (encodeBlock snap)) (decoded ++ payload) := by
  have hSize : 0 < maxBlockSize := by decide
  induction payload using Chunks.chunks_induction hSize generalizing fuel decoded with
  | nil =>
    cases fuel with
    | zero => exact absurd hFuel (Nat.not_lt_zero _)
    | succ fuel =>
      rw [length_nil, Nat.add_zero] at hExpected
      rw [readFrames, if_pos (Nat.le_of_eq hExpected.symm), append_nil, Chunks.chunks_nil]
      exact reads_pure decoded
  | chunk payload hSome ih =>
    rw [Chunks.chunks_of_ne_nil hSize hSome, flatMap_cons] at hFuel ⊢
    have hPositive := length_pos_of_ne_nil hSome
    have hFrame := length_pos_of_ne_nil (encodeBlock_ne_nil snap (payload.take maxBlockSize))
    rw [length_append] at hFuel
    have hSplit : (payload.take maxBlockSize).length + (payload.drop maxBlockSize).length =
        payload.length := by
      rw [← length_append, take_append_drop]
    cases fuel with
    | zero => exact absurd hFuel (Nat.not_lt_zero _)
    | succ fuel =>
      rw [readFrames, if_neg (by omega)]
      have hBlk : Reads (readFrame snap expected decoded true)
          (encodeBlock snap (payload.take maxBlockSize)) (decoded ++ payload.take maxBlockSize,
          true) := reads_encodeBlock hSnap (length_take_le _ _) (by omega)
      have hxs : Reads (readFrames snap expected fuel (decoded ++ payload.take maxBlockSize) true)
          ((Chunks.chunks maxBlockSize (payload.drop maxBlockSize)).flatMap (encodeBlock snap))
          (decoded ++ payload.take maxBlockSize ++ payload.drop maxBlockSize) := by
        apply ih
        · rw [length_append]
          omega
        · omega
      rw [append_assoc, take_append_drop] at hxs
      exact hBlk.bind hxs

theorem reads_readBoundedSnappy (hSnap : snap.Inverts) (payload : List UInt8) :
    Reads (readBoundedSnappy snap payload.length) (encodeSnappyFrame snap payload) payload := by
  intro xs
  show readFrames snap payload.length ((encodeSnappyFrame snap payload ++ xs).length +
    1) [] false (encodeSnappyFrame snap payload ++ xs) = _
  unfold encodeSnappyFrame
  by_cases hNone : payload = []
  · rw [if_pos hNone, hNone]
    rfl
  · rw [if_neg hNone]
    have hPositive := length_pos_of_ne_nil hNone
    have hIdentifier : 0 < (frameBytes 0xff streamIdentifier).length := by
      decide
    rw [readFrames, if_neg (by
      rw [length_nil]
      omega)]
    refine (reads_identifier _ _ _).bind (reads_readFrames hSnap payload ?_ ?_) xs
    · rw [length_nil, zero_add]
    · rw [length_append, length_append]
      omega

end Pharos.Network
