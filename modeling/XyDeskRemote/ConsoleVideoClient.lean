/-
# Console video: the receiver loop

`runVideoLoop` of `XyDirectConsoleStreamClient` reads one datagram per round,
ignores what is not a valid `XYV1` chunk, keeps the chunks of one frame in reused
buffers and hands the frame to the JPEG decoder when all its chunks are there.

A round is cut where the loop itself cuts it: `parseChunk` is everything up to the
last `continue`, `beginFrame` the switch to another frame id, `storeChunk` the copy
into the chunk buffer and `finishFrame` the reassembly.  The array accesses of the
last two raise when they leave an array; a round is `none` then.
-/
import XyDeskRemote.ByteBuffer
import XyDeskRemote.OutputMachine

open ByteBuffer

/-- The size of a header. -/
def headerBytes : Nat := 16

/-- `MAX_UDP_PACKET`, the size of the receive buffer. -/
def maxUdpPacket : Nat := 1500

/-- The most chunks of a frame. -/
def maxChunksPerFrame : Nat := 256

/-- Two bytes of a buffer as an unsigned little-endian number. -/
def readUInt16Le (buf : List UInt8) (offset : Nat) : Nat :=
  let lo := (buf.getD offset 0).toNat
  let hi := (buf.getD (offset + 1) 0).toNat
  hi <<< 8 ||| lo

/-! ## Reading a datagram -/

/-- A datagram that passed the checks of the loop, with the checks. -/
structure VideoChunk where
  frameId : Nat
  chunkIdx : Nat
  chunkCount : Nat
  width : Nat
  height : Nat
  flags : Nat
  fpsActual : Nat
  payload : List UInt8
  idx_lt : chunkIdx < chunkCount
  count_le : chunkCount ≤ maxChunksPerFrame
  payload_pos : 0 < payload.length

/-- The checks of the loop on the received bytes.  `receive` cuts a datagram to the
size of the buffer, and nothing past its length is read. -/
def parseChunk (datagram : List UInt8) : Option VideoChunk :=
  let rxBuf := datagram.take maxUdpPacket
  if hlen : rxBuf.length ≤ headerBytes then none
  else if rxBuf.getD 0 0 ≠ 0x58 ∨ rxBuf.getD 1 0 ≠ 0x59 ∨
      rxBuf.getD 2 0 ≠ 0x56 ∨ rxBuf.getD 3 0 ≠ 0x31 then none
  else
    let chunkIdx := readUInt16Le rxBuf 6
    let chunkCount := readUInt16Le rxBuf 8
    if hidx : ¬ (1 ≤ chunkCount ∧ chunkCount ≤ maxChunksPerFrame) ∨ chunkCount ≤ chunkIdx then
      none
    else some {
      frameId := readUInt16Le rxBuf 4
      chunkIdx := chunkIdx
      chunkCount := chunkCount
      width := readUInt16Le rxBuf 10
      height := readUInt16Le rxBuf 12
      flags := (rxBuf.getD 14 0).toNat
      fpsActual := (rxBuf.getD 15 0).toNat
      payload := rxBuf.drop headerBytes
      idx_lt := by omega
      count_le := by omega
      payload_pos := by rw [List.length_drop]; omega }

/-! ## The loop -/

/-- The local variables of the loop that live across rounds. -/
structure VideoLoop where
  activeFrameId : Int := -1
  expectedChunks : Nat := 0
  receivedChunks : Nat := 0
  frameWidth : Nat := 0
  frameHeight : Nat := 0
  frameFlags : Nat := 0
  frameHostFps : Nat := 0
  chunkBuffers : Vector (Option (List UInt8)) maxChunksPerFrame := Vector.replicate _ none
  chunkLengths : Vector Nat maxChunksPerFrame := Vector.replicate _ 0
  reassemblyBuffer : List UInt8 := List.replicate (512 * 1024) 0

/-- A call of the JPEG decoder, with the header fields that go with the picture. -/
structure DecodeCall where
  jpeg : List UInt8
  frameWidth : Nat
  frameHeight : Nat
  frameFlags : Nat
  frameHostFps : Nat
  deriving DecidableEq

/-- Another frame id abandons the frame in progress; only the lengths below the new
chunk count are reset. -/
def VideoLoop.beginFrame (s : VideoLoop) (ch : VideoChunk) : VideoLoop :=
  if (ch.frameId : Int) ≠ s.activeFrameId then
    { s with
      activeFrameId := ch.frameId
      expectedChunks := ch.chunkCount
      receivedChunks := 0
      frameWidth := ch.width
      frameHeight := ch.height
      frameFlags := ch.flags
      frameHostFps := ch.fpsActual
      chunkLengths := s.chunkLengths.mapIdx fun i len => if i < ch.chunkCount then 0 else len }
  else s

/-- The buffer a payload is copied into: the old one when it is large enough. -/
def chunkSlot (old : Option (List UInt8)) (payloadLen : Nat) : List UInt8 :=
  match old with
  | some slot =>
    if slot.length < payloadLen then List.replicate (max payloadLen 1400) 0 else slot
  | none => List.replicate (max payloadLen 1400) 0

/-- Keep the payload of a chunk that is not there yet. -/
def VideoLoop.storeChunk (s : VideoLoop) (ch : VideoChunk) : Option VideoLoop :=
  have hidx : ch.chunkIdx < maxChunksPerFrame := Nat.lt_of_lt_of_le ch.idx_lt ch.count_le
  let payloadLen := ch.payload.length
  if s.chunkLengths[ch.chunkIdx] = 0 then
    (arraycopy ch.payload 0 (chunkSlot s.chunkBuffers[ch.chunkIdx] payloadLen) 0
      payloadLen).map fun slot =>
        { s with
          chunkBuffers := s.chunkBuffers.set ch.chunkIdx (some slot)
          chunkLengths := s.chunkLengths.set ch.chunkIdx payloadLen
          receivedChunks := s.receivedChunks + 1 }
  else some s

/-- Copy the stored chunks one after the other; a chunk without a buffer is skipped. -/
def copyChunks : List (Option (List UInt8) × Nat) → List UInt8 → Nat → Option (List UInt8)
  | [], buf, _ => some buf
  | (none, _) :: rest, buf, pos => copyChunks rest buf pos
  | (some cbuf, clen) :: rest, buf, pos =>
    (arraycopy cbuf 0 buf pos clen).bind fun buf => copyChunks rest buf (pos + clen)

/-- The chunk buffers and lengths of the frame in progress, in index order. -/
def VideoLoop.frameChunks (s : VideoLoop) : List (Option (List UInt8) × Nat) :=
  (s.chunkBuffers.toList.zip s.chunkLengths.toList).take s.expectedChunks

/-- Hand a complete frame to the decoder. -/
def VideoLoop.finishFrame (s : VideoLoop) : Option (VideoLoop × List DecodeCall) :=
  if s.receivedChunks = s.expectedChunks then
    let totalBytes := (s.frameChunks.map Prod.snd).sum
    if 0 < totalBytes then
      let reassemblyBuffer :=
        if s.reassemblyBuffer.length < totalBytes then
          List.replicate (totalBytes + 32 * 1024) 0
        else s.reassemblyBuffer
      (copyChunks s.frameChunks reassemblyBuffer 0).map fun buf =>
        ({ s with reassemblyBuffer := buf, activeFrameId := -1 },
          [⟨buf.take totalBytes, s.frameWidth, s.frameHeight, s.frameFlags, s.frameHostFps⟩])
    else some ({ s with activeFrameId := -1 }, [])
  else some (s, [])

/-- A chunk that passed the checks. -/
def VideoLoop.onChunk (s : VideoLoop) (ch : VideoChunk) :
    Option (VideoLoop × List DecodeCall) :=
  ((s.beginFrame ch).storeChunk ch).bind VideoLoop.finishFrame

/-- One round of the loop: a datagram arrives. -/
def VideoLoop.receive (s : VideoLoop) (datagram : List UInt8) :
    Option (VideoLoop × List DecodeCall) :=
  match parseChunk datagram with
  | none => some (s, [])
  | some ch => s.onChunk ch

/-- The loop over the datagrams that arrive; what it hands to the decoder. -/
def runVideoLoop (s : VideoLoop) (datagrams : List (List UInt8)) :
    Option (VideoLoop × List DecodeCall) :=
  OutputMachine.feed VideoLoop.receive s datagrams

/-! ## Reading back what was written -/

/-- The two bytes that are read, as one number. -/
theorem readUInt16Le_eq (buf : List UInt8) (offset : Nat) :
    readUInt16Le buf offset =
      LittleEndian.decode [buf.getD offset 0, buf.getD (offset + 1) 0] := by
  have hlo : (buf.getD offset 0).toNat < 2 ^ 8 := (buf.getD offset 0).toNat_lt
  unfold readUInt16Le LittleEndian.decode LittleEndian.decode LittleEndian.decode
  dsimp only
  rw [← Nat.shiftLeft_add_eq_or_of_lt hlo, Nat.shiftLeft_eq]
  omega

/-- Reading a number whose two bytes are there, the low one first. -/
theorem readUInt16Le_of_bytes {buf : List UInt8} {offset n : Nat} (hn : n < 65536)
    (hlo : buf.getD offset 0 = UInt8.ofNat n)
    (hhi : buf.getD (offset + 1) 0 = UInt8.ofNat (n / 256)) : readUInt16Le buf offset = n := by
  rw [readUInt16Le_eq, hlo, hhi]
  exact LittleEndian.decode_encode_of_lt (by omega : n < 256 ^ 2)
