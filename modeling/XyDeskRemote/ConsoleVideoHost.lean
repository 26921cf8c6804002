/-
# Console video: the host side

`ConsoleVideoCaptureThread` of the host agent grabs the screen, encodes it as a
JPEG and sends the JPEG to the subscriber as `XYV1` datagrams: a 16 byte header and
at most `kChunkPayload` bytes of the JPEG.  The grabbing and the encoding belong to
Windows; here a `Capture` is what they deliver, and `captureFrame` is the rest of
one round of the loop.
-/
import Mathlib.Data.List.Nodup
import XyDeskRemote.ByteBuffer
import XyDeskRemote.OutputMachine

open ByteBuffer

/-- Payload bytes of one datagram. -/
def kChunkPayload : Nat := 1360

/-- The largest JPEG the capture thread sends. -/
def maxJpgBytes : Nat := 512 * 1024

/-! ## Frames and their datagrams -/

/-- A frame the capture thread has decided to send: the header fields it writes and
the encoded picture, whose size it has checked. -/
structure VideoFrame where
  fid : UInt16
  w16 : UInt16
  h16 : UInt16
  flags : UInt8
  measuredFps : UInt8
  jpg : List UInt8
  jpg_pos : 0 < jpg.length
  jpg_le : jpg.length ≤ maxJpgBytes
  deriving DecidableEq

namespace VideoFrame

/-- `(totalBytes + kChunkPayload - 1) / kChunkPayload`, as a `uint16_t`. -/
def chunkCount (f : VideoFrame) : UInt16 :=
  UInt16.ofNat ((f.jpg.length + kChunkPayload - 1) / kChunkPayload)

/-- The 16 byte header of chunk `c`. -/
def header (f : VideoFrame) (c : Nat) : List UInt8 :=
  [0x58, 0x59, 0x56, 0x31] ++ LittleEndian.encode 2 f.fid.toNat ++ LittleEndian.encode 2 c ++
    LittleEndian.encode 2 f.chunkCount.toNat ++ LittleEndian.encode 2 f.w16.toNat ++
    LittleEndian.encode 2 f.h16.toNat ++ [f.flags, f.measuredFps]

/-- The datagram of chunk `c`: `sendto` gets the header and `rem` payload bytes. -/
def datagram (f : VideoFrame) (c : Nat) : List UInt8 :=
  let off := c * kChunkPayload
  let rem := min kChunkPayload (f.jpg.length - off)
  f.header c ++ (f.jpg.drop off).take rem

/-- The datagrams of the frame, in the order they are sent. -/
def datagrams (f : VideoFrame) : List (List UInt8) :=
  (List.range f.chunkCount.toNat).map f.datagram

theorem chunkCount_toNat (f : VideoFrame) :
    f.chunkCount.toNat = (f.jpg.length + kChunkPayload - 1) / kChunkPayload := by
  have hle := f.jpg_le
  rw [chunkCount, UInt16.toNat_ofNat']
  apply Nat.mod_eq_of_lt
  unfold maxJpgBytes at hle
  unfold kChunkPayload
  omega

/-- Every accepted picture has between 1 and 386 chunks. -/
theorem chunkCount_range (f : VideoFrame) :
    1 ≤ f.chunkCount.toNat ∧ f.chunkCount.toNat ≤ 386 := by
  have hpos := f.jpg_pos
  have hle := f.jpg_le
  rw [chunkCount_toNat]
  unfold maxJpgBytes at hle
  unfold kChunkPayload
  constructor <;> omega

/-- The payloads of the datagrams are the windows of the picture. -/
def chunks (f : VideoFrame) : List (List UInt8) := cut kChunkPayload f.jpg

theorem length_chunks (f : VideoFrame) : f.chunks.length = f.chunkCount.toNat := by
  rw [chunks, length_cut, chunkCount_toNat]

/-- **The chunks are the picture.** -/
theorem flatten_chunks (f : VideoFrame) : f.chunks.flatten = f.jpg :=
  flatten_cut (by decide) f.jpg

/-- A chunk is not empty and fits a datagram. -/
theorem chunks_length_bounds {f : VideoFrame} {c : Nat} {b : List UInt8}
    (h : f.chunks[c]? = some b) : 0 < b.length ∧ b.length ≤ kChunkPayload := by
  obtain ⟨hc, -⟩ := List.getElem?_eq_some_iff.1 h
  rw [chunks, length_cut] at hc
  rw [chunks, getElem?_cut hc] at h
  obtain rfl := Option.some.inj h
  refine ⟨window_length_pos hc, ?_⟩
  rw [List.length_take]
  exact Nat.min_le_left _ _

theorem datagram_eq {f : VideoFrame} {c : Nat} {b : List UInt8} (h : f.chunks[c]? = some b) :
    f.datagram c = f.header c ++ b := by
  obtain ⟨hc, -⟩ := List.getElem?_eq_some_iff.1 h
  rw [chunks, length_cut] at hc
  rw [chunks, getElem?_cut hc] at h
  obtain rfl := Option.some.inj h
  unfold datagram
  dsimp only
  rw [← List.length_drop, ← List.take_eq_take_min]

theorem mem_datagrams {f : VideoFrame} {d : List UInt8} :
    d ∈ f.datagrams ↔ ∃ c b, f.chunks[c]? = some b ∧ d = f.header c ++ b := by
  rw [datagrams, List.mem_map]
  constructor
  · rintro ⟨c, hc, rfl⟩
    rw [List.mem_range, ← length_chunks] at hc
    exact ⟨c, f.chunks[c], List.getElem?_eq_getElem hc,
      datagram_eq (List.getElem?_eq_getElem hc)⟩
  · rintro ⟨c, b, hb, rfl⟩
    obtain ⟨hc, -⟩ := List.getElem?_eq_some_iff.1 hb
    rw [length_chunks] at hc
    exact ⟨c, List.mem_range.2 hc, datagram_eq hb⟩

@[simp] theorem length_header (f : VideoFrame) (c : Nat) : (f.header c).length = 16 := by
  simp [header]

end VideoFrame

/-! ## The capture loop -/

/-- The local variables of `ConsoleVideoCaptureThread` that live across frames. -/
structure CaptureState where
  frameId : UInt16 := 0
  fpsWindowStart : UInt64
  framesInWindow : UInt32 := 0
  measuredFps : UInt8 := 60

/-- What Windows delivers in one round: the encoded picture (`GlobalLock`,
`GlobalSize`), the screen size, whether the session is the console, and the tick
count at which the frame is counted. -/
structure Capture where
  jpg : List UInt8
  srcW : Nat
  srcH : Nat
  isConsole : Bool
  now : UInt64

/-- Count the frame and, once a second, renew the measured rate. -/
def CaptureState.countFrame (s : CaptureState) (now : UInt64) : CaptureState :=
  let framesInWindow := s.framesInWindow + 1
  if now - s.fpsWindowStart ≥ 1000 then
    { s with
      measuredFps := (min 120 framesInWindow).toUInt8
      framesInWindow := 0
      fpsWindowStart := now }
  else { s with framesInWindow := framesInWindow }

/-- One round of the loop after the picture is encoded: a picture of an accepted
size takes the next frame id and is sent. -/
def captureFrame (s : CaptureState) (x : Capture) :
    Option (CaptureState × List VideoFrame) :=
  if h : 0 < x.jpg.length ∧ x.jpg.length ≤ maxJpgBytes then
    let fid := s.frameId + 1
    let s := { s with frameId := fid }.countFrame x.now
    some (s, [{
      fid := fid
      w16 := UInt16.ofNat x.srcW
      h16 := UInt16.ofNat x.srcH
      flags := (if x.isConsole then 0x01 else 0x00) ||| 0x02
      measuredFps := s.measuredFps
      jpg := x.jpg
      jpg_pos := h.1
      jpg_le := h.2 }])
  else some (s, [])

/-- A picture of an accepted size is sent, as it is. -/
theorem captureFrame_accepted {x : Capture} (hpos : 0 < x.jpg.length)
    (hle : x.jpg.length ≤ maxJpgBytes) (s : CaptureState) :
    ∃ t f, captureFrame s x = some (t, [f]) ∧ f.jpg = x.jpg ∧ f.fid = s.frameId + 1 :=
  ⟨_, _, dif_pos ⟨hpos, hle⟩, rfl, rfl⟩
