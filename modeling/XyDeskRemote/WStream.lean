/-
# WinPR streams

`wStream`: a buffer with a position in it, which grows when a writer asks for room.  The
functions of `stream.c` and `stream.h` that the encoders use, over lists of bytes.

A write that does not fit is a failed assertion (`none`).  `Written s bs` is the view an encoder
has of a stream: the bytes in front of the position are `bs`.
-/
import XyDeskRemote.ByteBuffer

open ByteBuffer List

/-- `wStream`; the capacity is the length of the buffer. -/
structure WStream where
  buffer : List UInt8
  position : ℕ := 0
  deriving DecidableEq

namespace WStream

/-- `capacity`. -/
def capacity (s : WStream) : ℕ := s.buffer.length

/-- `Stream_New` with a buffer of its own, which is zeroed. -/
def new (size : ℕ) : WStream := { buffer := replicate size 0 }

/-- `Stream_EnsureCapacity`, for sizes whose sum is no overflow of `size_t`. -/
def ensureCapacity (s : WStream) (size : ℕ) : WStream :=
  if s.capacity ≥ size then s
  else
    let newCapacity := size + 128 - size % 128
    { s with buffer := s.buffer ++ replicate (newCapacity - s.capacity) 0 }

/-- `Stream_EnsureRemainingCapacity`. -/
def ensureRemainingCapacity (s : WStream) (size : ℕ) : WStream :=
  if s.position + size > s.capacity then s.ensureCapacity (s.capacity + size) else s

/-- `Stream_Write`. -/
def write (s : WStream) (bs : List UInt8) : Option WStream :=
  if s.position + bs.length ≤ s.capacity then
    some { buffer := overwrite s.buffer s.position bs
           position := s.position + bs.length }
  else none

/-- `Stream_Write_UINT8`. -/
def writeUint8 (s : WStream) (v : ℕ) : Option WStream := s.write (LittleEndian.encode 1 v)

/-- `Stream_Write_UINT16`. -/
def writeUint16 (s : WStream) (v : ℕ) : Option WStream := s.write (LittleEndian.encode 2 v)

/-- `Stream_Write_UINT32`. -/
def writeUint32 (s : WStream) (v : ℕ) : Option WStream := s.write (LittleEndian.encode 4 v)

/-- `Stream_Seek`. -/
def seek (s : WStream) (offset : ℕ) : Option WStream :=
  if s.position + offset ≤ s.capacity then some { s with position := s.position + offset }
  else none

/-- `Stream_SetPosition`. -/
def setPosition (s : WStream) (position : ℕ) : Option WStream :=
  if position > s.capacity then none else some { s with position }

/-- The bytes in front of the position. -/
def written (s : WStream) : List UInt8 := s.buffer.take s.position

/-- `bs` has been written, and there is room for `room` more bytes. -/
structure Written (s : WStream) (bs : List UInt8) (room : ℕ) : Prop where
  position_eq : s.position = bs.length
  buffer_eq : ∃ rest, s.buffer = bs ++ rest ∧ room ≤ rest.length

variable {s : WStream} {bs cs : List UInt8} {room n : ℕ}

theorem Written.mono (h : Written s bs room) (hn : n ≤ room) : Written s bs n := by
  obtain ⟨hposition, rest, hbuffer, hroom⟩ := h
  exact ⟨hposition, rest, hbuffer, hn.trans hroom⟩

theorem Written.written_eq (h : Written s bs room) : s.written = bs := by
  obtain ⟨hposition, rest, hbuffer, -⟩ := h
  rw [written, hposition, hbuffer, take_left]

theorem written_new (size : ℕ) : Written (new size) [] size :=
  ⟨rfl, replicate size 0, rfl, (length_replicate).ge⟩

theorem Written.ensureRemainingCapacity (h : Written s bs room) (n : ℕ) :
    Written (s.ensureRemainingCapacity n) bs n := by
  obtain ⟨hposition, rest, hbuffer, -⟩ := h
  have hcapacity : s.capacity = bs.length + rest.length := by
    rw [capacity, hbuffer, length_append]
  rw [WStream.ensureRemainingCapacity]
  split
  next hfull =>
    rw [ensureCapacity]
    split
    next hlarge => exact ⟨hposition, rest, hbuffer, by omega⟩
    next hsmall =>
      refine ⟨hposition, rest ++ replicate
        (s.capacity + n + 128 - (s.capacity + n) % 128 - s.capacity) 0, ?_, ?_⟩
      · show s.buffer ++ _ = _
        rw [hbuffer, append_assoc]
      · rw [length_append, length_replicate]
        have hmod := Nat.mod_lt (s.capacity + n) (show 0 < 128 by omega)
        omega
  next hroom => exact ⟨hposition, rest, hbuffer, by omega⟩

theorem Written.write (h : Written s bs room) (cs : List UInt8) (hfits : cs.length ≤ room) :
    ∃ t, s.write cs = some t ∧ Written t (bs ++ cs) (room - cs.length) := by
  obtain ⟨hposition, rest, hbuffer, hroom⟩ := h
  have hcapacity : s.capacity = bs.length + rest.length := by
    rw [capacity, hbuffer, length_append]
  have hover : overwrite s.buffer s.position cs =
      bs ++ (cs ++ rest.drop cs.length) := by
    have hsplit : s.buffer = bs ++ (rest.take cs.length ++ rest.drop cs.length) := by
      rw [take_append_drop, hbuffer]
    rw [hsplit, hposition]
    refine overwrite_append ?_
    rw [length_take]
    omega
  refine ⟨_, if_pos (by omega), ?_, rest.drop cs.length, ?_, ?_⟩
  · show s.position + cs.length = _
    rw [hposition, length_append]
  · show overwrite s.buffer s.position cs = _
    rw [hover, append_assoc]
  · rw [length_drop]
    omega

/-- Bytes that are passed over hold something. -/
theorem Written.seek (h : Written s bs room) (hfits : n ≤ room) :
    ∃ t gap, s.seek n = some t ∧ gap.length = n ∧ Written t (bs ++ gap) (room - n) := by
  obtain ⟨hposition, rest, hbuffer, hroom⟩ := h
  have hcapacity : s.capacity = bs.length + rest.length := by
    rw [capacity, hbuffer, length_append]
  have hgap : (rest.take n).length = n := by
    rw [length_take]
    omega
  refine ⟨_, rest.take n, if_pos (by omega), hgap, ?_, rest.drop n, ?_, ?_⟩
  · show s.position + n = _
    rw [hposition, length_append, hgap]
  · show s.buffer = _
    rw [hbuffer, append_assoc, take_append_drop]
  · rw [length_drop]
    omega

/-- Going back to a gap, filling it, and going on where the stream was left. -/
theorem Written.fill {front gap back : List UInt8} (h : Written s (front ++ gap ++ back) room)
    (hlength : cs.length = gap.length) :
    ∃ t u, s.setPosition front.length = some t ∧ t.write cs = some u ∧
      ∃ v, u.setPosition (front ++ cs ++ back).length = some v ∧
        Written v (front ++ cs ++ back) room := by
  obtain ⟨hposition, rest, hbuffer, hroom⟩ := h
  have hbuffer' : s.buffer = front ++ (gap ++ (back ++ rest)) := by
    rw [hbuffer]
    simp only [append_assoc]
  have hcapacity : s.capacity = front.length + (gap.length + (back.length + rest.length)) := by
    rw [capacity, hbuffer']
    simp only [length_append]
  have hover : overwrite (front ++ (gap ++ (back ++ rest))) front.length cs =
      front ++ (cs ++ (back ++ rest)) := overwrite_append hlength
  have hlength' : (front ++ cs ++ back).length = front.length + gap.length + back.length := by
    rw [length_append, length_append, hlength]
  have hcapacity' : (overwrite s.buffer front.length cs).length = s.capacity := by
    rw [length_overwrite]
    · rfl
    · show front.length + cs.length ≤ s.capacity
      omega
  refine ⟨_, _, if_neg (by omega), if_pos ?_, _, if_neg ?_, rfl, rest, ?_, hroom⟩
  · show front.length + cs.length ≤ s.capacity
    omega
  · show ¬ _ > (overwrite s.buffer front.length cs).length
    omega
  · show overwrite s.buffer front.length cs = _
    rw [hbuffer', hover]
    simp only [append_assoc]

end WStream
