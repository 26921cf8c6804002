/-
# RDP8 segments

`zgfx.c`.  The compressor does not compress: it cuts its input into segments of at most 65535
bytes and copies them.  The decompressor reads any stream, compressed or not, and keeps the
last 2500000 bytes of what it wrote in a ring, which matches refer to.
-/
import XyDeskRemote.HistoryRing
import XyDeskRemote.LabelledRun
import XyDeskRemote.WStream

open LabelledRun LittleEndian ByteBuffer List Option

/-! ## Tokens -/

/-- `ZGFX_TOKEN`. -/
structure ZgfxToken where
  prefixLength : ℕ
  prefixCode : UInt32
  valueBits : ℕ
  tokenType : ℕ
  valueBase : UInt32

namespace Zgfx

/-- `ZGFX_TOKEN_TABLE`, without the zero entry at its end. -/
def tokenTable : List ZgfxToken :=
  [⟨1, 0, 8, 0, 0⟩, ⟨5, 17, 5, 1, 0⟩, ⟨5, 18, 7, 1, 32⟩, ⟨5, 19, 9, 1, 160⟩,
    ⟨5, 20, 10, 1, 672⟩, ⟨5, 21, 12, 1, 1696⟩, ⟨5, 24, 0, 0, 0x00⟩, ⟨5, 25, 0, 0, 0x01⟩,
    ⟨6, 44, 14, 1, 5792⟩, ⟨6, 45, 15, 1, 22176⟩, ⟨6, 52, 0, 0, 0x02⟩, ⟨6, 53, 0, 0, 0x03⟩,
    ⟨6, 54, 0, 0, 0xFF⟩, ⟨7, 92, 18, 1, 54944⟩, ⟨7, 93, 20, 1, 317088⟩, ⟨7, 110, 0, 0, 0x04⟩,
    ⟨7, 111, 0, 0, 0x05⟩, ⟨7, 112, 0, 0, 0x06⟩, ⟨7, 113, 0, 0, 0x07⟩, ⟨7, 114, 0, 0, 0x08⟩,
    ⟨7, 115, 0, 0, 0x09⟩, ⟨7, 116, 0, 0, 0x0A⟩, ⟨7, 117, 0, 0, 0x0B⟩, ⟨7, 118, 0, 0, 0x3A⟩,
    ⟨7, 119, 0, 0, 0x3B⟩, ⟨7, 120, 0, 0, 0x3C⟩, ⟨7, 121, 0, 0, 0x3D⟩, ⟨7, 122, 0, 0, 0x3E⟩,
    ⟨7, 123, 0, 0, 0x3F⟩, ⟨7, 124, 0, 0, 0x40⟩, ⟨7, 125, 0, 0, 0x80⟩, ⟨8, 188, 20, 1, 1365664⟩,
    ⟨8, 189, 21, 1, 2414240⟩, ⟨8, 252, 0, 0, 0x0C⟩, ⟨8, 253, 0, 0, 0x38⟩, ⟨8, 254, 0, 0, 0x39⟩,
    ⟨8, 255, 0, 0, 0x66⟩, ⟨9, 380, 22, 1, 4511392⟩, ⟨9, 381, 23, 1, 8705696⟩,
    ⟨9, 382, 24, 1, 17094304⟩]

/-- The size of the history. -/
def historyBufferSize : ℕ := 2500000

/-- The size of the output. -/
def outputBufferSize : ℕ := 65536

/-- `ZGFX_SEGMENTED_MAXSIZE`. -/
def segmentedMaxsize : ℕ := 65535

/-! ## Reading bits -/

/-- The bits of a compressed segment: the bytes from `pbInputCurrent` to `pbInputEnd`, and the
fields of the context for those read. -/
structure Input where
  input : List UInt8
  bits : UInt32 := 0
  cBitsRemaining : UInt32
  bitsCurrent : UInt32 := 0
  cBitsCurrent : ℕ := 0

/-- The loop of `zgfx_GetBits`; there are zeros behind the end. -/
def fetch (nbits : ℕ) (z : Input) : Input :=
  if z.cBitsCurrent < nbits then
    fetch nbits
      { z with
        input := z.input.tail
        bitsCurrent := z.bitsCurrent <<< 8 + (z.input.headD 0).toUInt32
        cBitsCurrent := z.cBitsCurrent + 8 }
  else z
termination_by nbits - z.cBitsCurrent

/-- `zgfx_GetBits`. -/
def getBits (nbits : ℕ) (z : Input) : Input :=
  let z := fetch nbits z
  let cBitsCurrent := z.cBitsCurrent - nbits
  { z with
    cBitsRemaining := z.cBitsRemaining - UInt32.ofNat nbits
    cBitsCurrent
    bits := z.bitsCurrent >>> UInt32.ofNat cBitsCurrent
    bitsCurrent := z.bitsCurrent &&& (1 <<< UInt32.ofNat cBitsCurrent - 1) }

/-- The prefix grows to `haveBits` bits. -/
def extendPrefix (z : Input) (inPrefix : UInt32) : ℕ → Input × UInt32
  | 0 => (z, inPrefix)
  | missing + 1 =>
    let z := getBits 1 z
    extendPrefix z (inPrefix <<< 1 + z.bits) missing

/-- The search of the table for the prefix at hand. -/
def findToken : List ZgfxToken → Input → ℕ → UInt32 → Input × Option ZgfxToken
  | [], z, _, _ => (z, none)
  | token :: tokens, z, haveBits, inPrefix =>
    let r := extendPrefix z inPrefix (token.prefixLength - haveBits)
    if r.2 = token.prefixCode then (r.1, some token)
    else findToken tokens r.1 (max haveBits token.prefixLength) r.2

/-- The length of a match that starts with a one bit: a number in unary, then its bits.  The
loop is cut off after `fuel` rounds. -/
def extraLoop : ℕ → Input → UInt32 → ℕ → Option (Input × UInt32)
  | 0, _, _, _ => none
  | fuel + 1, z, count, extra =>
    if z.bits = 1 then extraLoop fuel (getBits 1 z) (count * 2) (extra + 1)
    else
      let z := getBits extra z
      some (z, count + z.bits)

/-- The length of a match. -/
def matchCount (fuel : ℕ) (z : Input) : Option (Input × UInt32) :=
  let z := getBits 1 z
  if z.bits = 0 then some (z, 3) else extraLoop fuel (getBits 1 z) 4 2

/-! ## Decompressing a segment -/

/-- The rest of a match that is longer than its distance: what is there is copied again and
again, twice as much each time. -/
def repeatMatch (dst : List UInt8) (valid bytesLeft : ℕ) : List UInt8 :=
  if bytesLeft = 0 ∨ valid = 0 then dst
  else
    let bytes := min valid bytesLeft
    repeatMatch (dst ++ dst.take bytes) (valid * 2) (bytesLeft - bytes)
termination_by bytesLeft

/-- `zgfx_history_buffer_ring_read`. -/
def ringRead (ring : HistoryRing UInt8) (offset count : ℕ) : List UInt8 :=
  let index := (ring.index + ring.size + 2 ^ 32 - offset) % 2 ^ 32 % ring.size
  let bytes := min count offset
  let first :=
    if index + bytes ≤ ring.size then (ring.buffer.drop index).take bytes
    else
      let front := ring.size - index
      ring.buffer.drop index ++ ring.buffer.take (bytes - front)
  repeatMatch first bytes (count - bytes)

/-- A segment on its way: the history, the input and the bytes decompressed so far, which are
those of the output buffer. -/
structure Segment where
  ring : HistoryRing UInt8
  input : Input
  output : List UInt8 := []

/-- Bytes are appended to the output and to the history. -/
def Segment.emit (s : Segment) (bytes : List UInt8) : Segment :=
  { s with ring := s.ring.write bytes, output := s.output ++ bytes }

/-- A literal.  One that is too much for the output is in the history already. -/
def literal (token : ZgfxToken) (s : Segment) : Segment × Bool :=
  let input := getBits token.valueBits s.input
  let c := (token.valueBase + input.bits).toUInt8
  ({ ring := s.ring.put c, input, output := s.output ++ [c] },
    s.output.length < outputBufferSize)

/-- A match. -/
def copyMatch (fuel distance : ℕ) (s : Segment) : Option (Segment × Bool) :=
  (matchCount fuel s.input).map fun (input, count) =>
    let count := count.toNat
    let s := { s with input }
    if count > outputBufferSize - s.output.length then (s, false)
    else (s.emit (ringRead s.ring distance count), true)

/-- Bytes that are not encoded. -/
def unencoded (s : Segment) : Segment × Bool :=
  let z := getBits 15 s.input
  let count := z.bits
  let z := { z with
    cBitsRemaining := z.cBitsRemaining - UInt32.ofNat z.cBitsCurrent
    cBitsCurrent := 0
    bitsCurrent := 0 }
  let s := { s with input := z }
  if count.toNat > outputBufferSize - s.output.length ∨ count > z.cBitsRemaining / 8 ∨
      count.toNat > z.input.length then (s, false)
  else
    ({ s.emit (z.input.take count.toNat) with
        input := { z with
          input := z.input.drop count.toNat
          cBitsRemaining := z.cBitsRemaining - 8 * count } }, true)

/-- A round of the loop over the tokens; the loop in it is cut off by `fuel`. -/
def decodeToken (fuel : ℕ) (s : Segment) : Option (Segment × Bool) :=
  match findToken tokenTable s.input 0 0 with
  | (input, none) => some ({ s with input }, true)
  | (input, some token) =>
    let s := { s with input }
    if token.tokenType = 0 then some (literal token s)
    else
      let input := getBits token.valueBits s.input
      let distance := token.valueBase + input.bits
      let s := { s with input }
      if distance ≠ 0 then copyMatch fuel distance.toNat s else some (unencoded s)

/-- The loop over the tokens, of at most `fuel` rounds. -/
def decodeTokens : ℕ → Segment → Option (Segment × Bool)
  | fuel, s =>
    if s.input.cBitsRemaining = 0 then some (s, true)
    else
      match fuel with
      | 0 => none
      | fuel + 1 =>
        (decodeToken fuel s).bind fun r => if r.2 then decodeTokens fuel r.1 else some r

/-- What comes of a segment: the history, the bytes decompressed, and whether it is good. -/
structure SegmentResult where
  ring : HistoryRing UInt8
  output : List UInt8 := []
  ok : Bool := false

/-- `zgfx_decompress_segment` at the start of `src`. -/
def decompressSegment (fuel : ℕ) (ring : HistoryRing UInt8) (src : List UInt8)
    (segmentSize : ℕ) : Option SegmentResult :=
  if segmentSize < 2 ∨ src.length < segmentSize then some { ring }
  else
    let flags := src.headD 0
    let segment := (src.take segmentSize).tail
    if flags &&& 0x20 = 0 then
      some { ring := ring.write segment, output := segment
             ok := segment.length ≤ outputBufferSize }
    else
      let last := segment.getLastD 0
      let bits := 8 * (segment.length - 1)
      if bits ≥ 2 ^ 32 ∨ bits < last.toNat then some { ring }
      else
        (decodeTokens fuel
            { ring
              input := { input := segment.dropLast
                         cBitsRemaining := UInt32.ofNat (bits - last.toNat) } }).map
          fun r => { ring := r.1.ring, output := r.1.output, ok := r.2 }

/-- What comes of a stream: the history, all bytes decompressed on the way, and the result. -/
structure StreamResult where
  ring : HistoryRing UInt8
  decompressed : List UInt8 := []
  result : Option (List UInt8) := none

/-- The loop over the segments; `used` is what they gave so far.  Behind each of them stands
`zgfx_append`. -/
def decompressSegments (fuel uncompressedSize : ℕ) : ℕ → HistoryRing UInt8 → List UInt8 →
    List UInt8 → Option StreamResult
  | 0, ring, used, _ =>
    some { ring, decompressed := used
           result := if used.length = uncompressedSize then some used else none }
  | segments + 1, ring, used, src =>
    if src.length < 4 then some { ring, decompressed := used }
    else
      let segmentSize := decode (src.take 4)
      (decompressSegment fuel ring (src.drop 4) segmentSize).bind fun r =>
        if r.ok ∧ r.output.length ≤ 2 ^ 32 - 1 - used.length ∧
            used.length + r.output.length ≤ uncompressedSize then
          decompressSegments fuel uncompressedSize segments r.ring (used ++ r.output)
            (src.drop (4 + segmentSize))
        else some { ring := r.ring, decompressed := used ++ r.output }

/-- `zgfx_decompress`. -/
def decompress (fuel : ℕ) (ring : HistoryRing UInt8) (src : List UInt8) : Option StreamResult :=
  match src with
  | [] => some { ring }
  | descriptor :: rest =>
    if descriptor = 0xE0 then
      (decompressSegment fuel ring rest rest.length).map fun r =>
        { ring := r.ring, decompressed := r.output
          result := if r.ok then some r.output else none }
    else if descriptor = 0xE1 then
      if rest.length < 6 then some { ring }
      else
        decompressSegments fuel (decode ((rest.drop 2).take 4))
          (decode (rest.take 2)) ring [] (rest.drop 6)
    else some { ring }

/-! ## Compressing -/

/-- `zgfx_compress_segment`, with the flags it leaves. -/
def compressSegment (s : WStream) (src : List UInt8) (flags : UInt32) :
    Option (WStream × UInt32) := do
  let s := s.ensureRemainingCapacity (src.length + 1)
  let flags := flags ||| 0x04
  if flags > 0xFF then none
  let s ← s.writeUint8 flags.toNat
  let s ← s.write src
  return (s, flags)

/-- What comes in front of the first fragment: the descriptor, and in front of many fragments
room for their number, and the size of them all.  The result has the position of the number. -/
def writeDescriptor (s : WStream) (uncompressedSize : ℕ) (last : Bool) :
    Option (WStream × ℕ) := do
  let s ← s.writeUint8 (if last then 0xE0 else 0xE1)
  if last then return (s, 0)
  let posSegmentCount := s.position
  let s ← s.seek 2
  let s ← s.writeUint32 uncompressedSize
  return (s, posSegmentCount)

/-- The segment of a fragment, with its size in front of it when there are many. -/
def writeFragment (s : WStream) (src : List UInt8) (flags : UInt32) (sized : Bool) :
    Option (WStream × UInt32) := do
  if ¬ sized then compressSegment s src flags
  else
    let posDstSize := s.position
    let s ← s.seek 4
    let posDataStart := s.position
    let (s, flags) ← compressSegment s src flags
    let dstSize := s.position - posDataStart
    if dstSize ≥ 2 ^ 32 then none
    let s ← s.setPosition posDstSize
    let s ← s.writeUint32 dstSize
    let s ← s.setPosition (posDataStart + dstSize)
    return (s, flags)

/-- The loop of `zgfx_compress_to_stream` over the fragments: the stream, their number, the
position of the number and the flags after it. -/
def compressFragments (uncompressedSize : ℕ) (s : WStream) (fragment : ℕ) (src : List UInt8)
    (posSegmentCount : ℕ) (flags : UInt32) : Option (WStream × ℕ × ℕ × UInt32) :=
  if _hgo : src = [] ∧ fragment ≠ 0 then some (s, fragment, posSegmentCount, flags)
  else
    let rest := src.drop segmentedMaxsize
    let s := s.ensureRemainingCapacity 12
    (if fragment = 0 then writeDescriptor s uncompressedSize (rest = []) else
      some (s, posSegmentCount)).bind fun (s, posSegmentCount) =>
      (writeFragment s (src.take segmentedMaxsize) flags (fragment > 0 ∨ rest ≠ [])).bind
        fun (s, flags) =>
          compressFragments uncompressedSize s (fragment + 1) rest posSegmentCount flags
termination_by src.length + (1 - fragment)
decreasing_by
  have hpos : fragment ≠ 0 → 0 < src.length :=
    fun hf => length_pos_of_ne_nil fun hs => _hgo ⟨hs, hf⟩
  rw [length_drop, segmentedMaxsize]
  omega

/-- `zgfx_compress_to_stream`. -/
def compressToStream (s : WStream) (src : List UInt8) (flags : UInt32) :
    Option (WStream × UInt32) := do
  let (s, fragment, posSegmentCount, flags) ← compressFragments src.length s 0 src 0 flags
  if posSegmentCount = 0 then return (s, flags)
  let length := s.position
  let s ← s.setPosition posSegmentCount
  if fragment ≥ 2 ^ 16 then none
  let s ← s.writeUint16 fragment
  let s ← s.setPosition length
  return (s, flags)

/-- `zgfx_compress`, with the flags it leaves. -/
def compress (src : List UInt8) (flags : UInt32) : Option (List UInt8 × UInt32) := do
  if src = [] then none
  let (s, flags) ← compressToStream (WStream.new src.length) src flags
  if s.position ≥ 2 ^ 32 then none
  return (s.written, flags)

/-! ## The bytes the compressor writes -/

/-- A segment of a single fragment. -/
def segmentBytes (src : List UInt8) : List UInt8 := 0x04 :: src

/-- A segment of many, with its size. -/
def fragmentBytes (src : List UInt8) : List UInt8 :=
  encode 4 (src.length + 1) ++ segmentBytes src

/-- The whole stream. -/
def streamBytes (src : List UInt8) : List UInt8 :=
  if src.length ≤ segmentedMaxsize then 0xE0 :: segmentBytes src
  else
    0xE1 :: (encode 2 (cut segmentedMaxsize src).length ++
      (encode 4 src.length ++
        (cut segmentedMaxsize src).flatMap fragmentBytes))

variable {s : WStream} {out src : List UInt8} {room : ℕ} {flags : UInt32}

/-- Flags before the first segment and after it. -/
def Plain (flags : UInt32) : Prop := flags = 0 ∨ flags = 4

theorem Plain.or (h : Plain flags) : flags ||| 0x04 = 4 := by
  rcases h with rfl | rfl
  · rfl
  · rfl

theorem compressSegment_written (h : s.Written out room) (src : List UInt8)
    (hflags : Plain flags) :
    ∃ t, compressSegment s src flags = some (t, 4) ∧ t.Written (out ++ segmentBytes src) 0 := by
  have hroom := h.ensureRemainingCapacity (src.length + 1)
  obtain ⟨t, ht, hwritten⟩ := hroom.write (encode 1 4)
    (by rw [length_encode]; omega)
  obtain ⟨u, hu, hwritten'⟩ := hwritten.write src
    (by rw [length_encode]; omega)
  refine ⟨u, ?_, ?_⟩
  · rw [compressSegment, hflags.or]
    show (WStream.write _ (encode 1 4)).bind _ = _
    rw [ht]
    show (WStream.write t src).bind _ = _
    rw [hu]
    rfl
  · rw [segmentBytes, ← singleton_append, ← append_assoc]
    exact hwritten'.mono (Nat.zero_le _)

theorem writeFragment_written (src : List UInt8) (h : s.Written out room) (hroom : 4 ≤ room)
    (hflags : Plain flags) (hsrc : src.length ≤ segmentedMaxsize) :
    ∃ t, writeFragment s src flags true = some (t, 4) ∧
      t.Written (out ++ fragmentBytes src) 0 := by
  obtain ⟨t, gap, ht, hgap, hwritten⟩ := h.seek hroom
  obtain ⟨u, hu, hwritten'⟩ := compressSegment_written hwritten src hflags
  have hlength : (encode 4 (src.length + 1)).length = gap.length := by
    rw [length_encode, hgap]
  obtain ⟨v, w, hv, hw, x, hx, hfilled⟩ := hwritten'.fill hlength
  have hsegment : (segmentBytes src).length = src.length + 1 := rfl
  have hsize : u.position - t.position = src.length + 1 := by
    rw [hwritten'.position_eq, hwritten.position_eq, length_append, hsegment]
    omega
  have hend : t.position + (src.length + 1) =
      (out ++ encode 4 (src.length + 1) ++ segmentBytes src).length := by
    rw [hwritten.position_eq, length_append, length_append, length_append, hgap,
      hsegment, length_encode]
  have hsmall : ¬ (src.length + 1 ≥ 2 ^ 32) := by
    rw [segmentedMaxsize] at hsrc
    omega
  refine ⟨x, ?_, ?_⟩
  · rw [writeFragment]
    show (s.seek 4).bind _ = _
    rw [ht]
    show (compressSegment t src flags).bind _ = _
    rw [hu]
    dsimp only [bind_some]
    rw [hsize, if_neg hsmall, h.position_eq]
    show (u.setPosition out.length).bind _ = _
    rw [hv]
    show (v.write (encode 4 (src.length + 1))).bind _ = _
    rw [hw]
    show (w.setPosition (t.position + (src.length + 1))).bind _ = _
    rw [hend, hx]
    rfl
  · rw [fragmentBytes, ← append_assoc]
    exact hfilled

theorem compressFragments_written (n pos : ℕ) (src : List UInt8) (s : WStream)
    {out : List UInt8} (h : s.Written out 0) {fragment : ℕ} (hfragment : fragment ≠ 0) :
    ∃ t, compressFragments n s fragment src pos 4 =
        some (t, fragment + (cut segmentedMaxsize src).length, pos, 4) ∧
      t.Written (out ++ (cut segmentedMaxsize src).flatMap fragmentBytes) 0 := by
  induction hn : src.length using Nat.strong_induction_on generalizing src s out fragment with
  | h k ih =>
    rw [compressFragments]
    rcases eq_or_ne src [] with rfl | hne
    · rw [dif_pos ⟨rfl, hfragment⟩, cut_nil (by decide)]
      exact ⟨s, rfl, by rwa [flatMap_nil, append_nil]⟩
    have hpos := length_pos_of_ne_nil hne
    have hrest : (src.drop segmentedMaxsize).length < k := by
      rw [length_drop, segmentedMaxsize]
      omega
    have htake : (src.take segmentedMaxsize).length ≤ segmentedMaxsize :=
      List.length_take_le _ _
    obtain ⟨t, ht, hwritten⟩ := writeFragment_written _ (h.ensureRemainingCapacity 12) (by omega)
      (.inr rfl) htake
    obtain ⟨u, hu, hall⟩ := ih _ hrest (src.drop segmentedMaxsize) t hwritten
      (Nat.succ_ne_zero fragment) rfl
    have hsized : decide (fragment > 0 ∨ src.drop segmentedMaxsize ≠ []) = true :=
      decide_eq_true (.inl (Nat.pos_of_ne_zero hfragment))
    refine ⟨u, ?_, ?_⟩
    · rw [dif_neg (fun hboth => hne hboth.1)]
      dsimp only
      rw [if_neg hfragment, bind_some]
      dsimp only
      rw [hsized, ht]
      dsimp only [bind_some]
      rw [hu, cut_of_ne_nil (by decide) hne, length_cons]
      congr 3
      omega
    · rw [cut_of_ne_nil (by decide) hne, flatMap_cons, ← append_assoc]
      exact hall

theorem compressFragments_single (h : s.Written [] room) (hsrc : src.length ≤ segmentedMaxsize)
    (hflags : Plain flags) :
    ∃ t, compressFragments src.length s 0 src 0 flags = some (t, 1, 0, 4) ∧
      t.Written (0xE0 :: segmentBytes src) 0 := by
  have hrest : src.drop segmentedMaxsize = [] := drop_of_length_le hsrc
  have htake : src.take segmentedMaxsize = src := take_of_length_le hsrc
  obtain ⟨t, ht, hwritten⟩ := (h.ensureRemainingCapacity 12).write [0xE0] (by simp)
  obtain ⟨u, hu, hwritten'⟩ := compressSegment_written hwritten src hflags
  refine ⟨u, ?_, hwritten'⟩
  have hdescriptor : writeDescriptor (s.ensureRemainingCapacity 12) src.length true =
      some (t, 0) := by
    show (WStream.write _ [0xE0]).bind _ = _
    rw [ht]
    rfl
  rw [compressFragments, dif_neg (fun hboth => hboth.2 rfl), hrest, htake]
  dsimp only
  rw [if_pos rfl, decide_eq_true (rfl : ([] : List UInt8) = []), hdescriptor]
  dsimp only [bind_some]
  have hunsized : decide (0 > 0 ∨ ([] : List UInt8) ≠ []) = false := by decide
  rw [hunsized, writeFragment, if_pos (by decide), hu]
  dsimp only [bind_some]
  rw [compressFragments, dif_pos ⟨rfl, by decide⟩]

theorem compressFragments_many (h : s.Written [] room) (hsrc : segmentedMaxsize < src.length)
    (hflags : Plain flags) :
    ∃ t gap, compressFragments src.length s 0 src 0 flags =
        some (t, (cut segmentedMaxsize src).length, 1, 4) ∧ gap.length = 2 ∧
      t.Written ([0xE1] ++ gap ++ (encode 4 src.length ++
        (cut segmentedMaxsize src).flatMap fragmentBytes)) 0 := by
  have hne : src ≠ [] := ne_nil_of_length_pos (Nat.zero_lt_of_lt hsrc)
  have hrest : src.drop segmentedMaxsize ≠ [] := by
    refine ne_nil_of_length_pos ?_
    rw [length_drop]
    omega
  obtain ⟨t, ht, hwritten⟩ := (h.ensureRemainingCapacity 12).write [0xE1] (by simp)
  have hposition : t.position = 1 := hwritten.position_eq
  obtain ⟨u, gap, hu, hgap, hwritten⟩ := hwritten.seek (n := 2) (by decide)
  obtain ⟨v, hv, hwritten⟩ := hwritten.write (encode 4 src.length)
    (by rw [length_encode]; decide)
  obtain ⟨w, hw, hwritten⟩ := writeFragment_written (src.take segmentedMaxsize) hwritten
    (by rw [length_encode]; decide) hflags (List.length_take_le _ _)
  obtain ⟨x, hx, hall⟩ := compressFragments_written src.length 1
    (src.drop segmentedMaxsize) w hwritten Nat.one_ne_zero
  have hdescriptor : writeDescriptor (s.ensureRemainingCapacity 12) src.length false =
      some (v, 1) := by
    show (WStream.write _ [0xE1]).bind _ = _
    rw [ht]
    show (t.seek 2).bind _ = _
    rw [hu]
    show (u.write (encode 4 src.length)).bind _ = _
    rw [hv, hposition]
    rfl
  refine ⟨x, gap, ?_, hgap, ?_⟩
  · have hsized : decide (0 > 0 ∨ src.drop segmentedMaxsize ≠ []) = true :=
      decide_eq_true (.inr hrest)
    rw [compressFragments, dif_neg (fun hboth => hne hboth.1)]
    dsimp only
    rw [if_pos rfl, decide_eq_false hrest, hdescriptor]
    dsimp only [bind_some]
    rw [hsized, hw]
    dsimp only [bind_some]
    rw [hx, cut_of_ne_nil (by decide) hne, length_cons, Nat.add_comm 1]
  · rw [cut_of_ne_nil (by decide) hne, flatMap_cons]
    simpa only [nil_append, append_assoc] using hall

/-- The number of segments is filled in behind the last one. -/
theorem compressToStream_many {t : WStream} {fragment : ℕ}
    (ht : compressFragments src.length s 0 src 0 flags = some (t, fragment, 1, 4))
    (hcount : fragment < 2 ^ 16) :
    compressToStream s src flags =
      (t.setPosition 1).bind fun u => (u.writeUint16 fragment).bind fun v =>
        (v.setPosition t.position).bind fun w => some (w, 4) := by
  have hnot : ¬ fragment ≥ 2 ^ 16 := Nat.not_le_of_lt hcount
  simp only [compressToStream, ht, bind_eq_bind, bind_some, Nat.one_ne_zero, if_false, if_neg hnot]
  rfl

/-- The stream of the compressor, when its number of fragments fits. -/
theorem compressToStream_written (h : s.Written [] room) (hflags : Plain flags)
    (hcount : (cut segmentedMaxsize src).length < 2 ^ 16) :
    ∃ t, compressToStream s src flags = some (t, 4) ∧ t.Written (streamBytes src) 0 := by
  rw [streamBytes]
  by_cases hsrc : src.length ≤ segmentedMaxsize
  · obtain ⟨t, ht, hwritten⟩ := compressFragments_single h hsrc hflags
    rw [if_pos hsrc, compressToStream, ht]
    exact ⟨t, rfl, hwritten⟩
  · obtain ⟨t, gap, ht, hgap, hwritten⟩ :=
      compressFragments_many h (Nat.lt_of_not_le hsrc) hflags
    have hlength : (encode 2 (cut segmentedMaxsize src).length).length =
        gap.length := by
      rw [length_encode, hgap]
    obtain ⟨u, v, hu, hv, w, hw, hfilled⟩ := hwritten.fill hlength
    refine ⟨w, ?_, ?_⟩
    · have hstart : t.setPosition 1 = some u := hu
      have hnumber : u.writeUint16 (cut segmentedMaxsize src).length = some v := hv
      have hend : t.position = ([0xE1] ++
          encode 2 (cut segmentedMaxsize src).length ++
          (encode 4 src.length ++
            (cut segmentedMaxsize src).flatMap fragmentBytes)).length := by
        rw [hwritten.position_eq]
        simp only [length_append, hlength]
      rw [← hend] at hw
      rw [compressToStream_many ht hcount, hstart, bind_some, hnumber, bind_some, hw, bind_some]
    · rw [if_neg hsrc]
      simpa only [append_assoc, nil_append, cons_append] using hfilled

/-- **What the compressor writes.**  It fails when there are too many bytes for the size of the
result. -/
theorem compress_eq (hne : src ≠ []) (hflags : Plain flags)
    (hcount : (cut segmentedMaxsize src).length < 2 ^ 16) :
    compress src flags =
      if (streamBytes src).length < 2 ^ 32 then some (streamBytes src, 4) else none := by
  obtain ⟨t, ht, hwritten⟩ :=
    compressToStream_written (WStream.written_new src.length) hflags hcount
  rw [compress, if_neg hne]
  show (compressToStream (WStream.new src.length) src flags).bind _ = _
  rw [ht]
  dsimp only [bind_some]
  rw [hwritten.position_eq, hwritten.written_eq]
  by_cases hfits : (streamBytes src).length < 2 ^ 32
  · rw [if_pos hfits, if_neg (Nat.not_le_of_lt hfits)]
    rfl
  · rw [if_neg hfits, if_pos (Nat.le_of_not_lt hfits)]
    rfl

theorem length_flatMap_fragmentBytes (ws : List (List UInt8)) :
    (ws.flatMap fragmentBytes).length = ws.flatten.length + 5 * ws.length := by
  induction ws with
  | nil => rfl
  | cons w ws ih =>
    have hfragment : (fragmentBytes w).length = w.length + 5 := by
      rw [fragmentBytes, segmentBytes, length_append, length_encode, length_cons]
      omega
    rw [flatMap_cons, length_append, ih, hfragment, flatten_cons, length_append, length_cons]
    omega

/-- How long the stream is: a header, and in front of each fragment of many five bytes. -/
theorem length_streamBytes (src : List UInt8) : (streamBytes src).length =
    if src.length ≤ segmentedMaxsize then src.length + 2
    else src.length + 7 + 5 * ((src.length + (segmentedMaxsize - 1)) / segmentedMaxsize) := by
  rw [streamBytes]
  split
  · rfl
  · rw [length_cons, length_append, length_append, length_encode,
      length_encode, length_flatMap_fragmentBytes,
      flatten_cut (by decide), length_cut,
      Nat.add_sub_assoc (by decide : 1 ≤ segmentedMaxsize)]
    omega

/-! ## The history -/

variable {ring : HistoryRing UInt8} {past : List UInt8} {fuel : ℕ}

/-- The history of a segment on its way, behind what was there before it. -/
def Keeps (past : List UInt8) (s : Segment) : Prop :=
  s.ring.Remembers historyBufferSize (past ++ s.output)

theorem Keeps.emit {s : Segment} (h : Keeps past s) (bytes : List UInt8) :
    Keeps past (s.emit bytes) := by
  have hwrite := HistoryRing.Remembers.write h bytes
  rwa [append_assoc] at hwrite

theorem keeps_literal {s : Segment} (h : Keeps past s) (token : ZgfxToken) :
    Keeps past (literal token s).1 := by
  have hput := HistoryRing.Remembers.put h
    (token.valueBase + (getBits token.valueBits s.input).bits).toUInt8
  rwa [append_assoc] at hput

theorem keeps_copyMatch {s : Segment} {distance : ℕ} {r : Segment × Bool} (h : Keeps past s)
    (hr : copyMatch fuel distance s = some r) : Keeps past r.1 := by
  obtain ⟨⟨input, count⟩, -, rfl⟩ := map_eq_some_iff.1 hr
  dsimp only
  split
  · exact h
  · exact Keeps.emit (s := { s with input }) h _

theorem keeps_unencoded {s : Segment} (h : Keeps past s) : Keeps past (unencoded s).1 := by
  rw [unencoded]
  dsimp only
  split
  · exact h
  · exact Keeps.emit h _

/-- **Step lemma.**  A token leaves what it wrote in the history. -/
theorem keeps_decodeToken {s : Segment} {r : Segment × Bool} (h : Keeps past s)
    (hr : decodeToken fuel s = some r) : Keeps past r.1 := by
  rw [decodeToken] at hr
  generalize findToken tokenTable s.input 0 0 = found at hr
  obtain ⟨input, token⟩ := found
  have hinput : Keeps past { s with input } := h
  cases token with
  | none =>
    rw [← some.inj hr]
    exact hinput
  | some token =>
    dsimp only at hr
    split at hr
    · rw [← some.inj hr]
      exact keeps_literal hinput token
    · split at hr
      · exact keeps_copyMatch
          (s := { s with input := getBits token.valueBits input }) h hr
      · rw [← some.inj hr]
        exact keeps_unencoded (s := { s with input := getBits token.valueBits input }) h

theorem keeps_decodeTokens {s : Segment} {r : Segment × Bool} (h : Keeps past s)
    (hr : decodeTokens fuel s = some r) : Keeps past r.1 := by
  induction fuel generalizing s with
  | zero =>
    rw [decodeTokens] at hr
    split at hr
    · exact some.inj hr ▸ h
    · cases hr
  | succ fuel ih =>
    rw [decodeTokens] at hr
    split at hr
    · exact some.inj hr ▸ h
    · obtain ⟨q, hq, hr⟩ := bind_eq_some_iff.1 hr
      have hkeeps := keeps_decodeToken h hq
      split at hr
      · exact ih hkeeps hr
      · exact some.inj hr ▸ hkeeps

theorem remembers_decompressSegment {src : List UInt8} {size : ℕ} {r : SegmentResult}
    (h : ring.Remembers historyBufferSize past)
    (hr : decompressSegment fuel ring src size = some r) :
    r.ring.Remembers historyBufferSize (past ++ r.output) := by
  have hsame : ring.Remembers historyBufferSize (past ++ []) := by
    rwa [append_nil]
  rw [decompressSegment] at hr
  split at hr
  · exact some.inj hr ▸ hsame
  · dsimp only at hr
    split at hr
    · exact some.inj hr ▸ h.write _
    · split at hr
      · exact some.inj hr ▸ hsame
      · obtain ⟨q, hq, rfl⟩ := map_eq_some_iff.1 hr
        have hstart : ∀ input, Keeps past { ring, input } := fun _ => hsame
        exact keeps_decodeTokens (hstart _) hq

theorem remembers_decompressSegments {n segments : ℕ} {used src : List UInt8} {r : StreamResult}
    (h : ring.Remembers historyBufferSize (past ++ used))
    (hr : decompressSegments fuel n segments ring used src = some r) :
    r.ring.Remembers historyBufferSize (past ++ r.decompressed) := by
  induction segments generalizing ring used src with
  | zero => exact some.inj hr ▸ h
  | succ segments ih =>
    rw [decompressSegments] at hr
    split at hr
    · exact some.inj hr ▸ h
    · obtain ⟨q, hq, hr⟩ := bind_eq_some_iff.1 hr
      have hsegment := remembers_decompressSegment h hq
      rw [append_assoc] at hsegment
      split at hr
      · exact ih hsegment hr
      · exact some.inj hr ▸ hsegment

/-- **A stream leaves what it wrote in the history**, also one that is bad. -/
theorem remembers_decompress {src : List UInt8} {r : StreamResult}
    (h : ring.Remembers historyBufferSize past) (hr : decompress fuel ring src = some r) :
    r.ring.Remembers historyBufferSize (past ++ r.decompressed) := by
  have hsame : ring.Remembers historyBufferSize (past ++ []) := by
    rwa [append_nil]
  rw [decompress.eq_def] at hr
  split at hr
  · exact some.inj hr ▸ hsame
  · split at hr
    · obtain ⟨q, hq, rfl⟩ := map_eq_some_iff.1 hr
      exact remembers_decompressSegment h hq
    · split at hr
      · split at hr
        · exact some.inj hr ▸ hsame
        · exact remembers_decompressSegments hsame hr
      · exact some.inj hr ▸ hsame

/-! ## Reading the stream back -/

theorem decompressSegment_segmentBytes (fuel : ℕ) (ring : HistoryRing UInt8) (hne : src ≠ [])
    (hsize : src.length ≤ outputBufferSize) (rest : List UInt8) :
    decompressSegment fuel ring (segmentBytes src ++ rest) (src.length + 1) =
      some { ring := ring.write src, output := src, ok := true } := by
  have hpos := length_pos_of_ne_nil hne
  have hlength : (segmentBytes src ++ rest).length = src.length + 1 + rest.length := by
    rw [segmentBytes, length_append, length_cons]
  have hsegment : ((segmentBytes src ++ rest).take (src.length + 1)).tail = src := by
    rw [segmentBytes, cons_append, take_succ_cons, tail_cons, take_left]
  have hflags : (segmentBytes src ++ rest).headD 0 &&& 0x20 = 0 := by
    rw [segmentBytes, cons_append, headD_cons]
    decide
  rw [decompressSegment, if_neg (by omega)]
  dsimp only
  rw [if_pos hflags, hsegment, decide_eq_true hsize]

/-- **The loop over the segments**, on fragments that are what is still to come. -/
theorem decompressSegments_fragments (fuel : ℕ) (ring : HistoryRing UInt8) {n : ℕ}
    {ws : List (List UInt8)} (hws : ∀ w ∈ ws, w ≠ [] ∧ w.length ≤ segmentedMaxsize)
    (hn : n < 2 ^ 32) (used : List UInt8) (hall : (used ++ ws.flatten).length = n) :
    ∃ r, decompressSegments fuel n ws.length ring used (ws.flatMap fragmentBytes) = some r ∧
      r.decompressed = used ++ ws.flatten ∧ r.result = some (used ++ ws.flatten) := by
  induction ws generalizing ring used with
  | nil =>
    rw [flatten_nil, append_nil] at hall ⊢
    exact ⟨{ ring, decompressed := used, result := some used },
      by rw [length_nil, decompressSegments, if_pos hall], rfl, rfl⟩
  | cons w ws ih =>
    obtain ⟨hne, hsize⟩ := hws w mem_cons_self
    rw [flatten_cons, ← append_assoc] at hall ⊢
    obtain ⟨r, hr, hdecompressed, hresult⟩ := ih (ring.write w)
      (fun v hv => hws v (mem_cons_of_mem w hv)) (used ++ w) hall
    refine ⟨r, ?_, hdecompressed, hresult⟩
    rw [segmentedMaxsize] at hsize
    have hused : used.length + w.length ≤ n := by
      rw [← hall, length_append, length_append]
      omega
    have hlength : (encode 4 (w.length + 1)).length = 4 :=
      length_encode 4 _
    have hencoded : decode (encode 4 (w.length + 1)) = w.length + 1 :=
      decode_encode_of_lt (by omega)
    have hskip : ∀ more : List UInt8, (encode 4 (w.length + 1) ++
        (segmentBytes w ++ more)).drop (4 + (w.length + 1)) = more := by
      intro more
      rw [← append_assoc]
      refine drop_left' ?_
      rw [length_append, hlength, segmentBytes, length_cons]
    rw [flatMap_cons, fragmentBytes, append_assoc, length_cons,
      decompressSegments, if_neg (by rw [length_append, hlength]; omega)]
    dsimp only
    rw [take_left' hlength, drop_left' hlength, hencoded, hskip,
      decompressSegment_segmentBytes fuel ring hne (by rw [outputBufferSize]; omega)]
    dsimp only [bind_some]
    rw [if_pos ⟨rfl, by omega, hused⟩]
    exact hr

theorem mem_cut {w : List UInt8} (h : w ∈ cut segmentedMaxsize src) :
    w ≠ [] ∧ w.length ≤ segmentedMaxsize := by
  obtain ⟨c, hc, rfl⟩ := mem_map.1 h
  exact ⟨ne_nil_of_length_pos (window_length_pos (mem_range.1 hc)),
    List.length_take_le _ _⟩

/-- **The decompressor on the stream of the compressor.** -/
theorem decompress_streamBytes (fuel : ℕ) (ring : HistoryRing UInt8) (hne : src ≠ [])
    (hsize : src.length < 2 ^ 32) (hcount : (cut segmentedMaxsize src).length < 2 ^ 16) :
    ∃ r, decompress fuel ring (streamBytes src) = some r ∧ r.decompressed = src ∧
      r.result = some src := by
  rw [streamBytes]
  by_cases hsrc : src.length ≤ segmentedMaxsize
  · have hsegment := decompressSegment_segmentBytes fuel ring hne
      (hsrc.trans (by decide)) []
    rw [append_nil] at hsegment
    refine ⟨{ ring := ring.write src, decompressed := src, result := some src }, ?_, rfl, rfl⟩
    rw [if_pos hsrc, decompress.eq_def]
    dsimp only
    rw [if_pos rfl, show (segmentBytes src).length = src.length + 1 from rfl, hsegment]
    rfl
  · have hflatten := flatten_cut (k := segmentedMaxsize) (by decide) src
    obtain ⟨r, hr, hdecompressed, hresult⟩ := decompressSegments_fragments fuel ring
      (fun w hw => mem_cut hw) hsize []
      (by rw [nil_append, hflatten])
    rw [nil_append, hflatten] at hdecompressed hresult
    refine ⟨r, ?_, hdecompressed, hresult⟩
    -- the two numbers of the header
    have hfirst := length_encode 2 (cut segmentedMaxsize src).length
    have hsecond := length_encode 4 src.length
    have hsegments : decode (encode 2
        (cut segmentedMaxsize src).length) =
        (cut segmentedMaxsize src).length :=
      decode_encode_of_lt hcount
    have huncompressed : decode (encode 4 src.length) = src.length :=
      decode_encode_of_lt hsize
    have hbody : ∀ a b c : List UInt8, a.length = 2 → b.length = 4 →
        (a ++ (b ++ c)).drop 6 = c := by
      intro a b c ha hb
      rw [← append_assoc]
      exact drop_left' (by rw [length_append, ha, hb])
    rw [if_neg hsrc, decompress.eq_def]
    dsimp only
    rw [if_neg (by decide), if_pos rfl,
      if_neg (by rw [length_append, length_append, hfirst, hsecond]; omega),
      hbody _ _ _ hfirst hsecond, take_left' hfirst, drop_left' hfirst,
      take_left' hsecond, hsegments, huncompressed]
    exact hr

/-! ## The life of a decompressor -/

/-- The history of a context, and all that it decompressed since it was new or reset. -/
structure Session where
  ring : HistoryRing UInt8
  past : List UInt8 := []

/-- What is done with a decompressor. -/
inductive Use where
  /-- `zgfx_decompress` of any bytes -/
  | decompress (fuel : ℕ) (src : List UInt8)
  /-- `zgfx_context_reset` -/
  | reset

/-- A use of the context. -/
def useContext (z : Session) : Use → Option Session
  | .decompress fuel src =>
    (decompress fuel z.ring src).map fun r =>
      { ring := r.ring, past := z.past ++ r.decompressed }
  | .reset => some { ring := { z.ring with index := 0 } }

/-- `zgfx_context_new`. -/
def newContext : Session where
  ring := { buffer := replicate historyBufferSize 0, index := 0 }

theorem remembers_newContext :
    newContext.ring.Remembers historyBufferSize newContext.past := by
  have hsize : newContext.ring.size = historyBufferSize := length_replicate
  have hvalid : newContext.ring.Valid := by
    rw [HistoryRing.Valid, hsize]
    decide
  rw [← hsize]
  exact HistoryRing.remembers_nil hvalid

/-- **Step lemma.** -/
theorem remembers_useContext {z t : Session} (h : z.ring.Remembers historyBufferSize z.past)
    {use : Use} (ht : useContext z use = some t) :
    t.ring.Remembers historyBufferSize t.past := by
  cases use with
  | decompress fuel src =>
    obtain ⟨r, hr, rfl⟩ := map_eq_some_iff.1 ht
    exact remembers_decompress h hr
  | reset =>
    obtain rfl := some.inj ht
    have hvalid : HistoryRing.Valid { z.ring with index := 0 } :=
      (Nat.zero_le _).trans_lt h.valid
    have hsize : HistoryRing.size { z.ring with index := 0 } = historyBufferSize := h.size_eq
    rw [← hsize]
    exact HistoryRing.remembers_nil hvalid

/-- **Run lemma.**  Whatever was decompressed, the history has the last of it. -/
theorem remembers_of_reachable {z : Session} (h : Reachable useContext newContext z) :
    z.ring.Remembers historyBufferSize z.past :=
  h.induct (P := fun z => z.ring.Remembers historyBufferSize z.past)
    (fun _ _ _ hz ht => remembers_useContext hz ht) remembers_newContext

/-- How many bytes the compressor makes of `n` bytes. -/
def streamLength (n : ℕ) : ℕ :=
  if n ≤ segmentedMaxsize then n + 2
  else n + 7 + 5 * ((n + (segmentedMaxsize - 1)) / segmentedMaxsize)

/-- A stream whose size fits into 32 bits has a number of fragments that fits into 16. -/
theorem length_cut_lt (h : streamLength src.length < 2 ^ 32) :
    (cut segmentedMaxsize src).length < 2 ^ 16 := by
  rw [length_cut]
  rw [streamLength] at h
  by_cases hsrc : src.length ≤ segmentedMaxsize
  · rw [segmentedMaxsize] at hsrc ⊢
    omega
  · rw [if_neg hsrc] at h
    rw [segmentedMaxsize] at h ⊢
    omega

/-- **The stream of the compressor is read back** from whatever state the decompressor is in,
and its history goes on with what was read.  A stream whose size does not fit into 32 bits is
not written. -/
theorem zgfx_roundTrip {z : Session} (hz : Reachable useContext newContext z)
    {src : List UInt8} (hne : src ≠ []) (hfits : streamLength src.length < 2 ^ 32) :
    ∃ out, compress src 0 = some (out, 4) ∧ ∀ fuel, ∃ r,
      decompress fuel z.ring out = some r ∧ r.result = some src ∧
      r.ring.Remembers historyBufferSize (z.past ++ src) ∧
      (historyBufferSize ≤ (z.past ++ src).length → r.ring.oldestFirst =
        (z.past ++ src).drop ((z.past ++ src).length - historyBufferSize)) := by
  have hcount := length_cut_lt hfits
  have hsize : src.length < 2 ^ 32 := by
    rw [streamLength] at hfits
    split at hfits <;> omega
  refine ⟨streamBytes src, ?_, fun fuel => ?_⟩
  · have hlength : (streamBytes src).length < 2 ^ 32 := by
      rw [length_streamBytes]
      exact hfits
    rw [compress_eq hne (.inl rfl) hcount, if_pos hlength]
  · obtain ⟨r, hr, hdecompressed, hresult⟩ :=
      decompress_streamBytes fuel z.ring hne hsize hcount
    have hremembers := remembers_decompress (remembers_of_reachable hz) hr
    rw [hdecompressed] at hremembers
    exact ⟨r, hr, hresult, hremembers, hremembers.last⟩

/-- A decompressor that has read two bytes reads a string of two segments. -/
theorem zgfx_roundTrip_sample : ∃ z, Reachable useContext newContext z ∧ z.past = [7, 7] ∧
    ∃ out, compress (replicate 70000 9) 0 = some (out, 4) ∧ ∀ fuel, ∃ r,
      decompress fuel z.ring out = some r ∧ r.result = some (replicate 70000 9) ∧
        r.ring.Remembers historyBufferSize ([7, 7] ++ replicate 70000 9) := by
  obtain ⟨r, hr, hdecompressed, -⟩ := decompress_streamBytes 0 newContext.ring
    (by decide : ([7, 7] : List UInt8) ≠ []) (by decide) (by decide)
  have hz : Reachable useContext newContext ⟨r.ring, [7, 7]⟩ := by
    refine ⟨[.decompress 0 (streamBytes [7, 7])], ?_⟩
    rw [run_cons, useContext, hr, map_some, hdecompressed]
    rfl
  have hlength : (replicate 70000 (9 : UInt8)).length = 70000 := length_replicate
  obtain ⟨out, hout, hread⟩ := zgfx_roundTrip hz (ne_nil_of_length_pos (by rw [hlength]; decide))
    (by rw [hlength]; decide)
  refine ⟨_, hz, rfl, out, hout, fun fuel => ?_⟩
  obtain ⟨r', hr', hresult, hremembers, -⟩ := hread fuel
  exact ⟨r', hr', hresult, hremembers⟩

theorem compress_eq_none (hne : src ≠ [])
    (hcount : (src.length + (segmentedMaxsize - 1)) / segmentedMaxsize < 2 ^ 16)
    (hlarge : 2 ^ 32 ≤ streamLength src.length) : compress src 0 = none := by
  have hcut : (cut segmentedMaxsize src).length < 2 ^ 16 := by
    rw [length_cut, Nat.add_sub_assoc (by decide : 1 ≤ segmentedMaxsize)]
    exact hcount
  have hlength : ¬ (streamBytes src).length < 2 ^ 32 := by
    rw [length_streamBytes]
    exact Nat.not_lt_of_le hlarge
  rw [compress_eq hne (.inl rfl) hcut, if_neg hlength]

/-- The longest input is too much: with the sizes of its segments it does not fit. -/
theorem longest_not_compressed :
    replicate (65535 * 65535) (0 : UInt8) ≠ [] ∧
      (replicate (65535 * 65535) (0 : UInt8)).length ≤ 65535 * 65535 ∧
      compress (replicate (65535 * 65535) 0) 0 = none := by
  have hlength := length_replicate (n := 65535 * 65535) (a := (0 : UInt8))
  have hne := ne_nil_of_length_pos (hlength.ge.trans_lt' (by decide))
  refine ⟨hne, hlength.le, compress_eq_none hne ?_ ?_⟩
  · rw [hlength]
    decide
  · rw [hlength]
    decide

end Zgfx
