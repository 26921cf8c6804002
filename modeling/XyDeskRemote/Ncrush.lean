/-
# NCRUSH

The compression of RDP 6: matches in a history of 64 kilobytes and Huffman codes.  Both sides keep
the history and the four offsets used last.  The compressor finds matches through a table by the
two bytes at a position and a chain of earlier positions with the same two bytes; when the history
is full, it moves the second half to the front, or starts over after a packet that did not pay,
and says so in the flags.

The history and the tables are functions on positions; a pointer into the history is a position,
and the fence behind the buffer is left out.  What a function returns below zero is `none`.
-/
import Mathlib.Data.Fin.VecNotation
import XyDeskRemote.MatchCopy
import XyDeskRemote.NcrushTables

namespace Ncrush

/-- `NCRUSH_CONTEXT`. -/
structure Context where
  historyPtr : ℕ
  historyOffset : ℕ
  historyBuffer : ℕ → UInt8
  offsetCache : Fin 4 → ℕ
  hashTable : ℕ → ℕ
  matchTable : ℕ → ℕ

/-- `ncrush_context_reset`. -/
def Context.reset (flush : Bool) : Context :=
  let offset := if flush then 65536 + 1 else 0
  { historyPtr := offset, historyOffset := offset, historyBuffer := fun _ => 0,
    offsetCache := fun _ => 0, hashTable := fun _ => 0, matchTable := fun _ => 0 }

/-- The offset in a place of the cache changes places with the first one. -/
def swapFront (cache : Fin 4 → ℕ) (i : Fin 4) : Fin 4 → ℕ :=
  Function.update (Function.update cache i (cache 0)) 0 (cache i)

/-- A new offset in front of the cache. -/
def pushFront (cache : Fin 4 → ℕ) (copyOffset : ℕ) : Fin 4 → ℕ :=
  ![copyOffset, cache 0, cache 1, cache 2]

/-! ## Decompression -/

/-- The bits in front of the decompressor, and the bytes behind them. -/
structure BitReader where
  src : List UInt8
  nbits : ℤ
  bits : ℕ

namespace BitReader

/-- `NCrushFetchBits`. -/
def fetch (r : BitReader) : Option BitReader :=
  if r.nbits < 16 then
    match r.src with
    | [] => if r.nbits < 0 then none else some r
    | [b] =>
      some { src := [], nbits := r.nbits + 8,
             bits := (r.bits + b.toNat <<< r.nbits.toNat) % 2 ^ 32 }
    | b₀ :: b₁ :: src =>
      some { src, nbits := r.nbits + 16,
             bits := (r.bits + (b₀.toNat ||| b₁.toNat <<< 8) <<< r.nbits.toNat) % 2 ^ 32 }
  else some r

/-- Bits are dropped and others fetched. -/
def drop (r : BitReader) (length : ℕ) : Option BitReader :=
  fetch { r with nbits := r.nbits - length, bits := r.bits >>> length }

/-- A symbol by a table of codes, with the mask of the table. -/
def symbol (r : BitReader) (entry : ℕ → ℕ) (mask : ℕ) : Option (ℕ × BitReader) := do
  let found := entry (maskedBits r.bits mask)
  let r ← r.drop (found >>> 12)
  return (found &&& 0xFFF, r)

/-- The bits that follow a symbol. -/
def extra (r : BitReader) (length : ℕ) : Option (ℕ × BitReader) :=
  if length ≠ 0 then do
    guard (2 * length + 3 < huffTableMask.length)
    let value := maskedBits r.bits (2 * length + 3)
    let r ← r.drop length
    return (value, r)
  else some (0, r)

/-- The length of a match. -/
def matchLength (r : BitReader) : Option (ℕ × BitReader) := do
  let (index, r) ← r.symbol huffTableLOM 21
  guard (index < lomBitsLUT.length)
  let (value, r) ← r.extra (lomBitsLUT.getD index 0)
  return (lomBaseLUT.getD index 0 + value, r)

/-- The offset and the length of a match, behind its first symbol, and the cache after it. -/
def copy (r : BitReader) (cache : Fin 4 → ℕ) (copyOffsetSymbol : ℕ) :
    Option (ℕ × ℕ × (Fin 4 → ℕ) × BitReader) :=
  if copyOffsetSymbol ≥ 32 then
    if h : copyOffsetSymbol - 32 < 4 then do
      let (length, r) ← r.matchLength
      return (cache ⟨copyOffsetSymbol - 32, h⟩, length,
        swapFront cache ⟨copyOffsetSymbol - 32, h⟩, r)
    else none
  else do
    let (value, r) ← r.extra (copyOffsetBitsLUT.getD copyOffsetSymbol 0)
    let copyOffset := copyOffsetBaseLUT.getD copyOffsetSymbol 0 + value - 1
    let (length, r) ← r.matchLength
    return (copyOffset, length, pushFront cache copyOffset, r)

end BitReader

/-- What a packet is decompressed into: the history, the position in it, and the offsets. -/
structure Decoder where
  buffer : ℕ → UInt8
  ptr : ℕ
  cache : Fin 4 → ℕ

/-- A match is copied.  An offset beyond the position goes around the end of the buffer. -/
def Decoder.copyMatch (d : Decoder) (copyOffset length : ℕ) : Option Decoder :=
  let src := (d.ptr + 65536 - copyOffset) % 65536
  if length < 2 then none
  else if src ≥ 65535 - length ∨ d.ptr ≥ 65535 - length then none
  else
    let copyLength := if length > copyOffset then copyOffset else length
    if copyOffset ≤ d.ptr then
      let buffer := MatchCopy.copyForward d.buffer d.ptr (d.ptr - copyOffset) copyLength
      some { d with
        buffer := MatchCopy.copyPeriod buffer (d.ptr - copyOffset + copyLength) copyOffset
          (d.ptr + copyLength) 0 (length - copyOffset)
        ptr := d.ptr + copyLength + (length - copyOffset) }
    else
      let ahead := min copyLength (copyOffset - d.ptr)
      let buffer := MatchCopy.copyForward d.buffer d.ptr (65536 - (copyOffset - d.ptr)) ahead
      some { d with
        buffer := MatchCopy.copyPeriod buffer 0 copyOffset (d.ptr + ahead) 0 (length - copyOffset)
        ptr := d.ptr + ahead + (length - copyOffset) }

/-- The loops of `ncrush_decompress`, a symbol a round. -/
def decodeLoop : ℕ → BitReader → Decoder → Option Decoder
  | 0, _, _ => none
  | fuel + 1, r, d => do
    let (index, r) ← r.symbol huffTableLEC 29
    if index < 256 then
      if d.ptr ≥ 65535 then none
      else
        decodeLoop fuel r
          { d with buffer := Function.update d.buffer d.ptr (UInt8.ofNat index), ptr := d.ptr + 1 }
    else if index = 256 then some d
    else do
      let (copyOffset, length, cache, r) ← r.copy d.cache (index - 257)
      let d ← { d with cache }.copyMatch copyOffset length
      decodeLoop fuel r d

/-- What the flags of a packet do to the history before it: `PACKET_AT_FRONT` and
`PACKET_FLUSHED`. -/
def Context.prepare (c : Context) (flags : ℕ) : Option Context := do
  let c ←
    if flags &&& 0x40 ≠ 0 then
      if c.historyPtr ≤ 32768 then none
      else some { c with
        historyBuffer := fun i =>
          if i < 32768 then c.historyBuffer (c.historyPtr - 32768 + i) else 0
        historyPtr := 32768 }
    else some c
  return if flags &&& 0x80 ≠ 0 then
      { c with historyPtr := 0, historyBuffer := fun _ => 0, offsetCache := fun _ => 0 }
    else c

/-- `ncrush_decompress`.  A symbol takes at least one bit, so that there are enough rounds. -/
def decompress (c : Context) (src : List UInt8) (flags : ℕ) : Option (List UInt8 × Context) := do
  let c ← c.prepare flags
  if flags &&& 0x20 = 0 then return (src, c)
  else if src.length < 4 then none
  else do
    let r : BitReader :=
      { src := src.drop 4, nbits := 32, bits := LittleEndian.decode (src.take 4) }
    let d ← decodeLoop (8 * src.length + 1) r
      { buffer := c.historyBuffer, ptr := c.historyPtr, cache := c.offsetCache }
    return (MatchCopy.stretch d.buffer c.historyPtr (d.ptr - c.historyPtr),
      { c with historyBuffer := d.buffer, historyPtr := d.ptr, offsetCache := d.cache })

/-! ## The search for matches -/

/-- `get_word`, of the bytes at a position. -/
def wordAt (H : ℕ → UInt8) (i : ℕ) : ℕ := (H i).toNat ||| (H (i + 1)).toNat <<< 8

/-- `ncrush_move_encoder_windows`. -/
def Context.moveEncoderWindows (c : Context) (historyPtr : ℕ) : Option Context :=
  if historyPtr < 32768 then none
  else if historyPtr > 65536 then none
  else
    let offset := historyPtr - 32768
    some { c with
      historyBuffer := fun i =>
        if i < 32768 then c.historyBuffer (offset + i) else c.historyBuffer i
      hashTable := fun word => c.hashTable word - offset
      matchTable := fun i =>
        if i < 32768 then
          if offset + i ≥ 65536 then c.matchTable i else c.matchTable (offset + i) - offset
        else 0 }

/-- `ncrush_hash_table_add`, for the words at the first positions of a packet. -/
def Context.hashTableAdd (c : Context) (word : ℕ → ℕ) : ℕ → Context
  | 0 => c
  | n + 1 =>
    let c := c.hashTableAdd word n
    { c with
      matchTable := Function.update c.matchTable (c.historyOffset + n) (c.hashTable (word n))
      hashTable := Function.update c.hashTable (word n) (c.historyOffset + n) }

/-- The loop of `ncrush_find_match_length`: where it stops, with the bytes left to compare. -/
def compareFrom (H : ℕ → UInt8) : ℕ → ℕ → ℕ → ℕ
  | 0, ptr, _ => ptr
  | left + 1, ptr, other =>
    if H ptr = H other then compareFrom H left (ptr + 1) (other + 1) else ptr + 1

/-- `ncrush_find_match_length`.  The byte behind the packet is compared as well. -/
def findMatchLength (H : ℕ → UInt8) (ptr other historyPtr : ℕ) : ℤ :=
  compareFrom H (historyPtr + 1 - ptr) ptr other - (ptr + 1)

/-- Some positions of a chain: the first with a given byte behind it, or where the chain goes
on. -/
def probe (H : ℕ → UInt8) (matchTable : ℕ → ℕ) (matchLength : ℕ) (x : UInt8) :
    ℕ → ℕ → Bool × ℕ
  | 0, offset => (false, offset)
  | n + 1, offset =>
    if H (matchLength + offset) = x then (true, offset)
    else probe H matchTable matchLength x n (matchTable offset)

/-- The loop of `ncrush_find_best_match`.  A match of more than sixteen bytes ends it, and is not
taken. -/
def findLoop (H : ℕ → UInt8) (matchTable : ℕ → ℕ) (historyPtr historyOffset : ℕ) :
    ℕ → ℕ → ℕ × ℕ → Option (ℕ × ℕ)
  | 0, _, best => some best
  | rounds + 1, nextOffset, best =>
    match probe H matchTable best.1 (H (historyOffset + best.1)) 6 nextOffset with
    | (false, nextOffset) => findLoop H matchTable historyPtr historyOffset rounds nextOffset best
    | (true, offset) =>
      if offset ≠ historyOffset ∧ offset ≠ 0 then
        let length := findMatchLength H (historyOffset + 2) (offset + 2) historyPtr + 2
        if length < 2 then none
        else if length > 16 then some best
        else
          let best := if length > best.1 then (length.toNat, offset) else best
          if length ≤ best.1 ∨ historyOffset + 2 < historyPtr then
            findLoop H matchTable historyPtr historyOffset rounds (matchTable offset) best
          else some best
      else some best

/-- `ncrush_find_best_match`: the length and the offset of the match.  Chains end at position `0`,
and for the time of the search this leads back to where they began. -/
def Context.findBestMatch (c : Context) (historyOffset : ℕ) : Context × Option (ℕ × ℕ) :=
  if c.matchTable historyOffset = 0 then (c, none)
  else
    let matchTable := Function.update c.matchTable 0 historyOffset
    match findLoop c.historyBuffer matchTable c.historyPtr historyOffset 4
      (matchTable historyOffset) (2, matchTable historyOffset) with
    | none => ({ c with matchTable }, none)
    | some best => ({ c with matchTable := Function.update matchTable 0 0 }, some best)

/-! ## Compression -/

/-- The bytes written, and the bits in front of the next ones. -/
structure Writer where
  dst : List UInt8
  accumulator : ℕ
  offset : ℕ

namespace Writer

/-- `NCrushWriteStart`. -/
def start : Writer := { dst := [], accumulator := 0, offset := 0 }

/-- `NCrushWriteBits`; a field is its bits and their number. -/
def writeBits (w : Writer) (field : ℕ × ℕ) : Writer :=
  let accumulator := (w.accumulator ||| field.1 <<< w.offset) % 2 ^ 32
  let offset := w.offset + field.2
  if offset ≥ 16 then
    { dst := w.dst ++ LittleEndian.encode 2 accumulator, accumulator := accumulator >>> 16,
      offset := offset - 16 }
  else { w with accumulator, offset }

/-- `NCrushWriteFinish`. -/
def finish (w : Writer) : List UInt8 := w.dst ++ LittleEndian.encode 2 w.accumulator

end Writer

/-- The code of a symbol, with the checks in front of it. -/
def lecFieldWithin (limit symbol : ℕ) : Option (ℕ × ℕ) :=
  if symbol < huffLengthLEC.length ∧ 2 * symbol < huffCodeLEC.length ∧
      (lecField symbol).2 ≤ limit then
    some (lecField symbol)
  else none

/-- The place of an offset in the cache. -/
def cacheIndex (cache : Fin 4 → ℕ) (copyOffset : ℕ) : Option (Fin 4) :=
  if copyOffset = cache 3 then some 3
  else if copyOffset = cache 2 then some 2
  else if copyOffset = cache 1 then some 1
  else if copyOffset = cache 0 then some 0
  else none

/-- The cache after an offset, and the fields of the offset. -/
def offsetFields (cache : Fin 4 → ℕ) (copyOffset : ℕ) :
    (Fin 4 → ℕ) × Option (List (ℕ × ℕ)) :=
  match cacheIndex cache copyOffset with
  | some i =>
    (swapFront cache i, do
      let field ← lecFieldWithin 14 (289 + i)
      return [field])
  | none =>
    (pushFront cache copyOffset, do
      let index := copyOffsetIndex copyOffset
      guard (index < copyOffsetBitsLUT.length)
      let bits := copyOffsetBitsLUT.getD index 0
      let field ← lecFieldWithin 15 (257 + index)
      guard (bits ≤ 18)
      return [field, (copyOffset &&& (2 ^ bits - 1), bits)])

/-- The fields of the length of a match, if they say it. -/
def lengthFields (matchLength : ℕ) : Option (List (ℕ × ℕ)) := do
  let index := matchLengthIndex matchLength
  guard (index < huffLengthLOM.length ∧ index < lomBitsLUT.length ∧ index < huffCodeLOM.length ∧
    index < lomBaseLUT.length)
  let bits := lomBitsLUT.getD index 0
  let masked := (matchLength - 2) &&& (2 ^ bits - 1)
  guard (masked + lomBaseLUT.getD index 0 = matchLength)
  return [lomField index, (masked, bits)]

/-- How the compression of a packet ends early: it takes too much place, or fails and leaves the
context as it is then. -/
inductive Exit
  | flush
  | failed (context : Context)

/-- A packet under way: the bytes still to come, the position of the next one in the history, and
what is written. -/
structure Coder where
  context : Context
  src : List UInt8
  historyPtr : ℕ
  writer : Writer

namespace Coder

/-- The next byte as a literal. -/
def literal (dstEnd : ℕ) (s : Coder) : Except Exit Coder :=
  match s.src with
  | [] => throw (.failed s.context)
  | b :: src =>
    if s.writer.dst.length + 2 > dstEnd then throw .flush
    else
      match lecFieldWithin 15 b.toNat with
      | none => throw (.failed s.context)
      | some field =>
        return { s with src, historyPtr := s.historyPtr + 1, writer := s.writer.writeBits field }

/-- The next bytes as a match. -/
def copy (dstEnd matchLength copyOffset : ℕ) (s : Coder) : Except Exit Coder :=
  if s.writer.dst.length + 8 > dstEnd then throw .flush
  else
    let (offsetCache, fields) := offsetFields s.context.offsetCache copyOffset
    let context := { s.context with offsetCache }
    match fields, lengthFields matchLength with
    | some fields, some more =>
      return { context, src := s.src.drop matchLength, historyPtr := s.historyPtr + matchLength,
               writer := (fields ++ more).foldl Writer.writeBits s.writer }
    | _, _ => throw (.failed context)

/-- The length and the offset of a match for the next bytes; the length is `0` without one.  One
of two bytes does not pay from far away. -/
def choose (s : Coder) : Except Exit (Context × ℕ × ℕ) :=
  if s.context.matchTable s.historyPtr = 0 then return (s.context, 0, 0)
  else
    match s.context.findBestMatch s.historyPtr with
    | (context, none) => throw (.failed context)
    | (context, some (matchLength, matchOffset)) =>
      let copyOffset := (s.historyPtr + 65536 - matchOffset) % 65536
      return (context, if matchLength = 2 ∧ copyOffset ≥ 64 then 0 else matchLength, copyOffset)

/-- One round of the loop of `ncrush_compress`. -/
def round (dstEnd : ℕ) (s : Coder) : Except Exit Coder :=
  if s.historyPtr > s.context.historyPtr ∨ s.historyPtr ≥ 65536 then throw (.failed s.context)
  else do
    let (context, matchLength, copyOffset) ← s.choose
    let s := { s with context }
    let s ← if matchLength = 0 then s.literal dstEnd else s.copy dstEnd matchLength copyOffset
    if s.historyPtr ≥ 65536 then throw (.failed s.context)
    return s

/-- A step is taken as long as there are more bytes than some. -/
def loop (least : ℕ) (step : Coder → Except Exit Coder) : ℕ → Coder → Except Exit Coder
  | 0, s => return s
  | fuel + 1, s => if least < s.src.length then do loop least step fuel (← step s) else return s

/-- The end of `ncrush_compress`, from the end of the packet on. -/
def finish (dstEnd srcSize : ℕ) (s : Coder) : Except Exit (Context × List UInt8) :=
  if s.writer.dst.length + 4 ≥ dstEnd then throw .flush
  else
    match lecFieldWithin 15 256 with
    | none => throw (.failed s.context)
    | some field =>
      let dst := (s.writer.writeBits field).finish
      let context := { s.context with historyOffset := s.historyPtr }
      if dst.length > srcSize then throw (.failed s.context)
      else if s.historyPtr ≥ 65536 then throw (.failed context)
      else return (context, dst)

end Coder

/-- What `ncrush_compress` does to the history before a packet of some size, and the flags for
it. -/
def Context.makeRoom (c : Context) (srcSize : ℕ) : Option (Context × ℕ) :=
  if srcSize + c.historyOffset ≥ 65529 then
    if c.historyOffset = 65536 + 1 then some ({ c with historyOffset := 0, historyPtr := 0 }, 0x80)
    else do
      let c ← c.moveEncoderWindows c.historyOffset
      return ({ c with historyOffset := 32768, historyPtr := 32768 }, 0x40)
  else some (c, 0)

/-- The context with a packet in its history and its tables. -/
def Context.take (c : Context) (src : List UInt8) : Context :=
  let c := c.hashTableAdd (wordAt fun i => src.getD i 0) (src.length - 8)
  { c with
    historyBuffer := MatchCopy.overlay c.historyBuffer c.historyOffset src
    historyPtr := c.historyOffset + src.length }

/-- The loops of `ncrush_compress`. -/
def Context.encode (c : Context) (src : List UInt8) : Except Exit (Context × List UInt8) := do
  let dstEnd := src.length - 1
  let s : Coder := { context := c, src, historyPtr := c.historyOffset, writer := Writer.start }
  let s ← Coder.loop 2 (Coder.round dstEnd) src.length s
  let s ← Coder.loop 0 (Coder.literal dstEnd) src.length s
  s.finish dstEnd src.length

/-- `ncrush_compress`: the context after it, and the bytes and the flags unless it fails.  A packet
that does not pay goes as it is, and everything starts over. -/
def Context.compress (c : Context) (src : List UInt8) (dstSize : ℕ) :
    Context × Option (List UInt8 × ℕ) :=
  match c.makeRoom src.length with
  | none => (c, none)
  | some (c, flags) =>
    if dstSize < src.length then (c, none)
    else
      match (c.take src).encode src with
      | .error .flush => (Context.reset true, some (src, 0x80 ||| 2))
      | .error (.failed c) => (c, none)
      | .ok (c, dst) => (c, some (dst, 0x20 ||| 2 ||| flags))

/-! ## A session -/

/-- `bulk_compress` at the level of RDP 6. -/
def bulkCompress (c : Context) (src : List UInt8) : Context × Option (List UInt8 × ℕ) :=
  if src.length ≤ 50 ∨ src.length ≥ 16384 then (c, some (src, 0))
  else c.compress src 65536

/-- What `fastpath_send_update_pdu` sends of a fragment: bytes and flags. -/
def send (c : Context) (src : List UInt8) : Context × List UInt8 × ℕ :=
  match bulkCompress c src with
  | (c, some (dst, flags)) => if flags ≠ 0 then (c, dst, flags) else (c, src, 0)
  | (c, none) => (c, src, 0)

/-- `bulk_decompress`, with the context for the type of RDP 6; the other types have their own. -/
def bulkDecompress (c : Context) (src : List UInt8) (flags : ℕ) :
    Option (List UInt8 × Context) :=
  if flags &&& 0xE0 ≠ 0 then
    if flags &&& 0x0F = 2 then decompress c src flags else none
  else some (src, c)

/-- Packets sent one after the other, and what the other side makes of them. -/
def session : Context → Context → List (List UInt8) → Option (List (List UInt8))
  | _, _, [] => some []
  | sender, receiver, packet :: packets => do
    let (sender, dst, flags) := send sender packet
    let (out, receiver) ← bulkDecompress receiver dst flags
    let outs ← session sender receiver packets
    return out :: outs

end Ncrush
