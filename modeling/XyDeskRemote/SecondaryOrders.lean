/-
# Secondary drawing orders

Secondary orders fill the caches of the receiver: bitmaps in three revisions, colour tables,
glyphs in two revisions and brushes.  Each has a writer and a reader; ids, depths and flags of
the later ones travel in `extraFlags`, the 16-bit header of the order, which the writer returns
and the reader is given.

Pointers to data are the lists of bytes behind them, and an allocation succeeds.
-/
import XyDeskRemote.OrderIntegers

open StreamWriter ByteReader

namespace SecondaryOrder

/-! ## Depths -/

/-- `get_cbr2_bpp`: the depth, and whether the id is one. -/
def getCbr2Bpp : ℕ → ℕ × Bool
  | 3 => (8, true)
  | 4 => (16, true)
  | 5 => (24, true)
  | 6 => (32, true)
  | _ => (0, false)

/-- `get_bmf_bpp`; the highest bit of the byte marks a cached brush. -/
def getBmfBpp (bmf : ℕ) : ℕ × Bool :=
  match bmf &&& 0xFFFFFF7F with
  | 1 => (1, true)
  | 3 => (8, true)
  | 4 => (16, true)
  | 5 => (24, true)
  | 6 => (32, true)
  | _ => (0, false)

/-- `get_bpp_bmf`, and whether the depth is valid. -/
def getBppBmf : ℕ → ℕ × Bool
  | 1 => (1, true)
  | 8 => (3, true)
  | 16 => (4, true)
  | 24 => (5, true)
  | 32 => (6, true)
  | _ => (0, false)

/-! ## Bitmaps, first revision -/

/-- `CACHE_BITMAP_ORDER`. -/
structure CacheBitmapOrder where
  cacheId : ℕ
  bitmapBpp : ℕ
  bitmapWidth : ℕ
  bitmapHeight : ℕ
  bitmapLength : ℕ
  cacheIndex : ℕ
  compressed : Bool
  bitmapComprHdr : List UInt8
  bitmapDataStream : List UInt8
  deriving DecidableEq

/-- `NO_BITMAP_COMPRESSION_HDR`. -/
def noBitmapCompressionHdr : ℕ := 0x0400

/-- The compression header of the first revision, and the length without it. -/
def readBitmapComprHdr (compressed : Bool) (flags length : ℕ) : ByteReader (List UInt8 × ℕ) :=
  if compressed ∧ flags &&& noBitmapCompressionHdr = 0 then do
    require 8
    let header ← bytes 8
    ensure (8 ≤ length)
    return (header, length - 8)
  else return (List.replicate 8 0, length)

/-- `update_read_cache_bitmap_order`. -/
def updateReadCacheBitmapOrder (compressed : Bool) (flags : ℕ) : ByteReader CacheBitmapOrder := do
  require 9
  let cacheId ← uint8
  let _ ← uint8
  let bitmapWidth ← uint8
  let bitmapHeight ← uint8
  let bitmapBpp ← uint8
  ensure (1 ≤ bitmapBpp ∧ bitmapBpp ≤ 32)
  let length ← uint16
  let cacheIndex ← uint16
  let (bitmapComprHdr, bitmapLength) ← readBitmapComprHdr compressed flags length
  ensure (bitmapLength ≠ 0)
  require bitmapLength
  let bitmapDataStream ← bytes bitmapLength
  return { cacheId, bitmapBpp, bitmapWidth, bitmapHeight, bitmapLength, cacheIndex, compressed,
           bitmapComprHdr, bitmapDataStream }

/-- `update_write_cache_bitmap_order`, and the flags it sets: they say that there is no header,
so none is written. -/
def updateWriteCacheBitmapOrder (order : CacheBitmapOrder) (compressed : Bool) :
    StreamWriter × ℕ :=
  let flags := noBitmapCompressionHdr
  let header := compressed ∧ flags &&& noBitmapCompressionHdr = 0
  let bitmapLength :=
    if flags &&& noBitmapCompressionHdr = 0 then order.bitmapLength + 8 else order.bitmapLength
  (seq
    [ensureRemainingCapacity (64 + order.bitmapLength),
     uint8 order.cacheId, uint8 0, uint8 order.bitmapWidth, uint8 order.bitmapHeight,
     uint8 order.bitmapBpp, uint16 bitmapLength, uint16 order.cacheIndex,
     if header then firstBytes order.bitmapComprHdr 8 else seq [],
     firstBytes order.bitmapDataStream (if header then bitmapLength - 8 else bitmapLength)],
   flags)

/-! ## Bitmaps, second revision -/

/-- `CACHE_BITMAP_V2_ORDER`. -/
structure CacheBitmapV2Order where
  cacheId : ℕ
  flags : ℕ
  key1 : ℕ
  key2 : ℕ
  bitmapBpp : ℕ
  bitmapWidth : ℕ
  bitmapHeight : ℕ
  bitmapLength : ℕ
  cacheIndex : ℕ
  compressed : Bool
  cbCompFirstRowSize : ℕ
  cbCompMainBodySize : ℕ
  cbScanWidth : ℕ
  cbUncompressedSize : ℕ
  bitmapDataStream : List UInt8
  deriving DecidableEq

/-- `CBR2_HEIGHT_SAME_AS_WIDTH` is set. -/
def cbr2HeightSameAsWidth (flags : ℕ) : Prop := flags &&& 0x01 ≠ 0

/-- `CBR2_PERSISTENT_KEY_PRESENT` is set. -/
def cbr2PersistentKeyPresent (flags : ℕ) : Prop := flags &&& 0x02 ≠ 0

/-- `CBR2_NO_BITMAP_COMPRESSION_HDR` is set. -/
def cbr2NoBitmapCompressionHdr (flags : ℕ) : Prop := flags &&& 0x08 ≠ 0

/-- `CBR2_DO_NOT_CACHE`, and in the third revision `CBR3_DO_NOT_CACHE`, is set. -/
def doNotCache (flags : ℕ) : Prop := flags &&& 0x10 ≠ 0

instance (flags : ℕ) : Decidable (cbr2HeightSameAsWidth flags) :=
  inferInstanceAs (Decidable (_ ≠ _))

instance (flags : ℕ) : Decidable (cbr2PersistentKeyPresent flags) :=
  inferInstanceAs (Decidable (_ ≠ _))

instance (flags : ℕ) : Decidable (cbr2NoBitmapCompressionHdr flags) :=
  inferInstanceAs (Decidable (_ ≠ _))

instance (flags : ℕ) : Decidable (doNotCache flags) := inferInstanceAs (Decidable (_ ≠ _))

/-- `BITMAP_CACHE_WAITING_LIST_INDEX`. -/
def bitmapCacheWaitingListIndex : ℕ := 0x7FFF

/-- The persistent key, if the flags say that it is there. -/
def readKeys (flags : ℕ) : ByteReader (ℕ × ℕ) :=
  if cbr2PersistentKeyPresent flags then do
    require 8
    let key1 ← uint32
    let key2 ← uint32
    return (key1, key2)
  else return (0, 0)

/-- The width and the height. -/
def readSize (flags : ℕ) : ByteReader (ℕ × ℕ) := do
  let bitmapWidth ← updateRead2byteUnsigned
  if cbr2HeightSameAsWidth flags then return (bitmapWidth, bitmapWidth)
  else do
    let bitmapHeight ← updateRead2byteUnsigned
    return (bitmapWidth, bitmapHeight)

/-- The four sizes of the compression header, if the flags do not say that it is left out. -/
def readCompSizes (compressed : Bool) (flags : ℕ) : ByteReader (ℕ × ℕ × ℕ × ℕ) :=
  if compressed ∧ ¬cbr2NoBitmapCompressionHdr flags then do
    require 8
    let firstRow ← uint16
    let mainBody ← uint16
    let scanWidth ← uint16
    let uncompressed ← uint16
    return (firstRow, mainBody, scanWidth, uncompressed)
  else return (0, 0, 0, 0)

/-- `update_read_cache_bitmap_v2_order`. -/
def updateReadCacheBitmapV2Order (compressed : Bool) (extraFlags : ℕ) :
    ByteReader CacheBitmapV2Order := do
  let cacheId := extraFlags &&& 0x0007
  let flags := (extraFlags &&& 0xFF80) >>> 7
  let depth := getCbr2Bpp ((extraFlags &&& 0x0078) >>> 3)
  ensure (depth.2 = true)
  let (key1, key2) ← readKeys flags
  let (bitmapWidth, bitmapHeight) ← readSize flags
  let length ← updateRead4byteUnsigned
  let index ← updateRead2byteUnsigned
  let (cbCompFirstRowSize, cbCompMainBodySize, cbScanWidth, cbUncompressedSize) ←
    readCompSizes compressed flags
  let bitmapLength :=
    if compressed ∧ ¬cbr2NoBitmapCompressionHdr flags then cbCompMainBodySize else length
  ensure (bitmapLength ≠ 0)
  require bitmapLength
  let bitmapDataStream ← bytes bitmapLength
  return { cacheId, flags, key1, key2, bitmapBpp := depth.1, bitmapWidth, bitmapHeight,
           bitmapLength,
           cacheIndex := if doNotCache flags then bitmapCacheWaitingListIndex else index,
           compressed, cbCompFirstRowSize, cbCompMainBodySize, cbScanWidth, cbUncompressedSize,
           bitmapDataStream }

/-- `update_write_cache_bitmap_v2_order`, the flags it sets and the order as it leaves it. -/
def updateWriteCacheBitmapV2Order (order : CacheBitmapV2Order) (compressed : Bool) :
    StreamWriter × ℕ × CacheBitmapV2Order :=
  let depth := getBppBmf order.bitmapBpp
  let extraFlags := ((order.cacheId &&& 0x0003) ||| ((depth.1 <<< 3) &&& 0xFFFF)) |||
    ((order.flags <<< 7) &&& 0xFF80)
  let cacheIndex :=
    if doNotCache order.flags then bitmapCacheWaitingListIndex else order.cacheIndex
  let header := compressed ∧ ¬cbr2NoBitmapCompressionHdr order.flags
  let bitmapLength := if header then order.cbCompMainBodySize else order.bitmapLength
  (seq
    [ensureRemainingCapacity (64 + order.bitmapLength),
     check (depth.2 = true),
     assert (order.cacheId ≤ 3), assert (depth.1 ≤ 0x0F), assert (order.flags ≤ 0x1FF),
     if cbr2PersistentKeyPresent order.flags then seq [uint32 order.key1, uint32 order.key2]
     else seq [],
     if cbr2HeightSameAsWidth order.flags then seq [updateWrite2byteUnsigned order.bitmapWidth]
     else seq [updateWrite2byteUnsigned order.bitmapWidth,
       updateWrite2byteUnsigned order.bitmapHeight],
     updateWrite4byteUnsigned order.bitmapLength, updateWrite2byteUnsigned cacheIndex,
     if header then
       seq [uint16 order.cbCompFirstRowSize, uint16 order.cbCompMainBodySize,
         uint16 order.cbScanWidth, uint16 order.cbUncompressedSize]
     else seq [],
     ensureRemainingCapacity bitmapLength,
     firstBytes order.bitmapDataStream bitmapLength],
   extraFlags, { order with cacheIndex, bitmapLength, compressed })

/-! ## Bitmaps, third revision -/

/-- `BITMAP_DATA_EX`. -/
structure BitmapDataEx where
  bpp : ℕ
  codecID : ℕ
  width : ℕ
  height : ℕ
  length : ℕ
  data : List UInt8
  deriving DecidableEq

/-- `CACHE_BITMAP_V3_ORDER`. -/
structure CacheBitmapV3Order where
  cacheId : ℕ
  bpp : ℕ
  flags : ℕ
  cacheIndex : ℕ
  key1 : ℕ
  key2 : ℕ
  bitmapData : BitmapDataEx
  deriving DecidableEq

/-- What the reader of the third revision looks up: the settings of the connection and, for each
cell of the bitmap cache, its `number`. -/
structure BitmapCacheV3 where
  bitmapCacheV3Enabled : Bool
  bitmapCacheV2NumCells : ℕ
  remoteFxImageCodec : Bool
  remoteFxCodec : Bool
  nsCodec : Bool
  cells : List ℕ

/-- The codecs that the reader lets through: `RDP_CODEC_ID_NONE`, `NSCODEC`, `REMOTEFX` and
`IMAGE_REMOTEFX`. -/
def BitmapCacheV3.admitsCodec (peer : BitmapCacheV3) : ℕ → Bool
  | 0x00 => true
  | 0x01 => peer.nsCodec
  | 0x03 => peer.remoteFxCodec
  | 0x04 => peer.remoteFxImageCodec
  | _ => false

/-- The index of a bitmap that is not to be cached is the number of entries of its cell. -/
def readCellNumber (peer : BitmapCacheV3) (flags cacheId cacheIndex : ℕ) : ByteReader ℕ :=
  if doNotCache flags then do
    ensure (cacheId < peer.cells.length)
    return peer.cells.getD cacheId 0
  else return cacheIndex

/-- `update_read_cache_bitmap_v3_order`. -/
def updateReadCacheBitmapV3Order (peer : BitmapCacheV3) (extraFlags : ℕ) :
    ByteReader CacheBitmapV3Order := do
  ensure (peer.bitmapCacheV3Enabled = true)
  let cacheId := extraFlags &&& 0x00000007
  ensure (cacheId < peer.bitmapCacheV2NumCells)
  let flags := (extraFlags >>> 7) &&& 0x000001FF
  let depth := getCbr2Bpp ((extraFlags >>> 3) &&& 0x000000F)
  require 21
  let index ← uint16
  let key1 ← uint32
  let key2 ← uint32
  let cacheIndex ← readCellNumber peer flags cacheId index
  let bpp ← uint8
  ensure (1 ≤ bpp ∧ bpp ≤ 32)
  let _ ← uint8
  let _ ← uint8
  let codecID ← uint8
  let width ← uint16
  let height ← uint16
  let length ← uint32
  ensure (peer.admitsCodec codecID = true)
  ensure (length ≠ 0)
  require length
  let data ← bytes length
  -- An id that is no depth stands for the depth of the data.
  return { cacheId, bpp := if depth.2 then depth.1 else bpp, flags, cacheIndex, key1, key2,
           bitmapData := { bpp, codecID, width, height, length, data } }

/-- `update_write_cache_bitmap_v3_order`, and the flags it sets. -/
def updateWriteCacheBitmapV3Order (order : CacheBitmapV3Order) : StreamWriter × ℕ :=
  let depth := getBppBmf order.bpp
  let bitmapData := order.bitmapData
  (seq
    [ensureRemainingCapacity (64 + bitmapData.length), check (depth.2 = true),
     uint16 order.cacheIndex, uint32 order.key1, uint32 order.key2, uint8 bitmapData.bpp,
     uint8 0, uint8 0, uint8 bitmapData.codecID, uint16 bitmapData.width,
     uint16 bitmapData.height, uint32 bitmapData.length,
     firstBytes bitmapData.data bitmapData.length],
   ((order.cacheId &&& 0x00000007) ||| ((order.flags <<< 7) &&& 0x0000FF80)) |||
    ((depth.1 <<< 3) &&& 0x00000078))

/-! ## Colour tables -/

/-- `CACHE_COLOR_TABLE_ORDER`. -/
structure CacheColorTableOrder where
  cacheIndex : ℕ
  numberColors : ℕ
  colorTable : List ℕ
  deriving DecidableEq

/-- `update_read_color_quad`, which is `update_read_colorref`: four bytes. -/
def updateReadColorQuad : ByteReader ℕ := do
  require 4
  let red ← uint8
  let green ← uint8
  let blue ← uint8
  let _ ← uint8
  return (red ||| (green <<< 8)) ||| (blue <<< 16)

/-- `update_write_color_quad`: three bytes. -/
def updateWriteColorQuad (color : ℕ) : StreamWriter :=
  seq [uint8 ((color >>> 16) &&& 0xFF), uint8 ((color >>> 8) &&& 0xFF), uint8 (color &&& 0xFF)]

/-- `update_read_cache_color_table_order`. -/
def updateReadCacheColorTableOrder : ByteReader CacheColorTableOrder := do
  require 3
  let cacheIndex ← uint8
  let numberColors ← uint16
  ensure (numberColors = 256)
  require (numberColors * 4)
  let colorTable ← times updateReadColorQuad numberColors
  return { cacheIndex, numberColors, colorTable }

/-- `update_write_cache_color_table_order`; the table is the 256 entries of the order. -/
def updateWriteCacheColorTableOrder (order : CacheColorTableOrder) : StreamWriter :=
  seq
    [check (order.numberColors = 256),
     ensureRemainingCapacity (16 + 256 * 4),
     uint8 order.cacheIndex, uint16 order.numberColors,
     seq ((order.colorTable.take order.numberColors).map updateWriteColorQuad)]

/-! ## Glyphs -/

/-- The size of the bits of a glyph: whole bytes a row, rounded up to four. -/
def glyphCb (cx cy : ℕ) : ℕ :=
  let cb := ((cx + 7) / 8) * cy
  cb + if cb % 4 > 0 then 4 - cb % 4 else 0

/-- `GLYPH_DATA`. -/
structure GlyphData where
  cacheIndex : ℕ
  x : Int16
  y : Int16
  cx : ℕ
  cy : ℕ
  cb : ℕ
  aj : List UInt8
  deriving DecidableEq

/-- `GLYPH_DATA_V2`. -/
structure GlyphDataV2 where
  cacheIndex : ℕ
  x : ℤ
  y : ℤ
  cx : ℕ
  cy : ℕ
  cb : ℕ
  aj : List UInt8
  deriving DecidableEq

/-- `CACHE_GLYPH_ORDER`; `glyphData` holds the `cGlyphs` entries that are in use. -/
structure CacheGlyphOrder where
  cacheId : ℕ
  cGlyphs : ℕ
  glyphData : List GlyphData
  unicodeCharacters : List ℕ
  deriving DecidableEq

/-- `CACHE_GLYPH_V2_ORDER`. -/
structure CacheGlyphV2Order where
  cacheId : ℕ
  flags : ℕ
  cGlyphs : ℕ
  glyphData : List GlyphDataV2
  unicodeCharacters : List ℕ
  deriving DecidableEq

/-- `CG_GLYPH_UNICODE_PRESENT` is set. -/
def cgGlyphUnicodePresent (flags : ℕ) : Prop := flags &&& 0x0010 ≠ 0

instance (flags : ℕ) : Decidable (cgGlyphUnicodePresent flags) :=
  inferInstanceAs (Decidable (_ ≠ _))

/-- The characters behind the glyphs, if the flags say that they are there. -/
def readUnicodeCharacters (flags cGlyphs : ℕ) : ByteReader (List ℕ) :=
  if cgGlyphUnicodePresent flags ∧ cGlyphs > 0 then do
    require (cGlyphs * 2)
    times uint16 cGlyphs
  else return []

/-- The zeros that a writer puts there. -/
def writeUnicodeCharacters (flags cGlyphs : ℕ) : StreamWriter :=
  if cgGlyphUnicodePresent flags then bytes (List.replicate (2 * cGlyphs) 0) else seq []

/-- A glyph of `update_read_cache_glyph_order`. -/
def readGlyph : ByteReader GlyphData := do
  require 10
  let cacheIndex ← uint16
  let x ← int16
  let y ← int16
  let cx ← uint16
  let cy ← uint16
  require (glyphCb cx cy)
  let aj ← bytes (glyphCb cx cy)
  return { cacheIndex, x, y, cx, cy, cb := glyphCb cx cy, aj }

/-- A glyph of `update_write_cache_glyph_order`. -/
def writeGlyph (glyph : GlyphData) : StreamWriter :=
  seq
    [uint16 glyph.cacheIndex, int16 glyph.x, int16 glyph.y, uint16 glyph.cx, uint16 glyph.cy,
     firstBytes glyph.aj (glyphCb glyph.cx glyph.cy)]

/-- `update_read_cache_glyph_order`. -/
def updateReadCacheGlyphOrder (flags : ℕ) : ByteReader CacheGlyphOrder := do
  require 2
  let cacheId ← uint8
  let cGlyphs ← uint8
  let glyphData ← times readGlyph cGlyphs
  let unicodeCharacters ← readUnicodeCharacters flags cGlyphs
  return { cacheId, cGlyphs, glyphData, unicodeCharacters }

/-- `update_write_cache_glyph_order`; the flags are the caller's. -/
def updateWriteCacheGlyphOrder (order : CacheGlyphOrder) (flags : ℕ) : StreamWriter :=
  seq
    [ensureRemainingCapacity (2 + order.cGlyphs * 32),
     uint8 order.cacheId, uint8 order.cGlyphs,
     seq ((order.glyphData.take order.cGlyphs).map writeGlyph),
     writeUnicodeCharacters flags order.cGlyphs]

/-- A glyph of `update_read_cache_glyph_v2_order`. -/
def readGlyphV2 : ByteReader GlyphDataV2 := do
  require 1
  let cacheIndex ← uint8
  let x ← updateRead2byteSigned
  let y ← updateRead2byteSigned
  let cx ← updateRead2byteUnsigned
  let cy ← updateRead2byteUnsigned
  require (glyphCb cx cy)
  let aj ← bytes (glyphCb cx cy)
  return { cacheIndex, x, y, cx, cy, cb := glyphCb cx cy, aj }

/-- A glyph of `update_write_cache_glyph_v2_order`. -/
def writeGlyphV2 (glyph : GlyphDataV2) : StreamWriter :=
  seq
    [uint8 glyph.cacheIndex, updateWrite2byteSigned glyph.x, updateWrite2byteSigned glyph.y,
     updateWrite2byteUnsigned glyph.cx, updateWrite2byteUnsigned glyph.cy,
     firstBytes glyph.aj (glyphCb glyph.cx glyph.cy)]

/-- `update_read_cache_glyph_v2_order`. -/
def updateReadCacheGlyphV2Order (extraFlags : ℕ) : ByteReader CacheGlyphV2Order := do
  let cacheId := extraFlags &&& 0x000F
  let flags := (extraFlags &&& 0x00F0) >>> 4
  let cGlyphs := (extraFlags &&& 0xFF00) >>> 8
  let glyphData ← times readGlyphV2 cGlyphs
  let unicodeCharacters ← readUnicodeCharacters extraFlags cGlyphs
  return { cacheId, flags, cGlyphs, glyphData, unicodeCharacters }

/-- `update_write_cache_glyph_v2_order`, and the flags it sets. -/
def updateWriteCacheGlyphV2Order (order : CacheGlyphV2Order) : StreamWriter × ℕ :=
  let extraFlags := ((order.cacheId &&& 0x000F) ||| ((order.flags &&& 0x000F) <<< 4)) |||
    ((order.cGlyphs &&& 0x00FF) <<< 8)
  (seq
    [ensureRemainingCapacity (8 + order.cGlyphs * 32),
     assert (order.cacheId ≤ 0x0F), assert (order.flags ≤ 0x0F), assert (order.cGlyphs ≤ 0xFF),
     seq ((order.glyphData.take order.cGlyphs).map writeGlyphV2),
     writeUnicodeCharacters extraFlags order.cGlyphs],
   extraFlags)

/-! ## Brushes -/

/-- `CACHE_BRUSH_ORDER`; `data` is an array of 256 bytes. -/
structure CacheBrushOrder where
  index : ℕ
  bpp : ℕ
  cx : ℕ
  cy : ℕ
  style : ℕ
  length : ℕ
  data : List UInt8
  deriving DecidableEq

/-- The array `data`, of which the first bytes are filled in. -/
def brushData (filled : List UInt8) : List UInt8 :=
  filled ++ List.replicate (256 - filled.length) 0

/-- Eight rows of `scanline` bytes, the last row first. -/
def readBrushRows (scanline : ℕ) : ByteReader (List UInt8) := do
  let rows ← times (bytes scanline) 8
  return brushData rows.reverse.flatten

/-- The rows of a brush in the order they are sent. -/
def brushRows (data : List UInt8) (scanline : ℕ) : List (List UInt8) :=
  (List.range 8).map fun i => (data.drop ((7 - i) * scanline)).take scanline

/-- The pixels of a row of a compressed brush: two bits each, into the palette. -/
def brushRow (palette row : List UInt8) (bytesPerPixel : ℕ) : List UInt8 :=
  (List.range 8).flatMap fun x =>
    let index := ((row.getD (x / 4) 0).toNat >>> ((3 - x % 4) * 2)) &&& 0x03
    (palette.drop (index * bytesPerPixel)).take bytesPerPixel

/-- `update_decompress_brush`.  The palette is behind the pixels, and the stream is left in front
of it. -/
def updateDecompressBrush (bpp : ℕ) : ByteReader (List UInt8) := do
  let stream ← get
  let palette := stream.drop 16
  let bytesPerPixel := (bpp + 1) / 8
  require ((4 + bytesPerPixel) * 4)
  let rows ← times (bytes 2) 8
  return brushData ((rows.map fun row => brushRow palette row bytesPerPixel).reverse.flatten)

/-- `update_compress_brush`, which compresses nothing. -/
def updateCompressBrush : Bool := false

/-- The formats that the reader takes as compressed, by `iBitmapFormat` and length. -/
def readsCompressedBrush (iBitmapFormat length : ℕ) : Prop :=
  iBitmapFormat = 3 ∧ length = 20 ∨ iBitmapFormat = 4 ∧ length = 24 ∨
    iBitmapFormat = 5 ∧ length = 28 ∨ iBitmapFormat = 6 ∧ length = 32

/-- The formats that the writer takes as compressed. -/
def writesCompressedBrush (iBitmapFormat length : ℕ) : Prop :=
  iBitmapFormat = 3 ∧ length = 20 ∨ iBitmapFormat = 4 ∧ length = 24 ∨
    iBitmapFormat = 6 ∧ length = 32

instance (iBitmapFormat length : ℕ) : Decidable (readsCompressedBrush iBitmapFormat length) :=
  inferInstanceAs (Decidable (_ ∨ _))

instance (iBitmapFormat length : ℕ) : Decidable (writesCompressedBrush iBitmapFormat length) :=
  inferInstanceAs (Decidable (_ ∨ _))

/-- The pixels of a brush, behind its six bytes of fields. -/
def readBrushPixels (iBitmapFormat bpp cx cy length : ℕ) : ByteReader (List UInt8) :=
  if cx = 8 ∧ cy = 8 then
    if bpp = 1 then do
      ensure (length = 8)
      require 8
      readBrushRows 1
    else if readsCompressedBrush iBitmapFormat length then updateDecompressBrush bpp
    else do
      let scanline := (bpp / 8) * 8
      require (scanline * 8)
      readBrushRows scanline
  else return brushData []

/-- `update_read_cache_brush_order`. -/
def updateReadCacheBrushOrder : ByteReader CacheBrushOrder := do
  require 6
  let index ← uint8
  let iBitmapFormat ← uint8
  let depth := getBmfBpp iBitmapFormat
  ensure (depth.2 = true)
  let cx ← uint8
  let cy ← uint8
  let style ← uint8
  let length ← uint8
  let data ← readBrushPixels iBitmapFormat depth.1 cx cy length
  return { index, bpp := depth.1, cx, cy, style, length, data }

/-- The pixels of a brush. -/
def writeBrushPixels (order : CacheBrushOrder) (iBitmapFormat : ℕ) : StreamWriter :=
  if order.cx = 8 ∧ order.cy = 8 then
    if order.bpp = 1 then
      seq [check (order.length = 8), seq ((brushRows order.data 1).map bytes)]
    else if writesCompressedBrush iBitmapFormat order.length then
      seq [check (updateCompressBrush = true)]
    else seq [seq ((brushRows order.data (8 * (order.bpp / 8))).map bytes)]
  else seq []

/-- `update_write_cache_brush_order`. -/
def updateWriteCacheBrushOrder (order : CacheBrushOrder) : StreamWriter :=
  let depth := getBppBmf order.bpp
  seq
    [ensureRemainingCapacity 64, check (depth.2 = true),
     uint8 order.index, uint8 depth.1, uint8 order.cx, uint8 order.cy, uint8 order.style,
     uint8 order.length, writeBrushPixels order depth.1]

end SecondaryOrder
