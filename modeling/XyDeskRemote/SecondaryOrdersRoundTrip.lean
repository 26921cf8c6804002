/-
# Secondary drawing orders, written and read back

A secondary order that a writer accepts is to come out of its reader as it went in.  Each writer
is gone through next to its reader; what the two disagree on are empty bitmaps, the fields that a
format has no room for, the entries of colour tables, which are written in three bytes and read
in four, and brushes of 24 bits whose length is taken for that of a compressed one.
-/
import Mathlib.Data.Nat.Bitwise
import XyDeskRemote.SecondaryOrders

open StreamWriter ByteReader List Nat

namespace SecondaryOrder

/-! ## Bitmaps, first revision -/

theorem reads_data {α : Type} (data : List UInt8) (length : ℕ) (order : List UInt8 → α) :
    Mirrors 0 (seq [firstBytes data length])
      (do
        ensure (length ≠ 0)
        require length
        let stream ← ByteReader.bytes length
        return order stream)
      (if length ≠ 0 then some (order (data.take length)) else none) := by
  refine .ensure (.mono (n := length) (.require ?_ le_rfl) (zero_le _)) _
  exact .cons (n := length) (m := 0) (.bytes _ _) (.done _)

theorem reads_cacheBitmap (order : CacheBitmapOrder) (compressed : Bool) :
    Mirrors 9 (updateWriteCacheBitmapOrder order compressed).1
      (updateReadCacheBitmapOrder compressed (updateWriteCacheBitmapOrder order compressed).2)
      (if 1 ≤ order.bitmapBpp ∧ order.bitmapBpp ≤ 32 then
        if order.bitmapLength ≠ 0 then
          some { order with
            compressed, bitmapComprHdr := replicate 8 0,
            bitmapDataStream := order.bitmapDataStream.take order.bitmapLength }
        else none
      else none) := by
  have hset : noBitmapCompressionHdr &&& noBitmapCompressionHdr ≠ 0 := by decide
  rw [updateWriteCacheBitmapOrder]
  simp only [hset, and_false, if_false]
  refine .silent (emits_ensureRemainingCapacity _) (.require ?_ le_rfl)
  refine .cons (n := 1) (m := 8) (.uint8 _) (.cons (n := 1) (m := 7) (.uint8 _) ?_)
  refine .cons (n := 1) (m := 6) (.uint8 _) (.cons (n := 1) (m := 5) (.uint8 _) ?_)
  refine .cons (n := 1) (m := 4) (.uint8 _) (.ensure ?_ _)
  refine .cons (n := 2) (m := 2) (.uint16 _) (.cons (n := 2) (m := 0) (.uint16 _) ?_)
  rw [readBitmapComprHdr, if_neg fun h => hset h.2]
  refine .cons (n := 0) (m := 0) (.done _) ?_
  exact reads_data _ _ _

/-! ## Header bits -/

/-- The depths of bitmaps. -/
def bitmapDepth (bpp : ℕ) : Prop := bpp = 8 ∨ bpp = 16 ∨ bpp = 24 ∨ bpp = 32

/-- The id of a depth is found again. -/
theorem getCbr2Bpp_getBppBmf {bpp : ℕ} (h : bitmapDepth bpp) :
    getCbr2Bpp (getBppBmf bpp).1 = (bpp, true) ∧ (getBppBmf bpp).1 < 0x10 := by
  obtain rfl | rfl | rfl | rfl := h <;> decide

/-- Three numbers next to one another in a header, the lowest of three and the next of four
bits. -/
theorem headerBits_eq {a b c : ℕ} (ha : a < 0x08) (hb : b < 0x10) (hc : c < 0x200) :
    (a ||| ((b <<< 3) &&& 0xFFFF)) ||| ((c <<< 7) &&& 0xFF80) = a + b * 8 + c * 128 ∧
      (a ||| ((c <<< 7) &&& 0xFF80)) ||| ((b <<< 3) &&& 0x78) = a + b * 8 + c * 128 := by
  have hshift : (c <<< 7) &&& 0xFF80 = c * 2 ^ 7 := by
    rw [show (0xFF80 : ℕ) = (2 ^ 9 - 1) <<< 7 from rfl, ← shiftLeft_and_distrib,
      and_two_pow_sub_one_of_lt_two_pow (show c < 2 ^ 9 from hc), Nat.shiftLeft_eq]
  have hnarrow : (b <<< 3) &&& 0x78 = b * 2 ^ 3 := by
    rw [show (0x78 : ℕ) = (2 ^ 4 - 1) <<< 3 from rfl, ← shiftLeft_and_distrib,
      and_two_pow_sub_one_of_lt_two_pow (show b < 2 ^ 4 from hb), Nat.shiftLeft_eq]
  have hwide : (b <<< 3) &&& 0xFFFF = b * 2 ^ 3 := by
    rw [show (0xFFFF : ℕ) = 2 ^ 16 - 1 from rfl, shiftLeft_and_ones (by omega)]
  have hab : a ||| b * 2 ^ 3 = b * 2 ^ 3 + a := by
    rw [Nat.or_comm, or_eq_add_of_dvd (Nat.dvd_mul_left _ _) ha]
  have hall : (b * 2 ^ 3 + a) ||| c * 2 ^ 7 = c * 2 ^ 7 + (b * 2 ^ 3 + a) := by
    rw [Nat.or_comm, or_eq_add_of_dvd (Nat.dvd_mul_left _ _) (by omega)]
  constructor
  · rw [hshift, hwide, hab, hall]
    omega
  · rw [hshift, hnarrow, Nat.or_assoc, Nat.or_comm (c * 2 ^ 7), ← Nat.or_assoc, hab, hall]
    omega

/-- The three numbers, taken out again the way the two later revisions do. -/
theorem headerBits_parts {a b c : ℕ} (ha : a < 0x08) (hb : b < 0x10) (hc : c < 0x200) :
    (a + b * 8 + c * 128) &&& 0x07 = a ∧
      ((a + b * 8 + c * 128) &&& 0xFF80) >>> 7 = c ∧
      ((a + b * 8 + c * 128) &&& 0x78) >>> 3 = b ∧
      ((a + b * 8 + c * 128) >>> 7) &&& 0x1FF = c ∧
      ((a + b * 8 + c * 128) >>> 3) &&& 0x0F = b := by
  have hc' : ((a + b * 8 + c * 128) >>> 7) &&& (2 ^ 9 - 1) = c := by
    rw [shiftRight_and_ones]
    omega
  have hb' : ((a + b * 8 + c * 128) >>> 3) &&& (2 ^ 4 - 1) = b := by
    rw [shiftRight_and_ones]
    omega
  refine ⟨?_, ?_, ?_, hc', hb'⟩
  · rw [show (0x07 : ℕ) = 2 ^ 3 - 1 from rfl, and_two_pow_sub_one_eq_mod]
    omega
  · rw [shiftRight_and_distrib]
    exact hc'
  · rw [shiftRight_and_distrib]
    exact hb'

/-! ## Bitmaps, second revision -/

theorem reads_keys (flags : ℕ) {key1 key2 : ℕ} (h₁ : key1 < 0x100000000)
    (h₂ : key2 < 0x100000000) :
    Mirrors 0 (if cbr2PersistentKeyPresent flags then seq [uint32 key1, uint32 key2] else seq [])
      (readKeys flags)
      (some (if cbr2PersistentKeyPresent flags then key1 else 0,
        if cbr2PersistentKeyPresent flags then key2 else 0)) := by
  rw [readKeys]
  split
  · exact .mono (.require (.cons (.uint32 h₁) (.cons (.uint32 h₂) (.done _))) le_rfl)
      (zero_le _)
  · exact .done _

theorem reads_size (flags width height : ℕ) :
    Mirrors 0
      (if cbr2HeightSameAsWidth flags then seq [updateWrite2byteUnsigned width]
      else seq [updateWrite2byteUnsigned width, updateWrite2byteUnsigned height])
      (readSize flags) (some (width, if cbr2HeightSameAsWidth flags then width else height)) := by
  rw [readSize]
  split
  · exact .mono (.cons (reads_2byteUnsigned _) (.done _)) (zero_le _)
  · exact .mono (.cons (reads_2byteUnsigned _) (.cons (reads_2byteUnsigned _) (.done _)))
      (zero_le _)

theorem reads_compSizes (compressed : Bool) (flags firstRow mainBody scanWidth uncompressed : ℕ) :
    Mirrors 0
      (if compressed ∧ ¬cbr2NoBitmapCompressionHdr flags then
        seq [uint16 firstRow, uint16 mainBody, uint16 scanWidth, uint16 uncompressed]
      else seq [])
      (readCompSizes compressed flags)
      (some (if compressed ∧ ¬cbr2NoBitmapCompressionHdr flags then firstRow else 0,
        if compressed ∧ ¬cbr2NoBitmapCompressionHdr flags then mainBody else 0,
        if compressed ∧ ¬cbr2NoBitmapCompressionHdr flags then scanWidth else 0,
        if compressed ∧ ¬cbr2NoBitmapCompressionHdr flags then uncompressed else 0)) := by
  rw [readCompSizes]
  split
  · exact .mono (.require (.cons (.uint16 _) (.cons (.uint16 _) (.cons (.uint16 _)
      (.cons (.uint16 _) (.done _))))) le_rfl) (zero_le _)
  · exact .done _

/-- The order that the reader makes of one in the second revision. -/
def CacheBitmapV2Order.received (order : CacheBitmapV2Order) (compressed : Bool) :
    CacheBitmapV2Order :=
  let keys := cbr2PersistentKeyPresent order.flags
  let header := compressed ∧ ¬cbr2NoBitmapCompressionHdr order.flags
  let bitmapLength := if header then order.cbCompMainBodySize else order.bitmapLength
  { order with
    key1 := if keys then order.key1 else 0
    key2 := if keys then order.key2 else 0
    bitmapHeight :=
      if cbr2HeightSameAsWidth order.flags then order.bitmapWidth else order.bitmapHeight
    bitmapLength
    cacheIndex := if doNotCache order.flags then bitmapCacheWaitingListIndex else order.cacheIndex
    compressed
    cbCompFirstRowSize := if header then order.cbCompFirstRowSize else 0
    cbCompMainBodySize := if header then order.cbCompMainBodySize else 0
    cbScanWidth := if header then order.cbScanWidth else 0
    cbUncompressedSize := if header then order.cbUncompressedSize else 0
    bitmapDataStream := order.bitmapDataStream.take bitmapLength }

theorem reads_cacheBitmapV2 {order : CacheBitmapV2Order} (compressed : Bool)
    (hdepth : bitmapDepth order.bitmapBpp) (h₁ : order.key1 < 0x100000000)
    (h₂ : order.key2 < 0x100000000) :
    Mirrors 0 (updateWriteCacheBitmapV2Order order compressed).1
      (updateReadCacheBitmapV2Order compressed
        (updateWriteCacheBitmapV2Order order compressed).2.1)
      (if (order.received compressed).bitmapLength ≠ 0 then some (order.received compressed)
      else none) := by
  obtain ⟨hid, hsmall⟩ := getCbr2Bpp_getBppBmf hdepth
  refine .silent (emits_ensureRemainingCapacity _) (.check fun _ => ?_)
  refine .assert fun hcell => .assert fun _ => .assert fun hflags => ?_
  have hcacheId : order.cacheId &&& 0x0003 = order.cacheId := by
    rw [show (0x0003 : ℕ) = 2 ^ 2 - 1 from rfl, and_two_pow_sub_one_eq_mod]
    omega
  have hheader : (updateWriteCacheBitmapV2Order order compressed).2.1 =
      order.cacheId + (getBppBmf order.bitmapBpp).1 * 8 + order.flags * 128 := by
    show ((order.cacheId &&& 0x0003) ||| _) ||| _ = _
    rw [hcacheId]
    exact (headerBits_eq (by omega) hsmall (by omega)).1
  obtain ⟨hpart₁, hpart₂, hpart₃, -⟩ := headerBits_parts (show order.cacheId < 0x08 by omega)
    hsmall (show order.flags < 0x200 by omega)
  have hlength : ∀ header : Prop, [Decidable header] → ∀ mainBody length : ℕ,
      (if header then (if header then mainBody else 0) else length) =
        if header then mainBody else length := by
    intro header _ mainBody length
    split <;> rfl
  have hindex : (if doNotCache order.flags then bitmapCacheWaitingListIndex
      else if doNotCache order.flags then bitmapCacheWaitingListIndex else order.cacheIndex) =
      if doNotCache order.flags then bitmapCacheWaitingListIndex else order.cacheIndex := by
    split <;> rfl
  rw [hheader, updateReadCacheBitmapV2Order, hpart₁, hpart₂, hpart₃, hid]
  refine .passes rfl ?_
  refine .cons (n := 0) (m := 0) (reads_keys _ h₁ h₂) ?_
  refine .cons (n := 0) (m := 0) (reads_size _ _ _) ?_
  refine .mono (.cons (n := 1) (m := 1) (reads_4byteUnsigned _)
    (.cons (n := 1) (m := 0) (reads_2byteUnsigned _) ?_)) (zero_le _)
  refine .cons (n := 0) (m := 0) (reads_compSizes _ _ _ _ _ _) ?_
  refine .silent (emits_ensureRemainingCapacity _) ?_
  dsimp only
  rw [hlength, hindex]
  exact reads_data _ _ fun stream =>
    { order.received compressed with bitmapDataStream := stream }

/-! ## Bitmaps, third revision -/

/-- The receiver is set up for the order: the third revision is on, the cell is one of the
negotiated and, for a bitmap not to be cached, of the existing ones, and the codec is on. -/
def BitmapCacheV3.Admits (peer : BitmapCacheV3) (order : CacheBitmapV3Order) : Prop :=
  peer.bitmapCacheV3Enabled = true ∧ order.cacheId < peer.bitmapCacheV2NumCells ∧
    (doNotCache order.flags → order.cacheId < peer.cells.length) ∧
    (1 ≤ order.bitmapData.bpp ∧ order.bitmapData.bpp ≤ 32) ∧
    peer.admitsCodec order.bitmapData.codecID = true

instance (peer : BitmapCacheV3) (order : CacheBitmapV3Order) : Decidable (peer.Admits order) :=
  inferInstanceAs (Decidable (_ ∧ _))

/-- The order that the reader makes of one in the third revision. -/
def CacheBitmapV3Order.received (order : CacheBitmapV3Order) (peer : BitmapCacheV3) :
    CacheBitmapV3Order :=
  { order with
    cacheIndex :=
      if doNotCache order.flags then peer.cells.getD order.cacheId 0 else order.cacheIndex
    bitmapData := { order.bitmapData with
      data := order.bitmapData.data.take order.bitmapData.length } }

/-- The look-up of the cell as one check and one value. -/
theorem readCellNumber_eq (peer : BitmapCacheV3) (flags cacheId cacheIndex : ℕ) :
    readCellNumber peer flags cacheId cacheIndex = (do
      ensure (doNotCache flags → cacheId < peer.cells.length)
      return if doNotCache flags then peer.cells.getD cacheId 0 else cacheIndex) := by
  funext bs
  rw [readCellNumber]
  split
  next hset =>
    rw [ByteReader.bind_apply, ByteReader.bind_apply, ensure, ensure]
    simp only [hset, true_implies]
  next hclear =>
    rw [ByteReader.bind_apply, ensure, if_pos fun h => absurd h hclear]
    rfl

theorem reads_cacheBitmapV3 {order : CacheBitmapV3Order} (peer : BitmapCacheV3)
    (hdepth : bitmapDepth order.bpp) (hcell : order.cacheId < 8) (hflags : order.flags < 0x200)
    (h₁ : order.key1 < 0x100000000) (h₂ : order.key2 < 0x100000000)
    (hlength : order.bitmapData.length < 0x100000000) :
    Mirrors 0 (updateWriteCacheBitmapV3Order order).1
      (updateReadCacheBitmapV3Order peer (updateWriteCacheBitmapV3Order order).2)
      (if peer.Admits order ∧ order.bitmapData.length ≠ 0 then some (order.received peer)
      else none) := by
  obtain ⟨hid, hsmall⟩ := getCbr2Bpp_getBppBmf hdepth
  refine .silent (emits_ensureRemainingCapacity _) (.check fun _ => ?_)
  have hcacheId : order.cacheId &&& 0x00000007 = order.cacheId := by
    rw [show (0x00000007 : ℕ) = 2 ^ 3 - 1 from rfl, and_two_pow_sub_one_eq_mod]
    omega
  have hheader : (updateWriteCacheBitmapV3Order order).2 =
      order.cacheId + (getBppBmf order.bpp).1 * 8 + order.flags * 128 := by
    show ((order.cacheId &&& 0x00000007) ||| _) ||| _ = _
    rw [hcacheId]
    exact (headerBits_eq hcell hsmall hflags).2
  obtain ⟨hpart₁, -, -, hpart₄, hpart₅⟩ := headerBits_parts hcell hsmall hflags
  rw [hheader, updateReadCacheBitmapV3Order, hpart₁, hpart₄, hpart₅, hid]
  simp only [readCellNumber_eq, bind_assoc, pure_bind]
  have hchecks : (if peer.Admits order ∧ order.bitmapData.length ≠ 0 then
        some (order.received peer) else none) =
      if peer.bitmapCacheV3Enabled = true then
      if order.cacheId < peer.bitmapCacheV2NumCells then
      if doNotCache order.flags → order.cacheId < peer.cells.length then
      if 1 ≤ order.bitmapData.bpp ∧ order.bitmapData.bpp ≤ 32 then
      if peer.admitsCodec order.bitmapData.codecID = true then
      if order.bitmapData.length ≠ 0 then some (order.received peer)
      else none else none else none else none else none else none := by
    rw [← ite_and, ← ite_and, ← ite_and, ← ite_and, ← ite_and]
    refine if_congr ?_ rfl rfl
    simp only [BitmapCacheV3.Admits, and_assoc]
  rw [hchecks]
  refine .ensure (.ensure ?_ _) _
  refine .mono (n := 21) (.require ?_ le_rfl) (zero_le _)
  refine .cons (n := 2) (m := 19) (.uint16 _) (.cons (n := 4) (m := 15) (.uint32 h₁) ?_)
  refine .cons (n := 4) (m := 11) (.uint32 h₂) (.ensure ?_ _)
  refine .cons (n := 1) (m := 10) (.uint8 _) (.ensure ?_ _)
  refine .cons (n := 1) (m := 9) (.uint8 _) (.cons (n := 1) (m := 8) (.uint8 _) ?_)
  refine .cons (n := 1) (m := 7) (.uint8 _) (.cons (n := 2) (m := 5) (.uint16 _) ?_)
  refine .cons (n := 2) (m := 3) (.uint16 _) (.mono (n := 4) ?_ (by omega))
  refine .cons (n := 4) (m := 0) (.uint32 hlength) (.ensure ?_ _)
  exact reads_data _ _ fun stream =>
    { order.received peer with bitmapData := { order.bitmapData with data := stream } }

/-! ## Glyphs -/

/-- The bits of a glyph are as many as its size asks for. -/
def GlyphData.WellFormed (glyph : GlyphData) : Prop :=
  glyph.cb = glyphCb glyph.cx glyph.cy ∧ glyph.aj.length = glyph.cb

/-- The same, in the second revision. -/
def GlyphDataV2.WellFormed (glyph : GlyphDataV2) : Prop :=
  glyph.cb = glyphCb glyph.cx glyph.cy ∧ glyph.aj.length = glyph.cb

theorem reads_glyph {glyph : GlyphData} (h : glyph.WellFormed) :
    Mirrors 0 (writeGlyph glyph) readGlyph (some glyph) := by
  obtain ⟨hcb, hlength⟩ := h
  have haj : glyph.aj.take (glyphCb glyph.cx glyph.cy) = glyph.aj :=
    take_of_length_le (by omega)
  refine .mono (n := 10) (.require ?_ le_rfl) (zero_le _)
  refine .cons (n := 2) (m := 8) (.uint16 _) (.cons (n := 2) (m := 6) (.int16 _) ?_)
  refine .cons (n := 2) (m := 4) (.int16 _) (.cons (n := 2) (m := 2) (.uint16 _) ?_)
  refine .cons (n := 2) (m := 0) (.uint16 _) (.mono (.require ?_ le_rfl) (zero_le _))
  refine .cons (n := glyphCb glyph.cx glyph.cy) (m := 0) (.bytes _ _) ?_
  rw [haj, ← hcb]
  exact .done glyph

theorem reads_glyphV2 {glyph : GlyphDataV2} (h : glyph.WellFormed) :
    Mirrors 0 (writeGlyphV2 glyph) readGlyphV2 (some glyph) := by
  obtain ⟨hcb, hlength⟩ := h
  have haj : glyph.aj.take (glyphCb glyph.cx glyph.cy) = glyph.aj :=
    take_of_length_le (by omega)
  refine .mono (n := 1) (.require ?_ le_rfl) (zero_le _)
  refine .cons (n := 1) (m := 0) (.uint8 _) (.mono (n := 4) ?_ (zero_le _))
  refine .cons (n := 1) (m := 3) (reads_2byteSigned _) ?_
  refine .cons (n := 1) (m := 2) (reads_2byteSigned _) ?_
  refine .cons (n := 1) (m := 1) (reads_2byteUnsigned _) ?_
  refine .cons (n := 1) (m := 0) (reads_2byteUnsigned _) ?_
  refine .mono (.require ?_ le_rfl) (zero_le _)
  refine .cons (n := glyphCb glyph.cx glyph.cy) (m := 0) (.bytes _ _) ?_
  rw [haj, ← hcb]
  exact .done glyph

/-- Without characters both sides leave them out. -/
theorem reads_noUnicode {flags : ℕ} (hflags : ¬cgGlyphUnicodePresent flags) (cGlyphs : ℕ) :
    Mirrors 0 (writeUnicodeCharacters flags cGlyphs) (readUnicodeCharacters flags cGlyphs)
      (some []) := by
  rw [writeUnicodeCharacters, readUnicodeCharacters, if_neg hflags, if_neg fun h => hflags h.1]
  exact .done []

theorem reads_cacheGlyph {order : CacheGlyphOrder} {flags : ℕ}
    (hglyphs : ∀ glyph ∈ order.glyphData, glyph.WellFormed)
    (hcount : order.glyphData.length = order.cGlyphs) (hflags : ¬cgGlyphUnicodePresent flags)
    (hunicode : order.unicodeCharacters = []) :
    Mirrors 0 (updateWriteCacheGlyphOrder order flags) (updateReadCacheGlyphOrder flags)
      (some order) := by
  refine .silent (emits_ensureRemainingCapacity _) ?_
  refine .mono (n := 2) (.require ?_ le_rfl) (zero_le _)
  refine .cons (n := 1) (m := 1) (.uint8 _) (.cons (n := 1) (m := 0) (.uint8 _) ?_)
  rw [← hcount, take_length]
  refine .cons (n := 0) (m := 0) (.times fun glyph hglyph => reads_glyph (hglyphs glyph hglyph)) ?_
  refine .cons (n := 0) (m := 0) (reads_noUnicode hflags _) ?_
  rw [hcount, ← hunicode]
  exact .done order

/-- The header of a glyph set in the second revision, and its three numbers taken out again; the
lowest bit of the flags is the one for characters. -/
theorem glyphHeader {a b c : ℕ} (ha : a < 0x10) (hb : b < 0x10) (hc : c < 0x100) :
    ∃ header, ((a &&& 0x000F) ||| ((b &&& 0x000F) <<< 4)) ||| ((c &&& 0x00FF) <<< 8) = header ∧
      header &&& 0x000F = a ∧ (header &&& 0x00F0) >>> 4 = b ∧ (header &&& 0xFF00) >>> 8 = c ∧
      (cgGlyphUnicodePresent header ↔ b &&& 1 ≠ 0) := by
  have hkeepA := and_two_pow_sub_one_of_lt_two_pow (show a < 2 ^ 4 from ha)
  have hkeepB := and_two_pow_sub_one_of_lt_two_pow (show b < 2 ^ 4 from hb)
  have hkeepC := and_two_pow_sub_one_of_lt_two_pow (show c < 2 ^ 8 from hc)
  have hlow : a ||| b <<< 4 = b * 2 ^ 4 + a := by
    rw [Nat.or_comm, ← Nat.shiftLeft_add_eq_or_of_lt ha, Nat.shiftLeft_eq]
  have hall : (b * 2 ^ 4 + a) ||| c <<< 8 = c * 2 ^ 8 + (b * 2 ^ 4 + a) := by
    rw [Nat.or_comm, ← Nat.shiftLeft_add_eq_or_of_lt (show b * 2 ^ 4 + a < 2 ^ 8 by omega),
      Nat.shiftLeft_eq]
  have hb' : (c * 2 ^ 8 + (b * 2 ^ 4 + a)) >>> 4 &&& (2 ^ 4 - 1) = b := by
    rw [shiftRight_and_ones]
    omega
  have hc' : (c * 2 ^ 8 + (b * 2 ^ 4 + a)) >>> 8 &&& (2 ^ 8 - 1) = c := by
    rw [shiftRight_and_ones]
    omega
  refine ⟨c * 2 ^ 8 + (b * 2 ^ 4 + a), ?_, ?_, ?_, ?_, ?_⟩
  · rw [show (0x000F : ℕ) = 2 ^ 4 - 1 from rfl, show (0x00FF : ℕ) = 2 ^ 8 - 1 from rfl, hkeepA,
      hkeepB, hkeepC, hlow, hall]
  · rw [show (0x000F : ℕ) = 2 ^ 4 - 1 from rfl, and_two_pow_sub_one_eq_mod]
    omega
  · rw [shiftRight_and_distrib]
    exact hb'
  · rw [shiftRight_and_distrib]
    exact hc'
  · have hbit : ((c * 2 ^ 8 + (b * 2 ^ 4 + a)) &&& 0x0010) >>> 4 = b &&& 1 := by
      rw [shiftRight_and_distrib]
      show (c * 2 ^ 8 + (b * 2 ^ 4 + a)) >>> 4 &&& (2 ^ 1 - 1) = b &&& (2 ^ 1 - 1)
      rw [shiftRight_and_ones, and_two_pow_sub_one_eq_mod]
      omega
    have hmask : (c * 2 ^ 8 + (b * 2 ^ 4 + a)) &&& 0x0010 = 0 ∨
        (c * 2 ^ 8 + (b * 2 ^ 4 + a)) &&& 0x0010 = 2 ^ 4 := by
      rw [show (0x0010 : ℕ) = 2 ^ 4 from rfl, and_two_pow]
      cases testBit (c * 2 ^ 8 + (b * 2 ^ 4 + a)) 4
      · exact .inl rfl
      · exact .inr rfl
    rw [← hbit, cgGlyphUnicodePresent]
    rcases hmask with hmask | hmask <;> rw [hmask] <;> decide

theorem reads_cacheGlyphV2 {order : CacheGlyphV2Order}
    (hglyphs : ∀ glyph ∈ order.glyphData, glyph.WellFormed)
    (hcount : order.glyphData.length = order.cGlyphs)
    (hflags : order.flags &&& 1 = 0) (hunicode : order.unicodeCharacters = []) :
    Mirrors 0 (updateWriteCacheGlyphV2Order order).1
      (updateReadCacheGlyphV2Order (updateWriteCacheGlyphV2Order order).2) (some order) := by
  refine .silent (emits_ensureRemainingCapacity _) ?_
  refine .assert fun hcell => .assert fun hlow => .assert fun hmany => ?_
  obtain ⟨header, hheader, hpart₁, hpart₂, hpart₃, hpresent⟩ :=
    glyphHeader (show order.cacheId < 0x10 by omega) (show order.flags < 0x10 by omega)
      (show order.cGlyphs < 0x100 by omega)
  have hreturned : (updateWriteCacheGlyphV2Order order).2 = header := hheader
  have htimes := Mirrors.times fun glyph hglyph => reads_glyphV2 (hglyphs glyph hglyph)
  rw [hcount] at htimes
  rw [hreturned, hheader, updateReadCacheGlyphV2Order, hpart₁, hpart₂, hpart₃,
    take_of_length_le (le_of_eq hcount)]
  refine .cons (n := 0) (m := 0) htimes ?_
  refine .cons (n := 0) (m := 0) (reads_noUnicode (fun h => hpresent.1 h hflags) _) ?_
  rw [← hunicode]
  exact .done order

/-! ## Colour tables -/

/-- **A colour table is never read back**: the writer puts three bytes for a colour and the
reader asks for four. -/
theorem strands_cacheColorTable {order : CacheColorTableOrder}
    (htable : order.colorTable.length = 256) :
    Strands 3 (updateWriteCacheColorTableOrder order) updateReadCacheColorTableOrder := by
  refine .check fun hcount => .silent (emits_ensureRemainingCapacity _) (.require ?_ le_rfl)
  refine .cons (n := 1) (m := 2) (.uint8 _) (.cons (n := 2) (m := 0) (.uint16 _) ?_)
  rw [hcount, take_of_length_le (le_of_eq htable)]
  refine .passes rfl ?_
  have hquad : ∀ color, Emits (updateWriteColorQuad color)
      (LittleEndian.encode 1 ((color >>> 16) &&& 0xFF) ++
        (LittleEndian.encode 1 ((color >>> 8) &&& 0xFF) ++
          (LittleEndian.encode 1 (color &&& 0xFF) ++ []))) := fun color =>
    (emits_uint8 _).cons ((emits_uint8 _).cons ((emits_uint8 _).cons emits_nil))
  refine .of_emits ((Emits.map hquad order.colorTable).cons emits_nil) (zero_le _) ?_
  intro table
  rw [ByteReader.bind_apply, require, if_neg]
  · rintro ⟨⟩
  · simp only [append_nil, length_flatMap, length_append,
      LittleEndian.length_encode, map_const', sum_replicate_nat, htable]
    omega

/-- The writer takes every colour table of 256 entries, so that there is something to read. -/
theorem updateWriteCacheColorTableOrder_ok {order : CacheColorTableOrder}
    (hindex : order.cacheIndex < 0x100) (hcount : order.numberColors = 256)
    (htable : order.colorTable.length = 256) {s : WStream} {before : List UInt8}
    (hs : s.Written before 0) : ∃ t, updateWriteCacheColorTableOrder order s = .ok t := by
  have hquad : ∀ color, Fits 3 (updateWriteColorQuad color) := fun color =>
    (fits_uint8 (lt_succ_of_le and_le_right)).cons
      ((fits_uint8 (lt_succ_of_le and_le_right)).cons
        ((fits_uint8 (lt_succ_of_le and_le_right)).cons fits_nil))
  have htake : order.colorTable.take order.numberColors = order.colorTable :=
    take_of_length_le (by omega)
  have hfields : Fits (1 + (2 + (order.colorTable.length * 3 + 0)))
      (seq [uint8 order.cacheIndex, uint16 order.numberColors,
        seq (order.colorTable.map updateWriteColorQuad)]) :=
    (fits_uint8 hindex).cons ((fits_uint16 (by omega)).cons ((Fits.map hquad _).cons fits_nil))
  have hroom := hs.ensureRemainingCapacity (16 + 256 * 4)
  obtain ⟨t, -, ht, -⟩ := hfields _ before 269 (by rw [htable]; exact hroom)
  refine ⟨t, ?_⟩
  rw [updateWriteCacheColorTableOrder, seq, check, if_pos hcount, htake]
  exact ht

/-! ## Brushes -/

/-- The depths of brushes. -/
def brushDepth (bpp : ℕ) : Prop := bpp = 1 ∨ bitmapDepth bpp

/-- The bytes of a row of eight pixels. -/
def brushScanline (bpp : ℕ) : ℕ := if bpp = 1 then 1 else 8 * (bpp / 8)

theorem getBmfBpp_getBppBmf {bpp : ℕ} (h : brushDepth bpp) :
    getBmfBpp (getBppBmf bpp).1 = (bpp, true) := by
  obtain rfl | rfl | rfl | rfl | rfl := h <;> decide

theorem brushScanline_le {bpp : ℕ} (h : brushDepth bpp) : 8 * brushScanline bpp ≤ 256 := by
  obtain rfl | rfl | rfl | rfl | rfl := h <;> decide

/-- Turned over again, the rows are the data from its start. -/
theorem brushRows_reverse_flatten (data : List UInt8) (scanline : ℕ) :
    (brushRows data scanline).reverse.flatten = data.take (8 * scanline) := by
  have hrows : (brushRows data scanline).reverse =
      (range 8).map fun i => (data.drop (i * scanline)).take scanline := rfl
  rw [hrows, ByteBuffer.flatten_windows]

theorem length_of_mem_brushRows {data row : List UInt8} {scanline : ℕ}
    (hdata : 8 * scanline ≤ data.length) (hrow : row ∈ brushRows data scanline) :
    row.length = scanline := by
  obtain ⟨i, hi, rfl⟩ := mem_map.1 hrow
  have hlt := mem_range.1 hi
  have hend : (7 - i) * scanline + scanline ≤ 8 * scanline := by
    rw [← succ_mul]
    exact mul_le_mul_right _ (by omega)
  rw [length_take, length_drop]
  omega

theorem reads_brushRows {data : List UInt8} {scanline : ℕ}
    (hdata : 8 * scanline ≤ data.length) :
    Mirrors (8 * scanline) (seq [seq ((brushRows data scanline).map bytes)])
      (readBrushRows scanline) (some (brushData (data.take (8 * scanline)))) := by
  have htimes : Mirrors (8 * scanline) (seq ((brushRows data scanline).map bytes))
      (ByteReader.times (ByteReader.bytes scanline) 8) (some (brushRows data scanline)) :=
    Mirrors.times fun row hrow => Mirrors.rawBytes (length_of_mem_brushRows hdata hrow)
  rw [← brushRows_reverse_flatten]
  exact .cons (n := 8 * scanline) (m := 0) htimes (.done _)

theorem reads_brushPixels {order : CacheBrushOrder} (hdepth : brushDepth order.bpp)
    (hcx : order.cx = 8) (hcy : order.cy = 8) (hdata : order.data.length = 256)
    (hplain : ¬readsCompressedBrush (getBppBmf order.bpp).1 order.length) :
    Mirrors 0 (writeBrushPixels order (getBppBmf order.bpp).1)
      (readBrushPixels (getBppBmf order.bpp).1 order.bpp order.cx order.cy order.length)
      (some (brushData (order.data.take (8 * brushScanline order.bpp)))) := by
  have hrows := brushScanline_le hdepth
  have hwriter : ¬writesCompressedBrush (getBppBmf order.bpp).1 order.length := fun h =>
    hplain (h.imp_right fun h => h.imp_right .inr)
  have hsize : order.cx = 8 ∧ order.cy = 8 := ⟨hcx, hcy⟩
  rw [writeBrushPixels, readBrushPixels, if_pos hsize, if_pos hsize, if_neg hplain, if_neg hwriter]
  rw [brushScanline] at hrows ⊢
  split
  next =>
    rw [if_pos ‹_›] at hrows
    refine .check fun hlength => .passes hlength ?_
    exact .mono (.require (@reads_brushRows order.data 1 (by omega)) le_rfl) (zero_le _)
  next =>
    rw [if_neg ‹_›] at hrows
    rw [mul_comm (order.bpp / 8) 8]
    exact .mono (.require (reads_brushRows (by omega)) (by omega)) (zero_le _)

theorem reads_cacheBrush {order : CacheBrushOrder} (hdepth : brushDepth order.bpp)
    (hcx : order.cx = 8) (hcy : order.cy = 8) (hdata : order.data.length = 256)
    (hplain : ¬readsCompressedBrush (getBppBmf order.bpp).1 order.length) :
    Mirrors 6 (updateWriteCacheBrushOrder order) updateReadCacheBrushOrder
      (some { order with
        data := brushData (order.data.take (8 * brushScanline order.bpp)) }) := by
  refine .silent (emits_ensureRemainingCapacity _) (.check fun _ => .require ?_ le_rfl)
  refine .cons (n := 1) (m := 5) (.uint8 _) (.cons (n := 1) (m := 4) (.uint8 _) ?_)
  rw [getBmfBpp_getBppBmf hdepth]
  refine .passes rfl ?_
  refine .cons (n := 1) (m := 3) (.uint8 _) (.cons (n := 1) (m := 2) (.uint8 _) ?_)
  refine .cons (n := 1) (m := 1) (.uint8 _) (.cons (n := 1) (m := 0) (.uint8 _) ?_)
  exact .cons (n := 0) (m := 0) (reads_brushPixels hdepth hcx hcy hdata hplain) (.done _)

/-- Rows of a fixed size are that much of the stream. -/
theorem length_of_times_bytes {k n : ℕ} {bs rest : List UInt8} {rows : List (List UInt8)}
    (h : ByteReader.times (ByteReader.bytes k) n bs = some (rows, rest)) :
    bs.length = n * k + rest.length := by
  induction n generalizing bs rows with
  | zero =>
    obtain ⟨-, rfl⟩ := Prod.mk.inj (Option.some.inj h)
    rw [zero_mul, zero_add]
  | succ n ih =>
    rw [ByteReader.times, ByteReader.bind_apply, ByteReader.bytes] at h
    split at h
    next hk =>
      rw [Option.bind_some, ByteReader.bind_apply] at h
      obtain ⟨⟨tail, left⟩, htail, hpure⟩ := Option.bind_eq_some_iff.1 h
      obtain ⟨-, rfl⟩ := Prod.mk.inj (Option.some.inj hpure)
      have hlength := ih htail
      rw [length_drop] at hlength
      rw [succ_mul]
      omega
    next => cases h

/-- A compressed brush is read up to its palette, which is left in the stream. -/
theorem length_of_updateDecompressBrush {bpp : ℕ} {bs data rest : List UInt8}
    (h : updateDecompressBrush bpp bs = some (data, rest)) : bs.length = 16 + rest.length := by
  change (require ((4 + (bpp + 1) / 8) * 4) bs).bind (fun p =>
    (ByteReader.times (ByteReader.bytes 2) 8 p.2).bind fun q => some (_, q.2)) = _ at h
  obtain ⟨⟨_, left⟩, hrequire, hrows⟩ := Option.bind_eq_some_iff.1 h
  obtain ⟨⟨rows, rest'⟩, htimes, hpure⟩ := Option.bind_eq_some_iff.1 hrows
  obtain ⟨-, rfl⟩ := Prod.mk.inj (Option.some.inj hpure)
  rw [require] at hrequire
  split at hrequire
  next =>
    obtain ⟨-, rfl⟩ := Prod.mk.inj (Option.some.inj hrequire)
    exact length_of_times_bytes htimes
  next => cases hrequire

/-- **A brush of 24 bits with the length 28 is not read back**: the writer sends its pixels and
the reader takes them for two bits each. -/
theorem strands_cacheBrush {order : CacheBrushOrder} (hbpp : order.bpp = 24)
    (hlength : order.length = 28) (hcx : order.cx = 8) (hcy : order.cy = 8)
    (hdata : order.data.length = 256) :
    Strands 6 (updateWriteCacheBrushOrder order) updateReadCacheBrushOrder := by
  have hid : getBppBmf order.bpp = (5, true) := by
    rw [hbpp]
    rfl
  refine .silent (emits_ensureRemainingCapacity _) (.check fun _ => .require ?_ le_rfl)
  refine .cons (n := 1) (m := 5) (.uint8 _) (.cons (n := 1) (m := 4) (.uint8 _) ?_)
  rw [hid]
  refine .passes rfl ?_
  refine .cons (n := 1) (m := 3) (.uint8 _) (.cons (n := 1) (m := 2) (.uint8 _) ?_)
  refine .cons (n := 1) (m := 1) (.uint8 _) (.cons (n := 1) (m := 0) (.uint8 _) ?_)
  have hpixels : writeBrushPixels order 5 = seq [seq ((brushRows order.data 24).map bytes)] := by
    rw [writeBrushPixels, hcx, hcy, hbpp, hlength]
    rfl
  have hreader :
      readBrushPixels (5, true).1 (getBmfBpp (5, true).1).1 order.cx order.cy order.length =
        updateDecompressBrush 24 := by
    rw [hcx, hcy, hlength]
    rfl
  have hlengths : (brushRows order.data 24).map List.length = replicate 8 24 := by
    refine eq_replicate_iff.2 ⟨rfl, fun n hn => ?_⟩
    obtain ⟨row, hrow, rfl⟩ := mem_map.1 hn
    exact length_of_mem_brushRows (by omega) hrow
  have hrows : (brushRows order.data 24).flatten.length = 192 := by
    rw [length_flatten, hlengths]
    rfl
  rw [hpixels]
  refine .of_emits (((Emits.map emits_bytes _).cons emits_nil).cons emits_nil) (zero_le _) ?_
  intro brush hread
  rw [hreader, ByteReader.bind_apply] at hread
  obtain ⟨⟨data, left⟩, hdecompress, hpure⟩ := Option.bind_eq_some_iff.1 hread
  obtain ⟨-, rfl⟩ := Prod.mk.inj (Option.some.inj hpure)
  have hlong := length_of_updateDecompressBrush hdecompress
  rw [append_nil, append_nil, flatMap_id', hrows] at hlong
  exact absurd hlong (by decide)

end SecondaryOrder

/-! ## All of them -/

/-- A secondary order, with what its writer is given next to it. -/
inductive SecondaryOrder
  | cacheBitmap (order : SecondaryOrder.CacheBitmapOrder)
  | cacheBitmapV2 (order : SecondaryOrder.CacheBitmapV2Order)
  | cacheBitmapV3 (order : SecondaryOrder.CacheBitmapV3Order)
  | cacheColorTable (order : SecondaryOrder.CacheColorTableOrder)
  | cacheGlyph (order : SecondaryOrder.CacheGlyphOrder) (flags : ℕ)
  | cacheGlyphV2 (order : SecondaryOrder.CacheGlyphV2Order)
  | cacheBrush (order : SecondaryOrder.CacheBrushOrder)

namespace SecondaryOrder

/-- The writer of an order; bitmaps are written as compressed as they are. -/
def write : SecondaryOrder → StreamWriter
  | cacheBitmap order => (updateWriteCacheBitmapOrder order order.compressed).1
  | cacheBitmapV2 order => (updateWriteCacheBitmapV2Order order order.compressed).1
  | cacheBitmapV3 order => (updateWriteCacheBitmapV3Order order).1
  | cacheColorTable order => updateWriteCacheColorTableOrder order
  | cacheGlyph order flags => updateWriteCacheGlyphOrder order flags
  | cacheGlyphV2 order => (updateWriteCacheGlyphV2Order order).1
  | cacheBrush order => updateWriteCacheBrushOrder order

/-- The reader, given the flags of the writer, takes all of `bs` and returns the order; the index
of a bitmap not to be cached is that of the waiting list, in revision 3 the size of the cell. -/
def ReadBack (peer : BitmapCacheV3) (bs : List UInt8) : SecondaryOrder → Prop
  | cacheBitmap order =>
    updateReadCacheBitmapOrder order.compressed
      (updateWriteCacheBitmapOrder order order.compressed).2 bs = some (order, [])
  | cacheBitmapV2 order =>
    updateReadCacheBitmapV2Order order.compressed
      (updateWriteCacheBitmapV2Order order order.compressed).2.1 bs =
      some ({ order with
        cacheIndex :=
          if doNotCache order.flags then bitmapCacheWaitingListIndex else order.cacheIndex }, [])
  | cacheBitmapV3 order =>
    updateReadCacheBitmapV3Order peer (updateWriteCacheBitmapV3Order order).2 bs =
      some ({ order with
        cacheIndex :=
          if doNotCache order.flags then peer.cells.getD order.cacheId 0
          else order.cacheIndex }, [])
  | cacheColorTable order => updateReadCacheColorTableOrder bs = some (order, [])
  | cacheGlyph order flags => updateReadCacheGlyphOrder flags bs = some (order, [])
  | cacheGlyphV2 order =>
    updateReadCacheGlyphV2Order (updateWriteCacheGlyphV2Order order).2 bs = some (order, [])
  | cacheBrush order => updateReadCacheBrushOrder bs = some (order, [])

/-- The values fit their types and what they stand for: data of the stated length, a depth of
bitmaps or brushes, 256 colours of 24 bits, no characters with the glyphs, and a brush of eight by
eight pixels that is not compressed. -/
def WellFormed : SecondaryOrder → Prop
  | cacheBitmap order =>
    bitmapDepth order.bitmapBpp ∧ order.bitmapDataStream.length = order.bitmapLength
  | cacheBitmapV2 order =>
    bitmapDepth order.bitmapBpp ∧ order.key1 < 0x100000000 ∧ order.key2 < 0x100000000 ∧
      order.bitmapDataStream.length = order.bitmapLength
  | cacheBitmapV3 order =>
    bitmapDepth order.bpp ∧ order.cacheId < 8 ∧ order.flags < 0x200 ∧
      order.key1 < 0x100000000 ∧ order.key2 < 0x100000000 ∧
      order.bitmapData.length < 0x100000000 ∧
      order.bitmapData.data.length = order.bitmapData.length
  | cacheColorTable order =>
    order.colorTable.length = 256 ∧ ∀ color ∈ order.colorTable, color < 0x1000000
  | cacheGlyph order flags =>
    (∀ glyph ∈ order.glyphData, glyph.WellFormed) ∧
      order.glyphData.length = order.cGlyphs ∧ ¬cgGlyphUnicodePresent flags ∧
      order.unicodeCharacters = []
  | cacheGlyphV2 order =>
    (∀ glyph ∈ order.glyphData, glyph.WellFormed) ∧
      order.glyphData.length = order.cGlyphs ∧ order.flags &&& 1 = 0 ∧
      order.unicodeCharacters = []
  | cacheBrush order =>
    brushDepth order.bpp ∧ order.cx = 8 ∧ order.cy = 8 ∧ order.data.length = 256 ∧
      ¬writesCompressedBrush (getBppBmf order.bpp).1 order.length

/-- What an order must be like to be read back: bitmaps are not empty, fields that the format
leaves out are clear or, for the height, follow from the others, the third revision is one that
the receiver is set up for, and a brush is not one of 24 bits with the length 28. -/
def Kept (peer : BitmapCacheV3) : SecondaryOrder → Prop
  | cacheBitmap order =>
    order.bitmapLength ≠ 0 ∧ order.bitmapComprHdr = replicate 8 0
  | cacheBitmapV2 order =>
    order.bitmapLength ≠ 0 ∧
      (¬cbr2PersistentKeyPresent order.flags → order.key1 = 0 ∧ order.key2 = 0) ∧
      (cbr2HeightSameAsWidth order.flags → order.bitmapHeight = order.bitmapWidth) ∧
      if order.compressed ∧ ¬cbr2NoBitmapCompressionHdr order.flags then
        order.bitmapLength = order.cbCompMainBodySize
      else order.cbCompFirstRowSize = 0 ∧ order.cbCompMainBodySize = 0 ∧
        order.cbScanWidth = 0 ∧ order.cbUncompressedSize = 0
  | cacheBitmapV3 order => peer.Admits order ∧ order.bitmapData.length ≠ 0
  | cacheColorTable _ => False
  | cacheGlyph _ _ => True
  | cacheGlyphV2 _ => True
  | cacheBrush order =>
    ¬(order.bpp = 24 ∧ order.length = 28) ∧
      order.data.drop (8 * brushScanline order.bpp) =
        replicate (256 - 8 * brushScanline order.bpp) 0

/-- The bytes that a writer leaves, and what the reader makes of them alone. -/
theorem readBack_of_reads {α : Type} {n : ℕ} {w : StreamWriter} {r : ByteReader α}
    {res : Option α} (h : Mirrors n w r res) {s t : WStream} {before : List UInt8}
    (hs : s.Written before 0) (hw : w s = .ok t) (order : α) :
    ∃ bs, t.written = before ++ bs ∧ (r bs = some (order, []) ↔ res = some order) := by
  obtain ⟨bs, -, hwritten, htakes⟩ := h s t before hs hw
  refine ⟨bs, hwritten.written_eq, ?_⟩
  have halone := htakes []
  rw [append_nil] at halone
  rw [halone]
  cases res with
  | none => exact ⟨nofun, nofun⟩
  | some x =>
    rw [Option.map_some, Option.some_inj, Option.some_inj, Prod.mk.injEq]
    exact and_iff_left rfl

theorem readBack_of_strands {α : Type} {n : ℕ} {w : StreamWriter} {r : ByteReader α}
    (h : Strands n w r) {s t : WStream} {before : List UInt8} (hs : s.Written before 0)
    (hw : w s = .ok t) (order : α) :
    ∃ bs, t.written = before ++ bs ∧ r bs ≠ some (order, []) := by
  obtain ⟨bs, -, hwritten, hstrands⟩ := h s t before hs hw
  exact ⟨bs, hwritten.written_eq, hstrands order⟩

/-- The first revision, as it went in. -/
theorem cacheBitmap_received_iff {order : CacheBitmapOrder}
    (hwf : (cacheBitmap order).WellFormed) (peer : BitmapCacheV3) :
    (if 1 ≤ order.bitmapBpp ∧ order.bitmapBpp ≤ 32 then
      if order.bitmapLength ≠ 0 then
        some { order with
          bitmapComprHdr := replicate 8 0,
          bitmapDataStream := order.bitmapDataStream.take order.bitmapLength }
      else none
    else none) = some order ↔ (cacheBitmap order).Kept peer := by
  obtain ⟨hdepth, hlength⟩ := hwf
  have hbpp : 1 ≤ order.bitmapBpp ∧ order.bitmapBpp ≤ 32 := by
    rw [bitmapDepth] at hdepth
    omega
  rw [if_pos hbpp, take_of_length_le (le_of_eq hlength)]
  split
  next hne =>
    refine ⟨fun h => ⟨hne, ?_⟩, fun h => ?_⟩
    · exact (congrArg CacheBitmapOrder.bitmapComprHdr (Option.some.inj h)).symm
    · rw [← h.2]
  next hempty => exact ⟨nofun, fun h => absurd h.1 hempty⟩

/-- The second revision. -/
theorem cacheBitmapV2_received_iff {order : CacheBitmapV2Order}
    (hwf : (cacheBitmapV2 order).WellFormed) (peer : BitmapCacheV3) :
    (if (order.received order.compressed).bitmapLength ≠ 0 then
      some (order.received order.compressed)
    else none) = some { order with
      cacheIndex := if doNotCache order.flags then bitmapCacheWaitingListIndex
        else order.cacheIndex } ↔ (cacheBitmapV2 order).Kept peer := by
  obtain ⟨-, -, -, hlength⟩ := hwf
  constructor
  · intro h
    split at h
    next hne =>
      have hsame := Option.some.inj h
      have hkey1 := congrArg CacheBitmapV2Order.key1 hsame
      have hkey2 := congrArg CacheBitmapV2Order.key2 hsame
      have hheight := congrArg CacheBitmapV2Order.bitmapHeight hsame
      have hbody := congrArg CacheBitmapV2Order.bitmapLength hsame
      have hfirst := congrArg CacheBitmapV2Order.cbCompFirstRowSize hsame
      have hmain := congrArg CacheBitmapV2Order.cbCompMainBodySize hsame
      have hscan := congrArg CacheBitmapV2Order.cbScanWidth hsame
      have hplain := congrArg CacheBitmapV2Order.cbUncompressedSize hsame
      simp only [CacheBitmapV2Order.received] at hkey1 hkey2 hheight hbody hfirst hmain hscan hplain
      rw [hsame] at hne
      refine ⟨hne, fun hkeys => ?_, fun hsquare => ?_, ?_⟩
      · rw [if_neg hkeys] at hkey1 hkey2
        exact ⟨hkey1.symm, hkey2.symm⟩
      · rw [if_pos hsquare] at hheight
        exact hheight.symm
      · split
        next hheader =>
          rw [if_pos hheader] at hbody
          exact hbody.symm
        next hheader =>
          rw [if_neg hheader] at hfirst hmain hscan hplain
          exact ⟨hfirst.symm, hmain.symm, hscan.symm, hplain.symm⟩
    next => cases h
  · rintro ⟨hne, hkeys, hsquare, hheader⟩
    have hkey1 : (if cbr2PersistentKeyPresent order.flags then order.key1 else 0) = order.key1 := by
      split
      next => rfl
      next h => exact (hkeys h).1.symm
    have hkey2 : (if cbr2PersistentKeyPresent order.flags then order.key2 else 0) = order.key2 := by
      split
      next => rfl
      next h => exact (hkeys h).2.symm
    have hheight : (if cbr2HeightSameAsWidth order.flags then order.bitmapWidth
        else order.bitmapHeight) = order.bitmapHeight := by
      split
      next h => exact (hsquare h).symm
      next => rfl
    have hsame : order.received order.compressed = { order with
        cacheIndex := if doNotCache order.flags then bitmapCacheWaitingListIndex
          else order.cacheIndex } := by
      have htake := take_of_length_le (le_of_eq hlength)
      by_cases h : order.compressed = true ∧ ¬cbr2NoBitmapCompressionHdr order.flags
      · rw [if_pos h] at hheader
        simp only [CacheBitmapV2Order.received, hkey1, hkey2, hheight, if_pos h, ← hheader, htake]
      · rw [if_neg h] at hheader
        obtain ⟨hfirst, hmain, hscan, hplain⟩ := hheader
        simp only [CacheBitmapV2Order.received, hkey1, hkey2, hheight, if_neg h, hfirst, hmain,
          hscan, hplain, htake]
    rw [hsame, if_pos hne]

/-- The third revision. -/
theorem cacheBitmapV3_received_iff {order : CacheBitmapV3Order}
    (hwf : (cacheBitmapV3 order).WellFormed) (peer : BitmapCacheV3) :
    (if peer.Admits order ∧ order.bitmapData.length ≠ 0 then some (order.received peer)
    else none) = some { order with
      cacheIndex := if doNotCache order.flags then peer.cells.getD order.cacheId 0
        else order.cacheIndex } ↔ (cacheBitmapV3 order).Kept peer := by
  obtain ⟨-, -, -, -, -, -, hlength⟩ := hwf
  rw [CacheBitmapV3Order.received, take_of_length_le (le_of_eq hlength)]
  split
  next hkept => exact iff_of_true rfl hkept
  next hkept => exact iff_of_false nofun hkept

/-- Only the 24-bit format is taken as compressed by the reader alone. -/
theorem readsCompressedBrush_iff {order : CacheBrushOrder}
    (hwf : (cacheBrush order).WellFormed) :
    readsCompressedBrush (getBppBmf order.bpp).1 order.length ↔
      order.bpp = 24 ∧ order.length = 28 := by
  obtain ⟨hdepth, -, -, -, hplain⟩ := hwf
  rw [writesCompressedBrush] at hplain
  rw [readsCompressedBrush]
  constructor
  · intro h
    have hmiddle : (getBppBmf order.bpp).1 = 5 ∧ order.length = 28 := by tauto
    refine ⟨?_, hmiddle.2⟩
    obtain hbpp | hbpp | hbpp | hbpp | hbpp := hdepth <;> rw [hbpp] at hmiddle ⊢ <;>
      first | rfl | exact absurd hmiddle.1 (by decide)
  · rintro ⟨hbpp, hlength⟩
    rw [hbpp]
    exact .inr (.inr (.inl ⟨rfl, hlength⟩))

/-- The bytes behind the pixels of a brush are clear. -/
theorem brushData_take_eq_iff {data : List UInt8} {n : ℕ} (hdata : data.length = 256)
    (hn : n ≤ 256) :
    brushData (data.take n) = data ↔ data.drop n = replicate (256 - n) 0 := by
  have hlength : (data.take n).length = n := by
    rw [length_take]
    omega
  have hsplit := take_append_drop n data
  rw [brushData, hlength]
  constructor
  · intro h
    exact (append_cancel_left (h.trans hsplit.symm)).symm
  · intro h
    rw [← h, hsplit]

/-- **Which secondary orders are read back.** Where the writer of a well-formed order returns
`TRUE`, the reader takes the bytes it has appended to their end and returns the order exactly when
the order is one that is kept. -/
theorem readBack_iff_kept (peer : BitmapCacheV3) {order : SecondaryOrder}
    (hwf : order.WellFormed) {s t : WStream} {before : List UInt8} (hs : s.Written before 0)
    (hw : order.write s = .ok t) :
    ∃ bs, t.written = before ++ bs ∧ (order.ReadBack peer bs ↔ order.Kept peer) := by
  cases order with
  | cacheBitmap order =>
    obtain ⟨bs, hbs, hread⟩ :=
      readBack_of_reads (reads_cacheBitmap order order.compressed) hs hw order
    exact ⟨bs, hbs, hread.trans (cacheBitmap_received_iff hwf peer)⟩
  | cacheBitmapV2 order =>
    obtain ⟨bs, hbs, hread⟩ := readBack_of_reads
      (reads_cacheBitmapV2 order.compressed hwf.1 hwf.2.1 hwf.2.2.1) hs hw _
    exact ⟨bs, hbs, hread.trans (cacheBitmapV2_received_iff hwf peer)⟩
  | cacheBitmapV3 order =>
    obtain ⟨hdepth, hcell, hflags, hkey1, hkey2, hlength, -⟩ := id hwf
    obtain ⟨bs, hbs, hread⟩ := readBack_of_reads
      (reads_cacheBitmapV3 peer hdepth hcell hflags hkey1 hkey2 hlength) hs hw _
    exact ⟨bs, hbs, hread.trans (cacheBitmapV3_received_iff hwf peer)⟩
  | cacheColorTable order =>
    obtain ⟨bs, hbs, hread⟩ :=
      readBack_of_strands (strands_cacheColorTable hwf.1) hs hw order
    exact ⟨bs, hbs, iff_of_false hread not_false⟩
  | cacheGlyph order flags =>
    obtain ⟨hglyphs, hcount, hflags, hunicode⟩ := hwf
    obtain ⟨bs, hbs, hread⟩ :=
      readBack_of_reads (reads_cacheGlyph hglyphs hcount hflags hunicode) hs hw order
    exact ⟨bs, hbs, iff_of_true (hread.2 rfl) trivial⟩
  | cacheGlyphV2 order =>
    obtain ⟨hglyphs, hcount, hflags, hunicode⟩ := hwf
    obtain ⟨bs, hbs, hread⟩ :=
      readBack_of_reads (reads_cacheGlyphV2 hglyphs hcount hflags hunicode) hs hw order
    exact ⟨bs, hbs, iff_of_true (hread.2 rfl) trivial⟩
  | cacheBrush order =>
    obtain ⟨hdepth, hcx, hcy, hdata, -⟩ := id hwf
    have hcompressed := readsCompressedBrush_iff hwf
    by_cases hbug : order.bpp = 24 ∧ order.length = 28
    · obtain ⟨bs, hbs, hread⟩ := readBack_of_strands
        (strands_cacheBrush hbug.1 hbug.2 hcx hcy hdata) hs hw order
      exact ⟨bs, hbs, iff_of_false hread fun hkept => hkept.1 hbug⟩
    · obtain ⟨bs, hbs, hread⟩ := readBack_of_reads
        (reads_cacheBrush hdepth hcx hcy hdata fun h => hbug (hcompressed.1 h)) hs hw order
      refine ⟨bs, hbs, hread.trans ?_⟩
      rw [Option.some_inj, Kept, and_iff_right hbug,
        ← brushData_take_eq_iff hdata (brushScanline_le hdepth)]
      refine ⟨fun h => congrArg CacheBrushOrder.data h, fun h => ?_⟩
      rw [h]

/-- A bitmap of two by two pixels. -/
def smallBitmap : SecondaryOrder :=
  cacheBitmap ⟨3, 16, 2, 2, 8, 300, true, replicate 8 0, [0, 1, 2, 3, 4, 5, 6, 7]⟩

set_option maxRecDepth 4000 in
/-- It is read back. -/
theorem readBack_iff_kept_bitmap : ∃ t bs, smallBitmap.write (WStream.new 0) = .ok t ∧
    t.written = bs ∧ smallBitmap.ReadBack ⟨true, 5, true, true, true, []⟩ bs := by
  obtain ⟨bs, hbs, hiff⟩ := @readBack_iff_kept ⟨true, 5, true, true, true, []⟩ smallBitmap
    ⟨.inr (.inl rfl), rfl⟩ (WStream.new 0) _ [] (WStream.written_new 0) rfl
  exact ⟨_, bs, rfl, hbs, hiff.2 ⟨by decide, rfl⟩⟩

/-- The table of 256 times the colour `0xFF8040` is well formed and written, and what is written
is not read back. -/
theorem colorTable_not_readBack :
    ∃ order, order = cacheColorTable ⟨0, 256, replicate 256 0xFF8040⟩ ∧ order.WellFormed ∧
      ∃ t bs, order.write (WStream.new 0) = .ok t ∧ t.written = bs ∧
        ¬order.ReadBack ⟨true, 5, true, true, true, []⟩ bs := by
  have htable : (replicate 256 0xFF8040 : List ℕ).length = 256 := length_replicate
  obtain ⟨t, ht⟩ := @updateWriteCacheColorTableOrder_ok
    ⟨0, 256, replicate 256 0xFF8040⟩ (by decide) rfl htable _ _ (WStream.written_new 0)
  obtain ⟨bs, hbs, hread⟩ := readBack_of_strands (strands_cacheColorTable htable)
    (WStream.written_new 0) ht ⟨0, 256, replicate 256 0xFF8040⟩
  refine ⟨_, rfl, ⟨htable, fun color hcolor => ?_⟩, t, bs, ht, hbs, hread⟩
  rw [eq_of_mem_replicate hcolor]
  decide

end SecondaryOrder
