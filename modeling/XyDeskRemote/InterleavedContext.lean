/-
# A bitmap decoded in a context that decoded others before

`interleaved_decompress`: the stream is drawn in the buffer of the context, which stays from
one bitmap to the next, and an area of the buffer is copied to the destination.  Nothing checks
that the orders draw the whole area, so pixels of earlier bitmaps may be copied with it.
`ownData_iff` says when the pixels written are those of the stream alone.
-/
import XyDeskRemote.InterleavedDecoder

open LabelledRun ImageCopy LittleEndian Decoder PixelFormat RleOrder List Nat

/-! ## The context -/

/-- `BITMAP_INTERLEAVED_CONTEXT`; the buffer is lost when it cannot grow. -/
structure InterleavedContext where
  tempSize : ℕ
  tempBuffer : Option (List UInt8)

/-- The arguments of `interleaved_decompress`. -/
structure BitmapRequest where
  src : List UInt8
  src_lt : src.length < 2 ^ 32
  width : ℕ
  height : ℕ
  bpp : ℕ
  dstFormat : UInt32
  dst : Place
  dstWidth : ℕ
  dstHeight : ℕ
  palette : Option GdiPalette

namespace BitmapRequest

/-- The format of the decoded pixels. -/
def sourceFormat (bpp : ℕ) : Option (UInt32 × PixelType) :=
  match bpp with
  | 24 => some (bgr24, .pixel24)
  | 16 => some (rgb16, .pixel16)
  | 15 => some (rgb15, .pixel16)
  | 8 => some (rgb8, .pixel8)
  | _ => none

/-- How the decoded pixels are copied. -/
def conversion (r : BitmapRequest) (srcFormat : UInt32) : Conversion :=
  { srcFormat, dstFormat := r.dstFormat, palette := r.palette, keepDstAlpha := true }

/-- The copy of the decoded pixels, upside down. -/
def copyDecoded (r : BitmapRequest) (srcFormat : UInt32) (scanline : ℕ) (buffer : List UInt8) :
    Option (List PixelWrite) :=
  imageCopyNoOverlap (r.conversion srcFormat) r.dst ⟨scanline, 0, 0⟩ r.dstWidth r.dstHeight true
    buffer

end BitmapRequest

namespace InterleavedContext

/-- `bitmap_interleaved_context_new`. -/
def new : InterleavedContext :=
  { tempSize := 64 * 64 * 4, tempBuffer := some (replicate (64 * 64 * 4) 0) }

/-- The buffer grown to `bufferSize`, when it is smaller: `winpr_aligned_recalloc` keeps what
it holds, and the rest is zero. -/
def grow (c : InterleavedContext) (bufferSize : ℕ) (allocated : Bool) : InterleavedContext :=
  if bufferSize > c.tempSize then
    { tempSize := bufferSize
      tempBuffer :=
        if allocated then
          let old := (c.tempBuffer.getD []).take bufferSize
          some (old ++ replicate (bufferSize - old.length) 0)
        else none }
  else c

/-- `RleDecompress8to8`, `RleDecompress16to16` and `RleDecompress24to24`: the buffer after
them, and their answer. -/
def decompressInto (t : PixelType) (src buffer : List UInt8) (rowDelta width height : ℕ) :
    List UInt8 × Bool :=
  if rowDelta = 0 ∨ rowDelta < width then (buffer, false)
  else
    let r := rleDecompress (Scanlines.surface t rowDelta (rowDelta * height)) t
      { surface := ⟨buffer, 0⟩, fgPel := t.whitePixel } src
    (r.1.surface.buffer, r.2)

/-- `interleaved_decompress`: the context after it, and when it succeeds, the pixels written. -/
def decompress (c : InterleavedContext) (r : BitmapRequest) (allocated : Bool) :
    InterleavedContext × Option (List PixelWrite) :=
  if r.width = 0 ∨ r.height = 0 ∨ r.dstWidth = 0 ∨ r.dstHeight = 0 then (c, none)
  else
    match BitmapRequest.sourceFormat r.bpp with
    | none => (c, none)
    | some (srcFormat, t) =>
      let scanline := r.width * t.size
      if r.width > (2 ^ 32 - 1) / t.size ∨ scanline > (2 ^ 32 - 1) / r.height then (c, none)
      else
        let c := c.grow (scanline * r.height) allocated
        match c.tempBuffer with
        | none => (c, none)
        | some buffer =>
          let d := decompressInto t r.src buffer scanline r.width r.height
          ({ c with tempBuffer := some d.1 },
            if d.2 then r.copyDecoded srcFormat scanline d.1 else none)

/-- A bitmap is decoded. -/
def step (c : InterleavedContext) (a : BitmapRequest × Bool) : Option InterleavedContext :=
  some (c.decompress a.1 a.2).1

/-- The pixels of a bitmap are those of its own data: two contexts that decoded other bitmaps
before write the same. -/
def OwnData (r : BitmapRequest) : Prop :=
  ∀ c₁ c₂, Reachable step new c₁ → Reachable step new c₂ → ∀ a₁ a₂ w₁ w₂,
    (c₁.decompress r a₁).2 = some w₁ → (c₂.decompress r a₂).2 = some w₂ → w₁ = w₂

/-! ## What is drawn, whatever the buffer held -/

/-- The stream drawn on an empty list of pixels. -/
def drawing (t : PixelType) (width height : ℕ) (src : List UInt8) : Decoder (List ℕ) × Bool :=
  rleDecompress (canvas width (width * height)) t
    { surface := [], fgPel := t.whitePixel } src

variable {t : PixelType} {width height : ℕ} {src old : List UInt8}

/-- **The buffer holds the pixels drawn, and behind them what it held before.** -/
theorem decompressInto_eq (t : PixelType) (height : ℕ) (src old : List UInt8)
    (hwidth : 0 < width) :
    decompressInto t src old (width * t.size) width height =
        (pixelBytes t (drawing t width height src).1.surface ++
            old.drop (t.size * (drawing t width height src).1.surface.length),
          (drawing t width height src).2) ∧
      (drawing t width height src).1.surface.length ≤ width * height := by
  have hscan : ¬ (width * t.size = 0 ∨ width * t.size < width) := by
    have hle := Nat.le_mul_of_pos_right width t.size_pos
    omega
  have hstart : Decoder.Related (canvas width (width * height)) t
      (Drawn t (width * height) old) { surface := ⟨old, 0⟩, fgPel := t.whitePixel }
      { surface := [], fgPel := t.whitePixel } :=
    ⟨⟨rfl, rfl, nofun, zero_le _⟩, rfl, t.white_lt, rfl, rfl, nofun⟩
  obtain ⟨hok, hrelated⟩ :=
    rleDecompress_simulates (drawn_simulates t hwidth height old) src hstart
  rw [decompressInto, if_neg hscan]
  exact ⟨Prod.ext hrelated.surface.buffer hok, hrelated.surface.length_le⟩

theorem length_drawing (hsize : width * height < 2 ^ 32)
    (h : (drawing t width height src).2 = true) :
    (drawing t width height src).1.surface.length = codedPixels t.size src := by
  rw [drawing, grown_rleDecompress hsize src { surface := [], fgPel := t.whitePixel } h]
  exact zero_add _

/-! ## The size of the buffer -/

/-- The buffer has the size that the context says, which is a number of 32 bits. -/
structure Sized (c : InterleavedContext) : Prop where
  tempSize_lt : c.tempSize < 2 ^ 32
  length_eq : ∀ b, c.tempBuffer = some b → b.length = c.tempSize

variable {c : InterleavedContext} {r : BitmapRequest}

theorem sized_grow (h : Sized c) {n : ℕ} (hn : n < 2 ^ 32) (allocated : Bool) :
    Sized (c.grow n allocated) ∧ n ≤ (c.grow n allocated).tempSize := by
  rw [grow]
  split
  · refine ⟨⟨hn, ?_⟩, le_refl _⟩
    intro b hb
    obtain ⟨-, hb⟩ := Option.ite_none_right_eq_some.1 hb
    rw [← Option.some.inj hb, length_append, length_replicate]
    exact Nat.add_sub_cancel' (List.length_take_le _ _)
  next hfits => exact ⟨h, Nat.le_of_not_lt hfits⟩

variable {ws : List PixelWrite}

/-- What a call does that gets as far as the orders: where it draws, and what it copies. -/
theorem decompress_eq_some {allocated : Bool} (h : (c.decompress r allocated).2 = some ws) :
    ∃ srcFormat t b, BitmapRequest.sourceFormat r.bpp = some (srcFormat, t) ∧
      0 < r.width ∧ 0 < r.height ∧ 0 < r.dstWidth ∧ 0 < r.dstHeight ∧
      r.width * t.size * r.height < 2 ^ 32 ∧
      (c.grow (r.width * t.size * r.height) allocated).tempBuffer = some b ∧
      (drawing t r.width r.height r.src).2 = true ∧
      r.copyDecoded srcFormat (r.width * t.size)
        (pixelBytes t (drawing t r.width r.height r.src).1.surface ++
          b.drop (t.size * (drawing t r.width r.height r.src).1.surface.length)) = some ws := by
  rw [decompress] at h
  split at h
  · cases h
  split at h
  · cases h
  next hdims srcFormat t hformat =>
    dsimp only at h
    split at h
    · cases h
    next hscan =>
      split at h
      · cases h
      next b hb =>
        have hwidth : 0 < r.width := by omega
        have hheight : 0 < r.height := by omega
        rw [(decompressInto_eq _ _ _ _ hwidth).1] at h
        obtain ⟨hok, hcopy⟩ := Option.ite_none_right_eq_some.1 h
        have hsize : r.width * t.size * r.height < 2 ^ 32 := by
          have hle := (le_div_iff_mul_le hheight).1 (by omega :
            r.width * t.size ≤ (2 ^ 32 - 1) / r.height)
          omega
        exact ⟨srcFormat, t, b, hformat, hwidth, hheight, by omega, by omega, hsize, hb, hok, hcopy⟩

theorem sized_decompress (h : Sized c) (r : BitmapRequest) (allocated : Bool) :
    Sized (c.decompress r allocated).1 := by
  rw [decompress]
  split
  · exact h
  split
  · exact h
  next hdims srcFormat t hformat =>
    dsimp only
    split
    · exact h
    next hscan =>
      have hwidth : 0 < r.width := by omega
      have hheight : 0 < r.height := by omega
      have hle := (le_div_iff_mul_le hheight).1 (by omega :
        r.width * t.size ≤ (2 ^ 32 - 1) / r.height)
      obtain ⟨hgrown, hroom⟩ := sized_grow h (n := r.width * t.size * r.height) (by omega)
        allocated
      split
      · exact hgrown
      next b hb =>
        obtain ⟨heq, hdrawn⟩ := decompressInto_eq t r.height r.src b hwidth
        refine ⟨hgrown.tempSize_lt, ?_⟩
        intro b' hb'
        rw [← Option.some.inj hb', heq, length_append, length_pixelBytes, length_drop,
          hgrown.length_eq b hb]
        have hfits := mul_le_mul_left t.size hdrawn
        have hbytes : t.size * (r.width * r.height) = r.width * t.size * r.height := by
          ring
        rw [hbytes] at hfits
        exact Nat.add_sub_cancel' (hfits.trans hroom)

theorem sized_reachable (h : Reachable step new c) : Sized c := by
  obtain ⟨as, has⟩ := h
  refine run_induct (P := Sized) ?_ ⟨by decide, ?_⟩ has
  · intro c a c' hc hstep
    rw [← Option.some.inj hstep]
    exact sized_decompress hc a.1 a.2
  · intro b hb
    rw [← Option.some.inj hb]
    exact length_replicate

/-! ## The pixels that are copied -/

/-- The pixel at `k` of a buffer. -/
def pixelAt (t : PixelType) (buffer : List UInt8) (k : ℕ) : Option (List UInt8) :=
  readPixel buffer (t.size * k) t.size

variable {b : List UInt8}

theorem pixelAt_eq_some {k : ℕ} {p : List UInt8} (h : pixelAt t b k = some p) :
    t.size * k + t.size ≤ b.length ∧ p.length = t.size := by
  obtain ⟨hroom, h⟩ := Option.ite_none_right_eq_some.1 h
  refine ⟨hroom, ?_⟩
  rw [← Option.some.inj h, length_take, length_drop]
  omega

theorem pixelAt_drawn {ps : List ℕ} {k : ℕ} (hk : k < ps.length) (rest : List UInt8) :
    pixelAt t (pixelBytes t ps ++ rest) k = some (encode t.size (ps.getD k 0)) := by
  have hroom : t.size * k + t.size ≤ (pixelBytes t ps).length := by
    rw [length_pixelBytes, ← mul_succ]
    exact mul_le_mul_left _ hk
  rw [pixelAt, readPixel, if_pos (by rw [length_append]; omega),
    drop_append_of_le_length (by omega),
    take_append_of_le_length (by rw [length_drop]; omega), pixelBytes_at hk]

theorem pixelAt_stale {ps : List ℕ} {k : ℕ} (hk : ps.length ≤ k)
    (hfits : t.size * ps.length ≤ b.length) :
    pixelAt t (pixelBytes t ps ++ b.drop (t.size * ps.length)) k = pixelAt t b k := by
  have hle := mul_le_mul_left t.size hk
  have hlength : (pixelBytes t ps ++ b.drop (t.size * ps.length)).length = b.length := by
    rw [length_append, length_pixelBytes, length_drop]
    exact Nat.add_sub_cancel' hfits
  have hdrop : (pixelBytes t ps ++ b.drop (t.size * ps.length)).drop (t.size * k) =
      b.drop (t.size * k) := by
    rw [drop_append, drop_of_length_le (by rw [length_pixelBytes]; exact hle),
      nil_append, drop_drop, length_pixelBytes, Nat.add_sub_cancel' hle]
  rw [pixelAt, readPixel, hlength, hdrop]
  rfl

/-- A longer buffer has the same pixels in front. -/
theorem pixelAt_append {k : ℕ} (h : t.size * k + t.size ≤ b.length) (rest : List UInt8) :
    pixelAt t (b ++ rest) k = pixelAt t b k := by
  rw [pixelAt, pixelAt, readPixel, readPixel, if_pos h,
    if_pos (by rw [length_append]; omega), drop_append_of_le_length (by omega),
    take_append_of_le_length (by rw [length_drop]; omega)]

/-- The pixel that the copy of the area puts at `(x, y)`. -/
def sourcePixel (r : BitmapRequest) (p : ℕ × ℕ) : ℕ := (r.dstHeight - 1 - p.1) * r.width + p.2

/-- The positions of the area, as `(y, x)`. -/
def area (r : BitmapRequest) : List (ℕ × ℕ) :=
  (range r.dstHeight).flatMap fun y => (range r.dstWidth).map fun x => (y, x)

theorem mem_area {p : ℕ × ℕ} : p ∈ area r ↔ p.1 < r.dstHeight ∧ p.2 < r.dstWidth := by
  simp only [area, mem_flatMap, mem_range, mem_map]
  constructor
  · rintro ⟨y, hy, x, hx, rfl⟩
    exact ⟨hy, hx⟩
  · rintro ⟨hy, hx⟩
    exact ⟨p.1, hy, p.2, hx, rfl⟩

/-- The last pixel that is copied. -/
def lastPixel (r : BitmapRequest) : ℕ := (r.dstHeight - 1) * r.width + (r.dstWidth - 1)

theorem sourcePixel_le {p : ℕ × ℕ} (h : p ∈ area r) : sourcePixel r p ≤ lastPixel r := by
  obtain ⟨hy, hx⟩ := mem_area.1 h
  have hrow := Nat.mul_le_mul_right r.width (sub_le (r.dstHeight - 1) p.1)
  rw [sourcePixel, lastPixel]
  omega

theorem lastPixel_mem (hwidth : 0 < r.dstWidth) (hheight : 0 < r.dstHeight) :
    (0, r.dstWidth - 1) ∈ area r ∧ sourcePixel r (0, r.dstWidth - 1) = lastPixel r :=
  ⟨mem_area.2 ⟨hheight, sub_lt hwidth one_pos⟩, rfl⟩

/-- Where the copy writes. -/
def target (r : BitmapRequest) (p : ℕ × ℕ) : ℕ :=
  (p.1 + r.dst.y) * effectiveStep r.dst r.dstWidth (bytesPerPixel r.dstFormat) +
    (p.2 + r.dst.x) * bytesPerPixel r.dstFormat

/-- What the copy writes at a position, from the pixels of a buffer. -/
def writeAt (r : BitmapRequest) (t : PixelType) (srcFormat : UInt32) (buffer : List UInt8)
    (p : ℕ × ℕ) : Option PixelWrite :=
  (pixelAt t buffer (sourcePixel r p)).bind fun pixel =>
    (copyPixel (r.conversion srcFormat) pixel).map fun bytes => ⟨target r p, bytes⟩

variable {srcFormat : UInt32}

theorem bytesPerPixel_sourceFormat {bpp : ℕ}
    (h : BitmapRequest.sourceFormat bpp = some (srcFormat, t)) :
    bytesPerPixel srcFormat = t.size ∧ bitsPerPixel srcFormat ≠ 0 ∧ t.size ≤ 3 := by
  unfold BitmapRequest.sourceFormat at h
  split at h
  · obtain ⟨rfl, rfl⟩ := Prod.mk.inj (Option.some.inj h)
    decide
  · obtain ⟨rfl, rfl⟩ := Prod.mk.inj (Option.some.inj h)
    decide
  · obtain ⟨rfl, rfl⟩ := Prod.mk.inj (Option.some.inj h)
    decide
  · obtain ⟨rfl, rfl⟩ := Prod.mk.inj (Option.some.inj h)
    decide
  · cases h

theorem copyDecoded_eq_some (hformat : BitmapRequest.sourceFormat r.bpp = some (srcFormat, t))
    (hwidth : 0 < r.width) (hdstWidth : 0 < r.dstWidth) (hdstHeight : 0 < r.dstHeight) :
    r.copyDecoded srcFormat (r.width * t.size) b = some ws ↔
      (bitsPerPixel r.dstFormat ≠ 0 ∧ r.dst.x + r.dstWidth < 2 ^ 32 ∧ r.dstWidth ≤ r.width ∧
        r.dst.x + r.dstWidth ≤ effectiveStep r.dst r.dstWidth (bytesPerPixel r.dstFormat) /
          bytesPerPixel r.dstFormat ∧ r.dstHeight < 2 ^ 31 ∧ r.dstWidth < 2 ^ 31) ∧
      (area r).map (writeAt r t srcFormat b) = ws.map some := by
  obtain ⟨hbytes, hbits, -⟩ := bytesPerPixel_sourceFormat hformat
  have hsize := t.size_pos
  have hstep : r.width * t.size ≠ 0 := (mul_pos hwidth hsize).ne'
  have hdiv : r.width * t.size / t.size = r.width := Nat.mul_div_cancel _ hsize
  have hwrites : (area r).map (writeAt r t srcFormat b) = (area r).map fun p =>
      copyAt (r.conversion srcFormat) { r.dst with
        step := effectiveStep r.dst r.dstWidth (bytesPerPixel r.dstFormat) }
        ⟨r.width * t.size, 0, 0⟩ r.dstHeight true b p.1 p.2 := by
    refine map_congr_left fun p hp => ?_
    obtain ⟨hy, hx⟩ := mem_area.1 hp
    have hoffset : (r.dstHeight - 1 - (p.1 + 0)) * (r.width * t.size) + (p.2 + 0) * t.size =
        t.size * sourcePixel r p := by
      rw [add_zero, add_zero, sourcePixel]
      ring
    have hflip : ¬ (true = true ∧ r.dstHeight ≤ p.1 + 0) := by omega
    rw [copyAt, if_neg hflip]
    dsimp only [BitmapRequest.conversion]
    rw [hbytes, if_pos rfl, hoffset]
    rfl
  rw [BitmapRequest.copyDecoded, imageCopyNoOverlap_eq_some hdstWidth.ne' hdstHeight.ne' hstep]
  dsimp only [BitmapRequest.conversion] at hwrites ⊢
  rw [hbytes, hdiv, hwrites]
  refine and_congr_left fun _ => ?_
  constructor
  · rintro ⟨-, h₁, h₂, h₃, h₄, h₅, h₆, h₇⟩
    exact ⟨h₁, h₂, by omega, h₄, h₆, h₇⟩
  · rintro ⟨h₁, h₂, h₃, h₄, h₅, h₆⟩
    exact ⟨hbits, h₁, h₂, by omega, h₄, by omega, h₅, h₆⟩

/-- What a call does with a buffer at hand and a stream that can be drawn. -/
theorem decompress_of_drawing {allocated : Bool}
    (hformat : BitmapRequest.sourceFormat r.bpp = some (srcFormat, t)) (hwidth : 0 < r.width)
    (hheight : 0 < r.height) (hdstWidth : 0 < r.dstWidth) (hdstHeight : 0 < r.dstHeight)
    (hsize : r.width * t.size * r.height < 2 ^ 32)
    (hb : (c.grow (r.width * t.size * r.height) allocated).tempBuffer = some b) :
    (c.decompress r allocated).1.tempBuffer =
        some (pixelBytes t (drawing t r.width r.height r.src).1.surface ++
          b.drop (t.size * (drawing t r.width r.height r.src).1.surface.length)) ∧
      ((drawing t r.width r.height r.src).2 = true →
        (c.decompress r allocated).2 = r.copyDecoded srcFormat (r.width * t.size)
          (pixelBytes t (drawing t r.width r.height r.src).1.surface ++
            b.drop (t.size * (drawing t r.width r.height r.src).1.surface.length))) := by
  have hscan : r.width * t.size ≤ (2 ^ 32 - 1) / r.height :=
    (le_div_iff_mul_le hheight).2 (by omega)
  have hrow : r.width ≤ (2 ^ 32 - 1) / t.size := by
    have hle := Nat.le_mul_of_pos_right (r.width * t.size) hheight
    exact (le_div_iff_mul_le t.size_pos).2 (by omega)
  rw [decompress, if_neg (by omega), hformat]
  dsimp only
  rw [if_neg (by omega), hb]
  dsimp only
  rw [(decompressInto_eq _ _ _ _ hwidth).1]
  exact ⟨rfl, fun hok => if_pos hok⟩

/-! ## When the pixels are those of the stream -/

/-- The orders draw every pixel that is copied. -/
def Fills (r : BitmapRequest) : Prop :=
  ∀ srcFormat t, BitmapRequest.sourceFormat r.bpp = some (srcFormat, t) →
    lastPixel r < codedPixels t.size r.src

/-- The conversion writes the same for every pixel that it can convert. -/
def OneColor (r : BitmapRequest) : Prop :=
  ∀ srcFormat t, BitmapRequest.sourceFormat r.bpp = some (srcFormat, t) →
    ∀ p q : List UInt8, p.length = t.size → q.length = t.size →
      ∀ bp bq, copyPixel (r.conversion srcFormat) p = some bp →
        copyPixel (r.conversion srcFormat) q = some bq → bp = bq

theorem writeAt_eq_some {p : ℕ × ℕ} {w : PixelWrite} (h : writeAt r t srcFormat b p = some w) :
    ∃ pixel bytes, pixelAt t b (sourcePixel r p) = some pixel ∧
      copyPixel (r.conversion srcFormat) pixel = some bytes ∧ w = ⟨target r p, bytes⟩ := by
  obtain ⟨pixel, hpixel, h⟩ := Option.bind_eq_some_iff.1 h
  obtain ⟨bytes, hbytes, h⟩ := Option.map_eq_some_iff.1 h
  exact ⟨pixel, bytes, hpixel, hbytes, h.symm⟩

theorem writeAt_isSome (h : (area r).map (writeAt r t srcFormat b) = ws.map some) {p : ℕ × ℕ}
    (hp : p ∈ area r) :
    ∃ w, writeAt r t srcFormat b p = some w := by
  have hmem : writeAt r t srcFormat b p ∈ ws.map some := by
    rw [← h]
    exact mem_map_of_mem hp
  obtain ⟨w, -, hw⟩ := mem_map.1 hmem
  exact ⟨w, hw.symm⟩

theorem ownData_of_fills_or (h : Fills r ∨ OneColor r) : OwnData r := by
  intro c₁ c₂ _ _ a₁ a₂ w₁ w₂ h₁ h₂
  obtain ⟨srcFormat, t, b₁, hformat, hwidth, -, hdw, hdh, hsize, -, hok, hcopy₁⟩ :=
    decompress_eq_some h₁
  obtain ⟨srcFormat', t', b₂, hformat', -, -, -, -, -, -, -, hcopy₂⟩ := decompress_eq_some h₂
  obtain ⟨rfl, rfl⟩ := Prod.mk.inj (Option.some.inj (hformat.symm.trans hformat'))
  obtain ⟨-, hwrites₁⟩ := (copyDecoded_eq_some hformat hwidth hdw hdh).1 hcopy₁
  obtain ⟨-, hwrites₂⟩ := (copyDecoded_eq_some hformat hwidth hdw hdh).1 hcopy₂
  refine (Option.some_injective _).list_map (hwrites₁.symm.trans ?_ |>.trans hwrites₂)
  refine map_congr_left fun p hp => ?_
  rcases h with hfills | hone
  · -- the pixel is one of those drawn
    have hpixels : r.width * r.height < 2 ^ 32 := by
      have hle := Nat.mul_le_mul_right r.height (Nat.le_mul_of_pos_right r.width t.size_pos)
      omega
    have hk : sourcePixel r p < (drawing t r.width r.height r.src).1.surface.length := by
      rw [length_drawing hpixels hok]
      exact lt_of_le_of_lt (sourcePixel_le hp) (hfills srcFormat t hformat)
    rw [writeAt, writeAt, pixelAt_drawn hk, pixelAt_drawn hk]
  · obtain ⟨x, hx⟩ := writeAt_isSome hwrites₁ hp
    obtain ⟨y, hy⟩ := writeAt_isSome hwrites₂ hp
    obtain ⟨px, bx, hpx, hbx, rfl⟩ := writeAt_eq_some hx
    obtain ⟨py, bytes, hpy, hby, rfl⟩ := writeAt_eq_some hy
    rw [hx, hy, hone srcFormat t hformat px py (pixelAt_eq_some hpx).2 (pixelAt_eq_some hpy).2 bx
      bytes hbx hby]

/-! ## Contexts that hold a color -/

/-- A color run with its length in two bytes. -/
def colorRunBytes (size v m : ℕ) : List UInt8 :=
  0xF3 :: (encode 2 m ++ encode size v)

theorem parseOrder_colorRunBytes {v m : ℕ} (hv : v < 256 ^ t.size) (hm : m < 65536)
    (rest : List UInt8) : parseOrder t.size (colorRunBytes t.size v m ++ rest) =
      some (.colorRun m v, rest) := by
  have hlength : extractRunLength 0xF3 (colorRunBytes t.size v m ++ rest) =
      some (m, encode t.size v ++ rest) := by
    have hdecode : decode (encode 2 m) = m :=
      decode_encode_of_lt hm
    have hmega : extractRunLength 0xF3 (colorRunBytes t.size v m ++ rest) =
        some (decode (encode 2 m),
          encode t.size v ++ rest) := rfl
    rw [hmega, hdecode]
  have hpixel : srcReadPixel t.size (encode t.size v ++ rest) =
      some (v, rest) := by
    have hroom : t.size ≤ (encode t.size v ++ rest).length := by
      rw [length_append, length_encode]
      exact le_add_right _ _
    rw [srcReadPixel, if_pos hroom, take_left' (length_encode _ _),
      drop_left' (length_encode _ _), decode_encode_of_lt hv]
  have hparse : parseOrder t.size (colorRunBytes t.size v m ++ rest) =
      (extractRunLength 0xF3 (colorRunBytes t.size v m ++ rest)).bind fun q =>
        (srcReadPixel t.size q.2).map fun a => (.colorRun q.1 a.1, a.2) := rfl
  rw [hparse, hlength, Option.bind_some, hpixel]
  rfl

theorem surface_unroll_const (v n : ℕ) (d : Decoder (List ℕ)) {count : ℕ} :
    (unroll (canvas width count) (fun _ => v) n d).surface =
      d.surface ++ replicate n v := by
  induction n generalizing d with
  | zero => exact (append_nil _).symm
  | succ n ih =>
    rw [unroll, ih, replicate_succ]
    exact append_assoc d.surface [v] _

theorem rleDecompress_colorRuns (width : ℕ) {v : ℕ} (hv : v < 256 ^ t.size) (count : ℕ)
    (ms : List ℕ) (hms : ∀ m ∈ ms, m < 65536) (d : Decoder (List ℕ))
    (hroom : d.surface.length + ms.sum ≤ count) :
    (rleDecompress (canvas width count) t d (ms.flatMap (colorRunBytes t.size v))).2 =
        true ∧
      (rleDecompress (canvas width count) t d
        (ms.flatMap (colorRunBytes t.size v))).1.surface =
          d.surface ++ replicate ms.sum v := by
  induction ms generalizing d with
  | nil =>
    rw [flatMap_nil, rleDecompress_nil]
    exact ⟨rfl, (append_nil _).symm⟩
  | cons m ms ih =>
    rw [sum_cons] at hroom
    have hexecute : execute (canvas width count) t (d.watchFirstLine (canvas width count))
        (.colorRun m v) = (unroll (canvas width count) (fun _ => v) m
          { d.watchFirstLine (canvas width count) with insertFgPel := false }, true) := by
      refine if_pos (decide_eq_true ?_)
      show (d.watchFirstLine (canvas width count)).surface.length + m ≤ count
      rw [surface_watchFirstLine]
      omega
    have hsurface : (unroll (canvas width count) (fun _ => v) m
        { d.watchFirstLine (canvas width count) with insertFgPel := false }).surface =
          d.surface ++ replicate m v := by
      rw [surface_unroll_const]
      exact congrArg (· ++ _) (surface_watchFirstLine d)
    rw [flatMap_cons, rleDecompress_of_parse d
      (parseOrder_colorRunBytes hv (hms m mem_cons_self) _), hexecute, if_pos rfl]
    dsimp only
    have hrest := ih (fun m' hm' => hms m' (mem_cons_of_mem m hm'))
      (unroll (canvas width count) (fun _ => v) m
        { d.watchFirstLine (canvas width count) with insertFgPel := false }) (by
      rw [hsurface, length_append, length_replicate]
      omega)
    refine ⟨hrest.1, ?_⟩
    rw [hrest.2, hsurface, append_assoc, ← replicate_add, sum_cons]

/-- The runs that draw `n` pixels. -/
def runLengths (n : ℕ) : List ℕ := replicate (n / 65535) 65535 ++ [n % 65535]

theorem runLengths_facts (n : ℕ) :
    (runLengths n).sum = n ∧ (∀ m ∈ runLengths n, m < 65536) ∧
      (runLengths n).length = n / 65535 + 1 := by
  refine ⟨?_, ?_, ?_⟩
  · rw [runLengths, sum_append_nat, sum_replicate_nat, sum_singleton]
    omega
  · intro m hm
    rcases mem_append.1 hm with hm | hm
    · rw [eq_of_mem_replicate hm]
      decide
    · rw [mem_singleton.1 hm]
      omega
  · rw [runLengths, length_append, length_replicate, length_singleton]

theorem length_colorRuns (size v : ℕ) (ms : List ℕ) :
    (ms.flatMap (colorRunBytes size v)).length = ms.length * (size + 3) := by
  induction ms with
  | nil => rw [flatMap_nil, length_nil, length_nil, zero_mul]
  | cons m ms ih =>
    have hrun : (colorRunBytes size v m).length = size + 3 := by
      rw [colorRunBytes, length_cons, length_append, length_encode, length_encode]
      omega
    rw [flatMap_cons, length_append, hrun, ih, length_cons]
    ring

/-- A buffer that is large enough, or grows, keeps what it holds. -/
theorem grow_of_allocated (h : Sized c) (hb : c.tempBuffer = some b) (m : ℕ) :
    ∃ zeros, (c.grow m true).tempBuffer = some (b ++ zeros) := by
  rw [grow]
  split
  next hlarge =>
    have hlength := h.length_eq b hb
    refine ⟨replicate (m - b.length) 0, ?_⟩
    dsimp only
    rw [if_pos rfl, hb, Option.getD_some, take_of_length_le (by omega)]
  next => exact ⟨[], by rw [hb, append_nil]⟩

/-- **Every pixel can be left behind** in front of a buffer. -/
theorem exists_filled {bpp n v : ℕ} (hformat : BitmapRequest.sourceFormat bpp = some (srcFormat, t))
    (hv : v < 256 ^ t.size) (hn : 0 < n) (hsize : n * t.size < 2 ^ 32) :
    ∃ c b, Reachable step new c ∧ c.tempBuffer = some b ∧
      ∀ k < n, pixelAt t b k = some (encode t.size v) := by
  obtain ⟨hsum, hlt, hlength⟩ := runLengths_facts n
  have hsrc : ((runLengths n).flatMap (colorRunBytes t.size v)).length < 2 ^ 32 := by
    have hn32 : n < 2 ^ 32 := lt_of_le_of_lt (Nat.le_mul_of_pos_right n t.size_pos) hsize
    have hthree := (bytesPerPixel_sourceFormat hformat).2.2
    have hle := mul_le_mul (show n / 65535 + 1 ≤ 65539 by omega)
      (show t.size + 3 ≤ 6 by omega)
    rw [length_colorRuns, hlength]
    omega
  let r : BitmapRequest :=
    { src := (runLengths n).flatMap (colorRunBytes t.size v), src_lt := hsrc, width := n
      height := 1, bpp, dstFormat := 0, dst := ⟨0, 0, 0⟩, dstWidth := 1, dstHeight := 1
      palette := none }
  obtain ⟨zeros, hgrow⟩ := grow_of_allocated (sized_reachable (Reachable.refl new)) rfl
    (n * t.size * 1)
  have hdraw := rleDecompress_colorRuns n hv (n * 1) (runLengths n) hlt
    { surface := [], fgPel := t.whitePixel } (by
      rw [hsum]
      show 0 + n ≤ n * 1
      omega)
  obtain ⟨hbuffer, -⟩ := decompress_of_drawing (r := r) hformat hn one_pos one_pos
    one_pos (show n * t.size * 1 < 2 ^ 32 by omega) hgrow
  have hpixels : (drawing t r.width r.height r.src).1.surface = replicate n v := by
    rw [← hsum]
    exact hdraw.2
  rw [hpixels] at hbuffer
  refine ⟨_, _, ⟨[(r, true)], rfl⟩, hbuffer, ?_⟩
  intro k hk
  have hget : (replicate n v).getD k 0 = v := by
    rw [getD_eq_getElem _ _ (by rw [length_replicate]; exact hk), getElem_replicate]
  rw [pixelAt_drawn (by rw [length_replicate]; exact hk), hget]

/-! ## Old pixels -/

/-- Some state of the context accepts the bitmap. -/
def Accepted (r : BitmapRequest) : Prop :=
  ∃ c a w, Reachable step new c ∧ (c.decompress r a).2 = some w

/-- A function that has a value at every element of a list. -/
theorem exists_map_some {α β : Type*} {f : α → Option β} {l : List α}
    (h : ∀ a ∈ l, ∃ b, f a = some b) : ∃ bs : List β, l.map f = bs.map some := by
  induction l with
  | nil => exact ⟨[], rfl⟩
  | cons a l ih =>
    obtain ⟨b, hb⟩ := h a mem_cons_self
    obtain ⟨bs, hbs⟩ := ih fun a' ha' => h a' (mem_cons_of_mem a ha')
    exact ⟨b :: bs, by rw [map_cons, map_cons, hb, hbs]⟩

/-- What the bitmap writes in a context that holds a color the conversion accepts. -/
theorem exists_written (hr : Accepted r)
    (hformat : BitmapRequest.sourceFormat r.bpp = some (srcFormat, t))
    (hstale : codedPixels t.size r.src ≤ lastPixel r) {p bytes : List UInt8}
    (hp : p.length = t.size) (hbytes : copyPixel (r.conversion srcFormat) p = some bytes) :
    (0, r.dstWidth - 1) ∈ area r ∧
      ∃ c w b, Reachable step new c ∧ (c.decompress r true).2 = some w ∧
        (area r).map (writeAt r t srcFormat b) = w.map some ∧
        writeAt r t srcFormat b (0, r.dstWidth - 1) =
          some ⟨target r (0, r.dstWidth - 1), bytes⟩ := by
  obtain ⟨c₀, a₀, w₀, hc₀, hw₀⟩ := hr
  obtain ⟨srcFormat', t', b₀, hformat', hwidth, hheight, hdw, hdh, hsize, hb₀, hok, hcopy₀⟩ :=
    decompress_eq_some hw₀
  obtain ⟨rfl, rfl⟩ := Prod.mk.inj (Option.some.inj (hformat.symm.trans hformat'))
  obtain ⟨hchecks, hwrites₀⟩ := (copyDecoded_eq_some hformat hwidth hdw hdh).1 hcopy₀
  obtain ⟨hlast, hlastPixel⟩ := lastPixel_mem hdw hdh
  set ps := (drawing t r.width r.height r.src).1.surface with hps
  have hpixels : r.width * r.height < 2 ^ 32 := by
    have hle := Nat.mul_le_mul_right r.height (Nat.le_mul_of_pos_right r.width t.size_pos)
    omega
  have hcount : ps.length = codedPixels t.size r.src := length_drawing hpixels hok
  have hdrawn : t.size * ps.length ≤ r.width * t.size * r.height := by
    have hle := (decompressInto_eq t r.height r.src [] hwidth).2
    calc t.size * ps.length ≤ t.size * (r.width * r.height) := mul_le_mul_left _ hle
      _ = r.width * t.size * r.height := by ring
  -- a context with a buffer that is large enough has accepted the bitmap
  have hlastFits : (lastPixel r + 1) * t.size < 2 ^ 32 := by
    obtain ⟨hsized, hroom⟩ := sized_grow (sized_reachable hc₀) hsize a₀
    have hlength := hsized.length_eq b₀ hb₀
    obtain ⟨w, hw⟩ := writeAt_isSome hwrites₀ hlast
    obtain ⟨pixel, bytes', hpixel, -⟩ := writeAt_eq_some hw
    rw [hlastPixel, pixelAt_stale (by omega) (by omega)] at hpixel
    have hend := (pixelAt_eq_some hpixel).1
    have hlt := hsized.tempSize_lt
    calc (lastPixel r + 1) * t.size = t.size * lastPixel r + t.size := by ring
      _ < 2 ^ 32 := by omega
  have hv : decode p < 256 ^ t.size := hp ▸ decode_lt p
  have hencode : encode t.size (decode p) = p := by
    rw [← hp]
    exact encode_decode p
  obtain ⟨c, b, hc, hb, hfilled⟩ :=
    exists_filled hformat hv (succ_pos (lastPixel r)) hlastFits
  rw [hencode] at hfilled
  obtain ⟨zeros, hgrow⟩ := grow_of_allocated (sized_reachable hc) hb (r.width * t.size * r.height)
  obtain ⟨hsized, hroom⟩ := sized_grow (sized_reachable hc) hsize true
  have hfits : t.size * ps.length ≤ (b ++ zeros).length := by
    have hlength := hsized.length_eq _ hgrow
    omega
  have hwrite : ∀ q ∈ area r, ps.length ≤ sourcePixel r q →
      writeAt r t srcFormat (pixelBytes t ps ++ (b ++ zeros).drop (t.size * ps.length)) q =
        some ⟨target r q, bytes⟩ := by
    intro q hq hk
    have hold := hfilled (sourcePixel r q) (lt_succ_of_le (sourcePixel_le hq))
    rw [writeAt, pixelAt_stale hk hfits, pixelAt_append (pixelAt_eq_some hold).1, hold,
      Option.bind_some, hbytes]
    rfl
  have hall : ∀ q ∈ area r, ∃ w,
      writeAt r t srcFormat (pixelBytes t ps ++ (b ++ zeros).drop (t.size * ps.length)) q =
        some w := by
    intro q hq
    by_cases hk : sourcePixel r q < ps.length
    · obtain ⟨w, hw⟩ := writeAt_isSome hwrites₀ hq
      refine ⟨w, ?_⟩
      rw [writeAt, pixelAt_drawn hk] at hw ⊢
      exact hw
    · exact ⟨_, hwrite q hq (Nat.le_of_not_lt hk)⟩
  obtain ⟨w, hw⟩ := exists_map_some hall
  refine ⟨hlast, c, w, _, hc, ?_, hw, hwrite _ hlast (by rw [hlastPixel]; omega)⟩
  rw [(decompress_of_drawing hformat hwidth hheight hdw hdh hsize hgrow).2 hok]
  exact (copyDecoded_eq_some hformat hwidth hdw hdh).2 ⟨hchecks, hw⟩

theorem not_ownData (hr : Accepted r) (hfills : ¬ Fills r) (hone : ¬ OneColor r) :
    ¬ OwnData r := by
  intro hown
  simp only [OneColor, not_forall] at hone
  obtain ⟨srcFormat, t, hformat, p, q, hp, hq, bp, bq, hbp, hbq, hne⟩ := hone
  have hstale : codedPixels t.size r.src ≤ lastPixel r := by
    refine Nat.le_of_not_lt fun hlt => hfills fun srcFormat' t' hformat' => ?_
    obtain ⟨rfl, rfl⟩ := Prod.mk.inj (Option.some.inj (hformat.symm.trans hformat'))
    exact hlt
  obtain ⟨hmem, c₁, w₁, b₁, hc₁, hw₁, hmap₁, hlast₁⟩ := exists_written hr hformat hstale hp hbp
  obtain ⟨-, c₂, w₂, b₂, hc₂, hw₂, hmap₂, hlast₂⟩ := exists_written hr hformat hstale hq hbq
  have hsame := hown c₁ c₂ hc₁ hc₂ true true w₁ w₂ hw₁ hw₂
  have hwrites := map_inj_left.1 (hmap₁.trans (hsame ▸ hmap₂.symm)) _ hmem
  rw [hlast₁, hlast₂] at hwrites
  exact hne (PixelWrite.mk.inj (Option.some.inj hwrites)).2

/-- **When a bitmap shows its own data alone.**  The orders draw as far as pixels are copied, or
the conversion writes one color whatever it reads; otherwise some two contexts that accept the
bitmap write different pixels. -/
theorem ownData_iff (r : BitmapRequest) :
    OwnData r ↔ (Accepted r → Fills r ∨ OneColor r) := by
  constructor
  · intro hown hr
    by_contra hneither
    exact not_ownData hr (fun h => hneither (.inl h)) (fun h => hneither (.inr h)) hown
  · intro h
    by_cases hr : Accepted r
    · exact ownData_of_fills_or (h hr)
    · intro c₁ _ hc₁ _ a₁ _ w₁ _ hw₁
      exact absurd ⟨c₁, a₁, w₁, hc₁, hw₁⟩ hr

theorem pixelAt_replicate {n k : ℕ} (h : t.size * k + t.size ≤ n) (x : UInt8) :
    pixelAt t (replicate n x) k = some (replicate t.size x) := by
  rw [pixelAt, readPixel, if_pos (by rw [length_replicate]; exact h), drop_replicate,
    take_replicate, min_eq_left (by omega)]

/-- A stream of one white pixel for a bitmap of two. -/
def shortBitmap : BitmapRequest :=
  { src := [0xFD], src_lt := by decide, width := 2, height := 1, bpp := 16
    dstFormat := rgb16, dst := ⟨0, 0, 0⟩, dstWidth := 2, dstHeight := 1
    palette := none }

theorem accepted_shortBitmap : Accepted shortBitmap := by
  have hparse : parseOrder PixelType.pixel16.size [0xFD] = some (.white, []) := rfl
  have hdraw : drawing .pixel16 2 1 [0xFD] = ({ surface := [0xFFFF], fgPel := 0xFFFF }, true) := by
    rw [drawing, rleDecompress_of_parse _ hparse, rleDecompress_nil]
    rfl
  obtain ⟨zeros, hgrow⟩ := grow_of_allocated (sized_reachable (Reachable.refl new)) rfl 4
  refine ⟨new, true, [⟨0, [0xFF, 0xFF]⟩, ⟨2, [0, 0]⟩], Reachable.refl new, ?_⟩
  have hformat : BitmapRequest.sourceFormat shortBitmap.bpp =
      some (rgb16, .pixel16) := rfl
  have hok : (drawing .pixel16 shortBitmap.width shortBitmap.height shortBitmap.src).2 = true :=
    congrArg Prod.snd hdraw
  have hps : (drawing .pixel16 shortBitmap.width shortBitmap.height
      shortBitmap.src).1.surface = [0xFFFF] :=
    congrArg (fun r => r.1.surface) hdraw
  rw [(decompress_of_drawing hformat (by decide) (by decide) (by decide) (by decide) (by decide)
    hgrow).2 hok, copyDecoded_eq_some hformat (by decide) (by decide) (by decide), hps]
  refine ⟨by decide, ?_⟩
  have hfirst : writeAt shortBitmap .pixel16 rgb16
      (pixelBytes .pixel16 [0xFFFF] ++ (replicate (64 * 64 * 4) 0 ++ zeros).drop 2) (0, 0) =
        some ⟨0, [0xFF, 0xFF]⟩ := by
    rw [writeAt, pixelAt_drawn (by decide)]
    decide
  have hsecond : writeAt shortBitmap .pixel16 rgb16
      (pixelBytes .pixel16 [0xFFFF] ++ (replicate (64 * 64 * 4) 0 ++ zeros).drop
        (PixelType.pixel16.size * [0xFFFF].length)) (0, 1) = some ⟨2, [0, 0]⟩ := by
    have hroom : PixelType.pixel16.size * [0xFFFF].length ≤
        (replicate (64 * 64 * 4) (0 : UInt8) ++ zeros).length := by
      rw [length_append, length_replicate]
      exact le_add_right_of_le (by decide)
    have hnew : PixelType.pixel16.size * 1 + PixelType.pixel16.size ≤ 64 * 64 * 4 := by
      decide
    rw [writeAt, pixelAt_stale (by decide) hroom,
      show sourcePixel shortBitmap (0, 1) = 1 from rfl,
      pixelAt_append (by rw [length_replicate]; exact hnew), pixelAt_replicate hnew]
    decide
  exact congrArg₂ (fun a b => [a, b]) hfirst hsecond

/-- **A short stream shows an earlier bitmap.** -/
theorem shortBitmap_not_ownData : ¬ OwnData shortBitmap := by
  refine not_ownData accepted_shortBitmap ?_ ?_
  · intro h
    have hfills := h rgb16 .pixel16 rfl
    have hparse : parseOrder PixelType.pixel16.size shortBitmap.src =
        some (.white, []) := rfl
    rw [codedPixels_of_parse hparse, codedPixels_nil] at hfills
    exact absurd hfills (by decide)
  · intro h
    exact absurd (h rgb16 .pixel16 rfl [0, 0] [1, 0] rfl rfl [0, 0] [1, 0] (by decide)
      (by decide)) (by decide)

end InterleavedContext
