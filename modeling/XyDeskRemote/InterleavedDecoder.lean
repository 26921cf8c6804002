/-
# Decoding an interleaved bitmap

`interleaved_decompress`: the orders of the stream draw into a buffer of the context, which is
kept from one bitmap to the next, and an area of the buffer is then copied to the destination.

The buffer is the surface of the C code.  A simpler one is the list of the pixels drawn so far
(`canvas`); the buffer holds them, and behind them what it held before (`Drawn`).
-/
import Mathlib.Data.List.GetD
import XyDeskRemote.InterleavedOrders
import XyDeskRemote.LabelledRun
import XyDeskRemote.PixelFormat

open LabelledRun LittleEndian List Nat

/-! ## The buffer and the list of pixels -/

/-- The destination buffer with the position of `pbDest` in it. -/
structure Scanlines where
  buffer : List UInt8
  dest : ℕ

namespace Scanlines

/-- The macros of an instance of the template, for rows of `rowDelta` bytes in a buffer that
ends at `destEnd`. -/
def surface (t : PixelType) (rowDelta destEnd : ℕ) : Surface Scanlines where
  ensureCapacity s n := s.dest + n * t.size ≤ destEnd
  destWritePixel s p :=
    { buffer := s.buffer.take s.dest ++ encode t.size p ++
        s.buffer.drop (s.dest + t.size)
      dest := s.dest + t.size }
  destReadAbove s :=
    decode ((s.buffer.drop (s.dest - rowDelta)).take t.size)
  pastFirstLine s := rowDelta ≤ s.dest

end Scanlines

/-- The pixels drawn so far, of at most `count` in rows of `width`. -/
def canvas (width count : ℕ) : Surface (List ℕ) where
  ensureCapacity ps n := ps.length + n ≤ count
  destWritePixel ps p := ps ++ [p]
  destReadAbove ps := ps.getD (ps.length - width) 0
  pastFirstLine ps := width ≤ ps.length

/-- The bytes of pixels. -/
def pixelBytes (t : PixelType) (ps : List ℕ) : List UInt8 :=
  ps.flatMap (encode t.size)

section

variable {t : PixelType} {ps qs : List ℕ} {p : ℕ}

@[simp] theorem pixelBytes_append :
    pixelBytes t (ps ++ qs) = pixelBytes t ps ++ pixelBytes t qs :=
  flatMap_append

@[simp] theorem pixelBytes_singleton : pixelBytes t [p] = encode t.size p :=
  append_nil _

@[simp] theorem length_pixelBytes : (pixelBytes t ps).length = t.size * ps.length := by
  induction ps with
  | nil => rfl
  | cons p ps ih =>
    rw [pixelBytes, flatMap_cons, length_append, length_encode]
    rw [pixelBytes] at ih
    rw [ih, length_cons, mul_succ, add_comm]

theorem pixelBytes_at {k : ℕ} (hk : k < ps.length) :
    ((pixelBytes t ps).drop (t.size * k)).take t.size =
      encode t.size (ps.getD k 0) := by
  have hsplit : ps = ps.take k ++ ps.getD k 0 :: ps.drop (k + 1) := by
    rw [getD_eq_getElem _ _ hk, getElem_cons_drop, take_append_drop]
  have htake : (ps.take k).length = k := by
    rw [length_take]
    omega
  have hbytes : pixelBytes t ps = pixelBytes t (ps.take k) ++
      (encode t.size (ps.getD k 0) ++ pixelBytes t (ps.drop (k + 1))) := by
    conv_lhs => rw [hsplit]
    rw [pixelBytes_append]
    rfl
  have hlength : (pixelBytes t (ps.take k)).length = t.size * k := by
    rw [length_pixelBytes, htake]
  rw [hbytes, ← hlength, drop_left]
  exact take_left' (length_encode _ _)

end

/-- `ps`, of at most `count` pixels, is drawn on the buffer `old`. -/
structure Drawn (t : PixelType) (count : ℕ) (old : List UInt8) (s : Scanlines)
    (ps : List ℕ) : Prop where
  dest : s.dest = t.size * ps.length
  buffer : s.buffer = pixelBytes t ps ++ old.drop (t.size * ps.length)
  lt : ∀ p ∈ ps, p < 256 ^ t.size
  length_le : ps.length ≤ count

/-- **The buffer is drawn on like the list.** -/
theorem drawn_simulates (t : PixelType) {width : ℕ} (hwidth : 0 < width) (count : ℕ)
    (old : List UInt8) :
    (Scanlines.surface t (width * t.size) (width * t.size * count)).Simulates
      (canvas width (width * count)) t (Drawn t (width * count) old) := by
  have hsize := t.size_pos
  constructor
  · intro s ps h n
    show decide _ = decide _
    rw [decide_eq_decide, h.dest, mul_right_comm, Nat.mul_comm n, ← mul_add, Nat.mul_comm _ t.size]
    exact Nat.mul_le_mul_left_iff hsize
  · intro s ps h
    show decide _ = decide _
    rw [decide_eq_decide, h.dest, Nat.mul_comm width]
    exact Nat.mul_le_mul_left_iff hsize
  · intro s ps h hpast
    have hpast : width ≤ ps.length := of_decide_eq_true hpast
    have hk : ps.length - width < ps.length := by omega
    have hmem : ps.getD (ps.length - width) 0 ∈ ps := by
      rw [getD_eq_getElem _ _ hk]
      exact getElem_mem _
    have hlt := h.lt _ hmem
    refine ⟨?_, hlt⟩
    show decode ((s.buffer.drop (s.dest - width * t.size)).take t.size) =
      ps.getD (ps.length - width) 0
    have hsub : s.dest - width * t.size = t.size * (ps.length - width) := by
      rw [h.dest, Nat.mul_comm width, Nat.mul_sub]
    have hroom : t.size * (ps.length - width) + t.size ≤ (pixelBytes t ps).length := by
      rw [length_pixelBytes, ← mul_succ]
      exact mul_le_mul_left _ hk
    rw [hsub, h.buffer, drop_append_of_le_length (by omega),
      take_append_of_le_length (by rw [length_drop]; omega), pixelBytes_at hk]
    exact decode_encode_of_lt hlt
  · intro s ps h p hp hroom
    have hroom : ps.length + 1 ≤ width * count := of_decide_eq_true hroom
    have hlength : (pixelBytes t ps).length = s.dest := by
      rw [length_pixelBytes, h.dest]
    refine ⟨?_, ?_, ?_, ?_⟩
    · show s.dest + t.size = t.size * (ps ++ [p]).length
      rw [h.dest, length_append, length_singleton, mul_succ]
    · show s.buffer.take s.dest ++ _ ++ s.buffer.drop (s.dest + t.size) =
        pixelBytes t (ps ++ [p]) ++ old.drop (t.size * (ps ++ [p]).length)
      rw [h.buffer, take_left' hlength, ← hlength, drop_append, drop_drop,
        pixelBytes_append, pixelBytes_singleton, length_append, length_singleton,
        length_pixelBytes, mul_succ]
      simp
    · intro q hq
      rcases mem_append.1 hq with hq | hq
      · exact h.lt q hq
      · rw [mem_singleton.1 hq]
        exact hp
    · show (ps ++ [p]).length ≤ width * count
      rw [length_append, length_singleton]
      exact hroom
  · intro ps n hroom
    have hroom : ps.length + (n + 1) ≤ width * count := of_decide_eq_true hroom
    refine ⟨decide_eq_true (by omega), fun p => decide_eq_true ?_⟩
    show (ps ++ [p]).length + n ≤ width * count
    rw [length_append, length_singleton]
    omega
  · intro ps hpast p
    have hpast : width ≤ ps.length := of_decide_eq_true hpast
    refine decide_eq_true ?_
    show width ≤ (ps ++ [p]).length
    rw [length_append]
    omega

/-! ## How many pixels a stream draws -/

/-- The pixels the orders of a stream draw, up to the first that is not one. -/
def codedPixels (size : ℕ) (src : List UInt8) : ℕ :=
  match _h : RleOrder.parseOrder size src with
  | none => 0
  | some (o, rest) => o.pixelCount + codedPixels size rest
termination_by src.length
decreasing_by exact (RleOrder.parseOrder_eq_some _h).1

theorem codedPixels_of_parse {size : ℕ} {src rest : List UInt8} {o : RleOrder}
    (h : RleOrder.parseOrder size src = some (o, rest)) :
    codedPixels size src = o.pixelCount + codedPixels size rest := by
  rw [codedPixels]
  split
  next hnone =>
    rw [h] at hnone
    cases hnone
  next hsome =>
    obtain ⟨rfl, rfl⟩ := Prod.mk.inj (Option.some.inj (h.symm.trans hsome))
    rfl

theorem codedPixels_nil (size : ℕ) : codedPixels size [] = 0 := by
  rw [codedPixels]
  split
  next => rfl
  next hsome => cases hsome

namespace Decoder

variable {t : PixelType} {width count : ℕ} {d e : Decoder (List ℕ)}

/-- The list of pixels has grown by `n`. -/
def Grown (n : ℕ) (d : Decoder (List ℕ)) (r : Decoder (List ℕ) × Bool) : Prop :=
  r.2 = true → r.1.surface.length = d.surface.length + n

theorem length_unroll (pixel : ℕ → ℕ) (n : ℕ) (d : Decoder (List ℕ)) :
    (unroll (canvas width count) pixel n d).surface.length = d.surface.length + n := by
  induction n generalizing d with
  | zero => rfl
  | succ n ih =>
    rw [unroll, ih]
    show (d.surface ++ [_]).length + n = _
    rw [length_append, length_singleton]
    omega

theorem grown_writeRun (pixel : ℕ → ℕ) (n : ℕ) (d : Decoder (List ℕ)) :
    Grown n d (writeRun (canvas width count) pixel n d) := by
  rw [writeRun]
  split
  · exact fun _ => length_unroll pixel n d
  · rintro ⟨⟩

theorem surface_foldl (ps : List ℕ) (d : Decoder (List ℕ)) :
    (ps.foldl (writePixel (canvas width count)) d).surface = d.surface ++ ps := by
  induction ps generalizing d with
  | nil => exact (append_nil _).symm
  | cons p ps ih =>
    rw [foldl_cons, ih]
    exact append_assoc d.surface [p] ps

theorem grown_writePixels (ps : List ℕ) (d : Decoder (List ℕ)) :
    Grown ps.length d (writePixels (canvas width count) ps d) := by
  rw [writePixels]
  split
  · intro _
    dsimp only
    rw [surface_foldl, length_append]
  · rintro ⟨⟩

theorem length_writeBits (bitmask mask : UInt8) (n : ℕ) (d : Decoder (List ℕ)) :
    (writeBits (canvas width count) bitmask mask n d).surface.length = d.surface.length + n := by
  induction n generalizing d mask with
  | zero => rfl
  | succ n ih =>
    rw [writeBits, ih]
    show (d.surface ++ [_]).length + n = _
    rw [length_append, length_singleton]
    omega

theorem grown_writeFgBgImage (n : ℕ) (bitmasks : List UInt8) (d : Decoder (List ℕ)) :
    Grown n d (writeFgBgImage (canvas width count) d n bitmasks) := by
  induction bitmasks generalizing d n with
  | nil =>
    intro htrue
    have hn : n = 0 := of_decide_eq_true htrue
    rw [hn]
    rfl
  | cons bitmask bitmasks ih =>
    rw [writeFgBgImage]
    split
    · intro htrue
      rw [ih _ _ htrue, length_writeBits]
      omega
    · rintro ⟨⟩

theorem length_dither (a b n : ℕ) : (dither a b n).length = 2 * n := by
  induction n with
  | zero => rfl
  | succ n ih =>
    rw [dither, length_cons, length_cons, ih]
    omega

/-- An order that is drawn draws its number of pixels. -/
theorem grown_execute (hcount : count < 2 ^ 32) (o : RleOrder) (d : Decoder (List ℕ)) :
    Grown o.pixelCount d (execute (canvas width count) t d o) := by
  cases o with
  | bgRun n =>
    rw [execute]
    split
    · split
      · intro htrue
        have hlength : (d.writePixel (canvas width count)
            (d.base (canvas width count) ^^^ d.fgPel)).surface.length =
            d.surface.length + 1 := length_append
        rcases Nat.eq_zero_or_pos n with rfl | hn
        · -- the length wraps around, and there is no room for so many pixels
          have hfull : ¬ (canvas width count).ensureCapacity (d.writePixel (canvas width count)
              (d.base (canvas width count) ^^^ d.fgPel)).surface (2 ^ 32 - 1) = true := by
            intro hroom
            have hroom : _ + (2 ^ 32 - 1) ≤ count := of_decide_eq_true hroom
            omega
          rw [if_pos rfl, writeBackground, writeRun, if_neg hfull] at htrue
          cases htrue
        · rw [if_neg (by omega)] at htrue ⊢
          refine (grown_writeRun id _ _ htrue).trans ?_
          rw [hlength, RleOrder.pixelCount]
          omega
      · rintro ⟨⟩
    · exact grown_writeRun id n d
  | fgRun p n => exact grown_writeRun _ n _
  | ditheredRun n a b =>
    rw [RleOrder.pixelCount, ← length_dither a b n]
    exact grown_writePixels _ _
  | colorRun n a => exact grown_writeRun _ n _
  | fgBgImage p n bitmasks => exact grown_writeFgBgImage n bitmasks _
  | colorImage ps => exact grown_writePixels ps _
  | white => exact grown_writePixels _ _
  | black => exact grown_writePixels _ _

theorem surface_watchFirstLine (d : Decoder (List ℕ)) :
    (d.watchFirstLine (canvas width count)).surface = d.surface := by
  rw [watchFirstLine]
  split <;> rfl

/-- **A stream that is drawn draws the pixels of its orders.** -/
theorem grown_rleDecompress (hcount : count < 2 ^ 32) (src : List UInt8)
    (d : Decoder (List ℕ)) :
    Grown (codedPixels t.size src) d (rleDecompress (canvas width count) t d src) := by
  induction hn : src.length using Nat.strong_induction_on generalizing src d with
  | h n ih =>
    rcases eq_or_ne src [] with rfl | hne
    · rw [rleDecompress_nil, codedPixels_nil]
      exact fun _ => rfl
    cases hparse : RleOrder.parseOrder t.size src with
    | none =>
      intro htrue
      rw [rleDecompress_of_parse_none d hne hparse] at htrue
      cases htrue
    | some r =>
      obtain ⟨o, rest⟩ := r
      rw [rleDecompress_of_parse d hparse, codedPixels_of_parse hparse]
      split
      next hok =>
        intro htrue
        have hlength := (RleOrder.parseOrder_eq_some hparse).1
        rw [ih rest.length (hn ▸ hlength) rest _ rfl htrue, grown_execute hcount o _ hok,
          surface_watchFirstLine, add_assoc]
      next hfalse => exact fun htrue => absurd htrue hfalse

end Decoder
