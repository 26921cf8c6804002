/-
# The orders of an interleaved bitmap

`bitmap.h` of the codec, with the order headers of `interleaved.c`: a stream of orders draws an
image from its first pixel on, pixel after pixel.  The file is a template: the width of a pixel
and how pixels are read and written are macros of the including file.  Here they are a
`Surface`, and `rleDecompress` is the template over any of them.
-/
import XyDeskRemote.ByteBuffer

open Option Prod

/-- `PIXEL_SIZE` and `WHITE_PIXEL` of an instance of the template. -/
structure PixelType where
  size : ℕ
  whitePixel : ℕ
  size_pos : 0 < size
  white_lt : whitePixel < 256 ^ size

namespace PixelType

/-- Pixels of 8 bits. -/
def pixel8 : PixelType := ⟨1, 0xFF, by decide, by decide⟩

/-- Pixels of 15 or 16 bits. -/
def pixel16 : PixelType := ⟨2, 0xFFFF, by decide, by decide⟩

/-- Pixels of 24 bits. -/
def pixel24 : PixelType := ⟨3, 0xFFFFFF, by decide, by decide⟩

/-- Pixels stay pixels. -/
theorem xor_lt (t : PixelType) {p q : ℕ} (hp : p < 256 ^ t.size) (hq : q < 256 ^ t.size) :
    p ^^^ q < 256 ^ t.size := by
  have hpow : 256 ^ t.size = 2 ^ (8 * t.size) := by
    rw [Nat.pow_mul]
  rw [hpow] at hp hq ⊢
  exact Nat.xor_lt_two_pow hp hq

end PixelType

/-! ## Reading an order -/

/-- What an order draws.  An order that sets the foreground pixel carries it; the masks of an
image of foreground and background are one byte for eight pixels. -/
inductive RleOrder where
  | bgRun (runLength : ℕ)
  | fgRun (setFg : Option ℕ) (runLength : ℕ)
  | ditheredRun (runLength pixelA pixelB : ℕ)
  | colorRun (runLength pixelA : ℕ)
  | fgBgImage (setFg : Option ℕ) (runLength : ℕ) (bitmasks : List UInt8)
  | colorImage (pixels : List ℕ)
  | white
  | black
  deriving DecidableEq

namespace RleOrder

/-- `ExtractCodeId`. -/
def extractCodeId (hdr : UInt8) : UInt8 :=
  if hdr &&& 0xC0 ≠ 0xC0 then hdr >>> 5
  else if hdr &&& 0xF0 = 0xF0 then hdr
  else hdr >>> 4

/-- The run lengths in the header itself, with `scale`, or when it is zero there, in the next
byte, from `least` on.  The result is the length and what follows the header. -/
def extractShort (mask : UInt8) (least scale : ℕ) : List UInt8 → Option (ℕ × List UInt8)
  | [] => none
  | hdr :: rest =>
    if hdr &&& mask = 0 then
      match rest with
      | [] => none
      | next :: rest => some (next.toNat + least, rest)
    else some ((hdr &&& mask).toNat * scale, rest)

/-- `ExtractRunLengthRegularFgBg`. -/
def extractRunLengthRegularFgBg : List UInt8 → Option (ℕ × List UInt8) := extractShort 0x1F 1 8

/-- `ExtractRunLengthLiteFgBg`. -/
def extractRunLengthLiteFgBg : List UInt8 → Option (ℕ × List UInt8) := extractShort 0x0F 1 8

/-- `ExtractRunLengthRegular`. -/
def extractRunLengthRegular : List UInt8 → Option (ℕ × List UInt8) := extractShort 0x1F 32 1

/-- `ExtractRunLengthLite`. -/
def extractRunLengthLite : List UInt8 → Option (ℕ × List UInt8) := extractShort 0x0F 16 1

/-- `ExtractRunLengthMegaMega`. -/
def extractRunLengthMegaMega : List UInt8 → Option (ℕ × List UInt8)
  | _ :: lo :: hi :: rest => some (LittleEndian.decode [lo, hi], rest)
  | _ => none

/-- `ExtractRunLength`. -/
def extractRunLength (code : UInt8) (src : List UInt8) : Option (ℕ × List UInt8) :=
  if code = 0x02 then extractRunLengthRegularFgBg src
  else if code = 0x0D then extractRunLengthLiteFgBg src
  else if code ∈ [0x00, 0x01, 0x03, 0x04] then extractRunLengthRegular src
  else if code ∈ [0x0C, 0x0E] then extractRunLengthLite src
  else if code ∈ [0xF0, 0xF1, 0xF6, 0xF8, 0xF3, 0xF2, 0xF7, 0xF4] then
    extractRunLengthMegaMega src
  else none

/-- `SRCREADPIXEL` after its check of the range. -/
def srcReadPixel (size : ℕ) (src : List UInt8) : Option (ℕ × List UInt8) :=
  if size ≤ src.length then some (LittleEndian.decode (src.take size), src.drop size) else none

/-- `n` pixels from the stream. -/
def srcReadPixels (size : ℕ) : ℕ → List UInt8 → Option (List ℕ × List UInt8)
  | 0, src => some ([], src)
  | n + 1, src =>
    (srcReadPixel size src).bind fun (p, rest) =>
      (srcReadPixels size n rest).map fun (ps, rest) => (p :: ps, rest)

/-- An image of foreground and background: the check is for the masks of all eight pixels, and
the last mask may then be missing. -/
def parseFgBgImage (setFg : Option ℕ) (runLength : ℕ) (src : List UInt8) :
    Option (RleOrder × List UInt8) :=
  if runLength / 8 ≤ src.length then
    let masks := (runLength + 7) / 8
    some (.fgBgImage setFg runLength (src.take masks), src.drop masks)
  else none

/-- The orders that are a header alone. -/
def specialOrder (code : UInt8) : Option RleOrder :=
  if code = 0xF9 then some (.fgBgImage none 8 [0x03])
  else if code = 0xFA then some (.fgBgImage none 8 [0x05])
  else if code = 0xFD then some .white
  else if code = 0xFE then some .black
  else none

/-- What follows a header with a run length. -/
def parseBody (size : ℕ) (code : UInt8) (runLength : ℕ) (src : List UInt8) :
    Option (RleOrder × List UInt8) :=
  if code = 0x00 ∨ code = 0xF0 then some (.bgRun runLength, src)
  else if code = 0x01 ∨ code = 0xF1 then some (.fgRun none runLength, src)
  else if code = 0x0C ∨ code = 0xF6 then
    (srcReadPixel size src).map fun (fg, rest) => (.fgRun (some fg) runLength, rest)
  else if code = 0x0E ∨ code = 0xF8 then
    (srcReadPixel size src).bind fun (a, rest) =>
      (srcReadPixel size rest).map fun (b, rest) => (.ditheredRun runLength a b, rest)
  else if code = 0x03 ∨ code = 0xF3 then
    (srcReadPixel size src).map fun (a, rest) => (.colorRun runLength a, rest)
  else if code = 0x02 ∨ code = 0xF2 then parseFgBgImage none runLength src
  else if code = 0x0D ∨ code = 0xF7 then
    (srcReadPixel size src).bind fun (fg, rest) => parseFgBgImage (some fg) runLength rest
  else (srcReadPixels size runLength src).map fun (ps, rest) => (.colorImage ps, rest)

/-- The order at the start of the stream, and what follows it. -/
def parseOrder (size : ℕ) : List UInt8 → Option (RleOrder × List UInt8)
  | [] => none
  | hdr :: tail =>
    match specialOrder (extractCodeId hdr) with
    | some o => some (o, tail)
    | none =>
      (extractRunLength (extractCodeId hdr) (hdr :: tail)).bind fun (runLength, rest) =>
        parseBody size (extractCodeId hdr) runLength rest

/-- The pixels an order draws. -/
def pixelCount : RleOrder → ℕ
  | .bgRun n | .fgRun _ n | .colorRun n _ | .fgBgImage _ n _ => n
  | .ditheredRun n _ _ => 2 * n
  | .colorImage ps => ps.length
  | .white | .black => 1

/-- The pixel values an order carries. -/
def pels : RleOrder → List ℕ
  | .fgRun (some p) _ | .fgBgImage (some p) _ _ | .colorRun _ p => [p]
  | .ditheredRun _ a b => [a, b]
  | .colorImage ps => ps
  | _ => []

variable {src rest : List UInt8} {n : ℕ} {o : RleOrder}

/-- A header is taken. -/
theorem length_extractShort {mask : UInt8} {least scale : ℕ}
    (h : extractShort mask least scale src = some (n, rest)) : rest.length < src.length := by
  match src, h with
  | [hdr], h =>
    rw [extractShort] at h
    split at h
    · cases h
    · obtain ⟨-, rfl⟩ := Prod.mk.inj (some.inj h)
      exact Nat.one_pos
  | hdr :: next :: tail, h =>
    rw [extractShort] at h
    split at h
    · obtain ⟨-, rfl⟩ := Prod.mk.inj (some.inj h)
      rw [List.length_cons, List.length_cons]
      omega
    · obtain ⟨-, rfl⟩ := Prod.mk.inj (some.inj h)
      exact Nat.lt_succ_self _

/-- A header is taken. -/
theorem length_extractRunLengthMegaMega (h : extractRunLengthMegaMega src = some (n, rest)) :
    rest.length < src.length := by
  match src, h with
  | _ :: lo :: hi :: tail, h =>
    obtain ⟨-, rfl⟩ := Prod.mk.inj (some.inj h)
    simp only [List.length_cons]
    omega

/-- **Every order takes its header.** -/
theorem length_extractRunLength {code : UInt8} (h : extractRunLength code src = some (n, rest)) :
    rest.length < src.length := by
  unfold extractRunLength at h
  repeat' split at h
  · exact length_extractShort h
  · exact length_extractShort h
  · exact length_extractShort h
  · exact length_extractShort h
  · exact length_extractRunLengthMegaMega h
  · cases h

/-- A pixel of the source. -/
theorem srcReadPixel_eq_some {size p : ℕ} (h : srcReadPixel size src = some (p, rest)) :
    rest.length ≤ src.length ∧ p < 256 ^ size := by
  obtain ⟨hsize, h⟩ := ite_none_right_eq_some.1 h
  obtain ⟨rfl, rfl⟩ := Prod.mk.inj (some.inj h)
  refine ⟨by simp, ?_⟩
  have hlt := LittleEndian.decode_lt (src.take size)
  rwa [List.length_take, Nat.min_eq_left hsize] at hlt

/-- Pixels of the source. -/
theorem srcReadPixels_eq_some {size : ℕ} {ps : List ℕ}
    (h : srcReadPixels size n src = some (ps, rest)) :
    rest.length ≤ src.length ∧ ∀ p ∈ ps, p < 256 ^ size := by
  induction n generalizing src ps with
  | zero =>
    obtain ⟨rfl, rfl⟩ := Prod.mk.inj (some.inj h)
    exact ⟨le_refl _, nofun⟩
  | succ n ih =>
    obtain ⟨⟨p, rest₁⟩, hp, h⟩ := bind_eq_some_iff.1 h
    obtain ⟨⟨ps₁, rest₂⟩, hps, h⟩ := map_eq_some_iff.1 h
    obtain ⟨rfl, rfl⟩ := Prod.mk.inj h
    obtain ⟨hlength, hlt⟩ := srcReadPixel_eq_some hp
    obtain ⟨hlength', hall⟩ := ih hps
    exact ⟨by omega, List.forall_mem_cons.2 ⟨hlt, hall⟩⟩

/-- The pixels of such an image. -/
theorem parseFgBgImage_eq_some {size : ℕ} {setFg : Option ℕ}
    (hfg : ∀ p ∈ setFg, p < 256 ^ size) (h : parseFgBgImage setFg n src = some (o, rest)) :
    rest.length ≤ src.length ∧ ∀ p ∈ o.pels, p < 256 ^ size := by
  obtain ⟨-, h⟩ := ite_none_right_eq_some.1 h
  obtain ⟨rfl, rfl⟩ := Prod.mk.inj (some.inj h)
  refine ⟨by simp, ?_⟩
  cases setFg with
  | none => nofun
  | some p => simpa [pels] using hfg p rfl

/-- The pixels of an order. -/
theorem parseBody_eq_some {size : ℕ} {code : UInt8}
    (h : parseBody size code n src = some (o, rest)) :
    rest.length ≤ src.length ∧ ∀ p ∈ o.pels, p < 256 ^ size := by
  unfold parseBody at h
  split at h
  · obtain ⟨rfl, rfl⟩ := Prod.mk.inj (some.inj h)
    exact ⟨le_refl _, nofun⟩
  split at h
  · obtain ⟨rfl, rfl⟩ := Prod.mk.inj (some.inj h)
    exact ⟨le_refl _, nofun⟩
  split at h
  · obtain ⟨⟨p, rest₁⟩, hp, h⟩ := map_eq_some_iff.1 h
    obtain ⟨rfl, rfl⟩ := Prod.mk.inj h
    obtain ⟨hlength, hlt⟩ := srcReadPixel_eq_some hp
    exact ⟨hlength, by simpa [pels] using hlt⟩
  split at h
  · obtain ⟨⟨a, rest₁⟩, ha, h⟩ := bind_eq_some_iff.1 h
    obtain ⟨⟨b, rest₂⟩, hb, h⟩ := map_eq_some_iff.1 h
    obtain ⟨rfl, rfl⟩ := Prod.mk.inj h
    obtain ⟨hlength, hlt⟩ := srcReadPixel_eq_some ha
    obtain ⟨hlength', hlt'⟩ := srcReadPixel_eq_some hb
    exact ⟨by omega, by simpa [pels] using ⟨hlt, hlt'⟩⟩
  split at h
  · obtain ⟨⟨p, rest₁⟩, hp, h⟩ := map_eq_some_iff.1 h
    obtain ⟨rfl, rfl⟩ := Prod.mk.inj h
    obtain ⟨hlength, hlt⟩ := srcReadPixel_eq_some hp
    exact ⟨hlength, by simpa [pels] using hlt⟩
  split at h
  · exact parseFgBgImage_eq_some (fun _ hq => absurd hq (not_mem_none _)) h
  split at h
  · obtain ⟨⟨p, rest₁⟩, hp, h⟩ := bind_eq_some_iff.1 h
    obtain ⟨hlength, hlt⟩ := srcReadPixel_eq_some hp
    obtain ⟨hlength', hall⟩ :=
      parseFgBgImage_eq_some (fun q hq => some.inj hq ▸ hlt) h
    exact ⟨by omega, hall⟩
  · obtain ⟨⟨ps, rest₁⟩, hps, h⟩ := map_eq_some_iff.1 h
    obtain ⟨rfl, rfl⟩ := Prod.mk.inj h
    exact srcReadPixels_eq_some hps

/-- The special orders have no pixels. -/
theorem pels_specialOrder {code : UInt8} (h : specialOrder code = some o) : o.pels = [] := by
  unfold specialOrder at h
  repeat' split at h
  · exact some.inj h ▸ rfl
  · exact some.inj h ▸ rfl
  · exact some.inj h ▸ rfl
  · exact some.inj h ▸ rfl
  · cases h

/-- An order is read from a part of the stream that is not empty, and the pixels it carries are
of the pixel's size. -/
theorem parseOrder_eq_some {size : ℕ} (h : parseOrder size src = some (o, rest)) :
    rest.length < src.length ∧ ∀ p ∈ o.pels, p < 256 ^ size := by
  match src, h with
  | hdr :: tail, h =>
    rw [parseOrder] at h
    split at h
    next o' hspecial =>
      obtain ⟨rfl, rfl⟩ := Prod.mk.inj (some.inj h)
      rw [pels_specialOrder hspecial]
      exact ⟨Nat.lt_succ_self _, nofun⟩
    next =>
      obtain ⟨⟨n, rest₁⟩, hn, h⟩ := bind_eq_some_iff.1 h
      obtain ⟨hlength, hall⟩ := parseBody_eq_some h
      exact ⟨lt_of_le_of_lt hlength (length_extractRunLength hn), hall⟩

end RleOrder

/-! ## Drawing an order -/

/-- `ENSURE_CAPACITY` and `DESTWRITEPIXEL` at `pbDest`, `DESTREADPIXEL` at `pbDest - rowDelta`,
and whether `pbDest` is past the first scanline. -/
structure Surface (σ : Type*) where
  ensureCapacity : σ → ℕ → Bool
  destWritePixel : σ → ℕ → σ
  destReadAbove : σ → ℕ
  pastFirstLine : σ → Bool

/-- The variables of `RLEDECOMPRESS`. -/
structure Decoder (σ : Type*) where
  surface : σ
  fgPel : ℕ
  insertFgPel : Bool := false
  firstLine : Bool := true

namespace Decoder

variable {σ : Type*} (S : Surface σ) (t : PixelType)

/-- What a background pixel is here: `BLACK_PIXEL`, or the pixel above. -/
def base (d : Decoder σ) : ℕ := if d.firstLine then 0 else S.destReadAbove d.surface

/-- `DESTWRITEPIXEL`. -/
def writePixel (d : Decoder σ) (pixel : ℕ) : Decoder σ :=
  { d with surface := S.destWritePixel d.surface pixel }

/-- `n` pixels, each from the background there. -/
def unroll (pixel : ℕ → ℕ) : ℕ → Decoder σ → Decoder σ
  | 0, d => d
  | n + 1, d => unroll pixel n (d.writePixel S (pixel (d.base S)))

/-- A run, after the check of the room for it. -/
def writeRun (pixel : ℕ → ℕ) (n : ℕ) (d : Decoder σ) : Decoder σ × Bool :=
  if S.ensureCapacity d.surface n then (unroll S pixel n d, true) else (d, false)

/-- The pixels of a list, after the check of the room for them. -/
def writePixels (ps : List ℕ) (d : Decoder σ) : Decoder σ × Bool :=
  if S.ensureCapacity d.surface ps.length then (ps.foldl (writePixel S) d, true) else (d, false)

/-- The loop of `WRITEFGBGIMAGE` and `WRITEFIRSTLINEFGBGIMAGE` over the bits of a mask. -/
def writeBits (bitmask : UInt8) : UInt8 → ℕ → Decoder σ → Decoder σ
  | _, 0, d => d
  | mask, n + 1, d =>
    writeBits bitmask (mask <<< 1) n
      (d.writePixel S (if bitmask &&& mask ≠ 0 then d.base S ^^^ d.fgPel else d.base S))

/-- An image of foreground and background: eight pixels for a mask, fewer for the last. -/
def writeFgBgImage (d : Decoder σ) (n : ℕ) : List UInt8 → Decoder σ × Bool
  | [] => (d, n = 0)
  | bitmask :: bitmasks =>
    let cBits := min n 8
    if S.ensureCapacity d.surface cBits then
      writeFgBgImage (writeBits S bitmask 1 cBits d) (n - cBits) bitmasks
    else (d, false)

/-- `pixelA` and `pixelB` in turns. -/
def dither (a b : ℕ) : ℕ → List ℕ
  | 0 => []
  | n + 1 => a :: b :: dither a b n

/-- A background run after the pixel that may come in front of it. -/
def writeBackground (n : ℕ) (d : Decoder σ) : Decoder σ × Bool :=
  let r := writeRun S id n d
  ({ r.1 with insertFgPel := true }, r.2)

/-- The order sets the foreground pixel, or does not. -/
def setFg (p : Option ℕ) (d : Decoder σ) : Decoder σ := { d with fgPel := p.getD d.fgPel }

/-- The body of the loop of `RLEDECOMPRESS` for an order.  A background run that follows
another starts with a foreground pixel; its length is an unsigned number of 32 bits. -/
def execute (d : Decoder σ) : RleOrder → Decoder σ × Bool
  | .bgRun n =>
    if d.insertFgPel then
      if S.ensureCapacity d.surface 1 then
        writeBackground S (if n = 0 then 2 ^ 32 - 1 else n - 1)
          (d.writePixel S (d.base S ^^^ d.fgPel))
      else (d, false)
    else writeBackground S n d
  | .fgRun p n =>
    let d := { d.setFg p with insertFgPel := false }
    writeRun S (· ^^^ d.fgPel) n d
  | .ditheredRun n a b => writePixels S (dither a b n) { d with insertFgPel := false }
  | .colorRun n a => writeRun S (fun _ => a) n { d with insertFgPel := false }
  | .fgBgImage p n bitmasks =>
    writeFgBgImage S { d.setFg p with insertFgPel := false } n bitmasks
  | .colorImage ps => writePixels S ps { d with insertFgPel := false }
  | .white => writePixels S [t.whitePixel] { d with insertFgPel := false }
  | .black => writePixels S [0] { d with insertFgPel := false }

/-- The end of the first scanline, looked for in front of each order. -/
def watchFirstLine (d : Decoder σ) : Decoder σ :=
  if d.firstLine ∧ S.pastFirstLine d.surface then
    { d with firstLine := false, insertFgPel := false }
  else d

/-- `RLEDECOMPRESS`: the loop over the stream. -/
def rleDecompress (d : Decoder σ) (src : List UInt8) : Decoder σ × Bool :=
  if src = [] then (d, true)
  else
    match _h : RleOrder.parseOrder t.size src with
    | none => (d.watchFirstLine S, false)
    | some (o, rest) =>
      let r := execute S t (d.watchFirstLine S) o
      if r.2 then rleDecompress r.1 rest else r
termination_by src.length
decreasing_by exact (RleOrder.parseOrder_eq_some _h).1

variable {S} {t}

/-- The end of the stream. -/
theorem rleDecompress_nil (d : Decoder σ) : rleDecompress S t d [] = (d, true) := by
  rw [rleDecompress, if_pos rfl]

/-- A stream with an order in front. -/
theorem rleDecompress_of_parse (d : Decoder σ) {src rest : List UInt8} {o : RleOrder}
    (h : RleOrder.parseOrder t.size src = some (o, rest)) :
    rleDecompress S t d src =
      if (execute S t (d.watchFirstLine S) o).2 then
        rleDecompress S t (execute S t (d.watchFirstLine S) o).1 rest
      else execute S t (d.watchFirstLine S) o := by
  have hne : src ≠ [] := by
    rintro rfl
    cases h
  rw [rleDecompress, if_neg hne]
  split
  next hnone =>
    rw [h] at hnone
    cases hnone
  next o' rest' hsome =>
    obtain ⟨rfl, rfl⟩ := Prod.mk.inj (some.inj (h.symm.trans hsome))
    rfl

/-- A stream without an order in front. -/
theorem rleDecompress_of_parse_none (d : Decoder σ) {src : List UInt8} (hne : src ≠ [])
    (h : RleOrder.parseOrder t.size src = none) :
    rleDecompress S t d src = (d.watchFirstLine S, false) := by
  rw [rleDecompress, if_neg hne]
  split
  next => rfl
  next hsome =>
    rw [h] at hsome
    cases hsome

end Decoder

/-! ## Two surfaces that answer alike -/

/-- `R` relates two surfaces on which the same orders draw the same.  The second may be the
simpler one: what is asked of it is enough for the first. -/
structure Surface.Simulates {σ τ : Type*} (C : Surface σ) (A : Surface τ) (t : PixelType)
    (R : σ → τ → Prop) : Prop where
  ensureCapacity : ∀ {s a}, R s a → ∀ n, C.ensureCapacity s n = A.ensureCapacity a n
  pastFirstLine : ∀ {s a}, R s a → C.pastFirstLine s = A.pastFirstLine a
  destReadAbove : ∀ {s a}, R s a → A.pastFirstLine a = true →
    C.destReadAbove s = A.destReadAbove a ∧ A.destReadAbove a < 256 ^ t.size
  destWritePixel : ∀ {s a}, R s a → ∀ {p}, p < 256 ^ t.size →
    A.ensureCapacity a 1 = true → R (C.destWritePixel s p) (A.destWritePixel a p)
  capacity_succ : ∀ {a n}, A.ensureCapacity a (n + 1) = true →
    A.ensureCapacity a 1 = true ∧ ∀ p, A.ensureCapacity (A.destWritePixel a p) n = true
  past_write : ∀ {a}, A.pastFirstLine a = true →
    ∀ p, A.pastFirstLine (A.destWritePixel a p) = true

namespace Decoder

variable {σ τ : Type*} {C : Surface σ} {A : Surface τ} {t : PixelType} {R : σ → τ → Prop}

/-- The two decoders are at the same place. -/
structure Related (A : Surface τ) (t : PixelType) (R : σ → τ → Prop) (d : Decoder σ)
    (e : Decoder τ) : Prop where
  surface : R d.surface e.surface
  fgPel : d.fgPel = e.fgPel
  fgPel_lt : e.fgPel < 256 ^ t.size
  insertFgPel : d.insertFgPel = e.insertFgPel
  firstLine : d.firstLine = e.firstLine
  past : e.firstLine = false → A.pastFirstLine e.surface = true

/-- The two decoders end a step alike, and at the same place. -/
def RelatedResult (A : Surface τ) (t : PixelType) (R : σ → τ → Prop) (r : Decoder σ × Bool)
    (q : Decoder τ × Bool) : Prop := r.2 = q.2 ∧ Related A t R r.1 q.1

variable {d : Decoder σ} {e : Decoder τ}

/-- A flag is cleared on both sides. -/
theorem Related.noInsert (h : Related A t R d e) :
    Related A t R { d with insertFgPel := false } { e with insertFgPel := false } :=
  ⟨h.surface, h.fgPel, h.fgPel_lt, rfl, h.firstLine, h.past⟩

/-- The foreground is set on both sides. -/
theorem Related.setFg (h : Related A t R d e) {p : Option ℕ} (hp : ∀ q ∈ p, q < 256 ^ t.size) :
    Related A t R (d.setFg p) (e.setFg p) := by
  refine ⟨h.surface, ?_, ?_, h.insertFgPel, h.firstLine, h.past⟩
  · show p.getD d.fgPel = p.getD e.fgPel
    rw [h.fgPel]
  · cases p with
    | none => exact h.fgPel_lt
    | some q => exact hp q rfl

variable (hsim : C.Simulates A t R)
include hsim

/-- Both read the same pixel above. -/
theorem Related.base (h : Related A t R d e) :
    d.base C = e.base A ∧ e.base A < 256 ^ t.size := by
  rw [Decoder.base, Decoder.base, h.firstLine]
  split
  · exact ⟨rfl, Nat.pow_pos (by decide)⟩
  next hfirst => exact hsim.destReadAbove h.surface (h.past (Bool.eq_false_of_not_eq_true hfirst))

/-- Both mix in the same foreground. -/
theorem Related.xorFg (h : Related A t R d e) :
    d.base C ^^^ d.fgPel = e.base A ^^^ e.fgPel ∧ e.base A ^^^ e.fgPel < 256 ^ t.size := by
  obtain ⟨hbase, hlt⟩ := h.base hsim
  exact ⟨by rw [hbase, h.fgPel], t.xor_lt hlt h.fgPel_lt⟩

/-- A pixel on both sides. -/
theorem Related.writePixel (h : Related A t R d e)
    (hroom : A.ensureCapacity e.surface 1 = true) {p : ℕ} (hp : p < 256 ^ t.size) :
    Related A t R (d.writePixel C p) (e.writePixel A p) :=
  ⟨hsim.destWritePixel h.surface hp hroom, h.fgPel, h.fgPel_lt, h.insertFgPel, h.firstLine,
    fun hfirst => hsim.past_write (h.past hfirst) p⟩

/-- The same pixel, several times. -/
theorem Related.unroll {pixel : ℕ → ℕ} (hpixel : ∀ q < 256 ^ t.size, pixel q < 256 ^ t.size)
    (n : ℕ) (h : Related A t R d e) (hroom : A.ensureCapacity e.surface n = true) :
    Related A t R (unroll C pixel n d) (unroll A pixel n e) := by
  induction n generalizing d e with
  | zero => exact h
  | succ n ih =>
    obtain ⟨hone, hrest⟩ := hsim.capacity_succ hroom
    obtain ⟨hbase, hlt⟩ := h.base hsim
    rw [Decoder.unroll, Decoder.unroll, hbase]
    exact ih (h.writePixel hsim hone (hpixel _ hlt)) (hrest _)

/-- A run, where there is room. -/
theorem Related.writeRun {pixel : ℕ → ℕ} (hpixel : ∀ q < 256 ^ t.size, pixel q < 256 ^ t.size)
    (n : ℕ) (h : Related A t R d e) :
    RelatedResult A t R (writeRun C pixel n d) (writeRun A pixel n e) := by
  rw [Decoder.writeRun, Decoder.writeRun, hsim.ensureCapacity h.surface]
  split
  next hroom => exact ⟨rfl, h.unroll hsim hpixel n hroom⟩
  next => exact ⟨rfl, h⟩

/-- One pixel after the other. -/
theorem Related.foldl {ps : List ℕ} (hps : ∀ p ∈ ps, p < 256 ^ t.size)
    (h : Related A t R d e) (hroom : A.ensureCapacity e.surface ps.length = true) :
    Related A t R (ps.foldl (Decoder.writePixel C) d) (ps.foldl (Decoder.writePixel A) e) := by
  induction ps generalizing d e with
  | nil => exact h
  | cons p ps ih =>
    obtain ⟨hone, hrest⟩ := hsim.capacity_succ hroom
    obtain ⟨hp, hps⟩ := List.forall_mem_cons.1 hps
    exact ih hps (h.writePixel hsim hone hp) (hrest p)

/-- Pixels, where there is room. -/
theorem Related.writePixels {ps : List ℕ} (hps : ∀ p ∈ ps, p < 256 ^ t.size)
    (h : Related A t R d e) :
    RelatedResult A t R (writePixels C ps d) (writePixels A ps e) := by
  rw [Decoder.writePixels, Decoder.writePixels, hsim.ensureCapacity h.surface]
  split
  next hroom => exact ⟨rfl, h.foldl hsim hps hroom⟩
  next => exact ⟨rfl, h⟩

/-- The pixels of a mask. -/
theorem Related.writeBits (bitmask mask : UInt8) (n : ℕ) (h : Related A t R d e)
    (hroom : A.ensureCapacity e.surface n = true) :
    Related A t R (writeBits C bitmask mask n d) (writeBits A bitmask mask n e) := by
  induction n generalizing d e mask with
  | zero => exact h
  | succ n ih =>
    obtain ⟨hone, hrest⟩ := hsim.capacity_succ hroom
    obtain ⟨hbase, hlt⟩ := h.base hsim
    obtain ⟨hxor, hxorlt⟩ := h.xorFg hsim
    rw [Decoder.writeBits, Decoder.writeBits, hxor, hbase]
    refine ih (mask <<< 1) (h.writePixel hsim hone ?_) (hrest _)
    split
    · exact hxorlt
    · exact hlt

/-- The pixels of several masks. -/
theorem Related.writeFgBgImage (n : ℕ) (bitmasks : List UInt8) (h : Related A t R d e) :
    RelatedResult A t R (writeFgBgImage C d n bitmasks) (writeFgBgImage A e n bitmasks) := by
  induction bitmasks generalizing d e n with
  | nil => exact ⟨rfl, h⟩
  | cons bitmask bitmasks ih =>
    rw [Decoder.writeFgBgImage, Decoder.writeFgBgImage]
    rw [hsim.ensureCapacity h.surface]
    split
    next hroom => exact ih _ (h.writeBits hsim bitmask 1 _ hroom)
    next => exact ⟨rfl, h⟩

/-- A run of the background. -/
theorem Related.writeBackground (n : ℕ) (h : Related A t R d e) :
    RelatedResult A t R (writeBackground C n d) (writeBackground A n e) := by
  have hid : ∀ q < 256 ^ t.size, id q < 256 ^ t.size := fun _ hq => hq
  obtain ⟨hok, hrelated⟩ := h.writeRun hsim hid n
  obtain ⟨hsurface, hfg, hfglt, -, hfirst, hpast⟩ := hrelated
  exact ⟨hok, hsurface, hfg, hfglt, rfl, hfirst, hpast⟩

/-- **Step lemma.**  An order is drawn alike. -/
theorem Related.execute {o : RleOrder} (ho : ∀ p ∈ o.pels, p < 256 ^ t.size)
    (h : Related A t R d e) : RelatedResult A t R (execute C t d o) (execute A t e o) := by
  cases o with
  | bgRun n =>
    rw [Decoder.execute, Decoder.execute, h.insertFgPel, hsim.ensureCapacity h.surface]
    split
    · split
      next hroom =>
        obtain ⟨hxor, hlt⟩ := h.xorFg hsim
        rw [hxor]
        exact (h.writePixel hsim hroom hlt).writeBackground hsim _
      next => exact ⟨rfl, h⟩
    · exact h.writeBackground hsim n
  | fgRun p n =>
    have hset :=
      (h.setFg (p := p) fun q hq => ho q (by rw [hq]; exact List.mem_cons_self)).noInsert
    have hlt : (e.setFg p).fgPel < 256 ^ t.size := hset.fgPel_lt
    have hpixel : (fun q => q ^^^ (d.setFg p).fgPel) = fun q => q ^^^ (e.setFg p).fgPel := by
      funext q
      exact congrArg (q ^^^ ·) hset.fgPel
    show RelatedResult A t R (Decoder.writeRun C (fun q => q ^^^ (d.setFg p).fgPel) n _) _
    rw [hpixel]
    exact hset.writeRun hsim (fun _ hq => t.xor_lt hq hlt) n
  | ditheredRun n a b =>
    refine h.noInsert.writePixels hsim ?_
    induction n with
    | zero => nofun
    | succ n ih =>
      refine List.forall_mem_cons.2 ⟨ho a (by simp [RleOrder.pels]), ?_⟩
      refine List.forall_mem_cons.2 ⟨ho b (by simp [RleOrder.pels]), ih ?_⟩
      simpa [RleOrder.pels] using ho
  | colorRun n a =>
    exact h.noInsert.writeRun hsim (fun _ _ => ho a (List.mem_singleton_self a)) n
  | fgBgImage p n bitmasks =>
    have hset :=
      (h.setFg (p := p) fun q hq => ho q (by rw [hq]; exact List.mem_cons_self)).noInsert
    exact hset.writeFgBgImage hsim n bitmasks
  | colorImage ps => exact h.noInsert.writePixels hsim ho
  | white =>
    refine h.noInsert.writePixels hsim ?_
    intro p hp
    rw [List.mem_singleton.1 hp]
    exact t.white_lt
  | black =>
    refine h.noInsert.writePixels hsim ?_
    intro p hp
    rw [List.mem_singleton.1 hp]
    exact Nat.pow_pos (by decide)

/-- The first line ends on both sides at once. -/
theorem Related.watchFirstLine (h : Related A t R d e) :
    Related A t R (d.watchFirstLine C) (e.watchFirstLine A) := by
  rw [Decoder.watchFirstLine, Decoder.watchFirstLine, h.firstLine, hsim.pastFirstLine h.surface]
  split
  next hpast => exact ⟨h.surface, h.fgPel, h.fgPel_lt, rfl, rfl, fun _ => hpast.2⟩
  next => exact h

/-- **Run lemma.**  A stream is drawn alike. -/
theorem rleDecompress_simulates (src : List UInt8) (h : Related A t R d e) :
    RelatedResult A t R (rleDecompress C t d src) (rleDecompress A t e src) := by
  induction hn : src.length using Nat.strong_induction_on generalizing src d e with
  | h n ih =>
    rcases eq_or_ne src [] with rfl | hne
    · rw [rleDecompress_nil, rleDecompress_nil]
      exact ⟨rfl, h⟩
    cases hparse : RleOrder.parseOrder t.size src with
    | none =>
      rw [rleDecompress_of_parse_none (S := C) d hne hparse,
        rleDecompress_of_parse_none (S := A) e hne hparse]
      exact ⟨rfl, h.watchFirstLine hsim⟩
    | some r =>
      obtain ⟨o, rest⟩ := r
      obtain ⟨hlength, hpels⟩ := RleOrder.parseOrder_eq_some hparse
      obtain ⟨hok, hrelated⟩ := (h.watchFirstLine hsim).execute hsim hpels
      rw [rleDecompress_of_parse (S := C) d hparse, rleDecompress_of_parse (S := A) e hparse, hok]
      split
      next => exact ih rest.length (hn ▸ hlength) rest hrelated rfl
      next => exact ⟨hok, hrelated⟩

end Decoder
