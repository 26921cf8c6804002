/-
# Pixel formats and image copies

`color.h` and `color.c` of FreeRDP, with `generic_image_copy_no_overlap` of `prim_copy.c`: how
a pixel is read from memory, taken apart into its colors, put together in another format and
written, and how a copy of an image walks over the pixels of two buffers.

A copy gives the list of the writes it makes, in order, so that what it reads from the source
is all that this list can depend on.
-/
import XyDeskRemote.ByteBuffer

/-! ## Formats -/

/-- `FREERDP_PIXEL_FORMAT`. -/
def freerdpPixelFormat (bpp type a r g b : UInt32) : UInt32 :=
  bpp <<< 24 ||| type <<< 16 ||| a <<< 12 ||| r <<< 8 ||| g <<< 4 ||| b

namespace PixelFormat

def typeA : UInt32 := 0
def typeArgb : UInt32 := 1
def typeAbgr : UInt32 := 2
def typeRgba : UInt32 := 3
def typeBgra : UInt32 := 4

def argb32 : UInt32 := freerdpPixelFormat 32 typeArgb 8 8 8 8
def xrgb32 : UInt32 := freerdpPixelFormat 32 typeArgb 0 8 8 8
def abgr32 : UInt32 := freerdpPixelFormat 32 typeAbgr 8 8 8 8
def xbgr32 : UInt32 := freerdpPixelFormat 32 typeAbgr 0 8 8 8
def bgra32 : UInt32 := freerdpPixelFormat 32 typeBgra 8 8 8 8
def bgrx32 : UInt32 := freerdpPixelFormat 32 typeBgra 0 8 8 8
def rgba32 : UInt32 := freerdpPixelFormat 32 typeRgba 8 8 8 8
def rgbx32 : UInt32 := freerdpPixelFormat 32 typeRgba 0 8 8 8
def bgrx32Depth30 : UInt32 := freerdpPixelFormat 32 typeBgra 0 10 10 10
def rgbx32Depth30 : UInt32 := freerdpPixelFormat 32 typeRgba 0 10 10 10
def rgb24 : UInt32 := freerdpPixelFormat 24 typeArgb 0 8 8 8
def bgr24 : UInt32 := freerdpPixelFormat 24 typeAbgr 0 8 8 8
def rgb16 : UInt32 := freerdpPixelFormat 16 typeArgb 0 5 6 5
def bgr16 : UInt32 := freerdpPixelFormat 16 typeAbgr 0 5 6 5
def argb15 : UInt32 := freerdpPixelFormat 16 typeArgb 1 5 5 5
def rgb15 : UInt32 := freerdpPixelFormat 15 typeArgb 0 5 5 5
def abgr15 : UInt32 := freerdpPixelFormat 16 typeAbgr 1 5 5 5
def bgr15 : UInt32 := freerdpPixelFormat 15 typeAbgr 0 5 5 5
def rgb8 : UInt32 := freerdpPixelFormat 8 typeA 8 0 0 0
def mono : UInt32 := freerdpPixelFormat 1 typeA 1 0 0 0

end PixelFormat

/-- `FreeRDPGetBitsPerPixel`. -/
def bitsPerPixel (format : UInt32) : ℕ := (format >>> 24 &&& 0x3F).toNat

/-- `FreeRDPGetBytesPerPixel`. -/
def bytesPerPixel (format : UInt32) : ℕ := (bitsPerPixel format + 7) / 8

/-- `FreeRDPColorHasAlpha`. -/
def colorHasAlpha (format : UInt32) : Bool := format >>> 12 &&& 0x0F ≠ 0

/-- `FreeRDPAreColorFormatsEqualNoAlpha`. -/
def colorFormatsEqualNoAlpha (first second : UInt32) : Bool :=
  first &&& ~~~((8 : UInt32) <<< 12) = second &&& ~~~((8 : UInt32) <<< 12)

/-! ## Colors -/

/-- The components of a color. -/
structure Rgba where
  r : UInt8 := 0
  g : UInt8 := 0
  b : UInt8 := 0
  a : UInt8 := 0
  deriving DecidableEq

/-- `gdiPalette`. -/
structure GdiPalette where
  format : UInt32
  palette : UInt8 → UInt32

namespace FreeRdpColor

open PixelFormat

/-- A component of five bits, scaled to a byte. -/
def five (c : UInt32) : UInt8 :=
  let c := c &&& 0x1F
  let val := (c <<< 3) + c / 4
  if val > 255 then 255 else val.toUInt8

/-- A component of six bits, scaled to a byte. -/
def six (c : UInt32) : UInt8 :=
  let c := c &&& 0x3F
  let val := (c <<< 2) + c / 4 / 2
  if val > 255 then 255 else val.toUInt8

/-- `FreeRDPSplitColor` for the formats that need no palette. -/
def splitDirect (color format : UInt32) : Rgba :=
  let byte (k : UInt32) := (color >>> k).toUInt8
  if format = argb32 then ⟨byte 16, byte 8, byte 0, byte 24⟩
  else if format = xrgb32 then ⟨byte 16, byte 8, byte 0, 0xFF⟩
  else if format = abgr32 then ⟨byte 0, byte 8, byte 16, byte 24⟩
  else if format = xbgr32 then ⟨byte 0, byte 8, byte 16, 0xFF⟩
  else if format = rgba32 then ⟨byte 24, byte 16, byte 8, byte 0⟩
  else if format = rgbx32 then ⟨byte 24, byte 16, byte 8, 0xFF⟩
  else if format = bgra32 then ⟨byte 8, byte 16, byte 24, byte 0⟩
  else if format = bgrx32 then ⟨byte 8, byte 16, byte 24, 0xFF⟩
  else if format = rgb24 then ⟨byte 16, byte 8, byte 0, 0xFF⟩
  else if format = bgr24 then ⟨byte 0, byte 8, byte 16, 0xFF⟩
  else if format = rgb16 then ⟨five (color >>> 11), six (color >>> 5), five color, 0xFF⟩
  else if format = bgr16 then ⟨five color, six (color >>> 5), five (color >>> 11), 0xFF⟩
  else if format = argb15 then
    ⟨five (color >>> 10), five (color >>> 5), five color,
      if color &&& 0x8000 ≠ 0 then 0xFF else 0⟩
  else if format = abgr15 then
    ⟨five color, five (color >>> 5), five (color >>> 10),
      if color &&& 0x8000 ≠ 0 then 0xFF else 0⟩
  else if format = rgb15 then ⟨five (color >>> 10), five (color >>> 5), five color, 0xFF⟩
  else if format = bgr15 then ⟨five color, five (color >>> 5), five (color >>> 10), 0xFF⟩
  else if format = mono then
    let v := if color ≠ 0 then 0xFF else 0
    ⟨v, v, v, v⟩
  else {}

/-- `FreeRDPSplitColor`; a palette that is needed and missing is a crash, also the one that a
palette of palette colors would need. -/
def splitColor (color format : UInt32) (palette : Option GdiPalette) : Option Rgba :=
  if format = rgb8 then
    if color ≤ 0xFF then
      palette.bind fun p =>
        let tmp := p.palette color.toUInt8
        if p.format = rgb8 then (if tmp ≤ 0xFF then none else some {})
        else some (splitDirect tmp p.format)
    else some {}
  else some (splitDirect color format)

/-- The components of ten bits, in the byte order in which `writeColor` stores them. -/
def depth30 (c : Rgba) : UInt32 :=
  let t := c.r.toUInt32 <<< 22 ||| c.g.toUInt32 <<< 12 ||| c.b.toUInt32 <<< 2
  (t &&& 0xff) <<< 24 ||| (t >>> 8 &&& 0xff) <<< 16 ||| (t >>> 16 &&& 0xff) <<< 8 ||| t >>> 24

/-- `FreeRDPGetColor`. -/
def getColor (format : UInt32) (c : Rgba) : UInt32 :=
  let r := c.r.toUInt32
  let g := c.g.toUInt32
  let b := c.b.toUInt32
  let a := c.a.toUInt32
  let pack16 (hi lo : UInt32) := (hi >>> 3 &&& 0x1F) <<< 11 ||| (g >>> 2 &&& 0x3F) <<< 5 |||
    lo >>> 3 &&& 0x1F
  let pack15 (hi lo : UInt32) := (hi >>> 3 &&& 0x1F) <<< 10 ||| (g >>> 3 &&& 0x1F) <<< 5 |||
    lo >>> 3 &&& 0x1F
  let alpha : UInt32 := if a ≠ 0 then 0x8000 else 0
  if format = argb32 then a <<< 24 ||| r <<< 16 ||| g <<< 8 ||| b
  else if format = xrgb32 then r <<< 16 ||| g <<< 8 ||| b
  else if format = abgr32 then a <<< 24 ||| b <<< 16 ||| g <<< 8 ||| r
  else if format = xbgr32 then b <<< 16 ||| g <<< 8 ||| r
  else if format = rgba32 ∨ format = rgbx32 then r <<< 24 ||| g <<< 16 ||| b <<< 8 ||| a
  else if format = bgra32 ∨ format = bgrx32 then b <<< 24 ||| g <<< 16 ||| r <<< 8 ||| a
  else if format = rgbx32Depth30 ∨ format = bgrx32Depth30 then depth30 c
  else if format = rgb24 then r <<< 16 ||| g <<< 8 ||| b
  else if format = bgr24 then b <<< 16 ||| g <<< 8 ||| r
  else if format = rgb16 then pack16 r b
  else if format = bgr16 then pack16 b r
  else if format = argb15 then pack15 r b ||| alpha
  else if format = abgr15 then pack15 b r ||| alpha
  else if format = rgb15 then pack15 r b
  else if format = bgr15 then pack15 b r
  else 0

/-- `FreeRDPConvertColor`. -/
def convertColor (color srcFormat dstFormat : UInt32) (palette : Option GdiPalette) :
    Option UInt32 :=
  (splitColor color srcFormat palette).map (getColor dstFormat)

/-- `FreeRDPReadColor_int`. -/
def readColor (src : List UInt8) (format : UInt32) : UInt32 :=
  let byte (k : ℕ) := (src.getD k 0).toUInt32
  match bitsPerPixel format with
  | 32 => byte 0 <<< 24 ||| byte 1 <<< 16 ||| byte 2 <<< 8 ||| byte 3
  | 24 => byte 0 <<< 16 ||| byte 1 <<< 8 ||| byte 2
  | 16 => byte 1 <<< 8 ||| byte 0
  | 15 =>
    let color := byte 1 <<< 8 ||| byte 0
    if colorHasAlpha format then color else color &&& 0x7FFF
  | 8 | 4 | 1 => byte 0
  | _ => 0

/-- The bytes `FreeRDPWriteColor_int` writes. -/
def writeColor (format color : UInt32) : Option (List UInt8) :=
  let byte (color k : UInt32) := (color >>> k).toUInt8
  match bitsPerPixel format with
  | 32 => some [byte color 24, byte color 16, byte color 8, byte color 0]
  | 24 => some [byte color 16, byte color 8, byte color 0]
  | 16 => some [byte color 0, byte color 8]
  | 15 =>
    let color := if colorHasAlpha format then color else color &&& 0x7FFF
    some [byte color 0, byte color 8]
  | 8 => some [byte color 0]
  | _ => none

end FreeRdpColor

/-! ## Copies of images -/

/-- Bytes written at an offset of the destination. -/
structure PixelWrite where
  offset : ℕ
  bytes : List UInt8
  deriving DecidableEq

namespace ImageCopy

open PixelFormat FreeRdpColor

/-- How a copy treats its pixels: the two formats, the palette and `FREERDP_KEEP_DST_ALPHA`. -/
structure Conversion where
  srcFormat : UInt32
  dstFormat : UInt32
  palette : Option GdiPalette
  keepDstAlpha : Bool

/-- A pixel of `generic_image_copy_no_overlap_convert`. -/
def convertPixel (c : Conversion) (src : List UInt8) : Option (List UInt8) :=
  (convertColor (readColor src c.srcFormat) c.srcFormat c.dstFormat c.palette).bind
    (writeColor c.dstFormat)

/-- The format pairs of `generic_image_copy_no_overlap_dst_alpha` that copy three bytes of each
pixel.  (The one to `PIXEL_FORMAT_RGB24` is out of reach: that format has no alpha.) -/
def copiesThree (srcFormat dstFormat : UInt32) : Bool :=
  (srcFormat = bgr24 ∧ (dstFormat = bgrx32 ∨ dstFormat = bgra32)) ∨
    ((srcFormat = bgrx32 ∨ srcFormat = bgra32) ∧ (dstFormat = bgrx32 ∨ dstFormat = bgra32)) ∨
    ((srcFormat = rgbx32 ∨ srcFormat = rgba32) ∧ (dstFormat = rgbx32 ∨ dstFormat = rgba32))

/-- What is written for a pixel of the source. -/
def copyPixel (c : Conversion) (src : List UInt8) : Option (List UInt8) :=
  if c.keepDstAlpha ∧ colorHasAlpha c.dstFormat then
    if copiesThree c.srcFormat c.dstFormat then some (src.take 3) else convertPixel c src
  else if colorFormatsEqualNoAlpha c.srcFormat c.dstFormat then some src
  else convertPixel c src

/-- Where the pixels of a copy are: the step of a row in bytes, and the position of the first. -/
structure Place where
  step : ℕ
  x : ℕ
  y : ℕ

/-- The bytes of a pixel, when they are in the buffer. -/
def readPixel (buffer : List UInt8) (offset size : ℕ) : Option (List UInt8) :=
  if offset + size ≤ buffer.length then some ((buffer.drop offset).take size) else none

/-- The step a copy uses, an overflow included. -/
def effectiveStep (p : Place) (width size : ℕ) : ℕ :=
  if p.step = 0 then (p.x + width) * size % 2 ^ 32 else p.step

/-- The pixel at `(x, y)` of the area, from a source whose rows may be upside down. -/
def copyAt (c : Conversion) (dst src : Place) (height : ℕ) (flip : Bool) (buffer : List UInt8)
    (y x : ℕ) : Option PixelWrite :=
  if flip ∧ height ≤ y + src.y then none
  else
    let row := if flip then height - 1 - (y + src.y) else y + src.y
    let srcSize := bytesPerPixel c.srcFormat
    (readPixel buffer (row * src.step + (x + src.x) * srcSize) srcSize).bind fun pixel =>
      (copyPixel c pixel).map fun bytes =>
        ⟨(y + dst.y) * dst.step + (x + dst.x) * bytesPerPixel c.dstFormat, bytes⟩

/-- `freerdp_image_copy_no_overlap`, with `generic_image_copy_no_overlap`: the writes to the
destination.  There are none when it fails, an assertion does not hold, or it reads outside of
the source. -/
def imageCopyNoOverlap (c : Conversion) (dst src : Place) (width height : ℕ) (flip : Bool)
    (buffer : List UInt8) : Option (List PixelWrite) :=
  let dstSize := bytesPerPixel c.dstFormat
  let srcSize := bytesPerPixel c.srcFormat
  let dst := { dst with step := effectiveStep dst width dstSize }
  let src := { src with step := effectiveStep src width srcSize }
  if bitsPerPixel c.srcFormat = 0 ∨ bitsPerPixel c.dstFormat = 0 then none
  else if width = 0 ∨ height = 0 then some []
  else if dst.x + width < 2 ^ 32 ∧ src.x + width < 2 ^ 32 ∧ dst.x + width ≤ dst.step / dstSize ∧
      src.x + width ≤ src.step / srcSize ∧ height < 2 ^ 31 ∧ width < 2 ^ 31 then
    ((List.range height).flatMap fun y => (List.range width).map fun x => (y, x)).mapM
      fun p => copyAt c dst src height flip buffer p.1 p.2
  else none

/-- Mapping a partial function over a list. -/
theorem mapM_eq_some_iff {α β : Type*} {f : α → Option β} {l : List α} {ys : List β} :
    l.mapM f = some ys ↔ l.map f = ys.map some := by
  induction l generalizing ys with
  | nil =>
    cases ys with
    | nil => exact ⟨fun _ => rfl, fun _ => rfl⟩
    | cons y ys => exact ⟨nofun, nofun⟩
  | cons a l ih =>
    rw [List.mapM_cons]
    cases ys with
    | nil =>
      refine ⟨fun h => ?_, nofun⟩
      obtain ⟨b, -, h⟩ := Option.bind_eq_some_iff.1 h
      obtain ⟨bs, -, h⟩ := Option.bind_eq_some_iff.1 h
      cases h
    | cons y ys =>
      rw [List.map_cons, List.map_cons, List.cons.injEq, ← ih]
      constructor
      · intro h
        obtain ⟨b, hb, h⟩ := Option.bind_eq_some_iff.1 h
        obtain ⟨bs, hbs, h⟩ := Option.bind_eq_some_iff.1 h
        obtain ⟨rfl, rfl⟩ := List.cons.inj (Option.some.inj h)
        exact ⟨hb, hbs⟩
      · rintro ⟨hb, hbs⟩
        rw [hb, hbs]
        rfl

variable {c : Conversion} {dst src : Place} {width height : ℕ} {buffer : List UInt8}
  {ws : List PixelWrite}

/-- **A copy that succeeds.**  The area fits in a row of both sides, and every pixel of it is
copied. -/
theorem imageCopyNoOverlap_eq_some (hwidth : width ≠ 0) (hheight : height ≠ 0)
    (hstep : src.step ≠ 0) :
    imageCopyNoOverlap c dst src width height true buffer = some ws ↔
      (bitsPerPixel c.srcFormat ≠ 0 ∧ bitsPerPixel c.dstFormat ≠ 0 ∧
        dst.x + width < 2 ^ 32 ∧ src.x + width < 2 ^ 32 ∧
        dst.x + width ≤ effectiveStep dst width (bytesPerPixel c.dstFormat) /
          bytesPerPixel c.dstFormat ∧
        src.x + width ≤ src.step / bytesPerPixel c.srcFormat ∧
        height < 2 ^ 31 ∧ width < 2 ^ 31) ∧
      ((List.range height).flatMap fun y => (List.range width).map fun x => (y, x)).map
        (fun p => copyAt c { dst with step := effectiveStep dst width (bytesPerPixel c.dstFormat) }
          src height true buffer p.1 p.2) = ws.map some := by
  have hsrc : { src with step := effectiveStep src width (bytesPerPixel c.srcFormat) } = src := by
    rw [effectiveStep, if_neg hstep]
  rw [imageCopyNoOverlap, hsrc]
  dsimp only
  by_cases hbits : bitsPerPixel c.srcFormat = 0 ∨ bitsPerPixel c.dstFormat = 0
  · rw [if_pos hbits]
    exact ⟨nofun, fun h => by omega⟩
  · rw [if_neg hbits, if_neg (by omega)]
    rw [Option.ite_none_right_eq_some, mapM_eq_some_iff]
    exact ⟨fun h => ⟨by omega, h.2⟩, fun h => ⟨by omega, h.2⟩⟩

end ImageCopy
