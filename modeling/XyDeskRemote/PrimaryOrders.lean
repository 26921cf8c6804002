/-
# Primary drawing orders

A primary drawing order names a type and the fields of that type that it carries; a field that it
leaves out stays as it was.  The receiver keeps one structure for each type and reads the fields
of an order over it, then hands it to the callback of the type.

This module is the readers of `orders.c`: of single fields, and of the orders with more than
twenty types.  Reading ends in `none` where the source returns `FALSE`.  The arrays of
rectangles, points and bytes are the entries that were read last; nothing reads beyond them.
-/
import XyDeskRemote.SecondaryOrders

open ByteReader

namespace PrimaryOrder

/-! ## Fields -/

/-- `rdpBounds`. -/
structure Bounds where
  left : ℤ
  top : ℤ
  right : ℤ
  bottom : ℤ
  deriving DecidableEq

/-- `ORDER_INFO`. -/
structure OrderInfo where
  orderType : ℕ
  fieldFlags : ℕ
  bounds : Bounds
  deltaCoordinates : Bool
  deriving DecidableEq

/-- The sum of two `INT32`. -/
def addInt32 (a b : ℤ) : ℤ := (a + b).bmod (2 ^ 32)

/-- `Stream_Read_INT8`. -/
def readInt8 : ByteReader ℤ := (fun v => (UInt8.ofNat v).toInt8.toInt) <$> uint8

/-- `Stream_Read_INT16`. -/
def readInt16 : ByteReader ℤ := Int16.toInt <$> int16

/-- `update_read_coord`: a new value, or the difference to the one there is. -/
def updateReadCoord (coord : ℤ) (delta : Bool) : ByteReader ℤ :=
  if delta then do
    require 1
    let lsi8 ← readInt8
    return addInt32 coord lsi8
  else do
    require 2
    readInt16

/-- `update_read_color`: three bytes, red first. -/
def updateReadColor : ByteReader ℕ := do
  require 3
  let red ← uint8
  let green ← uint8
  let blue ← uint8
  return (red ||| ((green <<< 8) &&& 0xFF00)) ||| ((blue <<< 16) &&& 0xFF0000)

/-- `update_read_delta`: one byte or two. -/
def updateReadDelta : ByteReader ℤ := do
  require 1
  let byte ← uint8
  let uvalue := if byte &&& 0x40 ≠ 0 then byte ||| 0xFFFFFFC0 else byte &&& 0x3F
  if byte &&& 0x80 ≠ 0 then do
    require 1
    let low ← uint8
    return (BitVec.ofNat 32 ((uvalue <<< 8) ||| low)).toInt
  else return (BitVec.ofNat 32 uvalue).toInt

/-- `order_field_flag_is_set`. -/
def orderFieldFlagIsSet (info : OrderInfo) (number : ℕ) : Prop :=
  info.fieldFlags &&& (1 <<< (number - 1)) ≠ 0

instance (info : OrderInfo) (number : ℕ) : Decidable (orderFieldFlagIsSet info number) :=
  inferInstanceAs (Decidable (_ ≠ _))

/-- A field: what is read where its flag is set, else what there is. -/
def readOrderField {α : Type} (info : OrderInfo) (number : ℕ) (target : α)
    (read : ByteReader α) : ByteReader α :=
  if orderFieldFlagIsSet info number then read else pure target

/-- `read_order_field_byte`. -/
def readOrderFieldByte (info : OrderInfo) (number target : ℕ) : ByteReader ℕ :=
  readOrderField info number target do
    require 1
    uint8

/-- `read_order_field_2bytes`. -/
def readOrderField2bytes (info : OrderInfo) (number target1 target2 : ℕ) : ByteReader (ℕ × ℕ) :=
  readOrderField info number (target1, target2) do
    require 2
    let first ← uint8
    let second ← uint8
    return (first, second)

/-- `read_order_field_uint16`. -/
def readOrderFieldUint16 (info : OrderInfo) (number target : ℕ) : ByteReader ℕ :=
  readOrderField info number target do
    require 2
    uint16

/-- `read_order_field_int16`. -/
def readOrderFieldInt16 (info : OrderInfo) (number : ℕ) (target : ℤ) : ByteReader ℤ :=
  readOrderField info number target do
    require 2
    readInt16

/-- `read_order_field_uint32`. -/
def readOrderFieldUint32 (info : OrderInfo) (number target : ℕ) : ByteReader ℕ :=
  readOrderField info number target do
    require 4
    uint32

/-- `read_order_field_coord`. -/
def readOrderFieldCoord (info : OrderInfo) (number : ℕ) (target : ℤ) : ByteReader ℤ :=
  readOrderField info number target (updateReadCoord target info.deltaCoordinates)

/-- `read_order_field_color`. -/
def readOrderFieldColor (info : OrderInfo) (number target : ℕ) : ByteReader ℕ :=
  readOrderField info number target updateReadColor

/-- One byte of the colour of an opaque rectangle, over the bytes that `mask` keeps. -/
def readColorByte (info : OrderInfo) (number mask shift color : ℕ) : ByteReader ℕ :=
  readOrderField info number color do
    require 1
    let byte ← uint8
    return (color &&& mask) ||| (byte <<< shift)

/-! ## Brushes -/

/-- `rdpBrush`; `p8x8` is an array of eight bytes. -/
structure Brush where
  x : ℕ
  y : ℕ
  bpp : ℕ
  style : ℕ
  hatch : ℕ
  index : ℕ
  p8x8 : List UInt8
  deriving DecidableEq

/-- `CACHED_BRUSH` is set. -/
def cachedBrush (style : ℕ) : Prop := style &&& 0x80 ≠ 0

instance (style : ℕ) : Decidable (cachedBrush style) := inferInstanceAs (Decidable (_ ≠ _))

/-- A byte of a brush, at a bit of the five flags of brushes. -/
def readBrushByte (fieldFlags bit target : ℕ) : ByteReader ℕ :=
  if fieldFlags &&& bit ≠ 0 then do
    require 1
    uint8
  else return target

/-- `update_read_brush`: of the pattern seven bytes are sent, the last row first, and the row in
front of them is the hatch. -/
def updateReadBrush (brush : Brush) (fieldFlags : ℕ) : ByteReader Brush := do
  let x ← readBrushByte fieldFlags 0x01 brush.x
  let y ← readBrushByte fieldFlags 0x02 brush.y
  let style ← readBrushByte fieldFlags 0x04 brush.style
  let hatch ← readBrushByte fieldFlags 0x08 brush.hatch
  let depth := SecondaryOrder.getBmfBpp style
  ensure (cachedBrush style → depth.2 = true)
  let index := if cachedBrush style then hatch else brush.index
  let bpp := if cachedBrush style then if depth.1 = 0 then 1 else depth.1 else brush.bpp
  let p8x8 ←
    if fieldFlags &&& 0x10 ≠ 0 then do
      require 7
      let rows ← bytes 7
      pure (UInt8.ofNat hatch :: rows.reverse)
    else pure brush.p8x8
  return { x, y, bpp, style, hatch, index, p8x8 }

/-! ## Rectangles, points and bytes -/

/-- `DELTA_RECT`. -/
structure DeltaRect where
  left : ℤ
  top : ℤ
  width : ℤ
  height : ℤ
  deriving DecidableEq

/-- `DELTA_POINT`. -/
structure DeltaPoint where
  x : ℤ
  y : ℤ
  deriving DecidableEq

/-- A difference that is left out where its bit of the zero bits is set. -/
def readZeroBit (flags bit : ℕ) (absent : ℤ) : ByteReader ℤ :=
  if flags &&& bit = 0 then updateReadDelta else return absent

/-- The loop of `update_read_delta_rects`; `previous` is the rectangle before. -/
def readDeltaRects (zeroBits : List UInt8) :
    ℕ → ℕ → DeltaRect → ByteReader (List DeltaRect)
  | _, 0, _ => return []
  | i, number + 1, previous => do
    let flags := ((zeroBits.getD (i / 2) 0).toNat <<< (4 * (i % 2))) &&& 0xFF
    let left ← readZeroBit flags 0x80 0
    let top ← readZeroBit flags 0x40 0
    let width ← readZeroBit flags 0x20 (if i > 0 then previous.width else 0)
    let height ← readZeroBit flags 0x10 (if i > 0 then previous.height else 0)
    let rect : DeltaRect :=
      { left := if i > 0 then addInt32 left previous.left else left
        top := if i > 0 then addInt32 top previous.top else top
        width, height }
    let rects ← readDeltaRects zeroBits (i + 1) number rect
    return rect :: rects

/-- `update_read_delta_rects`. -/
def updateReadDeltaRects (number : ℕ) : ByteReader (List DeltaRect) := do
  ensure (number ≤ 45)
  require ((number + 1) / 2)
  let zeroBits ← bytes ((number + 1) / 2)
  readDeltaRects zeroBits 0 number ⟨0, 0, 0, 0⟩

/-- The loop of `update_read_delta_points`. -/
def readDeltaPoints (zeroBits : List UInt8) : ℕ → ℕ → ByteReader (List DeltaPoint)
  | _, 0 => return []
  | i, number + 1 => do
    let flags := ((zeroBits.getD (i / 4) 0).toNat <<< (2 * (i % 4))) &&& 0xFF
    let x ← readZeroBit flags 0x80 0
    let y ← readZeroBit flags 0x40 0
    let points ← readDeltaPoints zeroBits (i + 1) number
    return { x, y } :: points

/-- `update_read_delta_points`. -/
def updateReadDeltaPoints (number : ℕ) : ByteReader (List DeltaPoint) := do
  require ((number + 3) / 4)
  let zeroBits ← bytes ((number + 3) / 4)
  readDeltaPoints zeroBits 0 number

/-- The end of the orders with rectangles: their number `num` counts only as far as there are
rectangles, `stored` of them from before. -/
def readRectangles (info : OrderInfo) (number num stored cbData : ℕ)
    (rectangles : List DeltaRect) : ByteReader (ℕ × List DeltaRect) :=
  if orderFieldFlagIsSet info number then do
    require 2
    let cbData ← uint16
    let rectangles ← updateReadDeltaRects num
    return (cbData, rectangles)
  else do
    ensure (num ≤ stored)
    return (cbData, rectangles)

/-- `check_val_fits_int16`. -/
def checkValFitsInt16 (value : ℤ) : Prop := -0x8000 ≤ value ∧ value ≤ 0x7FFF

instance (value : ℤ) : Decidable (checkValFitsInt16 value) := inferInstanceAs (Decidable (_ ∧ _))

/-- The end of the orders with points. -/
def readPoints (info : OrderInfo) (number : ℕ) (xStart yStart : ℤ) (num stored cbData : ℕ)
    (points : List DeltaPoint) : ByteReader (ℕ × List DeltaPoint) :=
  if orderFieldFlagIsSet info number then do
    ensure (num ≠ 0)
    require 1
    let cbData ← uint8
    ensure (checkValFitsInt16 xStart ∧ checkValFitsInt16 yStart)
    let points ← updateReadDeltaPoints num
    return (cbData, points)
  else do
    ensure (num ≤ stored)
    return (cbData, points)

/-- The bytes of glyphs at the end of an order. -/
def readGlyphBytes (info : OrderInfo) (number cbData : ℕ) (data : List UInt8) :
    ByteReader (ℕ × List UInt8) :=
  readOrderField info number (cbData, data) do
    require 1
    let cbData ← uint8
    require cbData
    let data ← bytes cbData
    return (cbData, data)

/-! ## The orders -/

/-- `DSTBLT_ORDER`. -/
structure DstbltOrder where
  nLeftRect : ℤ
  nTopRect : ℤ
  nWidth : ℤ
  nHeight : ℤ
  bRop : ℕ
  deriving DecidableEq

/-- `update_read_dstblt_order`. -/
def updateReadDstbltOrder (info : OrderInfo) (dstblt : DstbltOrder) : ByteReader DstbltOrder := do
  let nLeftRect ← readOrderFieldCoord info 1 dstblt.nLeftRect
  let nTopRect ← readOrderFieldCoord info 2 dstblt.nTopRect
  let nWidth ← readOrderFieldCoord info 3 dstblt.nWidth
  let nHeight ← readOrderFieldCoord info 4 dstblt.nHeight
  let bRop ← readOrderFieldByte info 5 dstblt.bRop
  return { nLeftRect, nTopRect, nWidth, nHeight, bRop }

/-- `PATBLT_ORDER`. -/
structure PatbltOrder where
  nLeftRect : ℤ
  nTopRect : ℤ
  nWidth : ℤ
  nHeight : ℤ
  bRop : ℕ
  backColor : ℕ
  foreColor : ℕ
  brush : Brush
  deriving DecidableEq

/-- `update_read_patblt_order`. -/
def updateReadPatbltOrder (info : OrderInfo) (patblt : PatbltOrder) : ByteReader PatbltOrder := do
  let nLeftRect ← readOrderFieldCoord info 1 patblt.nLeftRect
  let nTopRect ← readOrderFieldCoord info 2 patblt.nTopRect
  let nWidth ← readOrderFieldCoord info 3 patblt.nWidth
  let nHeight ← readOrderFieldCoord info 4 patblt.nHeight
  let bRop ← readOrderFieldByte info 5 patblt.bRop
  let backColor ← readOrderFieldColor info 6 patblt.backColor
  let foreColor ← readOrderFieldColor info 7 patblt.foreColor
  let brush ← updateReadBrush patblt.brush ((info.fieldFlags >>> 7) &&& 0x1F)
  return { nLeftRect, nTopRect, nWidth, nHeight, bRop, backColor, foreColor, brush }

/-- `SCRBLT_ORDER`. -/
structure ScrbltOrder where
  nLeftRect : ℤ
  nTopRect : ℤ
  nWidth : ℤ
  nHeight : ℤ
  bRop : ℕ
  nXSrc : ℤ
  nYSrc : ℤ
  deriving DecidableEq

/-- `update_read_scrblt_order`. -/
def updateReadScrbltOrder (info : OrderInfo) (scrblt : ScrbltOrder) : ByteReader ScrbltOrder := do
  let nLeftRect ← readOrderFieldCoord info 1 scrblt.nLeftRect
  let nTopRect ← readOrderFieldCoord info 2 scrblt.nTopRect
  let nWidth ← readOrderFieldCoord info 3 scrblt.nWidth
  let nHeight ← readOrderFieldCoord info 4 scrblt.nHeight
  let bRop ← readOrderFieldByte info 5 scrblt.bRop
  let nXSrc ← readOrderFieldCoord info 6 scrblt.nXSrc
  let nYSrc ← readOrderFieldCoord info 7 scrblt.nYSrc
  return { nLeftRect, nTopRect, nWidth, nHeight, bRop, nXSrc, nYSrc }

/-- `OPAQUE_RECT_ORDER`. -/
structure OpaqueRectOrder where
  nLeftRect : ℤ
  nTopRect : ℤ
  nWidth : ℤ
  nHeight : ℤ
  color : ℕ
  deriving DecidableEq

/-- `update_read_opaque_rect_order`. -/
def updateReadOpaqueRectOrder (info : OrderInfo) (opaqueRect : OpaqueRectOrder) :
    ByteReader OpaqueRectOrder := do
  let nLeftRect ← readOrderFieldCoord info 1 opaqueRect.nLeftRect
  let nTopRect ← readOrderFieldCoord info 2 opaqueRect.nTopRect
  let nWidth ← readOrderFieldCoord info 3 opaqueRect.nWidth
  let nHeight ← readOrderFieldCoord info 4 opaqueRect.nHeight
  let color ← readColorByte info 5 0x00FFFF00 0 opaqueRect.color
  let color ← readColorByte info 6 0x00FF00FF 8 color
  let color ← readColorByte info 7 0x0000FFFF 16 color
  return { nLeftRect, nTopRect, nWidth, nHeight, color }

/-- `DRAW_NINE_GRID_ORDER`. -/
structure DrawNineGridOrder where
  srcLeft : ℤ
  srcTop : ℤ
  srcRight : ℤ
  srcBottom : ℤ
  bitmapId : ℕ
  deriving DecidableEq

/-- `update_read_draw_nine_grid_order`. -/
def updateReadDrawNineGridOrder (info : OrderInfo) (drawNineGrid : DrawNineGridOrder) :
    ByteReader DrawNineGridOrder := do
  let srcLeft ← readOrderFieldCoord info 1 drawNineGrid.srcLeft
  let srcTop ← readOrderFieldCoord info 2 drawNineGrid.srcTop
  let srcRight ← readOrderFieldCoord info 3 drawNineGrid.srcRight
  let srcBottom ← readOrderFieldCoord info 4 drawNineGrid.srcBottom
  let bitmapId ← readOrderFieldUint16 info 5 drawNineGrid.bitmapId
  return { srcLeft, srcTop, srcRight, srcBottom, bitmapId }

/-- `MULTI_DSTBLT_ORDER`. -/
structure MultiDstbltOrder where
  nLeftRect : ℤ
  nTopRect : ℤ
  nWidth : ℤ
  nHeight : ℤ
  bRop : ℕ
  numRectangles : ℕ
  cbData : ℕ
  rectangles : List DeltaRect
  deriving DecidableEq

/-- `update_read_multi_dstblt_order`. -/
def updateReadMultiDstbltOrder (info : OrderInfo) (multiDstblt : MultiDstbltOrder) :
    ByteReader MultiDstbltOrder := do
  let nLeftRect ← readOrderFieldCoord info 1 multiDstblt.nLeftRect
  let nTopRect ← readOrderFieldCoord info 2 multiDstblt.nTopRect
  let nWidth ← readOrderFieldCoord info 3 multiDstblt.nWidth
  let nHeight ← readOrderFieldCoord info 4 multiDstblt.nHeight
  let bRop ← readOrderFieldByte info 5 multiDstblt.bRop
  let numRectangles ← readOrderFieldByte info 6 multiDstblt.numRectangles
  let (cbData, rectangles) ← readRectangles info 7 numRectangles multiDstblt.numRectangles
    multiDstblt.cbData multiDstblt.rectangles
  return { nLeftRect, nTopRect, nWidth, nHeight, bRop, numRectangles, cbData, rectangles }

/-- `MULTI_PATBLT_ORDER`. -/
structure MultiPatbltOrder where
  nLeftRect : ℤ
  nTopRect : ℤ
  nWidth : ℤ
  nHeight : ℤ
  bRop : ℕ
  backColor : ℕ
  foreColor : ℕ
  brush : Brush
  numRectangles : ℕ
  cbData : ℕ
  rectangles : List DeltaRect
  deriving DecidableEq

/-- `update_read_multi_patblt_order`. -/
def updateReadMultiPatbltOrder (info : OrderInfo) (multiPatblt : MultiPatbltOrder) :
    ByteReader MultiPatbltOrder := do
  let nLeftRect ← readOrderFieldCoord info 1 multiPatblt.nLeftRect
  let nTopRect ← readOrderFieldCoord info 2 multiPatblt.nTopRect
  let nWidth ← readOrderFieldCoord info 3 multiPatblt.nWidth
  let nHeight ← readOrderFieldCoord info 4 multiPatblt.nHeight
  let bRop ← readOrderFieldByte info 5 multiPatblt.bRop
  let backColor ← readOrderFieldColor info 6 multiPatblt.backColor
  let foreColor ← readOrderFieldColor info 7 multiPatblt.foreColor
  let brush ← updateReadBrush multiPatblt.brush ((info.fieldFlags >>> 7) &&& 0x1F)
  let numRectangles ← readOrderFieldByte info 13 multiPatblt.numRectangles
  let (cbData, rectangles) ← readRectangles info 14 numRectangles multiPatblt.numRectangles
    multiPatblt.cbData multiPatblt.rectangles
  return { nLeftRect, nTopRect, nWidth, nHeight, bRop, backColor, foreColor, brush,
           numRectangles, cbData, rectangles }

/-- `MULTI_SCRBLT_ORDER`. -/
structure MultiScrbltOrder where
  nLeftRect : ℤ
  nTopRect : ℤ
  nWidth : ℤ
  nHeight : ℤ
  bRop : ℕ
  nXSrc : ℤ
  nYSrc : ℤ
  numRectangles : ℕ
  cbData : ℕ
  rectangles : List DeltaRect
  deriving DecidableEq

/-- `update_read_multi_scrblt_order`. -/
def updateReadMultiScrbltOrder (info : OrderInfo) (multiScrblt : MultiScrbltOrder) :
    ByteReader MultiScrbltOrder := do
  let nLeftRect ← readOrderFieldCoord info 1 multiScrblt.nLeftRect
  let nTopRect ← readOrderFieldCoord info 2 multiScrblt.nTopRect
  let nWidth ← readOrderFieldCoord info 3 multiScrblt.nWidth
  let nHeight ← readOrderFieldCoord info 4 multiScrblt.nHeight
  let bRop ← readOrderFieldByte info 5 multiScrblt.bRop
  let nXSrc ← readOrderFieldCoord info 6 multiScrblt.nXSrc
  let nYSrc ← readOrderFieldCoord info 7 multiScrblt.nYSrc
  let numRectangles ← readOrderFieldByte info 8 multiScrblt.numRectangles
  let (cbData, rectangles) ← readRectangles info 9 numRectangles multiScrblt.numRectangles
    multiScrblt.cbData multiScrblt.rectangles
  return { nLeftRect, nTopRect, nWidth, nHeight, bRop, nXSrc, nYSrc, numRectangles, cbData,
           rectangles }

/-- `MULTI_OPAQUE_RECT_ORDER`. -/
structure MultiOpaqueRectOrder where
  nLeftRect : ℤ
  nTopRect : ℤ
  nWidth : ℤ
  nHeight : ℤ
  color : ℕ
  numRectangles : ℕ
  cbData : ℕ
  rectangles : List DeltaRect
  deriving DecidableEq

/-- `update_read_multi_opaque_rect_order`. -/
def updateReadMultiOpaqueRectOrder (info : OrderInfo) (multiOpaqueRect : MultiOpaqueRectOrder) :
    ByteReader MultiOpaqueRectOrder := do
  let nLeftRect ← readOrderFieldCoord info 1 multiOpaqueRect.nLeftRect
  let nTopRect ← readOrderFieldCoord info 2 multiOpaqueRect.nTopRect
  let nWidth ← readOrderFieldCoord info 3 multiOpaqueRect.nWidth
  let nHeight ← readOrderFieldCoord info 4 multiOpaqueRect.nHeight
  let color ← readColorByte info 5 0x00FFFF00 0 multiOpaqueRect.color
  let color ← readColorByte info 6 0x00FF00FF 8 color
  let color ← readColorByte info 7 0x0000FFFF 16 color
  let numRectangles ← readOrderFieldByte info 8 multiOpaqueRect.numRectangles
  let (cbData, rectangles) ← readRectangles info 9 numRectangles multiOpaqueRect.numRectangles
    multiOpaqueRect.cbData multiOpaqueRect.rectangles
  return { nLeftRect, nTopRect, nWidth, nHeight, color, numRectangles, cbData, rectangles }

/-- `MULTI_DRAW_NINE_GRID_ORDER`. -/
structure MultiDrawNineGridOrder where
  srcLeft : ℤ
  srcTop : ℤ
  srcRight : ℤ
  srcBottom : ℤ
  bitmapId : ℕ
  nDeltaEntries : ℕ
  cbData : ℕ
  rectangles : List DeltaRect
  deriving DecidableEq

/-- `update_read_multi_draw_nine_grid_order`. -/
def updateReadMultiDrawNineGridOrder (info : OrderInfo)
    (multiDrawNineGrid : MultiDrawNineGridOrder) : ByteReader MultiDrawNineGridOrder := do
  let srcLeft ← readOrderFieldCoord info 1 multiDrawNineGrid.srcLeft
  let srcTop ← readOrderFieldCoord info 2 multiDrawNineGrid.srcTop
  let srcRight ← readOrderFieldCoord info 3 multiDrawNineGrid.srcRight
  let srcBottom ← readOrderFieldCoord info 4 multiDrawNineGrid.srcBottom
  let bitmapId ← readOrderFieldUint16 info 5 multiDrawNineGrid.bitmapId
  let nDeltaEntries ← readOrderFieldByte info 6 multiDrawNineGrid.nDeltaEntries
  let (cbData, rectangles) ← readRectangles info 7 nDeltaEntries multiDrawNineGrid.nDeltaEntries
    multiDrawNineGrid.cbData multiDrawNineGrid.rectangles
  return { srcLeft, srcTop, srcRight, srcBottom, bitmapId, nDeltaEntries, cbData, rectangles }

/-- `LINE_TO_ORDER`. -/
structure LineToOrder where
  backMode : ℕ
  nXStart : ℤ
  nYStart : ℤ
  nXEnd : ℤ
  nYEnd : ℤ
  backColor : ℕ
  bRop2 : ℕ
  penStyle : ℕ
  penWidth : ℕ
  penColor : ℕ
  deriving DecidableEq

/-- `update_read_line_to_order`. -/
def updateReadLineToOrder (info : OrderInfo) (lineTo : LineToOrder) : ByteReader LineToOrder := do
  let backMode ← readOrderFieldUint16 info 1 lineTo.backMode
  let nXStart ← readOrderFieldCoord info 2 lineTo.nXStart
  let nYStart ← readOrderFieldCoord info 3 lineTo.nYStart
  let nXEnd ← readOrderFieldCoord info 4 lineTo.nXEnd
  let nYEnd ← readOrderFieldCoord info 5 lineTo.nYEnd
  let backColor ← readOrderFieldColor info 6 lineTo.backColor
  let bRop2 ← readOrderFieldByte info 7 lineTo.bRop2
  let penStyle ← readOrderFieldByte info 8 lineTo.penStyle
  let penWidth ← readOrderFieldByte info 9 lineTo.penWidth
  let penColor ← readOrderFieldColor info 10 lineTo.penColor
  return { backMode, nXStart, nYStart, nXEnd, nYEnd, backColor, bRop2, penStyle, penWidth,
           penColor }

/-- `POLYLINE_ORDER`. -/
structure PolylineOrder where
  xStart : ℤ
  yStart : ℤ
  bRop2 : ℕ
  penColor : ℕ
  numDeltaEntries : ℕ
  cbData : ℕ
  points : List DeltaPoint
  deriving DecidableEq

/-- `update_read_polyline_order`; the fourth field is read and dropped. -/
def updateReadPolylineOrder (info : OrderInfo) (polyline : PolylineOrder) :
    ByteReader PolylineOrder := do
  let xStart ← readOrderFieldCoord info 1 polyline.xStart
  let yStart ← readOrderFieldCoord info 2 polyline.yStart
  let bRop2 ← readOrderFieldByte info 3 polyline.bRop2
  let _ ← readOrderFieldUint16 info 4 0
  let penColor ← readOrderFieldColor info 5 polyline.penColor
  let numDeltaEntries ← readOrderFieldByte info 6 polyline.numDeltaEntries
  let (cbData, points) ← readPoints info 7 xStart yStart numDeltaEntries
    polyline.numDeltaEntries polyline.cbData polyline.points
  return { xStart, yStart, bRop2, penColor, numDeltaEntries, cbData, points }

/-- `MEMBLT_ORDER`, without the bitmap, which the callback fills in. -/
structure MembltOrder where
  cacheId : ℕ
  colorIndex : ℕ
  nLeftRect : ℤ
  nTopRect : ℤ
  nWidth : ℤ
  nHeight : ℤ
  bRop : ℕ
  nXSrc : ℤ
  nYSrc : ℤ
  cacheIndex : ℕ
  deriving DecidableEq

/-- `update_read_memblt_order`: the first field is read over `cacheId` and split there. -/
def updateReadMembltOrder (info : OrderInfo) (memblt : MembltOrder) : ByteReader MembltOrder := do
  let cacheId ← readOrderFieldUint16 info 1 memblt.cacheId
  let nLeftRect ← readOrderFieldCoord info 2 memblt.nLeftRect
  let nTopRect ← readOrderFieldCoord info 3 memblt.nTopRect
  let nWidth ← readOrderFieldCoord info 4 memblt.nWidth
  let nHeight ← readOrderFieldCoord info 5 memblt.nHeight
  let bRop ← readOrderFieldByte info 6 memblt.bRop
  let nXSrc ← readOrderFieldCoord info 7 memblt.nXSrc
  let nYSrc ← readOrderFieldCoord info 8 memblt.nYSrc
  let cacheIndex ← readOrderFieldUint16 info 9 memblt.cacheIndex
  return { cacheId := cacheId &&& 0xFF, colorIndex := cacheId >>> 8, nLeftRect, nTopRect,
           nWidth, nHeight, bRop, nXSrc, nYSrc, cacheIndex }

/-- `MEM3BLT_ORDER`, without the bitmap. -/
structure Mem3bltOrder where
  cacheId : ℕ
  colorIndex : ℕ
  nLeftRect : ℤ
  nTopRect : ℤ
  nWidth : ℤ
  nHeight : ℤ
  bRop : ℕ
  nXSrc : ℤ
  nYSrc : ℤ
  backColor : ℕ
  foreColor : ℕ
  brush : Brush
  cacheIndex : ℕ
  deriving DecidableEq

/-- `update_read_mem3blt_order`. -/
def updateReadMem3bltOrder (info : OrderInfo) (mem3blt : Mem3bltOrder) :
    ByteReader Mem3bltOrder := do
  let cacheId ← readOrderFieldUint16 info 1 mem3blt.cacheId
  let nLeftRect ← readOrderFieldCoord info 2 mem3blt.nLeftRect
  let nTopRect ← readOrderFieldCoord info 3 mem3blt.nTopRect
  let nWidth ← readOrderFieldCoord info 4 mem3blt.nWidth
  let nHeight ← readOrderFieldCoord info 5 mem3blt.nHeight
  let bRop ← readOrderFieldByte info 6 mem3blt.bRop
  let nXSrc ← readOrderFieldCoord info 7 mem3blt.nXSrc
  let nYSrc ← readOrderFieldCoord info 8 mem3blt.nYSrc
  let backColor ← readOrderFieldColor info 9 mem3blt.backColor
  let foreColor ← readOrderFieldColor info 10 mem3blt.foreColor
  let brush ← updateReadBrush mem3blt.brush ((info.fieldFlags >>> 10) &&& 0x1F)
  let cacheIndex ← readOrderFieldUint16 info 16 mem3blt.cacheIndex
  return { cacheId := cacheId &&& 0xFF, colorIndex := cacheId >>> 8, nLeftRect, nTopRect,
           nWidth, nHeight, bRop, nXSrc, nYSrc, backColor, foreColor, brush, cacheIndex }

/-- `SAVE_BITMAP_ORDER`. -/
structure SaveBitmapOrder where
  savedBitmapPosition : ℕ
  nLeftRect : ℤ
  nTopRect : ℤ
  nRightRect : ℤ
  nBottomRect : ℤ
  operation : ℕ
  deriving DecidableEq

/-- `update_read_save_bitmap_order`. -/
def updateReadSaveBitmapOrder (info : OrderInfo) (saveBitmap : SaveBitmapOrder) :
    ByteReader SaveBitmapOrder := do
  let savedBitmapPosition ← readOrderFieldUint32 info 1 saveBitmap.savedBitmapPosition
  let nLeftRect ← readOrderFieldCoord info 2 saveBitmap.nLeftRect
  let nTopRect ← readOrderFieldCoord info 3 saveBitmap.nTopRect
  let nRightRect ← readOrderFieldCoord info 4 saveBitmap.nRightRect
  let nBottomRect ← readOrderFieldCoord info 5 saveBitmap.nBottomRect
  let operation ← readOrderFieldByte info 6 saveBitmap.operation
  return { savedBitmapPosition, nLeftRect, nTopRect, nRightRect, nBottomRect, operation }

/-- `GLYPH_INDEX_ORDER`. -/
structure GlyphIndexOrder where
  cacheId : ℕ
  flAccel : ℕ
  ulCharInc : ℕ
  fOpRedundant : ℕ
  backColor : ℕ
  foreColor : ℕ
  bkLeft : ℤ
  bkTop : ℤ
  bkRight : ℤ
  bkBottom : ℤ
  opLeft : ℤ
  opTop : ℤ
  opRight : ℤ
  opBottom : ℤ
  brush : Brush
  x : ℤ
  y : ℤ
  cbData : ℕ
  data : List UInt8
  deriving DecidableEq

/-- `update_read_glyph_index_order`. -/
def updateReadGlyphIndexOrder (info : OrderInfo) (glyphIndex : GlyphIndexOrder) :
    ByteReader GlyphIndexOrder := do
  let cacheId ← readOrderFieldByte info 1 glyphIndex.cacheId
  let flAccel ← readOrderFieldByte info 2 glyphIndex.flAccel
  let ulCharInc ← readOrderFieldByte info 3 glyphIndex.ulCharInc
  let fOpRedundant ← readOrderFieldByte info 4 glyphIndex.fOpRedundant
  let backColor ← readOrderFieldColor info 5 glyphIndex.backColor
  let foreColor ← readOrderFieldColor info 6 glyphIndex.foreColor
  let bkLeft ← readOrderFieldInt16 info 7 glyphIndex.bkLeft
  let bkTop ← readOrderFieldInt16 info 8 glyphIndex.bkTop
  let bkRight ← readOrderFieldInt16 info 9 glyphIndex.bkRight
  let bkBottom ← readOrderFieldInt16 info 10 glyphIndex.bkBottom
  let opLeft ← readOrderFieldInt16 info 11 glyphIndex.opLeft
  let opTop ← readOrderFieldInt16 info 12 glyphIndex.opTop
  let opRight ← readOrderFieldInt16 info 13 glyphIndex.opRight
  let opBottom ← readOrderFieldInt16 info 14 glyphIndex.opBottom
  let brush ← updateReadBrush glyphIndex.brush ((info.fieldFlags >>> 14) &&& 0x1F)
  let x ← readOrderFieldInt16 info 20 glyphIndex.x
  let y ← readOrderFieldInt16 info 21 glyphIndex.y
  let (cbData, data) ← readGlyphBytes info 22 glyphIndex.cbData glyphIndex.data
  return { cacheId, flAccel, ulCharInc, fOpRedundant, backColor, foreColor, bkLeft, bkTop,
           bkRight, bkBottom, opLeft, opTop, opRight, opBottom, brush, x, y, cbData, data }

/-- `FAST_INDEX_ORDER`, without `opaqueRect`, which no reader sets. -/
structure FastIndexOrder where
  cacheId : ℕ
  flAccel : ℕ
  ulCharInc : ℕ
  backColor : ℕ
  foreColor : ℕ
  bkLeft : ℤ
  bkTop : ℤ
  bkRight : ℤ
  bkBottom : ℤ
  opLeft : ℤ
  opTop : ℤ
  opRight : ℤ
  opBottom : ℤ
  x : ℤ
  y : ℤ
  cbData : ℕ
  data : List UInt8
  deriving DecidableEq

/-- `update_read_fast_index_order`. -/
def updateReadFastIndexOrder (info : OrderInfo) (fastIndex : FastIndexOrder) :
    ByteReader FastIndexOrder := do
  let cacheId ← readOrderFieldByte info 1 fastIndex.cacheId
  let (ulCharInc, flAccel) ← readOrderField2bytes info 2 fastIndex.ulCharInc fastIndex.flAccel
  let backColor ← readOrderFieldColor info 3 fastIndex.backColor
  let foreColor ← readOrderFieldColor info 4 fastIndex.foreColor
  let bkLeft ← readOrderFieldCoord info 5 fastIndex.bkLeft
  let bkTop ← readOrderFieldCoord info 6 fastIndex.bkTop
  let bkRight ← readOrderFieldCoord info 7 fastIndex.bkRight
  let bkBottom ← readOrderFieldCoord info 8 fastIndex.bkBottom
  let opLeft ← readOrderFieldCoord info 9 fastIndex.opLeft
  let opTop ← readOrderFieldCoord info 10 fastIndex.opTop
  let opRight ← readOrderFieldCoord info 11 fastIndex.opRight
  let opBottom ← readOrderFieldCoord info 12 fastIndex.opBottom
  let x ← readOrderFieldCoord info 13 fastIndex.x
  let y ← readOrderFieldCoord info 14 fastIndex.y
  let (cbData, data) ← readGlyphBytes info 15 fastIndex.cbData fastIndex.data
  return { cacheId, flAccel, ulCharInc, backColor, foreColor, bkLeft, bkTop, bkRight, bkBottom,
           opLeft, opTop, opRight, opBottom, x, y, cbData, data }

/-- `FAST_GLYPH_ORDER`. -/
structure FastGlyphOrder where
  cacheId : ℕ
  flAccel : ℕ
  ulCharInc : ℕ
  backColor : ℕ
  foreColor : ℕ
  bkLeft : ℤ
  bkTop : ℤ
  bkRight : ℤ
  bkBottom : ℤ
  opLeft : ℤ
  opTop : ℤ
  opRight : ℤ
  opBottom : ℤ
  x : ℤ
  y : ℤ
  cbData : ℕ
  data : List UInt8
  glyphData : SecondaryOrder.GlyphDataV2
  deriving DecidableEq

/-- The glyph in the data of an order: an index into the cache, and behind it the glyph itself. -/
def readFastGlyphData (glyph : SecondaryOrder.GlyphDataV2) :
    ByteReader SecondaryOrder.GlyphDataV2 := do
  let cacheIndex ← uint8
  let sub ← get
  if sub.length > 0 then do
    let x ← updateRead2byteSigned
    let y ← updateRead2byteSigned
    let cx ← updateRead2byteUnsigned
    let cy ← updateRead2byteUnsigned
    ensure (cx ≠ 0 ∧ cy ≠ 0)
    let aj ← get
    return { cacheIndex, x, y, cx, cy, cb := aj.length, aj }
  else return { glyph with cacheIndex }

/-- The bytes and the glyph at the end of the order. -/
def readFastGlyph (info : OrderInfo) (number cbData : ℕ) (data : List UInt8)
    (glyph : SecondaryOrder.GlyphDataV2) :
    ByteReader (ℕ × List UInt8 × SecondaryOrder.GlyphDataV2) :=
  readOrderField info number (cbData, data, glyph) do
    require 1
    let cbData ← uint8
    let data ← bytes cbData
    ensure (cbData ≠ 0)
    match readFastGlyphData glyph data with
    | some (glyph, _) => return (cbData, data, glyph)
    | none => failure

/-- `update_read_fast_glyph_order`. -/
def updateReadFastGlyphOrder (info : OrderInfo) (fastGlyph : FastGlyphOrder) :
    ByteReader FastGlyphOrder := do
  let cacheId ← readOrderFieldByte info 1 fastGlyph.cacheId
  ensure (cacheId ≤ 9)
  let (ulCharInc, flAccel) ← readOrderField2bytes info 2 fastGlyph.ulCharInc fastGlyph.flAccel
  let backColor ← readOrderFieldColor info 3 fastGlyph.backColor
  let foreColor ← readOrderFieldColor info 4 fastGlyph.foreColor
  let bkLeft ← readOrderFieldCoord info 5 fastGlyph.bkLeft
  let bkTop ← readOrderFieldCoord info 6 fastGlyph.bkTop
  let bkRight ← readOrderFieldCoord info 7 fastGlyph.bkRight
  let bkBottom ← readOrderFieldCoord info 8 fastGlyph.bkBottom
  let opLeft ← readOrderFieldCoord info 9 fastGlyph.opLeft
  let opTop ← readOrderFieldCoord info 10 fastGlyph.opTop
  let opRight ← readOrderFieldCoord info 11 fastGlyph.opRight
  let opBottom ← readOrderFieldCoord info 12 fastGlyph.opBottom
  let x ← readOrderFieldCoord info 13 fastGlyph.x
  let y ← readOrderFieldCoord info 14 fastGlyph.y
  let (cbData, data, glyphData) ←
    readFastGlyph info 15 fastGlyph.cbData fastGlyph.data fastGlyph.glyphData
  return { cacheId, flAccel, ulCharInc, backColor, foreColor, bkLeft, bkTop, bkRight, bkBottom,
           opLeft, opTop, opRight, opBottom, x, y, cbData, data, glyphData }

/-- `POLYGON_SC_ORDER`. -/
structure PolygonScOrder where
  xStart : ℤ
  yStart : ℤ
  bRop2 : ℕ
  fillMode : ℕ
  brushColor : ℕ
  numPoints : ℕ
  cbData : ℕ
  points : List DeltaPoint
  deriving DecidableEq

/-- `update_read_polygon_sc_order`. -/
def updateReadPolygonScOrder (info : OrderInfo) (polygonSc : PolygonScOrder) :
    ByteReader PolygonScOrder := do
  let xStart ← readOrderFieldCoord info 1 polygonSc.xStart
  let yStart ← readOrderFieldCoord info 2 polygonSc.yStart
  let bRop2 ← readOrderFieldByte info 3 polygonSc.bRop2
  let fillMode ← readOrderFieldByte info 4 polygonSc.fillMode
  let brushColor ← readOrderFieldColor info 5 polygonSc.brushColor
  let numPoints ← readOrderFieldByte info 6 polygonSc.numPoints
  let (cbData, points) ← readPoints info 7 xStart yStart numPoints polygonSc.numPoints
    polygonSc.cbData polygonSc.points
  return { xStart, yStart, bRop2, fillMode, brushColor, numPoints, cbData, points }

/-- `POLYGON_CB_ORDER`. -/
structure PolygonCbOrder where
  xStart : ℤ
  yStart : ℤ
  bRop2 : ℕ
  backMode : ℕ
  fillMode : ℕ
  backColor : ℕ
  foreColor : ℕ
  brush : Brush
  numPoints : ℕ
  cbData : ℕ
  points : List DeltaPoint
  deriving DecidableEq

/-- `backMode` as the highest bit of `bRop2` says: `BACKMODE_TRANSPARENT` or `BACKMODE_OPAQUE`. -/
def backModeOf (bRop2 : ℕ) : ℕ := if bRop2 &&& 0x80 ≠ 0 then 0x0001 else 0x0002

/-- `update_read_polygon_cb_order`: the third field is read over `bRop2` and cut there. -/
def updateReadPolygonCbOrder (info : OrderInfo) (polygonCb : PolygonCbOrder) :
    ByteReader PolygonCbOrder := do
  let xStart ← readOrderFieldCoord info 1 polygonCb.xStart
  let yStart ← readOrderFieldCoord info 2 polygonCb.yStart
  let bRop2 ← readOrderFieldByte info 3 polygonCb.bRop2
  let fillMode ← readOrderFieldByte info 4 polygonCb.fillMode
  let backColor ← readOrderFieldColor info 5 polygonCb.backColor
  let foreColor ← readOrderFieldColor info 6 polygonCb.foreColor
  let brush ← updateReadBrush polygonCb.brush ((info.fieldFlags >>> 6) &&& 0x1F)
  let numPoints ← readOrderFieldByte info 12 polygonCb.numPoints
  let (cbData, points) ← readPoints info 13 xStart yStart numPoints polygonCb.numPoints
    polygonCb.cbData polygonCb.points
  return { xStart, yStart, bRop2 := bRop2 &&& 0x1F, backMode := backModeOf bRop2, fillMode,
           backColor, foreColor, brush, numPoints, cbData, points }

/-- `ELLIPSE_SC_ORDER`. -/
structure EllipseScOrder where
  leftRect : ℤ
  topRect : ℤ
  rightRect : ℤ
  bottomRect : ℤ
  bRop2 : ℕ
  fillMode : ℕ
  color : ℕ
  deriving DecidableEq

/-- `update_read_ellipse_sc_order`. -/
def updateReadEllipseScOrder (info : OrderInfo) (ellipseSc : EllipseScOrder) :
    ByteReader EllipseScOrder := do
  let leftRect ← readOrderFieldCoord info 1 ellipseSc.leftRect
  let topRect ← readOrderFieldCoord info 2 ellipseSc.topRect
  let rightRect ← readOrderFieldCoord info 3 ellipseSc.rightRect
  let bottomRect ← readOrderFieldCoord info 4 ellipseSc.bottomRect
  let bRop2 ← readOrderFieldByte info 5 ellipseSc.bRop2
  let fillMode ← readOrderFieldByte info 6 ellipseSc.fillMode
  let color ← readOrderFieldColor info 7 ellipseSc.color
  return { leftRect, topRect, rightRect, bottomRect, bRop2, fillMode, color }

/-- `ELLIPSE_CB_ORDER`. -/
structure EllipseCbOrder where
  leftRect : ℤ
  topRect : ℤ
  rightRect : ℤ
  bottomRect : ℤ
  bRop2 : ℕ
  fillMode : ℕ
  backColor : ℕ
  foreColor : ℕ
  brush : Brush
  deriving DecidableEq

/-- `update_read_ellipse_cb_order`. -/
def updateReadEllipseCbOrder (info : OrderInfo) (ellipseCb : EllipseCbOrder) :
    ByteReader EllipseCbOrder := do
  let leftRect ← readOrderFieldCoord info 1 ellipseCb.leftRect
  let topRect ← readOrderFieldCoord info 2 ellipseCb.topRect
  let rightRect ← readOrderFieldCoord info 3 ellipseCb.rightRect
  let bottomRect ← readOrderFieldCoord info 4 ellipseCb.bottomRect
  let bRop2 ← readOrderFieldByte info 5 ellipseCb.bRop2
  let fillMode ← readOrderFieldByte info 6 ellipseCb.fillMode
  let backColor ← readOrderFieldColor info 7 ellipseCb.backColor
  let foreColor ← readOrderFieldColor info 8 ellipseCb.foreColor
  let brush ← updateReadBrush ellipseCb.brush ((info.fieldFlags >>> 8) &&& 0x1F)
  return { leftRect, topRect, rightRect, bottomRect, bRop2, fillMode, backColor, foreColor,
           brush }

end PrimaryOrder
