/-
# Receiving primary drawing orders

`update_recv_primary_order` reads the type and the bits of the fields in front of an order, then
the order over the structure of its type, and calls the callback of the type with that structure.
The callbacks and the settings are outside: a call of the function comes with what they answer,
and a callback leaves the structure it is handed as it is.
-/
import XyDeskRemote.PrimaryOrders

open ByteReader

namespace PrimaryOrder

/-! ## The types -/

/-- The types of orders that the receiver reads. -/
inductive OrderType
  | dstblt
  | patblt
  | scrblt
  | drawNineGrid
  | multiDrawNineGrid
  | lineTo
  | opaqueRect
  | saveBitmap
  | memblt
  | mem3blt
  | multiDstblt
  | multiPatblt
  | multiScrblt
  | multiOpaqueRect
  | fastIndex
  | polygonSc
  | polygonCb
  | polyline
  | fastGlyph
  | ellipseSc
  | ellipseCb
  | glyphIndex
  deriving DecidableEq

namespace OrderType

/-- The type with a given `ORDER_TYPE_` number; `read_primary_order` ignores the others. -/
def ofCode : ℕ → Option OrderType
  | 0x00 => some dstblt
  | 0x01 => some patblt
  | 0x02 => some scrblt
  | 0x07 => some drawNineGrid
  | 0x08 => some multiDrawNineGrid
  | 0x09 => some lineTo
  | 0x0A => some opaqueRect
  | 0x0B => some saveBitmap
  | 0x0D => some memblt
  | 0x0E => some mem3blt
  | 0x0F => some multiDstblt
  | 0x10 => some multiPatblt
  | 0x11 => some multiScrblt
  | 0x12 => some multiOpaqueRect
  | 0x13 => some fastIndex
  | 0x14 => some polygonSc
  | 0x15 => some polygonCb
  | 0x16 => some polyline
  | 0x18 => some fastGlyph
  | 0x19 => some ellipseSc
  | 0x1A => some ellipseCb
  | 0x1B => some glyphIndex
  | _ => none

/-- The structure that is kept for a type. -/
@[reducible] def Order : OrderType → Type
  | dstblt => DstbltOrder
  | patblt => PatbltOrder
  | scrblt => ScrbltOrder
  | drawNineGrid => DrawNineGridOrder
  | multiDrawNineGrid => MultiDrawNineGridOrder
  | lineTo => LineToOrder
  | opaqueRect => OpaqueRectOrder
  | saveBitmap => SaveBitmapOrder
  | memblt => MembltOrder
  | mem3blt => Mem3bltOrder
  | multiDstblt => MultiDstbltOrder
  | multiPatblt => MultiPatbltOrder
  | multiScrblt => MultiScrbltOrder
  | multiOpaqueRect => MultiOpaqueRectOrder
  | fastIndex => FastIndexOrder
  | polygonSc => PolygonScOrder
  | polygonCb => PolygonCbOrder
  | polyline => PolylineOrder
  | fastGlyph => FastGlyphOrder
  | ellipseSc => EllipseScOrder
  | ellipseCb => EllipseCbOrder
  | glyphIndex => GlyphIndexOrder

/-- The branches of `read_primary_order`. -/
def read : (T : OrderType) → OrderInfo → T.Order → ByteReader T.Order
  | dstblt => updateReadDstbltOrder
  | patblt => updateReadPatbltOrder
  | scrblt => updateReadScrbltOrder
  | drawNineGrid => updateReadDrawNineGridOrder
  | multiDrawNineGrid => updateReadMultiDrawNineGridOrder
  | lineTo => updateReadLineToOrder
  | opaqueRect => updateReadOpaqueRectOrder
  | saveBitmap => updateReadSaveBitmapOrder
  | memblt => updateReadMembltOrder
  | mem3blt => updateReadMem3bltOrder
  | multiDstblt => updateReadMultiDstbltOrder
  | multiPatblt => updateReadMultiPatbltOrder
  | multiScrblt => updateReadMultiScrbltOrder
  | multiOpaqueRect => updateReadMultiOpaqueRectOrder
  | fastIndex => updateReadFastIndexOrder
  | polygonSc => updateReadPolygonScOrder
  | polygonCb => updateReadPolygonCbOrder
  | polyline => updateReadPolylineOrder
  | fastGlyph => updateReadFastGlyphOrder
  | ellipseSc => updateReadEllipseScOrder
  | ellipseCb => updateReadEllipseCbOrder
  | glyphIndex => updateReadGlyphIndexOrder

/-- A brush of zeros. -/
def zeroBrush : Brush := ⟨0, 0, 0, 0, 0, 0, List.replicate 8 0⟩

/-- The structures as `update_reset_state` leaves them. -/
def zero : (T : OrderType) → T.Order
  | dstblt => ⟨0, 0, 0, 0, 0⟩
  | patblt => ⟨0, 0, 0, 0, 0, 0, 0, zeroBrush⟩
  | scrblt => ⟨0, 0, 0, 0, 0, 0, 0⟩
  | drawNineGrid => ⟨0, 0, 0, 0, 0⟩
  | multiDrawNineGrid => ⟨0, 0, 0, 0, 0, 0, 0, []⟩
  | lineTo => ⟨0, 0, 0, 0, 0, 0, 0, 0, 0, 0⟩
  | opaqueRect => ⟨0, 0, 0, 0, 0⟩
  | saveBitmap => ⟨0, 0, 0, 0, 0, 0⟩
  | memblt => ⟨0, 0, 0, 0, 0, 0, 0, 0, 0, 0⟩
  | mem3blt => ⟨0, 0, 0, 0, 0, 0, 0, 0, 0, 0, 0, zeroBrush, 0⟩
  | multiDstblt => ⟨0, 0, 0, 0, 0, 0, 0, []⟩
  | multiPatblt => ⟨0, 0, 0, 0, 0, 0, 0, zeroBrush, 0, 0, []⟩
  | multiScrblt => ⟨0, 0, 0, 0, 0, 0, 0, 0, 0, []⟩
  | multiOpaqueRect => ⟨0, 0, 0, 0, 0, 0, 0, []⟩
  | fastIndex => ⟨0, 0, 0, 0, 0, 0, 0, 0, 0, 0, 0, 0, 0, 0, 0, 0, []⟩
  | polygonSc => ⟨0, 0, 0, 0, 0, 0, 0, []⟩
  | polygonCb => ⟨0, 0, 0, 0, 0, 0, 0, zeroBrush, 0, 0, []⟩
  | polyline => ⟨0, 0, 0, 0, 0, 0, []⟩
  | fastGlyph => ⟨0, 0, 0, 0, 0, 0, 0, 0, 0, 0, 0, 0, 0, 0, 0, 0, [], ⟨0, 0, 0, 0, 0, 0, []⟩⟩
  | ellipseSc => ⟨0, 0, 0, 0, 0, 0, 0⟩
  | ellipseCb => ⟨0, 0, 0, 0, 0, 0, 0, 0, zeroBrush⟩
  | glyphIndex => ⟨0, 0, 0, 0, 0, 0, 0, 0, 0, 0, 0, 0, 0, 0, zeroBrush, 0, 0, 0, []⟩

end OrderType

/-- `get_primary_drawing_order_field_bytes`; `none` is a type that is not valid. -/
def getPrimaryDrawingOrderFieldBytes (orderType : ℕ) : Option ℕ :=
  match orderType with
  | 0 => some 1
  | 1 => some 2
  | 2 => some 1
  | 3 | 4 | 5 | 6 => some 0
  | 7 => some 1
  | 8 => some 1
  | 9 => some 2
  | 10 => some 1
  | 11 => some 1
  | 12 => some 0
  | 13 => some 2
  | 14 => some 3
  | 15 => some 1
  | 16 => some 2
  | 17 => some 2
  | 18 => some 2
  | 19 => some 2
  | 20 => some 1
  | 21 => some 2
  | 22 => some 1
  | 23 => some 0
  | 24 => some 2
  | 25 => some 1
  | 26 => some 2
  | 27 => some 3
  | _ => none

/-! ## In front of the fields -/

/-- What one call of `update_recv_primary_order` is given, and what it is answered: by the
settings, and by the callbacks. -/
structure Call where
  flags : ℕ
  stream : List UInt8
  supported : ℕ → Bool
  setBounds : Bool
  orderInfo : Bool
  order : Bool
  resetBounds : Bool

/-- A bit of the control flags: `ORDER_BOUNDS` 0x04, `ORDER_TYPE_CHANGE` 0x08,
`ORDER_DELTA_COORDINATES` 0x10, `ORDER_ZERO_BOUNDS_DELTAS` 0x20, `ORDER_ZERO_FIELD_BYTE_BIT0` 0x40
and `ORDER_ZERO_FIELD_BYTE_BIT1` 0x80. -/
def controlFlag (flags bit : ℕ) : Prop := flags &&& bit ≠ 0

instance (flags bit : ℕ) : Decidable (controlFlag flags bit) := inferInstanceAs (Decidable (_ ≠ _))

/-- `update_read_field_flags`; `fieldBytes` is a `BYTE`. -/
def updateReadFieldFlags (flags fieldBytes : ℕ) : ByteReader ℕ := do
  let fieldBytes := if controlFlag flags 0x40 then (fieldBytes + 255) % 256 else fieldBytes
  let fieldBytes := if controlFlag flags 0x80 then fieldBytes - 2 else fieldBytes
  require fieldBytes
  let fieldFlags ← number fieldBytes
  return fieldFlags % 2 ^ 32

/-- One side in `update_read_bounds`, absolute at one bit and by difference at the other. -/
def readBound (flags absolute difference : ℕ) (bound : ℤ) : ByteReader ℤ :=
  if flags &&& absolute ≠ 0 then updateReadCoord bound false
  else if flags &&& difference ≠ 0 then updateReadCoord bound true
  else return bound

/-- `update_read_bounds`. -/
def updateReadBounds (bounds : Bounds) : ByteReader Bounds := do
  require 1
  let flags ← uint8
  let left ← readBound flags 0x01 0x10 bounds.left
  let top ← readBound flags 0x02 0x20 bounds.top
  let right ← readBound flags 0x04 0x40 bounds.right
  let bottom ← readBound flags 0x08 0x80 bounds.bottom
  return { left, top, right, bottom }

/-- The beginning of `update_recv_primary_order`, up to the fields of the order. -/
def readOrderInfo (call : Call) (info : OrderInfo) : ByteReader OrderInfo := do
  let orderType ←
    if controlFlag call.flags 0x08 then do
      require 1
      uint8
    else pure info.orderType
  ensure (call.supported orderType = true)
  match getPrimaryDrawingOrderFieldBytes orderType with
  | none => failure
  | some fieldBytes =>
    let fieldFlags ← updateReadFieldFlags call.flags fieldBytes
    let bounds ←
      if controlFlag call.flags 0x04 then do
        let bounds ←
          if controlFlag call.flags 0x20 then pure info.bounds else updateReadBounds info.bounds
        ensure (call.setBounds = true)
        pure bounds
      else pure info.bounds
    return { orderType, fieldFlags, bounds, deltaCoordinates := controlFlag call.flags 0x10 }

/-! ## The orders -/

/-- `rdp_primary_update_internal`: the header of the last order, and a structure for each type. -/
structure PrimaryUpdate where
  orderInfo : OrderInfo
  orders : (T : OrderType) → T.Order

/-- After `update_reset_state`. -/
def PrimaryUpdate.reset : PrimaryUpdate :=
  { orderInfo := ⟨0x01, 0, ⟨0, 0, 0, 0⟩, false⟩, orders := OrderType.zero }

/-- An order as a callback gets it. -/
abbrev Delivery := (T : OrderType) × T.Order

/-- `read_primary_order` and the call of the callback.  A type without a structure is passed
over. -/
def deliverPrimaryOrder (update : PrimaryUpdate) (call : Call) (info : OrderInfo)
    (s : List UInt8) : Option (Option Delivery × PrimaryUpdate) :=
  match OrderType.ofCode info.orderType with
  | some T => do
    let (order, _) ← T.read info (update.orders T) s
    guard (call.orderInfo = true ∧ call.order = true)
    return (some ⟨T, order⟩,
      { orderInfo := info, orders := Function.update update.orders T order })
  | none => do
    guard (call.orderInfo = true)
    return (none, { update with orderInfo := info })

/-- `update_recv_primary_order`: what it delivers, and the update after it. -/
def updateRecvPrimaryOrder (update : PrimaryUpdate) (call : Call) :
    Option (Option Delivery × PrimaryUpdate) := do
  let (info, s) ← readOrderInfo call update.orderInfo call.stream
  let delivered ← deliverPrimaryOrder update call info s
  guard (controlFlag call.flags 0x04 → call.resetBounds = true)
  return delivered

/-- One call after another, as long as they are accepted: the orders that are delivered. -/
def recvPrimaryOrders : PrimaryUpdate → List Call → Option (List Delivery)
  | _, [] => some []
  | update, call :: calls => do
    let (delivery, update) ← updateRecvPrimaryOrder update call
    let deliveries ← recvPrimaryOrders update calls
    return delivery.toList ++ deliveries

end PrimaryOrder
