/-
# Primary orders keep the fields they leave out

Which field of an order is which member of its structure is a table, and every reader of
`orders.c` follows the table of its type.  So the structures hold, over any run of orders, the
values last transmitted.

Three types compute something from a field where the field itself was stored: the two with a
bitmap split `cacheId`, and `POLYGON_CB` cuts `bRop2`.
-/
import Mathlib.Data.List.Forall2
import XyDeskRemote.PrimaryOrderFields

open Option Iff

namespace PrimaryOrder

/-! ## The table -/

/-- The fields of a type, in the order in which they are sent, and the members they are. -/
def OrderType.members : (T : OrderType) → List (Member T.Order)
  | dstblt =>
    rectMembers 1 (·.nLeftRect) (·.nTopRect) (·.nWidth) (·.nHeight) ++
      [.is 5 .byte (·.bRop)]
  | patblt =>
    rectMembers 1 (·.nLeftRect) (·.nTopRect) (·.nWidth) (·.nHeight) ++
      [.is 5 .byte (·.bRop), .is 6 .color (·.backColor), .is 7 .color (·.foreColor)] ++
      brushMembers 8 (·.brush)
  | scrblt =>
    rectMembers 1 (·.nLeftRect) (·.nTopRect) (·.nWidth) (·.nHeight) ++
      [.is 5 .byte (·.bRop), .is 6 .coord (·.nXSrc), .is 7 .coord (·.nYSrc)]
  | drawNineGrid =>
    rectMembers 1 (·.srcLeft) (·.srcTop) (·.srcRight) (·.srcBottom) ++
      [.is 5 .uint16 (·.bitmapId)]
  | multiDrawNineGrid =>
    rectMembers 1 (·.srcLeft) (·.srcTop) (·.srcRight) (·.srcBottom) ++
      [.is 5 .uint16 (·.bitmapId), .is 6 .byte (·.nDeltaEntries),
       .is 7 (.rectangles 6) fun o => (o.cbData, o.rectangles)]
  | lineTo =>
    [.is 1 .uint16 (·.backMode), .is 2 .coord (·.nXStart), .is 3 .coord (·.nYStart),
     .is 4 .coord (·.nXEnd), .is 5 .coord (·.nYEnd), .is 6 .color (·.backColor),
     .is 7 .byte (·.bRop2), .is 8 .byte (·.penStyle), .is 9 .byte (·.penWidth),
     .is 10 .color (·.penColor)]
  | opaqueRect =>
    rectMembers 1 (·.nLeftRect) (·.nTopRect) (·.nWidth) (·.nHeight) ++ colorMembers (·.color)
  | saveBitmap =>
    .is 1 .uint32 (·.savedBitmapPosition) ::
      rectMembers 2 (·.nLeftRect) (·.nTopRect) (·.nRightRect) (·.nBottomRect) ++
      [.is 6 .byte (·.operation)]
  | memblt =>
    ⟨⟨1, .uint16⟩, fun o x => o.cacheId = x &&& 0xFF⟩ ::
      rectMembers 2 (·.nLeftRect) (·.nTopRect) (·.nWidth) (·.nHeight) ++
      [.is 6 .byte (·.bRop), .is 7 .coord (·.nXSrc), .is 8 .coord (·.nYSrc),
       .is 9 .uint16 (·.cacheIndex)]
  | mem3blt =>
    ⟨⟨1, .uint16⟩, fun o x => o.cacheId = x &&& 0xFF⟩ ::
      rectMembers 2 (·.nLeftRect) (·.nTopRect) (·.nWidth) (·.nHeight) ++
      [.is 6 .byte (·.bRop), .is 7 .coord (·.nXSrc), .is 8 .coord (·.nYSrc),
       .is 9 .color (·.backColor), .is 10 .color (·.foreColor)] ++
      brushMembers 11 (·.brush) ++ [.is 16 .uint16 (·.cacheIndex)]
  | multiDstblt =>
    rectMembers 1 (·.nLeftRect) (·.nTopRect) (·.nWidth) (·.nHeight) ++
      [.is 5 .byte (·.bRop), .is 6 .byte (·.numRectangles),
       .is 7 (.rectangles 6) fun o => (o.cbData, o.rectangles)]
  | multiPatblt =>
    rectMembers 1 (·.nLeftRect) (·.nTopRect) (·.nWidth) (·.nHeight) ++
      [.is 5 .byte (·.bRop), .is 6 .color (·.backColor), .is 7 .color (·.foreColor)] ++
      brushMembers 8 (·.brush) ++
      [.is 13 .byte (·.numRectangles),
       .is 14 (.rectangles 13) fun o => (o.cbData, o.rectangles)]
  | multiScrblt =>
    rectMembers 1 (·.nLeftRect) (·.nTopRect) (·.nWidth) (·.nHeight) ++
      [.is 5 .byte (·.bRop), .is 6 .coord (·.nXSrc), .is 7 .coord (·.nYSrc),
       .is 8 .byte (·.numRectangles),
       .is 9 (.rectangles 8) fun o => (o.cbData, o.rectangles)]
  | multiOpaqueRect =>
    rectMembers 1 (·.nLeftRect) (·.nTopRect) (·.nWidth) (·.nHeight) ++
      colorMembers (·.color) ++
      [.is 8 .byte (·.numRectangles),
       .is 9 (.rectangles 8) fun o => (o.cbData, o.rectangles)]
  | fastIndex =>
    [.is 1 .byte (·.cacheId), .is 2 .twoBytes fun o => (o.ulCharInc, o.flAccel),
     .is 3 .color (·.backColor), .is 4 .color (·.foreColor)] ++
      rectMembers 5 (·.bkLeft) (·.bkTop) (·.bkRight) (·.bkBottom) ++
      rectMembers 9 (·.opLeft) (·.opTop) (·.opRight) (·.opBottom) ++
      [.is 13 .coord (·.x), .is 14 .coord (·.y), .is 15 .glyphs fun o => (o.cbData, o.data)]
  | polygonSc =>
    [.is 1 .coord (·.xStart), .is 2 .coord (·.yStart), .is 3 .byte (·.bRop2),
     .is 4 .byte (·.fillMode), .is 5 .color (·.brushColor), .is 6 .byte (·.numPoints),
     .is 7 (.points 6) fun o => (o.cbData, o.points)]
  | polygonCb =>
    [.is 1 .coord (·.xStart), .is 2 .coord (·.yStart),
     ⟨⟨3, .byte⟩, fun o x => o.bRop2 = x &&& 0x1F⟩, .is 4 .byte (·.fillMode),
     .is 5 .color (·.backColor), .is 6 .color (·.foreColor)] ++
      brushMembers 7 (·.brush) ++
      [.is 12 .byte (·.numPoints), .is 13 (.points 12) fun o => (o.cbData, o.points)]
  | polyline =>
    -- No member is kept of the fourth field.
    [.is 1 .coord (·.xStart), .is 2 .coord (·.yStart), .is 3 .byte (·.bRop2),
     ⟨⟨4, .uint16⟩, fun _ _ => True⟩, .is 5 .color (·.penColor),
     .is 6 .byte (·.numDeltaEntries), .is 7 (.points 6) fun o => (o.cbData, o.points)]
  | fastGlyph =>
    [.is 1 .byte (·.cacheId), .is 2 .twoBytes fun o => (o.ulCharInc, o.flAccel),
     .is 3 .color (·.backColor), .is 4 .color (·.foreColor)] ++
      rectMembers 5 (·.bkLeft) (·.bkTop) (·.bkRight) (·.bkBottom) ++
      rectMembers 9 (·.opLeft) (·.opTop) (·.opRight) (·.opBottom) ++
      [.is 13 .coord (·.x), .is 14 .coord (·.y),
       .is 15 .fastGlyph fun o => (o.cbData, o.data, o.glyphData)]
  | ellipseSc =>
    rectMembers 1 (·.leftRect) (·.topRect) (·.rightRect) (·.bottomRect) ++
      [.is 5 .byte (·.bRop2), .is 6 .byte (·.fillMode), .is 7 .color (·.color)]
  | ellipseCb =>
    rectMembers 1 (·.leftRect) (·.topRect) (·.rightRect) (·.bottomRect) ++
      [.is 5 .byte (·.bRop2), .is 6 .byte (·.fillMode), .is 7 .color (·.backColor),
       .is 8 .color (·.foreColor)] ++
      brushMembers 9 (·.brush)
  | glyphIndex =>
    [.is 1 .byte (·.cacheId), .is 2 .byte (·.flAccel), .is 3 .byte (·.ulCharInc),
     .is 4 .byte (·.fOpRedundant), .is 5 .color (·.backColor), .is 6 .color (·.foreColor),
     .is 7 .int16 (·.bkLeft), .is 8 .int16 (·.bkTop), .is 9 .int16 (·.bkRight),
     .is 10 .int16 (·.bkBottom), .is 11 .int16 (·.opLeft), .is 12 .int16 (·.opTop),
     .is 13 .int16 (·.opRight), .is 14 .int16 (·.opBottom)] ++
      brushMembers 15 (·.brush) ++
      [.is 20 .int16 (·.x), .is 21 .int16 (·.y),
       .is 22 .glyphs fun o => (o.cbData, o.data)]

/-- The fields of a type. -/
def OrderType.fields (T : OrderType) : List Field := T.members.map (·.field)

/-- What the readers compute from a field beside its member is what the value last transmitted
gives. -/
def OrderType.Derived : (T : OrderType) → T.Order → Values → Prop
  | memblt, o, v => o.colorIndex = v ⟨1, .uint16⟩ >>> 8
  | mem3blt, o, v => o.colorIndex = v ⟨1, .uint16⟩ >>> 8
  | polygonCb, o, v => o.backMode = backModeOf (v ⟨3, .byte⟩)
  | _, _, _ => True

/-- The field that is stored in part is transmitted, or nothing was cut off its last value. -/
def OrderType.Whole : OrderType → OrderInfo → Values → Prop
  | memblt, info, v | mem3blt, info, v => orderFieldFlagIsSet info 1 ∨ v ⟨1, .uint16⟩ < 0x100
  | polygonCb, info, v => orderFieldFlagIsSet info 3 ∨ v ⟨3, .byte⟩ &&& 0x80 = 0
  | _, _, _ => True

/-- An order over values: its members show them, and what is computed from them is theirs just in
case `p`. -/
@[reducible] def OrderType.Agrees (T : OrderType) (p : Prop) (o : T.Order) (v : Values) : Prop :=
  Shows T.members o v ∧ (T.Derived o v ↔ p)

/-- The reader of a type goes through its fields, and keeps the members with them. -/
def OrderType.FollowsMembers (T : OrderType) (info : OrderInfo) (v : Values) : Prop :=
  ∀ o, Shows T.members o v →
    Follows info (T.Agrees (T.Whole info v)) (T.read info o) T.fields v

/-! ## The readers follow the table -/

section
variable {info : OrderInfo} {v : Values}

theorem follows_dstblt : OrderType.dstblt.FollowsMembers info v := by
  rintro o ⟨h1, h2, h3, h4, h5, -⟩
  refine .coord h1 fun _ => .coord h2 fun _ => .coord h3 fun _ => .coord h4 fun _ => ?_
  refine .byte h5 fun _ => .done ?_
  exact ⟨⟨rfl, rfl, rfl, rfl, rfl, trivial⟩, Iff.rfl⟩

theorem follows_patblt : OrderType.patblt.FollowsMembers info v := by
  rintro o ⟨h1, h2, h3, h4, h5, h6, h7, h8, h9, h10, h11, h12, -⟩
  refine .coord h1 fun _ => .coord h2 fun _ => .coord h3 fun _ => .coord h4 fun _ => ?_
  refine .byte h5 fun _ => .color h6 fun _ => .color h7 fun _ => ?_
  refine .brush h8 h9 h10 h11 h12 fun _ => .done ?_
  exact ⟨⟨rfl, rfl, rfl, rfl, rfl, rfl, rfl, rfl, rfl, rfl, rfl, rfl, trivial⟩, Iff.rfl⟩

theorem follows_scrblt : OrderType.scrblt.FollowsMembers info v := by
  rintro o ⟨h1, h2, h3, h4, h5, h6, h7, -⟩
  refine .coord h1 fun _ => .coord h2 fun _ => .coord h3 fun _ => .coord h4 fun _ => ?_
  refine .byte h5 fun _ => .coord h6 fun _ => .coord h7 fun _ => .done ?_
  exact ⟨⟨rfl, rfl, rfl, rfl, rfl, rfl, rfl, trivial⟩, Iff.rfl⟩

theorem follows_drawNineGrid : OrderType.drawNineGrid.FollowsMembers info v := by
  rintro o ⟨h1, h2, h3, h4, h5, -⟩
  refine .coord h1 fun _ => .coord h2 fun _ => .coord h3 fun _ => .coord h4 fun _ => ?_
  refine .uint16 h5 fun _ => .done ?_
  exact ⟨⟨rfl, rfl, rfl, rfl, rfl, trivial⟩, Iff.rfl⟩

theorem follows_multiDrawNineGrid : OrderType.multiDrawNineGrid.FollowsMembers info v := by
  rintro o ⟨h1, h2, h3, h4, h5, h6, h7, -⟩
  refine .coord h1 fun _ => .coord h2 fun _ => .coord h3 fun _ => .coord h4 fun _ => ?_
  refine .uint16 h5 fun _ => .byte h6 fun _ => .rectangles rfl h7 fun _ _ => .done ?_
  exact ⟨⟨rfl, rfl, rfl, rfl, rfl, rfl, rfl, trivial⟩, Iff.rfl⟩

theorem follows_lineTo : OrderType.lineTo.FollowsMembers info v := by
  rintro o ⟨h1, h2, h3, h4, h5, h6, h7, h8, h9, h10, -⟩
  refine .uint16 h1 fun _ => .coord h2 fun _ => .coord h3 fun _ => .coord h4 fun _ => ?_
  refine .coord h5 fun _ => .color h6 fun _ => .byte h7 fun _ => .byte h8 fun _ => ?_
  refine .byte h9 fun _ => .color h10 fun _ => .done ?_
  exact ⟨⟨rfl, rfl, rfl, rfl, rfl, rfl, rfl, rfl, rfl, rfl, trivial⟩, Iff.rfl⟩

theorem follows_saveBitmap : OrderType.saveBitmap.FollowsMembers info v := by
  rintro o ⟨h1, h2, h3, h4, h5, h6, -⟩
  refine .uint32 h1 fun _ => .coord h2 fun _ => .coord h3 fun _ => .coord h4 fun _ => ?_
  refine .coord h5 fun _ => .byte h6 fun _ => .done ?_
  exact ⟨⟨rfl, rfl, rfl, rfl, rfl, rfl, trivial⟩, Iff.rfl⟩

theorem follows_multiDstblt : OrderType.multiDstblt.FollowsMembers info v := by
  rintro o ⟨h1, h2, h3, h4, h5, h6, h7, -⟩
  refine .coord h1 fun _ => .coord h2 fun _ => .coord h3 fun _ => .coord h4 fun _ => ?_
  refine .byte h5 fun _ => .byte h6 fun _ => .rectangles rfl h7 fun _ _ => .done ?_
  exact ⟨⟨rfl, rfl, rfl, rfl, rfl, rfl, rfl, trivial⟩, Iff.rfl⟩

theorem follows_multiPatblt : OrderType.multiPatblt.FollowsMembers info v := by
  rintro o ⟨h1, h2, h3, h4, h5, h6, h7, h8, h9, h10, h11, h12, h13, h14, -⟩
  refine .coord h1 fun _ => .coord h2 fun _ => .coord h3 fun _ => .coord h4 fun _ => ?_
  refine .byte h5 fun _ => .color h6 fun _ => .color h7 fun _ => ?_
  refine .brush h8 h9 h10 h11 h12 fun _ => .byte h13 fun _ => ?_
  refine .rectangles rfl h14 fun _ _ => .done ?_
  exact ⟨⟨rfl, rfl, rfl, rfl, rfl, rfl, rfl, rfl, rfl, rfl, rfl, rfl, rfl, rfl, trivial⟩, Iff.rfl⟩

theorem follows_multiScrblt : OrderType.multiScrblt.FollowsMembers info v := by
  rintro o ⟨h1, h2, h3, h4, h5, h6, h7, h8, h9, -⟩
  refine .coord h1 fun _ => .coord h2 fun _ => .coord h3 fun _ => .coord h4 fun _ => ?_
  refine .byte h5 fun _ => .coord h6 fun _ => .coord h7 fun _ => .byte h8 fun _ => ?_
  refine .rectangles rfl h9 fun _ _ => .done ?_
  exact ⟨⟨rfl, rfl, rfl, rfl, rfl, rfl, rfl, rfl, rfl, trivial⟩, Iff.rfl⟩

theorem follows_fastIndex : OrderType.fastIndex.FollowsMembers info v := by
  rintro o ⟨h1, h2, h3, h4, h5, h6, h7, h8, h9, h10, h11, h12, h13, h14, h15, -⟩
  refine .byte h1 fun _ => .twoBytes h2 fun _ _ => .color h3 fun _ => .color h4 fun _ => ?_
  refine .coord h5 fun _ => .coord h6 fun _ => .coord h7 fun _ => .coord h8 fun _ => ?_
  refine .coord h9 fun _ => .coord h10 fun _ => .coord h11 fun _ => .coord h12 fun _ => ?_
  refine .coord h13 fun _ => .coord h14 fun _ => .glyphs h15 fun _ _ => .done ?_
  exact ⟨⟨rfl, rfl, rfl, rfl, rfl, rfl, rfl, rfl, rfl, rfl, rfl, rfl, rfl, rfl, rfl,
    trivial⟩, Iff.rfl⟩

theorem follows_polygonSc : OrderType.polygonSc.FollowsMembers info v := by
  rintro o ⟨h1, h2, h3, h4, h5, h6, h7, -⟩
  refine .coord h1 fun _ => .coord h2 fun _ => .byte h3 fun _ => .byte h4 fun _ => ?_
  refine .color h5 fun _ => .byte h6 fun _ => .points rfl h7 fun _ _ => .done ?_
  exact ⟨⟨rfl, rfl, rfl, rfl, rfl, rfl, rfl, trivial⟩, Iff.rfl⟩

theorem follows_polyline : OrderType.polyline.FollowsMembers info v := by
  rintro o ⟨h1, h2, h3, -, h5, h6, h7, -⟩
  refine .coord h1 fun _ => .coord h2 fun _ => .byte h3 fun _ => .uint16Over fun _ _ _ => ?_
  refine .color h5 fun _ => .byte h6 fun _ => .points rfl h7 fun _ _ => .done ?_
  exact ⟨⟨rfl, rfl, rfl, trivial, rfl, rfl, rfl, trivial⟩, Iff.rfl⟩

theorem follows_fastGlyph : OrderType.fastGlyph.FollowsMembers info v := by
  rintro o ⟨h1, h2, h3, h4, h5, h6, h7, h8, h9, h10, h11, h12, h13, h14, h15, -⟩
  refine .byte h1 fun _ => .ensure fun _ => .twoBytes h2 fun _ _ => .color h3 fun _ => ?_
  refine .color h4 fun _ => .coord h5 fun _ => .coord h6 fun _ => .coord h7 fun _ => ?_
  refine .coord h8 fun _ => .coord h9 fun _ => .coord h10 fun _ => .coord h11 fun _ => ?_
  refine .coord h12 fun _ => .coord h13 fun _ => .coord h14 fun _ => ?_
  refine .fastGlyph h15 fun _ _ _ => .done ?_
  exact ⟨⟨rfl, rfl, rfl, rfl, rfl, rfl, rfl, rfl, rfl, rfl, rfl, rfl, rfl, rfl, rfl,
    trivial⟩, Iff.rfl⟩

theorem follows_ellipseSc : OrderType.ellipseSc.FollowsMembers info v := by
  rintro o ⟨h1, h2, h3, h4, h5, h6, h7, -⟩
  refine .coord h1 fun _ => .coord h2 fun _ => .coord h3 fun _ => .coord h4 fun _ => ?_
  refine .byte h5 fun _ => .byte h6 fun _ => .color h7 fun _ => .done ?_
  exact ⟨⟨rfl, rfl, rfl, rfl, rfl, rfl, rfl, trivial⟩, Iff.rfl⟩

theorem follows_ellipseCb : OrderType.ellipseCb.FollowsMembers info v := by
  rintro o ⟨h1, h2, h3, h4, h5, h6, h7, h8, h9, h10, h11, h12, h13, -⟩
  refine .coord h1 fun _ => .coord h2 fun _ => .coord h3 fun _ => .coord h4 fun _ => ?_
  refine .byte h5 fun _ => .byte h6 fun _ => .color h7 fun _ => .color h8 fun _ => ?_
  refine .brush h9 h10 h11 h12 h13 fun _ => .done ?_
  exact ⟨⟨rfl, rfl, rfl, rfl, rfl, rfl, rfl, rfl, rfl, rfl, rfl, rfl, rfl, trivial⟩, Iff.rfl⟩

theorem follows_glyphIndex : OrderType.glyphIndex.FollowsMembers info v := by
  rintro o ⟨h1, h2, h3, h4, h5, h6, h7, h8, h9, h10, h11, h12, h13, h14, h15, h16, h17, h18, h19,
    h20, h21, h22, -⟩
  refine .byte h1 fun _ => .byte h2 fun _ => .byte h3 fun _ => .byte h4 fun _ => ?_
  refine .color h5 fun _ => .color h6 fun _ => .int16 h7 fun _ => .int16 h8 fun _ => ?_
  refine .int16 h9 fun _ => .int16 h10 fun _ => .int16 h11 fun _ => .int16 h12 fun _ => ?_
  refine .int16 h13 fun _ => .int16 h14 fun _ => .brush h15 h16 h17 h18 h19 fun _ => ?_
  refine .int16 h20 fun _ => .int16 h21 fun _ => .glyphs h22 fun _ _ => .done ?_
  exact ⟨⟨rfl, rfl, rfl, rfl, rfl, rfl, rfl, rfl, rfl, rfl, rfl, rfl, rfl, rfl, rfl, rfl, rfl,
    rfl, rfl, rfl, rfl, rfl, trivial⟩, Iff.rfl⟩

theorem follows_opaqueRect : OrderType.opaqueRect.FollowsMembers info v := by
  rintro o ⟨h1, h2, h3, h4, h5, h6, ⟨h7, hc⟩, -⟩
  refine .coord h1 fun _ => .coord h2 fun _ => .coord h3 fun _ => .coord h4 fun _ => ?_
  refine .colorBytes hc h5 h6 h7 fun c hc => .done ?_
  exact ⟨⟨rfl, rfl, rfl, rfl, rfl, rfl, ⟨rfl, hc⟩, trivial⟩, Iff.rfl⟩

theorem follows_multiOpaqueRect : OrderType.multiOpaqueRect.FollowsMembers info v := by
  rintro o ⟨h1, h2, h3, h4, h5, h6, ⟨h7, hc⟩, h8, h9, -⟩
  refine .coord h1 fun _ => .coord h2 fun _ => .coord h3 fun _ => .coord h4 fun _ => ?_
  refine .colorBytes hc h5 h6 h7 fun c hc => .byte h8 fun _ => ?_
  refine .rectangles rfl h9 fun _ _ => .done ?_
  exact ⟨⟨rfl, rfl, rfl, rfl, rfl, rfl, ⟨rfl, hc⟩, rfl, rfl, trivial⟩, Iff.rfl⟩

/-! ### The fields that are stored in part -/

/-- A number over the low byte of the last one: its low byte is right in any case, and the rest
of it just in case it was transmitted or there was none. -/
theorem split_low_byte {flag : Prop} {x y last : ℕ}
    (h : flag ∧ x = y ∨ ¬ flag ∧ x = last &&& 0xFF ∧ y = last) :
    x &&& 0xFF = y &&& 0xFF ∧ (x >>> 8 = y >>> 8 ↔ flag ∨ last < 0x100) := by
  have hlow : ∀ n : ℕ, n &&& 0xFF = n % 256 := fun n => Nat.and_two_pow_sub_one_eq_mod n 8
  simp only [hlow, Nat.shiftRight_eq_div_pow] at h ⊢
  obtain ⟨hflag, rfl⟩ | ⟨hflag, rfl, rfl⟩ := h
  · exact ⟨rfl, iff_of_true rfl (.inl hflag)⟩
  · refine ⟨Nat.mod_mod _ _, ?_⟩
    rw [or_iff_right hflag]
    omega

theorem follows_memblt : OrderType.memblt.FollowsMembers info v := by
  rintro o ⟨h1, h2, h3, h4, h5, h6, h7, h8, h9, -⟩
  refine .uint16Over fun x y hxy => ?_
  obtain ⟨hlow, hhigh⟩ := split_low_byte (h1 ▸ hxy)
  refine .coord h2 fun _ => .coord h3 fun _ => .coord h4 fun _ => .coord h5 fun _ => ?_
  refine .byte h6 fun _ => .coord h7 fun _ => .coord h8 fun _ => .uint16 h9 fun _ => .done ?_
  exact ⟨⟨hlow, rfl, rfl, rfl, rfl, rfl, rfl, rfl, rfl, trivial⟩, hhigh⟩

theorem follows_mem3blt : OrderType.mem3blt.FollowsMembers info v := by
  rintro o ⟨h1, h2, h3, h4, h5, h6, h7, h8, h9, h10, h11, h12, h13, h14, h15, h16, -⟩
  refine .uint16Over fun x y hxy => ?_
  obtain ⟨hlow, hhigh⟩ := split_low_byte (h1 ▸ hxy)
  refine .coord h2 fun _ => .coord h3 fun _ => .coord h4 fun _ => .coord h5 fun _ => ?_
  refine .byte h6 fun _ => .coord h7 fun _ => .coord h8 fun _ => .color h9 fun _ => ?_
  refine .color h10 fun _ => .brush h11 h12 h13 h14 h15 fun _ => ?_
  refine .uint16 h16 fun _ => .done ?_
  exact ⟨⟨hlow, rfl, rfl, rfl, rfl, rfl, rfl, rfl, rfl, rfl, rfl, rfl, rfl, rfl, rfl, rfl,
    trivial⟩, hhigh⟩

/-- A raster operation over the cut one: the cut is right in any case, and the mode just in case
the operation was transmitted or had none of the cut bits set. -/
theorem split_backMode {flag : Prop} {x y last : ℕ}
    (h : flag ∧ x = y ∨ ¬ flag ∧ x = last &&& 0x1F ∧ y = last) :
    x &&& 0x1F = y &&& 0x1F ∧
      (backModeOf x = backModeOf y ↔ flag ∨ last &&& 0x80 = 0) := by
  obtain ⟨hflag, rfl⟩ | ⟨hflag, rfl, rfl⟩ := h
  · exact ⟨rfl, iff_of_true rfl (.inl hflag)⟩
  · refine ⟨by rw [Nat.and_assoc, Nat.and_self], ?_⟩
    have hcut : (y &&& 0x1F) &&& 0x80 = 0 := by
      rw [Nat.and_assoc]
      exact Nat.and_zero y
    rw [or_iff_right hflag, backModeOf, backModeOf, hcut]
    by_cases hy : y &&& 0x80 = 0 <;> simp [hy]

theorem follows_polygonCb : OrderType.polygonCb.FollowsMembers info v := by
  rintro o ⟨h1, h2, h3, h4, h5, h6, h7, h8, h9, h10, h11, h12, h13, -⟩
  refine .coord h1 fun _ => .coord h2 fun _ => .byteOver fun x y hxy => ?_
  obtain ⟨hcut, hmode⟩ := split_backMode (h3 ▸ hxy)
  refine .byte h4 fun _ => .color h5 fun _ => .color h6 fun _ => ?_
  refine .brush h7 h8 h9 h10 h11 fun _ => .byte h12 fun _ => .points rfl h13 fun _ _ => .done ?_
  exact ⟨⟨rfl, rfl, hcut, rfl, rfl, rfl, rfl, rfl, rfl, rfl, rfl, rfl, rfl, trivial⟩, hmode⟩

/-- **Every reader follows the table of its type.** -/
theorem OrderType.followsMembers (T : OrderType) : T.FollowsMembers info v := by
  cases T
  · exact follows_dstblt
  · exact follows_patblt
  · exact follows_scrblt
  · exact follows_drawNineGrid
  · exact follows_multiDrawNineGrid
  · exact follows_lineTo
  · exact follows_opaqueRect
  · exact follows_saveBitmap
  · exact follows_memblt
  · exact follows_mem3blt
  · exact follows_multiDstblt
  · exact follows_multiPatblt
  · exact follows_multiScrblt
  · exact follows_multiOpaqueRect
  · exact follows_fastIndex
  · exact follows_polygonSc
  · exact follows_polygonCb
  · exact follows_polyline
  · exact follows_fastGlyph
  · exact follows_ellipseSc
  · exact follows_ellipseCb
  · exact follows_glyphIndex

end

/-! ## Runs -/

/-- What orders have transmitted so far: the header of the last one, and the fields of each
type. -/
structure Transmitted where
  orderInfo : OrderInfo
  values : OrderType → Values

/-- Nothing was transmitted yet. -/
def Transmitted.start : Transmitted :=
  { orderInfo := PrimaryUpdate.reset.orderInfo, values := fun _ => Values.zero }

/-- An order on the wire: its type and header, and the last values of its fields in front of it
and with it. -/
structure Transmission where
  type : OrderType
  info : OrderInfo
  last : Values
  values : Values

/-- What an accepted order transmits.  Its header is read as the receiver reads it. -/
def Transmitted.next (t : Transmitted) (call : Call) :
    Option (Option Transmission × Transmitted) := do
  let (info, s) ← readOrderInfo call t.orderInfo call.stream
  match OrderType.ofCode info.orderType with
  | some T => do
    let (values, _) ← readFields info T.fields (t.values T) s
    return (some { type := T, info, last := t.values T, values },
      { orderInfo := info, values := Function.update t.values T values })
  | none => return (none, { t with orderInfo := info })

/-- What a run of orders transmits. -/
def transmissions : Transmitted → List Call → Option (List Transmission)
  | _, [] => some []
  | t, call :: calls => do
    let (transmission, t) ← t.next call
    let rest ← transmissions t calls
    return transmission.toList ++ rest

/-- The order delivered is the one transmitted: of its type, each member with the value last
transmitted for its field, and what is computed from a field computed from that value. -/
def Faithful (d : Delivery) (w : Transmission) : Prop :=
  d.1 = w.type ∧ Shows d.1.members d.2 w.values ∧ d.1.Derived d.2 w.values

/-- Nothing that the order needs was cut off earlier. -/
def Transmission.Whole (w : Transmission) : Prop := w.type.Whole w.info w.last

/-- The structures show the values. -/
structure Keeps (update : PrimaryUpdate) (t : Transmitted) : Prop where
  info : update.orderInfo = t.orderInfo
  shows : ∀ T : OrderType, Shows T.members (update.orders T) (t.values T)

theorem keeps_reset : Keeps .reset .start := by
  refine ⟨rfl, fun T => ?_⟩
  cases T <;> simp [Shows, OrderType.members, PrimaryUpdate.reset, OrderType.zero,
    OrderType.zeroBrush, Transmitted.start, Values.zero, Kind.zero, octet]

/-- **One order.**  What is accepted is an order on the wire; the structures keep showing the
values, and the order is faithful just in case nothing was cut off. -/
theorem Keeps.step {update update' : PrimaryUpdate} {t : Transmitted} {call : Call}
    {d : Option Delivery} (hkeeps : Keeps update t)
    (h : updateRecvPrimaryOrder update call = some (d, update')) :
    ∃ w t', t.next call = some (w, t') ∧ Keeps update' t' ∧
      List.Forall₂ (fun d w => Faithful d w ↔ w.Whole) d.toList w.toList := by
  obtain ⟨⟨info, s⟩, hinfo, h⟩ := bind_eq_some_iff.mp h
  obtain ⟨delivered, hread, h⟩ := bind_eq_some_iff.mp h
  obtain ⟨-, -, h⟩ := bind_eq_some_iff.mp h
  obtain rfl := some.inj h
  rw [hkeeps.info] at hinfo
  rw [Transmitted.next, hinfo]
  rw [deliverPrimaryOrder] at hread
  cases htype : OrderType.ofCode info.orderType with
  | none =>
    simp only [htype] at hread
    obtain ⟨-, -, hread⟩ := bind_eq_some_iff.mp hread
    obtain ⟨rfl, rfl⟩ := Prod.mk.inj (some.inj hread)
    refine ⟨none, { t with orderInfo := info }, ?_, ⟨rfl, hkeeps.shows⟩, .nil⟩
    simp only [bind_eq_bind, bind_some, htype]
    rfl
  | some T =>
    simp only [htype] at hread
    obtain ⟨⟨order, rest⟩, horder, hread⟩ := bind_eq_some_iff.mp hread
    obtain ⟨-, -, hread⟩ := bind_eq_some_iff.mp hread
    obtain ⟨rfl, rfl⟩ := Prod.mk.inj (some.inj hread)
    obtain ⟨values, hvalues, hshows, hderived⟩ :=
      T.followsMembers _ (hkeeps.shows T) s order rest horder
    refine ⟨some ⟨T, info, t.values T, values⟩,
      { orderInfo := info, values := Function.update t.values T values }, ?_,
      ⟨rfl, fun T' => ?_⟩, .cons ?_ .nil⟩
    · simp only [bind_eq_bind, bind_some, htype, hvalues]
      rfl
    · obtain rfl | hne := eq_or_ne T' T
      · simpa only [Function.update_self] using hshows
      · simpa only [Function.update_of_ne hne] using hkeeps.shows T'
    · exact ⟨fun h => hderived.mp h.2.2, fun h => ⟨rfl, hshows, hderived.mpr h⟩⟩

theorem Keeps.run {calls : List Call} {update : PrimaryUpdate} {t : Transmitted}
    {ds : List Delivery} (hkeeps : Keeps update t)
    (h : recvPrimaryOrders update calls = some ds) :
    ∃ ws, transmissions t calls = some ws ∧
      List.Forall₂ (fun d w => Faithful d w ↔ w.Whole) ds ws := by
  induction calls generalizing update t ds with
  | nil =>
    obtain rfl := some.inj h
    exact ⟨[], rfl, .nil⟩
  | cons call calls ih =>
    obtain ⟨⟨d, update'⟩, hstep, h⟩ := bind_eq_some_iff.mp h
    obtain ⟨ds', hrest, h⟩ := bind_eq_some_iff.mp h
    obtain rfl := some.inj h
    obtain ⟨w, t', hw, hkeeps', hfirst⟩ := hkeeps.step hstep
    obtain ⟨ws, hws, hrun⟩ := ih hkeeps' hrest
    refine ⟨w.toList ++ ws, ?_, List.rel_append hfirst hrun⟩
    rw [transmissions, hw]
    show (transmissions t' calls).bind _ = _
    rw [hws]
    rfl

/-- Element by element, a relation that holds just in case a condition does. -/
theorem forall₂_iff_forall {α β : Type} {R : α → β → Prop} {p : β → Prop} {as : List α}
    {bs : List β} (h : List.Forall₂ (fun a b => R a b ↔ p b) as bs) :
    List.Forall₂ R as bs ↔ ∀ b ∈ bs, p b := by
  induction h with
  | nil => simp
  | cons hab _ ih => rw [List.forall₂_cons, List.forall_mem_cons, hab, ih]

/-- **The orders delivered in a run are the ones transmitted just in case no order needs what was
cut off.** -/
theorem delivered_faithful_iff {calls : List Call} {ds : List Delivery}
    (h : recvPrimaryOrders .reset calls = some ds) :
    ∃ ws, transmissions .start calls = some ws ∧
      (List.Forall₂ Faithful ds ws ↔ ∀ w ∈ ws, w.Whole) := by
  obtain ⟨ws, hws, hrun⟩ := keeps_reset.run h
  exact ⟨ws, hws, forall₂_iff_forall hrun⟩

/-- A call that everything outside agrees to. -/
def callOf (flags : ℕ) (stream : List UInt8) : Call :=
  { flags, stream, supported := fun _ => true, setBounds := true, orderInfo := true, order := true,
    resetBounds := true }

/-- The left edge of a `DSTBLT` as a value, and moved by a difference in the order after it. -/
def movedDstblt : List Call := [callOf 0x09 [0x00, 0x01, 0x64, 0x00], callOf 0x11 [0x01, 0xFE]]

theorem delivered_faithful_iff_moved :
    ∃ ws, transmissions .start movedDstblt = some ws ∧
      (List.Forall₂ Faithful [⟨.dstblt, ⟨100, 0, 0, 0, 0⟩⟩, ⟨.dstblt, ⟨98, 0, 0, 0, 0⟩⟩] ws ↔
        ∀ w ∈ ws, w.Whole) :=
  @delivered_faithful_iff movedDstblt _ rfl

/-- A `MEMBLT` of the colour table 1 in the cache 2, and one that leaves the field out. -/
def repeatedMemblt : List Call :=
  [callOf 0x09 [0x0D, 0x01, 0x00, 0x02, 0x01], callOf 0x01 [0x00, 0x00]]

/-- The second order is delivered with colour table 0. -/
theorem repeatedMemblt_not_faithful :
    ∃ ds ws, recvPrimaryOrders .reset repeatedMemblt = some ds ∧
      transmissions .start repeatedMemblt = some ws ∧ ¬ List.Forall₂ Faithful ds ws := by
  have hds : recvPrimaryOrders .reset repeatedMemblt =
      some [⟨.memblt, ⟨2, 1, 0, 0, 0, 0, 0, 0, 0, 0⟩⟩,
        ⟨.memblt, ⟨2, 0, 0, 0, 0, 0, 0, 0, 0, 0⟩⟩] := rfl
  have hvalues : (transmissions .start repeatedMemblt).map
      (List.map fun w => w.values ⟨1, .uint16⟩) = some [0x0102, 0x0102] := rfl
  obtain ⟨ws, hws, hmap⟩ := map_eq_some_iff.mp hvalues
  refine ⟨_, ws, hds, hws, fun h => ?_⟩
  cases h with
  | cons _ h =>
    cases h with
    | cons hsecond _ =>
      obtain ⟨-, -, hderived⟩ := hsecond
      simp only [List.map_cons, List.cons.injEq] at hmap
      rw [OrderType.Derived, hmap.2.1] at hderived
      exact absurd hderived (by decide)

end PrimaryOrder
