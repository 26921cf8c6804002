/-
# The fields of primary drawing orders

What an order carries of a field replaces what was carried for it before, and a field that no
order has carried is zero.  Here that is said once for all types: an order type is a list of
numbered fields, the values last transmitted are a function on the fields, and an order on the
wire is read over them with nothing kept beside.

`Follows` relates a reader of `orders.c` to this reading: on the same bytes both take the same
part, and the structure and the values agree afterwards.
-/
import Mathlib.Data.Nat.Bitwise
import XyDeskRemote.PrimaryOrderUpdate

open ByteReader Function Nat

namespace PrimaryOrder

/-! ## Fields and values -/

/-- How a field is sent. -/
inductive Kind
  | byte
  | uint16
  | int16
  | uint32
  | coord
  | color
  /-- Two bytes under one number. -/
  | twoBytes
  /-- The seven rows of a brush that are sent. -/
  | pattern
  /-- Rectangles, as many as the field with this number has. -/
  | rectangles (count : ℕ)
  /-- Points, as many as the field with this number has. -/
  | points (count : ℕ)
  | glyphs
  | fastGlyph
  deriving DecidableEq

/-- What a field of a kind has for a value. -/
@[reducible] def Kind.Value : Kind → Type
  | byte | uint16 | uint32 | color => ℕ
  | int16 | coord => ℤ
  | twoBytes => ℕ × ℕ
  | pattern => List UInt8
  | rectangles _ => ℕ × List DeltaRect
  | points _ => ℕ × List DeltaPoint
  | glyphs => ℕ × List UInt8
  | fastGlyph => ℕ × List UInt8 × SecondaryOrder.GlyphDataV2

/-- The value of a field that was never transmitted. -/
def Kind.zero : (kind : Kind) → kind.Value
  | byte | uint16 | uint32 | color => (0 : ℕ)
  | int16 | coord => (0 : ℤ)
  | twoBytes => (0, 0)
  | pattern => List.replicate 7 0
  | rectangles _ => (0, [])
  | points _ => (0, [])
  | glyphs => (0, [])
  | fastGlyph => (0, [], ⟨0, 0, 0, 0, 0, 0, []⟩)

/-- A field of an order: its number, and how it is sent. -/
structure Field where
  number : ℕ
  kind : Kind
  deriving DecidableEq

/-- A value for each field. -/
abbrev Values : Type := (f : Field) → f.kind.Value

/-- No field was transmitted yet. -/
def Values.zero : Values := fun f => f.kind.zero

/-- What the wire carries for a field, over the values there are: coordinates may come as
differences, and a glyph in the data of an order is sent or left out in turn. -/
def Kind.read (delta : Bool) (v : Values) : (kind : Kind) → kind.Value → ByteReader kind.Value
  | byte, _ => do
    require 1
    uint8
  | uint16, _ => do
    require 2
    ByteReader.uint16
  | int16, _ => do
    require 2
    readInt16
  | uint32, _ => do
    require 4
    ByteReader.uint32
  | coord, last => updateReadCoord last delta
  | color, _ => updateReadColor
  | twoBytes, _ => do
    require 2
    let first ← uint8
    let second ← uint8
    return (first, second)
  | pattern, _ => do
    require 7
    let rows ← bytes 7
    return rows.reverse
  | rectangles count, _ => do
    require 2
    let cbData ← ByteReader.uint16
    let rectangles ← updateReadDeltaRects (v ⟨count, .byte⟩)
    return (cbData, rectangles)
  | points count, _ => do
    require 1
    let cbData ← uint8
    let points ← updateReadDeltaPoints (v ⟨count, .byte⟩)
    return (cbData, points)
  | glyphs, _ => do
    require 1
    let cbData ← uint8
    require cbData
    let data ← bytes cbData
    return (cbData, data)
  | fastGlyph, (_, _, glyph) => do
    require 1
    let cbData ← uint8
    let data ← bytes cbData
    ensure (cbData ≠ 0)
    match readFastGlyphData glyph data with
    | some (glyph, _) => return (cbData, data, glyph)
    | none => failure

/-- A field of an order: the value it carries is the last one transmitted from now on. -/
def readField (info : OrderInfo) (f : Field) (v : Values) : ByteReader Values :=
  if orderFieldFlagIsSet info f.number then
    update v f <$> f.kind.read info.deltaCoordinates v (v f)
  else pure v

/-- The fields of an order, in turn. -/
def readFields (info : OrderInfo) : List Field → Values → ByteReader Values
  | [], v => pure v
  | f :: fs, v => do
    let v ← readField info f v
    readFields info fs v

/-! ## Which field is which member -/

/-- The byte of a number at a shift. -/
def octet (n shift : ℕ) : ℕ := n / 2 ^ shift % 2 ^ 8

theorem octet_or (a b shift : ℕ) :
    octet (a ||| b) shift = octet a shift ||| octet b shift := by
  rw [octet, or_div_two_pow, or_mod_two_pow]
  rfl

theorem octet_and (a b shift : ℕ) :
    octet (a &&& b) shift = octet a shift &&& octet b shift := by
  rw [octet, and_div_two_pow, and_mod_two_pow]
  rfl

theorem octet_shiftLeft {b s t : ℕ} (hs : s ∈ [0, 8, 16]) (ht : t ∈ [0, 8, 16])
    (hb : b < 256) : octet (b <<< s) t = if t = s then b else 0 := by
  rw [octet, shiftLeft_eq]
  simp only [List.mem_cons, List.not_mem_nil, or_false] at hs ht
  rcases hs with rfl | rfl | rfl <;> rcases ht with rfl | rfl | rfl <;>
    simp only [reduceIte, reducePow, reduceEqDiff] <;> omega

/-- A field of the structure `O`, and what a value of the field is in there. -/
structure Member (O : Type) where
  field : Field
  shows : O → field.kind.Value → Prop

namespace Member

variable {O : Type}

/-- A field with a member of its own. -/
@[reducible] def is (number : ℕ) (kind : Kind) (get : O → kind.Value) : Member O :=
  ⟨⟨number, kind⟩, fun o x => get o = x⟩

end Member

/-- Each of the members shows the value of its field. -/
@[reducible] def Shows {O : Type} : List (Member O) → O → Values → Prop
  | [], _, _ => True
  | m :: ms, o, v => m.shows o (v m.field) ∧ Shows ms o v

section
variable {O : Type}

/-- A rectangle or point pair of coordinates, from number `first` on. -/
@[reducible] def rectMembers (first : ℕ) (left top width height : O → ℤ) : List (Member O) :=
  [.is first .coord left, .is (first + 1) .coord top, .is (first + 2) .coord width,
   .is (first + 3) .coord height]

/-- The five fields of a brush, from number `first` on. -/
@[reducible] def brushMembers (first : ℕ) (brush : O → Brush) : List (Member O) :=
  [.is first .byte fun o => (brush o).x,
   .is (first + 1) .byte fun o => (brush o).y,
   .is (first + 2) .byte fun o => (brush o).style,
   .is (first + 3) .byte fun o => (brush o).hatch,
   .is (first + 4) .pattern fun o => (brush o).p8x8.tail]

/-- The bytes of a colour that are sent as fields, at the numbers 5, 6 and 7. -/
@[reducible] def colorMembers (color : O → ℕ) : List (Member O) :=
  [⟨⟨5, .byte⟩, fun o x => octet (color o) 0 = x⟩,
   ⟨⟨6, .byte⟩, fun o x => octet (color o) 8 = x⟩,
   ⟨⟨7, .byte⟩, fun o x => octet (color o) 16 = x ∧ color o < 2 ^ 24⟩]

end

/-! ## Readers that follow the fields -/

/-- The reader `r` goes through the fields `fs` of an order over the values `v`: what it accepts
is what the fields make of the same bytes, and its outcome is related to the values by `R`. -/
def Follows {α : Type} (info : OrderInfo) (R : α → Values → Prop) (r : ByteReader α)
    (fs : List Field) (v : Values) : Prop :=
  ∀ bs x rest, r bs = some (x, rest) →
    ∃ v', readFields info fs v bs = some (v', rest) ∧ R x v'

namespace Follows

variable {α β : Type} {info : OrderInfo} {R : β → Values → Prop} {fs : List Field} {v : Values}

theorem done {x : β} (h : R x v) : Follows info R (pure x) [] v := by
  intro bs y rest hy
  obtain ⟨rfl, rfl⟩ := Prod.mk.inj (Option.some.inj hy)
  exact ⟨v, rfl, h⟩

/-- A check of the reader that the fields do not have. -/
theorem ensure {p : Prop} [Decidable p] {r : Unit → ByteReader β}
    (h : p → Follows info R (r ()) fs v) :
    Follows info R (ensure p >>= r) fs v := by
  intro bs x rest hx
  obtain ⟨hp, hx⟩ := ensure_bind_eq_some.mp hx
  exact h hp bs x rest hx

/-- One field, whichever way the reader keeps the value that is not transmitted. -/
theorem field {r : ByteReader α} {k : α → ByteReader β} (f : Field)
    (hset : orderFieldFlagIsSet info f.number → ∀ bs x rest, r bs = some (x, rest) →
      ∃ y, f.kind.read info.deltaCoordinates v (v f) bs = some (y, rest) ∧
        Follows info R (k x) fs (update v f y))
    (hkept : ¬ orderFieldFlagIsSet info f.number → ∀ bs x rest, r bs = some (x, rest) →
      rest = bs ∧ Follows info R (k x) fs v) :
    Follows info R (r >>= k) (f :: fs) v := by
  intro bs z rest hz
  obtain ⟨x, mid, hx, hrest⟩ := bind_eq_some.mp hz
  by_cases hflag : orderFieldFlagIsSet info f.number
  · obtain ⟨y, hy, hk⟩ := hset hflag bs x mid hx
    obtain ⟨v', hv', hR⟩ := hk mid z rest hrest
    refine ⟨v', ?_, hR⟩
    have hfirst : readField info f v bs = some (update v f y, mid) := by
      rw [readField, if_pos hflag]
      show (f.kind.read info.deltaCoordinates v (v f) bs).bind _ = _
      rw [hy]
      rfl
    rw [readFields, bind_apply, hfirst]
    exact hv'
  · obtain ⟨rfl, hk⟩ := hkept hflag bs x mid hx
    obtain ⟨v', hv', hR⟩ := hk mid z rest hrest
    refine ⟨v', ?_, hR⟩
    rw [readFields, bind_apply, readField, if_neg hflag]
    exact hv'

theorem overwritten {f : Field} {target : f.kind.Value} {k : f.kind.Value → ByteReader β}
    (hread : ∀ x y, (orderFieldFlagIsSet info f.number ∧ x = y ∨
      ¬ orderFieldFlagIsSet info f.number ∧ x = target ∧ y = v f) →
      Follows info R (k x) fs (update v f y))
    (hlast : f.kind.read info.deltaCoordinates v target =
      f.kind.read info.deltaCoordinates v (v f)) :
    Follows info R (readOrderField info f.number target
      (f.kind.read info.deltaCoordinates v target) >>= k) (f :: fs) v := by
  refine field f (fun hflag bs x rest hx => ?_) (fun hflag bs x rest hx => ?_)
  · rw [readOrderField, if_pos hflag, hlast] at hx
    exact ⟨x, hx, hread x x (.inl ⟨hflag, rfl⟩)⟩
  · rw [readOrderField, if_neg hflag] at hx
    obtain ⟨rfl, rfl⟩ := Prod.mk.inj (Option.some.inj hx)
    have hk := hread target (v f) (.inr ⟨hflag, rfl, rfl⟩)
    rw [update_eq_self] at hk
    exact ⟨rfl, hk⟩

/-- A field over the value that was last transmitted. -/
theorem kept {f : Field} {target : f.kind.Value} {k : f.kind.Value → ByteReader β}
    (htarget : target = v f)
    (hread : ∀ x, Follows info R (k x) fs (update v f x)) :
    Follows info R (readOrderField info f.number target
      (f.kind.read info.deltaCoordinates v target) >>= k) (f :: fs) v := by
  subst htarget
  refine overwritten (fun x y hxy => ?_) rfl
  have hx : x = y := by
    obtain ⟨-, h⟩ | ⟨-, h, h'⟩ := hxy
    · exact h
    · exact h.trans h'.symm
  exact hx ▸ hread x

section
variable {n : ℕ}

variable {target : ℕ} {k : ℕ → ByteReader β}

theorem byte (h : target = v ⟨n, .byte⟩)
    (hk : ∀ x : ℕ, Follows info R (k x) fs (update v ⟨n, .byte⟩ x)) :
    Follows info R (readOrderFieldByte info n target >>= k) (⟨n, .byte⟩ :: fs) v :=
  kept (f := ⟨n, .byte⟩) h hk

theorem uint16 (h : target = v ⟨n, .uint16⟩)
    (hk : ∀ x : ℕ, Follows info R (k x) fs (update v ⟨n, .uint16⟩ x)) :
    Follows info R (readOrderFieldUint16 info n target >>= k) (⟨n, .uint16⟩ :: fs) v :=
  kept (f := ⟨n, .uint16⟩) h hk

/-- A number over something else than the value that was last transmitted. -/
theorem uint16Over (hk : ∀ x y : ℕ, (orderFieldFlagIsSet info n ∧ x = y ∨
      ¬ orderFieldFlagIsSet info n ∧ x = target ∧ y = v ⟨n, .uint16⟩) →
      Follows info R (k x) fs (update v ⟨n, .uint16⟩ y)) :
    Follows info R (readOrderFieldUint16 info n target >>= k) (⟨n, .uint16⟩ :: fs) v :=
  overwritten (f := ⟨n, .uint16⟩) hk rfl

theorem byteOver (hk : ∀ x y : ℕ, (orderFieldFlagIsSet info n ∧ x = y ∨
      ¬ orderFieldFlagIsSet info n ∧ x = target ∧ y = v ⟨n, .byte⟩) →
      Follows info R (k x) fs (update v ⟨n, .byte⟩ y)) :
    Follows info R (readOrderFieldByte info n target >>= k) (⟨n, .byte⟩ :: fs) v :=
  overwritten (f := ⟨n, .byte⟩) hk rfl

theorem int16 {target : ℤ} {k : ℤ → ByteReader β} (h : target = v ⟨n, .int16⟩)
    (hk : ∀ x : ℤ, Follows info R (k x) fs (update v ⟨n, .int16⟩ x)) :
    Follows info R (readOrderFieldInt16 info n target >>= k) (⟨n, .int16⟩ :: fs) v :=
  kept (f := ⟨n, .int16⟩) h hk

theorem uint32 (h : target = v ⟨n, .uint32⟩)
    (hk : ∀ x : ℕ, Follows info R (k x) fs (update v ⟨n, .uint32⟩ x)) :
    Follows info R (readOrderFieldUint32 info n target >>= k) (⟨n, .uint32⟩ :: fs) v :=
  kept (f := ⟨n, .uint32⟩) h hk

theorem coord {target : ℤ} {k : ℤ → ByteReader β} (h : target = v ⟨n, .coord⟩)
    (hk : ∀ x : ℤ, Follows info R (k x) fs (update v ⟨n, .coord⟩ x)) :
    Follows info R (readOrderFieldCoord info n target >>= k) (⟨n, .coord⟩ :: fs) v :=
  kept (f := ⟨n, .coord⟩) h hk

theorem color (h : target = v ⟨n, .color⟩)
    (hk : ∀ x : ℕ, Follows info R (k x) fs (update v ⟨n, .color⟩ x)) :
    Follows info R (readOrderFieldColor info n target >>= k) (⟨n, .color⟩ :: fs) v :=
  kept (f := ⟨n, .color⟩) h hk

theorem twoBytes {first second : ℕ} {k : ℕ × ℕ → ByteReader β}
    (h : (first, second) = v ⟨n, .twoBytes⟩)
    (hk : ∀ x y : ℕ, Follows info R (k (x, y)) fs (update v ⟨n, .twoBytes⟩ (x, y))) :
    Follows info R (readOrderField2bytes info n first second >>= k) (⟨n, .twoBytes⟩ :: fs) v :=
  kept (f := ⟨n, .twoBytes⟩) h fun p => hk p.1 p.2

theorem glyphs {cbData : ℕ} {data : List UInt8} {k : ℕ × List UInt8 → ByteReader β}
    (h : (cbData, data) = v ⟨n, .glyphs⟩)
    (hk : ∀ x y, Follows info R (k (x, y)) fs (update v ⟨n, .glyphs⟩ (x, y))) :
    Follows info R (readGlyphBytes info n cbData data >>= k) (⟨n, .glyphs⟩ :: fs) v :=
  kept (f := ⟨n, .glyphs⟩) h fun p => hk p.1 p.2

theorem fastGlyph {cbData : ℕ} {data : List UInt8} {glyph : SecondaryOrder.GlyphDataV2}
    {k : ℕ × List UInt8 × SecondaryOrder.GlyphDataV2 → ByteReader β}
    (h : (cbData, data, glyph) = v ⟨n, .fastGlyph⟩)
    (hk : ∀ x y z, Follows info R (k (x, y, z)) fs
      (update v ⟨n, .fastGlyph⟩ (x, y, z))) :
    Follows info R (readFastGlyph info n cbData data glyph >>= k) (⟨n, .fastGlyph⟩ :: fs) v :=
  kept (f := ⟨n, .fastGlyph⟩) h fun p => hk p.1 p.2.1 p.2.2

theorem rectangles {count num stored cbData : ℕ} {rects : List DeltaRect}
    {k : ℕ × List DeltaRect → ByteReader β} (hnum : num = v ⟨count, .byte⟩)
    (h : (cbData, rects) = v ⟨n, .rectangles count⟩)
    (hk : ∀ x y, Follows info R (k (x, y)) fs
      (update v ⟨n, .rectangles count⟩ (x, y))) :
    Follows info R (readRectangles info n num stored cbData rects >>= k)
      (⟨n, .rectangles count⟩ :: fs) v := by
  refine field _ (fun hflag bs p rest hp => ?_) (fun hflag bs p rest hp => ?_)
  · rw [readRectangles, if_pos hflag, hnum] at hp
    exact ⟨p, hp, hk p.1 p.2⟩
  · rw [readRectangles, if_neg hflag] at hp
    obtain ⟨-, hp⟩ := ensure_bind_eq_some.mp hp
    obtain ⟨rfl, rfl⟩ := Prod.mk.inj (pure_eq_some.mp hp)
    have hlast := hk cbData rects
    rw [h, update_eq_self] at hlast
    exact ⟨rfl, h ▸ hlast⟩

theorem points {count num stored cbData : ℕ} {xStart yStart : ℤ} {entries : List DeltaPoint}
    {k : ℕ × List DeltaPoint → ByteReader β} (hnum : num = v ⟨count, .byte⟩)
    (h : (cbData, entries) = v ⟨n, .points count⟩)
    (hk : ∀ x y, Follows info R (k (x, y)) fs (update v ⟨n, .points count⟩ (x, y))) :
    Follows info R (readPoints info n xStart yStart num stored cbData entries >>= k)
      (⟨n, .points count⟩ :: fs) v := by
  refine field _ (fun hflag bs p rest hp => ?_) (fun hflag bs p rest hp => ?_)
  · rw [readPoints, if_pos hflag] at hp
    -- The checks on the number and on the start are the reader's own; the rest is the field's.
    obtain ⟨-, hp⟩ := ensure_bind_eq_some.mp hp
    obtain ⟨⟨⟩, bs₁, hrequire, hp⟩ := bind_eq_some.mp hp
    obtain ⟨cb, bs₂, hcb, hp⟩ := bind_eq_some.mp hp
    obtain ⟨-, hp⟩ := ensure_bind_eq_some.mp hp
    refine ⟨p, ?_, hk p.1 p.2⟩
    refine bind_eq_some.mpr ⟨(), bs₁, hrequire, ?_⟩
    exact bind_eq_some.mpr ⟨cb, bs₂, hcb, hnum ▸ hp⟩
  · rw [readPoints, if_neg hflag] at hp
    obtain ⟨-, hp⟩ := ensure_bind_eq_some.mp hp
    obtain ⟨rfl, rfl⟩ := Prod.mk.inj (pure_eq_some.mp hp)
    have hlast := hk cbData entries
    rw [h, update_eq_self] at hlast
    exact ⟨rfl, h ▸ hlast⟩

end

/-! ### Brushes and colours in bytes -/

theorem brushFlag_iff {flags shift i : ℕ} (hi : i < 5) :
    ((flags >>> shift) &&& 0x1F) &&& 2 ^ i ≠ 0 ↔ flags &&& (1 <<< (shift + i)) ≠ 0 := by
  have hmask : ∀ i < 5, testBit 0x1F i = true := by decide
  rw [one_shiftLeft, and_two_pow, and_two_pow, testBit_and,
    testBit_shiftRight, hmask i hi, Bool.and_true]
  simp

theorem readBrushByte_eq {shift i : ℕ} (hi : i < 5) (target : ℕ) :
    readBrushByte ((info.fieldFlags >>> shift) &&& 0x1F) (2 ^ i) target =
      readOrderFieldByte info (shift + i + 1) target :=
  if_congr (brushFlag_iff hi) rfl rfl

/-- The values with the fields of a brush replaced by its own. -/
@[reducible] def withBrush (v : Values) (shift : ℕ) (b : Brush) : Values :=
  update (update (update (update (update v
    ⟨shift + 1, .byte⟩ b.x) ⟨shift + 2, .byte⟩ b.y) ⟨shift + 3, .byte⟩ b.style)
    ⟨shift + 4, .byte⟩ b.hatch) ⟨shift + 5, .pattern⟩ b.p8x8.tail

theorem brush {shift : ℕ} {b : Brush} {k : Brush → ByteReader β}
    (hx : b.x = v ⟨shift + 1, .byte⟩) (hy : b.y = v ⟨shift + 2, .byte⟩)
    (hstyle : b.style = v ⟨shift + 3, .byte⟩) (hhatch : b.hatch = v ⟨shift + 4, .byte⟩)
    (hpattern : b.p8x8.tail = v ⟨shift + 5, .pattern⟩)
    (hk : ∀ b', Follows info R (k b') fs (withBrush v shift b')) :
    Follows info R (updateReadBrush b ((info.fieldFlags >>> shift) &&& 0x1F) >>= k)
      (⟨shift + 1, .byte⟩ :: ⟨shift + 2, .byte⟩ :: ⟨shift + 3, .byte⟩ ::
        ⟨shift + 4, .byte⟩ :: ⟨shift + 5, .pattern⟩ :: fs) v := by
  set flags := (info.fieldFlags >>> shift) &&& 0x1F
  have h1 : readBrushByte flags 0x01 b.x = readOrderFieldByte info (shift + 1) b.x :=
    readBrushByte_eq (i := 0) (by decide) _
  have h2 : readBrushByte flags 0x02 b.y = readOrderFieldByte info (shift + 2) b.y :=
    readBrushByte_eq (i := 1) (by decide) _
  have h3 : readBrushByte flags 0x04 b.style = readOrderFieldByte info (shift + 3) b.style :=
    readBrushByte_eq (i := 2) (by decide) _
  have h4 : readBrushByte flags 0x08 b.hatch = readOrderFieldByte info (shift + 4) b.hatch :=
    readBrushByte_eq (i := 3) (by decide) _
  have h5 : flags &&& 0x10 ≠ 0 ↔ orderFieldFlagIsSet info (shift + 5) :=
    brushFlag_iff (i := 4) (by decide)
  simp only [updateReadBrush, bind_assoc]
  rw [h1]
  refine byte hx fun x => ?_
  rw [h2]
  refine byte (by simpa using hy) fun y => ?_
  rw [h3]
  refine byte (by simpa using hstyle) fun style => ?_
  rw [h4]
  refine byte (by simpa using hhatch) fun hatch => ?_
  refine ensure fun _ => ?_
  refine field _ (fun hflag bs p rest hp => ?_) (fun hflag bs p rest hp => ?_)
  · rw [if_pos (h5.mpr hflag)] at hp
    obtain ⟨⟨⟩, bs₁, hrequire, hp⟩ := bind_eq_some.mp hp
    obtain ⟨rows, bs₂, hrows, hp⟩ := bind_eq_some.mp hp
    obtain ⟨rfl, rfl⟩ := Prod.mk.inj (pure_eq_some.mp hp)
    refine ⟨rows.reverse, ?_, hk _⟩
    refine bind_eq_some.mpr ⟨(), bs₁, hrequire, ?_⟩
    exact bind_eq_some.mpr ⟨rows, rest, hrows, rfl⟩
  · rw [if_neg (fun h => hflag (h5.mp h))] at hp
    obtain ⟨rfl, rfl⟩ := Prod.mk.inj (pure_eq_some.mp hp)
    refine ⟨rfl, ?_⟩
    -- The row in front of the seven is no field, and stays with them.
    have hlast := hk ⟨x, y, if cachedBrush style then
      if (SecondaryOrder.getBmfBpp style).1 = 0 then 1 else (SecondaryOrder.getBmfBpp style).1
      else b.bpp, style, hatch, if cachedBrush style then hatch else b.index, b.p8x8⟩
    rwa [withBrush, hpattern, update_eq_self_iff.mpr (by simp)] at hlast

/-- One byte of a colour; the others stay. -/
theorem colorByte {n mask s c : ℕ} {k : ℕ → ByteReader β} (hs : s ∈ [0, 8, 16])
    (hmask : ∀ t ∈ [0, 8, 16], octet mask t = if t = s then 0 else 0xFF)
    (hlt : mask < 2 ^ 24) (hc : c < 2 ^ 24) (h : octet c s = v ⟨n, .byte⟩)
    (hk : ∀ c', c' < 2 ^ 24 → (∀ t ∈ [0, 8, 16], t ≠ s → octet c' t = octet c t) →
      Follows info R (k c') fs (update v ⟨n, .byte⟩ (octet c' s))) :
    Follows info R (readColorByte info n mask s c >>= k) (⟨n, .byte⟩ :: fs) v := by
  refine field _ (fun hflag bs p rest hp => ?_) (fun hflag bs p rest hp => ?_)
  · rw [readColorByte, readOrderField, if_pos hflag] at hp
    obtain ⟨⟨⟩, bs₁, hrequire, hp⟩ := bind_eq_some.mp hp
    obtain ⟨b, bs₂, hbyte, hp⟩ := bind_eq_some.mp hp
    obtain ⟨rfl, rfl⟩ := Prod.mk.inj (pure_eq_some.mp hp)
    have hb : b < 256 := number_lt hbyte
    have hparts : ∀ t ∈ [0, 8, 16], octet ((c &&& mask) ||| (b <<< s)) t =
        if t = s then b else octet c t := by
      intro t ht
      rw [octet_or, octet_and, octet_shiftLeft hs ht hb, hmask t ht]
      split
      · simp
      · rw [or_zero]
        exact and_two_pow_sub_one_of_lt_two_pow (n := 8) (mod_lt _ (by decide))
    refine ⟨b, bind_eq_some.mpr ⟨(), bs₁, hrequire, hbyte⟩, ?_⟩
    have hshift : b <<< s < 2 ^ 24 := by
      rw [shiftLeft_eq]
      have hs16 : 2 ^ s ≤ 2 ^ 16 := Nat.pow_le_pow_right (by decide) (by simp at hs; omega)
      calc b * 2 ^ s ≤ 255 * 2 ^ 16 := Nat.mul_le_mul (by omega) hs16
        _ < 2 ^ 24 := by decide
    have hnext := hk ((c &&& mask) ||| (b <<< s))
      (or_lt_two_pow (and_lt_two_pow _ hlt) hshift)
      fun t ht hne => by rw [hparts t ht, if_neg hne]
    rwa [hparts s hs, if_pos rfl] at hnext
  · rw [readColorByte, readOrderField, if_neg hflag] at hp
    obtain ⟨rfl, rfl⟩ := Prod.mk.inj (pure_eq_some.mp hp)
    have hlast := hk p hc fun _ _ _ => rfl
    rw [h, update_eq_self] at hlast
    exact ⟨rfl, hlast⟩

/-- A colour of which each byte is a field. -/
theorem colorBytes {c : ℕ} {k : ℕ → ByteReader β} (hc : c < 2 ^ 24)
    (h5 : octet c 0 = v ⟨5, .byte⟩) (h6 : octet c 8 = v ⟨6, .byte⟩)
    (h7 : octet c 16 = v ⟨7, .byte⟩)
    (hk : ∀ c', c' < 2 ^ 24 → Follows info R (k c') fs
      (update (update (update v ⟨5, .byte⟩ (octet c' 0))
        ⟨6, .byte⟩ (octet c' 8)) ⟨7, .byte⟩ (octet c' 16))) :
    Follows info R (do
      let c ← readColorByte info 5 0x00FFFF00 0 c
      let c ← readColorByte info 6 0x00FF00FF 8 c
      let c ← readColorByte info 7 0x0000FFFF 16 c
      k c) (⟨5, .byte⟩ :: ⟨6, .byte⟩ :: ⟨7, .byte⟩ :: fs) v := by
  refine colorByte (by decide) (by decide) (by decide) hc h5 fun c₁ hc₁ hrest₁ => ?_
  have h6₁ : octet c₁ 8 = octet c 8 := hrest₁ 8 (by decide) (by decide)
  have h7₁ : octet c₁ 16 = octet c 16 := hrest₁ 16 (by decide) (by decide)
  refine colorByte (by decide) (by decide) (by decide) hc₁ (h6₁.trans h6)
    fun c₂ hc₂ hrest₂ => ?_
  have h5₂ : octet c₂ 0 = octet c₁ 0 := hrest₂ 0 (by decide) (by decide)
  have h7₂ : octet c₂ 16 = octet c₁ 16 := hrest₂ 16 (by decide) (by decide)
  refine colorByte (by decide) (by decide) (by decide) hc₂ (h7₂.trans (h7₁.trans h7))
    fun c₃ hc₃ hrest₃ => ?_
  have h5₃ : octet c₃ 0 = octet c₂ 0 := hrest₃ 0 (by decide) (by decide)
  have h6₃ : octet c₃ 8 = octet c₂ 8 := hrest₃ 8 (by decide) (by decide)
  rw [← h5₂, ← h5₃, ← h6₃]
  exact hk c₃ hc₃

end Follows

end PrimaryOrder
