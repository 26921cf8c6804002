import Mathlib.Data.List.Basic
import Mathlib.Order.Nat
/-
# Regions of the screen

`region.c` keeps a set of pixels as a list of rectangles and the rectangle around them, the
extents.  A rectangle is united with a region, or cut out of it, band by band; bands that touch
and have the same items become one in the end.

A pointer into the array of rectangles is what is left of the list behind it.  Coordinates and
counts are natural numbers: the coordinates are compared and never computed with.
-/

open List

namespace Region16

/-- `RECTANGLE_16`. -/
structure Rectangle16 where
  left : ℕ
  top : ℕ
  right : ℕ
  bottom : ℕ
  deriving DecidableEq

/-- `REGION16`, with the rectangles of its `data`. -/
structure Region where
  extents : Rectangle16 := ⟨0, 0, 0, 0⟩
  rects : List Rectangle16 := []
  deriving DecidableEq

/-! ## Rectangles -/

/-- `rectangle_is_empty`. -/
def Rectangle16.isEmpty (rect : Rectangle16) : Bool :=
  rect.left ≥ rect.right || rect.top ≥ rect.bottom

/-- `rectangles_intersection`: what it writes, and its answer. -/
def rectanglesIntersection (r1 r2 : Rectangle16) : Rectangle16 × Bool :=
  let dst : Rectangle16 :=
    { left := max r1.left r2.left
      right := min r1.right r2.right
      top := max r1.top r2.top
      bottom := min r1.bottom r2.bottom }
  (dst, dst.left < dst.right && dst.top < dst.bottom)

/-- `rectangles_intersects`. -/
def rectanglesIntersects (r1 r2 : Rectangle16) : Bool := (rectanglesIntersection r1 r2).2

/-- The rectangle in other rows. -/
def Rectangle16.withRows (newTop newBottom : ℕ) (rect : Rectangle16) : Rectangle16 :=
  { rect with top := newTop, bottom := newBottom }

/-! ## Bands -/

/-- The item that `unionRect` begins in, or `unionRect`. -/
def startOverlap (src : List Rectangle16) (refY : ℕ) (unionRect : Rectangle16) : Rectangle16 :=
  match src with
  | r :: _ => if r.top = refY ∧ r.left < unionRect.left then r else unionRect
  | [] => unionRect

/-- The item that `unionRect` ends in, or `unionRect`, and what is left behind it. -/
def endOverlap (src : List Rectangle16) (refY : ℕ) (unionRect : Rectangle16) :
    Rectangle16 × List Rectangle16 :=
  match src.dropWhile fun r => r.top = refY ∧ r.right < unionRect.right with
  | r :: src =>
    if r.top = refY ∧ r.left < unionRect.right then (r, src) else (unionRect, r :: src)
  | [] => (unionRect, [])

/-- The items before `unionRect` and the one that it becomes, and what is left. -/
def mergeItems (src : List Rectangle16) (refY newTop newBottom : ℕ) (unionRect : Rectangle16) :
    List Rectangle16 × List Rectangle16 :=
  let before := src.takeWhile fun r => r.top = refY ∧ r.right < unionRect.left
  let src := src.dropWhile fun r => r.top = refY ∧ r.right < unionRect.left
  let last := endOverlap src refY unionRect
  (before.map (Rectangle16.withRows newTop newBottom) ++
    [{ left := (startOverlap src refY unionRect).left, top := newTop
       right := last.1.right, bottom := newBottom }],
    last.2)

/-- `region16_copy_band_with_union`: the items of the new band, and what lies behind the old
one. -/
def copyBandWithUnion (src : List Rectangle16) (newTop newBottom : ℕ)
    (unionRect : Option Rectangle16) : List Rectangle16 × List Rectangle16 :=
  match src with
  | [] => ([], [])
  | first :: _ =>
    let refY := first.top
    let merged :=
      match unionRect with
      | some rect => mergeItems src refY newTop newBottom rect
      | none => ([], src)
    -- remaining items on the same band
    (merged.1 ++
      (merged.2.takeWhile fun r => r.top = refY).map (Rectangle16.withRows newTop newBottom),
      merged.2.dropWhile fun r => r.top = refY)

/-- `rectangle_contained_in_band`. -/
def rectangleContainedInBand (band : List Rectangle16) (rect : Rectangle16) : Bool :=
  match band with
  | [] => false
  | first :: _ =>
    if first.top > rect.top ∨ rect.bottom > first.bottom then false
    else
      (band.takeWhile fun r => r.top = first.top ∧ r.left ≤ rect.left).any fun r =>
        rect.right ≤ r.right

/-- `band_match`, `refBand2` being the top of the second band. -/
def bandMatch (refBand2 : ℕ) : List Rectangle16 → List Rectangle16 → Bool
  | r1 :: band1, r2 :: band2 =>
    if r2.top = refBand2 then
      if r1.left ≠ r2.left ∨ r1.right ≠ r2.right then false else bandMatch refBand2 band1 band2
    else false
  | _ :: _, [] => false
  | [], r2 :: _ => r2.top ≠ refBand2
  | [], [] => true

/-- The loop of `region16_simplify_bands`: the rectangles from `band1` on. -/
def simplifyLoop : List Rectangle16 → List Rectangle16
  | [] => []
  | first :: rest =>
    let items := first :: rest.takeWhile fun r => r.top = first.top
    match h : rest.dropWhile fun r => r.top = first.top with
    | [] => first :: rest
    | second :: rest2 =>
      if first.bottom = second.top ∧ bandMatch second.top items (second :: rest2) then
        simplifyLoop (items.map (fun r => { r with bottom := second.bottom }) ++
          (second :: rest2).drop items.length)
      else items ++ simplifyLoop (second :: rest2)
termination_by rects => rects.length
decreasing_by
  all_goals
    have hlength := congrArg List.length
      (takeWhile_append_dropWhile (p := fun r => decide (r.top = first.top)) (l := rest))
    rw [length_append, h] at hlength
    simp only [length_append, length_map, length_drop, length_cons] at *
    omega

/-- `region16_simplify_bands`. -/
def simplifyBands (rects : List Rectangle16) : List Rectangle16 :=
  if rects.length < 2 then rects else simplifyLoop rects

/-! ## The union -/

/-- A band of the source and the rectangle: the new items, what lies behind the band, and where
a piece of the rectangle would begin below it. -/
def unionBand (currentBand : List Rectangle16) (first rect : Rectangle16) :
    List Rectangle16 × List Rectangle16 × ℕ :=
  if first.bottom ≤ rect.top ∨ rect.bottom ≤ first.top ∨
      rectangleContainedInBand currentBand rect then
    let copied := copyBandWithUnion currentBand first.top first.bottom none
    (copied.1, copied.2, rect.top)
  else
    let mergeTop := if rect.top > first.top then rect.top else first.top
    let mergeBottom := if rect.bottom < first.bottom then rect.bottom else first.bottom
    let topSplit :=
      if rect.top > first.top then (copyBandWithUnion currentBand first.top rect.top none).1
      else []
    let merged := copyBandWithUnion currentBand mergeTop mergeBottom (some rect)
    let bottomSplit :=
      if rect.bottom < first.bottom then
        copyBandWithUnion currentBand mergeBottom first.bottom none
      else ([], merged.2)
    (topSplit ++ merged.1 ++ bottomSplit.1, bottomSplit.2, first.bottom)

theorem endOverlap_suffix (src : List Rectangle16) (refY : ℕ) (unionRect : Rectangle16) :
    (endOverlap src refY unionRect).2 <:+ src := by
  have hsuffix : (src.dropWhile fun r => r.top = refY ∧ r.right < unionRect.right) <:+ src :=
    dropWhile_suffix _
  unfold endOverlap
  split
  next r rest hleft =>
    rw [hleft] at hsuffix
    split
    · exact (suffix_cons r rest).trans hsuffix
    · exact hsuffix
  next => exact nil_suffix

theorem mergeItems_suffix (src : List Rectangle16) (refY newTop newBottom : ℕ)
    (unionRect : Rectangle16) :
    (mergeItems src refY newTop newBottom unionRect).2 <:+ src :=
  (endOverlap_suffix _ _ _).trans (dropWhile_suffix _)

theorem copyBandWithUnion_suffix (first : Rectangle16) (rest : List Rectangle16)
    (newTop newBottom : ℕ) (unionRect : Option Rectangle16) :
    (copyBandWithUnion (first :: rest) newTop newBottom unionRect).2 <:+ rest := by
  have hdrop : ∀ l, l <:+ first :: rest → (l.dropWhile fun r => r.top = first.top) <:+ rest := by
    intro l hl
    rcases suffix_cons_iff.1 hl with rfl | hl
    · rw [dropWhile_cons, if_pos (by simp)]
      exact dropWhile_suffix _
    · exact (dropWhile_suffix _).trans hl
  unfold copyBandWithUnion
  cases unionRect with
  | none => exact hdrop _ (suffix_refl _)
  | some rect => exact hdrop _ (mergeItems_suffix _ _ _ _ _)

theorem unionBand_suffix (first rect : Rectangle16) (rest : List Rectangle16) :
    (unionBand (first :: rest) first rect).2.1 <:+ rest := by
  unfold unionBand
  dsimp only
  split_ifs <;> dsimp only <;> exact copyBandWithUnion_suffix _ _ _ _ _

/-- The loop of `region16_union_rect`: the bands from `currentBand` on, united with the
rectangle, and the pieces of it between them. -/
def unionBands (rect : Rectangle16) : List Rectangle16 → List Rectangle16
  | [] => []
  | first :: rest =>
    let band := unionBand (first :: rest) first rect
    let between :=
      match band.2.1 with
      | next :: _ =>
        if next.top ≠ first.bottom ∧ rect.bottom > first.bottom ∧ rect.top < next.top then
          [{ left := rect.left, top := band.2.2, right := rect.right
             bottom := min next.top rect.bottom : Rectangle16 }]
        else []
      | [] => []
    band.1 ++ between ++ unionBands rect band.2.1
termination_by rects => rects.length
decreasing_by
  have hlength := (unionBand_suffix first rect rest).length_le
  rw [length_cons]
  omega

/-- The smallest rectangle around two rectangles. -/
def Rectangle16.hull (r1 r2 : Rectangle16) : Rectangle16 where
  left := min r1.left r2.left
  top := min r1.top r2.top
  right := max r1.right r2.right
  bottom := max r1.bottom r2.bottom

/-- `region16_union_rect`: what is in `dst` behind it. -/
def unionRect (src : Region) (rect : Rectangle16) : Region :=
  match src.rects with
  | [] => { extents := rect, rects := [rect] }
  | rects =>
    let above :=
      if rect.top < src.extents.top then
        [{ rect with bottom := min src.extents.top rect.bottom }]
      else []
    let below :=
      if src.extents.bottom < rect.bottom then
        [{ rect with top := max src.extents.bottom rect.top }]
      else []
    { extents := rect.hull src.extents
      rects := simplifyBands (above ++ unionBands rect rects ++ below) }

/-! ## The intersection -/

/-- `region16_intersects_rect`. -/
def intersectsRect (src : Region) (arg2 : Rectangle16) : Bool :=
  match src.rects with
  | [] => false
  | [_] => rectanglesIntersects src.extents arg2
  | rects =>
    rectanglesIntersects src.extents arg2 &&
      (rects.takeWhile fun r => arg2.bottom > r.top).any fun r => rectanglesIntersects r arg2

/-- `newExtents` behind a rectangle of the intersection. -/
def growExtents (newExtents common : Rectangle16) : Rectangle16 :=
  if newExtents.isEmpty then common else common.hull newExtents

/-- `region16_intersect_rect`: what is in `dst` behind it. -/
def intersectRect (src : Region) (rect : Rectangle16) : Region :=
  match src.rects with
  | [] => {}
  | [_] =>
    let common := rectanglesIntersection src.extents rect
    if common.2 then unionRect {} common.1 else {}
  | rects =>
    let commons := (rects.takeWhile fun r => rect.bottom > r.top).filterMap fun r =>
      let common := rectanglesIntersection r rect
      if common.2 then some common.1 else none
    { extents := commons.foldl growExtents ⟨0, 0, 0, 0⟩
      rects := simplifyBands commons }

/-! ## Several regions -/

/-- A rectangle that is not empty. -/
def Area : Type := { rect : Rectangle16 // rect.isEmpty = false }

/-- The functions that change a region. -/
inductive Call
  | unionRect (dst src : ℕ) (rect : Area)
  | intersectRect (dst src : ℕ) (rect : Area)
  | copy (dst src : ℕ)
  | clear (dst : ℕ)

/-- The regions of a program, each under its number. -/
abbrev Regions := ℕ → Region

/-- `region16_init`. -/
def init : Regions := fun _ => {}

/-- A call, with the allocations it makes. -/
def call (regions : Regions) : Call → Option Regions
  | .unionRect dst src rect => some (Function.update regions dst (unionRect (regions src) rect.1))
  | .intersectRect dst src rect =>
    some (Function.update regions dst (intersectRect (regions src) rect.1))
  | .copy dst src => some (Function.update regions dst (regions src))
  | .clear dst => some (Function.update regions dst {})

end Region16
