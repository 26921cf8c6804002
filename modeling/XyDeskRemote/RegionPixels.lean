/-
# The pixels of a region

A region stands for a set of pixels.  In every run of calls the sets are what set union and
intersection make of them (`exists_run_pixels`); the rectangles never overlap, the extents are
the smallest rectangle around them, and whether a rectangle meets the region is answered as the
set says.

Behind it are the bands: `Draws` says that the rectangles of a region are those of bands from the
top to the bottom, and every function keeps that.
-/
import XyDeskRemote.LabelledRun
import XyDeskRemote.RegionBands
import Mathlib.Data.Set.BooleanAlgebra
import Mathlib.Order.CompletePartialOrder

open Function

namespace Region16

open Spans LabelledRun

/-- The pixels of a rectangle. -/
def Rectangle16.pixels (rect : Rectangle16) : Set (ℕ × ℕ) :=
  {p | (rect.left ≤ p.1 ∧ p.1 < rect.right) ∧ rect.top ≤ p.2 ∧ p.2 < rect.bottom}

/-- The set of pixels that a region stands for. -/
def Region.pixels (region : Region) : Set (ℕ × ℕ) := {p | ∃ r ∈ region.rects, p ∈ r.pixels}

/-- The smallest rectangle around some pixels. -/
structure IsBoundingBox (box : Rectangle16) (pixels : Set (ℕ × ℕ)) : Prop where
  inside : pixels ⊆ box.pixels
  left : ∃ p ∈ pixels, p.1 = box.left
  top : ∃ p ∈ pixels, p.2 = box.top
  right : ∃ p ∈ pixels, p.1 + 1 = box.right
  bottom : ∃ p ∈ pixels, p.2 + 1 = box.bottom

/-- What the header comment calls a region: rectangles that do not overlap, and the extents. -/
structure Region.Sound (region : Region) : Prop where
  nonempty : ∀ r ∈ region.rects, r.isEmpty = false
  disjoint : region.rects.Pairwise fun r r' => Disjoint r.pixels r'.pixels
  extents_empty : region.rects = [] → region.extents = ⟨0, 0, 0, 0⟩
  extents : region.rects ≠ [] → IsBoundingBox region.extents region.pixels

variable {b c : Band} {bands bands' : List Band} {rect box : Rectangle16} {x y : ℕ}

theorem mem_pixels : (x, y) ∈ rect.pixels ↔ rect.cols.Has x ∧ rect.top ≤ y ∧ y < rect.bottom :=
  Iff.rfl

theorem isEmpty_eq_false :
    rect.isEmpty = false ↔ rect.left < rect.right ∧ rect.top < rect.bottom := by
  rw [Rectangle16.isEmpty, Bool.or_eq_false_iff, decide_eq_false_iff_not, decide_eq_false_iff_not,
    not_le, not_le]

/-! ## The pixels of bands -/

/-- The pixel is in the band. -/
def Band.Has (b : Band) (x y : ℕ) : Prop := (b.top ≤ y ∧ y < b.bottom) ∧ Covers b.spans x

/-- The pixel is in one of the bands. -/
def Has (bands : List Band) (x y : ℕ) : Prop := ∃ b ∈ bands, b.Has x y

theorem has_nil : ¬ Has [] x y := fun ⟨_, hmem, _⟩ => List.not_mem_nil hmem

theorem has_cons (b : Band) (bands : List Band) :
    Has (b :: bands) x y ↔ b.Has x y ∨ Has bands x y :=
  List.exists_mem_cons_iff _ b bands

theorem has_append : Has (bands ++ bands') x y ↔ Has bands x y ∨ Has bands' x y := by
  unfold Has
  simp only [List.mem_append, or_and_right, exists_or]

theorem has_singleton : Has [b] x y ↔ b.Has x y := by
  rw [has_cons, or_iff_left has_nil]

theorem exists_mem_rectsOf : (∃ r ∈ rectsOf bands, (x, y) ∈ r.pixels) ↔ Has bands x y := by
  constructor
  · rintro ⟨r, hr, hcols, hrows⟩
    obtain ⟨b, hb, s, hs, rfl⟩ := mem_rectsOf.1 hr
    exact ⟨b, hb, hrows, s, hs, hcols⟩
  · rintro ⟨b, hb, hrows, s, hs, hcols⟩
    exact ⟨item b.top b.bottom s, mem_rectsOf.2 ⟨b, hb, s, hs, rfl⟩, hcols, hrows⟩

theorem Band.Valid.exists_covers (h : b.Valid) : ∃ x, Covers b.spans x := by
  obtain ⟨s, spans, hspans⟩ := List.exists_cons_of_ne_nil h.nonempty
  have hs : s ∈ b.spans := hspans ▸ List.mem_cons_self
  exact ⟨s.lo, s, hs, le_rfl, h.ordered.nonempty s hs⟩

/-! ## Bands that become one -/

theorem has_joinFrom (h : Banded (b :: bands)) :
    Has (joinFrom b bands) x y ↔ Has (b :: bands) x y := by
  induction bands generalizing b with
  | nil => rfl
  | cons c bands ih =>
    obtain ⟨hb, hbefore, hrest⟩ := banded_cons.1 h
    rw [joinFrom]
    split_ifs with hjoin
    · rw [ih h.join, has_cons, has_cons b, has_cons c, ← or_assoc]
      refine or_congr_left ?_
      have hrows := hb.rows
      have hrows' := (banded_cons.1 hrest).1.rows
      unfold Band.Has
      rw [← hjoin.2, ← or_and_right]
      refine and_congr_left fun _ => ?_
      dsimp only
      omega
    · rw [has_cons, ih hrest, ← has_cons]

theorem mem_joinFrom (h : Banded (b :: bands)) (hc : c ∈ joinFrom b bands) : b.top ≤ c.top := by
  induction bands generalizing b with
  | nil => rw [List.mem_singleton.1 hc]
  | cons d bands ih =>
    obtain ⟨hb, hbefore, hrest⟩ := banded_cons.1 h
    rw [joinFrom] at hc
    split_ifs at hc
    · exact ih (b := { b with bottom := d.bottom }) h.join hc
    · rcases List.mem_cons.1 hc with rfl | hc
      · exact le_rfl
      · exact (hb.rows.le.trans (hbefore d List.mem_cons_self)).trans (ih hrest hc)

theorem banded_joinFrom (h : Banded (b :: bands)) : Banded (joinFrom b bands) := by
  induction bands generalizing b with
  | nil => exact h
  | cons d bands ih =>
    obtain ⟨hb, hbefore, hrest⟩ := banded_cons.1 h
    rw [joinFrom]
    split_ifs
    · exact ih h.join
    · exact banded_cons.2 ⟨hb, fun c hc =>
        (hbefore d List.mem_cons_self).trans (mem_joinFrom hrest hc), ih hrest⟩

theorem has_joinBands (h : Banded bands) : Has (joinBands bands) x y ↔ Has bands x y := by
  cases bands with
  | nil => rfl
  | cons b bands => exact has_joinFrom h

theorem banded_joinBands (h : Banded bands) : Banded (joinBands bands) := by
  cases bands with
  | nil => exact h
  | cons b bands => exact banded_joinFrom h

/-! ## A rectangle is united with bands -/

/-- A rectangle with something in it. -/
structure Rectangle16.Nonempty (rect : Rectangle16) : Prop where
  cols : rect.cols.lo < rect.cols.hi
  rows : rect.top < rect.bottom

theorem Area.nonempty (rect : Area) : rect.1.Nonempty :=
  ⟨(isEmpty_eq_false.1 rect.2).1, (isEmpty_eq_false.1 rect.2).2⟩

/-- The rows of a band have the pixels of the rectangle now. -/
theorem has_unite (hb : b.Valid) :
    Has (b.unite rect) x y ↔ b.Has x y ∨ (x, y) ∈ rect.pixels ∧ b.top ≤ y ∧ y < b.bottom := by
  have hrows := hb.rows
  rw [Band.unite, mem_pixels]
  split_ifs with hkeep habove hbelow hbelow
  · rw [has_singleton]
    refine (or_iff_left_of_imp ?_).symm
    rintro ⟨⟨hx, hy⟩, hy'⟩
    rcases hkeep with hout | hout | ⟨-, -, hin⟩
    · omega
    · omega
    · exact ⟨hy', covers_of_contained hin hx⟩
  all_goals
    simp only [Band.Keeps, not_or, not_le] at hkeep
    simp only [has_append, has_singleton, has_nil, Band.Has, covers_merge hb.ordered, max_le_iff,
      lt_min_iff, or_false, false_or]
    by_cases hspans : Covers b.spans x <;> by_cases hcols : rect.cols.Has x <;>
      simp only [hspans, hcols, true_and, and_true, false_and, and_false, or_true, or_false,
        false_or] <;>
      omega

theorem banded_unite (hb : b.Valid) (hrect : rect.Nonempty) :
    Banded (b.unite rect) ∧ ∀ c ∈ b.unite rect, b.top ≤ c.top ∧ c.bottom ≤ b.bottom := by
  have hrows := hb.rows
  rw [Band.unite]
  split
  · exact ⟨banded_singleton.2 hb, List.forall_mem_singleton.2 ⟨le_rfl, le_rfl⟩⟩
  next hkeep =>
    simp only [Band.Keeps, not_or, not_le] at hkeep
    have hmerge : (⟨max b.top rect.top, min b.bottom rect.bottom, merge rect.cols b.spans⟩ :
        Band).Valid := by
      refine ⟨?_, merge_ne_nil _ _, ordered_merge hb.ordered hrect.cols⟩
      exact max_lt_iff.2 ⟨lt_min hrows hkeep.2.1, lt_min hkeep.1 hrect.rows⟩
    have habove : ∀ c ∈ (if rect.top > b.top then [{ b with bottom := rect.top }] else []),
        c.Valid ∧ c.top = b.top ∧ c.bottom = rect.top := by
      split
      next hlt => exact List.forall_mem_singleton.2 ⟨⟨hlt, hb.nonempty, hb.ordered⟩, rfl, rfl⟩
      next => exact List.forall_mem_nil _
    have hbelow : ∀ c ∈ (if rect.bottom < b.bottom then [{ b with top := rect.bottom }] else []),
        c.Valid ∧ c.top = rect.bottom ∧ c.bottom = b.bottom := by
      split
      next hlt => exact List.forall_mem_singleton.2 ⟨⟨hlt, hb.nonempty, hb.ordered⟩, rfl, rfl⟩
      next => exact List.forall_mem_nil _
    have hone : ∀ (p : Prop) [Decidable p] (d : Band),
        (if p then [d] else []).Pairwise fun b c => b.bottom ≤ c.top := by
      intro p _ d
      split
      · exact List.pairwise_singleton _ d
      · exact List.Pairwise.nil
    refine ⟨banded_append.2 ⟨banded_append.2 ⟨⟨fun c hc => (habove c hc).1, hone _ _⟩,
      banded_singleton.2 hmerge, ?_⟩, ⟨fun c hc => (hbelow c hc).1, hone _ _⟩, ?_⟩, ?_⟩
    · intro c hc d hd
      rw [List.mem_singleton.1 hd, (habove c hc).2.2]
      exact le_max_right _ _
    · intro c hc d hd
      rw [(hbelow d hd).2.1]
      rcases List.mem_append.1 hc with hc | hc
      · rw [(habove c hc).2.2]
        exact hrect.rows.le
      · rw [List.mem_singleton.1 hc]
        exact min_le_right _ _
    · intro c hc
      rcases List.mem_append.1 hc with hc | hc
      · rcases List.mem_append.1 hc with hc | hc
        · rw [(habove c hc).2.1, (habove c hc).2.2]
          exact ⟨le_rfl, hkeep.1.le⟩
        · rw [List.mem_singleton.1 hc]
          exact ⟨le_max_left _ _, min_le_left _ _⟩
      · rw [(hbelow c hc).2.1, (hbelow c hc).2.2]
        exact ⟨hkeep.2.1.le, le_rfl⟩

/-- Where the last band ends. -/
def bottomOf (b : Band) : List Band → ℕ
  | [] => b.bottom
  | c :: bands => bottomOf c bands

theorem bottom_le_bottomOf (h : Banded (b :: bands)) :
    ∀ c ∈ b :: bands, c.bottom ≤ bottomOf b bands := by
  induction bands generalizing b with
  | nil => exact List.forall_mem_singleton.2 le_rfl
  | cons d bands ih =>
    obtain ⟨hb, hbefore, hrest⟩ := banded_cons.1 h
    have hd := (banded_cons.1 hrest).1.rows
    have hlast := ih hrest d List.mem_cons_self
    have hfirst := hbefore d List.mem_cons_self
    exact List.forall_mem_cons.2 ⟨by rw [bottomOf]; omega, ih hrest⟩

theorem exists_bottom_eq (b : Band) (bands : List Band) :
    ∃ c ∈ b :: bands, c.bottom = bottomOf b bands := by
  induction bands generalizing b with
  | nil => exact ⟨b, List.mem_singleton_self b, rfl⟩
  | cons d bands ih =>
    obtain ⟨c, hc, hbottom⟩ := ih d
    exact ⟨c, List.mem_cons_of_mem b hc, hbottom⟩

theorem has_piece {T B : ℕ} :
    (⟨T, B, [rect.cols]⟩ : Band).Has x y ↔ (T ≤ y ∧ y < B) ∧ rect.cols.Has x := by
  rw [Band.Has, covers_cons, or_iff_left covers_nil]

theorem valid_piece {T B : ℕ} (hrect : rect.Nonempty) (h : T < B) :
    (⟨T, B, [rect.cols]⟩ : Band).Valid :=
  ⟨h, List.cons_ne_nil _ _, ordered_singleton hrect.cols⟩

theorem has_between :
    Has (b.between rect (c :: bands)) x y ↔
      (x, y) ∈ rect.pixels ∧ b.bottom ≤ y ∧ y < c.top := by
  rw [Band.between, mem_pixels]
  split
  · rw [has_singleton, has_piece, max_le_iff, lt_min_iff]
    by_cases hcols : rect.cols.Has x <;>
      simp only [hcols, true_and, and_true, false_and, and_false]
    omega
  next hnone =>
    refine iff_of_false has_nil fun h => ?_
    omega

theorem valid_between (bands : List Band) (hrect : rect.Nonempty) (hbefore : b.bottom ≤ c.top) :
    Banded (b.between rect (c :: bands)) ∧
      ∀ d ∈ b.between rect (c :: bands), b.bottom ≤ d.top ∧ d.bottom ≤ c.top := by
  have hrows := hrect.rows
  rw [Band.between]
  split
  next hpiece =>
    refine ⟨banded_singleton.2 (valid_piece hrect ?_), List.forall_mem_singleton.2
      ⟨le_max_left _ _, min_le_left _ _⟩⟩
    rw [max_lt_iff, lt_min_iff, lt_min_iff]
    omega
  next => exact ⟨banded_nil, List.forall_mem_nil _⟩

/-- From the first band to the last one, there are the pixels of the rectangle now. -/
theorem has_uniteBands (h : Banded (b :: bands)) :
    Has (uniteBands rect (b :: bands)) x y ↔ Has (b :: bands) x y ∨
      (x, y) ∈ rect.pixels ∧ b.top ≤ y ∧ y < bottomOf b bands := by
  induction bands generalizing b with
  | nil =>
    rw [uniteBands, uniteBands, List.append_nil, has_append, Band.between, or_iff_left has_nil,
      has_unite (banded_cons.1 h).1, has_singleton, bottomOf]
  | cons c bands ih =>
    obtain ⟨hb, hbefore, hrest⟩ := banded_cons.1 h
    have hrows := hb.rows
    have hnext := hbefore c List.mem_cons_self
    have hrows' := (banded_cons.1 hrest).1.rows
    have hlast := bottom_le_bottomOf hrest c List.mem_cons_self
    rw [uniteBands, has_append, has_append, has_unite hb, has_between, ih hrest, has_cons b,
      bottomOf]
    by_cases hrect : (x, y) ∈ rect.pixels
    · simp only [hrect, true_and]
      by_cases hb : b.Has x y <;> by_cases hc : Has (c :: bands) x y <;>
        simp only [hb, hc, true_or, or_true, false_or]
      omega
    · simp only [hrect, false_and, or_false]

theorem banded_uniteBands (h : Banded (b :: bands)) (hrect : rect.Nonempty) :
    Banded (uniteBands rect (b :: bands)) ∧
      ∀ c ∈ uniteBands rect (b :: bands), b.top ≤ c.top ∧ c.bottom ≤ bottomOf b bands := by
  induction bands generalizing b with
  | nil =>
    obtain ⟨hunite, hinside⟩ := banded_unite (banded_cons.1 h).1 hrect
    rw [uniteBands, uniteBands, List.append_nil, Band.between, List.append_nil, bottomOf]
    exact ⟨hunite, hinside⟩
  | cons c bands ih =>
    obtain ⟨hb, hbefore, hrest⟩ := banded_cons.1 h
    have hrows := hb.rows
    have hnext := hbefore c List.mem_cons_self
    have hrows' := (banded_cons.1 hrest).1.rows
    have hlast := bottom_le_bottomOf hrest c List.mem_cons_self
    obtain ⟨hunite, hinside⟩ := banded_unite hb hrect
    obtain ⟨hbetween, hgap⟩ := valid_between bands hrect hnext
    obtain ⟨hlater, hbelow⟩ := ih hrest
    rw [uniteBands, bottomOf]
    refine ⟨banded_append.2 ⟨banded_append.2 ⟨hunite, hbetween, ?_⟩, hlater, ?_⟩, ?_⟩
    · exact fun d hd e he => (hinside d hd).2.trans (hgap e he).1
    · intro d hd e he
      rcases List.mem_append.1 hd with hd | hd
      · exact ((hinside d hd).2.trans hnext).trans (hbelow e he).1
      · exact (hgap d hd).2.trans (hbelow e he).1
    · intro d hd
      rcases List.mem_append.1 hd with hd | hd
      · rcases List.mem_append.1 hd with hd | hd
        · have := hinside d hd
          omega
        · have := hgap d hd
          omega
      · have := hbelow d hd
        omega

/-- The bands, the rectangle above them, among them and below them. -/
def unitedBands (rect extents : Rectangle16) (bands : List Band) : List Band :=
  (if rect.top < extents.top then [⟨rect.top, min extents.top rect.bottom, [rect.cols]⟩]
    else []) ++
    uniteBands rect bands ++
    if extents.bottom < rect.bottom then
      [⟨max extents.bottom rect.top, rect.bottom, [rect.cols]⟩]
    else []

theorem has_unitedBands (h : Banded (b :: bands)) (htop : box.top = b.top)
    (hbottom : box.bottom = bottomOf b bands) :
    Has (unitedBands rect box (b :: bands)) x y ↔
      Has (b :: bands) x y ∨ (x, y) ∈ rect.pixels := by
  have habove : Has (if rect.top < box.top then
      [⟨rect.top, min box.top rect.bottom, [rect.cols]⟩] else []) x y ↔
        (x, y) ∈ rect.pixels ∧ y < b.top := by
    rw [mem_pixels]
    split
    · rw [has_singleton, has_piece, lt_min_iff, htop]
      by_cases hcols : rect.cols.Has x <;>
        simp only [hcols, true_and, and_true, false_and, and_false]
      omega
    next => exact iff_of_false has_nil fun h => by omega
  have hbelow : Has (if box.bottom < rect.bottom then
      [⟨max box.bottom rect.top, rect.bottom, [rect.cols]⟩] else []) x y ↔
        (x, y) ∈ rect.pixels ∧ bottomOf b bands ≤ y := by
    rw [mem_pixels]
    split
    · rw [has_singleton, has_piece, max_le_iff, hbottom]
      by_cases hcols : rect.cols.Has x <;>
        simp only [hcols, true_and, and_true, false_and, and_false]
      omega
    next => exact iff_of_false has_nil fun h => by omega
  rw [unitedBands, has_append, has_append, habove, hbelow, has_uniteBands h]
  by_cases hrect : (x, y) ∈ rect.pixels
  · simp only [hrect, true_and, or_true, iff_true]
    omega
  · simp only [hrect, false_and, or_false, false_or]

theorem banded_unitedBands (h : Banded (b :: bands)) (hrect : rect.Nonempty)
    (htop : box.top = b.top) (hbottom : box.bottom = bottomOf b bands) :
    Banded (unitedBands rect box (b :: bands)) := by
  obtain ⟨hunited, hinside⟩ := banded_uniteBands h hrect
  have hrows := hrect.rows
  have hfirst := (banded_cons.1 h).1.rows
  have hlast := bottom_le_bottomOf h b List.mem_cons_self
  have habove : ∀ c ∈ (if rect.top < box.top then
      [(⟨rect.top, min box.top rect.bottom, [rect.cols]⟩ : Band)] else []),
        c.Valid ∧ c.bottom ≤ b.top := by
    split
    next hlt =>
      exact List.forall_mem_singleton.2 ⟨valid_piece hrect (lt_min hlt hrows),
        (min_le_left _ _).trans htop.le⟩
    next => exact List.forall_mem_nil _
  have hbelow : ∀ c ∈ (if box.bottom < rect.bottom then
      [(⟨max box.bottom rect.top, rect.bottom, [rect.cols]⟩ : Band)] else []),
        c.Valid ∧ bottomOf b bands ≤ c.top := by
    split
    next hlt =>
      exact List.forall_mem_singleton.2 ⟨valid_piece hrect (max_lt hlt hrows),
        hbottom.ge.trans (le_max_left _ _)⟩
    next => exact List.forall_mem_nil _
  have hone : ∀ (p : Prop) [Decidable p] (d : Band),
      (if p then [d] else []).Pairwise fun b c => b.bottom ≤ c.top := by
    intro p _ d
    split
    · exact List.pairwise_singleton _ d
    · exact List.Pairwise.nil
  rw [unitedBands]
  refine banded_append.2 ⟨banded_append.2 ⟨⟨fun c hc => (habove c hc).1, hone _ _⟩, hunited, ?_⟩,
    ⟨fun c hc => (hbelow c hc).1, hone _ _⟩, ?_⟩
  · exact fun c hc d hd => (habove c hc).2.trans (hinside d hd).1
  · intro c hc d hd
    rcases List.mem_append.1 hc with hc | hc
    · have hc' := (habove c hc).2
      have hd' := (hbelow d hd).2
      omega
    · exact (hinside c hc).2.trans (hbelow d hd).2

/-! ## What lies in a rectangle -/

theorem has_clipBands :
    Has (clipBands rect bands) x y ↔ Has bands x y ∧ (x, y) ∈ rect.pixels := by
  have hclip : ∀ b : Band, (b.clip rect).Has x y ↔ b.Has x y ∧ (x, y) ∈ rect.pixels := by
    intro b
    rw [Band.Has, Band.Has, Band.clip, mem_pixels, covers_clip, max_le_iff, lt_min_iff]
    tauto
  constructor
  · rintro ⟨c, hc, hhas⟩
    obtain ⟨b, hb, rfl⟩ := List.mem_map.1 (List.mem_of_mem_filter hc)
    obtain ⟨hhas, hrect⟩ := (hclip b).1 hhas
    exact ⟨⟨b, hb, hhas⟩, hrect⟩
  · rintro ⟨⟨b, hb, hhas⟩, hrect⟩
    have hboth := (hclip b).2 ⟨hhas, hrect⟩
    refine ⟨b.clip rect, List.mem_filter.2 ⟨List.mem_map_of_mem hb, ?_⟩, hboth⟩
    refine decide_eq_true ⟨hboth.1.1.trans_lt hboth.1.2, fun hnil => ?_⟩
    obtain ⟨s, hs, -⟩ := hboth.2
    exact List.not_mem_nil (hnil ▸ hs)

theorem banded_clipBands (h : Banded bands) : Banded (clipBands rect bands) := by
  constructor
  · intro c hc
    obtain ⟨hmem, hcut⟩ := List.mem_filter.1 hc
    obtain ⟨b, hb, rfl⟩ := List.mem_map.1 hmem
    obtain ⟨hrows, hspans⟩ := decide_eq_true_iff.1 hcut
    exact ⟨hrows, hspans, ordered_clip (h.valid b hb).ordered⟩
  · refine (List.Pairwise.filter _ (List.pairwise_map.2 (h.pairwise.imp fun hbefore => ?_)))
    exact ((min_le_left _ _).trans hbefore).trans (le_max_left _ _)

theorem mem_inter {r : Rectangle16} : (x, y) ∈ (rectanglesIntersection r rect).1.pixels ↔
    (x, y) ∈ r.pixels ∧ (x, y) ∈ rect.pixels := by
  have hcols : (rectanglesIntersection r rect).1.cols = r.cols.inter rect.cols := rfl
  have hrows : ∀ r' : Rectangle16, r' = (rectanglesIntersection r rect).1 →
      (r'.top ≤ y ∧ y < r'.bottom ↔
        (r.top ≤ y ∧ rect.top ≤ y) ∧ y < r.bottom ∧ y < rect.bottom) := by
    rintro r' rfl
    exact and_congr max_le_iff lt_min_iff
  rw [mem_pixels, hrows _ rfl, hcols, Span.has_inter, mem_pixels, mem_pixels]
  tauto

theorem rectanglesIntersection_eq_true {r : Rectangle16} :
    (rectanglesIntersection r rect).2 = true ↔ (rectanglesIntersection r rect).1.Nonempty := by
  unfold rectanglesIntersection
  rw [Bool.and_eq_true, decide_eq_true_iff, decide_eq_true_iff]
  exact ⟨fun h => ⟨h.1, h.2⟩, fun h => ⟨h.cols, h.rows⟩⟩

theorem Rectangle16.Nonempty.corner (h : rect.Nonempty) : (rect.left, rect.top) ∈ rect.pixels :=
  ⟨⟨le_rfl, h.cols⟩, le_rfl, h.rows⟩

theorem nonempty_of_mem (h : (x, y) ∈ rect.pixels) : rect.Nonempty :=
  ⟨h.1.1.trans_lt h.1.2, h.2.1.trans_lt h.2.2⟩

theorem rectanglesIntersects_iff {r : Rectangle16} :
    rectanglesIntersects r rect = true ↔ (r.pixels ∩ rect.pixels).Nonempty := by
  rw [rectanglesIntersects, rectanglesIntersection_eq_true]
  constructor
  · exact fun h => ⟨_, mem_inter.1 h.corner⟩
  · rintro ⟨⟨x, y⟩, hboth⟩
    exact nonempty_of_mem (mem_inter.2 hboth)

/-! ## The rectangle around pixels -/

section Box

variable {r r' : Rectangle16} {pixels pixels' : Set (ℕ × ℕ)}

theorem isBoundingBox_pixels (h : rect.Nonempty) : IsBoundingBox rect rect.pixels := by
  have hcols : rect.left < rect.right := h.cols
  have hrows := h.rows
  refine ⟨subset_rfl, ⟨_, h.corner, rfl⟩, ⟨_, h.corner, rfl⟩, ⟨(rect.right - 1, rect.top), ?_, ?_⟩,
    ⟨(rect.left, rect.bottom - 1), ?_, ?_⟩⟩
  · exact ⟨⟨Nat.le_sub_one_of_lt hcols, Nat.sub_lt (by omega) Nat.one_pos⟩, le_rfl, hrows⟩
  · exact Nat.sub_add_cancel (by omega)
  · exact ⟨⟨le_rfl, hcols⟩, Nat.le_sub_one_of_lt hrows, Nat.sub_lt (by omega) Nat.one_pos⟩
  · exact Nat.sub_add_cancel (by omega)

/-- There is only one smallest rectangle. -/
theorem IsBoundingBox.unique (h : IsBoundingBox r pixels) (h' : IsBoundingBox r' pixels) :
    r = r' := by
  have hle : ∀ {r r'}, IsBoundingBox r pixels → IsBoundingBox r' pixels →
      r'.left ≤ r.left ∧ r'.top ≤ r.top ∧ r.right ≤ r'.right ∧ r.bottom ≤ r'.bottom := by
    intro r r' h h'
    obtain ⟨p, hp, hleft⟩ := h.left
    obtain ⟨q, hq, htop⟩ := h.top
    obtain ⟨s, hs, hright⟩ := h.right
    obtain ⟨t, ht, hbottom⟩ := h.bottom
    exact ⟨hleft ▸ (h'.inside hp).1.1, htop ▸ (h'.inside hq).2.1, hright ▸ (h'.inside hs).1.2,
      hbottom ▸ (h'.inside ht).2.2⟩
  have hfst := hle h h'
  have hsnd := hle h' h
  cases r
  cases r'
  rw [Rectangle16.mk.injEq]
  dsimp only at hfst hsnd
  omega

/-- The rectangle around two sets of pixels. -/
theorem IsBoundingBox.hull (h : IsBoundingBox r pixels) (h' : IsBoundingBox r' pixels') :
    IsBoundingBox (r.hull r') (pixels ∪ pixels') := by
  have hmin : ∀ {a b : ℕ} {f : ℕ × ℕ → ℕ}, (∃ p ∈ pixels, f p = a) → (∃ p ∈ pixels', f p = b) →
      ∃ p ∈ pixels ∪ pixels', f p = min a b := by
    rintro a b f ⟨p, hp, rfl⟩ ⟨q, hq, rfl⟩
    rcases min_choice (f p) (f q) with hmin | hmin
    · exact ⟨p, Or.inl hp, hmin.symm⟩
    · exact ⟨q, Or.inr hq, hmin.symm⟩
  have hmax : ∀ {a b : ℕ} {f : ℕ × ℕ → ℕ}, (∃ p ∈ pixels, f p = a) → (∃ p ∈ pixels', f p = b) →
      ∃ p ∈ pixels ∪ pixels', f p = max a b := by
    rintro a b f ⟨p, hp, rfl⟩ ⟨q, hq, rfl⟩
    rcases max_choice (f p) (f q) with hmax | hmax
    · exact ⟨p, Or.inl hp, hmax.symm⟩
    · exact ⟨q, Or.inr hq, hmax.symm⟩
  refine ⟨?_, hmin h.left h'.left, hmin h.top h'.top, hmax h.right h'.right,
    hmax h.bottom h'.bottom⟩
  rintro p (hp | hp)
  · obtain ⟨⟨hl, hr⟩, ht, hb⟩ := h.inside hp
    exact ⟨⟨(min_le_left _ _).trans hl, hr.trans_le (le_max_left _ _)⟩,
      (min_le_left _ _).trans ht, hb.trans_le (le_max_left _ _)⟩
  · obtain ⟨⟨hl, hr⟩, ht, hb⟩ := h'.inside hp
    exact ⟨⟨(min_le_right _ _).trans hl, hr.trans_le (le_max_right _ _)⟩,
      (min_le_right _ _).trans ht, hb.trans_le (le_max_right _ _)⟩

theorem IsBoundingBox.nonempty (h : IsBoundingBox r pixels) : r.Nonempty := by
  obtain ⟨⟨x, y⟩, hp, -⟩ := h.left
  exact nonempty_of_mem (h.inside hp)

/-- The first row and the last one, as the bands have them. -/
theorem IsBoundingBox.rows (h : IsBoundingBox r {p | Has (b :: bands) p.1 p.2})
    (hbands : Banded (b :: bands)) : r.top = b.top ∧ r.bottom = bottomOf b bands := by
  have hedge : ∀ c ∈ b :: bands, b.top ≤ c.top ∧ c.bottom ≤ bottomOf b bands := by
    intro c hc
    refine ⟨?_, bottom_le_bottomOf hbands c hc⟩
    rcases List.mem_cons.1 hc with rfl | hc
    · exact le_rfl
    · obtain ⟨hb, hbefore, -⟩ := banded_cons.1 hbands
      exact hb.rows.le.trans (hbefore c hc)
  obtain ⟨p, ⟨c, hc, hp⟩, htop⟩ := h.top
  obtain ⟨q, ⟨d, hd, hq⟩, hbottom⟩ := h.bottom
  obtain ⟨e, he, hlast⟩ := exists_bottom_eq b bands
  have hb := hbands.valid b List.mem_cons_self
  have he' := hbands.valid e he
  obtain ⟨x, hx⟩ := hb.exists_covers
  obtain ⟨x', hx'⟩ := he'.exists_covers
  have hrows := hb.rows
  have hrows' := he'.rows
  have hfirst := h.inside (show (x, b.top) ∈ _ from
    ⟨b, List.mem_cons_self, ⟨le_rfl, hrows⟩, hx⟩)
  have hlast' := h.inside (show (x', e.bottom - 1) ∈ _ from
    ⟨e, he, ⟨Nat.le_sub_one_of_lt hrows', Nat.sub_lt (by omega) Nat.one_pos⟩, hx'⟩)
  have hctop := (hedge c hc).1
  have hdbottom := (hedge d hd).2
  have hprow := hp.1
  have hqrow := hq.1
  have hrow := hfirst.2.1
  have hrow' := hlast'.2.2
  dsimp only at hrow hrow'
  omega

end Box

/-! ## The functions -/

/-- The rectangles of the region are those of the bands, and the extents lie around them. -/
structure Draws (region : Region) (bands : List Band) : Prop where
  rects : region.rects = rectsOf bands
  banded : Banded bands
  extents_empty : bands = [] → region.extents = ⟨0, 0, 0, 0⟩
  extents : bands ≠ [] → IsBoundingBox region.extents region.pixels

variable {region src : Region}

theorem Banded.rectsOf_eq_nil (h : Banded bands) : rectsOf bands = [] ↔ bands = [] := by
  constructor
  · intro hnil
    cases bands with
    | nil => rfl
    | cons b bands =>
      obtain ⟨s, spans, -, hitems⟩ := (h.valid b List.mem_cons_self).items_eq
      rw [rectsOf_cons, hitems] at hnil
      exact absurd hnil (List.cons_ne_nil _ _)
  · rintro rfl
    rfl

theorem Region.pixels_eq (h : region.rects = rectsOf bands) :
    region.pixels = {p | Has bands p.1 p.2} := by
  ext ⟨x, y⟩
  refine Iff.trans ?_ exists_mem_rectsOf
  rw [← h]
  rfl

theorem draws_empty : Draws {} [] :=
  ⟨rfl, banded_nil, fun _ => rfl, fun hne => absurd rfl hne⟩

theorem Draws.extents_eq {r : Rectangle16} (h : Draws region bands) (hr : region.rects = [r]) :
    region.extents = r := by
  have hne : bands ≠ [] := by
    rintro rfl
    exact absurd (hr.symm.trans h.rects) (List.cons_ne_nil _ _)
  have hpixels : region.pixels = r.pixels := by
    ext p
    rw [Region.pixels, hr]
    exact ⟨fun ⟨r', hr', hp⟩ => List.mem_singleton.1 hr' ▸ hp,
      fun hp => ⟨r, List.mem_singleton_self r, hp⟩⟩
  have hbox := h.extents hne
  rw [hpixels] at hbox
  obtain ⟨⟨x, y⟩, hp, -⟩ := hbox.left
  exact hbox.unique (isBoundingBox_pixels (nonempty_of_mem hp))

/-- The bands of a region and a rectangle. -/
def unionOf (rect extents : Rectangle16) : List Band → List Band
  | [] => [⟨rect.top, rect.bottom, [rect.cols]⟩]
  | b :: bands => joinBands (unitedBands rect extents (b :: bands))

/-- The united bands are in order, above all of the region and below it. -/
theorem Draws.banded_united (h : Draws src bands) (hne : bands ≠ []) (hrect : rect.Nonempty) :
    Banded (unitedBands rect src.extents bands) := by
  obtain ⟨b, bands, rfl⟩ := List.exists_cons_of_ne_nil hne
  have hbox := h.extents hne
  rw [Region.pixels_eq h.rects] at hbox
  obtain ⟨htop, hbottom⟩ := hbox.rows h.banded
  exact banded_unitedBands h.banded hrect htop hbottom

theorem rectsOf_pieces (p : Prop) [Decidable p] (T B : ℕ) :
    rectsOf (if p then [⟨T, B, [rect.cols]⟩] else []) =
      if p then [{ rect with top := T, bottom := B }] else [] := by
  split
  · rw [rectsOf_singleton]
    rfl
  · rfl

/-- **The union is drawn**, with the pixels of both. -/
theorem draws_unionRect (h : Draws src bands) (hrect : rect.Nonempty) :
    Draws (unionRect src rect) (unionOf rect src.extents bands) ∧
      (unionRect src rect).pixels = src.pixels ∪ rect.pixels := by
  cases bands with
  | nil =>
    have hnil : src.rects = [] := h.rects
    have hunion : unionRect src rect = { extents := rect, rects := [rect] } := by
      rw [unionRect, hnil]
    have hpixels : (unionRect src rect).pixels = rect.pixels := by
      ext p
      rw [hunion]
      exact ⟨fun ⟨r, hr, hp⟩ => List.mem_singleton.1 hr ▸ hp,
        fun hp => ⟨rect, List.mem_singleton_self rect, hp⟩⟩
    have hnone : src.pixels = ∅ := by
      rw [Region.pixels_eq h.rects]
      exact Set.eq_empty_of_forall_notMem fun _ => has_nil
    refine ⟨⟨?_, banded_singleton.2 (valid_piece hrect hrect.rows),
      fun hnil => absurd hnil (List.cons_ne_nil _ _), fun _ => ?_⟩, ?_⟩
    · rw [hunion, unionOf, rectsOf_singleton]
      rfl
    · rw [hpixels, hunion]
      exact isBoundingBox_pixels hrect
    · rw [hpixels, hnone, Set.empty_union]
  | cons b bands =>
    have hbox := h.extents (List.cons_ne_nil _ _)
    have hboxb := hbox
    rw [Region.pixels_eq h.rects] at hboxb
    obtain ⟨htop, hbottom⟩ := hboxb.rows h.banded
    have hbanded := h.banded_united (List.cons_ne_nil _ _) hrect
    have hne : src.rects ≠ [] := by
      rw [h.rects]
      exact h.banded.rectsOf_eq_nil.not.2 (List.cons_ne_nil _ _)
    have hunion : unionRect src rect =
        { extents := rect.hull src.extents
          rects := rectsOf (joinBands (unitedBands rect src.extents (b :: bands))) } := by
      rw [unionRect]
      split
      next hnil => exact absurd hnil hne
      next =>
        rw [← simplifyBands_rectsOf hbanded, unitedBands, rectsOf_append, rectsOf_append,
          rectsOf_pieces, rectsOf_pieces, ← unionBands_rectsOf h.banded, h.rects]
    have hpixels : (unionRect src rect).pixels = src.pixels ∪ rect.pixels := by
      rw [Region.pixels_eq h.rects, Region.pixels_eq (congrArg Region.rects hunion)]
      ext ⟨x, y⟩
      exact (has_joinBands hbanded).trans (has_unitedBands h.banded htop hbottom)
    refine ⟨⟨congrArg Region.rects hunion, banded_joinBands hbanded, fun hnil => ?_,
      fun _ => ?_⟩, hpixels⟩
    · -- there is something in the union
      obtain ⟨p, hp, -⟩ := hbox.left
      have hmem : p ∈ (unionRect src rect).pixels := hpixels ▸ Or.inl hp
      rw [Region.pixels_eq (congrArg Region.rects hunion)] at hmem
      exact absurd (show Has [] p.1 p.2 from hnil ▸ hmem) has_nil
    · rw [hpixels, hunion, Set.union_comm]
      exact (isBoundingBox_pixels hrect).hull hbox

/-- The rectangles that are written of the intersection. -/
def commons (src : Region) (rect : Rectangle16) : List Rectangle16 :=
  (src.rects.takeWhile fun r => rect.bottom > r.top).filterMap (common rect)

/-- One rectangle is treated like several, as it is the extents. -/
theorem intersectRect_eq (hone : ∀ r, src.rects = [r] → src.extents = r) :
    intersectRect src rect =
      { extents := (commons src rect).foldl growExtents ⟨0, 0, 0, 0⟩
        rects := simplifyBands (commons src rect) } := by
  unfold intersectRect commons
  split
  next hnil =>
    rw [hnil]
    rfl
  next r hr =>
    rw [hr, hone r hr]
    dsimp only
    by_cases hrow : rect.bottom > r.top
    · rw [List.takeWhile_cons, if_pos (decide_eq_true hrow), List.takeWhile_nil,
        List.filterMap_cons, List.filterMap_nil, common]
      split
      · rfl
      · rfl
    · have hnone : (rectanglesIntersection r rect).2 = false := by
        rw [Bool.eq_false_iff]
        intro hmeet
        have hrows := (rectanglesIntersection_eq_true.1 hmeet).rows
        have hmax : r.top ≤ (rectanglesIntersection r rect).1.top := le_max_left _ _
        have hmin : (rectanglesIntersection r rect).1.bottom ≤ rect.bottom := min_le_right _ _
        omega
      rw [hnone, if_neg Bool.false_ne_true, List.takeWhile_cons,
        if_neg (by rwa [decide_eq_true_iff])]
      rfl
  next => rfl

/-- The extents of the intersection grow with the rectangles that are written. -/
theorem foldl_growExtents {pixels : Set (ℕ × ℕ)} (rects : List Rectangle16)
    (hrects : ∀ r ∈ rects, r.Nonempty) (hbox : IsBoundingBox box pixels) :
    IsBoundingBox (rects.foldl growExtents box) (pixels ∪ {p | ∃ r ∈ rects, p ∈ r.pixels}) := by
  induction rects generalizing box pixels with
  | nil =>
    have hnone : {p : ℕ × ℕ | ∃ r ∈ ([] : List Rectangle16), p ∈ r.pixels} = ∅ :=
      Set.eq_empty_of_forall_notMem fun _ ⟨_, hr, _⟩ => List.not_mem_nil hr
    rw [hnone, Set.union_empty]
    exact hbox
  | cons r rects ih =>
    obtain ⟨hr, hrest⟩ := List.forall_mem_cons.1 hrects
    have hgrow : growExtents box r = r.hull box := by
      rw [growExtents, isEmpty_eq_false.2 ⟨hbox.nonempty.cols, hbox.nonempty.rows⟩]
      rfl
    have hall : pixels ∪ {p | ∃ r' ∈ r :: rects, p ∈ r'.pixels} =
        (r.pixels ∪ pixels) ∪ {p | ∃ r' ∈ rects, p ∈ r'.pixels} := by
      ext p
      have hcons : (∃ r' ∈ r :: rects, p ∈ r'.pixels) ↔
          p ∈ r.pixels ∨ ∃ r' ∈ rects, p ∈ r'.pixels := List.exists_mem_cons_iff _ _ _
      exact (or_congr_right hcons).trans (or_left_comm.trans or_assoc.symm)
    rw [List.foldl_cons, hgrow, hall]
    exact ih hrest ((isBoundingBox_pixels hr).hull hbox)

/-- **The intersection is drawn**, with the pixels that are in both. -/
theorem draws_intersectRect (rect : Rectangle16) (h : Draws src bands) :
    Draws (intersectRect src rect) (joinBands (clipBands rect bands)) ∧
      (intersectRect src rect).pixels = src.pixels ∩ rect.pixels := by
  have hclip : Banded (clipBands rect bands) := banded_clipBands h.banded
  have hcommons : commons src rect = rectsOf (clipBands rect bands) := by
    rw [commons, h.rects, commons_rectsOf h.banded]
  have hone : ∀ r, src.rects = [r] → src.extents = r := fun _ => h.extents_eq
  have hrects : (intersectRect src rect).rects = rectsOf (joinBands (clipBands rect bands)) := by
    rw [intersectRect_eq hone, hcommons, simplifyBands_rectsOf hclip]
  have hpixels : (intersectRect src rect).pixels = {p | Has (clipBands rect bands) p.1 p.2} := by
    rw [Region.pixels_eq hrects]
    ext p
    exact has_joinBands hclip
  refine ⟨⟨hrects, banded_joinBands hclip, fun hnil => ?_, fun hne => ?_⟩, ?_⟩
  · have hnone : clipBands rect bands = [] := by
      cases hbands : clipBands rect bands with
      | nil => rfl
      | cons b rest =>
        rw [hbands] at hclip hnil
        obtain ⟨x, hx⟩ := (hclip.valid b List.mem_cons_self).exists_covers
        have hhas : Has (joinBands (b :: rest)) x b.top := (has_joinBands hclip).2
          ⟨b, List.mem_cons_self, ⟨le_rfl, (hclip.valid b List.mem_cons_self).rows⟩, hx⟩
        exact absurd (hnil ▸ hhas) has_nil
    rw [intersectRect_eq hone, hcommons, hnone]
    rfl
  · rw [hpixels, intersectRect_eq hone, hcommons]
    have hnonempty : ∀ r ∈ rectsOf (clipBands rect bands), r.Nonempty := by
      intro r hr
      obtain ⟨b, hb, s, hs, rfl⟩ := mem_rectsOf.1 hr
      exact ⟨(hclip.valid b hb).ordered.nonempty s hs, (hclip.valid b hb).rows⟩
    have hall : {p | Has (clipBands rect bands) p.1 p.2} =
        {p | ∃ r ∈ rectsOf (clipBands rect bands), p ∈ r.pixels} := by
      ext p
      exact exists_mem_rectsOf.symm
    rw [hall]
    cases hlist : rectsOf (clipBands rect bands) with
    | nil =>
      rw [hclip.rectsOf_eq_nil.1 hlist] at hne
      exact absurd rfl hne
    | cons r rest =>
      rw [hlist] at hnonempty
      obtain ⟨hr, hrest⟩ := List.forall_mem_cons.1 hnonempty
      have hcons : {p | ∃ r' ∈ r :: rest, p ∈ r'.pixels} =
          r.pixels ∪ {p | ∃ r' ∈ rest, p ∈ r'.pixels} := by
        ext p
        exact List.exists_mem_cons_iff _ _ _
      rw [hcons]
      exact foldl_growExtents rest hrest (isBoundingBox_pixels hr)
  · rw [hpixels, Region.pixels_eq h.rects]
    ext ⟨x, y⟩
    exact has_clipBands

/-- **A rectangle meets a region** when there is a pixel in both. -/
theorem intersectsRect_iff (h : Draws region bands) (rect : Rectangle16) :
    intersectsRect region rect = true ↔ (region.pixels ∩ rect.pixels).Nonempty := by
  have hmeets : (region.pixels ∩ rect.pixels).Nonempty ↔
      ∃ r ∈ region.rects, rectanglesIntersects r rect = true := by
    simp only [rectanglesIntersects_iff]
    exact ⟨fun ⟨p, ⟨r, hr, hp⟩, hp'⟩ => ⟨r, hr, p, hp, hp'⟩,
      fun ⟨r, hr, p, hp, hp'⟩ => ⟨p, ⟨r, hr, hp⟩, hp'⟩⟩
  have hextents : (∃ r ∈ region.rects, rectanglesIntersects r rect = true) →
      rectanglesIntersects region.extents rect = true := by
    intro hmeet
    obtain ⟨p, hp, hp'⟩ := hmeets.2 hmeet
    have hne : bands ≠ [] := by
      rintro rfl
      obtain ⟨r, hr, -⟩ := hmeet
      rw [h.rects] at hr
      exact List.not_mem_nil hr
    exact rectanglesIntersects_iff.2 ⟨p, (h.extents hne).inside hp, hp'⟩
  rw [hmeets, intersectsRect]
  split
  next hnil =>
    rw [hnil]
    exact iff_of_false Bool.false_ne_true fun ⟨_, hr, _⟩ => List.not_mem_nil hr
  next r hr =>
    refine ⟨fun hbox => ?_, hextents⟩
    rw [h.extents_eq hr] at hbox
    rw [hr]
    exact ⟨r, List.mem_singleton_self r, hbox⟩
  next =>
    have hsorted : region.rects.Pairwise fun r r' => r.top ≤ r'.top := by
      rw [h.rects]
      exact h.banded.pairwise_top
    rw [takeWhile_eq_filter hsorted, Bool.and_eq_true, List.any_eq_true]
    constructor
    · rintro ⟨-, r, hr, hmeet⟩
      exact ⟨r, List.mem_of_mem_filter hr, hmeet⟩
    · rintro ⟨r, hr, hmeet⟩
      refine ⟨hextents ⟨r, hr, hmeet⟩, r, List.mem_filter.2 ⟨hr, ?_⟩, hmeet⟩
      obtain ⟨p, hp, hp'⟩ := rectanglesIntersects_iff.1 hmeet
      exact decide_eq_true (hp.2.1.trans_lt hp'.2.2)

theorem Draws.sound (h : Draws region bands) : region.Sound := by
  refine ⟨?_, ?_, ?_, ?_⟩
  · intro r hr
    rw [h.rects] at hr
    obtain ⟨b, hb, s, hs, rfl⟩ := mem_rectsOf.1 hr
    exact isEmpty_eq_false.2 ⟨(h.banded.valid b hb).ordered.nonempty s hs,
      (h.banded.valid b hb).rows⟩
  · rw [h.rects]
    have hbanded := h.banded
    clear h
    induction bands with
    | nil => exact List.Pairwise.nil
    | cons b bands ih =>
      obtain ⟨hb, hbefore, hbands⟩ := banded_cons.1 hbanded
      rw [rectsOf_cons]
      refine List.pairwise_append.2 ⟨?_, ih hbands, ?_⟩
      · refine List.pairwise_map.2 (hb.ordered.pairwise.imp fun hst => ?_)
        exact Set.disjoint_left.2 fun p hp hp' =>
          absurd ((hp.1.2.trans_le hst).trans_le hp'.1.1) (lt_irrefl _)
      · intro r hr r' hr'
        obtain ⟨s, -, rfl⟩ := mem_items.1 hr
        obtain ⟨c, hc, t, -, rfl⟩ := mem_rectsOf.1 hr'
        exact Set.disjoint_left.2 fun p hp hp' =>
          absurd ((hp.2.2.trans_le (hbefore c hc)).trans_le hp'.2.1) (lt_irrefl _)
  · intro hnil
    rw [h.rects] at hnil
    exact h.extents_empty (h.banded.rectsOf_eq_nil.1 hnil)
  · intro hne
    rw [h.rects] at hne
    exact h.extents (h.banded.rectsOf_eq_nil.not.1 hne)

/-! ## Runs -/

/-- What a call means for the sets of pixels. -/
def Call.onPixels (sets : ℕ → Set (ℕ × ℕ)) : Call → ℕ → Set (ℕ × ℕ)
  | .unionRect dst src rect => Function.update sets dst (sets src ∪ rect.1.pixels)
  | .intersectRect dst src rect => Function.update sets dst (sets src ∩ rect.1.pixels)
  | .copy dst src => Function.update sets dst (sets src)
  | .clear dst => Function.update sets dst ∅

/-- Every region is made of bands. -/
def Drawn (regions : Regions) : Prop := ∀ n, ∃ bands, Draws (regions n) bands

theorem drawn_init : Drawn init := fun _ => ⟨[], draws_empty⟩

theorem Region.pixels_empty : ({} : Region).pixels = ∅ :=
  Set.eq_empty_of_forall_notMem fun _ ⟨_, hr, _⟩ => List.not_mem_nil hr

theorem call_facts {regions regions' : Regions} {c : Call} (h : Drawn regions)
    (hcall : call regions c = some regions') :
    Drawn regions' ∧
      (fun n => (regions' n).pixels) = c.onPixels fun n => (regions n).pixels := by
  -- one region changes, the others keep what they have
  have hupdate : ∀ (dst : ℕ) (region : Region) (bands : List Band) (pixels : Set (ℕ × ℕ)),
      Draws region bands → region.pixels = pixels →
        Drawn (Function.update regions dst region) ∧
          (fun n => (Function.update regions dst region n).pixels) =
            Function.update (fun n => (regions n).pixels) dst pixels := by
    rintro dst region bands _ hdraws rfl
    constructor
    · intro n
      rcases eq_or_ne n dst with rfl | hn
      · rw [update_self]
        exact ⟨bands, hdraws⟩
      · rw [update_of_ne hn]
        exact h n
    · funext n
      exact apply_update (fun _ => Region.pixels) regions dst region n
  cases c with
  | unionRect dst src rect =>
    obtain ⟨bands, hdraws⟩ := h src
    obtain ⟨hunion, hpixels⟩ := draws_unionRect hdraws rect.nonempty
    obtain rfl := Option.some.inj hcall
    exact hupdate dst _ _ _ hunion hpixels
  | intersectRect dst src rect =>
    obtain ⟨bands, hdraws⟩ := h src
    obtain ⟨hinter, hpixels⟩ := draws_intersectRect rect.1 hdraws
    obtain rfl := Option.some.inj hcall
    exact hupdate dst _ _ _ hinter hpixels
  | copy dst src =>
    obtain ⟨bands, hdraws⟩ := h src
    obtain rfl := Option.some.inj hcall
    exact hupdate dst _ _ _ hdraws rfl
  | clear dst =>
    obtain rfl := Option.some.inj hcall
    exact hupdate dst _ _ _ draws_empty Region.pixels_empty

/-- **Regions stand for sets of pixels**, in every run. -/
theorem exists_run_pixels (calls : List Call) :
    ∃ regions, run call init calls = some regions ∧
      (∀ n, (regions n).pixels = calls.foldl Call.onPixels (fun _ => ∅) n) ∧
      ∀ n, (regions n).Sound ∧ ∀ rect, intersectsRect (regions n) rect = true ↔
        ((regions n).pixels ∩ rect.pixels).Nonempty := by
  have hrun : ∀ (calls : List Call) (regions : Regions), Drawn regions →
      ∃ regions', run call regions calls = some regions' ∧ Drawn regions' ∧
        (fun n => (regions' n).pixels) =
          calls.foldl Call.onPixels fun n => (regions n).pixels := by
    intro calls
    induction calls with
    | nil => exact fun regions h => ⟨regions, rfl, h, rfl⟩
    | cons c calls ih =>
      intro regions h
      obtain ⟨next, hnext⟩ : ∃ next, call regions c = some next := by
        cases c <;> exact ⟨_, rfl⟩
      obtain ⟨hdrawn, hpixels⟩ := call_facts h hnext
      obtain ⟨last, hlast, hfacts⟩ := ih next hdrawn
      refine ⟨last, run_cons_eq_some.2 ⟨next, hnext, hlast⟩, ?_⟩
      rwa [hpixels] at hfacts
  obtain ⟨regions, hregions, hdrawn, hpixels⟩ := hrun calls init drawn_init
  refine ⟨regions, hregions, fun n => ?_, fun n => ?_⟩
  · have hinit : (fun n => (init n).pixels) = fun _ => ∅ := funext fun _ => Region.pixels_empty
    rw [hinit] at hpixels
    exact congrFun hpixels n
  · obtain ⟨bands, hdraws⟩ := hdrawn n
    exact ⟨hdraws.sound, intersectsRect_iff hdraws⟩

end Region16
