/-
# The bands of a region

The rectangles of a region come in bands (`rectsOf`): a band has a top, a bottom and the spans
that its items take from left to right.  This file has what the functions of `region.c` do with
bands, and that they do it: `unionBands_rectsOf`, `simplifyBands_rectsOf`, `commons_rectsOf`.
-/
import XyDeskRemote.Region
import XyDeskRemote.Spans

namespace Region16

open Spans

/-- A band: the spans that its items take. -/
structure Band where
  top : ℕ
  bottom : ℕ
  spans : List (Span ℕ)
  deriving DecidableEq

/-- What the rectangle takes from left to right. -/
def Rectangle16.cols (rect : Rectangle16) : Span ℕ := ⟨rect.left, rect.right⟩

/-- The rectangle of a span and two rows. -/
def item (top bottom : ℕ) (s : Span ℕ) : Rectangle16 := ⟨s.lo, top, s.hi, bottom⟩

/-- The rectangles of a band. -/
def Band.items (b : Band) : List Rectangle16 := b.spans.map (item b.top b.bottom)

/-- The rectangles of the bands. -/
def rectsOf (bands : List Band) : List Rectangle16 := bands.flatMap Band.items

/-- A band is what it should be: there is something in it, from left to right. -/
structure Band.Valid (b : Band) : Prop where
  rows : b.top < b.bottom
  nonempty : b.spans ≠ []
  ordered : Ordered b.spans

/-- Bands from the top to the bottom. -/
structure Banded (bands : List Band) : Prop where
  valid : ∀ b ∈ bands, b.Valid
  pairwise : bands.Pairwise fun b c => b.bottom ≤ c.top

variable {b c : Band} {bands : List Band} {rect : Rectangle16} {newTop newBottom : ℕ}

@[simp] theorem rectsOf_nil : rectsOf [] = [] := rfl

theorem rectsOf_cons (b : Band) (bands : List Band) :
    rectsOf (b :: bands) = b.items ++ rectsOf bands := List.flatMap_cons

theorem rectsOf_append (bands bands' : List Band) :
    rectsOf (bands ++ bands') = rectsOf bands ++ rectsOf bands' := List.flatMap_append

theorem rectsOf_singleton (b : Band) : rectsOf [b] = b.items := List.flatMap_singleton _ _

theorem mem_items {r : Rectangle16} : r ∈ b.items ↔ ∃ s ∈ b.spans, item b.top b.bottom s = r :=
  List.mem_map

theorem mem_rectsOf {r : Rectangle16} :
    r ∈ rectsOf bands ↔ ∃ b ∈ bands, ∃ s ∈ b.spans, item b.top b.bottom s = r := by
  rw [rectsOf, List.mem_flatMap]
  simp only [mem_items]

theorem banded_cons : Banded (b :: bands) ↔
    b.Valid ∧ (∀ c ∈ bands, b.bottom ≤ c.top) ∧ Banded bands := by
  constructor
  · intro h
    obtain ⟨hb, hvalid⟩ := List.forall_mem_cons.1 h.valid
    obtain ⟨hbefore, hpairwise⟩ := List.pairwise_cons.1 h.pairwise
    exact ⟨hb, hbefore, hvalid, hpairwise⟩
  · rintro ⟨hb, hbefore, h⟩
    exact ⟨List.forall_mem_cons.2 ⟨hb, h.valid⟩, List.pairwise_cons.2 ⟨hbefore, h.pairwise⟩⟩

theorem banded_append {bands' : List Band} : Banded (bands ++ bands') ↔
    Banded bands ∧ Banded bands' ∧ ∀ b ∈ bands, ∀ c ∈ bands', b.bottom ≤ c.top := by
  constructor
  · intro h
    obtain ⟨hvalid, hvalid'⟩ := List.forall_mem_append.1 h.valid
    obtain ⟨hpairwise, hpairwise', hbefore⟩ := List.pairwise_append.1 h.pairwise
    exact ⟨⟨hvalid, hpairwise⟩, ⟨hvalid', hpairwise'⟩, hbefore⟩
  · rintro ⟨h, h', hbefore⟩
    exact ⟨List.forall_mem_append.2 ⟨h.valid, h'.valid⟩,
      List.pairwise_append.2 ⟨h.pairwise, h'.pairwise, hbefore⟩⟩

theorem banded_nil : Banded [] := ⟨List.forall_mem_nil _, List.Pairwise.nil⟩

theorem banded_singleton : Banded [b] ↔ b.Valid :=
  ⟨fun h => h.valid b (List.mem_singleton_self b),
    fun h => ⟨List.forall_mem_singleton.2 h, List.pairwise_singleton _ b⟩⟩

theorem Band.Valid.items_eq (h : b.Valid) :
    ∃ s spans, b.spans = s :: spans ∧ b.items =
      item b.top b.bottom s :: spans.map (item b.top b.bottom) := by
  obtain ⟨s, spans, hspans⟩ := List.exists_cons_of_ne_nil h.nonempty
  exact ⟨s, spans, hspans, by rw [Band.items, hspans, List.map_cons]⟩

/-- The items of the bands below begin in other rows. -/
theorem Banded.top_ne (h : Banded (b :: bands)) : ∀ r ∈ rectsOf bands, r.top ≠ b.top := by
  obtain ⟨hb, hbefore, -⟩ := banded_cons.1 h
  intro r hr
  obtain ⟨c, hc, s, -, rfl⟩ := mem_rectsOf.1 hr
  exact (hb.rows.trans_le (hbefore c hc)).ne'

/-! ## A band is copied -/

section Copy

variable {T B : ℕ} {spans : List (Span ℕ)} {below : List Rectangle16}

/-- What lies below a band ends what is done with its items. -/
theorem dropWhile_below (hbelow : ∀ r ∈ below, r.top ≠ T) (p : Rectangle16 → Prop)
    [DecidablePred p] : (below.dropWhile fun r => r.top = T ∧ p r) = below := by
  cases below with
  | nil => rfl
  | cons r below =>
    have hr := hbelow r List.mem_cons_self
    rw [List.dropWhile_cons, if_neg (by simp [hr])]

theorem takeWhile_below (hbelow : ∀ r ∈ below, r.top ≠ T) (p : Rectangle16 → Prop)
    [DecidablePred p] : (below.takeWhile fun r => r.top = T ∧ p r) = [] := by
  cases below with
  | nil => rfl
  | cons r below =>
    have hr := hbelow r List.mem_cons_self
    rw [List.takeWhile_cons, if_neg (by simp [hr])]

theorem span_items (B : ℕ) (spans : List (Span ℕ)) (hbelow : ∀ r ∈ below, r.top ≠ T) :
    ((spans.map (item T B) ++ below).takeWhile fun r => r.top = T) = spans.map (item T B) ∧
      ((spans.map (item T B) ++ below).dropWhile fun r => r.top = T) = below := by
  have hitems : ∀ r ∈ spans.map (item T B), decide (r.top = T) = true := by
    intro r hr
    obtain ⟨s, -, rfl⟩ := List.mem_map.1 hr
    exact decide_eq_true rfl
  have htake := takeWhile_below hbelow fun _ => True
  have hdrop := dropWhile_below hbelow fun _ => True
  simp only [and_true] at htake hdrop
  rw [List.takeWhile_append_of_pos hitems, List.dropWhile_append_of_pos hitems, htake, hdrop,
    List.append_nil]
  exact ⟨rfl, rfl⟩

theorem endOverlap_items (rect : Rectangle16) (B left : ℕ) (spans : List (Span ℕ))
    (hbelow : ∀ r ∈ below, r.top ≠ T) :
    ∃ s after, endOverlap (spans.map (item T B) ++ below) T rect =
        (s, after.map (item T B) ++ below) ∧
      absorb left rect.cols spans = ⟨left, s.right⟩ :: after := by
  induction spans with
  | nil =>
    refine ⟨rect, [], ?_, rfl⟩
    rw [endOverlap, List.map_nil, List.nil_append,
      dropWhile_below hbelow fun r => r.right < rect.right]
    cases below with
    | nil => rfl
    | cons r below => exact if_neg fun h => hbelow r List.mem_cons_self h.1
  | cons s spans ih =>
    by_cases hover : s.hi < rect.right
    · rw [absorb, if_pos (show s.hi < rect.cols.hi from hover)]
      obtain ⟨r, after, hend, habsorb⟩ := ih
      refine ⟨r, after, ?_, habsorb⟩
      rw [← hend, endOverlap, endOverlap, List.map_cons, List.cons_append, List.dropWhile_cons,
        if_pos (by simpa [item] using hover)]
    · have hdrop : ((s :: spans).map (item T B) ++ below).dropWhile
          (fun r => r.top = T ∧ r.right < rect.right) =
            item T B s :: (spans.map (item T B) ++ below) := by
        rw [List.map_cons, List.cons_append, List.dropWhile_cons,
          if_neg (by simpa [item] using hover)]
      rw [absorb, if_neg (show ¬ s.hi < rect.cols.hi from hover), endOverlap, hdrop]
      dsimp only
      by_cases hreached : s.lo < rect.right
      · exact ⟨item T B s, spans, if_pos ⟨rfl, hreached⟩, if_pos hreached⟩
      · exact ⟨rect, s :: spans, if_neg fun h => hreached h.2, if_neg hreached⟩

theorem mergeItems_items (rect : Rectangle16) (B newTop newBottom : ℕ) (spans : List (Span ℕ))
    (hbelow : ∀ r ∈ below, r.top ≠ T) :
    ∃ before after,
      mergeItems (spans.map (item T B) ++ below) T newTop newBottom rect =
        (before.map (item newTop newBottom), after.map (item T B) ++ below) ∧
      merge rect.cols spans = before ++ after := by
  induction spans with
  | nil =>
    obtain ⟨s, after, hend, habsorb⟩ := endOverlap_items rect B rect.left [] hbelow
    refine ⟨[⟨rect.left, s.right⟩], after, ?_, by rw [merge]; exact habsorb⟩
    rw [List.map_nil, List.nil_append] at *
    have hstart : startOverlap below T rect = rect := by
      cases below with
      | nil => rfl
      | cons r below => exact if_neg fun h => hbelow r List.mem_cons_self h.1
    rw [mergeItems, dropWhile_below hbelow fun r => r.right < rect.left,
      takeWhile_below hbelow fun r => r.right < rect.left, hend, hstart]
    rfl
  | cons s spans ih =>
    by_cases hend : s.hi < rect.left
    · obtain ⟨before, after, hmerge, heq⟩ := ih
      refine ⟨s :: before, after, ?_, ?_⟩
      · rw [mergeItems] at hmerge ⊢
        rw [List.map_cons, List.cons_append, List.dropWhile_cons, List.takeWhile_cons,
          if_pos (by simpa [item] using hend), if_pos (by simpa [item] using hend)]
        obtain ⟨hfirst, hsecond⟩ := Prod.mk.inj hmerge
        rw [List.map_cons, List.cons_append, hfirst, hsecond, List.map_cons]
        rfl
      · rw [merge, if_pos (show s.hi < rect.cols.lo from hend), heq, List.cons_append]
    · obtain ⟨r, after, hover, habsorb⟩ := endOverlap_items rect B (min s.lo rect.left)
        (s :: spans) hbelow
      refine ⟨[⟨min s.lo rect.left, r.right⟩], after, ?_, ?_⟩
      · have hdrop : ((s :: spans).map (item T B) ++ below).dropWhile
            (fun r => r.top = T ∧ r.right < rect.left) =
              (s :: spans).map (item T B) ++ below := by
          rw [List.map_cons, List.cons_append, List.dropWhile_cons,
            if_neg (by simpa [item] using hend)]
        have htake : ((s :: spans).map (item T B) ++ below).takeWhile
            (fun r => r.top = T ∧ r.right < rect.left) = [] := by
          rw [List.map_cons, List.cons_append, List.takeWhile_cons,
            if_neg (by simpa [item] using hend)]
        have hstart : (startOverlap ((s :: spans).map (item T B) ++ below) T rect).left =
            min s.lo rect.left := by
          by_cases hlt : s.lo < rect.left
          · rw [min_eq_left hlt.le]
            exact congrArg Rectangle16.left (if_pos ⟨rfl, hlt⟩)
          · rw [min_eq_right (not_lt.1 hlt)]
            exact congrArg Rectangle16.left (if_neg fun h => hlt h.2)
        rw [mergeItems, hdrop, htake, hover, hstart]
        rfl
      · rw [merge, if_neg (show ¬ s.hi < rect.cols.lo from hend)]
        exact habsorb

/-- The items that are left of a band get other rows. -/
theorem map_withRows (spans : List (Span ℕ)) :
    (spans.map (item T B)).map (Rectangle16.withRows newTop newBottom) =
      spans.map (item newTop newBottom) := by
  rw [List.map_map]
  rfl

end Copy

/-- A band is copied into other rows. -/
theorem copyBandWithUnion_none (h : Banded (b :: bands)) :
    copyBandWithUnion (rectsOf (b :: bands)) newTop newBottom none =
      (({ b with top := newTop, bottom := newBottom } : Band).items, rectsOf bands) := by
  obtain ⟨s, spans, hspans, hitems⟩ := (banded_cons.1 h).1.items_eq
  obtain ⟨htake, hdrop⟩ := span_items b.bottom b.spans h.top_ne
  have hcons : rectsOf (b :: bands) = item b.top b.bottom s ::
      (spans.map (item b.top b.bottom) ++ rectsOf bands) := by
    rw [rectsOf_cons, hitems, List.cons_append]
  rw [← Band.items, ← rectsOf_cons, hcons] at htake hdrop
  rw [hcons, copyBandWithUnion]
  dsimp only
  rw [show (item b.top b.bottom s).top = b.top from rfl, htake, hdrop, List.nil_append,
    Band.items, map_withRows]
  rfl

/-- A band is merged with a rectangle. -/
theorem copyBandWithUnion_some (h : Banded (b :: bands)) :
    copyBandWithUnion (rectsOf (b :: bands)) newTop newBottom (some rect) =
      ((⟨newTop, newBottom, merge rect.cols b.spans⟩ : Band).items, rectsOf bands) := by
  obtain ⟨s, spans, hspans, hitems⟩ := (banded_cons.1 h).1.items_eq
  obtain ⟨before, after, hmerge, heq⟩ := mergeItems_items rect b.bottom newTop newBottom
    b.spans h.top_ne
  obtain ⟨htake, hdrop⟩ := span_items b.bottom after h.top_ne
  have hcons : rectsOf (b :: bands) = item b.top b.bottom s ::
      (spans.map (item b.top b.bottom) ++ rectsOf bands) := by
    rw [rectsOf_cons, hitems, List.cons_append]
  rw [← Band.items, ← rectsOf_cons, hcons] at hmerge
  rw [hcons, copyBandWithUnion, show (item b.top b.bottom s).top = b.top from rfl, hmerge, htake,
    hdrop, map_withRows, ← List.map_append, ← heq]
  rfl

/-! ## The bands and a rectangle -/

/-- A rectangle that is there already. -/
def Band.Contains (b : Band) (rect : Rectangle16) : Prop :=
  b.top ≤ rect.top ∧ rect.bottom ≤ b.bottom ∧ Contained rect.cols b.spans

instance (b : Band) (rect : Rectangle16) : Decidable (b.Contains rect) :=
  inferInstanceAs (Decidable (_ ∧ _ ∧ ∃ s ∈ b.spans, _))

theorem rectangleContainedInBand_iff (h : Banded (b :: bands)) :
    rectangleContainedInBand (rectsOf (b :: bands)) rect = true ↔ b.Contains rect := by
  have hb := (banded_cons.1 h).1
  obtain ⟨s, spans, hspans, hitems⟩ := hb.items_eq
  have hcons : rectsOf (b :: bands) = item b.top b.bottom s ::
      (spans.map (item b.top b.bottom) ++ rectsOf bands) := by
    rw [rectsOf_cons, hitems, List.cons_append]
  -- the search ends in the band, or at its end
  have htake : ∀ spans : List (Span ℕ),
      ((spans.map (item b.top b.bottom) ++ rectsOf bands).takeWhile fun r =>
        r.top = b.top ∧ r.left ≤ rect.left) =
      (spans.takeWhile fun s => s.lo ≤ rect.left).map (item b.top b.bottom) := by
    intro spans
    induction spans with
    | nil => exact takeWhile_below h.top_ne fun r => r.left ≤ rect.left
    | cons s spans ih =>
      rw [List.map_cons, List.cons_append, List.takeWhile_cons, List.takeWhile_cons, ih]
      by_cases hlo : s.lo ≤ rect.left
      · rw [if_pos (by simpa [item] using hlo), if_pos (by simpa using hlo)]
        rfl
      · rw [if_neg (by simpa [item] using hlo), if_neg (by simpa using hlo)]
        rfl
  have hany := any_takeWhile_iff_contained (u := rect.cols) hb.ordered
  have hsearch := htake b.spans
  rw [← Band.items, ← rectsOf_cons, hcons] at hsearch
  rw [hcons, rectangleContainedInBand]
  split
  next hout =>
    refine iff_of_false Bool.false_ne_true ?_
    rintro ⟨htop, hbottom, -⟩
    exact hout.elim (not_lt.2 htop) (not_lt.2 hbottom)
  next hin =>
    have hin' := not_or.1 hin
    rw [show (item b.top b.bottom s).top = b.top from rfl, hsearch, List.any_map]
    refine hany.trans ?_
    exact ⟨fun hcontained => ⟨not_lt.1 hin'.1, not_lt.1 hin'.2, hcontained⟩, fun hc => hc.2.2⟩

/-- The rectangle and the band have no row in common, or the rectangle is there already. -/
def Band.Keeps (b : Band) (rect : Rectangle16) : Prop :=
  b.bottom ≤ rect.top ∨ rect.bottom ≤ b.top ∨ b.Contains rect

instance (b : Band) (rect : Rectangle16) : Decidable (b.Keeps rect) :=
  inferInstanceAs (Decidable (_ ∨ _ ∨ _))

/-- A band and the rectangle: the rows above it, those of the rectangle, and the rows below. -/
def Band.unite (rect : Rectangle16) (b : Band) : List Band :=
  if b.Keeps rect then [b]
  else
    (if rect.top > b.top then [{ b with bottom := rect.top }] else []) ++
      [⟨max b.top rect.top, min b.bottom rect.bottom, merge rect.cols b.spans⟩] ++
      if rect.bottom < b.bottom then [{ b with top := rect.bottom }] else []

/-- The rows of the rectangle between a band and the next one. -/
def Band.between (rect : Rectangle16) (b : Band) : List Band → List Band
  | [] => []
  | next :: _ =>
    if next.top ≠ b.bottom ∧ rect.bottom > b.bottom ∧ rect.top < next.top then
      [⟨max b.bottom rect.top, min next.top rect.bottom, [rect.cols]⟩]
    else []

/-- The bands and the rectangle, from the first band to the last one. -/
def uniteBands (rect : Rectangle16) : List Band → List Band
  | [] => []
  | b :: bands => b.unite rect ++ b.between rect bands ++ uniteBands rect bands

theorem unionBand_rectsOf (rect first : Rectangle16) (h : Banded (b :: bands))
    (htop : first.top = b.top) (hbottom : first.bottom = b.bottom) :
    (unionBand (rectsOf (b :: bands)) first rect).1 = rectsOf (b.unite rect) ∧
      (unionBand (rectsOf (b :: bands)) first rect).2.1 = rectsOf bands ∧
      (b.bottom < rect.bottom →
        (unionBand (rectsOf (b :: bands)) first rect).2.2 = max b.bottom rect.top) := by
  have hkeeps : (first.bottom ≤ rect.top ∨ rect.bottom ≤ first.top ∨
      rectangleContainedInBand (rectsOf (b :: bands)) rect = true) ↔ b.Keeps rect := by
    rw [rectangleContainedInBand_iff h, htop, hbottom]
    rfl
  have hrows := (banded_cons.1 h).1.rows
  unfold unionBand Band.unite
  by_cases hkeep : b.Keeps rect
  · rw [if_pos (hkeeps.2 hkeep), if_pos hkeep]
    simp only [copyBandWithUnion_none h]
    refine ⟨?_, trivial, fun hlt => (max_eq_right ?_).symm⟩
    · rw [htop, hbottom]
      exact (rectsOf_singleton b).symm
    · rcases hkeep with hbelow | habove | ⟨-, hin, -⟩
      · exact hbelow
      · exact absurd habove (not_le.2 (hrows.trans hlt))
      · exact absurd hin (not_le.2 hlt)
  · have hcut := hkeep
    simp only [Band.Keeps, not_or, not_le] at hcut
    rw [if_neg (hkeeps.not.2 hkeep), if_neg hkeep]
    have hmax : (if rect.top > b.top then rect.top else b.top) = max b.top rect.top := by
      split
      next hlt => exact (max_eq_right hlt.le).symm
      next hge => exact (max_eq_left (not_lt.1 hge)).symm
    have hmin : (if rect.bottom < b.bottom then rect.bottom else b.bottom) =
        min b.bottom rect.bottom := by
      split
      next hlt => exact (min_eq_right hlt.le).symm
      next hge => exact (min_eq_left (not_lt.1 hge)).symm
    simp only [copyBandWithUnion_none h, copyBandWithUnion_some h, htop, hbottom, hmax, hmin]
    refine ⟨?_, ?_, fun _ => (max_eq_left hcut.1.le).symm⟩
    · rw [rectsOf_append, rectsOf_append, rectsOf_singleton]
      congr 2
      · split_ifs
        · exact (rectsOf_singleton _).symm
        · rfl
      · split_ifs with hlt
        · rw [min_eq_right hlt.le]
          exact (rectsOf_singleton _).symm
        · rfl
    · split_ifs <;> rfl

/-- **The union works band by band.** -/
theorem unionBands_rectsOf (h : Banded bands) :
    unionBands rect (rectsOf bands) = rectsOf (uniteBands rect bands) := by
  induction bands with
  | nil => rw [rectsOf_nil, unionBands, uniteBands, rectsOf_nil]
  | cons b bands ih =>
    obtain ⟨hb, -, hbands⟩ := banded_cons.1 h
    obtain ⟨s, spans, hspans, hitems⟩ := hb.items_eq
    have hcons : rectsOf (b :: bands) = item b.top b.bottom s ::
        (spans.map (item b.top b.bottom) ++ rectsOf bands) := by
      rw [rectsOf_cons, hitems, List.cons_append]
    obtain ⟨hunite, hnext, hbelow⟩ := unionBand_rectsOf rect (item b.top b.bottom s) h
      rfl rfl
    rw [hcons] at hunite hnext hbelow
    rw [hcons, unionBands, uniteBands, rectsOf_append, rectsOf_append, hunite, hnext, ih hbands]
    congr 2
    generalize (unionBand _ _ rect).2.2 = topInterBand at hbelow ⊢
    cases bands with
    | nil => rfl
    | cons c bands =>
      obtain ⟨hc, -, -⟩ := banded_cons.1 hbands
      obtain ⟨t, spans', -, hitems'⟩ := hc.items_eq
      rw [rectsOf_cons, hitems', List.cons_append, Band.between]
      simp only [show (item b.top b.bottom s).bottom = b.bottom from rfl,
        show (item c.top c.bottom t).top = c.top from rfl]
      split_ifs with hpiece
      · rw [hbelow hpiece.2.1, rectsOf_singleton]
        rfl
      · rfl

/-! ## Bands that become one -/

/-- The band `b` and the bands below it; what touches it and has its spans becomes one with it. -/
def joinFrom (b : Band) : List Band → List Band
  | [] => [b]
  | c :: bands =>
    if b.bottom = c.top ∧ b.spans = c.spans then joinFrom { b with bottom := c.bottom } bands
    else b :: joinFrom c bands

/-- The bands from the top to the bottom, as few as possible. -/
def joinBands : List Band → List Band
  | [] => []
  | b :: bands => joinFrom b bands

/-- A band that takes in the next one. -/
theorem Banded.join (h : Banded (b :: c :: bands)) :
    Banded ({ b with bottom := c.bottom } :: bands) := by
  obtain ⟨hb, hbefore, hrest⟩ := banded_cons.1 h
  obtain ⟨hc, hbefore', hbands⟩ := banded_cons.1 hrest
  have hrows := (hb.rows.trans_le (hbefore c List.mem_cons_self)).trans hc.rows
  exact banded_cons.2 ⟨⟨hrows, hb.nonempty, hb.ordered⟩, hbefore', hbands⟩

theorem bandMatch_iff {T B T' B' : ℕ} {below : List Rectangle16} (hbelow : ∀ r ∈ below, r.top ≠ T')
    (spans spans' : List (Span ℕ)) :
    bandMatch T' (spans.map (item T B)) (spans'.map (item T' B') ++ below) = true ↔
      spans = spans' := by
  induction spans generalizing spans' with
  | nil =>
    cases spans' with
    | nil =>
      cases below with
      | nil => simp [bandMatch]
      | cons r below => simp [bandMatch, hbelow r List.mem_cons_self]
    | cons t spans' => simp [bandMatch, item]
  | cons s spans ih =>
    cases spans' with
    | nil =>
      cases below with
      | nil => simp [bandMatch]
      | cons r below => simp [bandMatch, hbelow r List.mem_cons_self]
    | cons t spans' =>
      rw [List.map_cons, List.map_cons, List.cons_append, bandMatch,
        if_pos (show (item T' B' t).top = T' from rfl), List.cons.injEq, Span.mk.injEq]
      split
      next hdiffer =>
        refine iff_of_false Bool.false_ne_true fun hsame => ?_
        exact hdiffer.elim (fun hne => hne hsame.1.1) fun hne => hne hsame.1.2
      next hsame =>
        have hboth := not_or.1 hsame
        rw [ih]
        exact ⟨fun h => ⟨⟨not_not.1 hboth.1, not_not.1 hboth.2⟩, h⟩, And.right⟩

theorem simplifyLoop_rectsOf (h : Banded (b :: bands)) :
    simplifyLoop (rectsOf (b :: bands)) = rectsOf (joinFrom b bands) := by
  induction bands generalizing b with
  | nil =>
    obtain ⟨s, spans, hspans, hitems⟩ := (banded_cons.1 h).1.items_eq
    obtain ⟨-, hdrop⟩ := span_items b.bottom b.spans h.top_ne
    rw [← Band.items, hitems, List.cons_append, List.dropWhile_cons,
      if_pos (by simp [item])] at hdrop
    rw [joinFrom, rectsOf_singleton, hitems, simplifyLoop]
    split
    · rfl
    next second rest2 hsecond =>
      rw [rectsOf_nil, List.append_nil] at hdrop
      exact absurd (hdrop.symm.trans hsecond) (List.cons_ne_nil _ _).symm
  | cons c bands ih =>
    obtain ⟨hb, hbefore, hrest⟩ := banded_cons.1 h
    obtain ⟨s, spans, hspans, hitems⟩ := hb.items_eq
    obtain ⟨t, spans', hspans', hitems'⟩ := (banded_cons.1 hrest).1.items_eq
    obtain ⟨htake, hdrop⟩ := span_items b.bottom b.spans h.top_ne
    rw [← Band.items, hitems, List.cons_append, List.dropWhile_cons,
      if_pos (by simp [item])] at hdrop
    rw [← Band.items, hitems, List.cons_append, List.takeWhile_cons,
      if_pos (by simp [item])] at htake
    rw [rectsOf_cons, hitems, List.cons_append, simplifyLoop]
    split
    next hnil =>
      have hempty := hdrop.symm.trans hnil
      rw [rectsOf_cons, hitems', List.cons_append] at hempty
      exact absurd hempty (List.cons_ne_nil _ _)
    next second rest2 hsecond =>
      have hnext := hsecond.symm.trans hdrop
      have hrow : (item b.top b.bottom s).top = b.top := rfl
      rw [hnext, hrow, htake, ← hitems]
      have htop : second.top = c.top := by
        rw [rectsOf_cons, hitems', List.cons_append] at hnext
        rw [(List.cons.inj hnext).1]
        rfl
      have hbottom : second.bottom = c.bottom := by
        rw [rectsOf_cons, hitems', List.cons_append] at hnext
        rw [(List.cons.inj hnext).1]
        rfl
      have hmatch : (item b.top b.bottom s).bottom = second.top ∧
          bandMatch second.top b.items (rectsOf (c :: bands)) = true ↔
            b.bottom = c.top ∧ b.spans = c.spans := by
        rw [htop, rectsOf_cons]
        exact and_congr_right fun _ => bandMatch_iff hrest.top_ne b.spans c.spans
      rw [joinFrom]
      by_cases hjoin : b.bottom = c.top ∧ b.spans = c.spans
      · rw [if_pos (hmatch.2 hjoin), if_pos hjoin, ← ih h.join, rectsOf_cons, rectsOf_cons,
          hbottom]
        have hlength : b.items.length = c.items.length := by
          rw [Band.items, Band.items, List.length_map, List.length_map, hjoin.2]
        rw [hlength, List.drop_left, Band.items, Band.items, List.map_map]
        rfl
      · rw [if_neg (hmatch.not.2 hjoin), if_neg hjoin, ih hrest, ← rectsOf_cons]

/-- **Bands that touch and have the same items become one.** -/
theorem simplifyBands_rectsOf (h : Banded bands) :
    simplifyBands (rectsOf bands) = rectsOf (joinBands bands) := by
  have hloop : simplifyLoop (rectsOf bands) = rectsOf (joinBands bands) := by
    cases bands with
    | nil => rw [rectsOf_nil, simplifyLoop, joinBands, rectsOf_nil]
    | cons b bands => exact simplifyLoop_rectsOf h
  rw [simplifyBands]
  split
  next hshort =>
    rw [← hloop]
    rcases hrects : rectsOf bands with _ | ⟨r, _ | ⟨r', rects⟩⟩
    · rw [simplifyLoop]
    · rw [simplifyLoop]
      rfl
    · rw [hrects] at hshort
      simp only [List.length_cons] at hshort
      omega
  next => exact hloop

/-! ## What lies in a rectangle -/

/-- The part of a band that lies in the rectangle. -/
def Band.clip (rect : Rectangle16) (b : Band) : Band where
  top := max b.top rect.top
  bottom := min b.bottom rect.bottom
  spans := Spans.clip rect.cols b.spans

/-- The parts of the bands that lie in the rectangle. -/
def clipBands (rect : Rectangle16) (bands : List Band) : List Band :=
  (bands.map (Band.clip rect)).filter fun b => b.top < b.bottom ∧ b.spans ≠ []

/-- The rectangles of a region begin one below the other. -/
theorem Banded.pairwise_top (h : Banded bands) :
    (rectsOf bands).Pairwise fun r r' => r.top ≤ r'.top := by
  induction bands with
  | nil => exact List.Pairwise.nil
  | cons b bands ih =>
    obtain ⟨hb, hbefore, hbands⟩ := banded_cons.1 h
    rw [rectsOf_cons]
    refine List.pairwise_append.2 ⟨?_, ih hbands, ?_⟩
    · exact List.pairwise_map.2 (List.pairwise_of_forall fun _ _ => le_rfl)
    · intro r hr r' hr'
      obtain ⟨s, -, rfl⟩ := mem_items.1 hr
      obtain ⟨c, hc, t, -, rfl⟩ := mem_rectsOf.1 hr'
      exact hb.rows.le.trans (hbefore c hc)

/-- A search from the top that ends at a row. -/
theorem takeWhile_eq_filter {rects : List Rectangle16}
    (h : rects.Pairwise fun r r' => r.top ≤ r'.top) (y : ℕ) :
    (rects.takeWhile fun r => y > r.top) = rects.filter fun r => y > r.top := by
  induction rects with
  | nil => rfl
  | cons r rects ih =>
    obtain ⟨hbefore, hrects⟩ := List.pairwise_cons.1 h
    rw [List.takeWhile_cons, List.filter_cons, ih hrects]
    split
    · rfl
    next hend =>
      refine (List.filter_eq_nil_iff.2 fun r' hr' => ?_).symm
      have hrow := hbefore r' hr'
      simp only [decide_eq_true_iff] at hend ⊢
      omega

/-- What is written of a rectangle when it and `rect` intersect. -/
def common (rect r : Rectangle16) : Option Rectangle16 :=
  let common := rectanglesIntersection r rect
  if common.2 then some common.1 else none

theorem common_item (T B : ℕ) (s : Span ℕ) : common rect (item T B s) =
    if (s.inter rect.cols).lo < (s.inter rect.cols).hi ∧ max T rect.top < min B rect.bottom then
      some (item (max T rect.top) (min B rect.bottom) (s.inter rect.cols))
    else none := by
  unfold common rectanglesIntersection
  simp only [Bool.and_eq_true, decide_eq_true_iff]
  rfl

theorem items_filterMap_common (b : Band) : b.items.filterMap (common rect) =
    if max b.top rect.top < min b.bottom rect.bottom then (b.clip rect).items else [] := by
  unfold Band.items Band.clip Spans.clip
  rw [List.filterMap_map, List.map_filterMap]
  split
  next hrows =>
    refine List.filterMap_congr fun s _ => ?_
    rw [Function.comp_apply, common_item]
    by_cases hcols : (s.inter rect.cols).lo < (s.inter rect.cols).hi
    · rw [if_pos ⟨hcols, hrows⟩, if_pos hcols]
      rfl
    · rw [if_neg fun h => hcols h.1, if_neg hcols]
      rfl
  next hrows =>
    refine List.filterMap_eq_nil_iff.2 fun s _ => ?_
    rw [Function.comp_apply, common_item, if_neg fun h => hrows h.2]

/-- **What is cut out is cut out band by band.** -/
theorem commons_rectsOf (h : Banded bands) :
    ((rectsOf bands).takeWhile fun r => rect.bottom > r.top).filterMap (common rect) =
      rectsOf (clipBands rect bands) := by
  rw [takeWhile_eq_filter h.pairwise_top, List.filterMap_filter]
  have hall : ((rectsOf bands).filterMap fun r =>
      if decide (rect.bottom > r.top) = true then common rect r else none) =
        (rectsOf bands).filterMap (common rect) := by
    refine List.filterMap_congr fun r _ => ?_
    split
    · rfl
    next hend =>
      rw [decide_eq_true_iff] at hend
      have hcommon : common rect r = _ := common_item r.top r.bottom r.cols
      rw [hcommon, if_neg fun h => by omega]
  rw [hall]
  clear hall h
  induction bands with
  | nil => rfl
  | cons b bands ih =>
    rw [rectsOf_cons, List.filterMap_append, ih, items_filterMap_common, clipBands, clipBands,
      List.map_cons, List.filter_cons]
    by_cases hrows : max b.top rect.top < min b.bottom rect.bottom
    · by_cases hspans : (b.clip rect).spans = []
      · rw [if_pos hrows, if_neg (by simp [hspans]), Band.items, hspans]
        rfl
      · rw [if_pos hrows, if_pos (decide_eq_true ⟨hrows, hspans⟩), rectsOf_cons]
    · rw [if_neg hrows, if_neg fun h => hrows (decide_eq_true_iff.1 h).1]
      rfl

end Region16
