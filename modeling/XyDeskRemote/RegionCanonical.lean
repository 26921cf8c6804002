/-
# The canonical form of a region

The header comment of `region.c` asks for bands in which no two rectangles touch, and for as few
bands as possible.  A union does not always leave that behind: an item that begins where the
rectangle ends is not merged with it, whereas one that ends where the rectangle begins is.
-/
import XyDeskRemote.RegionPixels

open List

namespace Region16

open Spans LabelledRun

/-- What the items of the band at `y` take. -/
def colsAt (rects : List Rectangle16) (y : ℕ) : List (Span ℕ) :=
  (rects.filter fun r => r.top = y).map Rectangle16.cols

/-- The canonical form: bands from the top to the bottom, the items of a band from left to right
without touching, and no band that could be one with the next. -/
structure Canonical (rects : List Rectangle16) : Prop where
  sorted : rects.Pairwise fun r r' => r.top < r'.top ∨ r.top = r'.top ∧ r.left < r'.left
  same_bottom : ∀ r ∈ rects, ∀ r' ∈ rects, r.top = r'.top → r.bottom = r'.bottom
  bands_apart : ∀ r ∈ rects, ∀ r' ∈ rects, r.top < r'.top → r.bottom ≤ r'.top
  items_apart : ∀ r ∈ rects, ∀ r' ∈ rects, r.top = r'.top → r.left < r'.left → r.right < r'.left
  bands_differ : ∀ r ∈ rects, ∀ r' ∈ rects, r.bottom = r'.top →
    colsAt rects r.top ≠ colsAt rects r'.top

/-- The condition on a call: an item that begins where the rectangle ends is in other rows. -/
def Call.Clear (regions : Regions) : Call → Prop
  | .unionRect _ src rect => ∀ r ∈ (regions src).rects,
      r.top < rect.1.bottom → rect.1.top < r.bottom → r.left ≠ rect.1.right
  | _ => True

variable {b c : Band} {bands : List Band} {rect box : Rectangle16}

/-! ## Canonical bands -/

/-- Two bands could be one. -/
def Band.Joins (b c : Band) : Prop := b.bottom = c.top ∧ b.spans = c.spans

/-- The items of every band are apart. -/
def AllApart (bands : List Band) : Prop := ∀ b ∈ bands, Apart b.spans

theorem mem_items_of_top (h : Banded bands) (hb : b ∈ bands) :
    (rectsOf bands).filter (fun r => r.top = b.top) = b.items := by
  induction bands with
  | nil => exact absurd hb not_mem_nil
  | cons d bands ih =>
    obtain ⟨hd, hbefore, hbands⟩ := banded_cons.1 h
    rw [rectsOf_cons, filter_append]
    rcases mem_cons.1 hb with rfl | hb
    · have hitems : b.items.filter (fun r => r.top = b.top) = b.items := by
        refine filter_eq_self.2 fun r hr => ?_
        obtain ⟨s, -, rfl⟩ := mem_items.1 hr
        exact decide_eq_true rfl
      have hbelow : (rectsOf bands).filter (fun r => r.top = b.top) = [] :=
        filter_eq_nil_iff.2 fun r hr => by
          rw [decide_eq_true_iff]
          exact h.top_ne r hr
      rw [hitems, hbelow, append_nil]
    · have habove : d.items.filter (fun r => r.top = b.top) = [] := by
        refine filter_eq_nil_iff.2 fun r hr => ?_
        obtain ⟨s, -, rfl⟩ := mem_items.1 hr
        rw [decide_eq_true_iff]
        exact (hd.rows.trans_le (hbefore b hb)).ne
      rw [habove, nil_append, ih hbands hb]

theorem colsAt_rectsOf (h : Banded bands) (hb : b ∈ bands) :
    colsAt (rectsOf bands) b.top = b.spans := by
  rw [colsAt, mem_items_of_top h hb, Band.items, map_map]
  exact map_id _

theorem Banded.order (h : Banded bands) (hb : b ∈ bands) (hc : c ∈ bands) :
    b = c ∨ b.bottom ≤ c.top ∨ c.bottom ≤ b.top := by
  induction bands with
  | nil => exact absurd hb not_mem_nil
  | cons d bands ih =>
    obtain ⟨-, hbefore, hbands⟩ := banded_cons.1 h
    rcases mem_cons.1 hb with rfl | hb' <;> rcases mem_cons.1 hc with rfl | hc'
    · exact Or.inl rfl
    · exact Or.inr (Or.inl (hbefore c hc'))
    · exact Or.inr (Or.inr (hbefore b hb'))
    · exact ih hbands hb' hc'

theorem canonical_rectsOf (h : Banded bands) :
    Canonical (rectsOf bands) ↔ AllApart bands ∧ ∀ b ∈ bands, ∀ c ∈ bands, ¬ b.Joins c := by
  have hitem : ∀ {b : Band} {s : Span ℕ}, b ∈ bands → s ∈ b.spans →
      item b.top b.bottom s ∈ rectsOf bands := fun hb hs => mem_rectsOf.2 ⟨_, hb, _, hs, rfl⟩
  constructor
  · intro hcanonical
    constructor
    · intro b hb
      refine (h.valid b hb).ordered.pairwise_lo.imp_of_mem fun hs ht hst => ?_
      exact hcanonical.items_apart _ (hitem hb hs) _ (hitem hb ht) rfl hst
    · rintro b hb c hc ⟨htouch, hspans⟩
      obtain ⟨s, hs⟩ := exists_mem_of_ne_nil _ (h.valid b hb).nonempty
      obtain ⟨t, ht⟩ := exists_mem_of_ne_nil _ (h.valid c hc).nonempty
      have hdiffer := hcanonical.bands_differ _ (hitem hb hs) _ (hitem hc ht) htouch
      exact hdiffer ((colsAt_rectsOf h hb).trans (hspans.trans (colsAt_rectsOf h hc).symm))
  · rintro ⟨hapart, hjoins⟩
    -- two rectangles of the same top are of one band
    have hsame : ∀ {b c : Band}, b ∈ bands → c ∈ bands → b.top = c.top → b = c := by
      intro b c hb hc htop
      have hrows := (h.valid b hb).rows
      have hrows' := (h.valid c hc).rows
      rcases h.order hb hc with heq | hle | hle
      · exact heq
      · omega
      · omega
    refine ⟨?_, ?_, ?_, ?_, ?_⟩
    · clear hjoins hitem hsame hapart
      induction bands with
      | nil => exact List.Pairwise.nil
      | cons b bands ih =>
        obtain ⟨hb, hbefore, hbands⟩ := banded_cons.1 h
        rw [rectsOf_cons]
        refine pairwise_append.2 ⟨?_, ih hbands, ?_⟩
        · exact pairwise_map.2 (hb.ordered.pairwise_lo.imp fun hlo => Or.inr ⟨rfl, hlo⟩)
        · intro r hr r' hr'
          obtain ⟨s, -, rfl⟩ := mem_items.1 hr
          obtain ⟨c, hc, t, -, rfl⟩ := mem_rectsOf.1 hr'
          exact Or.inl (hb.rows.trans_le (hbefore c hc))
    · intro r hr r' hr' htop
      obtain ⟨b, hb, s, hs, rfl⟩ := mem_rectsOf.1 hr
      obtain ⟨c, hc, t, ht, rfl⟩ := mem_rectsOf.1 hr'
      obtain rfl := hsame hb hc htop
      rfl
    · intro r hr r' hr' htop
      obtain ⟨b, hb, s, hs, rfl⟩ := mem_rectsOf.1 hr
      obtain ⟨c, hc, t, ht, rfl⟩ := mem_rectsOf.1 hr'
      have htop' : b.top < c.top := htop
      rcases h.order hb hc with rfl | hle | hle
      · exact absurd htop' (lt_irrefl _)
      · exact hle
      · have hrows' := (h.valid c hc).rows
        omega
    · intro r hr r' hr' htop hleft
      obtain ⟨b, hb, s, hs, rfl⟩ := mem_rectsOf.1 hr
      obtain ⟨c, hc, t, ht, rfl⟩ := mem_rectsOf.1 hr'
      obtain rfl := hsame hb hc htop
      exact hi_lt_of_lo_lt (h.valid b hb).ordered (hapart b hb) hs ht hleft
    · intro r hr r' hr' htouch
      obtain ⟨b, hb, s, hs, rfl⟩ := mem_rectsOf.1 hr
      obtain ⟨c, hc, t, ht, rfl⟩ := mem_rectsOf.1 hr'
      intro hspans
      refine hjoins b hb c hc ⟨htouch, ?_⟩
      exact (colsAt_rectsOf h hb).symm.trans (hspans.trans (colsAt_rectsOf h hc))

/-! ## Bands that became one -/

/-- What comes of bands begins with the first of them. -/
theorem top_of_mem_joinFrom (h : Banded (b :: bands)) (hc : c ∈ joinFrom b bands) :
    c.top = b.top ∧ c.spans = b.spans ∨ b.top < c.top := by
  induction bands generalizing b with
  | nil =>
    rw [mem_singleton.1 hc]
    exact Or.inl ⟨rfl, rfl⟩
  | cons d bands ih =>
    obtain ⟨hb, hbefore, hrest⟩ := banded_cons.1 h
    rw [joinFrom] at hc
    split_ifs at hc
    · exact ih (b := { b with bottom := d.bottom }) h.join hc
    · rcases mem_cons.1 hc with rfl | hc
      · exact Or.inl ⟨rfl, rfl⟩
      · exact Or.inr ((hb.rows.trans_le (hbefore d mem_cons_self)).trans_le
          (mem_joinFrom hrest hc))

/-- No two of the bands that are left could be one. -/
theorem not_joins_joinFrom (h : Banded (b :: bands)) :
    ∀ c ∈ joinFrom b bands, ∀ d ∈ joinFrom b bands, ¬ c.Joins d := by
  have hself : ∀ {c : Band}, c.Valid → ¬ c.Joins c := fun hc hjoins => hc.rows.ne' hjoins.1
  induction bands generalizing b with
  | nil =>
    intro c hc d hd
    rw [mem_singleton.1 hc, mem_singleton.1 hd]
    exact hself (banded_cons.1 h).1
  | cons e bands ih =>
    obtain ⟨hb, hbefore, hrest⟩ := banded_cons.1 h
    have hafter := hbefore e mem_cons_self
    rw [joinFrom]
    split_ifs with hjoin
    · exact ih h.join
    · intro c hc d hd
      rcases mem_cons.1 hc with rfl | hc' <;> rcases mem_cons.1 hd with rfl | hd'
      · exact hself hb
      · -- only the first of those below touches it
        rintro ⟨htouch, hspans⟩
        rcases top_of_mem_joinFrom hrest hd' with ⟨htop, hspans'⟩ | htop
        · exact hjoin ⟨htouch.trans htop, hspans.trans hspans'⟩
        · omega
      · rintro ⟨htouch, -⟩
        have hbelow := mem_joinFrom hrest hc'
        have hrows := hb.rows
        have hrows' := ((banded_joinFrom hrest).valid c hc').rows
        omega
      · exact ih hrest c hc' d hd'

theorem allApart_joinFrom : AllApart (joinFrom b bands) ↔ AllApart (b :: bands) := by
  induction bands generalizing b with
  | nil => rfl
  | cons c bands ih =>
    rw [joinFrom]
    split_ifs with hjoin
    · rw [ih]
      unfold AllApart
      rw [forall_mem_cons, forall_mem_cons, forall_mem_cons, ← hjoin.2]
      exact ⟨fun h => ⟨h.1, h.1, h.2⟩, fun h => ⟨h.1, h.2.2⟩⟩
    · unfold AllApart at ih ⊢
      rw [forall_mem_cons, ih, forall_mem_cons (l := c :: bands)]

theorem canonical_joinBands (h : Banded bands) :
    Canonical (rectsOf (joinBands bands)) ↔ AllApart bands := by
  rw [canonical_rectsOf (banded_joinBands h)]
  cases bands with
  | nil => exact and_iff_left fun _ hb => absurd hb not_mem_nil
  | cons b bands => exact (and_iff_left (not_joins_joinFrom h)).trans allApart_joinFrom

/-! ## The functions -/

theorem allApart_append {bands' : List Band} :
    AllApart (bands ++ bands') ↔ AllApart bands ∧ AllApart bands' :=
  forall_mem_append

theorem allApart_singleton : AllApart [b] ↔ Apart b.spans := forall_mem_singleton

theorem allApart_pieces (p : Prop) [Decidable p] (T B : ℕ) :
    AllApart (if p then [⟨T, B, [rect.cols]⟩] else []) := by
  split
  · exact allApart_singleton.2 (apart_singleton _)
  · exact forall_mem_nil _

/-- No item of the band begins where the rectangle ends, if they have rows in common. -/
def Band.Clear (rect : Rectangle16) (b : Band) : Prop :=
  b.top < rect.bottom → rect.top < b.bottom → ∀ s ∈ b.spans, s.lo ≠ rect.right

theorem allApart_unite (hb : b.Valid) (hapart : Apart b.spans) (hrect : rect.Nonempty) :
    AllApart (b.unite rect) ↔ b.Clear rect := by
  rw [Band.unite]
  split
  next hkeep =>
    refine iff_of_true (allApart_singleton.2 hapart) fun hfirst hlast => ?_
    rcases hkeep with hout | hout | ⟨-, -, hin⟩
    · omega
    · omega
    · exact lo_ne_of_contained hb.ordered hapart hrect.cols hin
  next hkeep =>
    simp only [Band.Keeps, not_or, not_le] at hkeep
    have hone : ∀ (p : Prop) [Decidable p] (T B : ℕ),
        AllApart (if p then [⟨T, B, b.spans⟩] else []) := by
      intro p _ T B
      split
      · exact allApart_singleton.2 hapart
      · exact forall_mem_nil _
    rw [allApart_append, allApart_append, allApart_singleton, and_iff_left (hone _ _ _),
      and_iff_right (hone _ _ _), apart_merge_iff hb.ordered hapart hrect.cols]
    exact ⟨fun h _ _ => h, fun h => h hkeep.2.1 hkeep.1⟩

theorem allApart_uniteBands (h : Banded bands) (hapart : AllApart bands) (hrect : rect.Nonempty) :
    AllApart (uniteBands rect bands) ↔ ∀ b ∈ bands, b.Clear rect := by
  induction bands with
  | nil => exact iff_of_true (forall_mem_nil _) (forall_mem_nil _)
  | cons b bands ih =>
    obtain ⟨hb, -, hbands⟩ := banded_cons.1 h
    obtain ⟨hapartb, hrest⟩ := forall_mem_cons.1 hapart
    have hbetween : AllApart (b.between rect bands) := by
      cases bands with
      | nil => exact forall_mem_nil _
      | cons c bands => exact allApart_pieces _ _ _
    rw [uniteBands, allApart_append, allApart_append, and_iff_left hbetween, ih hbands hrest,
      allApart_unite hb hapartb hrect, forall_mem_cons]

/-- **A union is canonical** if no item in the rows of the rectangle begins where it ends. -/
theorem canonical_unionOf (h : Banded bands) (hunited : bands ≠ [] →
    Banded (unitedBands rect box bands)) (hapart : AllApart bands) (hrect : rect.Nonempty) :
    Canonical (rectsOf (unionOf rect box bands)) ↔ ∀ b ∈ bands, b.Clear rect := by
  cases bands with
  | nil =>
    have hpiece : Banded [(⟨rect.top, rect.bottom, [rect.cols]⟩ : Band)] :=
      banded_singleton.2 (valid_piece hrect hrect.rows)
    exact iff_of_true ((canonical_joinBands hpiece).2 (allApart_singleton.2 (apart_singleton _)))
      (forall_mem_nil _)
  | cons b bands =>
    rw [unionOf, canonical_joinBands (hunited (cons_ne_nil _ _)), unitedBands,
      allApart_append, allApart_append, and_iff_left (allApart_pieces _ _ _),
      and_iff_right (allApart_pieces _ _ _), allApart_uniteBands h hapart hrect]

theorem clear_iff {rects : List Rectangle16} (h : rects = rectsOf bands) :
    (∀ r ∈ rects, r.top < rect.bottom → rect.top < r.bottom → r.left ≠ rect.right) ↔
      ∀ b ∈ bands, b.Clear rect := by
  rw [h]
  constructor
  · exact fun hclear b hb hfirst hlast s hs =>
      hclear _ (mem_rectsOf.2 ⟨b, hb, s, hs, rfl⟩) hfirst hlast
  · intro hclear r hr hfirst hlast
    obtain ⟨b, hb, s, hs, rfl⟩ := mem_rectsOf.1 hr
    exact hclear b hb hfirst hlast s hs

theorem canonical_nil : Canonical [] :=
  ⟨List.Pairwise.nil, forall_mem_nil _, forall_mem_nil _, forall_mem_nil _,
    forall_mem_nil _⟩

/-- Every region is in canonical form. -/
def AllCanonical (regions : Regions) : Prop := ∀ n, Canonical (regions n).rects

/-- **A call keeps the canonical form** if and only if it meets the condition. -/
theorem allCanonical_call {regions regions' : Regions} {c : Call} (h : Drawn regions)
    (hcanonical : AllCanonical regions) (hcall : call regions c = some regions') :
    AllCanonical regions' ↔ c.Clear regions := by
  have hupdate : ∀ (dst : ℕ) (region : Region),
      AllCanonical (Function.update regions dst region) ↔ Canonical region.rects := by
    intro dst region
    constructor
    · intro hall
      have hdst := hall dst
      rwa [Function.update_self] at hdst
    · intro hregion n
      rcases eq_or_ne n dst with rfl | hn
      · rwa [Function.update_self]
      · rw [Function.update_of_ne hn]
        exact hcanonical n
  have happart : ∀ {n : ℕ} {bands : List Band}, Draws (regions n) bands → AllApart bands := by
    intro n bands hdraws
    have hn := hcanonical n
    rw [hdraws.rects, canonical_rectsOf hdraws.banded] at hn
    exact hn.1
  cases c with
  | unionRect dst src rect =>
    obtain ⟨bands, hdraws⟩ := h src
    obtain ⟨hunion, -⟩ := draws_unionRect hdraws rect.nonempty
    obtain rfl := Option.some.inj hcall
    rw [hupdate, hunion.rects, Call.Clear, clear_iff hdraws.rects]
    exact canonical_unionOf hdraws.banded
      (fun hne => hdraws.banded_united hne rect.nonempty) (happart hdraws) rect.nonempty
  | intersectRect dst src rect =>
    obtain ⟨bands, hdraws⟩ := h src
    obtain ⟨hinter, -⟩ := draws_intersectRect rect.1 hdraws
    obtain rfl := Option.some.inj hcall
    rw [hupdate, hinter.rects, canonical_joinBands (banded_clipBands hdraws.banded)]
    refine iff_of_true (fun c hc => ?_) trivial
    obtain ⟨b, hb, rfl⟩ := mem_map.1 (mem_of_mem_filter hc)
    exact apart_clip (happart hdraws b hb)
  | copy dst src =>
    obtain rfl := Option.some.inj hcall
    exact iff_of_true ((hupdate _ _).2 (hcanonical src)) trivial
  | clear dst =>
    obtain rfl := Option.some.inj hcall
    exact iff_of_true ((hupdate _ _).2 canonical_nil) trivial

/-- **Regions stay in canonical form** in a run exactly as long as its calls meet the
condition. -/
theorem canonical_iff (calls : List Call) :
    EveryState call AllCanonical init calls ↔
      EveryStep call (fun regions c _ => c.Clear regions) init calls :=
  everyState_iff_everyStep (fun _ _ _ h hcall => (call_facts h hcall).1)
    (fun _ _ _ h hcanonical hcall => allCanonical_call h hcanonical hcall) drawn_init
    (fun _ => canonical_nil) calls

/-- An item that begins where the rectangle ends. -/
theorem exists_touching : ∃ calls regions, run call init calls = some regions ∧
    ¬ Canonical (regions 0).rects := by
  refine ⟨[.unionRect 0 0 ⟨⟨10, 0, 20, 10⟩, rfl⟩, .unionRect 0 0 ⟨⟨0, 0, 10, 10⟩, rfl⟩], _, rfl, ?_⟩
  have hrects : (unionRect (unionRect {} ⟨10, 0, 20, 10⟩) ⟨0, 0, 10, 10⟩).rects =
      [⟨0, 0, 10, 10⟩, ⟨10, 0, 20, 10⟩] := by
    decide +kernel
  intro hcanonical
  rw [Function.update_self, Function.update_self] at hcanonical
  have htouch := hcanonical.items_apart ⟨0, 0, 10, 10⟩ (hrects ▸ by decide) ⟨10, 0, 20, 10⟩
    (hrects ▸ by decide) rfl (by decide)
  exact absurd htouch (by decide)

end Region16
