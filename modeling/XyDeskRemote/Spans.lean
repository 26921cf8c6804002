import Mathlib.Data.List.Basic
import Mathlib.Order.MinMax
/-
# Spans from left to right

A span is what lies between two bounds of a linear order, the upper one not included.  A list of
spans stands for the points that lie in any of them (`Covers`).  Its spans are in order when each
of them ends before the next one begins or where it begins (`Ordered`), and they are apart when
no two of them touch (`Apart`).

* `merge` puts a span into a list of spans: the spans that it reaches become one with it.
* `clip` keeps what lies in a span.
-/

open List

namespace Spans

variable {α : Type*} [LinearOrder α]

/-- What lies from `lo` on and before `hi`. -/
structure Span (α : Type*) where
  lo : α
  hi : α
  deriving DecidableEq

variable {x a left : α} {s t u : Span α} {spans : List (Span α)}

/-- The point is in the span. -/
def Span.Has (s : Span α) (x : α) : Prop := s.lo ≤ x ∧ x < s.hi

/-- The point lies in one of the spans. -/
def Covers (spans : List (Span α)) (x : α) : Prop := ∃ s ∈ spans, s.Has x

/-- There is something in every span, and each of them ends before the next begins, or there. -/
structure Ordered (spans : List (Span α)) : Prop where
  nonempty : ∀ s ∈ spans, s.lo < s.hi
  pairwise : spans.Pairwise fun s t => s.hi ≤ t.lo

/-- No two of the spans touch. -/
def Apart (spans : List (Span α)) : Prop := spans.Pairwise fun s t => s.hi < t.lo

theorem covers_nil : ¬ Covers [] x := fun ⟨_, hmem, _⟩ => not_mem_nil hmem

theorem covers_cons : Covers (s :: spans) x ↔ s.Has x ∨ Covers spans x :=
  exists_mem_cons_iff _ s spans

theorem ordered_cons :
    Ordered (s :: spans) ↔ s.lo < s.hi ∧ (∀ t ∈ spans, s.hi ≤ t.lo) ∧ Ordered spans := by
  constructor
  · intro h
    have hpairwise := pairwise_cons.1 h.pairwise
    exact ⟨h.nonempty s mem_cons_self, hpairwise.1,
      fun t ht => h.nonempty t (mem_cons_of_mem s ht), hpairwise.2⟩
  · rintro ⟨hs, hbefore, h⟩
    exact ⟨forall_mem_cons.2 ⟨hs, h.nonempty⟩, pairwise_cons.2 ⟨hbefore, h.pairwise⟩⟩

theorem apart_cons : Apart (s :: spans) ↔ (∀ t ∈ spans, s.hi < t.lo) ∧ Apart spans :=
  pairwise_cons

theorem ordered_singleton (h : s.lo < s.hi) : Ordered [s] :=
  ⟨forall_mem_singleton.2 h, pairwise_singleton _ s⟩

theorem apart_singleton (s : Span α) : Apart [s] := pairwise_singleton _ s

theorem Ordered.pairwise_lo (h : Ordered spans) : spans.Pairwise fun s t => s.lo < t.lo :=
  h.pairwise.imp_of_mem fun hs _ hst => (h.nonempty _ hs).trans_le hst

/-- Of two spans, the one that begins first ends before the other begins. -/
theorem hi_lt_of_lo_lt (h : Ordered spans) (hapart : Apart spans) (hs : s ∈ spans)
    (ht : t ∈ spans) (hlo : s.lo < t.lo) : s.hi < t.lo := by
  induction spans with
  | nil => exact absurd hs not_mem_nil
  | cons u spans ih =>
    obtain ⟨hu, hbefore, hspans⟩ := ordered_cons.1 h
    obtain ⟨hgap, hrest⟩ := apart_cons.1 hapart
    rcases mem_cons.1 hs with rfl | hs' <;> rcases mem_cons.1 ht with rfl | ht'
    · exact absurd hlo (lt_irrefl _)
    · exact hgap t ht'
    · exact absurd (hlo.trans (hu.trans_le (hbefore s hs'))) (lt_irrefl _)
    · exact ih hspans hrest hs' ht'

/-! ## A span is put in -/

/-- What a span that begins at `left` reaches up to its end becomes one with it. -/
def absorb (left : α) (u : Span α) : List (Span α) → List (Span α)
  | [] => [⟨left, u.hi⟩]
  | s :: spans =>
    if s.hi < u.hi then absorb left u spans
    else if s.lo < u.hi then ⟨left, s.hi⟩ :: spans
    else ⟨left, u.hi⟩ :: s :: spans

/-- A span is put into a list of spans. -/
def merge (u : Span α) : List (Span α) → List (Span α)
  | [] => [u]
  | s :: spans =>
    if s.hi < u.lo then s :: merge u spans else absorb (min s.lo u.lo) u (s :: spans)

theorem absorb_ne_nil (left : α) (u : Span α) (spans : List (Span α)) :
    absorb left u spans ≠ [] := by
  induction spans with
  | nil => exact cons_ne_nil _ _
  | cons s spans ih =>
    rw [absorb]
    split_ifs
    · exact ih
    · exact cons_ne_nil _ _
    · exact cons_ne_nil _ _

theorem merge_ne_nil (u : Span α) (spans : List (Span α)) : merge u spans ≠ [] := by
  cases spans with
  | nil => exact cons_ne_nil _ _
  | cons s spans =>
    rw [merge]
    split_ifs
    · exact cons_ne_nil _ _
    · exact absorb_ne_nil _ _ _

theorem covers_absorb (h : Ordered spans) (hleft : ∀ s ∈ spans, left ≤ s.lo) :
    Covers (absorb left u spans) x ↔ left ≤ x ∧ x < u.hi ∨ Covers spans x := by
  induction spans with
  | nil =>
    rw [absorb, covers_cons]
    rfl
  | cons s spans ih =>
    obtain ⟨hs, -, hspans⟩ := ordered_cons.1 h
    obtain ⟨hlo, hrest⟩ := forall_mem_cons.1 hleft
    rw [absorb]
    split_ifs with hover hreached
    · -- the span lies in what is put in
      have hin : s.Has x → left ≤ x ∧ x < u.hi := fun hx => ⟨hlo.trans hx.1, hx.2.trans hover⟩
      rw [ih hspans hrest, covers_cons]
      tauto
    · -- they overlap
      have hone : (⟨left, s.hi⟩ : Span α).Has x ↔ (left ≤ x ∧ x < u.hi) ∨ s.Has x := by
        unfold Span.Has
        constructor
        · rintro ⟨hx, hx'⟩
          rcases lt_or_ge x u.hi with hlt | hge
          · exact Or.inl ⟨hx, hlt⟩
          · exact Or.inr ⟨hreached.le.trans hge, hx'⟩
        · rintro (⟨hx, hx'⟩ | ⟨hx, hx'⟩)
          · exact ⟨hx, hx'.trans_le (not_lt.1 hover)⟩
          · exact ⟨hlo.trans hx, hx'⟩
      rw [covers_cons, covers_cons, hone, or_assoc]
    · rw [covers_cons]
      rfl

/-- **What is put in is there**, and everything that was there. -/
theorem covers_merge (h : Ordered spans) :
    Covers (merge u spans) x ↔ u.Has x ∨ Covers spans x := by
  induction spans with
  | nil => rw [merge, covers_cons]
  | cons s spans ih =>
    obtain ⟨hs, hbefore, hspans⟩ := ordered_cons.1 h
    rw [merge]
    split_ifs with hend
    · rw [covers_cons, covers_cons, ih hspans]
      exact or_left_comm
    · have hleft : ∀ t ∈ s :: spans, min s.lo u.lo ≤ t.lo :=
        forall_mem_cons.2 ⟨min_le_left _ _,
          fun t ht => (min_le_left _ _).trans (hs.le.trans (hbefore t ht))⟩
      rw [covers_absorb h hleft, covers_cons, ← or_assoc, ← or_assoc]
      refine or_congr_left ?_
      -- what lies before the span that is put in is of the first span it reaches
      unfold Span.Has
      constructor
      · rintro (⟨hx, hx'⟩ | hx)
        · rcases le_or_gt u.lo x with hge | hlt
          · exact Or.inl ⟨hge, hx'⟩
          · rcases min_le_iff.1 hx with hx | hx
            · exact Or.inr ⟨hx, hlt.trans_le (not_lt.1 hend)⟩
            · exact absurd hx (not_le.2 hlt)
        · exact Or.inr hx
      · rintro (⟨hx, hx'⟩ | hx)
        · exact Or.inl ⟨(min_le_right _ _).trans hx, hx'⟩
        · exact Or.inr hx

/-- No new place where a span begins. -/
theorem lo_of_mem_absorb (h : t ∈ absorb left u spans) : t.lo = left ∨ t ∈ spans := by
  induction spans with
  | nil => exact Or.inl (by rw [mem_singleton.1 h])
  | cons s spans ih =>
    rw [absorb] at h
    split_ifs at h
    · exact (ih h).imp_right (mem_cons_of_mem s)
    · rcases mem_cons.1 h with rfl | h
      · exact Or.inl rfl
      · exact Or.inr (mem_cons_of_mem s h)
    · rcases mem_cons.1 h with rfl | h
      · exact Or.inl rfl
      · exact Or.inr h

theorem lo_of_mem_merge (h : t ∈ merge u spans) : t.lo = u.lo ∨ ∃ s ∈ spans, t.lo = s.lo := by
  induction spans with
  | nil => exact Or.inl (by rw [mem_singleton.1 h])
  | cons s spans ih =>
    rw [merge] at h
    split_ifs at h
    · rcases mem_cons.1 h with rfl | h
      · exact Or.inr ⟨t, mem_cons_self, rfl⟩
      · exact (ih h).imp_right fun ⟨r, hr, hlo⟩ => ⟨r, mem_cons_of_mem s hr, hlo⟩
    · rcases lo_of_mem_absorb h with hlo | hmem
      · rcases min_choice s.lo u.lo with hmin | hmin
        · exact Or.inr ⟨s, mem_cons_self, hlo.trans hmin⟩
        · exact Or.inl (hlo.trans hmin)
      · exact Or.inr ⟨t, hmem, rfl⟩

theorem ordered_absorb (h : Ordered spans) (hu : left < u.hi)
    (hleft : ∀ s ∈ spans, left ≤ s.lo) : Ordered (absorb left u spans) := by
  induction spans with
  | nil => exact ordered_singleton hu
  | cons s spans ih =>
    obtain ⟨hs, hbefore, hspans⟩ := ordered_cons.1 h
    obtain ⟨hlo, hrest⟩ := forall_mem_cons.1 hleft
    rw [absorb]
    split_ifs with hover hreached
    · exact ih hspans hrest
    · exact ordered_cons.2 ⟨hlo.trans_lt hs, hbefore, hspans⟩
    · refine ordered_cons.2 ⟨hu, forall_mem_cons.2 ⟨not_lt.1 hreached, fun t ht => ?_⟩, h⟩
      exact ((not_lt.1 hreached).trans hs.le).trans (hbefore t ht)

theorem ordered_merge (h : Ordered spans) (hu : u.lo < u.hi) : Ordered (merge u spans) := by
  induction spans with
  | nil => exact ordered_singleton hu
  | cons s spans ih =>
    obtain ⟨hs, hbefore, hspans⟩ := ordered_cons.1 h
    rw [merge]
    split_ifs with hend
    · refine ordered_cons.2 ⟨hs, fun t ht => ?_, ih hspans⟩
      rcases lo_of_mem_merge ht with hlo | ⟨r, hr, hlo⟩
      · exact hend.le.trans hlo.ge
      · exact (hbefore r hr).trans hlo.ge
    · refine ordered_absorb h ((min_le_right _ _).trans_lt hu) (forall_mem_cons.2
        ⟨min_le_left _ _, fun t ht => (min_le_left _ _).trans (hs.le.trans (hbefore t ht))⟩)

theorem apart_absorb_iff (h : Ordered spans) (hapart : Apart spans) :
    Apart (absorb left u spans) ↔ ∀ s ∈ spans, s.lo ≠ u.hi := by
  induction spans with
  | nil => exact iff_of_true (apart_singleton _) (forall_mem_nil _)
  | cons s spans ih =>
    obtain ⟨hs, hbefore, hspans⟩ := ordered_cons.1 h
    obtain ⟨hgap, hrest⟩ := apart_cons.1 hapart
    rw [absorb, forall_mem_cons]
    split_ifs with hover hreached
    · rw [ih hspans hrest]
      exact ⟨fun hall => ⟨(hs.trans hover).ne, hall⟩, And.right⟩
    · have hlater : ∀ t ∈ spans, t.lo ≠ u.hi := fun t ht =>
        ((not_lt.1 hover).trans_lt (hgap t ht)).ne'
      exact iff_of_true (apart_cons.2 ⟨hgap, hrest⟩) ⟨hreached.ne, hlater⟩
    · have hlater : ∀ t ∈ spans, u.hi < t.lo := fun t ht =>
        (not_lt.1 hreached).trans_lt (hs.trans (hgap t ht))
      rw [apart_cons, forall_mem_cons]
      constructor
      · exact fun hall => ⟨hall.1.1.ne', fun t ht => (hlater t ht).ne'⟩
      · exact fun hall => ⟨⟨lt_of_le_of_ne (not_lt.1 hreached) hall.1.symm, hlater⟩, hapart⟩

/-- **The spans are still apart** unless one of them begins where the new one ends. -/
theorem apart_merge_iff (h : Ordered spans) (hapart : Apart spans) (hu : u.lo < u.hi) :
    Apart (merge u spans) ↔ ∀ s ∈ spans, s.lo ≠ u.hi := by
  induction spans with
  | nil => exact iff_of_true (apart_singleton u) (forall_mem_nil _)
  | cons s spans ih =>
    obtain ⟨hs, hbefore, hspans⟩ := ordered_cons.1 h
    obtain ⟨hgap, hrest⟩ := apart_cons.1 hapart
    rw [merge]
    split_ifs with hend
    · have hlater : ∀ t ∈ merge u spans, s.hi < t.lo := by
        intro t ht
        rcases lo_of_mem_merge ht with hlo | ⟨r, hr, hlo⟩
        · exact hend.trans_eq hlo.symm
        · exact (hgap r hr).trans_eq hlo.symm
      rw [apart_cons, ih hspans hrest, forall_mem_cons]
      exact and_congr_left fun _ => iff_of_true hlater (hs.trans (hend.trans hu)).ne
    · exact apart_absorb_iff h hapart

/-- A span that one of the spans contains. -/
def Contained (u : Span α) (spans : List (Span α)) : Prop :=
  ∃ s ∈ spans, s.lo ≤ u.lo ∧ u.hi ≤ s.hi

theorem covers_of_contained (h : Contained u spans) (hx : u.Has x) : Covers spans x := by
  obtain ⟨s, hmem, hlo, hhi⟩ := h
  exact ⟨s, hmem, hlo.trans hx.1, hx.2.trans_le hhi⟩

theorem lo_ne_of_contained (h : Ordered spans) (hapart : Apart spans) (hu : u.lo < u.hi)
    (hcontained : Contained u spans) : ∀ s ∈ spans, s.lo ≠ u.hi := by
  induction spans with
  | nil => exact forall_mem_nil _
  | cons s spans ih =>
    obtain ⟨hs, hbefore, hspans⟩ := ordered_cons.1 h
    obtain ⟨hgap, hrest⟩ := apart_cons.1 hapart
    obtain ⟨t, hmem, hlo, hhi⟩ := hcontained
    rcases mem_cons.1 hmem with rfl | hmem
    · exact forall_mem_cons.2 ⟨(hlo.trans_lt hu).ne,
        fun r hr => (hhi.trans_lt (hgap r hr)).ne'⟩
    · have hlater : s.lo < u.hi := (hs.trans (hgap t hmem)).trans (hlo.trans_lt hu)
      exact forall_mem_cons.2 ⟨hlater.ne, ih hspans hrest ⟨t, hmem, hlo, hhi⟩⟩

/-- A search that ends at the first span that begins too late. -/
theorem any_takeWhile_iff_contained (h : Ordered spans) :
    ((spans.takeWhile fun s => s.lo ≤ u.lo).any fun s => u.hi ≤ s.hi) = true ↔
      Contained u spans := by
  induction spans with
  | nil => simp [Contained]
  | cons s spans ih =>
    obtain ⟨hs, hbefore, hspans⟩ := ordered_cons.1 h
    rw [Contained, exists_mem_cons_iff, takeWhile_cons]
    by_cases hlo : s.lo ≤ u.lo
    · rw [if_pos (decide_eq_true hlo), any_cons, Bool.or_eq_true, decide_eq_true_iff,
        ih hspans]
      exact or_congr_left (and_iff_right hlo).symm
    · rw [if_neg (by rwa [decide_eq_true_iff]), any_nil]
      refine iff_of_false Bool.false_ne_true ?_
      rintro (⟨hlo', -⟩ | ⟨t, ht, hlo', -⟩)
      · exact hlo hlo'
      · exact hlo ((hs.le.trans (hbefore t ht)).trans hlo')

/-! ## What lies in a span -/

/-- What lies in both spans. -/
def Span.inter (s u : Span α) : Span α := ⟨max s.lo u.lo, min s.hi u.hi⟩

theorem Span.has_inter : (s.inter u).Has x ↔ s.Has x ∧ u.Has x := by
  unfold Span.Has Span.inter
  rw [max_le_iff, lt_min_iff]
  exact and_and_and_comm

/-- The parts of the spans that lie in `u`. -/
def clip (u : Span α) (spans : List (Span α)) : List (Span α) :=
  spans.filterMap fun s => if (s.inter u).lo < (s.inter u).hi then some (s.inter u) else none

theorem mem_clip : t ∈ clip u spans ↔ ∃ s ∈ spans, t = s.inter u ∧ t.lo < t.hi := by
  unfold clip
  rw [mem_filterMap]
  refine exists_congr fun s => and_congr_right fun _ => ?_
  constructor
  · intro h
    split_ifs at h with hlt
    cases h
    exact ⟨rfl, hlt⟩
  · rintro ⟨rfl, hlt⟩
    exact if_pos hlt

theorem covers_clip : Covers (clip u spans) x ↔ Covers spans x ∧ u.Has x := by
  constructor
  · rintro ⟨t, ht, hx⟩
    obtain ⟨s, hs, rfl, -⟩ := mem_clip.1 ht
    obtain ⟨hx, hu⟩ := Span.has_inter.1 hx
    exact ⟨⟨s, hs, hx⟩, hu⟩
  · rintro ⟨⟨s, hs, hx⟩, hu⟩
    have hboth := Span.has_inter.2 ⟨hx, hu⟩
    exact ⟨s.inter u, mem_clip.2 ⟨s, hs, rfl, hboth.1.trans_lt hboth.2⟩, hboth⟩

theorem pairwise_clip {R : Span α → Span α → Prop}
    (hR : ∀ s t, R s t → R (s.inter u) (t.inter u)) (h : spans.Pairwise R) :
    (clip u spans).Pairwise R := by
  refine h.filterMap _ fun s t hst s' hs t' ht => ?_
  split_ifs at hs ht
  cases hs
  cases ht
  exact hR s t hst

theorem ordered_clip (h : Ordered spans) : Ordered (clip u spans) := by
  constructor
  · intro t ht
    obtain ⟨-, -, -, hlt⟩ := mem_clip.1 ht
    exact hlt
  · exact pairwise_clip
      (fun _ _ hst => ((min_le_left _ _).trans hst).trans (le_max_left _ _)) h.pairwise

theorem apart_clip (h : Apart spans) : Apart (clip u spans) :=
  pairwise_clip (fun _ _ hst => ((min_le_left _ _).trans_lt hst).trans_le (le_max_left _ _)) h

end Spans
