/-
# Serial numbers

A counter of a fixed width wraps, so its values are compared by their distance on
the circle: `follows half c p` says that `c` is ahead of `p` by less than half of the
circle of `2 * half` values.  The relation is not transitive, but it orders any set of
counts less than `half` apart as the counts themselves (`follows_iff_lt`).
-/
import Mathlib.Data.List.Basic

open List

namespace SerialNumber

/-! ## The order on the circle -/

/-- `c` comes after `p`, less than half of the circle ahead of it. -/
def follows (half c p : Nat) : Bool :=
  let difference := ((c : Int) - p) % (2 * half : Nat)
  difference ≠ 0 && difference < half

/-- Counts less than `half` apart differ by as much on the circle. -/
theorem circle_difference {half i j : Nat} (hij : i < j + half) (hji : j < i + half) :
    (((i % (2 * half) : Nat) : Int) - (j % (2 * half) : Nat)) % (2 * half : Nat) =
      if j ≤ i then (i : Int) - j else (i : Int) - j + 2 * half := by
  have hreduce : (((i % (2 * half) : Nat) : Int) - (j % (2 * half) : Nat)) % (2 * half : Nat) =
      ((i : Int) - j) % (2 * half : Nat) := by
    rw [Int.natCast_emod, Int.natCast_emod, Int.emod_sub_emod, Int.sub_emod_emod]
  rw [hreduce]
  split
  · exact Int.emod_eq_of_lt (by omega) (by omega)
  · rw [← Int.add_emod_right]
    rw [Int.emod_eq_of_lt (by omega) (by omega)]
    omega

/-- **Counts less than half of the circle apart are ordered as they are.** -/
theorem follows_iff_lt {half i j : Nat} (hij : i < j + half) (hji : j < i + half) :
    follows half (i % (2 * half)) (j % (2 * half)) = true ↔ j < i := by
  unfold follows
  rw [circle_difference hij hji]
  split
  · rw [Bool.and_eq_true, decide_eq_true_iff, decide_eq_true_iff]
    omega
  · rw [Bool.and_eq_true, decide_eq_true_iff, decide_eq_true_iff]
    omega

/-! ## Keeping the newest item -/

variable {α : Type*}

/-- Keep what arrives when nothing is held, or when it is newer. -/
def keepNewer (newer : α → α → Bool) : Option α → α → Option α
  | none, a => some a
  | some held, a => if newer a held then some a else some held

/-- What is held after the arrivals, in order. -/
def keepNewest (newer : α → α → Bool) (held : Option α) (arrivals : List α) : Option α :=
  arrivals.foldl (keepNewer newer) held

variable {newer : α → α → Bool} {rank : α → Nat}

theorem keepNewer_some {held a : α} (h : newer a held = true ↔ rank held < rank a) :
    ∃ b, keepNewer newer (some held) a = some b ∧ (b = held ∨ b = a) ∧
      rank held ≤ rank b ∧ rank a ≤ rank b := by
  unfold keepNewer
  by_cases hnewer : newer a held = true
  · refine ⟨a, if_pos hnewer, Or.inr rfl, ?_, Nat.le_refl _⟩
    exact Nat.le_of_lt (h.1 hnewer)
  · refine ⟨held, if_neg hnewer, Or.inl rfl, Nat.le_refl _, ?_⟩
    rw [h] at hnewer
    omega

/-- What is held after an arrival is the arrival or what was held. -/
theorem keepNewer_mem {held : Option α} {a b : α} (h : b ∈ keepNewer newer held a) :
    b = a ∨ b ∈ held := by
  cases held with
  | none => exact Or.inl (Option.some.inj h).symm
  | some c =>
    by_cases hnewer : newer a c = true
    · rw [keepNewer, if_pos hnewer] at h
      exact Or.inl (Option.some.inj h).symm
    · rw [keepNewer, if_neg hnewer] at h
      exact Or.inr h

theorem keepNewest_map {β : Type*} {newer : β → β → Bool} (g : α → β) (held : Option α)
    (arrivals : List α) :
    keepNewest newer (held.map g) (arrivals.map g) =
      (keepNewest (fun a b => newer (g a) (g b)) held arrivals).map g := by
  induction arrivals generalizing held with
  | nil => rfl
  | cons a rest ih =>
    have hstep : keepNewer newer (held.map g) (g a) =
        (keepNewer (fun a b => newer (g a) (g b)) held a).map g := by
      cases held with
      | none => rfl
      | some c =>
        simp only [Option.map_some, keepNewer]
        split <;> rfl
    rw [keepNewest, map_cons, foldl_cons, hstep]
    exact ih (keepNewer _ held a)

theorem keepNewest_some {S : List α}
    (hnewer : ∀ a ∈ S, ∀ b ∈ S, newer a b = true ↔ rank b < rank a) :
    ∀ {arrivals : List α} {held : α}, held ∈ S → (∀ a ∈ arrivals, a ∈ S) →
      ∃ b, keepNewest newer (some held) arrivals = some b ∧ (b = held ∨ b ∈ arrivals) ∧
        rank held ≤ rank b ∧ ∀ a ∈ arrivals, rank a ≤ rank b := by
  intro arrivals
  induction arrivals with
  | nil =>
    intro held _ _
    exact ⟨held, rfl, Or.inl rfl, Nat.le_refl _, by simp⟩
  | cons a rest ih =>
    intro held hheld hall
    obtain ⟨c, hkeep, hc, hheld_c, ha_c⟩ :=
      keepNewer_some (hnewer a (hall a mem_cons_self) held hheld)
    have hcS : c ∈ S := by
      rcases hc with rfl | rfl
      · exact hheld
      · exact hall c mem_cons_self
    obtain ⟨b, hb, hmem, hc_b, hrest⟩ := ih hcS fun x hx => hall x (mem_cons_of_mem a hx)
    refine ⟨b, ?_, ?_, by omega, ?_⟩
    · rw [keepNewest, foldl_cons, hkeep]
      exact hb
    · rcases hmem with rfl | hmem
      · rcases hc with rfl | rfl
        · exact Or.inl rfl
        · exact Or.inr mem_cons_self
      · exact Or.inr (mem_cons_of_mem a hmem)
    · intro x hx
      rcases mem_cons.1 hx with rfl | hx
      · omega
      · exact hrest x hx

/-- **A receiver of some items ends with the newest of them**, when `newer` orders
them by their rank. -/
theorem keepNewest_isNewest {arrivals : List α} (hne : arrivals ≠ [])
    (hnewer : ∀ a ∈ arrivals, ∀ b ∈ arrivals, newer a b = true ↔ rank b < rank a) :
    ∃ b ∈ arrivals, keepNewest newer none arrivals = some b ∧
      ∀ a ∈ arrivals, rank a ≤ rank b := by
  cases arrivals with
  | nil => exact absurd rfl hne
  | cons first rest =>
    obtain ⟨b, hb, hmem, hfirst, hrest⟩ :=
      keepNewest_some hnewer (mem_cons_self : first ∈ first :: rest)
        fun a ha => mem_cons_of_mem first ha
    refine ⟨b, ?_, hb, ?_⟩
    · rcases hmem with rfl | hmem
      · exact mem_cons_self
      · exact mem_cons_of_mem first hmem
    · intro a ha
      rcases mem_cons.1 ha with rfl | ha
      · exact hfirst
      · exact hrest a ha

end SerialNumber
