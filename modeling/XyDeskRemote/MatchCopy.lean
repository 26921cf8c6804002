/-
# Matches in a buffer

A decoder repeats what its buffer has already: it copies forward from a position further back,
also where the two stretches overlap, or goes over one period of them again and again.  If the
other side found the stretches equal, then both ways give what it has.
-/
import Mathlib.Data.List.GetD
import Mathlib.Order.Basic

open Nat List Function

namespace MatchCopy

variable {α : Type*}

/-- Two buffers are the same below a position. -/
def AgreeBelow (n : ℕ) (H E : ℕ → α) : Prop := ∀ i < n, H i = E i

variable {H E : ℕ → α}

theorem AgreeBelow.update {n : ℕ} {x : α} (h : AgreeBelow n H E) (hx : x = E n) :
    AgreeBelow (n + 1) (Function.update H n x) E := by
  intro i hi
  obtain rfl | hne := eq_or_ne i n
  · rw [update_self, hx]
  · rw [update_of_ne hne]
    exact h i (by omega)

/-- A list laid over a buffer. -/
def overlay (H : ℕ → α) (p : ℕ) (xs : List α) : ℕ → α := fun i =>
  if p ≤ i then xs.getD (i - p) (H i) else H i

theorem overlay_below {p i : ℕ} {xs : List α} (hi : i < p) :
    overlay H p xs i = H i := if_neg (by omega)

theorem overlay_at {p i : ℕ} {xs : List α} (hi : i < xs.length) :
    overlay H p xs (p + i) = xs[i] := by
  rw [overlay, if_pos (Nat.le_add_right p i), Nat.add_sub_cancel_left, getD_eq_getElem _ _ hi]

/-- What stands in a stretch of a buffer. -/
def stretch (H : ℕ → α) (p n : ℕ) : List α := (range n).map fun i => H (p + i)

theorem stretch_of_agree {n p : ℕ} {xs : List α} (h : AgreeBelow n H (overlay E p xs))
    (hn : p + xs.length ≤ n) : stretch H p xs.length = xs := by
  refine ext_getElem (by rw [stretch, length_map, length_range])
    fun i hi hi' => ?_
  simp only [stretch, getElem_map, getElem_range]
  rw [h _ (by omega), overlay_at hi']

/-- A stretch of a stretch. -/
theorem stretch_inside {p k m n : ℕ} (h : k + m ≤ n) :
    stretch H (p + k) m = ((stretch H p n).drop k).take m := by
  refine ext_getElem (by simp [stretch]; omega) fun i hi hi' => ?_
  simp only [stretch, getElem_map, getElem_range, getElem_take, getElem_drop, Nat.add_assoc]

theorem stretch_succ (p n : ℕ) : stretch H p (n + 1) = stretch H p n ++ [H (p + n)] := by
  simp [stretch, range_succ]

theorem stretch_cons (p n : ℕ) : stretch H p (n + 1) = H p :: stretch H (p + 1) n := by
  simp [stretch, range_succ_eq_map, Nat.add_assoc, Nat.add_comm 1]

/-! ## Copying -/

/-- One element after the other. -/
def copyForward (H : ℕ → α) : ℕ → ℕ → ℕ → (ℕ → α)
  | _, _, 0 => H
  | dst, src, n + 1 => copyForward (Function.update H dst (H src)) (dst + 1) (src + 1) n

/-- The `period` elements from `base` on, over and over, beginning at `index`. -/
def copyPeriod (H : ℕ → α) (base period : ℕ) : ℕ → ℕ → ℕ → (ℕ → α)
  | _, _, 0 => H
  | dst, index, n + 1 =>
    let index := if index ≥ period then 0 else index
    copyPeriod (Function.update H dst (H (base + index))) base period (dst + 1) (index + 1) n

theorem agree_copyForward {dst src n : ℕ} (h : AgreeBelow dst H E) (hsrc : src < dst)
    (hmatch : ∀ i < n, E (dst + i) = E (src + i)) :
    AgreeBelow (dst + n) (copyForward H dst src n) E := by
  induction n generalizing H dst src with
  | zero => exact h
  | succ n ih =>
    have hfirst : H src = E dst := (h src hsrc).trans (hmatch 0 (succ_pos n)).symm
    have hrest : ∀ i < n, E (dst + 1 + i) = E (src + 1 + i) := by
      intro i hi
      have hnext := hmatch (i + 1) (succ_lt_succ hi)
      rwa [← Nat.add_assoc, ← Nat.add_assoc, Nat.add_right_comm dst, Nat.add_right_comm src]
        at hnext
    have hcopied := ih (h.update hfirst) (succ_lt_succ hsrc) hrest
    rwa [Nat.add_right_comm] at hcopied

theorem agree_copyPeriod {base period dst index n : ℕ} (h : AgreeBelow dst H E)
    (hperiod : 0 < period) (hbase : base + period ≤ dst) (hindex : index ≤ period)
    (hmatch : ∀ i < n, E (dst + i) = E (base + (index + i) % period)) :
    AgreeBelow (dst + n) (copyPeriod H base period dst index n) E := by
  induction n generalizing H dst index with
  | zero => exact h
  | succ n ih =>
    have hcycle : (if index ≥ period then 0 else index) = index % period := by
      split
      · rw [Nat.le_antisymm hindex ‹_›, Nat.mod_self]
      · rw [mod_eq_of_lt (by omega)]
    have hlt : index % period < period := mod_lt _ hperiod
    have hfirst : H (base + index % period) = E dst := by
      rw [h _ (by omega)]
      exact (hmatch 0 (succ_pos n)).symm
    have hrest : ∀ i < n, E (dst + 1 + i) = E (base + (index % period + 1 + i) % period) := by
      intro i hi
      have hnext := hmatch (i + 1) (succ_lt_succ hi)
      have hsum : (index % period + 1 + i) % period = (index + (i + 1)) % period := by
        rw [Nat.add_assoc, Nat.add_comm 1 i, mod_add_mod]
      rw [hsum, ← hnext]
      congr 1
      omega
    rw [copyPeriod]
    simp only [hcycle]
    have hcopied := ih (h.update hfirst) (by omega) (succ_le_of_lt hlt) hrest
    rwa [Nat.add_right_comm] at hcopied

/-- A stretch that equals the one `period` before it repeats its first `period` elements. -/
theorem periodic {start period n : ℕ} (hperiod : 0 < period)
    (hmatch : ∀ i < n, E (start + period + i) = E (start + i)) {i : ℕ} (hi : i < n + period) :
    E (start + i) = E (start + i % period) := by
  induction i using Nat.strongRecOn with
  | ind i ih =>
    obtain hlt | hle := Nat.lt_or_ge i period
    · rw [mod_eq_of_lt hlt]
    · obtain ⟨j, rfl⟩ := Nat.exists_eq_add_of_le hle
      have hback := hmatch j (by omega)
      rw [Nat.add_assoc] at hback
      rw [hback, ih j (by omega) (by omega), add_mod_left]

/-- **A match, copied**: one period first, and then this period for the rest. -/
theorem agree_copyMatch {dst period n : ℕ} (h : AgreeBelow dst H E) (hperiod : 0 < period)
    (hle : period ≤ dst) (hmatch : ∀ i < n, E (dst + i) = E (dst - period + i)) :
    AgreeBelow (dst + n)
      (copyPeriod (copyForward H dst (dst - period) (min n period)) dst period
        (dst + min n period) 0 (n - period)) E := by
  obtain ⟨start, rfl⟩ := Nat.exists_eq_add_of_le' hle
  rw [Nat.add_sub_cancel] at hmatch ⊢
  have hcopied : AgreeBelow (start + period + min n period)
      (copyForward H (start + period) start (min n period)) E :=
    agree_copyForward h (by omega) fun i hi => 
      hmatch i (Nat.lt_of_lt_of_le hi (Nat.min_le_left _ _))
  obtain hshort | hlong := Nat.le_total n period
  · rw [Nat.min_eq_left hshort] at hcopied ⊢
    rw [Nat.sub_eq_zero_of_le hshort]
    exact hcopied
  · rw [Nat.min_eq_right hlong] at hcopied ⊢
    have hagain : ∀ i < n - period,
        E (start + period + period + i) = E (start + period + (0 + i) % period) := by
      intro i hi
      have hmod : i % period < period := mod_lt _ hperiod
      have hfar := @periodic _ E start period n hperiod hmatch (period + period + i) (by omega)
      have hnear := @periodic _ E start period n hperiod hmatch (period + i % period) (by omega)
      rw [Nat.add_assoc period, add_mod_left, add_mod_left] at hfar
      rw [add_mod_left, mod_mod] at hnear
      rw [Nat.zero_add, Nat.add_assoc start, Nat.add_assoc start, Nat.add_assoc start,
        Nat.add_assoc period, hfar, hnear]
    have hrest := agree_copyPeriod hcopied hperiod (Nat.le_refl _) (Nat.zero_le _) hagain
    have hlength : start + period + period + (n - period) = start + period + n := by omega
    rwa [hlength] at hrest

/-! ## Copying in blocks -/

/-- All elements at once. -/
def copyBlock (H : ℕ → α) (dst src n : ℕ) : ℕ → α := fun i =>
  if dst ≤ i ∧ i < dst + n then H (src + (i - dst)) else H i

theorem copyBlock_self (p n : ℕ) : copyBlock H p p n = H := by
  funext i
  unfold copyBlock
  split
  · congr 1
    omega
  · rfl

theorem copyForward_add (H : ℕ → α) (dst src m n : ℕ) :
    copyForward H dst src (m + n) =
      copyForward (copyForward H dst src m) (dst + m) (src + m) n := by
  induction m generalizing H dst src with
  | zero => rw [Nat.zero_add]; rfl
  | succ m ih =>
    rw [Nat.add_right_comm, copyForward, copyForward, ih, Nat.add_right_comm dst,
      Nat.add_right_comm src]
    rfl

/-- Where no element is overwritten before its turn, the order makes no difference. -/
theorem copyForward_eq_copyBlock {dst src n : ℕ} (h : dst ≤ src ∨ src + n ≤ dst) :
    copyForward H dst src n = copyBlock H dst src n := by
  induction n generalizing H dst src with
  | zero =>
    funext i
    exact (if_neg (by omega)).symm
  | succ n ih =>
    rw [copyForward, ih (by omega)]
    funext i
    unfold copyBlock
    obtain rfl | hne := eq_or_ne i dst
    · rw [if_neg (by omega), if_pos (by omega), update_self, Nat.sub_self, Nat.add_zero]
    · by_cases hi : dst + 1 ≤ i ∧ i < dst + 1 + n
      · rw [if_pos hi, if_pos (by omega), update_of_ne (by omega)]
        congr 1
        omega
      · rw [if_neg hi, if_neg (by omega), update_of_ne hne]

end MatchCopy
