/-
# Positional numerals

A number in base `b` as the list of its digits, most significant first: `digits` writes
it, with one digit for zero, and `value` reads it from the left.  Reading what was written
gives the number back (`value_digits`), also behind leading zeros (`value_leftpad`).
-/
import Mathlib.Data.Nat.Digits.Lemmas

open List

namespace Numeral

/-- The digits of a number. -/
def digits (b n : Nat) : List Nat := if n = 0 then [0] else (Nat.digits b n).reverse

/-- The number that digits stand for. -/
def value (b : Nat) (ds : List Nat) : Nat := ds.foldl (fun v d => v * b + d) 0

variable {b : Nat}

theorem value_concat (ds : List Nat) (d : Nat) : value b (ds ++ [d]) = value b ds * b + d := by
  rw [value, value, foldl_append]
  rfl

theorem value_eq_ofDigits (ds : List Nat) : value b ds = Nat.ofDigits b ds.reverse := by
  induction ds using reverseRecOn with
  | nil => rfl
  | append_singleton ds d ih =>
    rw [value_concat, ih, reverse_concat, Nat.ofDigits_cons, Nat.mul_comm b]
    exact Nat.add_comm ..

/-- **A number is the value of its digits.** -/
theorem value_digits (b n : Nat) : value b (digits b n) = n := by
  rw [digits]
  by_cases hn : n = 0
  · rw [if_pos hn, hn]
    show 0 * b + 0 = 0
    rw [Nat.zero_mul]
  · rw [if_neg hn, value_eq_ofDigits, reverse_reverse, Nat.ofDigits_digits]

/-- Leading zeros do not count. -/
theorem value_leftpad (k : Nat) (ds : List Nat) : value b (ds.leftpad k 0) = value b ds := by
  rw [leftpad, value_eq_ofDigits, value_eq_ofDigits, reverse_append,
    reverse_replicate, Nat.ofDigits_append_replicate_zero]

theorem digits_ne_nil (b n : Nat) : digits b n ≠ [] := by
  rw [digits]
  by_cases hn : n = 0
  · rw [if_pos hn]
    exact cons_ne_nil 0 []
  · rw [if_neg hn]
    intro hnil
    exact hn (Nat.digits_eq_nil_iff_eq_zero.1 (reverse_eq_nil_iff.1 hnil))

theorem head_digits_ne_zero {n d : Nat} {ds : List Nat} (hn : n ≠ 0)
    (h : digits b n = d :: ds) : d ≠ 0 := by
  rw [digits, if_neg hn, reverse_eq_cons_iff] at h
  have hlast := Nat.getLast_digit_ne_zero b hn
  simp only [h, getLast_append_singleton] at hlast
  exact hlast

theorem digits_lt (hb : 1 < b) {n d : Nat} (h : d ∈ digits b n) : d < b := by
  rw [digits] at h
  by_cases hn : n = 0
  · rw [if_pos hn, mem_singleton] at h
    omega
  · rw [if_neg hn, mem_reverse] at h
    exact Nat.digits_lt_base hb h

/-- A number below `b ^ k` has at most `k` digits. -/
theorem length_digits_le (hb : 1 < b) {n k : Nat} (hk : 0 < k) (h : n < b ^ k) :
    (digits b n).length ≤ k := by
  rw [digits]
  by_cases hn : n = 0
  · rw [if_pos hn]
    exact hk
  · rw [if_neg hn, length_reverse]
    exact (Nat.digits_length_le_iff hb n).2 h

/-- A number below `b ^ k` is `k` digits with its leading zeros. -/
theorem length_leftpad_digits (hb : 1 < b) {n k : Nat} (hk : 0 < k) (h : n < b ^ k) :
    ((digits b n).leftpad k 0).length = k := by
  rw [length_leftpad]
  exact Nat.max_eq_left (length_digits_le hb hk h)

theorem leftpad_digits_lt (hb : 1 < b) {n k d : Nat}
    (h : d ∈ (digits b n).leftpad k 0) : d < b := by
  rcases mem_append.1 h with hzero | hdigit
  · rw [eq_of_mem_replicate hzero]
    omega
  · exact digits_lt hb hdigit

end Numeral
