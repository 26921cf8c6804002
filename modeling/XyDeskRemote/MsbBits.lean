/-
# Bits, the highest first

Numbers and byte strings as lists of bits, in the order in which codecs write them: the highest
bit of a number first, and the bytes one after the other.
-/
import Mathlib.Data.List.Basic
import Mathlib.Data.Nat.Bitwise
import Mathlib.Tactic.Ring

open List Nat

namespace MsbBits

/-- The lowest `n` bits of a number. -/
def bitsOf : ℕ → ℕ → List Bool
  | 0, _ => []
  | n + 1, v => v.testBit n :: bitsOf n v

/-- The number that a list of bits stands for. -/
def valueOf : List Bool → ℕ
  | [] => 0
  | b :: bs => b.toNat * 2 ^ bs.length + valueOf bs

/-- The bits of a byte string. -/
def bytesBits (bytes : List UInt8) : List Bool := bytes.flatMap fun b => bitsOf 8 b.toNat

@[simp] theorem length_bitsOf (n v : ℕ) : (bitsOf n v).length = n := by
  induction n with
  | zero => rfl
  | succ n ih => rw [bitsOf, length_cons, ih]

theorem bitsOf_mod (n v : ℕ) : bitsOf n (v % 2 ^ n) = bitsOf n v := by
  have hsame : ∀ k ≤ n, bitsOf k (v % 2 ^ n) = bitsOf k v := by
    intro k hk
    induction k with
    | zero => rfl
    | succ k ih =>
      rw [bitsOf, bitsOf, ih (le_of_succ_le hk), testBit_mod_two_pow,
        decide_eq_true (lt_of_succ_le hk), Bool.true_and]
  exact hsame n (le_refl n)

/-- **Back from the bits.** -/
theorem valueOf_bitsOf (n v : ℕ) : valueOf (bitsOf n v) = v % 2 ^ n := by
  induction n with
  | zero =>
    rw [pow_zero, mod_one]
    rfl
  | succ n ih =>
    rw [bitsOf, valueOf, ih, length_bitsOf, toNat_testBit, pow_succ,
      mod_mul, add_comm, mul_comm (2 ^ n)]

theorem valueOf_lt (bs : List Bool) : valueOf bs < 2 ^ bs.length := by
  induction bs with
  | nil => exact one_pos
  | cons b bs ih =>
    have hb : b.toNat ≤ 1 := Bool.toNat_le b
    have hle := mul_le_mul_right (2 ^ bs.length) hb
    rw [valueOf, length_cons, pow_succ]
    omega

/-- Every bit, counted from the front. -/
theorem getD_bitsOf (n v i : ℕ) :
    (bitsOf n v).getD i false = (decide (i < n) && v.testBit (n - 1 - i)) := by
  induction n generalizing i with
  | zero => simp [bitsOf]
  | succ n ih =>
    cases i with
    | zero => simp [bitsOf]
    | succ i =>
      rw [bitsOf, getD_cons_succ, ih]
      have hindex : n + 1 - 1 - (i + 1) = n - 1 - i := by omega
      rw [hindex]
      simp only [add_lt_add_iff_right]

/-- The bits of the upper part of a number, and of its lower part. -/
theorem bitsOf_add (m n v : ℕ) : bitsOf (m + n) v = bitsOf m (v >>> n) ++ bitsOf n v := by
  induction m with
  | zero => rw [zero_add, bitsOf, nil_append]
  | succ m ih =>
    rw [add_right_comm, bitsOf, ih, bitsOf, testBit_shiftRight, add_comm n]
    rfl

theorem bitsOf_ones (n : ℕ) {m : ℕ} (h : n ≤ m) : bitsOf n (2 ^ m - 1) = replicate n true := by
  induction n with
  | zero => rfl
  | succ n ih =>
    rw [bitsOf, ih (le_of_succ_le h), testBit_two_pow_sub_one, decide_eq_true (lt_of_succ_le h)]
    rfl

theorem bitsOf_zero (n : ℕ) : bitsOf n 0 = replicate n false := by
  induction n with
  | zero => rfl
  | succ n ih =>
    rw [bitsOf, ih, zero_testBit]
    rfl

theorem getD_append (bs cs : List Bool) (i : ℕ) :
    (bs ++ cs).getD i false =
      if i < bs.length then bs.getD i false else cs.getD (i - bs.length) false := by
  split
  next hi => exact List.getD_append _ _ _ _ hi
  next hi => exact getD_append_right _ _ _ _ (Nat.le_of_not_lt hi)

theorem getD_of_le {bs : List Bool} {i : ℕ} (h : bs.length ≤ i) : bs.getD i false = false :=
  getD_eq_default _ _ h

theorem length_bytesBits (bytes : List UInt8) : (bytesBits bytes).length = 8 * bytes.length := by
  induction bytes with
  | nil => rfl
  | cons b bytes ih =>
    rw [bytesBits, flatMap_cons, length_append, length_bitsOf, length_cons]
    rw [bytesBits] at ih
    rw [ih]
    omega

/-- **Every bit of a byte string**; there are none behind its end. -/
theorem getD_bytesBits (bytes : List UInt8) (i : ℕ) :
    (bytesBits bytes).getD i false = (bytes.getD (i / 8) 0).toNat.testBit (7 - i % 8) := by
  induction bytes generalizing i with
  | nil => simp [bytesBits]
  | cons b bytes ih =>
    rw [bytesBits, flatMap_cons]
    rcases lt_or_ge i 8 with hi | hi
    · rw [List.getD_append _ _ _ _ (by rwa [length_bitsOf]), getD_bitsOf, decide_eq_true hi,
        Bool.true_and, div_eq_of_lt hi, mod_eq_of_lt hi, getD_cons_zero]
    · rw [getD_append_right _ _ _ _ (by rwa [length_bitsOf]), length_bitsOf]
      have hrest := ih (i - 8)
      rw [bytesBits] at hrest
      have hdiv : i / 8 = (i - 8) / 8 + 1 := by omega
      have hmod : i % 8 = (i - 8) % 8 := by omega
      rw [hrest, hdiv, hmod, getD_cons_succ]

theorem eq_of_getD {bs cs : List Bool} (hlength : bs.length = cs.length)
    (h : ∀ i < bs.length, bs.getD i false = cs.getD i false) : bs = cs := by
  refine ext_getElem hlength fun i hi hi' => ?_
  have hsame := h i hi
  rwa [getD_eq_getElem _ _ hi, getD_eq_getElem _ _ hi'] at hsame

theorem getD_drop (bs : List Bool) (n i : ℕ) :
    (bs.drop n).getD i false = bs.getD (n + i) false := by
  rw [getD_eq_getElem?_getD, getElem?_drop, getD_eq_getElem?_getD]

/-- The number that the first bits of a list stand for. -/
theorem valueOf_take_succ {bs : List Bool} {k : ℕ} (hk : k < bs.length) :
    valueOf (bs.take (k + 1)) = 2 * valueOf (bs.take k) + (bs.getD k false).toNat := by
  induction bs generalizing k with
  | nil => exact absurd hk (not_lt_zero k)
  | cons b bs ih =>
    cases k with
    | zero => simp [valueOf]
    | succ k =>
      have hk' : k < bs.length := lt_of_succ_lt_succ hk
      have hlength : (bs.take (k + 1)).length = (bs.take k).length + 1 := by
        rw [length_take, length_take]
        omega
      rw [take_succ_cons, valueOf, ih hk', take_succ_cons, valueOf,
        getD_cons_succ, hlength, pow_succ]
      ring

end MsbBits
