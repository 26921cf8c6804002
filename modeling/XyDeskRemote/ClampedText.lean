/-
# Typed text that is cut

`clampTextUnits` goes over a text and takes a surrogate pair whole or not at all, up to 4096 units.
What it takes is the longest prefix of so many units that does not end inside a pair
(`clampTextUnits_longest`), with unpaired surrogates anywhere.
-/
import XyDeskRemote.HostInputCodec

open List

namespace XyHostInputCodec

/-- A prefix of `m` units ends between the halves of a surrogate pair. -/
def splitsPair (value : CodeUnits) : ℕ → Bool
  | 0 => false
  | m + 1 => Utf8.isHighSurrogate (value.getD m 0) && Utf8.isLowSurrogate (value.getD (m + 1) 0)

theorem splitsPair_cons (ch : UInt16) (value : CodeUnits) (m : ℕ) :
    splitsPair (ch :: value) (m + 2) = splitsPair value (m + 1) := rfl

theorem splitsPair_single {ch next : UInt16} {rest : CodeUnits}
    (h : (Utf8.isHighSurrogate ch && Utf8.isLowSurrogate next) = false) (m : ℕ) :
    splitsPair (ch :: next :: rest) (m + 1) = splitsPair (next :: rest) m := by
  cases m with
  | zero => exact h
  | succ m => exact splitsPair_cons ch (next :: rest) m

theorem isHighSurrogate_of_low {u : UInt16} (h : Utf8.isLowSurrogate u = true) :
    Utf8.isHighSurrogate u = false := by
  rw [Utf8.isLowSurrogate, Bool.and_eq_true, decide_eq_true_iff, decide_eq_true_iff,
    UInt16.le_iff_toNat_le, UInt16.le_iff_toNat_le] at h
  rw [Utf8.isHighSurrogate, Bool.and_eq_false_iff]
  refine .inr (decide_eq_false ?_)
  rw [UInt16.le_iff_toNat_le]
  have hlow : (0xDC00 : UInt16).toNat = 0xDC00 := rfl
  have hhigh : (0xDBFF : UInt16).toNat = 0xDBFF := rfl
  omega

theorem splitsPair_pair {ch next : UInt16} {rest : CodeUnits}
    (h : Utf8.isLowSurrogate next = true) (m : ℕ) :
    splitsPair (ch :: next :: rest) (m + 2) = splitsPair rest m := by
  cases m with
  | zero =>
    show (Utf8.isHighSurrogate next && _) = false
    rw [isHighSurrogate_of_low h, Bool.false_and]
  | succ m => rfl

/-- The longest prefix of a text, behind `units` units, that may be taken. -/
structure LongestFrom (units : ℕ) (value taken : CodeUnits) : Prop where
  isPrefix : taken <+: value
  fits : units + taken.length ≤ maxTextUnits
  whole : splitsPair value taken.length = false
  longest : ∀ m ≤ value.length, units + m ≤ maxTextUnits → splitsPair value m = false →
    m ≤ taken.length

theorem longestFrom_nil {units : ℕ} {value : CodeUnits} (hunits : units ≤ maxTextUnits)
    (h : ∀ m ≤ value.length, units + m ≤ maxTextUnits → splitsPair value m = false → m = 0) :
    LongestFrom units value [] where
  isPrefix := nil_prefix
  fits := hunits
  whole := rfl
  longest m hm hfits hwhole := Nat.le_of_eq (h m hm hfits hwhole)

/-- **The loop takes the longest prefix.** -/
theorem longestFrom_clampFrom {units : ℕ} {value : CodeUnits} (hunits : units ≤ maxTextUnits) :
    LongestFrom units value (clampFrom units value) := by
  induction units, value using clampFrom.induct with
  | case1 units => exact longestFrom_nil hunits fun m hm _ _ => Nat.le_zero.1 hm
  | case2 units ch hfull =>
    rw [clampFrom, if_pos hfull]
    refine longestFrom_nil hunits fun m hm hfits _ => ?_
    omega
  | case3 units ch hroom =>
    rw [clampFrom, if_neg hroom]
    refine ⟨prefix_refl _, Nat.le_of_not_lt hroom, ?_, fun m hm _ _ => hm⟩
    show (Utf8.isHighSurrogate ch && Utf8.isLowSurrogate 0) = false
    rw [show Utf8.isLowSurrogate 0 = false from rfl, Bool.and_false]
  | case4 units ch next rest hpair hfull =>
    rw [clampFrom, if_pos hpair, if_pos hfull]
    refine longestFrom_nil hunits fun m hm hfits hwhole => ?_
    -- a single unit would be the first half of the pair
    rcases m with _ | _ | m
    · rfl
    · exact absurd (hpair.symm.trans hwhole) (Bool.true_eq_false ▸ not_false)
    · omega
  | case5 units ch next rest hpair hroom ih =>
    have hrest := ih (Nat.le_of_not_lt hroom)
    have hlow : Utf8.isLowSurrogate next = true := (Bool.and_eq_true _ _ ▸ hpair).2
    rw [clampFrom, if_pos hpair, if_neg hroom]
    refine ⟨?_, ?_, ?_, fun m hm hfits hwhole => ?_⟩
    · exact (prefix_cons_inj ch).2 ((prefix_cons_inj next).2 hrest.isPrefix)
    · have hfits := hrest.fits
      rw [length_cons, length_cons]
      omega
    · rw [length_cons, length_cons, splitsPair_pair hlow]
      exact hrest.whole
    · rw [length_cons, length_cons]
      rcases m with _ | _ | m
      · exact Nat.zero_le _
      · exact Nat.le_add_left _ _
      · rw [splitsPair_pair hlow] at hwhole
        rw [length_cons, length_cons] at hm
        have hlongest := hrest.longest m (by omega) (by omega) hwhole
        omega
  | case6 units ch next rest hpair hfull =>
    rw [clampFrom, if_neg hpair, if_pos hfull]
    refine longestFrom_nil hunits fun m hm hfits _ => ?_
    omega
  | case7 units ch next rest hpair hroom ih =>
    have hrest := ih (Nat.le_of_not_lt hroom)
    have hsingle := Bool.eq_false_iff.2 hpair
    rw [clampFrom, if_neg hpair, if_neg hroom]
    refine ⟨?_, ?_, ?_, fun m hm hfits hwhole => ?_⟩
    · exact (prefix_cons_inj ch).2 hrest.isPrefix
    · have hfits := hrest.fits
      rw [length_cons]
      omega
    · rw [length_cons, splitsPair_single hsingle]
      exact hrest.whole
    · rw [length_cons]
      rcases m with _ | m
      · exact Nat.zero_le _
      · rw [splitsPair_single hsingle] at hwhole
        rw [length_cons] at hm
        have hlongest := hrest.longest m (by omega) (by omega) hwhole
        omega

/-- **What is taken of a text is its longest safe prefix**: of 4096 units at most, and not ending
inside a surrogate pair of the text.  A text that fits is taken whole. -/
theorem clampTextUnits_longest (value : CodeUnits) :
    clampTextUnits value <+: value ∧ (clampTextUnits value).length ≤ maxTextUnits ∧
      splitsPair value (clampTextUnits value).length = false ∧
      (∀ longer, longer <+: value → longer.length ≤ maxTextUnits →
        splitsPair value longer.length = false →
          longer.length ≤ (clampTextUnits value).length) ∧
      (value.length ≤ maxTextUnits → clampTextUnits value = value) := by
  have hlongest : LongestFrom 0 value (clampTextUnits value) :=
    longestFrom_clampFrom (Nat.zero_le _)
  refine ⟨hlongest.isPrefix, ?_, hlongest.whole, fun longer hstem hfits hwhole => ?_,
    fun hfits => clampTextUnits_eq_self hfits⟩
  · have hfits := hlongest.fits
    rwa [Nat.zero_add] at hfits
  · exact hlongest.longest _ hstem.length_le (by rwa [Nat.zero_add]) hwhole

/-- A pair that fits, taken whole. -/
theorem clampTextUnits_longest_pair :
    clampTextUnits [0x41, 0xD83D, 0xDE00] = [0x41, 0xD83D, 0xDE00] :=
  (clampTextUnits_longest [0x41, 0xD83D, 0xDE00]).2.2.2.2 (by decide)

end XyHostInputCodec
