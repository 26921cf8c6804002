/-
# Text in the Android client

The strings of Kotlin are lists of UTF-16 code units, as in the worker, but the library
has tables of its own: its white space is not the one of JavaScript, and a digit is any
decimal digit of Unicode.  `replace` of a character by nothing is `List.filter`,
`split(c)` is `List.splitOn c`, `indexOf` is `List.idxOf?`, `padStart` is `List.leftpad`.

Upper case is a table of its own, too: `UpperCase` is any such table that takes ASCII
letters one by one.
-/
import Mathlib.Data.List.DropRight
import XyDeskRemote.Numeral
import XyDeskRemote.WorkerText

open Numeral List

namespace KotlinText

open WorkerText

/-! ## Characters -/

/-- `isWhitespace`: `Character.isWhitespace` or `Character.isSpaceChar`. -/
def isWhitespace (u : UInt16) : Bool :=
  (0x09 ≤ u && u ≤ 0x0D) || (0x1C ≤ u && u ≤ 0x20) || u = 0xA0 || u = 0x1680 ||
    (0x2000 ≤ u && u ≤ 0x200A) || u = 0x2028 || u = 0x2029 || u = 0x202F || u = 0x205F ||
    u = 0x3000

/-- The zeros of the scripts that have decimal digits in one code unit. -/
def decimalZeros : List Nat :=
  [0x0030, 0x0660, 0x06F0, 0x07C0, 0x0966, 0x09E6, 0x0A66, 0x0AE6, 0x0B66, 0x0BE6, 0x0C66,
    0x0CE6, 0x0D66, 0x0DE6, 0x0E50, 0x0ED0, 0x0F20, 0x1040, 0x1090, 0x17E0, 0x1810, 0x1946,
    0x19D0, 0x1A80, 0x1A90, 0x1B50, 0x1BB0, 0x1C40, 0x1C50, 0xA620, 0xA8D0, 0xA900, 0xA9D0,
    0xA9F0, 0xAA50, 0xABF0, 0xFF10]

/-- The digit of some script. -/
def decimalDigit (u : UInt16) : Option Nat :=
  (decimalZeros.find? fun z => z ≤ u.toNat && u.toNat < z + 10).map (u.toNat - ·)

/-- A decimal digit of Unicode. -/
def isDigit (u : UInt16) : Bool := (decimalDigit u).isSome

/-- A letter, also a full-width one, as a digit from ten on. -/
def letterDigit (u : UInt16) : Option Nat :=
  ([0x41, 0x61, 0xFF21, 0xFF41].find? fun a => a ≤ u.toNat && u.toNat < a + 26).map
    fun a => u.toNat - a + 10

/-- `digitOf`, which is `Character.digit`. -/
def digitOf (radix : Nat) (u : UInt16) : Option Nat :=
  ((decimalDigit u).orElse fun _ => letterDigit u).filter (· < radix)

/-! ## Strings -/

/-- `s.trim()`. -/
def trim (s : CodeUnits) : CodeUnits := (s.dropWhile isWhitespace).rdropWhile isWhitespace

/-- `s.isBlank()`. -/
def isBlank (s : CodeUnits) : Bool := s.all isWhitespace

/-- `s.lastIndexOf(u)`. -/
def lastIndexOf (u : UInt16) (s : CodeUnits) : Option Nat :=
  (s.reverse.idxOf? u).map (s.length - 1 - ·)

/-- An ASCII letter in upper case. -/
def asciiUpper (u : UInt16) : UInt16 := if 0x61 ≤ u && u ≤ 0x7A then u - 0x20 else u

/-- `uppercase()`. -/
structure UpperCase where
  uppercase : CodeUnits → CodeUnits
  ascii : ∀ s, (∀ u ∈ s, u < 0x80) → uppercase s = s.map asciiUpper

/-- The number of a text of digits. -/
def digitsOf (radix : Nat) (s : CodeUnits) : Option Nat :=
  s.foldlM (fun v u => (digitOf radix u).map (v * radix + ·)) 0

/-- `toIntOrNull` and `toLongOrNull`: digits behind an optional sign, in the range of the
type. -/
def toNumberOrNull (minValue maxValue : Int) (radix : Nat) (s : CodeUnits) : Option Int :=
  let inRange (n : Int) : Option Int := if minValue ≤ n ∧ n ≤ maxValue then some n else none
  match s with
  | [] => none
  | u :: rest =>
    if u < 0x30 then
      if rest = [] then none
      else if u = 0x2D then (digitsOf radix rest).bind fun n => inRange (-n)
      else if u = 0x2B then (digitsOf radix rest).bind fun n => inRange n
      else none
    else (digitsOf radix s).bind fun n => inRange n

/-- `toIntOrNull`. -/
def toIntOrNull (s : CodeUnits) : Option Int := toNumberOrNull (-2 ^ 31) (2 ^ 31 - 1) 10 s

/-- `toLongOrNull`. -/
def toLongOrNull (radix : Nat) (s : CodeUnits) : Option Int :=
  toNumberOrNull (-2 ^ 63) (2 ^ 63 - 1) radix s

/-! ## Numbers in texts -/

/-- A digit below ten, as an ASCII character. -/
def digitUnit (d : Nat) : UInt16 := UInt16.ofNat (0x30 + d)

/-- `n.toString()`. -/
def decimal (n : Nat) : CodeUnits := (digits 10 n).map digitUnit

/-- `n.toString()` of a number that may be negative. -/
def decimalInt (n : Int) : CodeUnits := if n < 0 then 0x2D :: decimal n.natAbs else decimal n.toNat

/-- What a digit is to the functions above. -/
theorem digitUnit_spec {d : Nat} (h : d < 10) :
    0x30 ≤ digitUnit d ∧ digitUnit d ≤ 0x39 ∧ isWhitespace (digitUnit d) = false ∧
      digitOf 10 (digitUnit d) = some d ∧ isDigit (digitUnit d) = true := by
  revert d
  decide

theorem mem_map_digitUnit {ds : List Nat} (hds : ∀ d ∈ ds, d < 10) {u : UInt16}
    (h : u ∈ ds.map digitUnit) : ∃ d < 10, digitUnit d = u := by
  obtain ⟨d, hd, hu⟩ := mem_map.1 h
  exact ⟨d, hds d hd, hu⟩

theorem digitsOf_map_digitUnit {ds : List Nat} (hds : ∀ d ∈ ds, d < 10) :
    digitsOf 10 (ds.map digitUnit) = some (value 10 ds) := by
  rw [digitsOf, foldlM_map]
  have hfold : ∀ {es : List Nat} (v : Nat), (∀ d ∈ es, d < 10) →
      es.foldlM (fun v d => (digitOf 10 (digitUnit d)).map (v * 10 + ·)) v =
        some (es.foldl (fun v d => v * 10 + d) v) := by
    intro es
    induction es with
    | nil => exact fun v _ => rfl
    | cons d es ih =>
      intro v hes
      obtain ⟨-, -, -, hdigit, -⟩ := digitUnit_spec (hes d mem_cons_self)
      rw [foldlM_cons, hdigit]
      exact ih _ fun e he => hes e (mem_cons_of_mem d he)
  exact hfold 0 hds

/-- **A text of digits is read as its value**, when that is in the range. -/
theorem toNumberOrNull_digits {minValue maxValue : Int} {ds : List Nat}
    (hds : ∀ d ∈ ds, d < 10) (hne : ds ≠ []) (hmin : minValue ≤ value 10 ds)
    (hmax : value 10 ds ≤ maxValue) :
    toNumberOrNull minValue maxValue 10 (ds.map digitUnit) = some (value 10 ds : Int) := by
  cases ds with
  | nil => exact absurd rfl hne
  | cons d ds =>
    obtain ⟨hzero, -⟩ := digitUnit_spec (hds d mem_cons_self)
    have hsign : ¬ digitUnit d < 0x30 := UInt16.not_lt.2 hzero
    have hvalue := digitsOf_map_digitUnit hds
    rw [map_cons] at hvalue ⊢
    simp only [toNumberOrNull, if_neg hsign, hvalue, Option.bind_some]
    exact if_pos ⟨hmin, hmax⟩

theorem decimal_digits (n : Nat) : ∀ d ∈ digits 10 n, d < 10 :=
  fun _ hd => digits_lt (by decide) hd

/-- Numbers have texts of their own. -/
theorem decimal_injective : Function.Injective decimal := by
  intro n m h
  have hn := digitsOf_map_digitUnit (decimal_digits n)
  have hm := digitsOf_map_digitUnit (decimal_digits m)
  rw [value_digits] at hn hm
  exact Option.some.inj (hn.symm.trans ((congrArg (digitsOf 10) h).trans hm))

/-- What is in a number's text. -/
theorem mem_decimal {n : Nat} {u : UInt16} (h : u ∈ decimal n) :
    0x30 ≤ u ∧ u ≤ 0x39 ∧ isWhitespace u = false := by
  obtain ⟨d, hd, rfl⟩ := mem_map_digitUnit (decimal_digits n) h
  obtain ⟨hlow, hhigh, hspace, -⟩ := digitUnit_spec hd
  exact ⟨hlow, hhigh, hspace⟩

theorem toIntOrNull_decimal {n : Nat} (h : n < 2 ^ 31) :
    toIntOrNull (decimal n) = some (n : Int) := by
  have hvalue : value 10 (digits 10 n) = n := value_digits 10 n
  have hread : toIntOrNull (decimal n) =
      some (value 10 (digits 10 n) : Int) :=
    toNumberOrNull_digits (decimal_digits n) (digits_ne_nil 10 n) (by omega)
      (by omega)
  rw [hread, hvalue]

/-! ## Texts without white space -/

/-- A text without white space is not changed by `trim`. -/
theorem trim_eq_self {s : CodeUnits} (h : ∀ u ∈ s, isWhitespace u = false) : trim s = s :=
  dropEnds_eq_self h

theorem trim_isInfix (s : CodeUnits) : trim s <:+: s :=
  (List.rdropWhile_prefix isWhitespace _).isInfix.trans (dropWhile_suffix isWhitespace).isInfix

/-- **A text keeps what `trim` drops nowhere**: neither its first nor its last character is
white space. -/
theorem trim_eq_self_iff {s : CodeUnits} :
    trim s = s ↔ (∀ u, s.head? = some u → isWhitespace u = false) ∧
      ∀ u, s.getLast? = some u → isWhitespace u = false := by
  constructor
  · intro h
    have hfront : s.dropWhile isWhitespace = s := by
      apply (dropWhile_suffix isWhitespace).eq_of_length
      apply Nat.le_antisymm (dropWhile_suffix isWhitespace).length_le
      have hback := (List.rdropWhile_prefix isWhitespace (s.dropWhile isWhitespace)).length_le
      rwa [← trim, h] at hback
    constructor
    · intro u hu
      cases s with
      | nil => cases hu
      | cons v s =>
        obtain rfl := Option.some.inj hu
        have hnot := dropWhile_eq_self_iff.1 hfront (Nat.succ_pos _)
        exact Bool.eq_false_of_not_eq_true hnot
    · intro u hu
      rw [trim, hfront] at h
      have hne : s ≠ [] := by
        rintro rfl
        cases hu
      rw [getLast?_eq_some_getLast hne] at hu
      rw [← Option.some.inj hu]
      exact Bool.eq_false_of_not_eq_true (rdropWhile_eq_self_iff.1 h hne)
  · rintro ⟨hhead, hlast⟩
    have hfront : s.dropWhile isWhitespace = s := by
      apply dropWhile_eq_self_iff.2
      intro hlength
      cases s with
      | nil => exact absurd hlength (Nat.lt_irrefl 0)
      | cons v s =>
        rw [getElem_cons_zero, hhead v rfl]
        decide
    rw [trim, hfront]
    apply rdropWhile_eq_self_iff.2
    intro hne
    rw [hlast _ (getLast?_eq_some_getLast hne)]
    decide

/-- `trim` removes white space only. -/
theorem mem_trim {s : CodeUnits} {u : UInt16} (hu : u ∈ s) (hw : isWhitespace u = false) :
    u ∈ trim s := by
  -- what the one or the other end loses is white space
  have hkeep : ∀ {t : CodeUnits}, u ∈ t → u ∈ t.dropWhile isWhitespace := by
    intro t ht
    rw [← takeWhile_append_dropWhile (p := isWhitespace) (l := t)] at ht
    rcases mem_append.1 ht with htake | hdrop
    · rw [mem_takeWhile_imp htake] at hw
      cases hw
    · exact hdrop
  rw [trim, rdropWhile, mem_reverse]
  exact hkeep (mem_reverse.2 (hkeep hu))

/-- A trimmed text is blank only when it is empty. -/
theorem not_isBlank_trim {s : CodeUnits} (h : trim s ≠ []) : isBlank (trim s) = false := by
  have hlast := rdropWhile_last_not isWhitespace (s.dropWhile isWhitespace) h
  rw [isBlank, all_eq_false]
  exact ⟨_, getLast_mem h, hlast⟩

/-- A character that occurs once is found from both sides. -/
theorem indexOf_append_cons {u : UInt16} {a b : CodeUnits} (ha : u ∉ a) :
    (a ++ u :: b).idxOf? u = some a.length := by
  rw [idxOf?_eq_some_iff]
  refine ⟨by simp, by simp, fun j hj => ?_⟩
  rw [getElem_append_left hj]
  intro heq
  exact ha (heq ▸ getElem_mem hj)

theorem lastIndexOf_append_cons {u : UInt16} {a b : CodeUnits} (hb : u ∉ b) :
    lastIndexOf u (a ++ u :: b) = some a.length := by
  have hreverse : (a ++ u :: b).reverse = b.reverse ++ u :: a.reverse := by simp
  rw [lastIndexOf, hreverse, indexOf_append_cons (mt mem_reverse.1 hb), Option.map_some,
    length_append, length_cons, length_reverse]
  congr 1
  omega

/-- A character is not found, or the text is split at its last occurrence. -/
theorem lastIndexOf_cases (u : UInt16) (s : CodeUnits) :
    (u ∉ s ∧ lastIndexOf u s = none) ∨
      ∃ a b, s = a ++ u :: b ∧ u ∉ b ∧ lastIndexOf u s = some a.length := by
  by_cases hu : u ∈ s
  · obtain ⟨b, a, hsplit, hnot⟩ := eq_append_cons_of_mem (mem_reverse.2 hu)
    have hs : s = a.reverse ++ u :: b.reverse := by
      rw [← reverse_reverse s, hsplit, reverse_append, reverse_cons, append_assoc, singleton_append]
    refine Or.inr ⟨a.reverse, b.reverse, hs, mt mem_reverse.1 hnot, ?_⟩
    rw [hs]
    exact lastIndexOf_append_cons (mt mem_reverse.1 hnot)
  · refine Or.inl ⟨hu, ?_⟩
    rw [lastIndexOf, idxOf?_eq_none_iff.2 (mt mem_reverse.1 hu)]
    rfl

end KotlinText
