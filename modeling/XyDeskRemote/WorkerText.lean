/-
# Text in the worker

The worker's strings are lists of UTF-16 code units (`CodeUnits`); `lit` is a literal of
its source.  `replace(/[^..]/g, "")` is `List.filter`, `slice(0, n)` is `List.take n` and
`split` is `List.splitOn`.
-/
import XyDeskRemote.WebText

open List

namespace WorkerText

/-- A string literal. -/
def lit (s : String) : CodeUnits := s.toList.map fun c => UInt16.ofNat c.toNat

/-- The white space and line terminators of the language: what `trim` drops and a
regular expression calls a space. -/
def isSpace (u : UInt16) : Bool :=
  (9 ≤ u && u ≤ 13) || u = 0x20 || u = 0xA0 || u = 0x1680 || (0x2000 ≤ u && u ≤ 0x200A) ||
    u = 0x2028 || u = 0x2029 || u = 0x202F || u = 0x205F || u = 0x3000 || u = 0xFEFF

/-- `s.trim()`. -/
def trim (s : CodeUnits) : CodeUnits :=
  ((s.dropWhile isSpace).reverse.dropWhile isSpace).reverse

/-- A text none of whose characters is dropped keeps its ends. -/
theorem dropEnds_eq_self {drops : UInt16 → Bool} {s : CodeUnits}
    (h : ∀ u ∈ s, drops u = false) : ((s.dropWhile drops).reverse.dropWhile drops).reverse = s := by
  have hdrop : ∀ {t : CodeUnits}, (∀ u ∈ t, drops u = false) → t.dropWhile drops = t := by
    intro t ht
    cases t with
    | nil => rfl
    | cons u t =>
      rw [dropWhile_cons_of_neg]
      rw [ht u mem_cons_self]
      decide
  have hreverse : ∀ u ∈ s.reverse, drops u = false := by
    intro u hu
    exact h u (mem_reverse.1 hu)
  rw [hdrop h, hdrop hreverse, reverse_reverse]

/-- A text without white space is not changed by `trim`. -/
theorem trim_eq_self {s : CodeUnits} (h : ∀ u ∈ s, isSpace u = false) : trim s = s :=
  dropEnds_eq_self h

/-! ## Separators -/

/-- A separator that is the last one splits a text in one way. -/
theorem append_cons_inj_right {α : Type*} {sep : α} {a b x y : List α} (hx : sep ∉ x)
    (hy : sep ∉ y) (h : a ++ sep :: x = b ++ sep :: y) : a = b ∧ x = y := by
  have hsuffix : ∀ {a b x y m : List α}, sep ∉ x → b = a ++ m →
      sep :: x = m ++ sep :: y → a = b ∧ x = y := by
    rintro a b x y m hx rfl h
    cases m with
    | nil =>
      rw [nil_append, List.cons.injEq] at h
      exact ⟨(append_nil a).symm, h.2⟩
    | cons u m =>
      rw [cons_append, List.cons.injEq] at h
      rw [h.2] at hx
      exact absurd (mem_append_right m mem_cons_self) hx
  rcases append_eq_append_iff.1 h with ⟨m, hb, hm⟩ | ⟨m, ha, hm⟩
  · exact hsuffix hx hb hm
  · obtain ⟨hba, hyx⟩ := hsuffix hy ha hm
    exact ⟨hba.symm, hyx.symm⟩

/-- A separator that is the first one splits a text in one way. -/
theorem append_cons_inj_left {α : Type*} {sep : α} {a b x y : List α} (ha : sep ∉ a)
    (hb : sep ∉ b) (h : a ++ sep :: x = b ++ sep :: y) : a = b ∧ x = y := by
  have hreverse : x.reverse ++ sep :: a.reverse = y.reverse ++ sep :: b.reverse := by
    simpa using congrArg reverse h
  obtain ⟨hxy, hab⟩ := append_cons_inj_right (mt mem_reverse.1 ha)
    (mt mem_reverse.1 hb) hreverse
  exact ⟨reverse_inj.1 hab, reverse_inj.1 hxy⟩

/-! ## Characters -/

/-- `[a-zA-Z0-9]`. -/
def isAlphanumeric (u : UInt16) : Bool :=
  (0x61 ≤ u && u ≤ 0x7A) || (0x41 ≤ u && u ≤ 0x5A) || (0x30 ≤ u && u ≤ 0x39)

/-- A hexadecimal digit, upper case. -/
def hexDigit (n : Nat) : UInt16 := UInt16.ofNat (if n < 10 then 0x30 + n else 0x37 + n)

/-- The marks a URI component keeps. -/
def uriMarks : CodeUnits := [0x2D, 0x5F, 0x2E, 0x21, 0x7E, 0x2A, 0x27, 0x28, 0x29]

/-- A scalar value in a URI component: itself, or its bytes behind percent signs. -/
def percentEncode (cp : Nat) : CodeUnits :=
  let u := UInt16.ofNat cp
  if cp < 0x80 && (isAlphanumeric u || u ∈ uriMarks) then [u]
  else
    (Utf8.encodeScalar cp).flatMap fun b =>
      [0x25, hexDigit (b.toNat / 16), hexDigit (b.toNat % 16)]

/-- `encodeURIComponent(s)`, which raises on a lone surrogate. -/
def encodeURIComponent : CodeUnits → Option CodeUnits
  | [] => some []
  | [u] =>
    if Utf8.isHighSurrogate u || Utf8.isLowSurrogate u then none
    else some (percentEncode u.toNat)
  | u :: v :: rest =>
    if Utf8.isHighSurrogate u then
      if Utf8.isLowSurrogate v then
        (encodeURIComponent rest).map fun s => percentEncode (Utf8.pairScalar u v) ++ s
      else none
    else if Utf8.isLowSurrogate u then none
    else (encodeURIComponent (v :: rest)).map fun s => percentEncode u.toNat ++ s

/-- The text of `crypto.randomUUID()`: hexadecimal digits and dashes. -/
structure Uuid where
  text : CodeUnits
  digits : ∀ u ∈ text, u ∈ lit "0123456789abcdef-"

/-- The first twelve digits of a UUID, without its dashes. -/
def Uuid.nonce (uuid : Uuid) : CodeUnits := (uuid.text.filter fun u => u ≠ 0x2D).take 12

end WorkerText
