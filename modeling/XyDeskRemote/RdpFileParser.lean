/-
# Files of options

`RDPFileParser` reads a file line by line: a name, a letter for the type and a value, with colons
between.  Names are lowered, a later line wins, and a file with too many lines, or too many that
are none of its own, is refused.

A file whose lines are written from a table of options with different names is read as that table
(`parse_settings`).
-/
import XyDeskRemote.KotlinText

open List Function

namespace RDPFileParser

open KotlinText
open WorkerText (lit)

/-! ## Java's texts -/

/-- `toLowerCase(Locale.ENGLISH)`. -/
structure LowerCaseTable where
  toLowerCase : CodeUnits → CodeUnits
  ascii : ∀ s, (∀ u ∈ s, u < 0x80) →
    toLowerCase s = s.map fun u => if 0x41 ≤ u && u ≤ 0x5A then u + 0x20 else u

/-- A table for ASCII. -/
def LowerCaseTable.ofAscii : LowerCaseTable where
  toLowerCase s := s.map fun u => if 0x41 ≤ u && u ≤ 0x5A then u + 0x20 else u
  ascii _ _ := rfl

/-- `Integer.parseInt`; `none` is a `NumberFormatException`. -/
def parseInt (s : CodeUnits) : Option Int32 := (toIntOrNull s).map Int32.ofInt

/-- `Integer.toString`. -/
def intText (n : Int32) : CodeUnits := decimalInt n.toInt

/-- The lines of a `BufferedReader`, behind what has been read of one; the flag says that the line
before ended with a carriage return, and a line feed belongs to it. -/
def readLines (skipLF : Bool) (line : CodeUnits) : CodeUnits → List CodeUnits
  | [] => if line = [] then [] else [line]
  | u :: s =>
    if u = 0x0A then
      if skipLF then readLines false line s else line :: readLines false [] s
    else if u = 0x0D then line :: readLines true [] s
    else readLines false (line ++ [u]) s

/-- `line.split(":", 3)`, when there are three fields. -/
def split (line : CodeUnits) : Option (CodeUnits × CodeUnits × CodeUnits) :=
  (line.idxOf? 0x3A).bind fun i =>
    ((line.drop (i + 1)).idxOf? 0x3A).map fun j =>
      (line.take i, (line.drop (i + 1)).take j, (line.drop (i + 1)).drop (j + 1))

/-! ## The parser -/

/-- The values of a file. -/
inductive OptionValue where
  | string (s : CodeUnits)
  | integer (i : Int32)

/-- The values by their names. -/
abbrev Options := CodeUnits → Option OptionValue

/-- `MAX_ERRORS`. -/
def maxErrors : ℕ := 20

/-- `MAX_LINES`. -/
def maxLines : ℕ := 500

/-- The body of the loop: the options behind a line, and whether it is one. -/
def parseLine (lower : LowerCaseTable) (options : Options) (line : CodeUnits) : Options × Bool :=
  match split line with
  | none => (options, false)
  | some (name, type, value) =>
    if type = lit "s" then
      (Function.update options (lower.toLowerCase name) (some (.string value)), true)
    else if type = lit "i" then
      match parseInt value with
      | some i =>
        (Function.update options (lower.toLowerCase name) (some (.integer i)), true)
      | none => (options, false)
    else (options, type = lit "b")

/-- The loop; `none` is an `IOException`. -/
def parseLines (lower : LowerCaseTable) (errors lines : ℕ) (options : Options) :
    List CodeUnits → Option Options
  | [] => some options
  | line :: rest =>
    if errors > maxErrors ∨ lines + 1 > maxLines then none
    else
      let (options, ok) := parseLine lower options line
      parseLines lower (if ok then errors else errors + 1) (lines + 1) options rest

/-- `parse`. -/
def parse (lower : LowerCaseTable) (text : CodeUnits) : Option Options :=
  parseLines lower 0 0 (fun _ => none) (readLines false [] text)

/-- `getString`. -/
def getString (options : Options) (optionName : CodeUnits) : Option CodeUnits :=
  match options optionName with
  | some (.string s) => some s
  | _ => none

/-- `getInteger`. -/
def getInteger (options : Options) (optionName : CodeUnits) : Option Int32 :=
  match options optionName with
  | some (.integer i) => some i
  | _ => none

/-! ## Written options -/

/-- The line of an option. -/
def lineOf (name : CodeUnits) : OptionValue → CodeUnits
  | .string s => name ++ 0x3A :: lit "s" ++ 0x3A :: s
  | .integer i => name ++ 0x3A :: lit "i" ++ 0x3A :: intText i

/-- A table of options as a file; an option without a value is not written. -/
def settingsText (settings : List (CodeUnits × Option OptionValue)) : CodeUnits :=
  settings.flatMap fun setting =>
    setting.2.elim [] fun value => lineOf setting.1 value ++ lit "\r\n"

/-- The lines of that file. -/
def settingsLines (settings : List (CodeUnits × Option OptionValue)) : List CodeUnits :=
  settings.filterMap fun setting => setting.2.map (lineOf setting.1)

/-- No line ends inside. -/
def NoLineBreak (s : CodeUnits) : Prop := ∀ u ∈ s, u ≠ 0x0D ∧ u ≠ 0x0A

instance (s : CodeUnits) : Decidable (NoLineBreak s) :=
  inferInstanceAs (Decidable (∀ u ∈ s, u ≠ 0x0D ∧ u ≠ 0x0A))

/-- A name as the program writes it. -/
def PlainName (name : CodeUnits) : Prop :=
  ∀ u ∈ name, u < 0x80 ∧ u ≠ 0x3A ∧ u ≠ 0x0D ∧ u ≠ 0x0A ∧ (0x41 ≤ u && u ≤ 0x5A) = false

instance (name : CodeUnits) : Decidable (PlainName name) :=
  inferInstanceAs (Decidable (∀ u ∈ name,
    u < 0x80 ∧ u ≠ 0x3A ∧ u ≠ 0x0D ∧ u ≠ 0x0A ∧ (0x41 ≤ u && u ≤ 0x5A) = false))

/-- No line break in a value. -/
def NoLineBreakIn : OptionValue → Prop
  | .string s => NoLineBreak s
  | .integer _ => True

section Texts

variable {s t name : CodeUnits}

/-- **An integer is read back from its text.** -/
theorem parseInt_intText (n : Int32) : parseInt (intText n) = some n := by
  have hlow := Int32.le_toInt n
  have hhigh := Int32.toInt_lt n
  have hread : toIntOrNull (intText n) = some n.toInt := by
    rw [intText, decimalInt]
    split
    · rename_i hneg
      have hvalue := digitsOf_map_digitUnit (decimal_digits n.toInt.natAbs)
      rw [Numeral.value_digits] at hvalue
      have hdigits : digitsOf 10 (decimal n.toInt.natAbs) = some n.toInt.natAbs := hvalue
      have hne : decimal n.toInt.natAbs ≠ [] := by
        rw [decimal, ne_eq, map_eq_nil_iff]
        exact Numeral.digits_ne_nil 10 _
      have hback : -(n.toInt.natAbs : ℤ) = n.toInt := by omega
      have hminus : (0x2D : UInt16) < 0x30 := by decide
      simp only [toIntOrNull, toNumberOrNull, if_pos hminus, if_neg hne, if_true, hdigits,
        Option.bind_some, hback]
      exact if_pos ⟨by omega, by omega⟩
    · rename_i hpos
      have hback : (n.toInt.toNat : ℤ) = n.toInt := Int.toNat_of_nonneg (Int.not_lt.1 hpos)
      rw [toIntOrNull_decimal (by omega), hback]
  rw [parseInt, hread, Option.map_some, Int32.ofInt_toInt]

theorem not_mem_intText {n : Int32} {u : UInt16} (hminus : u ≠ 0x2D)
    (hdigit : ¬ (0x30 ≤ u ∧ u ≤ 0x39)) : u ∉ intText n := by
  intro hu
  rw [intText, decimalInt] at hu
  split at hu
  · rcases mem_cons.1 hu with heq | hu
    · exact hminus heq
    · exact hdigit ⟨(mem_decimal hu).1, (mem_decimal hu).2.1⟩
  · exact hdigit ⟨(mem_decimal hu).1, (mem_decimal hu).2.1⟩

theorem noLineBreak_intText (n : Int32) : NoLineBreak (intText n) := by
  refine fun u hu => ⟨?_, ?_⟩
  · rintro rfl
    exact not_mem_intText (by decide) (by decide) hu
  · rintro rfl
    exact not_mem_intText (by decide) (by decide) hu

/-- Two texts with a colon between. -/
theorem NoLineBreak.colon (hs : NoLineBreak s) (ht : NoLineBreak t) :
    NoLineBreak (s ++ 0x3A :: t) := by
  intro u hu
  rcases mem_append.1 hu with hu | hu
  · exact hs u hu
  · rcases mem_cons.1 hu with rfl | hu
    · decide
    · exact ht u hu

theorem readLines_line {line : CodeUnits} (hs : NoLineBreak s) (rest : CodeUnits) :
    readLines false line (s ++ lit "\r\n" ++ rest) = (line ++ s) :: readLines false [] rest := by
  induction s generalizing line with
  | nil =>
    rw [append_nil]
    rfl
  | cons u s ih =>
    obtain ⟨hcr, hlf⟩ := hs u mem_cons_self
    rw [cons_append, cons_append, readLines, if_neg hlf, if_neg hcr,
      ih fun v hv => hs v (mem_cons_of_mem u hv), append_assoc, singleton_append]

theorem drop_behind (a : CodeUnits) (u : UInt16) (b : CodeUnits) :
    (a ++ u :: b).drop (a.length + 1) = b := by
  rw [← drop_drop, drop_left]
  rfl

/-- Three fields, of which only the last may have colons. -/
theorem split_fields {type : CodeUnits} (hname : 0x3A ∉ name) (htype : 0x3A ∉ type)
    (value : CodeUnits) :
    split (name ++ 0x3A :: type ++ 0x3A :: value) = some (name, type, value) := by
  have hline : name ++ 0x3A :: type ++ 0x3A :: value = name ++ 0x3A :: (type ++ 0x3A :: value) := by
    rw [append_assoc, cons_append]
  rw [split, hline, indexOf_append_cons hname, Option.bind_some, drop_behind,
    indexOf_append_cons htype, Option.map_some, take_left, take_left, drop_behind]

end Texts

/-- A table that fits into a file: names of their own, and values in one line each. -/
structure Writable (settings : List (CodeUnits × Option OptionValue)) : Prop where
  short : settings.length ≤ maxLines
  nodup : (settings.map Prod.fst).Nodup
  plain : ∀ setting ∈ settings, PlainName setting.1
  oneLine : ∀ setting ∈ settings, ∀ value ∈ setting.2, NoLineBreakIn value

section Settings

variable {lower : LowerCaseTable} {options : Options} {name : CodeUnits} {value : OptionValue}
  {settings : List (CodeUnits × Option OptionValue)}

theorem PlainName.not_colon (h : PlainName name) : 0x3A ∉ name := fun hu => (h _ hu).2.1 rfl

theorem PlainName.toLowerCase (h : PlainName name) : lower.toLowerCase name = name := by
  rw [lower.ascii name fun u hu => (h u hu).1]
  have hself : ∀ u ∈ name, (if 0x41 ≤ u && u ≤ 0x5A then u + 0x20 else u) = u := by
    intro u hu
    rw [(h u hu).2.2.2.2]
    rfl
  rw [map_congr_left hself, map_id']

theorem noLineBreak_lineOf (hname : PlainName name) (hvalue : NoLineBreakIn value) :
    NoLineBreak (lineOf name value) := by
  have hplain : NoLineBreak name := fun u hu => ⟨(hname u hu).2.2.1, (hname u hu).2.2.2.1⟩
  cases value with
  | string s => exact (hplain.colon (by decide)).colon hvalue
  | integer i => exact (hplain.colon (by decide)).colon (noLineBreak_intText i)

/-- **The line of an option** is read as the option. -/
theorem parseLine_lineOf (hname : PlainName name) :
    parseLine lower options (lineOf name value) =
      (Function.update options name (some value), true) := by
  cases value with
  | string s =>
    rw [lineOf, parseLine, split_fields hname.not_colon (by decide)]
    dsimp only
    rw [if_pos rfl, hname.toLowerCase]
  | integer i =>
    rw [lineOf, parseLine, split_fields hname.not_colon (by decide)]
    dsimp only
    rw [if_neg (by decide), if_pos rfl, parseInt_intText]
    dsimp only
    rw [hname.toLowerCase]

theorem readLines_settings (hplain : ∀ setting ∈ settings, PlainName setting.1)
    (hvalues : ∀ setting ∈ settings, ∀ value ∈ setting.2, NoLineBreakIn value) :
    readLines false [] (settingsText settings) = settingsLines settings := by
  induction settings with
  | nil => rfl
  | cons setting settings ih =>
    obtain ⟨name, value⟩ := setting
    have hrest := ih (fun x hx => hplain x (mem_cons_of_mem _ hx))
      fun x hx => hvalues x (mem_cons_of_mem _ hx)
    cases value with
    | none => exact hrest
    | some value =>
      have hline := noLineBreak_lineOf (hplain _ mem_cons_self)
        (hvalues _ mem_cons_self value rfl)
      have hlines : readLines false []
          (lineOf name value ++ lit "\r\n" ++ settingsText settings) =
            lineOf name value :: readLines false [] (settingsText settings) :=
        readLines_line hline (settingsText settings)
      rw [hrest] at hlines
      exact hlines

/-- **One round** of the loop, with the line of an option and no error before it. -/
theorem parseLines_lineOf (lower : LowerCaseTable) (options : Options) {lines : ℕ}
    (hshort : lines + 1 ≤ maxLines) (hname : PlainName name) (rest : List CodeUnits) :
    parseLines lower 0 lines options (lineOf name value :: rest) =
      parseLines lower 0 (lines + 1) (Function.update options name (some value)) rest := by
  have hlimit : ¬ (0 > maxErrors ∨ lines + 1 > maxLines) := by
    rw [not_or]
    exact ⟨Nat.not_lt_zero _, Nat.not_lt.2 hshort⟩
  rw [parseLines, if_neg hlimit, parseLine_lineOf hname]
  rfl

/-- **The loop** puts every option of a table whose names are still free, and no other. -/
theorem parseLines_settings (lower : LowerCaseTable) (options : Options) {lines : ℕ}
    (hshort : lines + settings.length ≤ maxLines)
    (hnodup : (settings.map Prod.fst).Nodup)
    (hplain : ∀ setting ∈ settings, PlainName setting.1)
    (hfree : ∀ setting ∈ settings, options setting.1 = none) :
    ∃ read, parseLines lower 0 lines options (settingsLines settings) = some read ∧
      (∀ setting ∈ settings, read setting.1 = setting.2) ∧
      ∀ name, name ∉ settings.map Prod.fst → read name = options name := by
  induction settings generalizing lines options with
  | nil => exact ⟨options, rfl, fun _ h => (nomatch h), fun _ _ => rfl⟩
  | cons setting settings ih =>
    obtain ⟨name, value⟩ := setting
    rw [map_cons, nodup_cons] at hnodup
    rw [length_cons] at hshort
    have hplain' : ∀ x ∈ settings, PlainName x.1 :=
      fun x hx => hplain x (mem_cons_of_mem _ hx)
    have hother : ∀ x ∈ settings, x.1 ≠ name := by
      rintro x hx rfl
      exact hnodup.1 (mem_map.2 ⟨x, hx, rfl⟩)
    cases value with
    | none =>
      obtain ⟨read, hparse, hread, hkeep⟩ :=
        ih options (show lines + settings.length ≤ maxLines by omega) hnodup.2 hplain'
          fun x hx => hfree x (mem_cons_of_mem _ hx)
      refine ⟨read, hparse, ?_, fun other hother => ?_⟩
      · intro x hx
        rcases mem_cons.1 hx with rfl | hx
        · rw [hkeep name hnodup.1]
          exact hfree _ mem_cons_self
        · exact hread x hx
      · exact hkeep other fun hmem => hother (mem_cons_of_mem _ hmem)
    | some value =>
      have hfree' : ∀ x ∈ settings, Function.update options name (some value) x.1 = none := by
        intro x hx
        rw [update_of_ne (hother x hx)]
        exact hfree x (mem_cons_of_mem _ hx)
      obtain ⟨read, hparse, hread, hkeep⟩ :=
        ih (Function.update options name (some value))
          (show lines + 1 + settings.length ≤ maxLines by omega) hnodup.2 hplain' hfree'
      refine ⟨read, ?_, ?_, fun other hnot => ?_⟩
      · refine (parseLines_lineOf lower options ?_ (hplain _ mem_cons_self) _).trans hparse
        omega
      · intro x hx
        rcases mem_cons.1 hx with rfl | hx
        · rw [hkeep name hnodup.1, update_self]
        · exact hread x hx
      · rw [map_cons, mem_cons, not_or] at hnot
        rw [hkeep other hnot.2, update_of_ne hnot.1]

/-- **A written table is read back**, and nothing else is. -/
theorem parse_settings (lower : LowerCaseTable) (h : Writable settings) :
    ∃ read, parse lower (settingsText settings) = some read ∧
      (∀ setting ∈ settings, read setting.1 = setting.2) ∧
      ∀ name, name ∉ settings.map Prod.fst → read name = none := by
  have hshort : 0 + settings.length ≤ maxLines := by
    rw [Nat.zero_add]
    exact h.short
  obtain ⟨read, hparse, hread, hkeep⟩ := parseLines_settings lower (fun _ => none) hshort h.nodup
    h.plain fun _ _ => rfl
  refine ⟨read, ?_, hread, hkeep⟩
  rw [parse, readLines_settings h.plain h.oneLine]
  exact hparse

end Settings

end RDPFileParser
