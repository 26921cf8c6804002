/-
# JSON texts

The grammar of JSON, as a function that reads an object from UTF-16 code units (`parse`):
white space, strings with their escapes, numbers, nested arrays and objects.  `printObject`
writes an object of plain members and escapes nothing.

Two facts relate them.  What is printed is read again when no string needs an escape
(`parse_printObject`).  And nothing shorter says the same (`plain_of_read`).
-/
import Mathlib.Data.List.TakeWhile
import Mathlib.Algebra.Order.BigOperators.Group.List
import XyDeskRemote.WebText
import XyDeskRemote.Numeral

open Numeral List

namespace JsonText

/-! ## Values -/

/-- A value.  A number with a fraction or an exponent is kept as it is written. -/
inductive Value where
  | null
  | boolean (b : Bool)
  | integer (n : ℤ)
  | decimal (token : CodeUnits)
  | string (s : CodeUnits)
  | array (items : List Value)
  | object (members : List (CodeUnits × Value))

/-- The member of a name; the last one counts. -/
def member : List (CodeUnits × Value) → CodeUnits → Option Value
  | [], _ => none
  | (n, v) :: ms, name =>
    match member ms name with
    | some w => some w
    | none => if n = name then some v else none

/-! ## Tokens -/

/-- White space. -/
def isSpace (u : UInt16) : Bool := u = 0x20 || u = 0x09 || u = 0x0A || u = 0x0D

/-- The text behind white space. -/
def skipSpace (s : CodeUnits) : CodeUnits := s.dropWhile isSpace

/-- A character that may stand in a string as it is. -/
def isPlain (u : UInt16) : Bool := 0x20 ≤ u && u ≠ 0x22 && u ≠ 0x5C

/-- The character of a two-character escape. -/
def escaped (u : UInt16) : Option UInt16 :=
  if u = 0x22 || u = 0x5C || u = 0x2F then some u
  else if u = 0x62 then some 0x08
  else if u = 0x66 then some 0x0C
  else if u = 0x6E then some 0x0A
  else if u = 0x72 then some 0x0D
  else if u = 0x74 then some 0x09
  else none

/-- The value of a hexadecimal digit. -/
def hexDigit (u : UInt16) : Option Nat :=
  let n := u.toNat
  if 0x30 ≤ n ∧ n ≤ 0x39 then some (n - 0x30)
  else if 0x41 ≤ n ∧ n ≤ 0x46 then some (n - 0x41 + 10)
  else if 0x61 ≤ n ∧ n ≤ 0x66 then some (n - 0x61 + 10)
  else none

/-- Where the reader of a string is: between characters, behind a backslash, or with
`needed + 1` hexadecimal digits to come. -/
inductive Inside where
  | plain
  | escape
  | hex (needed acc : Nat)

/-- A string from its opening quotation mark on: its characters and what follows it. -/
def stringFrom : Inside → CodeUnits → Option (CodeUnits × CodeUnits)
  | _, [] => none
  | .plain, u :: rest =>
    if u = 0x22 then some ([], rest)
    else if u = 0x5C then stringFrom .escape rest
    else if 0x20 ≤ u then (stringFrom .plain rest).map fun p => (u :: p.1, p.2)
    else none
  | .escape, u :: rest =>
    if u = 0x75 then stringFrom (.hex 3 0) rest
    else (escaped u).bind fun v => (stringFrom .plain rest).map fun p => (v :: p.1, p.2)
  | .hex needed acc, u :: rest =>
    (hexDigit u).bind fun d =>
      match needed with
      | 0 => (stringFrom .plain rest).map fun p => (UInt16.ofNat (acc * 16 + d) :: p.1, p.2)
      | needed + 1 => stringFrom (.hex needed (acc * 16 + d)) rest

/-- A decimal digit. -/
def isDigit (u : UInt16) : Bool := 0x30 ≤ u && u ≤ 0x39

/-- One digit or more. -/
def afterDigits (s : CodeUnits) : Option CodeUnits :=
  if s.takeWhile isDigit = [] then none else some (s.dropWhile isDigit)

/-- What follows a fraction, if there is one. -/
def afterFraction : CodeUnits → Option CodeUnits
  | [] => some []
  | u :: rest => if u = 0x2E then afterDigits rest else some (u :: rest)

/-- What follows an exponent, if there is one. -/
def afterExponent : CodeUnits → Option CodeUnits
  | [] => some []
  | u :: rest =>
    if u = 0x65 || u = 0x45 then
      match rest with
      | [] => none
      | sign :: digits =>
        if sign = 0x2B || sign = 0x2D then afterDigits digits else afterDigits (sign :: digits)
    else some (u :: rest)

/-- The number of decimal digits. -/
def valueOfDigits (digits : CodeUnits) : ℕ :=
  value 10 (digits.map fun u => u.toNat - 0x30)

/-- A number without its sign. -/
def unsigned (sign : ℤ) (s : CodeUnits) : Option (Value × CodeUnits) :=
  let digits := s.takeWhile isDigit
  let rest := s.dropWhile isDigit
  if digits = [] ∨ (digits.head? = some 0x30 ∧ digits.length ≠ 1) then none
  else
    (afterFraction rest).bind fun fraction =>
      (afterExponent fraction).map fun after =>
        if after = rest then (.integer (sign * valueOfDigits digits), after)
        else (.decimal (s.take (s.length - after.length)), after)

/-- A number in front. -/
def number : CodeUnits → Option (Value × CodeUnits)
  | [] => none
  | u :: rest => if u = 0x2D then unsigned (-1) rest else unsigned 1 (u :: rest)

/-- One of the three words. -/
def keyword (word : CodeUnits) (v : Value) (s : CodeUnits) : Option (Value × CodeUnits) :=
  if word.isPrefixOf s then some (v, s.drop word.length) else none

/-- `null`. -/
def nullWord : CodeUnits := [0x6E, 0x75, 0x6C, 0x6C]

/-- `true`. -/
def trueWord : CodeUnits := [0x74, 0x72, 0x75, 0x65]

/-- `false`. -/
def falseWord : CodeUnits := [0x66, 0x61, 0x6C, 0x73, 0x65]

/-! ## Objects and arrays -/

/-- The colon between a name and its value. -/
def afterColon : CodeUnits → Option CodeUnits
  | [] => none
  | u :: rest => if u = 0x3A then some (skipSpace rest) else none

mutual

/-- A value and what follows it; `fuel` bounds the nesting. -/
def value : ℕ → CodeUnits → Option (Value × CodeUnits)
  | 0, _ => none
  | _ + 1, [] => none
  | fuel + 1, u :: rest =>
    if u = 0x22 then (stringFrom .plain rest).map fun p => (.string p.1, p.2)
    else if u = 0x7B then
      (members fuel true (skipSpace rest)).map fun p => (.object p.1, p.2)
    else if u = 0x5B then
      (elements fuel true (skipSpace rest)).map fun p => (.array p.1, p.2)
    else if u = 0x6E then keyword nullWord .null (u :: rest)
    else if u = 0x74 then keyword trueWord (.boolean true) (u :: rest)
    else if u = 0x66 then keyword falseWord (.boolean false) (u :: rest)
    else number (u :: rest)

/-- The items of an array up to its closing bracket, which may stand before the first one
but not behind a comma. -/
def elements : ℕ → Bool → CodeUnits → Option (List Value × CodeUnits)
  | 0, _, _ => none
  | _ + 1, _, [] => none
  | fuel + 1, first, u :: rest =>
    if first && u = 0x5D then some ([], rest)
    else
      (value fuel (u :: rest)).bind fun p =>
        match skipSpace p.2 with
        | [] => none
        | w :: after =>
          if w = 0x2C then
            (elements fuel false (skipSpace after)).map fun q => (p.1 :: q.1, q.2)
          else if w = 0x5D then some ([p.1], after)
          else none

/-- The members of an object up to its closing brace. -/
def members : ℕ → Bool → CodeUnits → Option (List (CodeUnits × Value) × CodeUnits)
  | 0, _, _ => none
  | _ + 1, _, [] => none
  | fuel + 1, first, u :: rest =>
    if first && u = 0x7D then some ([], rest)
    else if u = 0x22 then
      (stringFrom .plain rest).bind fun name =>
        (afterColon (skipSpace name.2)).bind fun s =>
          (value fuel s).bind fun p =>
            match skipSpace p.2 with
            | [] => none
            | w :: after =>
              if w = 0x2C then
                (members fuel false (skipSpace after)).map fun q =>
                  ((name.1, p.1) :: q.1, q.2)
              else if w = 0x7D then some ([(name.1, p.1)], after)
              else none
    else none

end

/-- The members of the object that the whole text is. -/
def parse (s : CodeUnits) : Option (List (CodeUnits × Value)) :=
  match skipSpace s with
  | [] => none
  | u :: rest =>
    if u = 0x7B then
      (members s.length true (skipSpace rest)).bind fun p =>
        if skipSpace p.2 = [] then some p.1 else none
    else none

/-! ## Printing without escapes -/

/-- A value that is printed as one token. -/
inductive Scalar where
  | boolean (b : Bool)
  | natural (n : ℕ)
  | string (s : CodeUnits)

/-- The value of a scalar. -/
def Scalar.toValue : Scalar → Value
  | .boolean b => .boolean b
  | .natural n => .integer n
  | .string s => .string s

/-- No character needs an escape. -/
def Plain (s : CodeUnits) : Prop := ∀ u ∈ s, isPlain u = true

instance (s : CodeUnits) : Decidable (Plain s) :=
  inferInstanceAs (Decidable (∀ u ∈ s, isPlain u = true))

/-- A scalar that needs no escapes. -/
def Scalar.Plain : Scalar → Prop
  | .boolean _ => True
  | .natural _ => True
  | .string s => JsonText.Plain s

/-- A number in decimal digits. -/
def decimalDigits (n : ℕ) : CodeUnits :=
  (Numeral.digits 10 n).map fun d => UInt16.ofNat (0x30 + d)

/-- A string between quotation marks, in front of a text. -/
def printString (s rest : CodeUnits) : CodeUnits := 0x22 :: (s ++ 0x22 :: rest)

/-- A scalar in front of a text. -/
def Scalar.print : Scalar → CodeUnits → CodeUnits
  | .boolean b, rest => (if b then trueWord else falseWord) ++ rest
  | .natural n, rest => decimalDigits n ++ rest
  | .string s, rest => printString s rest

/-- Members with their closing brace, in front of a text. -/
def printMembers : List (CodeUnits × Scalar) → CodeUnits → CodeUnits
  | [], rest => 0x7D :: rest
  | [m], rest => printString m.1 (0x3A :: m.2.print (0x7D :: rest))
  | m :: m' :: ms, rest =>
    printString m.1 (0x3A :: m.2.print (0x2C :: printMembers (m' :: ms) rest))

/-- An object of scalars. -/
def printObject (ms : List (CodeUnits × Scalar)) : CodeUnits := 0x7B :: printMembers ms []

/-! ## What a text must cost -/

/-- The characters of a string that need an escape. -/
def escapes (s : CodeUnits) : ℕ := s.countP fun u => !isPlain u

/-- A string with its quotation marks and one unit more for each escape. -/
def stringWeight (s : CodeUnits) : ℕ := s.length + escapes s + 2

/-- A lower bound for the length of a value. -/
def weight : Value → ℕ
  | .boolean true => 4
  | .boolean false => 5
  | .integer n => (Numeral.digits 10 n.natAbs).length
  | .string s => stringWeight s
  | _ => 0

/-- A member with its colon and the comma or brace behind it. -/
def memberWeight (m : CodeUnits × Value) : ℕ := stringWeight m.1 + 1 + weight m.2 + 1

theorem length_dropWhile_le (p : UInt16 → Bool) (s : CodeUnits) :
    (s.dropWhile p).length ≤ s.length :=
  (dropWhile_suffix p).length_le

theorem length_skipSpace_le (s : CodeUnits) : (skipSpace s).length ≤ s.length :=
  length_dropWhile_le isSpace s

/-- What the reader has passed but not yet turned into characters. -/
def Inside.pending : Inside → ℕ
  | .plain => 0
  | .escape => 1
  | .hex _ _ => 1

/-- A character costs one unit, and one more if it needs an escape. -/
theorem escapes_cons_le (v : UInt16) (t : CodeUnits) :
    (v :: t).length + escapes (v :: t) ≤ t.length + escapes t + 2 := by
  unfold escapes
  rw [countP_cons, length_cons]
  split <;> omega

variable {s r : CodeUnits}

theorem length_stringFrom {st : Inside} {t : CodeUnits} (h : stringFrom st s = some (t, r)) :
    t.length + escapes t + r.length + 1 ≤ s.length + st.pending := by
  induction s generalizing st t r with
  | nil =>
    rw [stringFrom] at h
    cases h
  | cons u rest ih =>
    -- every branch that reads a character goes on in the plain state
    have hread : ∀ {v : UInt16},
        (stringFrom .plain rest).map (fun p => (v :: p.1, p.2)) = some (t, r) →
          ∃ t', t = v :: t' ∧ t'.length + escapes t' + r.length + 1 ≤ rest.length := by
      intro v hv
      obtain ⟨⟨t', r'⟩, hp, heq⟩ := Option.map_eq_some_iff.1 hv
      cases heq
      exact ⟨t', rfl, ih hp⟩
    rw [length_cons]
    cases st with
    | plain =>
      rw [stringFrom] at h
      show _ ≤ rest.length + 1 + 0
      split at h
      · cases h
        show 0 + 0 + _ + 1 ≤ _
        omega
      · split at h
        · have hrest : _ ≤ rest.length + 1 := ih h
          exact hrest
        · split at h
          · next hquote hslash hcontrol =>
              obtain ⟨t', rfl, ht'⟩ := hread h
              have hplain : isPlain u = true := by
                unfold isPlain
                simp [hquote, hslash, hcontrol]
              have hcount : escapes (u :: t') = escapes t' := by
                rw [escapes, countP_cons, hplain]
                rfl
              rw [hcount, length_cons]
              omega
          · cases h
    | escape =>
      rw [stringFrom] at h
      show _ ≤ rest.length + 1 + 1
      split at h
      · have hrest : _ ≤ rest.length + 1 := ih h
        omega
      · obtain ⟨v, -, hv⟩ := Option.bind_eq_some_iff.1 h
        obtain ⟨t', rfl, ht'⟩ := hread hv
        have hcons := escapes_cons_le v t'
        omega
    | hex needed acc =>
      rw [stringFrom] at h
      show _ ≤ rest.length + 1 + 1
      obtain ⟨d, -, hd⟩ := Option.bind_eq_some_iff.1 h
      cases needed with
      | zero =>
        obtain ⟨t', rfl, ht'⟩ := hread hd
        have hcons := escapes_cons_le (UInt16.ofNat (acc * 16 + d)) t'
        omega
      | succ needed =>
        have hrest : _ ≤ rest.length + 1 := ih hd
        omega

theorem length_afterDigits (h : afterDigits s = some r) :
    r.length ≤ s.length := by
  unfold afterDigits at h
  split at h
  · cases h
  · cases h
    exact length_dropWhile_le isDigit s

theorem length_afterFraction (h : afterFraction s = some r) :
    r.length ≤ s.length := by
  unfold afterFraction at h
  split at h
  · cases h
    exact Nat.le_refl 0
  · split at h
    · exact Nat.le_succ_of_le (length_afterDigits h)
    · cases h
      exact Nat.le_refl _

theorem length_afterExponent (h : afterExponent s = some r) :
    r.length ≤ s.length := by
  unfold afterExponent at h
  split at h
  · cases h
    exact Nat.le_refl 0
  · split at h
    · split at h
      · cases h
      · split at h
        · exact Nat.le_succ_of_le (Nat.le_succ_of_le (length_afterDigits h))
        · exact Nat.le_succ_of_le (length_afterDigits h)
    · cases h
      exact Nat.le_refl _

theorem digit_lt {u : UInt16} (h : isDigit u = true) : u.toNat - 0x30 < 10 := by
  unfold isDigit at h
  rw [Bool.and_eq_true, decide_eq_true_iff, decide_eq_true_iff] at h
  have hle : u.toNat ≤ 0x39 := h.2
  omega

/-- A number has no more digits than it was written with. -/
theorem length_digits_valueOfDigits {digits : CodeUnits} (hne : digits ≠ [])
    (h : ∀ u ∈ digits, isDigit u = true) :
    (Numeral.digits 10 (valueOfDigits digits)).length ≤ digits.length := by
  have hlt : ∀ d ∈ (digits.map fun u => u.toNat - 0x30).reverse, d < 10 := by
    intro d hd
    obtain ⟨u, hu, rfl⟩ := mem_map.1 (mem_reverse.1 hd)
    exact digit_lt (h u hu)
  apply length_digits_le (by decide) (length_pos_iff.2 hne)
  have hvalue := Nat.ofDigits_lt_base_pow_length (by decide : 1 < 10) hlt
  rw [length_reverse, length_map] at hvalue
  rw [valueOfDigits, value_eq_ofDigits]
  exact hvalue

variable {v : Value}

theorem length_unsigned {sign : ℤ} (hsign : sign.natAbs = 1) (h : unsigned sign s = some (v, r)) :
    weight v + r.length ≤ s.length := by
  unfold unsigned at h
  dsimp only at h
  split at h
  · cases h
  · next hdigits =>
      rw [not_or] at hdigits
      obtain ⟨fraction, hfraction, h⟩ := Option.bind_eq_some_iff.1 h
      obtain ⟨after, hafter, h⟩ := Option.map_eq_some_iff.1 h
      have hrest : after.length ≤ (s.dropWhile isDigit).length :=
        Nat.le_trans (length_afterExponent hafter) (length_afterFraction hfraction)
      have hsplit : (s.takeWhile isDigit).length + (s.dropWhile isDigit).length = s.length := by
        rw [← length_append, takeWhile_append_dropWhile]
      split at h
      · cases h
        have hcount := length_digits_valueOfDigits hdigits.1 fun u => mem_takeWhile_imp
        show (Numeral.digits 10 (sign * _).natAbs).length + _ ≤ _
        rw [Int.natAbs_mul, hsign, Nat.one_mul, Int.natAbs_natCast]
        omega
      · cases h
        show 0 + _ ≤ _
        omega

theorem length_number (h : number s = some (v, r)) :
    weight v + r.length ≤ s.length := by
  unfold number at h
  split at h
  · cases h
  · split at h
    · exact Nat.le_succ_of_le (length_unsigned (by decide) h)
    · exact length_unsigned (by decide) h

theorem length_keyword {word : CodeUnits} {w : Value} (hv : weight v ≤ word.length)
    (h : keyword word v s = some (w, r)) : weight w + r.length ≤ s.length := by
  unfold keyword at h
  split at h
  · next hprefix =>
      cases h
      have hlen := (List.isPrefixOf_iff_prefix.1 hprefix).length_le
      rw [length_drop]
      omega
  · cases h

theorem length_afterColon (h : afterColon s = some r) :
    r.length + 1 ≤ s.length := by
  unfold afterColon at h
  split at h
  · cases h
  · split at h
    · cases h
      exact Nat.succ_le_succ (length_skipSpace_le _)
    · cases h

/-- With this much fuel, nothing is shorter than its weight. -/
structure CostAt (fuel : ℕ) : Prop where
  value : ∀ s r v, value fuel s = some (v, r) → weight v + r.length ≤ s.length
  elements : ∀ first s r items, elements fuel first s = some (items, r) → r.length ≤ s.length
  members : ∀ first s r ms, members fuel first s = some (ms, r) →
    (ms.map memberWeight).sum + r.length ≤ s.length

variable {fuel : ℕ}

theorem CostAt.value_succ (ih : CostAt fuel) (h : JsonText.value (fuel + 1) s = some (v, r)) :
    weight v + r.length ≤ s.length := by
  cases s with
  | nil => cases (JsonText.value.eq_2 fuel).symm.trans h
  | cons u rest =>
    rw [JsonText.value] at h
    have hspace := length_skipSpace_le rest
    rw [length_cons]
    split at h
    · obtain ⟨⟨t, r'⟩, hp, heq⟩ := Option.map_eq_some_iff.1 h
      cases heq
      have hlen : _ ≤ rest.length + 0 := length_stringFrom hp
      show t.length + escapes t + 2 + r'.length ≤ _
      omega
    · split at h
      · obtain ⟨⟨ms, r'⟩, hp, heq⟩ := Option.map_eq_some_iff.1 h
        cases heq
        have hlen := ih.members _ _ _ _ hp
        show 0 + r'.length ≤ _
        omega
      · split at h
        · obtain ⟨⟨items, r'⟩, hp, heq⟩ := Option.map_eq_some_iff.1 h
          cases heq
          have hlen := ih.elements _ _ _ _ hp
          show 0 + r'.length ≤ _
          omega
        · split at h
          · have hword : weight .null ≤ nullWord.length := Nat.zero_le 4
            exact length_keyword hword h
          · split at h
            · have hword : weight (.boolean true) ≤ trueWord.length := Nat.le_refl 4
              exact length_keyword hword h
            · split at h
              · have hword : weight (.boolean false) ≤ falseWord.length := Nat.le_refl 5
                exact length_keyword hword h
              · exact length_number h

theorem CostAt.elements_succ (ih : CostAt fuel) {first : Bool} {items : List Value}
    (h : JsonText.elements (fuel + 1) first s = some (items, r)) :
    r.length ≤ s.length := by
  cases s with
  | nil => cases (JsonText.elements.eq_2 first fuel).symm.trans h
  | cons u rest =>
    rw [JsonText.elements] at h
    split at h
    · cases h
      exact Nat.le_succ _
    · obtain ⟨⟨v, s'⟩, hp, h⟩ := Option.bind_eq_some_iff.1 h
      have hlen := ih.value _ _ _ hp
      have hspace := length_skipSpace_le s'
      dsimp only at h
      split at h
      · cases h
      · next w after hafter =>
          rw [hafter, length_cons] at hspace
          have hafter' := length_skipSpace_le after
          split at h
          · obtain ⟨⟨items', r'⟩, hq, heq⟩ := Option.map_eq_some_iff.1 h
            cases heq
            have hrest := ih.elements _ _ _ _ hq
            show r'.length ≤ _
            omega
          · split at h
            · cases h
              omega
            · cases h

variable {ms : List (CodeUnits × Value)}

theorem CostAt.members_succ (ih : CostAt fuel) {first : Bool}
    (h : JsonText.members (fuel + 1) first s = some (ms, r)) :
    (ms.map memberWeight).sum + r.length ≤ s.length := by
  cases s with
  | nil => cases (JsonText.members.eq_2 first fuel).symm.trans h
  | cons u rest =>
    rw [JsonText.members] at h
    rw [length_cons]
    split at h
    · cases h
      show 0 + r.length ≤ r.length + 1
      omega
    · split at h
      · obtain ⟨⟨name, s₁⟩, hname, h⟩ := Option.bind_eq_some_iff.1 h
        obtain ⟨s₂, hcolon, h⟩ := Option.bind_eq_some_iff.1 h
        obtain ⟨⟨v, s₃⟩, hp, h⟩ := Option.bind_eq_some_iff.1 h
        have hnameLen : _ ≤ rest.length + 0 := length_stringFrom hname
        have hcolonLen : s₂.length + 1 ≤ (skipSpace s₁).length := length_afterColon hcolon
        have hspace₁ := length_skipSpace_le s₁
        have hlen := ih.value _ _ _ hp
        have hspace := length_skipSpace_le s₃
        dsimp only at h
        split at h
        · cases h
        · next w after hafter =>
            rw [hafter, length_cons] at hspace
            have hafter' := length_skipSpace_le after
            have hmember : memberWeight (name, v) + after.length ≤ rest.length + 1 := by
              show name.length + escapes name + 2 + 1 + weight v + 1 + after.length ≤ _
              omega
            split at h
            · obtain ⟨⟨ms', r'⟩, hq, heq⟩ := Option.map_eq_some_iff.1 h
              cases heq
              have hrest := ih.members _ _ _ _ hq
              rw [map_cons, sum_cons]
              show _ + (ms'.map memberWeight).sum + r'.length ≤ _
              omega
            · split at h
              · cases h
                rw [map_singleton, sum_singleton]
                exact hmember
              · cases h
      · cases h

/-- **No value is shorter than its weight.** -/
theorem costAt (fuel : ℕ) : CostAt fuel := by
  induction fuel with
  | zero =>
    constructor
    · intro s r v h
      cases (value.eq_1 s).symm.trans h
    · intro first s r items h
      cases (elements.eq_1 first s).symm.trans h
    · intro first s r ms h
      cases (members.eq_1 first s).symm.trans h
  | succ fuel ih =>
    constructor
    · intro s r v h
      exact ih.value_succ h
    · intro first s r items h
      exact ih.elements_succ h
    · intro first s r ms h
      exact ih.members_succ h

/-- **Nor is an object shorter than its members.** -/
theorem weight_le_of_parse (h : parse s = some ms) : 1 + (ms.map memberWeight).sum ≤ s.length := by
  unfold parse at h
  have hspace := length_skipSpace_le s
  split at h
  · cases h
  · next u rest hs =>
      rw [hs, length_cons] at hspace
      split at h
      · obtain ⟨⟨ms', r⟩, hp, h⟩ := Option.bind_eq_some_iff.1 h
        have hlen := (costAt _).members _ _ _ _ hp
        have hrest := length_skipSpace_le rest
        dsimp only at h
        split at h
        · cases h
          omega
        · cases h
      · cases h

/-! ## A text that costs no more than the printed object -/

theorem mem_of_member {name : CodeUnits} (h : member ms name = some v) : (name, v) ∈ ms := by
  induction ms with
  | nil => cases h
  | cons m ms ih =>
    unfold member at h
    split at h
    · next w hw =>
        cases h
        exact mem_cons_of_mem m (ih hw)
    · split at h
      · next hname =>
          cases h
          rw [← hname]
          exact mem_cons_self
      · cases h

variable {es : List (CodeUnits × Scalar)}

/-- Behind distinct names every member is found. -/
theorem member_map (hnames : (es.map Prod.fst).Nodup) {e : CodeUnits × Scalar} (he : e ∈ es) :
    member (es.map fun e => (e.1, e.2.toValue)) e.1 = some e.2.toValue := by
  induction es with
  | nil => cases he
  | cons e' es ih =>
    rw [map_cons, nodup_cons] at hnames
    obtain ⟨hfresh, hnames⟩ := hnames
    rw [map_cons, member]
    rcases mem_cons.1 he with rfl | he
    · cases hfound : member (es.map fun e => (e.1, e.2.toValue)) e.1 with
      | none => exact if_pos rfl
      | some w =>
        have hmem := mem_map_of_mem (f := Prod.fst) (mem_of_member hfound)
        rw [map_map] at hmem
        exact absurd hmem hfresh
    · rw [ih hnames he]

/-- The length of a printed value. -/
def Scalar.size : Scalar → ℕ
  | .boolean true => 4
  | .boolean false => 5
  | .natural n => (Numeral.digits 10 n).length
  | .string s => s.length + 2

/-- The length of a printed member with its colon and the comma or brace behind it. -/
def memberSize (m : CodeUnits × Scalar) : ℕ := m.1.length + 2 + 1 + m.2.size + 1

theorem length_print (v : Scalar) (rest : CodeUnits) :
    (v.print rest).length = v.size + rest.length := by
  cases v with
  | boolean b => cases b <;> exact length_append
  | natural n => rw [Scalar.print, length_append, decimalDigits, length_map, Scalar.size]
  | string s =>
    rw [Scalar.print, printString, length_cons, length_append, length_cons, Scalar.size]
    omega

theorem length_printMembers {ms : List (CodeUnits × Scalar)} (hne : ms ≠ [])
    (rest : CodeUnits) :
    (printMembers ms rest).length = (ms.map memberSize).sum + rest.length := by
  induction ms with
  | nil => exact absurd rfl hne
  | cons m ms ih =>
    cases ms with
    | nil =>
      rw [printMembers, printString, map_singleton, sum_singleton, memberSize]
      simp only [length_cons, length_append, length_print]
      omega
    | cons m' ms =>
      have htail := ih (cons_ne_nil m' ms)
      rw [printMembers, printString, map_cons, sum_cons, memberSize]
      simp only [length_cons, length_append, length_print, htail]
      omega

theorem length_printObject {ms : List (CodeUnits × Scalar)} (hne : ms ≠ []) :
    (printObject ms).length = 1 + (ms.map memberSize).sum := by
  rw [printObject, length_cons, length_printMembers hne, length_nil]
  omega

/-- The escapes a printed value would need. -/
def Scalar.escapes : Scalar → ℕ
  | .string s => JsonText.escapes s
  | _ => 0

theorem weight_toValue (v : Scalar) : weight v.toValue = v.size + v.escapes := by
  cases v with
  | boolean b => cases b <;> rfl
  | natural n => rfl
  | string s =>
    show s.length + escapes s + 2 = s.length + 2 + escapes s
    omega

/-- The escapes of a member. -/
def memberEscapes (m : CodeUnits × Scalar) : ℕ := escapes m.1 + m.2.escapes

theorem memberWeight_toValue (m : CodeUnits × Scalar) :
    memberWeight (m.1, m.2.toValue) = memberSize m + memberEscapes m := by
  have hvalue := weight_toValue m.2
  show m.1.length + escapes m.1 + 2 + 1 + weight m.2.toValue + 1 =
    m.1.length + 2 + 1 + m.2.size + 1 + (escapes m.1 + m.2.escapes)
  omega

/-- Members of different names are different members. -/
theorem sum_memberWeight_le (hnames : (es.map Prod.fst).Nodup)
    (hread : ∀ e ∈ es, member ms e.1 = some e.2.toValue) :
    (es.map fun e => memberWeight (e.1, e.2.toValue)).sum ≤ (ms.map memberWeight).sum := by
  have hnodup : (es.map fun e => (e.1, e.2.toValue)).Nodup := by
    apply List.Nodup.of_map Prod.fst
    rw [map_map]
    exact hnames
  have hsubset : (es.map fun e => (e.1, e.2.toValue)) ⊆ ms := by
    intro m hm
    obtain ⟨e, he, rfl⟩ := mem_map.1 hm
    exact mem_of_member (hread e he)
  obtain ⟨sub, hperm, hsub⟩ := hnodup.subperm hsubset
  calc (es.map fun e => memberWeight (e.1, e.2.toValue)).sum
      = ((es.map fun e => (e.1, e.2.toValue)).map memberWeight).sum := by
        rw [map_map]
        rfl
    _ = (sub.map memberWeight).sum := (hperm.map memberWeight).sum_eq.symm
    _ ≤ (ms.map memberWeight).sum := (hsub.map memberWeight).sum_le_sum fun _ _ => Nat.zero_le _

theorem plain_iff_escapes : Plain s ↔ escapes s = 0 := by
  unfold Plain escapes
  rw [countP_eq_zero]
  constructor
  · intro h u hu
    rw [h u hu]
    decide
  · intro h u hu
    exact Bool.not_eq_false' _ ▸ by simpa using h u hu

/-- **A text from which the members can be read is at least as long as the printed object; if
it is not longer, no string in them needs an escape.** -/
theorem plain_of_read (hne : es ≠ []) (hnames : (es.map Prod.fst).Nodup)
    (hparse : parse s = some ms) (hread : ∀ e ∈ es, member ms e.1 = some e.2.toValue) :
    (printObject es).length ≤ s.length ∧
      (s.length = (printObject es).length → ∀ e ∈ es, e.2.Plain) := by
  have hweight := weight_le_of_parse hparse
  have hmembers := sum_memberWeight_le hnames hread
  have hsplit : (es.map fun e => memberWeight (e.1, e.2.toValue)).sum =
      (es.map memberSize).sum + (es.map memberEscapes).sum := by
    rw [← sum_map_add]
    exact congrArg sum (map_congr_left fun e _ => memberWeight_toValue e)
  rw [length_printObject hne]
  constructor
  · omega
  · intro hlen e he
    have hzero : (es.map memberEscapes).sum = 0 := by omega
    have hmember : memberEscapes e = 0 :=
      sum_eq_zero_iff.1 hzero _ (mem_map_of_mem he)
    obtain ⟨name, v⟩ := e
    cases v with
    | boolean b => trivial
    | natural n => trivial
    | string s => exact plain_iff_escapes.2 (Nat.add_eq_zero_iff.1 hmember).2

/-! ## Reading what was printed -/

/-- The reader of a token stops at a comma or a closing brace. -/
def Delimited (rest : CodeUnits) : Prop := ∃ u t, rest = u :: t ∧ (u = 0x2C ∨ u = 0x7D)

theorem stringFrom_plain (hs : Plain s) (rest : CodeUnits) :
    stringFrom .plain (s ++ 0x22 :: rest) = some (s, rest) := by
  induction s with
  | nil =>
    rw [nil_append, stringFrom, if_pos rfl]
  | cons u s ih =>
    have hu := hs u mem_cons_self
    unfold isPlain at hu
    simp only [Bool.and_eq_true, decide_eq_true_iff] at hu
    obtain ⟨⟨hcontrol, hquote⟩, hslash⟩ := hu
    rw [cons_append, stringFrom, if_neg hquote, if_neg hslash, if_pos hcontrol,
      ih fun v hv => hs v (mem_cons_of_mem u hv)]
    rfl

theorem digit_facts : ∀ d < 10, isDigit (UInt16.ofNat (0x30 + d)) = true ∧
    (UInt16.ofNat (0x30 + d)).toNat - 0x30 = d ∧
    (UInt16.ofNat (0x30 + d) = 0x30 → d = 0) ∧ UInt16.ofNat (0x30 + d) ≠ 0x2D ∧
    UInt16.ofNat (0x30 + d) ≠ 0x22 ∧ UInt16.ofNat (0x30 + d) ≠ 0x7B ∧
    UInt16.ofNat (0x30 + d) ≠ 0x5B ∧ UInt16.ofNat (0x30 + d) ≠ 0x6E ∧
    UInt16.ofNat (0x30 + d) ≠ 0x74 ∧ UInt16.ofNat (0x30 + d) ≠ 0x66 ∧
    isSpace (UInt16.ofNat (0x30 + d)) = false := by
  decide

theorem isDigit_decimalDigits {n : ℕ} {u : UInt16} (hu : u ∈ decimalDigits n) :
    isDigit u = true := by
  obtain ⟨d, hd, rfl⟩ := mem_map.1 hu
  exact (digit_facts d (digits_lt (by decide) hd)).1

theorem valueOfDigits_decimalDigits (n : ℕ) : valueOfDigits (decimalDigits n) = n := by
  have hmap : (decimalDigits n).map (fun u => u.toNat - 0x30) = Numeral.digits 10 n := by
    rw [decimalDigits, map_map]
    calc (Numeral.digits 10 n).map _ = (Numeral.digits 10 n).map id :=
          map_congr_left fun d hd => (digit_facts d (digits_lt (by decide) hd)).2.1
      _ = Numeral.digits 10 n := map_id _
  rw [valueOfDigits, hmap, value_digits]

theorem length_decimalDigits_of_zero {n : ℕ} (h : (decimalDigits n).head? = some 0x30) :
    (decimalDigits n).length = 1 := by
  by_cases hn : n = 0
  · rw [hn]
    rfl
  · cases hdigits : Numeral.digits 10 n with
    | nil => exact absurd hdigits (digits_ne_nil 10 n)
    | cons d ds =>
      have hd : d < 10 := digits_lt (by decide) (hdigits ▸ mem_cons_self)
      rw [decimalDigits, hdigits] at h
      have hzero : d = 0 := (digit_facts d hd).2.2.1 (Option.some.inj h)
      exact absurd hzero (head_digits_ne_zero hn hdigits)

theorem unsigned_decimalDigits (n : ℕ) {rest : CodeUnits} (hrest : Delimited rest) :
    unsigned 1 (decimalDigits n ++ rest) = some (.integer n, rest) := by
  obtain ⟨u, t, rfl, hu⟩ := hrest
  have hdigit : isDigit u = false := by rcases hu with rfl | rfl <;> rfl
  have htake : (decimalDigits n ++ u :: t).takeWhile isDigit = decimalDigits n := by
    rw [takeWhile_append_of_pos fun v hv => isDigit_decimalDigits hv,
      takeWhile_cons_of_neg (by rw [hdigit]; decide), append_nil]
  have hdrop : (decimalDigits n ++ u :: t).dropWhile isDigit = u :: t := by
    rw [dropWhile_append_of_pos fun v hv => isDigit_decimalDigits hv,
      dropWhile_cons_of_neg (by rw [hdigit]; decide)]
  have hcanonical : ¬ (decimalDigits n = [] ∨
      ((decimalDigits n).head? = some 0x30 ∧ (decimalDigits n).length ≠ 1)) := by
    rintro (hnil | ⟨hzero, hlength⟩)
    · exact digits_ne_nil 10 n (map_eq_nil_iff.1 hnil)
    · exact hlength (length_decimalDigits_of_zero hzero)
  have hfraction : afterFraction (u :: t) = some (u :: t) := by
    rcases hu with rfl | rfl <;> rfl
  have hexponent : afterExponent (u :: t) = some (u :: t) := by
    rcases hu with rfl | rfl <;> rfl
  unfold unsigned
  dsimp only
  rw [htake, hdrop, if_neg hcanonical, hfraction, Option.bind_some, hexponent, Option.map_some,
    if_pos rfl, valueOfDigits_decimalDigits, one_mul]

theorem keyword_append (word : CodeUnits) (v : Value) (rest : CodeUnits) :
    keyword word v (word ++ rest) = some (v, rest) := by
  rw [keyword, if_pos (List.isPrefixOf_iff_prefix.2 (prefix_append word rest)), drop_left]

theorem value_print {v : Scalar} (hv : v.Plain) {rest : CodeUnits} (hrest : Delimited rest)
    (fuel : ℕ) : value (fuel + 1) (v.print rest) = some (v.toValue, rest) := by
  cases v with
  | boolean b =>
    cases b with
    | true => exact keyword_append trueWord (.boolean true) rest
    | false => exact keyword_append falseWord (.boolean false) rest
  | natural n =>
    have hnumber := unsigned_decimalDigits n hrest
    cases hdigits : Numeral.digits 10 n with
    | nil => exact absurd hdigits (digits_ne_nil 10 n)
    | cons d ds =>
      have hd : d < 10 := digits_lt (by decide) (hdigits ▸ mem_cons_self)
      obtain ⟨-, -, -, hminus, hquote, hbrace, hbracket, hn, ht, hf, -⟩ := digit_facts d hd
      rw [decimalDigits, hdigits, map_cons, cons_append] at hnumber
      rw [Scalar.print, decimalDigits, hdigits, map_cons, cons_append, value,
        if_neg hquote, if_neg hbrace, if_neg hbracket, if_neg hn, if_neg ht, if_neg hf, number,
        if_neg hminus, hnumber]
      rfl
  | string s =>
    rw [Scalar.print, printString, value, if_pos rfl, stringFrom_plain hv]
    rfl

theorem skipSpace_cons {u : UInt16} (hu : isSpace u = false) (t : CodeUnits) :
    skipSpace (u :: t) = u :: t :=
  dropWhile_cons_of_neg (by rw [hu]; decide)

/-- No value begins with white space. -/
theorem skipSpace_print (v : Scalar) (rest : CodeUnits) :
    skipSpace (v.print rest) = v.print rest := by
  cases v with
  | boolean b => cases b <;> exact skipSpace_cons (by decide) _
  | natural n =>
    cases hdigits : Numeral.digits 10 n with
    | nil => exact absurd hdigits (digits_ne_nil 10 n)
    | cons d ds =>
      have hd : d < 10 := digits_lt (by decide) (hdigits ▸ mem_cons_self)
      obtain ⟨-, -, -, -, -, -, -, -, -, -, hspace⟩ := digit_facts d hd
      rw [Scalar.print, decimalDigits, hdigits, map_cons, cons_append]
      exact skipSpace_cons hspace _
  | string s => exact skipSpace_cons (by decide) _

theorem members_member {m : CodeUnits × Scalar} (hname : Plain m.1) (hvalue : m.2.Plain)
    (fuel : ℕ) (first : Bool) {w : UInt16} (hw : w = 0x2C ∨ w = 0x7D) (after : CodeUnits) :
    members (fuel + 2) first (printString m.1 (0x3A :: m.2.print (w :: after))) =
      if w = 0x2C then
        (members (fuel + 1) false (skipSpace after)).map fun q => ((m.1, m.2.toValue) :: q.1, q.2)
      else if w = 0x7D then some ([(m.1, m.2.toValue)], after)
      else none := by
  have hspace : isSpace w = false := by rcases hw with rfl | rfl <;> rfl
  have hbrace : ¬ (first && decide ((0x22 : UInt16) = 0x7D)) = true := by cases first <;> decide
  rw [printString, members, if_neg hbrace, if_pos rfl, stringFrom_plain hname, Option.bind_some,
    skipSpace_cons (by decide), afterColon, if_pos rfl, Option.bind_some, skipSpace_print,
    value_print hvalue ⟨w, after, rfl, hw⟩, Option.bind_some, skipSpace_cons hspace]

theorem members_printMembers {ms : List (CodeUnits × Scalar)} (hne : ms ≠ [])
    (hplain : ∀ m ∈ ms, Plain m.1 ∧ m.2.Plain) (rest : CodeUnits) {fuel : ℕ}
    (hfuel : ms.length < fuel) (first : Bool) :
    members fuel first (printMembers ms rest) =
      some (ms.map fun m => (m.1, m.2.toValue), rest) := by
  induction ms generalizing fuel first with
  | nil => exact absurd rfl hne
  | cons m ms ih =>
    obtain ⟨hname, hvalue⟩ := hplain m mem_cons_self
    rw [length_cons] at hfuel
    obtain ⟨fuel, rfl⟩ := Nat.exists_eq_add_of_le' (by omega : 2 ≤ fuel)
    cases ms with
    | nil =>
      rw [printMembers, members_member hname hvalue fuel first (Or.inr rfl), if_neg (by decide),
        if_pos rfl]
      rfl
    | cons m' ms =>
      have hmore := ih (cons_ne_nil m' ms)
        (fun x hx => hplain x (mem_cons_of_mem m hx)) (by omega : _ < fuel + 1) false
      have hquote : skipSpace (printMembers (m' :: ms) rest) =
          printMembers (m' :: ms) rest := by
        cases ms with
        | nil => exact skipSpace_cons (by decide) _
        | cons m'' ms => exact skipSpace_cons (by decide) _
      rw [printMembers, members_member hname hvalue fuel first (Or.inl rfl), if_pos rfl, hquote,
        hmore]
      rfl

/-- **What was printed is read again**, when no string in it needs an escape. -/
theorem parse_printObject {ms : List (CodeUnits × Scalar)} (hne : ms ≠ [])
    (hplain : ∀ m ∈ ms, Plain m.1 ∧ m.2.Plain) :
    parse (printObject ms) = some (ms.map fun m => (m.1, m.2.toValue)) := by
  have hlength := length_printObject hne
  have hcount : ms.length ≤ (ms.map memberSize).sum := by
    have hsum := length_le_sum_of_one_le (ms.map memberSize) fun n hn => by
      obtain ⟨m, -, rfl⟩ := mem_map.1 hn
      exact Nat.le_add_left 1 _
    rwa [length_map] at hsum
  have hmembers := members_printMembers hne hplain [] (by omega : _ < (printObject ms).length) true
  have hquote : skipSpace (printMembers ms []) = printMembers ms [] := by
    match ms with
    | [] => exact absurd rfl hne
    | [m] => exact skipSpace_cons (by decide) _
    | m :: m' :: ms => exact skipSpace_cons (by decide) _
  rw [printObject] at hmembers ⊢
  unfold parse
  rw [skipSpace_cons (by decide)]
  dsimp only
  rw [if_pos rfl, hquote, hmembers, Option.bind_some]
  rfl

end JsonText
