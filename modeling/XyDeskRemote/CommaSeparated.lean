/-
# Comma separated values

`CommandLineParseCommaSeparatedValuesEx` of winpr splits a list at its commas.  Quotes
and backslashes keep a comma from being one: the commas are counted in a first pass over
the whole list (`getElementCount`) and looked for in a second one, element by element
(`getNextComma`), and the two passes do not take quotes in the same way.

A C string is the list of the code units that it encodes: JNI encodes them one by one,
ASCII characters as themselves and none as the terminating zero.
-/
import Mathlib.Data.List.Perm.Subperm
import XyDeskRemote.WorkerText
import Mathlib.Algebra.GroupWithZero.Nat

open List Option

namespace CommaSeparated

/-! ## The two passes -/

/-- `is_quoted`. -/
def isQuoted (c : UInt16) : Int := if c = 0x22 then 1 else if c = 0x27 then -1 else 0

/-- Where the first pass is: the commas so far, whether it is in quotes, behind a
backslash, at the start of an element. -/
structure CountState where
  count : Nat
  quoted : Int
  escaped : Bool
  first : Bool

/-- One character of the first pass, which takes every quote for the same. -/
def countStep (fullquoted : Bool) (s : CountState) (cur : UInt16) : Option CountState :=
  if s.escaped then some { s with escaped := false }
  else if cur = 0x5C then some { s with escaped := true }
  else if isQuoted cur ≠ 0 then
    let quoted := if s.quoted = 1 then 0 else if s.quoted = 0 then 1 else s.quoted
    some { s with quoted := if fullquoted then s.quoted else quoted, first := false }
  else if cur = 0x2C then
    if s.first then none
    else if s.quoted = 0 then some { s with count := s.count + 1, first := true }
    else some { s with first := false }
  else some { s with first := false }

/-- `get_element_count`; `none` when it failed. -/
def getElementCount (fullquoted : Bool) (list : CodeUnits) : Option Nat :=
  if list = [] then some 0
  else
    (list.foldlM (countStep fullquoted) ⟨0, 0, false, true⟩).bind fun s =>
      -- a backslash takes the terminating zero with it
      if s.escaped || s.quoted ≠ 0 then none else some (s.count + 1)

/-- The loop of `get_next_comma`: what stands before the comma and behind it. -/
def nextComma (fullquoted : Bool) : Int → Bool → Bool → CodeUnits →
    Option (CodeUnits × CodeUnits)
  | _, _, _, [] => none
  | quoted, first, true, cur :: rest =>
    (nextComma fullquoted quoted first false rest).map fun p => (cur :: p.1, p.2)
  | quoted, first, false, cur :: rest =>
    if cur = 0x5C then
      (nextComma fullquoted quoted first true rest).map fun p => (cur :: p.1, p.2)
    else if isQuoted cur ≠ 0 then
      let now := isQuoted cur
      if fullquoted then
        (nextComma fullquoted quoted false false rest).map fun p => (cur :: p.1, p.2)
      else if quoted = 0 && !first then none
      else
        let quoted := if now = quoted then 0 else if quoted = 0 then now else quoted
        (nextComma fullquoted quoted false false rest).map fun p => (cur :: p.1, p.2)
    else if cur = 0x2C then
      if first then none
      else if quoted = 0 then some ([], rest)
      else (nextComma fullquoted quoted false false rest).map fun p => (cur :: p.1, p.2)
    else (nextComma fullquoted quoted false false rest).map fun p => (cur :: p.1, p.2)

/-- `get_next_comma`. -/
def getNextComma (fullquoted : Bool) (string : CodeUnits) : Option (CodeUnits × CodeUnits) :=
  nextComma fullquoted 0 true false string

/-! ## The elements -/

/-- `strrchr(ptr, '"')`, and the end of the string there. -/
def cutLastQuote (ptr : CodeUnits) : Option CodeUnits :=
  (ptr.reverse.idxOf? 0x22).map fun i => ptr.take (ptr.length - 1 - i)

/-- The last element, which `n` indices point to; each of them cuts it at a quote, when it
starts with one. -/
def cutTimes (fullquoted : Bool) (quote : Int) : Nat → CodeUnits → Option CodeUnits
  | 0, ptr => some ptr
  | n + 1, ptr =>
    if (if fullquoted then isQuoted (ptr.headD 0) else quote) = 0 then some ptr
    else (cutLastQuote ptr).bind (cutTimes fullquoted quote n)

/-- The text of an element, behind a quote that it starts with. -/
def elementStart (fullquoted : Bool) (str : CodeUnits) : CodeUnits :=
  if isQuoted (str.headD 0) ≠ 0 && !fullquoted then str.tail else str

/-- The element before a comma; `none` when it ends otherwise than it starts. -/
def elementBefore (fullquoted : Bool) (before : CodeUnits) : Option CodeUnits :=
  let quote := isQuoted (before.headD 0)
  if fullquoted then some before
  else if isQuoted (before.getLastD 0) ≠ quote then none
  else if quote ≠ 0 then some before.tail.dropLast
  else some before

/-- The elements of a list, of which there should be `n`. -/
def elements (fullquoted : Bool) : Nat → CodeUnits → Option (List CodeUnits)
  | 0, _ => some []
  | n + 1, str =>
    match getNextComma fullquoted str with
    | some (before, after) =>
      (elementBefore fullquoted before).bind fun element =>
        (elements fullquoted n after).map (element :: ·)
    | none =>
      (cutTimes fullquoted (isQuoted (str.headD 0)) (n + 1)
        (elementStart fullquoted str)).map (replicate (n + 1))

/-- The loop of `is_valid_fullquoted`, behind the first quote. -/
def validFullquoted (quote : UInt16) : UInt16 → CodeUnits → Bool
  | last, [] => last = quote
  | _, cur :: rest =>
    if cur = quote && rest ≠ [] then false
    else validFullquoted quote cur rest

/-- `is_valid_fullquoted`. -/
def isValidFullquoted (string : CodeUnits) : Bool :=
  match string with
  | [] => false
  | quote :: rest => isQuoted quote ≠ 0 && validFullquoted quote 0 rest

/-- The list without the quotes around all of it, and whether there were any. -/
def unquoteList (list : CodeUnits) : Option (CodeUnits × Bool) :=
  let start := isQuoted (list.headD 0)
  let stop := isQuoted (list.getLastD 0)
  if start ≠ 0 && stop ≠ 0 then
    if start ≠ stop then none
    else if isValidFullquoted list then some (list.tail.dropLast, true)
    else none
  else some (list, false)

/-- `CommandLineParseCommaSeparatedValuesEx`; `none` when it returns no list. -/
def commandLineParseCommaSeparatedValuesEx (name : Option CodeUnits)
    (list : Option CodeUnits) : Option (List CodeUnits) := do
  let (unquoted, fullquoted) ← unquoteList (list.getD [])
  let count ← getElementCount fullquoted unquoted
  if count = 0 then name.map fun name => [name]
  else (elements fullquoted count unquoted).map (name.toList ++ ·)

/-- `CommandLineParseCommaSeparatedValues`. -/
def commandLineParseCommaSeparatedValues (list : Option CodeUnits) :
    Option (List CodeUnits) :=
  commandLineParseCommaSeparatedValuesEx none list

/-! ## The parts of a list -/

/-- The elements, the last one not repeated. -/
def parts : Nat → CodeUnits → Option (List CodeUnits)
  | 0, _ => some []
  | n + 1, str =>
    match getNextComma false str with
    | some (before, after) =>
      (elementBefore false before).bind fun element =>
        (parts n after).map (element :: ·)
    | none =>
      (cutTimes false (isQuoted (str.headD 0)) (n + 1) (elementStart false str)).map ([·])

theorem elements_parts {n : Nat} {str : CodeUnits} {es : List CodeUnits}
    (h : elements false n str = some es) :
    ∃ ps, parts n str = some ps ∧ ∀ e, e ∈ es ↔ e ∈ ps := by
  induction n generalizing str es with
  | zero =>
    cases h
    exact ⟨[], rfl, fun e => Iff.rfl⟩
  | succ n ih =>
    rw [elements] at h
    cases hcomma : getNextComma false str with
    | some p =>
      rw [hcomma] at h
      obtain ⟨element, hbefore, h⟩ := bind_eq_some_iff.1 h
      obtain ⟨es', hrest, rfl⟩ := map_eq_some_iff.1 h
      obtain ⟨ps, hps, hmem⟩ := ih hrest
      refine ⟨element :: ps, ?_, fun e => ?_⟩
      · rw [parts, hcomma]
        show (elementBefore false p.1).bind _ = _
        rw [hbefore, bind_some, hps]
        rfl
      · rw [mem_cons, mem_cons, hmem]
    | none =>
      rw [hcomma] at h
      obtain ⟨e, hcut, rfl⟩ := map_eq_some_iff.1 h
      refine ⟨[e], ?_, fun e' => ?_⟩
      · rw [parts, hcomma]
        show (cutTimes false _ (n + 1) _).map _ = _
        rw [hcut]
        rfl
      · rw [mem_replicate, mem_singleton]
        exact and_iff_right (Nat.succ_ne_zero n)

/-- A comma that is found stands between what is before and what is behind it. -/
theorem nextComma_eq {fullquoted : Bool} {quoted : Int} {first escaped : Bool}
    {s before after : CodeUnits}
    (h : nextComma fullquoted quoted first escaped s = some (before, after)) :
    s = before ++ 0x2C :: after := by
  induction s generalizing quoted first escaped before with
  | nil => cases h
  | cons cur rest ih =>
    have hnext : ∀ {q : Int} {f e : Bool},
        ((nextComma fullquoted q f e rest).map fun p => (cur :: p.1, p.2)) =
          some (before, after) → cur :: rest = before ++ 0x2C :: after := by
      intro q f e hmap
      obtain ⟨⟨b, a⟩, hb, heq⟩ := map_eq_some_iff.1 hmap
      obtain ⟨rfl, rfl⟩ := Prod.mk.inj heq
      rw [ih hb]
      rfl
    cases escaped with
    | true => exact hnext h
    | false =>
      rw [nextComma] at h
      by_cases hescape : cur = 0x5C
      · rw [if_pos hescape] at h
        exact hnext h
      rw [if_neg hescape] at h
      by_cases hquote : isQuoted cur ≠ 0
      · rw [if_pos hquote] at h
        dsimp only at h
        split at h
        · exact hnext h
        · split at h
          · cases h
          · exact hnext h
      rw [if_neg hquote] at h
      by_cases hcomma : cur = 0x2C
      · rw [if_pos hcomma] at h
        split at h
        · cases h
        · split at h
          · obtain ⟨rfl, rfl⟩ := Prod.mk.inj (some.inj h)
            rw [hcomma]
            rfl
          · exact hnext h
      · rw [if_neg hcomma] at h
        exact hnext h

theorem elementBefore_sublist {before e : CodeUnits} (h : elementBefore false before = some e) :
    e.Sublist before := by
  simp only [elementBefore, Bool.false_eq_true, if_false] at h
  split at h
  · cases h
  · split at h
    · cases h
      exact (dropLast_sublist _).trans (tail_sublist _)
    · cases h
      exact List.Sublist.refl _

theorem cutTimes_sublist {fullquoted : Bool} {quote : Int} {n : Nat} {ptr e : CodeUnits}
    (h : cutTimes fullquoted quote n ptr = some e) : e.Sublist ptr := by
  induction n generalizing ptr with
  | zero =>
    cases h
    exact List.Sublist.refl _
  | succ n ih =>
    rw [cutTimes] at h
    by_cases hquote : (if fullquoted then isQuoted (ptr.headD 0) else quote) = 0
    · rw [if_pos hquote] at h
      cases h
      exact List.Sublist.refl _
    · rw [if_neg hquote] at h
      obtain ⟨cut, hcut, h⟩ := bind_eq_some_iff.1 h
      obtain ⟨i, -, rfl⟩ := map_eq_some_iff.1 hcut
      exact (ih h).trans (take_sublist _ _)

theorem elementStart_sublist (str : CodeUnits) :
    (elementStart false str).Sublist str := by
  rw [elementStart]
  split
  · exact tail_sublist _
  · exact List.Sublist.refl _

/-- **The parts are pieces of the list, one after the other, with commas in between.** -/
theorem parts_sublist {n : Nat} {str : CodeUnits} {ps : List CodeUnits}
    (h : parts n str = some ps) : ([0x2C].intercalate ps).Sublist str := by
  induction n generalizing str ps with
  | zero =>
    cases h
    exact nil_sublist _
  | succ n ih =>
    rw [parts] at h
    cases hcomma : getNextComma false str with
    | some p =>
      rw [hcomma] at h
      obtain ⟨element, hbefore, h⟩ := bind_eq_some_iff.1 h
      obtain ⟨ps', hrest, rfl⟩ := map_eq_some_iff.1 h
      have hstr : str = p.1 ++ 0x2C :: p.2 := nextComma_eq hcomma
      have helement := elementBefore_sublist hbefore
      rw [hstr]
      cases ps' with
      | nil =>
        rw [intercalate_singleton]
        exact helement.trans (sublist_append_left _ _)
      | cons e es =>
        rw [intercalate_cons_cons, append_assoc]
        exact helement.append ((ih hrest).cons_cons 0x2C)
    | none =>
      rw [hcomma] at h
      obtain ⟨e, hcut, rfl⟩ := map_eq_some_iff.1 h
      rw [intercalate_singleton]
      exact (cutTimes_sublist hcut).trans (elementStart_sublist str)

/-! ## How much the parts hold -/

/-- The sum of the weights of a list. -/
def weight (w : CodeUnits → Nat) (l : List CodeUnits) : Nat := (l.map w).sum

section Weight

variable {w : CodeUnits → Nat} {l l' ps : List CodeUnits}

@[simp] theorem weight_cons (e : CodeUnits) : weight w (e :: l) = w e + weight w l := rfl

theorem weight_sublist (h : l.Sublist ps) : weight w l ≤ weight w ps := by
  induction h with
  | slnil => exact Nat.le_refl _
  | cons e _ ih =>
    rw [weight_cons]
    omega
  | cons_cons e _ ih =>
    rw [weight_cons, weight_cons]
    omega

/-- A sublist that weighs as much is the list. -/
theorem eq_of_weight (hw : ∀ e, 0 < w e) (h : l.Sublist ps) (hweight : weight w ps ≤ weight w l) :
    l = ps := by
  induction h with
  | slnil => rfl
  | cons e hsub _ =>
    have hle := weight_sublist (w := w) hsub
    have hpos := hw e
    rw [weight_cons] at hweight
    omega
  | cons_cons e _ ih =>
    rw [weight_cons, weight_cons] at hweight
    rw [ih (by omega)]

theorem weight_perm (h : l.Perm l') : weight w l = weight w l' := (h.map w).sum_nat

/-- Different members weigh no more than the list. -/
theorem weight_le_of_subset (hnodup : l.Nodup) (hsub : l ⊆ ps) : weight w l ≤ weight w ps := by
  obtain ⟨l', hperm, hl'⟩ := subperm_of_subset hnodup hsub
  rw [← weight_perm hperm]
  exact weight_sublist hl'

/-- Different members that weigh as much as the list are all of it. -/
theorem perm_of_weight (hw : ∀ e, 0 < w e) (hnodup : l.Nodup) (hsub : l ⊆ ps)
    (hweight : weight w ps ≤ weight w l) : l.Perm ps := by
  obtain ⟨l', hperm, hl'⟩ := subperm_of_subset hnodup hsub
  have heq : l' = ps := eq_of_weight hw hl' (by rw [weight_perm hperm]; exact hweight)
  exact heq ▸ hperm.symm

/-- The length of a text with its comma. -/
def lengthWithComma (e : CodeUnits) : Nat := e.length + 1

theorem length_intercalate (h : ps ≠ []) :
    ([0x2C].intercalate ps).length + 1 = weight lengthWithComma ps := by
  induction ps with
  | nil => exact absurd rfl h
  | cons e es ih =>
    cases es with
    | nil =>
      rw [intercalate_singleton]
      rfl
    | cons e' es =>
      have hrest := ih (cons_ne_nil _ _)
      rw [intercalate_cons_cons, weight_cons, ← hrest]
      simp only [length_append, length_singleton, lengthWithComma]
      omega

theorem count_intercalate (ps : List CodeUnits) :
    ([0x2C].intercalate ps).count 0x5C = weight (List.count 0x5C) ps := by
  induction ps with
  | nil => rfl
  | cons e es ih =>
    cases es with
    | nil =>
      rw [intercalate_singleton]
      exact (Nat.add_zero _).symm
    | cons e' es =>
      rw [intercalate_cons_cons, weight_cons, ← ih, count_append, count_append]
      rfl

variable {n : Nat} {str : CodeUnits}

theorem lengths_parts_le (h : parts n str = some ps) :
    weight lengthWithComma ps ≤ str.length + 1 := by
  by_cases hne : ps = []
  · rw [hne]
    exact Nat.zero_le _
  · rw [← length_intercalate hne]
    exact Nat.succ_le_succ (parts_sublist h).length_le

theorem backslashes_parts_le (h : parts n str = some ps) :
    weight (List.count 0x5C) ps ≤ str.count 0x5C := by
  rw [← count_intercalate]
  exact (parts_sublist h).count_le 0x5C

/-- Without backslashes in the list there are none in the parts. -/
theorem not_mem_parts {e : CodeUnits} (h : parts n str = some ps) (hescape : 0x5C ∉ str)
    (he : e ∈ ps) : 0x5C ∉ e := by
  have hle := weight_sublist (w := List.count 0x5C) (singleton_sublist.2 he)
  have hparts := backslashes_parts_le h
  rw [count_eq_zero.2 hescape] at hparts
  rw [weight_cons] at hle
  exact count_eq_zero.1 (by omega)

end Weight

/-! ## Fields without a backslash -/

/-- A character that neither pass takes for anything else. -/
def IsPlain (u : UInt16) : Prop := u ≠ 0x5C ∧ u ≠ 0x2C ∧ isQuoted u = 0

instance (u : UInt16) : Decidable (IsPlain u) := inferInstanceAs (Decidable (_ ∧ _ ∧ _))

/-- Every comma has a quote in front of it. -/
def QuotedCommas (s : CodeUnits) : Prop :=
  ∀ a b, s = a ++ 0x2C :: b → ∃ u ∈ a, isQuoted u ≠ 0

section NextComma

variable {fullquoted first : Bool} {cur : UInt16} {s before after : CodeUnits}

/-- One plain character of the second pass. -/
theorem nextComma_cons (h : IsPlain cur) :
    nextComma fullquoted 0 first false (cur :: s) =
      (nextComma fullquoted 0 false false s).map fun p => (cur :: p.1, p.2) := by
  rw [nextComma, if_neg h.1, if_neg (not_not_intro h.2.2), if_neg h.2.1]

theorem nextComma_plain (hplain : ∀ u ∈ before, IsPlain u) :
    nextComma fullquoted 0 false false (before ++ 0x2C :: after) = some (before, after) := by
  induction before with
  | nil => rfl
  | cons cur before ih =>
    rw [cons_append, nextComma_cons (hplain cur mem_cons_self),
      ih fun u hu => hplain u (mem_cons_of_mem cur hu)]
    rfl

/-- **A comma behind plain characters is found.** -/
theorem getNextComma_plain (hplain : ∀ u ∈ cur :: before, IsPlain u) :
    getNextComma fullquoted (cur :: before ++ 0x2C :: after) = some (cur :: before, after) := by
  rw [getNextComma, cons_append, nextComma_cons (hplain cur mem_cons_self),
    nextComma_plain fun u hu => hplain u (mem_cons_of_mem cur hu)]
  rfl

theorem nextComma_none (hescape : 0x5C ∉ s) (h : QuotedCommas s) :
    nextComma false 0 false false s = none := by
  induction s with
  | nil => rfl
  | cons cur s ih =>
    have hcur : cur ≠ 0x5C := fun heq => hescape (heq ▸ mem_cons_self)
    rw [nextComma, if_neg hcur]
    by_cases hquote : isQuoted cur ≠ 0
    · rw [if_pos hquote]
      rfl
    · rw [if_neg hquote]
      by_cases hcomma : cur = 0x2C
      · obtain ⟨u, hu, -⟩ := h [] s (by rw [hcomma]; rfl)
        exact absurd hu not_mem_nil
      · rw [if_neg hcomma, ih (fun hmem => hescape (mem_cons_of_mem cur hmem))]
        · rfl
        · rintro a b rfl
          obtain ⟨u, hu, huq⟩ := h (cur :: a) b rfl
          rcases mem_cons.1 hu with rfl | hu
          · exact absurd huq hquote
          · exact ⟨u, hu, huq⟩

/-- Without a comma that is found, every comma has a quote in front of it. -/
theorem quotedCommas_of_none (hescape : 0x5C ∉ s) (h : nextComma false 0 false false s = none) :
    QuotedCommas s := by
  induction s with
  | nil =>
    intro a b heq
    cases a <;> cases heq
  | cons cur s ih =>
    have hcur : cur ≠ 0x5C := fun heq => hescape (heq ▸ mem_cons_self)
    intro a b heq
    cases a with
    | nil =>
      obtain ⟨rfl, rfl⟩ := List.cons.inj heq
      cases h
    | cons c a =>
      obtain ⟨rfl, hs⟩ := List.cons.inj heq
      by_cases hquote : isQuoted cur ≠ 0
      · exact ⟨cur, mem_cons_self, hquote⟩
      · by_cases hcomma : cur = 0x2C
        · rw [hcomma] at h
          cases h
        · rw [nextComma_cons ⟨hcur, hcomma, not_not.1 hquote⟩, map_eq_none_iff] at h
          obtain ⟨u, hu, huq⟩ := ih (fun hmem => hescape (mem_cons_of_mem cur hmem)) h
            a b hs
          exact ⟨u, mem_cons_of_mem cur hu, huq⟩

/-- What stands before a comma that is found is plain, without backslashes. -/
theorem plain_of_nextComma (hescape : 0x5C ∉ before)
    (h : nextComma false 0 false false s = some (before, after)) : ∀ u ∈ before, IsPlain u := by
  induction s generalizing before with
  | nil => cases h
  | cons cur s ih =>
    have hfound := nextComma_eq h
    cases before with
    | nil => exact fun u hu => absurd hu not_mem_nil
    | cons c before =>
      obtain ⟨rfl, -⟩ := List.cons.inj hfound
      have hcur : cur ≠ 0x5C := fun heq => hescape (heq ▸ mem_cons_self)
      have hquote : isQuoted cur = 0 := by
        by_contra hquote
        rw [nextComma, if_neg hcur, if_pos hquote] at h
        cases h
      have hcomma : cur ≠ 0x2C := by
        rintro rfl
        cases h
      rw [nextComma_cons ⟨hcur, hcomma, hquote⟩] at h
      obtain ⟨⟨b, a⟩, hb, heq⟩ := map_eq_some_iff.1 h
      obtain ⟨hbefore, rfl⟩ := Prod.mk.inj heq
      obtain ⟨-, rfl⟩ := List.cons.inj hbefore
      intro u hu
      rcases mem_cons.1 hu with rfl | hu
      · exact ⟨hcur, hcomma, hquote⟩
      · exact ih (fun hmem => hescape (mem_cons_of_mem _ hmem)) hb u hu

end NextComma

section Elements

variable {fullquoted : Bool} {cur : UInt16} {s before after : CodeUnits} {n : Nat}

/-- An element that starts and ends with plain characters is what is before the comma. -/
theorem elementBefore_plain (hplain : ∀ u ∈ cur :: before, IsPlain u) :
    elementBefore fullquoted (cur :: before) = some (cur :: before) := by
  have hhead : isQuoted ((cur :: before).headD 0) = 0 := (hplain cur mem_cons_self).2.2
  have hlast : isQuoted ((cur :: before).getLastD 0) = 0 := by
    have hne : cur :: before ≠ [] := cons_ne_nil _ _
    rw [getLastD_cons, ← getLast_eq_getLastD (h := hne)]
    exact (hplain _ (getLast_mem hne)).2.2
  simp only [elementBefore, hhead, hlast, ne_eq, not_true, if_false, ite_self]

theorem elements_plain (hplain : ∀ u ∈ cur :: before, IsPlain u) :
    elements fullquoted (n + 1) (cur :: before ++ 0x2C :: after) =
      (elements fullquoted n after).map ((cur :: before) :: ·) := by
  rw [elements, getNextComma_plain hplain]
  show (elementBefore fullquoted (cur :: before)).bind _ = _
  rw [elementBefore_plain hplain]
  rfl

/-- The last element is there as often as the count asks for it. -/
theorem elements_last (hcur : IsPlain cur) (h : nextComma fullquoted 0 false false s = none) :
    elements fullquoted (n + 1) (cur :: s) = some (replicate (n + 1) (cur :: s)) := by
  have hnone : getNextComma fullquoted (cur :: s) = none := by
    rw [getNextComma, nextComma_cons hcur, h]
    rfl
  have hhead : isQuoted ((cur :: s).headD 0) = 0 := hcur.2.2
  have hstart : elementStart fullquoted (cur :: s) = cur :: s := by
    simp only [elementStart, hhead, ne_eq, not_true, decide_false, Bool.false_and,
      Bool.false_eq_true, if_false]
  rw [elements, hnone]
  show (cutTimes fullquoted _ (n + 1) _).map _ = _
  rw [hhead, hstart, cutTimes, if_pos (by rw [hhead, ite_self])]
  rfl

/-- **The parts of a list whose first part is plain.** -/
theorem parts_cons {e : CodeUnits} {es : List CodeUnits} (hcur : IsPlain cur)
    (h : parts (n + 1) (cur :: s) = some (e :: es)) (hescape : 0x5C ∉ e) :
    (e = cur :: s ∧ es = [] ∧ QuotedCommas s) ∨
      ∃ after, cur :: s = e ++ 0x2C :: after ∧ parts n after = some es ∧
        ∀ u ∈ e, IsPlain u := by
  have hcomma : getNextComma false (cur :: s) =
      (nextComma false 0 false false s).map fun p => (cur :: p.1, p.2) := nextComma_cons hcur
  have hhead : ∀ {t : CodeUnits}, isQuoted ((cur :: t).headD 0) = 0 := hcur.2.2
  rw [parts, hcomma] at h
  cases hs : nextComma false 0 false false s with
  | none =>
    have hstart : elementStart false (cur :: s) = cur :: s := by
      simp only [elementStart, hhead, ne_eq, not_true, decide_false, Bool.false_and,
        Bool.false_eq_true, if_false]
    rw [hs, hhead, hstart] at h
    obtain ⟨rfl, rfl⟩ := List.cons.inj (some.inj h)
    have hnone : 0x5C ∉ s := fun hmem => hescape (mem_cons_of_mem cur hmem)
    exact Or.inl ⟨rfl, rfl, quotedCommas_of_none hnone hs⟩
  | some p =>
    rw [hs] at h
    obtain ⟨element, hbefore, h⟩ := bind_eq_some_iff.1 h
    obtain ⟨es', hrest, heq⟩ := map_eq_some_iff.1 h
    obtain ⟨rfl, rfl⟩ := List.cons.inj heq
    simp only [elementBefore, Bool.false_eq_true, if_false, hhead, ne_eq, not_true] at hbefore
    obtain ⟨-, hbefore⟩ := ite_none_left_eq_some.1 hbefore
    obtain rfl := some.inj hbefore
    have hnone : 0x5C ∉ p.1 := fun hmem => hescape (mem_cons_of_mem cur hmem)
    refine Or.inr ⟨p.2, ?_, hrest, fun u hu => ?_⟩
    · have hfound : s = p.1 ++ 0x2C :: p.2 := nextComma_eq hs
      rw [hfound]
      rfl
    · rcases mem_cons.1 hu with rfl | hu
      · exact hcur
      · exact plain_of_nextComma hnone hs u hu

end Elements

/-! ## The count -/

section Count

variable {fullquoted : Bool} {cur : UInt16} {s before after : CodeUnits}

/-- The first pass does not look at the commas it has counted. -/
theorem countStep_count (fullquoted : Bool) (c : Nat) (t : CountState) (cur : UInt16) :
    countStep fullquoted { t with count := t.count + c } cur =
      (countStep fullquoted t cur).map fun t => { t with count := t.count + c } := by
  unfold countStep
  dsimp only
  by_cases hescaped : t.escaped = true
  · rw [if_pos hescaped, if_pos hescaped]
    rfl
  rw [if_neg hescaped, if_neg hescaped]
  by_cases hescape : cur = 0x5C
  · rw [if_pos hescape, if_pos hescape]
    rfl
  rw [if_neg hescape, if_neg hescape]
  by_cases hquote : isQuoted cur ≠ 0
  · rw [if_pos hquote, if_pos hquote]
    rfl
  rw [if_neg hquote, if_neg hquote]
  by_cases hcomma : cur = 0x2C
  · rw [if_pos hcomma, if_pos hcomma]
    by_cases hfirst : t.first = true
    · rw [if_pos hfirst, if_pos hfirst]
      rfl
    rw [if_neg hfirst, if_neg hfirst]
    by_cases hquoted : t.quoted = 0
    · rw [if_pos hquoted, if_pos hquoted, map_some]
      dsimp only
      rw [Nat.add_right_comm]
    · rw [if_neg hquoted, if_neg hquoted]
      rfl
  · rw [if_neg hcomma, if_neg hcomma]
    rfl

theorem foldlM_countStep_count (c : Nat) (t : CountState) (s : CodeUnits) :
    s.foldlM (countStep fullquoted) { t with count := t.count + c } =
      (s.foldlM (countStep fullquoted) t).map fun t => { t with count := t.count + c } := by
  induction s generalizing t with
  | nil => rfl
  | cons cur s ih =>
    rw [foldlM_cons, foldlM_cons, countStep_count]
    cases countStep fullquoted t cur with
    | none => rfl
    | some t' => exact ih t'

/-- Plain characters leave the first pass outside of quotes. -/
theorem foldlM_countStep_plain {first : Bool} (hplain : ∀ u ∈ cur :: before, IsPlain u) :
    (cur :: before).foldlM (countStep fullquoted) ⟨0, 0, false, first⟩ =
      some ⟨0, 0, false, false⟩ := by
  have hstep : ∀ {u : UInt16} {first : Bool}, IsPlain u →
      countStep fullquoted ⟨0, 0, false, first⟩ u = some ⟨0, 0, false, false⟩ := by
    intro u first hu
    rw [countStep, if_neg Bool.false_ne_true, if_neg hu.1, if_neg (not_not_intro hu.2.2),
      if_neg hu.2.1]
  induction before generalizing cur first with
  | nil =>
    rw [foldlM_cons, hstep (hplain cur mem_cons_self)]
    rfl
  | cons c before ih =>
    rw [foldlM_cons, hstep (hplain cur mem_cons_self)]
    exact ih fun u hu => hplain u (mem_cons_of_mem cur hu)

/-- **A plain element in front of a list is counted.** -/
theorem getElementCount_plain (hplain : ∀ u ∈ cur :: before, IsPlain u) (hafter : after ≠ []) :
    getElementCount fullquoted (cur :: before ++ 0x2C :: after) =
      (getElementCount fullquoted after).map (· + 1) := by
  have hcomma : countStep fullquoted ⟨0, 0, false, false⟩ 0x2C = some ⟨0 + 1, 0, false, true⟩ := rfl
  have hne : ¬ cur :: before ++ 0x2C :: after = [] := cons_ne_nil _ _
  rw [getElementCount, if_neg hne, getElementCount, if_neg hafter,
    foldlM_append, foldlM_countStep_plain hplain, bind_eq_bind, bind_some,
    foldlM_cons, hcomma, bind_eq_bind, bind_some,
    foldlM_countStep_count 1 ⟨0, 0, false, true⟩]
  cases after.foldlM (countStep fullquoted) ⟨0, 0, false, true⟩ with
  | none => rfl
  | some t =>
    show (if (t.escaped || decide (t.quoted ≠ 0)) = true then none else some (t.count + 1 + 1))
      = Option.map (· + 1)
        (if (t.escaped || decide (t.quoted ≠ 0)) = true then none else some (t.count + 1))
    by_cases hopen : (t.escaped || decide (t.quoted ≠ 0)) = true
    · rw [if_pos hopen, if_pos hopen]
      rfl
    · rw [if_neg hopen, if_neg hopen]
      rfl

/-- A count of a list that is not empty is not zero. -/
theorem getElementCount_pos {n : Nat} (hs : s ≠ []) (h : getElementCount fullquoted s = some n) :
    0 < n := by
  rw [getElementCount, if_neg hs] at h
  obtain ⟨t, -, h⟩ := bind_eq_some_iff.1 h
  split at h
  · cases h
  · cases h
    exact Nat.succ_pos _

end Count

end CommaSeparated
