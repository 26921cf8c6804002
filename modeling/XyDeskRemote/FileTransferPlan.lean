/-
# Names of transferred files

`sanitizeFileName` makes a name that Windows accepts: forbidden characters are replaced, runs
of white space collapsed, blanks cut off at both ends and then dots at the end; what is longer
than 120 characters loses its beginning, and an extension longer than 20 its end.

Nothing is trimmed behind a cut, though: a blank in front of the dots that were cut off, or at
a place where a long name is cut, stays at the end of the result.
-/
import XyDeskRemote.KotlinText

open List Option

namespace FileTransferPlan

open WorkerText (lit)
open KotlinText

/-- The characters of `\s` in a regular expression: the blank and other white space, which
differ between the runtimes. -/
structure RegexSpace where
  isSpace : UInt16 → Bool
  blank : isSpace 0x20 = true
  isWhitespace : ∀ u, isSpace u = true → KotlinText.isWhitespace u = true

/-! ## Sanitized names -/

/-- `FORBIDDEN`. -/
def isForbidden (u : UInt16) : Bool := (lit "\\/:*?\"<>|").contains u || u ≤ 0x1F

/-- The longest name. -/
def maxNameLength : ℕ := 120

/-- An underscore for what is forbidden. -/
def replaceForbidden (s : CodeUnits) : CodeUnits := s.map fun u => if isForbidden u then 0x5F else u

section Collapse

variable (regex : RegexSpace)

/-- `replace("\\s+", " ")`, inside a run of white space or outside. -/
def collapseFrom : Bool → CodeUnits → CodeUnits
  | _, [] => []
  | inside, u :: s =>
    if regex.isSpace u then
      if inside then collapseFrom true s else 0x20 :: collapseFrom true s
    else u :: collapseFrom false s

/-- One blank for white space. -/
def collapse (s : CodeUnits) : CodeUnits := collapseFrom regex false s

end Collapse

/-- `trimEnd('.')`. -/
def trimDots (s : CodeUnits) : CodeUnits := s.rdropWhile (· = 0x2E)

/-- The name before it is cut. -/
def cleaned (regex : RegexSpace) (raw : Option CodeUnits) : CodeUnits :=
  (raw.map fun raw => trimDots (trim (collapse regex (replaceForbidden raw)))).getD []

/-- `takeLast`. -/
def takeLast (n : ℕ) (s : CodeUnits) : CodeUnits := s.drop (s.length - n)

/-- Where the extension begins, if there is a name in front of it and something behind the
dot. -/
def extensionDot (s : CodeUnits) : Option ℕ :=
  (lastIndexOf 0x2E s).filter fun dot => 0 < dot ∧ dot < s.length - 1

/-- The name cut to its length. -/
def cut (s : CodeUnits) : CodeUnits :=
  match extensionDot s with
  | some dot => takeLast maxNameLength (s.take dot) ++ (s.drop dot).take 20
  | none => takeLast maxNameLength s

/-- `sanitizeFileName`. -/
def sanitizeFileName (regex : RegexSpace) (raw : Option CodeUnits) (fallbackMillis : BitVec 64) :
    CodeUnits :=
  if cleaned regex raw = [] then lit "xydesk" ++ 0x2D :: decimalInt fallbackMillis.toInt
  else cut (cleaned regex raw)

/-! ## Unique names -/

section Unique

variable (lowercase : CodeUnits → CodeUnits)

/-- The name is there, in any case. -/
def isTaken (existingNames : List CodeUnits) (name : CodeUnits) : Bool :=
  (existingNames.map lowercase).contains (lowercase name)

/-- The name with a number. -/
def numbered (desired : CodeUnits) (index : Int) : CodeUnits :=
  match extensionDot desired with
  | some dot => desired.take dot ++ lit " (" ++ decimalInt index ++ lit ")" ++ desired.drop dot
  | none => desired ++ lit " (" ++ decimalInt index ++ lit ")"

/-- The loop, from an index on. -/
def freeFrom (existingNames : List CodeUnits) (desired : CodeUnits) (index : ℕ) :
    Option CodeUnits :=
  if index < 10000 then
    if isTaken lowercase existingNames (numbered desired index) then
      freeFrom existingNames desired (index + 1)
    else some (numbered desired index)
  else none
termination_by 10000 - index

/-- `uniqueName`. -/
def uniqueName (existingNames : List CodeUnits) (desired : CodeUnits) (nanoTime : BitVec 64) :
    CodeUnits :=
  if isTaken lowercase existingNames desired then
    (freeFrom lowercase existingNames desired 2).getD (numbered desired nanoTime.toInt)
  else desired

end Unique

/-! ## What the single steps leave -/

section Steps

variable {regex : RegexSpace} {s : CodeUnits}

/-- Every run of white space is one blank. -/
structure Collapsed (regex : RegexSpace) (s : CodeUnits) : Prop where
  blanks : ∀ u ∈ s, regex.isSpace u = true → u = 0x20
  single : s.IsChain fun u v => ¬ (regex.isSpace u = true ∧ regex.isSpace v = true)

theorem Collapsed.inside {t : CodeUnits} (h : Collapsed regex s) (ht : t <:+: s) :
    Collapsed regex t :=
  ⟨fun u hu => h.blanks u (ht.subset hu), List.IsChain.infix h.single ht⟩

/-- Inside a run no blank comes first. -/
theorem collapseFrom_collapsed (inside : Bool) (s : CodeUnits) :
    Collapsed regex (collapseFrom regex inside s) ∧
      (inside = true → ∀ u, (collapseFrom regex inside s).head? = some u →
        regex.isSpace u = false) := by
  induction s generalizing inside with
  | nil => exact ⟨⟨fun _ h => absurd h not_mem_nil, .nil⟩, fun _ _ h => nomatch h⟩
  | cons u s ih =>
    rw [collapseFrom]
    by_cases hu : regex.isSpace u = true
    · rw [if_pos hu]
      obtain ⟨htail, hhead⟩ := ih true
      cases inside with
      | true => exact ⟨htail, fun _ => hhead rfl⟩
      | false =>
        refine ⟨⟨?_, ?_⟩, nofun⟩
        · intro v hv hspace
          rcases mem_cons.1 hv with rfl | hv
          · rfl
          · exact htail.blanks v hv hspace
        · apply isChain_cons.2
          refine ⟨fun v hv hboth => ?_, htail.single⟩
          rw [hhead rfl v hv] at hboth
          exact absurd hboth.2 (by decide)
    · rw [if_neg hu]
      obtain ⟨htail, -⟩ := ih false
      refine ⟨⟨?_, ?_⟩, fun _ v hv => ?_⟩
      · intro v hv hspace
        rcases mem_cons.1 hv with rfl | hv
        · exact absurd hspace hu
        · exact htail.blanks v hv hspace
      · exact isChain_cons.2 ⟨fun v _ hboth => hu hboth.1, htail.single⟩
      · obtain rfl := some.inj hv
        exact Bool.eq_false_of_not_eq_true hu

theorem collapseFrom_of_collapsed {inside : Bool} (h : Collapsed regex s)
    (hhead : inside = true → ∀ u, s.head? = some u → regex.isSpace u = false) :
    collapseFrom regex inside s = s := by
  induction s generalizing inside with
  | nil => cases inside <;> rfl
  | cons u s ih =>
    have htail : Collapsed regex s := h.inside (suffix_cons u s).isInfix
    rw [collapseFrom]
    by_cases hu : regex.isSpace u = true
    · cases inside with
      | true => exact absurd hu (Bool.eq_false_iff.1 (hhead rfl u rfl))
      | false =>
        rw [if_pos hu, if_neg (by decide), ← h.blanks u mem_cons_self hu, ih htail fun _ v hv => ?_]
        have hnot := (isChain_cons.1 h.single).1 v hv
        exact Bool.eq_false_of_not_eq_true fun hv => hnot ⟨hu, hv⟩
    · have hrest : collapseFrom regex false s = s := ih htail nofun
      rw [if_neg hu, hrest]

/-- What is in a collapsed text was there, or it is a blank. -/
theorem mem_collapseFrom {inside : Bool} {u : UInt16} (h : u ∈ collapseFrom regex inside s) :
    u ∈ s ∨ u = 0x20 := by
  induction s generalizing inside with
  | nil => exact absurd h not_mem_nil
  | cons v s ih =>
    have htail : ∀ {inside : Bool}, u ∈ collapseFrom regex inside s → u ∈ v :: s ∨ u = 0x20 :=
      fun h => (ih h).imp_left (mem_cons_of_mem v)
    rw [collapseFrom] at h
    split at h
    · split at h
      · exact htail h
      · rcases mem_cons.1 h with rfl | h
        · exact Or.inr rfl
        · exact htail h
    · rcases mem_cons.1 h with rfl | h
      · exact Or.inl mem_cons_self
      · exact htail h

theorem not_isForbidden_replaceForbidden {u : UInt16} (h : u ∈ replaceForbidden s) :
    isForbidden u = false := by
  obtain ⟨v, -, rfl⟩ := mem_map.1 h
  split
  · decide
  · rename_i hv
    exact Bool.eq_false_of_not_eq_true hv

theorem replaceForbidden_eq_self (h : ∀ u ∈ s, isForbidden u = false) : replaceForbidden s = s := by
  have hmap : s.map (fun u => if isForbidden u then 0x5F else u) = s.map fun u => u := by
    apply map_congr_left
    intro u hu
    rw [h u hu]
    rfl
  exact hmap.trans (map_id' s)

theorem trimDots_isPrefix (s : CodeUnits) : trimDots s <+: s := rdropWhile_prefix _ s

theorem getLast?_trimDots_ne (s : CodeUnits) : (trimDots s).getLast? ≠ some 0x2E := by
  intro h
  have hne : trimDots s ≠ [] := by
    intro hnil
    rw [hnil] at h
    cases h
  rw [getLast?_eq_some_getLast hne] at h
  exact rdropWhile_last_not _ s hne (decide_eq_true (some.inj h))

theorem trimDots_eq_self (h : s.getLast? ≠ some 0x2E) : trimDots s = s := by
  apply rdropWhile_eq_self_iff.2
  intro hne hdot
  apply h
  rw [getLast?_eq_some_getLast hne, of_decide_eq_true hdot]

end Steps

/-! ## What is cut off -/

section Cut

variable {s a b : CodeUnits}

/-- The part of a name that is kept begins here. -/
def keptFrom (s : CodeUnits) : ℕ :=
  match extensionDot s with
  | some dot => dot - maxNameLength
  | none => s.length - maxNameLength

/-- And it ends here. -/
def keptTo (s : CodeUnits) : ℕ :=
  match extensionDot s with
  | some dot => min (dot + 20) s.length
  | none => s.length

theorem extensionDot_lt {dot : ℕ} (h : extensionDot s = some dot) :
    0 < dot ∧ dot < s.length - 1 :=
  of_decide_eq_true (filter_eq_some_iff.1 h).2

/-- **The two cuts keep one piece of the name.** -/
theorem cut_eq_drop_take (s : CodeUnits) : cut s = (s.take (keptTo s)).drop (keptFrom s) := by
  rw [cut, keptTo, keptFrom]
  cases hdot : extensionDot s with
  | none => exact congrArg (List.drop _) (take_length).symm
  | some dot =>
    have hlt := (extensionDot_lt hdot).2
    have hlength : (s.take dot).length = dot := by
      rw [length_take]
      omega
    have htake : s.take (min (dot + 20) s.length) = s.take dot ++ (s.drop dot).take 20 := by
      rw [← take_eq_take_min, take_add]
    have hdrop : dot - maxNameLength ≤ (s.take dot).length := by omega
    dsimp only
    rw [takeLast, hlength, htake, drop_append_of_le_length hdrop]

theorem cut_isInfix (s : CodeUnits) : cut s <:+: s := by
  rw [cut_eq_drop_take]
  exact (drop_suffix _ _).isInfix.trans (List.take_prefix _ _).isInfix

theorem keptFrom_lt_keptTo (h : s ≠ []) : keptFrom s < keptTo s ∧ keptTo s ≤ s.length := by
  have hpos := length_pos_iff.2 h
  rw [keptFrom, keptTo, maxNameLength]
  cases hdot : extensionDot s with
  | none =>
    dsimp only
    omega
  | some dot =>
    have hlt := extensionDot_lt hdot
    dsimp only
    omega

theorem head?_cut (h : s ≠ []) : (cut s).head? = s[keptFrom s]? := by
  rw [cut_eq_drop_take, head?_drop, getElem?_take_of_lt (keptFrom_lt_keptTo h).1]

theorem getLast?_cut (h : s ≠ []) : (cut s).getLast? = s[keptTo s - 1]? := by
  obtain ⟨hlt, hle⟩ := keptFrom_lt_keptTo h
  have hlast : keptFrom s + ((s.take (keptTo s)).drop (keptFrom s)).length - 1 = keptTo s - 1 := by
    rw [length_drop, length_take]
    omega
  rw [cut_eq_drop_take, getLast?_eq_getElem?, getElem?_drop, ← Nat.add_sub_assoc, hlast,
    getElem?_take_of_lt (by omega)]
  rw [length_drop, length_take]
  omega

theorem cut_ne_nil (h : s ≠ []) : cut s ≠ [] := by
  obtain ⟨hlt, hle⟩ := keptFrom_lt_keptTo h
  apply ne_nil_of_length_pos
  rw [cut_eq_drop_take, length_drop, length_take]
  omega

theorem extensionDot_split (ha : a ≠ []) (hb : b ≠ []) (hdot : 0x2E ∉ b) :
    extensionDot (a ++ 0x2E :: b) = some a.length := by
  have hapos := length_pos_iff.2 ha
  have hbpos := length_pos_iff.2 hb
  rw [extensionDot, lastIndexOf_append_cons hdot]
  apply filter_eq_some_iff.2
  refine ⟨rfl, decide_eq_true ⟨hapos, ?_⟩⟩
  rw [length_append, length_cons]
  omega

/-- A name without one: a dot can only be its first character. -/
theorem extensionDot_of_not_mem_tail (h : 0x2E ∉ s.tail) : extensionDot s = none := by
  rw [extensionDot]
  rcases lastIndexOf_cases 0x2E s with ⟨-, hnone⟩ | ⟨a, b, rfl, -, hsome⟩
  · rw [hnone]
    rfl
  · rw [hsome]
    cases a with
    | nil =>
      rw [length_nil, filter_some, if_neg]
      intro hpos
      exact absurd (of_decide_eq_true hpos).1 (Nat.lt_irrefl 0)
    | cons u a => exact absurd (mem_append_right a mem_cons_self) h

/-- What a name without a dot at its end looks like. -/
theorem extension_cases (h : s.getLast? ≠ some 0x2E) :
    (∃ a b, s = a ++ 0x2E :: b ∧ a ≠ [] ∧ b ≠ [] ∧ 0x2E ∉ b) ∨ 0x2E ∉ s.tail := by
  rcases lastIndexOf_cases 0x2E s with ⟨hnot, -⟩ | ⟨a, b, rfl, hdot, -⟩
  · exact Or.inr fun hmem => hnot (mem_of_mem_tail hmem)
  · cases a with
    | nil => exact Or.inr hdot
    | cons u a =>
      cases b with
      | nil => exact absurd getLast?_concat h
      | cons v b => exact Or.inl ⟨_, _, rfl, cons_ne_nil _ _, cons_ne_nil _ _, hdot⟩

theorem cut_split (ha : a ≠ []) (hb : b ≠ []) (hdot : 0x2E ∉ b) :
    cut (a ++ 0x2E :: b) = takeLast maxNameLength a ++ 0x2E :: b.take 19 := by
  rw [cut, extensionDot_split ha hb hdot]
  dsimp only
  rw [take_left', drop_left', take_succ_cons]
  · rfl
  · rfl

theorem cut_of_not_mem_tail (h : 0x2E ∉ s.tail) : cut s = takeLast maxNameLength s := by
  rw [cut, extensionDot_of_not_mem_tail h]

theorem length_takeLast_le (n : ℕ) (s : CodeUnits) : (takeLast n s).length ≤ n := by
  rw [takeLast, length_drop]
  omega

theorem takeLast_eq_self {n : ℕ} (h : s.length ≤ n) : takeLast n s = s := by
  rw [takeLast, Nat.sub_eq_zero_of_le h, drop_zero]

/-- What the last characters of a name have in front of them is not the first of all. -/
theorem tail_takeLast_subset (n : ℕ) (s : CodeUnits) : (takeLast n s).tail ⊆ s.tail := by
  rw [takeLast, tail_drop, ← drop_tail]
  exact drop_subset _ _

/-- **What is cut stays as it is.** -/
theorem cut_cut (h : s.getLast? ≠ some 0x2E) : cut (cut s) = cut s := by
  rcases extension_cases h with ⟨a, b, rfl, ha, hb, hdot⟩ | htail
  · have ha' : takeLast maxNameLength a ≠ [] := by
      have hpos := length_pos_iff.2 ha
      apply ne_nil_of_length_pos
      rw [takeLast, length_drop, maxNameLength]
      omega
    have hb' : b.take 19 ≠ [] := by
      cases b with
      | nil => exact absurd rfl hb
      | cons v b => exact cons_ne_nil _ _
    have hdot' : 0x2E ∉ b.take 19 := fun hmem => hdot (mem_of_mem_take hmem)
    rw [cut_split ha hb hdot, cut_split ha' hb' hdot',
      takeLast_eq_self (length_takeLast_le maxNameLength a), take_take, Nat.min_self]
  · have htail' : 0x2E ∉ (takeLast maxNameLength s).tail := fun hmem =>
      htail (tail_takeLast_subset _ _ hmem)
    rw [cut_of_not_mem_tail htail, cut_of_not_mem_tail htail',
      takeLast_eq_self (length_takeLast_le maxNameLength s)]

/-- No dot comes to the end. -/
theorem getLast?_cut_ne (h : s.getLast? ≠ some 0x2E) : (cut s).getLast? ≠ some 0x2E := by
  rcases extension_cases h with ⟨a, b, rfl, ha, hb, hdot⟩ | htail
  · rw [cut_split ha hb hdot]
    intro hlast
    cases b with
    | nil => exact hb rfl
    | cons v b =>
      rw [take_succ_cons, getLast?_append_cons, getLast?_cons_cons, ← take_succ_cons] at hlast
      exact hdot (mem_of_mem_take (mem_of_getLast? hlast))
  · rw [cut_of_not_mem_tail htail]
    intro hlast
    apply h
    rw [← hlast, takeLast]
    by_cases hs : s = []
    · rw [hs]
      rfl
    · have hpos := length_pos_iff.2 hs
      rw [getLast?_drop, if_neg (by rw [maxNameLength]; omega)]

end Cut

/-! ## Legal names -/

section Legal

variable {regex : RegexSpace} {s name : CodeUnits}

/-- A name that Windows accepts and that is kept when it is sanitized again. -/
structure Legal (regex : RegexSpace) (name : CodeUnits) : Prop where
  nonempty : name ≠ []
  noForbidden : ∀ u ∈ name, isForbidden u = false
  lastNotBlank : name.getLast? ≠ some 0x20
  lastNotDot : name.getLast? ≠ some 0x2E
  fixed : ∀ fallbackMillis, sanitizeFileName regex (some name) fallbackMillis = name

/-- What the steps in front of the cut make of a name. -/
structure Clean (regex : RegexSpace) (s : CodeUnits) : Prop where
  noForbidden : ∀ u ∈ s, isForbidden u = false
  collapsed : Collapsed regex s
  lastNotDot : s.getLast? ≠ some 0x2E

theorem cleaned_clean (regex : RegexSpace) (raw : Option CodeUnits) :
    Clean regex (cleaned regex raw) := by
  cases raw with
  | none =>
    have hnone : ∀ {P : UInt16 → Prop}, ∀ u ∈ ([] : CodeUnits), P u :=
      fun _ h => absurd h not_mem_nil
    exact ⟨hnone, ⟨hnone, .nil⟩, nofun⟩
  | some raw =>
    have hinside : cleaned regex (some raw) <:+: collapse regex (replaceForbidden raw) :=
      (trimDots_isPrefix _).isInfix.trans (trim_isInfix _)
    refine ⟨fun u hu => ?_, ?_, getLast?_trimDots_ne _⟩
    · rcases mem_collapseFrom (hinside.subset hu) with hmem | rfl
      · exact not_isForbidden_replaceForbidden hmem
      · decide
    · exact (collapseFrom_collapsed false _).1.inside hinside

/-- A clean name without blanks at its ends is only cut. -/
theorem cleaned_of_clean (h : Clean regex s) : cleaned regex (some s) = trimDots (trim s) := by
  have hcollapse : collapse regex s = s := collapseFrom_of_collapsed h.collapsed nofun
  rw [cleaned, map_some, getD_some, replaceForbidden_eq_self h.noForbidden, hcollapse]

theorem Clean.cut (h : Clean regex s) : Clean regex (cut s) :=
  ⟨fun u hu => h.noForbidden u ((cut_isInfix s).subset hu), h.collapsed.inside (cut_isInfix s),
    getLast?_cut_ne h.lastNotDot⟩

/-- The fallback: letters, a hyphen, and the digits of the time. -/
theorem mem_fallback {n : Int} {u : UInt16} (h : u ∈ lit "xydesk" ++ 0x2D :: decimalInt n) :
    isForbidden u = false ∧ isWhitespace u = false ∧ u ≠ 0x2E := by
  have hdigits : ∀ m : ℕ, u ∈ decimal m →
      isForbidden u = false ∧ isWhitespace u = false ∧ u ≠ 0x2E := by
    intro m hm
    obtain ⟨d, hd, rfl⟩ := mem_map_digitUnit (decimal_digits m) hm
    clear hm h
    revert d
    decide
  have hletters : ∀ u ∈ lit "xydesk-", isForbidden u = false ∧ isWhitespace u = false ∧
      u ≠ 0x2E := by decide
  rcases mem_append.1 h with hmem | hmem
  · exact hletters u (mem_append_left [0x2D] hmem)
  · rcases mem_cons.1 hmem with rfl | hmem
    · decide
    · rw [decimalInt] at hmem
      split at hmem
      · rcases mem_cons.1 hmem with rfl | hmem
        · decide
        · exact hdigits _ hmem
      · exact hdigits _ hmem

theorem length_fallback_le (millis : BitVec 64) :
    (lit "xydesk" ++ 0x2D :: decimalInt millis.toInt).length ≤ maxNameLength := by
  have hdigits : ∀ m : ℕ, m < 10 ^ 19 → (decimal m).length ≤ 19 := by
    intro m hm
    rw [decimal, length_map]
    exact Numeral.length_digits_le (by decide) (by decide) hm
  have hlow := BitVec.le_toInt millis
  have hhigh := BitVec.toInt_lt (x := millis)
  have hdecimal : (decimalInt millis.toInt).length ≤ 20 := by
    rw [decimalInt]
    split
    · rw [length_cons]
      exact Nat.succ_le_succ (hdigits _ (by omega))
    · exact (hdigits _ (by omega)).trans (by decide)
  rw [length_append, length_cons, maxNameLength]
  have hletters : (lit "xydesk").length = 6 := by decide
  omega

/-- A name that is clean, has no blank at its ends and is not too long is kept. -/
theorem legal_of_clean (hne : name ≠ []) (hclean : Clean regex name) (htrim : trim name = name)
    (hcut : cut name = name) : Legal regex name := by
  have hends := trim_eq_self_iff.1 htrim
  refine ⟨hne, hclean.noForbidden, fun hlast => ?_, hclean.lastNotDot, fun millis => ?_⟩
  · exact absurd (hends.2 _ hlast) (by decide)
  · have hcleaned : cleaned regex (some name) = name := by
      rw [cleaned_of_clean hclean, htrim, trimDots_eq_self hclean.lastNotDot]
    rw [sanitizeFileName, hcleaned, if_neg hne, hcut]

theorem legal_fallback (regex : RegexSpace) (millis : BitVec 64) :
    Legal regex (lit "xydesk" ++ 0x2D :: decimalInt millis.toInt) := by
  have hspace : ∀ u ∈ lit "xydesk" ++ 0x2D :: decimalInt millis.toInt,
      regex.isSpace u = false := by
    intro u hu
    apply Bool.eq_false_of_not_eq_true
    intro hspace
    exact absurd ((regex.isWhitespace u hspace).symm.trans (mem_fallback hu).2.1) (by decide)
  have hdot : (0x2E : UInt16) ∉ lit "xydesk" ++ 0x2D :: decimalInt millis.toInt := fun hmem =>
    (mem_fallback hmem).2.2 rfl
  apply legal_of_clean
  · exact append_ne_nil_of_right_ne_nil _ (cons_ne_nil _ _)
  · refine ⟨fun u hu => (mem_fallback hu).1, ⟨fun u hu h => ?_, ?_⟩, fun hlast => ?_⟩
    · exact absurd (h.symm.trans (hspace u hu)) (by decide)
    · apply isChain_iff_getElem.2
      intro i hi hboth
      exact absurd (hboth.1.symm.trans (hspace _ (getElem_mem _))) (by decide)
    · exact hdot (mem_of_getLast? hlast)
  · exact trim_eq_self fun u hu => (mem_fallback hu).2.1
  · rw [cut_of_not_mem_tail fun hmem => hdot (mem_of_mem_tail hmem)]
    exact takeLast_eq_self (length_fallback_le millis)

/-- No blank stands where a cleaned name begins or ends, also after it is cut: in front of the
dots that were dropped, at the 120th character from the end of the name, or at the 20th of
its extension. -/
def EndsKept (s : CodeUnits) : Prop :=
  (∀ u, s[keptFrom s]? = some u → isWhitespace u = false) ∧
    ∀ u, s[keptTo s - 1]? = some u → isWhitespace u = false

/-- A name that is kept has no blank at its ends. -/
theorem trim_eq_self_of_fixed (hclean : Clean regex name)
    (hfixed : ∀ millis, sanitizeFileName regex (some name) millis = name) : trim name = name := by
  have hname := hfixed 0
  rw [sanitizeFileName] at hname
  split at hname
  · rw [← hname]
    exact trim_eq_self fun u hu => (mem_fallback hu).2.1
  · rw [cleaned_of_clean hclean] at hname
    apply (trim_isInfix name).eq_of_length
    apply Nat.le_antisymm (trim_isInfix name).length_le
    have hcut := (cut_isInfix (trimDots (trim name))).length_le
    rw [hname] at hcut
    exact hcut.trans (trimDots_isPrefix _).length_le

/-- **A sanitized name is legal exactly when no blank stands where it begins or ends.** -/
theorem sanitizeFileName_legal_iff (regex : RegexSpace) (raw : Option CodeUnits)
    (millis : BitVec 64) :
    Legal regex (sanitizeFileName regex raw millis) ↔
      cleaned regex raw = [] ∨ EndsKept (cleaned regex raw) := by
  have hclean := cleaned_clean regex raw
  rw [sanitizeFileName]
  split
  · rename_i hempty
    exact ⟨fun _ => Or.inl hempty, fun _ => legal_fallback regex millis⟩
  · rename_i hne
    have hends : trim (cut (cleaned regex raw)) = cut (cleaned regex raw) ↔
        EndsKept (cleaned regex raw) := by
      rw [trim_eq_self_iff, head?_cut hne, getLast?_cut hne]
      rfl
    constructor
    · intro h
      exact Or.inr (hends.1 (trim_eq_self_of_fixed hclean.cut h.fixed))
    · intro h
      exact legal_of_clean (cut_ne_nil hne) hclean.cut (hends.2 (h.resolve_left hne))
        (cut_cut hclean.lastNotDot)

end Legal

/-! ## Free names -/

section Free

variable {lowercase : CodeUnits → CodeUnits} {existingNames : List CodeUnits}
  {desired : CodeUnits}

theorem freeFrom_eq_some {index : ℕ} {name : CodeUnits}
    (h : freeFrom lowercase existingNames desired index = some name) :
    isTaken lowercase existingNames name = false := by
  fun_induction freeFrom lowercase existingNames desired index with
  | case1 index hindex htaken ih => exact ih h
  | case2 index hindex htaken =>
    obtain rfl := some.inj h
    exact Bool.eq_false_of_not_eq_true htaken
  | case3 index hindex => cases h

theorem freeFrom_eq_none_iff {index : ℕ} :
    freeFrom lowercase existingNames desired index = none ↔
      ∀ i, index ≤ i → i < 10000 →
        isTaken lowercase existingNames (numbered desired i) = true := by
  fun_induction freeFrom lowercase existingNames desired index with
  | case1 index hindex htaken ih =>
    rw [ih]
    constructor
    · intro h i hi hlt
      rcases Nat.eq_or_lt_of_le hi with rfl | hi
      · exact htaken
      · exact h i hi hlt
    · intro h i hi hlt
      exact h i (Nat.le_of_succ_le hi) hlt
  | case2 index hindex htaken =>
    exact ⟨fun h => absurd h nofun, fun h => absurd (h index le_rfl hindex) htaken⟩
  | case3 index hindex =>
    exact ⟨fun _ i hi hlt => absurd (Nat.lt_of_le_of_lt hi hlt) hindex, fun _ => rfl⟩

/-- **The name that is found is free exactly when one of those that are tried is**, or the
last one by luck. -/
theorem uniqueName_free_iff (lowercase : CodeUnits → CodeUnits) (existingNames : List CodeUnits)
    (desired : CodeUnits) (nanoTime : BitVec 64) :
    isTaken lowercase existingNames (uniqueName lowercase existingNames desired nanoTime) = false ↔
      isTaken lowercase existingNames desired = false ∨
        (∃ i : ℕ, 2 ≤ i ∧ i < 10000 ∧
          isTaken lowercase existingNames (numbered desired i) = false) ∨
        isTaken lowercase existingNames (numbered desired nanoTime.toInt) = false := by
  rw [uniqueName]
  by_cases htaken : isTaken lowercase existingNames desired = true
  · rw [if_pos htaken]
    cases hfree : freeFrom lowercase existingNames desired 2 with
    | some name =>
      have hsome : ∃ i : ℕ, 2 ≤ i ∧ i < 10000 ∧
          isTaken lowercase existingNames (numbered desired i) = false := by
        by_contra hnone
        have hall : freeFrom lowercase existingNames desired 2 = none := by
          apply freeFrom_eq_none_iff.2
          intro i hi hlt
          apply Bool.eq_true_of_not_eq_false
          exact fun hfalse => hnone ⟨i, hi, hlt, hfalse⟩
        rw [hall] at hfree
        cases hfree
      exact ⟨fun _ => Or.inr (Or.inl hsome), fun _ => freeFrom_eq_some hfree⟩
    | none =>
      have hall := freeFrom_eq_none_iff.1 hfree
      rw [getD_none]
      constructor
      · exact fun h => Or.inr (Or.inr h)
      · rintro (h | ⟨i, hi, hlt, h⟩ | h)
        · exact absurd (htaken.symm.trans h) (by decide)
        · exact absurd ((hall i hi hlt).symm.trans h) (by decide)
        · exact h
  · rw [if_neg htaken]
    have hfalse := Bool.eq_false_of_not_eq_true htaken
    exact ⟨fun _ => Or.inl hfalse, fun _ => hfalse⟩

end Free

/-- **When a transferred file gets a name that is legal, and one that is free.** -/
theorem name_legal_and_free_iff (regex : RegexSpace) (lowercase : CodeUnits → CodeUnits)
    (raw : Option CodeUnits) (millis nanoTime : BitVec 64) (existingNames : List CodeUnits)
    (desired : CodeUnits) :
    (Legal regex (sanitizeFileName regex raw millis) ↔
      cleaned regex raw = [] ∨ EndsKept (cleaned regex raw)) ∧
    (isTaken lowercase existingNames (uniqueName lowercase existingNames desired nanoTime) =
        false ↔
      isTaken lowercase existingNames desired = false ∨
        (∃ i : ℕ, 2 ≤ i ∧ i < 10000 ∧
          isTaken lowercase existingNames (numbered desired i) = false) ∨
        isTaken lowercase existingNames (numbered desired nanoTime.toInt) = false) :=
  ⟨sanitizeFileName_legal_iff regex raw millis,
    uniqueName_free_iff lowercase existingNames desired nanoTime⟩

/-- `\s` on the device: white space without the vertical tab and the four separators. -/
def androidSpace : RegexSpace where
  isSpace u := KotlinText.isWhitespace u && u ≠ 0x0B && !(0x1C ≤ u && u ≤ 0x1F)
  blank := by decide
  isWhitespace u h := by
    rw [Bool.and_eq_true, Bool.and_eq_true] at h
    exact h.1.1

/-- **A blank in front of a dot at the end, and one where a long extension is cut.** -/
theorem sanitizeFileName_ends_with_blank :
    sanitizeFileName androidSpace (some (lit "abc .")) 0 = lit "abc " ∧
      ¬ Legal androidSpace (sanitizeFileName androidSpace (some (lit "abc .")) 0) ∧
      ¬ Legal androidSpace (sanitizeFileName androidSpace
        (some (lit "nota.konsep rapat senin pagi")) 0) := by
  refine ⟨by decide, fun h => h.lastNotBlank (by decide), fun h => h.lastNotBlank ?_⟩
  decide

end FileTransferPlan
