/-
# Normalising a profile twice

`connect` normalises the profile it is given, and `authority` and `queryParams` normalise it again.
A second round may find more to take off: a scheme behind a scheme, a slash in front of a port, a
port behind a port, a domain behind a domain.  A host that is blank behind its scheme fails the
first one.
-/
import XyDeskRemote.RdpUri

open List Option

namespace RdpUri

open WorkerText (lit append_cons_inj_left)
open KotlinText

/-! ## Names -/

/-- The host that was typed, less white space around it, schemes and slashes behind it. -/
def typedText (host : CodeUnits) : CodeUnits :=
  (removeStart "https://" (removeStart "http://" (removeStart "tcp://"
    (removeStart "rdp://" (trim host))))).rdropWhile (· = 0x2F)

/-- The text of a port. -/
def IsPortText (s : CodeUnits) : Prop := ∃ n, toIntOrNull (trim s) = some n ∧ 1 ≤ n ∧ n ≤ 65535

/-- A text that is a name and a port: `name:port` or `[name]:port`. -/
inductive HostPort : CodeUnits → CodeUnits → Prop where
  | plain {a b : CodeUnits} (hopens : (a ++ 0x3A :: b).head? ≠ some 0x5B) (ha : 0x3A ∉ a)
      (hb : 0x3A ∉ b) (hname : trim a ≠ []) (hport : IsPortText b) :
      HostPort (a ++ 0x3A :: b) (trim a)
  | bracketed {a b : CodeUnits} (hfirst : ¬ lit "]:" <:+: a) (hname : trim a ≠ [])
      (hport : IsPortText b) : HostPort (0x5B :: (a ++ 0x5D :: 0x3A :: b)) (trim a)

/-- The name in a text: the one in front of a port, or the whole text. -/
def NameIn (text name : CodeUnits) : Prop :=
  HostPort text name ∨ (name = text ∧ ∀ other, ¬ HostPort text other)

/-- There is nothing to take off a name. -/
structure Settled (name : CodeUnits) : Prop where
  trimmed : trim name = name
  noScheme : ∀ scheme ∈ ["rdp://", "tcp://", "http://", "https://"], ¬ lit scheme <+: name
  noSlash : name.getLast? ≠ some 0x2F
  noPort : ∀ other, ¬ HostPort name other

/-- The name in a host is settled, or it is not blank and there is nothing else in it than what
is taken off. -/
def HostSettles (host : CodeUnits) : Prop :=
  ∀ name, NameIn (typedText host) name →
    Settled name ∨ (isBlank name = false ∧ typedText name = [])

/-- A user of this computer, or of no domain, who has a domain in the name. -/
def NestedUser (username : Option CodeUnits) : Prop :=
  ∃ a b c, username = some (a ++ 0x5C :: (b ++ 0x5C :: c)) ∧ 0x5C ∉ a ∧ 0x5C ∉ b ∧
    (trim a = [] ∨ trim a = lit ".") ∧ trim c ≠ []

/-! ## Trimming -/

section Trimming

variable {s a b : CodeUnits} {u : UInt16}

theorem dropWhile_rdropWhile (p : UInt16 → Bool) (s : CodeUnits) :
    (s.rdropWhile p).dropWhile p = (s.dropWhile p).rdropWhile p := by
  induction s using reverseRecOn with
  | nil => rfl
  | append_singleton s x ih =>
    by_cases hx : p x = true
    · rw [rdropWhile_concat_pos p s x hx, ih, dropWhile_append]
      split
      next hall =>
        rw [isEmpty_iff.1 hall, dropWhile_cons_of_pos hx]
        rfl
      next => rw [rdropWhile_concat_pos p _ x hx]
    · rw [rdropWhile_concat_neg p s x hx, dropWhile_append]
      split
      next hall => rw [dropWhile_cons_of_neg hx, rdropWhile_singleton, if_neg hx]
      next => rw [rdropWhile_concat_neg p _ x hx]

theorem trim_rdropWhile (s : CodeUnits) : trim (s.rdropWhile isWhitespace) = trim s := by
  rw [trim, dropWhile_rdropWhile, rdropWhile_idempotent, trim]

theorem trim_dropWhile (s : CodeUnits) : trim (s.dropWhile isWhitespace) = trim s := by
  rw [trim, dropWhile_idempotent, trim]

theorem trim_trim (s : CodeUnits) : trim (trim s) = trim s := by
  rw [show trim s = (s.dropWhile isWhitespace).rdropWhile isWhitespace from rfl, trim_rdropWhile,
    trim_dropWhile]
  rfl

theorem trim_sublist (s : CodeUnits) : (trim s).Sublist s :=
  List.Sublist.trans (List.rdropWhile_prefix _ _).sublist (dropWhile_sublist _)

/-- What is dropped in front of a character that stays. -/
theorem dropWhile_append_stays {p : UInt16 → Bool} (hu : p u = false) (a b : CodeUnits) :
    (a ++ u :: b).dropWhile p = a.dropWhile p ++ u :: b := by
  rw [dropWhile_append]
  split
  next hall => rw [isEmpty_iff.1 hall, dropWhile_cons_of_neg (by rw [hu]; decide),
    nil_append]
  next => rfl

/-- The two ends of a text around a character that stays. -/
theorem trim_append_cons (hu : isWhitespace u = false) (a b : CodeUnits) :
    trim (a ++ u :: b) = a.dropWhile isWhitespace ++ u :: b.rdropWhile isWhitespace := by
  rw [trim, dropWhile_append_stays hu, rdropWhile, reverse_append, reverse_cons,
    append_assoc, singleton_append, dropWhile_append_stays hu, reverse_append,
    reverse_cons, reverse_reverse, append_assoc]
  rfl

/-- A scheme that does not stand in front of a text. -/
theorem removeStart_eq_self_iff {start : String} (hstart : lit start ≠ []) :
    removeStart start s = s ↔ ¬ lit start <+: s := by
  rw [removeStart]
  split
  next hstarts =>
    have hstem := isPrefixOf_iff_prefix.1 hstarts
    refine iff_of_false (fun h => ?_) (not_not_intro hstem)
    have hlength := congrArg List.length h
    have hle := hstem.length_le
    have hpos := length_pos_iff.2 hstart
    rw [length_drop] at hlength
    omega
  next hstarts => exact iff_of_true rfl (mt isPrefixOf_iff_prefix.2 hstarts)

theorem removeStart_sublist (start : String) (s : CodeUnits) : (removeStart start s).Sublist s := by
  rw [removeStart]
  split
  · exact drop_sublist _ _
  · exact List.Sublist.refl _

/-- What is left of a text is a part of it. -/
theorem typedText_sublist (s : CodeUnits) : (typedText s).Sublist s := by
  rw [typedText]
  exact (List.rdropWhile_prefix _ _).sublist.trans <|
    (removeStart_sublist _ _).trans <| (removeStart_sublist _ _).trans <|
    (removeStart_sublist _ _).trans <| (removeStart_sublist _ _).trans (trim_sublist s)

theorem dropSlashes_eq_self_iff : s.rdropWhile (· = 0x2F) = s ↔ s.getLast? ≠ some 0x2F := by
  rw [rdropWhile_eq_self_iff]
  constructor
  · rintro h hlast
    obtain ⟨front, rfl⟩ := getLast?_eq_some_iff.1 hlast
    exact h (append_ne_nil_of_right_ne_nil _ (cons_ne_nil _ _))
      (by rw [getLast_concat]; rfl)
  · intro h hne hlast
    rw [getLast?_eq_some_getLast hne, of_decide_eq_true hlast] at h
    exact h rfl

/-- Nothing is taken off a text that is trimmed, has no scheme and does not end in a slash. -/
theorem typedText_eq_self_iff : typedText s = s ↔ trim s = s ∧
    (∀ scheme ∈ ["rdp://", "tcp://", "http://", "https://"], ¬ lit scheme <+: s) ∧
      s.getLast? ≠ some 0x2F := by
  have hschemes : (∀ scheme ∈ ["rdp://", "tcp://", "http://", "https://"], ¬ lit scheme <+: s) ↔
      removeStart "rdp://" s = s ∧ removeStart "tcp://" s = s ∧ removeStart "http://" s = s ∧
        removeStart "https://" s = s := by
    rw [removeStart_eq_self_iff (by decide), removeStart_eq_self_iff (by decide),
      removeStart_eq_self_iff (by decide), removeStart_eq_self_iff (by decide)]
    simp
  rw [hschemes, ← dropSlashes_eq_self_iff, typedText]
  constructor
  · intro h
    -- nothing is shorter than the result, so nothing was taken off on the way
    have hslash := (List.rdropWhile_prefix (· = 0x2F) (removeStart "https://" (removeStart "http://"
      (removeStart "tcp://" (removeStart "rdp://" (trim s)))))).sublist
    rw [h] at hslash
    have htrim := trim_sublist s
    have hrdp := removeStart_sublist "rdp://" (trim s)
    have htcp := removeStart_sublist "tcp://" (removeStart "rdp://" (trim s))
    have hhttp := removeStart_sublist "http://" (removeStart "tcp://"
      (removeStart "rdp://" (trim s)))
    have hhttps := removeStart_sublist "https://" (removeStart "http://" (removeStart "tcp://"
      (removeStart "rdp://" (trim s))))
    have h4 := hslash.trans hhttps
    have h3 := h4.trans hhttp
    have h2 := h3.trans htcp
    have h1 := h2.trans hrdp
    have e1 := htrim.antisymm h1
    rw [e1] at h hslash h4 h3 h2 hrdp htcp hhttp hhttps
    have e2 := hrdp.antisymm h2
    rw [e2] at h hslash h4 h3 htcp hhttp hhttps
    have e3 := htcp.antisymm h3
    rw [e3] at h hslash h4 hhttp hhttps
    have e4 := hhttp.antisymm h4
    rw [e4] at h hslash hhttps
    have e5 := hhttps.antisymm hslash
    rw [e5] at h
    exact ⟨e1, ⟨e2, e3, e4, e5⟩, h⟩
  · rintro ⟨e1, ⟨e2, e3, e4, e5⟩, h⟩
    rw [e1, e2, e3, e4, e5, h]

end Trimming

/-! ## The host -/

section Host

variable {text name : CodeUnits} {port : Int}

theorem HostPort.name_ne_nil (h : HostPort text name) : name ≠ [] := by
  cases h with
  | plain _ _ _ hname _ => exact hname
  | bracketed _ hname _ => exact hname

theorem HostPort.length_lt (h : HostPort text name) : name.length < text.length := by
  cases h with
  | @plain a b =>
    have hle := (trim_sublist a).length_le
    rw [length_append, length_cons]
    omega
  | @bracketed a b =>
    have hle := (trim_sublist a).length_le
    rw [length_cons, length_append]
    omega

theorem takePort_taken {a b : CodeUnits} (hname : trim a ≠ []) (hport : IsPortText b) :
    (takePort text port a b).1 = trim a := by
  obtain ⟨n, hn, hrange⟩ := hport
  rw [takePort, hn]
  dsimp only
  rw [if_pos ⟨hname, hrange⟩]

/-- A port that cannot be taken is left alone. -/
theorem takePort_left {a b : CodeUnits} (h : ¬ (trim a ≠ [] ∧ IsPortText b)) :
    takePort text port a b = (text, port) := by
  rw [takePort]
  split
  next n hn => exact if_neg fun hgood => h ⟨hgood.1, n, hn, hgood.2⟩
  next => rfl

theorem isPrefixOf_bracket {s : CodeUnits} :
    (lit "]:").isPrefixOf s = true ↔ ∃ rest, s = 0x5D :: 0x3A :: rest := by
  rw [List.isPrefixOf_iff_prefix]
  exact ⟨fun ⟨rest, h⟩ => ⟨rest, h.symm⟩, fun ⟨rest, h⟩ => ⟨rest, h.symm⟩⟩

/-- Where the first `]:` is. -/
theorem indexOfText_bracket {a b : CodeUnits} (hfirst : ¬ lit "]:" <:+: a) :
    indexOfText "]:" (0x5B :: (a ++ 0x5D :: 0x3A :: b)) = some (a.length + 1) := by
  rw [indexOfText, find?_range_eq_some]
  refine ⟨?_, ?_, fun j hj => ?_⟩
  · rw [drop_succ_cons, drop_left]
    rfl
  · rw [mem_range, length_cons, length_append, length_cons]
    omega
  · rw [Bool.not_eq_true', Bool.eq_false_iff]
    intro hstarts
    obtain ⟨rest, hrest⟩ := isPrefixOf_bracket.1 hstarts
    cases j with
    | zero => exact absurd (List.cons.inj hrest).1 (by decide)
    | succ k =>
      have hk : k < a.length := by omega
      rw [drop_succ_cons, drop_append_of_le_length hk.le,
        drop_eq_getElem_cons hk, cons_append] at hrest
      obtain ⟨hx, hrest⟩ := List.cons.inj hrest
      cases htail : a.drop (k + 1) with
      | nil =>
        rw [htail, nil_append] at hrest
        exact absurd (List.cons.inj hrest).1 (by decide)
      | cons y tail =>
        rw [htail, cons_append] at hrest
        obtain ⟨rfl, -⟩ := List.cons.inj hrest
        refine hfirst ⟨a.take k, tail, ?_⟩
        rw [← take_append_drop k a, drop_eq_getElem_cons hk, hx, htail,
          append_assoc, take_left' (length_take_of_le hk.le)]
        rfl

/-- What is in front of the first `]:`. -/
theorem indexOfText_some {rest : CodeUnits} {closeIdx : ℕ}
    (h : indexOfText "]:" (0x5B :: rest) = some closeIdx) :
    ∃ a b, rest = a ++ 0x5D :: 0x3A :: b ∧ ¬ lit "]:" <:+: a ∧ closeIdx = a.length + 1 := by
  rw [indexOfText, find?_range_eq_some] at h
  obtain ⟨hstarts, hmem, hbefore⟩ := h
  obtain ⟨b, hb⟩ := isPrefixOf_bracket.1 hstarts
  cases closeIdx with
  | zero => exact absurd (List.cons.inj hb).1 (by decide)
  | succ k =>
    rw [mem_range, length_cons] at hmem
    have hk : (rest.take k).length = k := length_take_of_le (by omega)
    rw [drop_succ_cons] at hb
    refine ⟨rest.take k, b, ?_, ?_, by rw [hk]⟩
    · rw [← hb, take_append_drop]
    · rintro ⟨x, y, hxy⟩
      have hrest : rest = x ++ 0x5D :: 0x3A :: (y ++ rest.drop k) := by
        conv_lhs => rw [← take_append_drop k rest, ← hxy, append_assoc, append_assoc]
        rfl
      have hlt : x.length + 1 < k + 1 := by
        rw [← hk, ← hxy, length_append, length_append]
        have htwo : (lit "]:").length = 2 := rfl
        omega
      have hnot := hbefore _ hlt
      rw [drop_succ_cons, hrest, drop_left] at hnot
      exact absurd hnot (by rw [isPrefixOf_bracket.2 ⟨_, rfl⟩]; decide)

theorem resolveHost_of_hostPort (h : HostPort text name) : (resolveHost text port).1 = name := by
  cases h with
  | @plain a b hopens ha hb hname hport =>
    have hcount : (a ++ 0x3A :: b).count 0x3A = 1 := by
      rw [count_append, count_cons_self, count_eq_zero.2 ha, count_eq_zero.2 hb]
    rw [resolveHost, if_pos ⟨hopens, hcount⟩, lastIndexOf_append_cons hb]
    dsimp only
    rw [take_left, ← drop_drop, drop_left]
    exact takePort_taken hname hport
  | @bracketed a b hfirst hname hport =>
    rw [resolveHost, if_neg (by simp), if_pos (by rfl), indexOfText_bracket hfirst]
    dsimp only
    rw [take_succ_cons, drop_succ_cons, drop_zero, take_left,
      drop_succ_cons, ← drop_drop, drop_left]
    exact takePort_taken hname hport

theorem resolveHost_of_not (h : ∀ name, ¬ HostPort text name) :
    resolveHost text port = (text, port) := by
  rw [resolveHost]
  split
  next hplain =>
    have hmem : (0x3A : UInt16) ∈ text := count_pos_iff.1 (by omega)
    obtain ⟨a, b, rfl, ha⟩ := eq_append_cons_of_mem hmem
    have hb : (0x3A : UInt16) ∉ b := by
      have hcount := hplain.2
      rw [count_append, count_cons_self, count_eq_zero.2 ha] at hcount
      exact count_eq_zero.1 (by omega)
    rw [lastIndexOf_append_cons hb]
    dsimp only
    rw [take_left, ← drop_drop, drop_left]
    exact takePort_left fun hgood => h _ (.plain hplain.1 ha hb hgood.1 hgood.2)
  next =>
    split
    next hopens =>
      obtain ⟨rest, rfl⟩ := head?_eq_some_iff.1 hopens
      split
      next closeIdx hclose =>
        obtain ⟨a, b, rfl, hfirst, rfl⟩ := indexOfText_some hclose
        rw [take_succ_cons, drop_succ_cons, drop_zero, take_left,
          drop_succ_cons, ← drop_drop, drop_left]
        exact takePort_left fun hgood => h _ (.bracketed hfirst hgood.1 hgood.2)
      next => rfl
    next => rfl

theorem nameIn_iff : NameIn text name ↔ name = (resolveHost text port).1 := by
  by_cases h : ∃ other, HostPort text other
  · obtain ⟨other, hother⟩ := h
    rw [resolveHost_of_hostPort hother]
    constructor
    · rintro (hname | ⟨-, hnone⟩)
      · have hfound : (resolveHost text port).1 = name := resolveHost_of_hostPort hname
        rw [← hfound, resolveHost_of_hostPort hother]
      · exact absurd hother (hnone other)
    · rintro rfl
      exact .inl hother
  · have hnone : ∀ other, ¬ HostPort text other := fun other hother => h ⟨other, hother⟩
    rw [resolveHost_of_not hnone]
    exact ⟨fun hname => hname.elim (fun hport => absurd hport (hnone _)) And.left,
      fun hname => .inr ⟨hname, hnone⟩⟩

theorem resolveHost_eq_nil_iff : (resolveHost text port).1 = [] ↔ text = [] := by
  have hname : NameIn text (resolveHost text port).1 := nameIn_iff.2 rfl
  constructor
  · intro hnil
    rcases hname with hport | ⟨htext, -⟩
    · exact absurd hnil hport.name_ne_nil
    · rw [← htext, hnil]
  · rintro rfl
    rfl

/-- A name is resolved to itself when nothing is left of it or when it is settled. -/
theorem resolveHost_name_iff (hname : name ≠ []) :
    (if (resolveHost (typedText name) port).1 = [] then name
      else (resolveHost (typedText name) port).1) = name ∧
      (resolveHost (typedText name) port).2 = port ↔ typedText name = [] ∨ Settled name := by
  simp only [resolveHost_eq_nil_iff]
  constructor
  · rintro ⟨h, -⟩
    by_cases hnil : typedText name = []
    · exact .inl hnil
    · rw [if_neg hnil] at h
      right
      have hle := (typedText_sublist name).length_le
      have hwhole : typedText name = name := by
        refine (typedText_sublist name).eq_of_length ?_
        rcases nameIn_iff.2 h.symm with hport | ⟨heq, -⟩
        · have hlt := hport.length_lt
          omega
        · rw [← heq]
      obtain ⟨htrim, hscheme, hslash⟩ := typedText_eq_self_iff.1 hwhole
      refine ⟨htrim, hscheme, hslash, fun other hother => ?_⟩
      rw [hwhole, resolveHost_of_hostPort hother] at h
      have hlt := hother.length_lt
      rw [h] at hlt
      exact lt_irrefl _ hlt
  · rintro (hnil | hsettled)
    · rw [hnil, if_pos rfl]
      exact ⟨rfl, rfl⟩
    · rw [typedText_eq_self_iff.2 ⟨hsettled.trimmed, hsettled.noScheme, hsettled.noSlash⟩,
        if_neg hname, resolveHost_of_not hsettled.noPort]
      exact ⟨rfl, rfl⟩

end Host

/-! ## The user -/

section User

variable {a rest : CodeUnits} {username domain : Option CodeUnits}

theorem trimmed_some (s : CodeUnits) :
    trimmed (some s) = if trim s = [] then none else some (trim s) := by
  rw [trimmed, map_some, filter_some]
  by_cases h : trim s = [] <;> simp [h]

theorem trimmed_trimmed (text : Option CodeUnits) : trimmed (trimmed text) = trimmed text := by
  cases text with
  | none => rfl
  | some s =>
    rw [trimmed_some]
    split
    next => rfl
    next hne => rw [trimmed_some, trim_trim, if_neg hne]

/-- A user of no domain, behind the first backslash of the name. -/
theorem resolveUser_split (ha : 0x5C ∉ a) :
    resolveUser (some (a ++ 0x5C :: rest)) none =
      if trim rest = [] then (some (a ++ 0x5C :: rest), none)
      else (some (trim rest), if trim a = [] ∨ trim a = lit "." then none else some (trim a)) := by
  rw [resolveUser, indexOf_append_cons ha]
  dsimp only
  rw [take_left, ← drop_drop, drop_left, drop_succ_cons, drop_zero]
  by_cases hrest : trim rest = []
  · simp [hrest]
  · by_cases hdot : trim a = [] ∨ trim a = lit "."
    · rw [if_neg hrest, if_pos hdot]
      rcases hdot with hdot | hdot <;> simp [hrest, hdot]
    · rw [if_neg hrest, if_neg hdot]
      rw [not_or] at hdot
      simp [hrest, hdot]

theorem resolveUser_same (h : domain ≠ none ∨ ∀ s, username = some s → (0x5C : UInt16) ∉ s) :
    resolveUser username domain = (username, domain) := by
  cases username with
  | none => rfl
  | some s =>
    rw [resolveUser]
    split
    next => rfl
    next slashIdx hslash =>
      rcases h with hdomain | hnone
      · obtain ⟨text, rfl⟩ := ne_none_iff_exists'.1 hdomain
        rfl
      · have hmem := hnone s rfl
        rw [idxOf?_eq_none_iff.2 hmem] at hslash
        cases hslash

/-- A name with a backslash, trimmed. -/
theorem trimmed_split (a rest : CodeUnits) : trimmed (some (a ++ 0x5C :: rest)) =
    some (a.dropWhile isWhitespace ++ 0x5C :: rest.rdropWhile isWhitespace) := by
  have hslash : isWhitespace 0x5C = false := by decide
  rw [trimmed_some, trim_append_cons hslash,
    if_neg (append_ne_nil_of_right_ne_nil _ (cons_ne_nil _ _))]

theorem trimmed_trim {s : CodeUnits} (h : trim s ≠ []) :
    trimmed (some (trim s)) = some (trim s) := by
  rw [trimmed_some, trim_trim, if_neg h]

/-- The name of a nested user, at its first backslash. -/
theorem nestedUser_split (ha : 0x5C ∉ a) : NestedUser (some (a ++ 0x5C :: rest)) ↔
    (trim a = [] ∨ trim a = lit ".") ∧ ∃ b c, rest = b ++ 0x5C :: c ∧ 0x5C ∉ b ∧ trim c ≠ [] := by
  constructor
  · rintro ⟨a', b, c, h, ha', hb, hdot, hc⟩
    obtain ⟨rfl, rfl⟩ := append_cons_inj_left ha ha' (some.inj h)
    exact ⟨hdot, b, c, rfl, hb, hc⟩
  · rintro ⟨hdot, b, c, rfl, hb, hc⟩
    exact ⟨a, b, c, rfl, ha, hb, hdot, hc⟩

/-- The user of no domain: a second round finds nothing when the first took a domain, or when
there is no second one. -/
theorem resolveUser_local_iff (h : trim rest ≠ []) :
    resolveUser (some (trim rest)) none = (some (trim rest), none) ↔
      ¬ ∃ b c, rest = b ++ 0x5C :: c ∧ 0x5C ∉ b ∧ trim c ≠ [] := by
  by_cases hmem : (0x5C : UInt16) ∈ rest
  · obtain ⟨b, c, rfl, hb⟩ := eq_append_cons_of_mem hmem
    have hb' : (0x5C : UInt16) ∉ b.dropWhile isWhitespace :=
      fun hin => hb ((dropWhile_sublist _).subset hin)
    have hiff : (∃ b' c', b ++ 0x5C :: c = b' ++ 0x5C :: c' ∧ 0x5C ∉ b' ∧ trim c' ≠ []) ↔
        trim c ≠ [] := by
      constructor
      · rintro ⟨b', c', heq, hb', hc'⟩
        obtain ⟨rfl, rfl⟩ := append_cons_inj_left hb hb' heq
        exact hc'
      · exact fun hc => ⟨b, c, rfl, hb, hc⟩
    rw [hiff, not_not, trim_append_cons (by decide), resolveUser_split hb', trim_rdropWhile]
    by_cases hc : trim c = []
    · rw [if_pos hc]
      exact iff_of_true rfl hc
    · rw [if_neg hc]
      refine iff_of_false (fun heq => ?_) hc
      -- the user would be as long as the whole name
      have hlength := congrArg List.length (some.inj (Prod.mk.inj heq).1)
      have hle := (trim_sublist (c.rdropWhile isWhitespace)).length_le
      rw [trim_rdropWhile] at hle
      rw [length_append, length_cons] at hlength
      omega
  · rw [resolveUser_same (.inr ?_)]
    · refine iff_of_true rfl ?_
      rintro ⟨b, c, rfl, -⟩
      exact hmem (mem_append_right _ mem_cons_self)
    · rintro s hs hin
      obtain rfl := some.inj hs
      exact hmem ((trim_sublist rest).subset hin)

/-- **A second round finds the same user** exactly when the name was not nested. -/
theorem resolveUser_twice_iff :
    resolveUser (trimmed (resolveUser (trimmed username) (trimmed domain)).1)
        (trimmed (resolveUser (trimmed username) (trimmed domain)).2) =
      resolveUser (trimmed username) (trimmed domain) ↔
      ¬ (trimmed domain = none ∧ NestedUser username) := by
  have hsame : (trimmed domain ≠ none ∨ ∀ s, trimmed username = some s → (0x5C : UInt16) ∉ s) →
      resolveUser (trimmed (resolveUser (trimmed username) (trimmed domain)).1)
        (trimmed (resolveUser (trimmed username) (trimmed domain)).2) =
      resolveUser (trimmed username) (trimmed domain) := by
    intro h
    rw [resolveUser_same h, trimmed_trimmed, trimmed_trimmed, resolveUser_same h]
  by_cases hdomain : trimmed domain = none
  swap
  · exact iff_of_true (hsame (.inl hdomain)) fun h => hdomain h.1
  rcases username with _ | s
  · exact iff_of_true (hsame (.inr fun _ h => nomatch h)) fun ⟨_, _, _, _, h, _⟩ => nomatch h
  by_cases hmem : (0x5C : UInt16) ∈ s
  swap
  · refine iff_of_true (hsame (.inr fun t ht hin => ?_)) ?_
    · rw [trimmed_some] at ht
      split at ht
      · cases ht
      · obtain rfl := some.inj ht
        exact hmem ((trim_sublist s).subset hin)
    · rintro ⟨-, a, b, c, h, -⟩
      obtain rfl := some.inj h
      exact hmem (mem_append_right _ mem_cons_self)
  obtain ⟨a, rest, rfl, ha⟩ := eq_append_cons_of_mem hmem
  have ha' : (0x5C : UInt16) ∉ a.dropWhile isWhitespace :=
    fun hin => ha ((dropWhile_sublist _).subset hin)
  rw [hdomain, nestedUser_split ha, trimmed_split, resolveUser_split ha', trim_rdropWhile,
    trim_dropWhile]
  by_cases hrest : trim rest = []
  · rw [if_pos hrest]
    dsimp only
    rw [← trimmed_split, trimmed_trimmed, trimmed_split, trimmed, map_none,
      filter_none, resolveUser_split ha', trim_rdropWhile, if_pos hrest]
    refine iff_of_true rfl ?_
    rintro ⟨-, -, b, c, rfl, -⟩
    rw [trim_append_cons (by decide)] at hrest
    exact append_ne_nil_of_right_ne_nil _ (cons_ne_nil _ _) hrest
  · rw [if_neg hrest]
    dsimp only
    rw [trimmed_trim hrest]
    by_cases hdot : trim a = [] ∨ trim a = lit "."
    · rw [if_pos hdot, trimmed, map_none, filter_none, resolveUser_local_iff hrest]
      exact not_congr ⟨fun h => ⟨rfl, hdot, h⟩, fun h => h.2.2⟩
    · rw [if_neg hdot, trimmed_trim fun h => hdot (.inl h), resolveUser_same (.inl (by simp))]
      exact iff_of_true rfl fun h => hdot h.2.1

end User

/-! ## The profile -/

section Profile

variable {profile norm : ConnectionProfile}

/-- The host that normalising leaves. -/
def hostLeft (host : CodeUnits) (port : Int) : CodeUnits :=
  if (resolveHost (typedText host) port).1 = [] then host else (resolveHost (typedText host) port).1

theorem normalizeProfile_eq_copy : normalizeProfile profile =
    profile.copy (hostLeft profile.host profile.port)
      (resolveHost (typedText profile.host) profile.port).2
      (resolveUser (trimmed profile.username) (trimmed profile.domain)).1
      (resolveUser (trimmed profile.username) (trimmed profile.domain)).2 := by
  unfold normalizeProfile hostLeft typedText
  rfl

/-- Normalising keeps the port one, so it fails on a blank host alone. -/
theorem exists_normalizeProfile (h : isBlank (hostLeft profile.host profile.port) = false) :
    ∃ norm, normalizeProfile profile = some norm := by
  rw [normalizeProfile_eq_copy, ConnectionProfile.copy, dif_pos h,
    dif_pos (resolveHost_port profile.inRange)]
  exact ⟨_, rfl⟩

theorem hostSettles_iff : HostSettles profile.host ↔
    Settled (resolveHost (typedText profile.host) profile.port).1 ∨
      (isBlank (resolveHost (typedText profile.host) profile.port).1 = false ∧
        typedText (resolveHost (typedText profile.host) profile.port).1 = []) :=
  ⟨fun h => h _ (nameIn_iff.2 rfl), fun h _ hname => nameIn_iff.1 hname ▸ h⟩

theorem settled_nil : Settled [] where
  trimmed := rfl
  noScheme := by decide
  noSlash := by decide
  noPort _ h := absurd h.length_lt (Nat.not_lt_zero _)

/-- The first round succeeds when the name in the host settles. -/
theorem HostSettles.exists_normalizeProfile (h : HostSettles profile.host) :
    ∃ norm, normalizeProfile profile = some norm := by
  refine RdpUri.exists_normalizeProfile ?_
  rw [hostLeft]
  split
  next => exact profile.notBlank
  next hname =>
    rcases hostSettles_iff.1 h with hsettled | ⟨hblank, -⟩
    · rw [← hsettled.trimmed] at hname ⊢
      exact not_isBlank_trim hname
    · exact hblank

/-- **A second round finds the same host and port** exactly when the name in the host settles. -/
theorem resolveHost_twice_iff (hnorm : normalizeProfile profile = some norm) :
    norm.host = hostLeft norm.host norm.port ∧
      norm.port = (resolveHost (typedText norm.host) norm.port).2 ↔ HostSettles profile.host := by
  rw [normalizeProfile_eq_copy] at hnorm
  obtain ⟨hhost, hport, -⟩ := ConnectionProfile.copy_eq_some_iff.1 hnorm
  have hnotBlank := norm.notBlank
  rw [hostSettles_iff, hhost, hport]
  rw [hhost] at hnotBlank
  by_cases hname : (resolveHost (typedText profile.host) profile.port).1 = []
  · -- the host was nothing but white space, schemes and slashes, and it is kept as it is
    have htext : resolveHost (typedText profile.host) profile.port = ([], profile.port) := by
      rw [resolveHost_eq_nil_iff.1 hname]
      rfl
    simp only [hostLeft, htext, if_true]
    exact iff_of_true ⟨trivial, trivial⟩ (.inl settled_nil)
  · have hleft : hostLeft profile.host profile.port =
        (resolveHost (typedText profile.host) profile.port).1 := if_neg hname
    rw [hleft] at hnotBlank ⊢
    rw [hnotBlank]
    constructor
    · rintro ⟨hhost, hport⟩
      rcases (resolveHost_name_iff hname).1 ⟨hhost.symm, hport.symm⟩ with hnil | hsettled
      · exact .inr ⟨rfl, hnil⟩
      · exact .inl hsettled
    · intro h
      obtain ⟨hhost, hport⟩ := (resolveHost_name_iff hname).2 (h.elim .inr fun h => .inl h.2)
      exact ⟨hhost.symm, hport.symm⟩

/-- **Normalising is idempotent** on a profile exactly when the name in its host settles and its
user is not nested. -/
theorem normalizeProfile_idempotent_iff :
    (∃ norm, normalizeProfile profile = some norm ∧ normalizeProfile norm = some norm) ↔
      HostSettles profile.host ∧
        ¬ (trimmed profile.domain = none ∧ NestedUser profile.username) := by
  rw [← resolveUser_twice_iff]
  have htwice : ∀ norm, normalizeProfile profile = some norm → (normalizeProfile norm = some norm ↔
      HostSettles profile.host ∧
        resolveUser (trimmed (resolveUser (trimmed profile.username) (trimmed profile.domain)).1)
          (trimmed (resolveUser (trimmed profile.username) (trimmed profile.domain)).2) =
        resolveUser (trimmed profile.username) (trimmed profile.domain)) := by
    intro norm hnorm
    rw [← resolveHost_twice_iff hnorm, @normalizeProfile_eq_copy norm,
      ConnectionProfile.copy_eq_some_iff]
    rw [normalizeProfile_eq_copy] at hnorm
    obtain ⟨-, -, husername, -, hdomain⟩ := ConnectionProfile.copy_eq_some_iff.1 hnorm
    rw [← husername, ← hdomain, Prod.ext_iff]
    constructor
    · rintro ⟨hhost, hport, huser, -, hdom⟩
      exact ⟨⟨hhost, hport⟩, huser.symm.trans husername, hdom.symm.trans hdomain⟩
    · rintro ⟨⟨hhost, hport⟩, huser, hdom⟩
      exact ⟨hhost, hport, husername.trans huser.symm, rfl, hdomain.trans hdom.symm⟩
  constructor
  · rintro ⟨norm, hnorm, hsame⟩
    exact (htwice norm hnorm).1 hsame
  · rintro ⟨hhost, huser⟩
    obtain ⟨norm, hnorm⟩ := hhost.exists_normalizeProfile
    exact ⟨norm, hnorm, (htwice norm hnorm).2 ⟨hhost, huser⟩⟩

/-- A host with a slash in front of its port. -/
def slashProfile : ConnectionProfile :=
  ⟨lit "rdp://pc/:3390", 3389, none, none, none, by decide, rdpPort_inRange⟩

/-- The slash is left to the second round, so that `connect` and `authority` go to different
hosts. -/
theorem normalizeProfile_not_idempotent : ¬ ∃ norm,
    normalizeProfile slashProfile = some norm ∧ normalizeProfile norm = some norm := by
  rintro ⟨norm, hfirst, hsecond⟩
  rw [normalizeProfile_eq_copy, ConnectionProfile.copy_eq_some_iff] at hfirst hsecond
  have hslash : norm.host = lit "pc/" := hfirst.1.trans (by decide +kernel)
  have hbare : norm.host = lit "pc" := by
    rw [hsecond.1, hslash]
    have hleft : hostLeft (lit "pc/") norm.port = lit "pc" := by
      rw [hostLeft, show typedText (lit "pc/") = lit "pc" by decide +kernel]
      rfl
    exact hleft
  rw [hslash] at hbare
  exact absurd hbare (by decide)

end Profile

end RdpUri
