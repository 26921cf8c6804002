/-
# Saved addresses

`formatRdpEndpoint` writes the host and the port of a profile for the address field, and
`parseRdpEndpoint` reads what is in the field.  A host with colons is written in brackets unless it
begins with one, whatever else is in it.
-/
import XyDeskRemote.PcId

open WorkerText (lit append_cons_inj_left)
open KotlinText List

/-- The host as `formatRdpEndpoint` writes it. -/
def formattedHost (host : CodeUnits) : CodeUnits :=
  if 0x3A ∈ host ∧ !(lit "[").isPrefixOf host then lit "[" ++ host ++ lit "]" else host

/-- `formatRdpEndpoint`. -/
def formatRdpEndpoint (host : CodeUnits) (port : Int) : CodeUnits :=
  if port = 3389 then formattedHost host else formattedHost host ++ lit ":" ++ decimalInt port

/-- No bracket is out of place in an address. -/
def bracketsFit (value : CodeUnits) : Bool :=
  if (lit "[").isPrefixOf value then !(lit "[[").isPrefixOf value
  else value.count 0x3A < 2 || 0x5D ∉ value

/-! ## Reading an address -/

section
variable {value host suffix : CodeUnits} {port : Int}

theorem opens_cons (u : UInt16) (rest : CodeUnits) :
    (lit "[").isPrefixOf (u :: rest) = (0x5B == u) := by
  rw [show lit "[" = [0x5B] from rfl, isPrefixOf_cons_cons, isPrefixOf_nil_left, Bool.and_true]

theorem opens_iff : (lit "[").isPrefixOf value = true ↔ ∃ rest, value = 0x5B :: rest := by
  cases value with
  | nil => exact ⟨fun h => absurd h (by decide), fun ⟨_, h⟩ => nomatch h⟩
  | cons u rest =>
    rw [opens_cons, beq_iff_eq]
    exact ⟨fun h => ⟨rest, h ▸ rfl⟩, fun ⟨_, h⟩ => (List.cons.inj h).1.symm⟩

theorem opens_append (hhost : host ≠ []) (rest : CodeUnits) :
    (lit "[").isPrefixOf (host ++ rest) = (lit "[").isPrefixOf host := by
  obtain ⟨u, tail, rfl⟩ := exists_cons_of_ne_nil hhost
  rw [cons_append, opens_cons, opens_cons]

/-- What is read of an address without white space. -/
theorem parseRdpEndpoint_eq_some_iff {input : CodeUnits} {e : RdpEndpoint} :
    parseRdpEndpoint input 3389 = some e ↔
      trim input ≠ [] ∧ (∀ u ∈ trim input, isWhitespace u = false) ∧
        splitRdpEndpoint (trim input) 3389 = some (e.host, e.port) := by
  rw [parseRdpEndpoint, if_neg (by decide)]
  have hspace : (trim input = [] || (trim input).any isWhitespace) = true ↔
      ¬ (trim input ≠ [] ∧ ∀ u ∈ trim input, isWhitespace u = false) := by
    simp only [Bool.or_eq_true, decide_eq_true_eq, any_eq_true]
    grind
  split
  next hbad =>
    have hbad' := hspace.1 hbad
    exact ⟨fun h => absurd h.symm (Option.some_ne_none _), fun h => absurd ⟨h.1, h.2.1⟩ hbad'⟩
  next hgood =>
    have hgood' := not_not.1 (mt hspace.2 hgood)
    rcases hsplit : splitRdpEndpoint (trim input) 3389 with _ | ⟨host, port⟩
    · exact ⟨fun h => absurd h.symm (Option.some_ne_none _), fun h => absurd h.2.2.symm (Option.some_ne_none _)⟩
    · dsimp only
      split
      next hcheck =>
        rw [Option.some_inj, Option.some_inj, Prod.mk.injEq]
        constructor
        · rintro rfl
          exact ⟨hgood'.1, hgood'.2, rfl, rfl⟩
        · rintro ⟨-, -, rfl, rfl⟩
          rfl
      next hcheck =>
        refine ⟨fun h => absurd h.symm (Option.some_ne_none _), fun h => ?_⟩
        obtain ⟨rfl, rfl⟩ := Prod.mk.inj (Option.some.inj h.2.2)
        exact absurd ⟨e.notBlank, e.inRange⟩ hcheck

/-- The shapes of an address: a host in brackets, one without colons, and one with many. -/
theorem splitRdpEndpoint_cases (h : splitRdpEndpoint value 3389 = some (host, port)) :
    (∃ suffix, value = 0x5B :: (host ++ 0x5D :: suffix) ∧ 0x5D ∉ host ∧ 0x3A ∈ host) ∨
    ((lit "[").isPrefixOf value = false ∧ 0x3A ∉ host ∧ value.count 0x3A < 2 ∧ host <+: value) ∨
    ((lit "[").isPrefixOf value = false ∧ 2 ≤ value.count 0x3A ∧ host = value ∧ port = 3389) := by
  rw [splitRdpEndpoint] at h
  split at h
  next hopens =>
    obtain ⟨rest, rfl⟩ := opens_iff.1 hopens
    left
    split at h
    next => cases h
    next stop hstop =>
      -- the first closing bracket
      have hmem : (0x5D : UInt16) ∈ 0x5B :: rest := by
        by_contra hmem
        rw [idxOf?_eq_none_iff.2 hmem] at hstop
        cases hstop
      obtain ⟨front, back, hvalue, hfront⟩ := eq_append_cons_of_mem hmem
      rw [hvalue, indexOf_append_cons hfront] at hstop
      obtain rfl := Option.some.inj hstop
      obtain ⟨u, inside, rfl⟩ : ∃ u inside, front = u :: inside := by
        cases front with
        | nil => exact absurd (List.cons.inj hvalue).1 (by decide)
        | cons u inside => exact ⟨u, inside, rfl⟩
      obtain ⟨rfl, rfl⟩ := List.cons.inj hvalue
      have htake : ((0x5B :: (inside ++ 0x5D :: back)).take (0x5B :: inside).length).drop 1 =
          inside := by
        rw [length_cons, take_succ_cons, drop_succ_cons, drop_zero, take_left]
      dsimp only [append_eq] at h
      rw [htake] at h
      split at h
      · cases h
      · split at h
        · cases h
        next hcolon =>
          rw [Bool.or_eq_true, not_or, decide_eq_true_eq, not_not] at hcolon
          have hhost : host = inside := by
            split at h
            · exact (Prod.mk.inj (Option.some.inj h)).1.symm
            · split at h
              · cases h
              · obtain ⟨_, -, hport⟩ := Option.map_eq_some_iff.1 h
                exact (Prod.mk.inj hport).1.symm
          subst hhost
          exact ⟨back, rfl, fun hin => hfront (mem_cons_of_mem _ hin), hcolon.1⟩
  next hopens =>
    have hopens' := Bool.eq_false_iff.2 hopens
    right
    split at h
    next hcount =>
      left
      have hmem : (0x3A : UInt16) ∈ value := count_pos_iff.1 (by omega)
      obtain ⟨front, back, rfl, hfront⟩ := eq_append_cons_of_mem hmem
      dsimp only at h
      split at h
      · cases h
      · obtain ⟨_, -, hport⟩ := Option.map_eq_some_iff.1 h
        have hidx : (front ++ 0x3A :: back).idxOf 0x3A = front.length := by
          rw [idxOf_append_of_notMem hfront, idxOf_cons_self, Nat.add_zero]
        have hhost := (Prod.mk.inj hport).1
        rw [hidx, take_left] at hhost
        subst hhost
        exact ⟨hopens', hfront, by omega, prefix_append _ _⟩
    next hcount =>
      obtain ⟨rfl, rfl⟩ := Prod.mk.inj (Option.some.inj h)
      by_cases hmany : 2 ≤ value.count 0x3A
      · exact .inr ⟨hopens', hmany, rfl, rfl⟩
      · refine .inl ⟨hopens', ?_, by omega, prefix_refl _⟩
        rw [← count_eq_zero]
        have hone : value.count 0x3A ≠ 1 := hcount
        omega

/-! ## Reading an address that was written -/

/-- The characters of a number are digits. -/
theorem mem_decimal_isDigit {n : ℕ} {u : UInt16} (h : u ∈ decimal n) : isDigit u = true := by
  obtain ⟨d, hd, rfl⟩ := mem_map_digitUnit (decimal_digits n) h
  exact (digitUnit_spec hd).2.2.2.2

theorem decimal_ne_nil (n : ℕ) : decimal n ≠ [] :=
  fun h => Numeral.digits_ne_nil 10 n (map_eq_nil_iff.1 h)

theorem not_mem_decimal {n : ℕ} {u : UInt16} (h : isDigit u = false) : u ∉ decimal n := fun hu =>
  absurd (mem_decimal_isDigit hu) (Bool.eq_false_iff.1 h)

theorem all_digits (n : ℕ) : ((decimal n).any fun u => !isDigit u) = false := by
  rw [any_eq_false]
  intro u hu
  rw [mem_decimal_isDigit hu]
  exact Bool.false_ne_true

/-- A host without colons. -/
theorem splitRdpEndpoint_plain (hopens : (lit "[").isPrefixOf host = false) (hcolon : 0x3A ∉ host) :
    splitRdpEndpoint host 3389 = some (host, 3389) := by
  rw [splitRdpEndpoint, if_neg (Bool.eq_false_iff.1 hopens), count_eq_zero.2 hcolon]
  rfl

theorem splitRdpEndpoint_port (hhost : host ≠ []) (hopens : (lit "[").isPrefixOf host = false)
    (hcolon : 0x3A ∉ host) {n : ℕ} (hn : n < 2 ^ 31) :
    splitRdpEndpoint (host ++ 0x3A :: decimal n) 3389 = some (host, (n : Int)) := by
  have hcount : (host ++ 0x3A :: decimal n).count 0x3A = 1 := by
    rw [count_append, count_cons_self, count_eq_zero.2 hcolon,
      count_eq_zero.2 (not_mem_decimal (by decide))]
  have hidx : (host ++ 0x3A :: decimal n).idxOf 0x3A = host.length := by
    rw [idxOf_append_of_notMem hcolon, idxOf_cons_self, Nat.add_zero]
  have hdrop : (host ++ 0x3A :: decimal n).drop (host.length + 1) = decimal n := by
    rw [← drop_drop, drop_left, drop_succ_cons, drop_zero]
  rw [splitRdpEndpoint, opens_append hhost, if_neg (Bool.eq_false_iff.1 hopens), hcount]
  dsimp only
  rw [hidx, hdrop, all_digits, Bool.or_false, if_neg (by simpa using decimal_ne_nil n),
    toIntOrNull_decimal hn, take_left]
  rfl

theorem splitRdpEndpoint_brackets (hclose : 0x5D ∉ host) (hcolon : 0x3A ∈ host) :
    splitRdpEndpoint (0x5B :: (host ++ [0x5D])) 3389 = some (host, 3389) ∧
      ∀ n < 2 ^ 31, splitRdpEndpoint (0x5B :: (host ++ 0x5D :: 0x3A :: decimal n)) 3389 =
        some (host, (n : Int)) := by
  have hidx : ∀ suffix, (0x5B :: (host ++ 0x5D :: suffix)).idxOf? 0x5D =
      some (0x5B :: host).length := by
    intro suffix
    rw [← cons_append]
    refine indexOf_append_cons fun hin => ?_
    rcases mem_cons.1 hin with hin | hin
    · exact absurd hin (by decide)
    · exact hclose hin
  have htake : ∀ suffix, ((0x5B :: (host ++ 0x5D :: suffix)).take (0x5B :: host).length).drop 1 =
      host := by
    intro suffix
    rw [length_cons, take_succ_cons, drop_succ_cons, drop_zero, take_left]
  have hdrop : ∀ suffix : CodeUnits,
      (0x5B :: (host ++ 0x5D :: suffix)).drop ((0x5B :: host).length + 1) = suffix := by
    intro suffix
    rw [length_cons, drop_succ_cons, ← drop_drop, drop_left, drop_succ_cons, drop_zero]
  have hlength : ¬ (0x5B :: host).length ≤ 1 := by
    rw [length_cons]
    have := length_pos_of_mem hcolon
    omega
  constructor
  · rw [splitRdpEndpoint, if_pos (by rw [opens_cons]; rfl), hidx]
    dsimp only
    rw [htake, hdrop, if_neg hlength, if_neg (by simpa using hcolon), if_pos rfl]
  · intro n hn
    rw [splitRdpEndpoint, if_pos (by rw [opens_cons]; rfl), hidx]
    dsimp only
    have hsuffix : (0x3A :: decimal n : CodeUnits) ≠ [] := cons_ne_nil _ _
    have hstarts : (lit ":").isPrefixOf (0x3A :: decimal n) = true := rfl
    have hmore : (0x3A :: decimal n : CodeUnits).length ≠ 1 := by
      rw [length_cons]
      have := length_pos_iff.2 (decimal_ne_nil n)
      omega
    rw [htake, hdrop, if_neg hlength, hstarts, if_neg (by simpa using hcolon), if_neg hsuffix,
      drop_succ_cons, drop_zero, all_digits, Bool.or_false, if_neg (by simpa using hmore),
      toIntOrNull_decimal hn]
    rfl

/-- The text of a number that is a port. -/
theorem decimalInt_port (hport : 1 ≤ port) : decimalInt port = decimal port.toNat :=
  if_neg (by omega)

theorem formatRdpEndpoint_space (hspace : ∀ u ∈ host, isWhitespace u = false) (hport : 1 ≤ port) :
    ∀ u ∈ formatRdpEndpoint host port, isWhitespace u = false := by
  have hhost : ∀ u ∈ formattedHost host, isWhitespace u = false := by
    intro u hu
    rw [formattedHost] at hu
    split at hu
    · rcases mem_append.1 hu with hu | hu
      · rcases mem_append.1 hu with hu | hu
        · rw [mem_singleton.1 hu]
          rfl
        · exact hspace u hu
      · rw [mem_singleton.1 hu]
        rfl
    · exact hspace u hu
  intro u hu
  rw [formatRdpEndpoint] at hu
  split at hu
  · exact hhost u hu
  · rcases mem_append.1 hu with hu | hu
    · rcases mem_append.1 hu with hu | hu
      · exact hhost u hu
      · rw [mem_singleton.1 hu]
        rfl
    · rw [decimalInt_port hport] at hu
      exact (mem_decimal hu).2.2

/-- An address that was written is read as what it is split into. -/
theorem parse_format_iff {e : RdpEndpoint} (hspace : ∀ u ∈ e.host, isWhitespace u = false) :
    parseRdpEndpoint (formatRdpEndpoint e.host e.port) 3389 = some e ↔
      splitRdpEndpoint (formatRdpEndpoint e.host e.port) 3389 = some (e.host, e.port) := by
  have htext := formatRdpEndpoint_space hspace e.inRange.1
  have hne : formatRdpEndpoint e.host e.port ≠ [] := by
    have hhost : e.host ≠ [] := fun hnil => absurd e.notBlank (by rw [hnil]; decide)
    rw [formatRdpEndpoint, formattedHost]
    split <;> split <;> simp [hhost]
  rw [parseRdpEndpoint_eq_some_iff, trim_eq_self htext]
  exact ⟨fun h => h.2.2, fun h => ⟨hne, htext, h⟩⟩

/-! ## The round trip -/

theorem formattedHost_colons (hopens : (lit "[").isPrefixOf host = false) (hcolon : 0x3A ∈ host) :
    formattedHost host = 0x5B :: (host ++ [0x5D]) := by
  rw [formattedHost, hopens, if_pos ⟨hcolon, rfl⟩]
  rfl

/-- A host without colons, or one that begins with a bracket. -/
theorem formattedHost_same (h : 0x3A ∉ host ∨ (lit "[").isPrefixOf host = true) :
    formattedHost host = host := by
  refine if_neg fun hcolons => ?_
  rcases h with hcolon | hopens
  · exact hcolon hcolons.1
  · rw [hopens] at hcolons
    exact absurd hcolons.2 (by decide)

/-- A host without colons, written and read. -/
theorem split_format_plain (hhost : host ≠ []) (hopens : (lit "[").isPrefixOf host = false)
    (hcolon : 0x3A ∉ host) (hport : 1 ≤ port ∧ port ≤ 65535) :
    splitRdpEndpoint (formatRdpEndpoint host port) 3389 = some (host, port) := by
  rw [formatRdpEndpoint, formattedHost_same (.inl hcolon)]
  split
  next hdefault => rw [splitRdpEndpoint_plain hopens hcolon, hdefault]
  next =>
    rw [decimalInt_port hport.1, append_assoc]
    have hread := splitRdpEndpoint_port hhost hopens hcolon
      (show port.toNat < 2 ^ 31 by omega)
    rwa [Int.toNat_of_nonneg (by omega)] at hread

/-- A host with colons that does not begin with a bracket, written and read. -/
theorem split_format_colons (hopens : (lit "[").isPrefixOf host = false) (hclose : 0x5D ∉ host)
    (hcolon : 0x3A ∈ host) (hport : 1 ≤ port ∧ port ≤ 65535) :
    splitRdpEndpoint (formatRdpEndpoint host port) 3389 = some (host, port) := by
  obtain ⟨hdefault, hother⟩ := splitRdpEndpoint_brackets hclose hcolon
  rw [formatRdpEndpoint, formattedHost_colons hopens hcolon]
  split
  next h3389 =>
    rw [h3389]
    exact hdefault
  next =>
    have hread := hother port.toNat (by omega)
    rw [Int.toNat_of_nonneg (by omega)] at hread
    rw [decimalInt_port hport.1, append_assoc, cons_append, append_assoc]
    exact hread

/-- A host that begins with a bracket and has no closing one is not read back. -/
theorem split_format_open {rest : CodeUnits} (hclose : 0x5D ∉ (0x5B :: rest : CodeUnits))
    (hport : 1 ≤ port) :
    splitRdpEndpoint (formatRdpEndpoint (0x5B :: rest) port) 3389 ≠ some (0x5B :: rest, port) := by
  have hopens : ∀ more, (lit "[").isPrefixOf (0x5B :: rest ++ more) = true := fun more => by
    rw [cons_append, opens_cons]
    rfl
  have htext : ∃ more, formatRdpEndpoint (0x5B :: rest) port = 0x5B :: rest ++ more ∧
      0x5D ∉ more := by
    rw [formatRdpEndpoint, formattedHost_same (.inr (by rw [opens_cons]; rfl))]
    split
    · exact ⟨[], (append_nil _).symm, not_mem_nil⟩
    · refine ⟨lit ":" ++ decimalInt port, append_assoc _ _ _, fun hin => ?_⟩
      rw [decimalInt_port hport] at hin
      rcases mem_append.1 hin with hin | hin
      · exact absurd hin (by decide)
      · exact not_mem_decimal (by decide) hin
  obtain ⟨more, htext, hmore⟩ := htext
  intro h
  rw [htext] at h
  rcases splitRdpEndpoint_cases h with ⟨suffix, hvalue, -, -⟩ | ⟨hnot, -⟩ | ⟨hnot, -⟩
  · have hin : (0x5D : UInt16) ∈ (0x5B :: rest ++ more : CodeUnits) := by
      rw [hvalue]
      exact mem_cons_of_mem _ (mem_append_right _ mem_cons_self)
    exact (mem_append.1 hin).elim hclose hmore
  · exact absurd ((hopens more).symm.trans hnot) Bool.true_eq_false.mp
  · exact absurd ((hopens more).symm.trans hnot) Bool.true_eq_false.mp

/-- A host with colons and a closing bracket is not read back. -/
theorem split_format_close (hopens : (lit "[").isPrefixOf host = false) (hclose : 0x5D ∈ host)
    (hcolon : 0x3A ∈ host) :
    splitRdpEndpoint (formatRdpEndpoint host port) 3389 ≠ some (host, port) := by
  have htext : ∃ more, formatRdpEndpoint host port = 0x5B :: (host ++ 0x5D :: more) := by
    rw [formatRdpEndpoint, formattedHost_colons hopens hcolon]
    split
    · exact ⟨[], rfl⟩
    · refine ⟨lit ":" ++ decimalInt port, ?_⟩
      rw [append_assoc, cons_append, append_assoc]
      rfl
  obtain ⟨more, htext⟩ := htext
  obtain ⟨front, back, rfl, hfront⟩ := eq_append_cons_of_mem hclose
  intro h
  rw [htext] at h
  rcases splitRdpEndpoint_cases h with ⟨suffix, hvalue, hnone, -⟩ | ⟨hnot, -⟩ | ⟨hnot, -⟩
  · -- the host would end at its first closing bracket
    exact hnone hclose
  · rw [opens_cons] at hnot
    exact absurd hnot (by decide)
  · rw [opens_cons] at hnot
    exact absurd hnot (by decide)

/-- **A saved address reopens as itself** exactly when its brackets fit. -/
theorem reopens_iff {input : CodeUnits} {e : RdpEndpoint}
    (h : parseRdpEndpoint input 3389 = some e) :
    parseRdpEndpoint (formatRdpEndpoint e.host e.port) 3389 = some e ↔
      bracketsFit (trim input) = true := by
  obtain ⟨-, hspace, hsplit⟩ := parseRdpEndpoint_eq_some_iff.1 h
  have hhost : e.host ≠ [] := fun hnil => absurd e.notBlank (by rw [hnil]; decide)
  rw [bracketsFit]
  rcases splitRdpEndpoint_cases hsplit with ⟨suffix, hvalue, hclose, hcolon⟩ |
    ⟨hopens, hcolon, hcount, hstem⟩ | ⟨hopens, hcount, heq, hport⟩
  · have hin : ∀ u ∈ e.host, isWhitespace u = false := fun u hu => by
      refine hspace u ?_
      rw [hvalue]
      exact mem_cons_of_mem _ (mem_append_left _ hu)
    rw [parse_format_iff hin, hvalue, if_pos (by rw [opens_cons]; rfl)]
    obtain ⟨u, rest, hcons⟩ := exists_cons_of_ne_nil hhost
    have hsecond : (lit "[[").isPrefixOf (0x5B :: (e.host ++ 0x5D :: suffix)) =
        (lit "[").isPrefixOf e.host := by
      rw [hcons, opens_cons, cons_append]
      simp [lit, isPrefixOf]
    rw [hsecond, Bool.not_eq_true']
    by_cases hbegins : (lit "[").isPrefixOf e.host = true
    · rw [hbegins]
      obtain ⟨rest, hrest⟩ := opens_iff.1 hbegins
      rw [hrest] at hclose ⊢
      exact iff_of_false (split_format_open hclose e.inRange.1) (by decide)
    · have hbegins' := Bool.eq_false_iff.2 hbegins
      exact iff_of_true (split_format_colons hbegins' hclose hcolon e.inRange) hbegins'
  · have hin : ∀ u ∈ e.host, isWhitespace u = false := fun u hu => hspace u (hstem.subset hu)
    rw [parse_format_iff hin, if_neg (Bool.eq_false_iff.1 hopens), decide_eq_true hcount,
      Bool.true_or]
    obtain ⟨more, hmore⟩ := hstem
    rw [← hmore, opens_append hhost] at hopens
    exact iff_of_true (split_format_plain hhost hopens hcolon e.inRange) rfl
  · rw [← heq] at hspace hopens hcount ⊢
    rw [parse_format_iff hspace, if_neg (Bool.eq_false_iff.1 hopens),
      decide_eq_false (Nat.not_lt.2 hcount), Bool.false_or, decide_eq_true_iff]
    have hcolon : (0x3A : UInt16) ∈ e.host := count_pos_iff.1 (by omega)
    by_cases hclose : (0x5D : UInt16) ∈ e.host
    · exact iff_of_false (split_format_close hopens hclose hcolon) (not_not_intro hclose)
    · exact iff_of_true (split_format_colons hopens hclose hcolon e.inRange) hclose

end

/-- An address with a port and an IPv6 address. -/
theorem reopens_iff_ipv6 : ∃ e, parseRdpEndpoint (lit " [2001:db8::1]:3390 ") 3389 = some e ∧
    (parseRdpEndpoint (formatRdpEndpoint e.host e.port) 3389 = some e ↔
      bracketsFit (trim (lit " [2001:db8::1]:3390 ")) = true) := by
  obtain ⟨e, he⟩ := Option.isSome_iff_exists.1
    (show (parseRdpEndpoint (lit " [2001:db8::1]:3390 ") 3389).isSome = true by decide +kernel)
  exact ⟨e, he, reopens_iff he⟩

/-- Two opening brackets: what is written for the address cannot be read. -/
theorem doubleBracket_not_reopens : ∃ e, parseRdpEndpoint (lit "[[::1]:3390") 3389 = some e ∧
    e.host = lit "[::1" ∧ parseRdpEndpoint (formatRdpEndpoint e.host e.port) 3389 ≠ some e := by
  have hread : (parseRdpEndpoint (lit "[[::1]:3390") 3389).map (fun e => (e.host, e.port)) =
      some (lit "[::1", 3390) := by decide +kernel
  obtain ⟨e, he, hparts⟩ := Option.map_eq_some_iff.1 hread
  obtain ⟨hhost, hport⟩ := Prod.mk.inj hparts
  refine ⟨e, he, hhost, fun h => ?_⟩
  have hnone : parseRdpEndpoint (formatRdpEndpoint (lit "[::1") 3390) 3389 = none := by
    rw [← Option.isNone_iff_eq_none]
    decide +kernel
  rw [hhost, hport, hnone] at h
  cases h
