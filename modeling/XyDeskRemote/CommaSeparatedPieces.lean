/-
# The pieces of a comma separated list

`pieces` cuts a list at the commas that are neither in quotes nor behind a backslash, in one pass.
`elements_pieces` says that the elements are these pieces, each of them once and without the quotes
around it, wherever the two passes of the parser agree.  A backslash stays where it is.
-/
import XyDeskRemote.CommaSeparated

open List Option

namespace CommaSeparated

open WorkerText (lit)

/-! ## Writing a list -/

/-- `INT_MAX`. -/
def intMax : ℕ := 2 ^ 31 - 1

/-- What `_snprintf` appends for an argument; the number of characters is an `int`. -/
def appendArgument (arg : CodeUnits) : Option CodeUnits :=
  if arg.length + 1 ≤ intMax then some (arg ++ [0x2C]) else none

/-- `CommandLineToCommaSeparatedValues`; the last comma gives way to the terminating zero. -/
def commandLineToCommaSeparatedValues (argv : List CodeUnits) : Option CodeUnits :=
  if argv = [] then none else (argv.mapM appendArgument).map fun texts => texts.flatten.dropLast

/-! ## The pieces -/

/-- A character in front of the first piece. -/
def extend (cur : UInt16) : List CodeUnits → List CodeUnits
  | [] => [[cur]]
  | p :: ps => (cur :: p) :: ps

/-- In which quotes it is behind a quote. -/
def quotedBehind (quoted : Int) (cur : UInt16) : Int :=
  if isQuoted cur = quoted then 0 else if quoted = 0 then isQuoted cur else quoted

/-- The pieces of the rest of a list: in quotes or not, behind a backslash or not. -/
def piecesFrom (fullquoted : Bool) : Int → Bool → CodeUnits → List CodeUnits
  | _, _, [] => [[]]
  | quoted, true, cur :: rest => extend cur (piecesFrom fullquoted quoted false rest)
  | quoted, false, cur :: rest =>
    if cur = 0x5C then extend cur (piecesFrom fullquoted quoted true rest)
    else if isQuoted cur ≠ 0 ∧ fullquoted = false then
      extend cur (piecesFrom fullquoted (quotedBehind quoted cur) false rest)
    else if cur = 0x2C ∧ quoted = 0 then [] :: piecesFrom fullquoted 0 false rest
    else extend cur (piecesFrom fullquoted quoted false rest)

/-- The pieces between the commas that separate. -/
def pieces (fullquoted : Bool) (text : CodeUnits) : List CodeUnits :=
  piecesFrom fullquoted 0 false text

/-- A piece without the quotes around it. -/
def unquotePiece (fullquoted : Bool) (piece : CodeUnits) : CodeUnits :=
  if fullquoted = false ∧ isQuoted (piece.headD 0) ≠ 0 then piece.tail.dropLast else piece

/-- The second pass gets through the piece: there is something in it, and no quote opens behind
its start. -/
def Clean (fullquoted : Bool) (piece : CodeUnits) : Prop :=
  getNextComma fullquoted (piece ++ [0x2C]) = some (piece, [])

instance (fullquoted : Bool) (piece : CodeUnits) : Decidable (Clean fullquoted piece) :=
  inferInstanceAs (Decidable (_ = _))

/-- The last piece has no quote at its start, or double quotes around it. -/
def ClosedLast (fullquoted : Bool) (piece : CodeUnits) : Prop :=
  isQuoted (piece.headD 0) = 0 ∨
    fullquoted = false ∧ piece.headD 0 = 0x22 ∧ piece.getLastD 0 = 0x22

/-- The two passes agree on the text, and its last piece ends as it starts. -/
structure Regular (fullquoted : Bool) (text : CodeUnits) : Prop where
  count : getElementCount fullquoted text = some (pieces fullquoted text).length
  clean : ∀ p ∈ (pieces fullquoted text).dropLast, Clean fullquoted p
  last : ∀ p ∈ (pieces fullquoted text).getLast?, ClosedLast fullquoted p

section Pieces

variable {fullquoted : Bool} {quoted : Int} {first escaped : Bool} {cur : UInt16}
  {s before after text : CodeUnits}

theorem intercalate_extend (cur : UInt16) {ps : List CodeUnits} (h : ps ≠ []) :
    [0x2C].intercalate (extend cur ps) = cur :: [0x2C].intercalate ps := by
  obtain ⟨p, ps, rfl⟩ := exists_cons_of_ne_nil h
  cases ps with
  | nil => rfl
  | cons q ps => rfl

theorem extend_ne_nil (cur : UInt16) (ps : List CodeUnits) : extend cur ps ≠ [] := by
  cases ps with
  | nil => exact cons_ne_nil _ _
  | cons p ps => exact cons_ne_nil _ _

theorem piecesFrom_ne_nil (fullquoted : Bool) (quoted : Int) (escaped : Bool) (s : CodeUnits) :
    piecesFrom fullquoted quoted escaped s ≠ [] := by
  cases s with
  | nil =>
    rw [piecesFrom]
    exact cons_ne_nil _ _
  | cons cur rest =>
    cases escaped with
    | true =>
      rw [piecesFrom]
      exact extend_ne_nil _ _
    | false =>
      rw [piecesFrom]
      split_ifs
      · exact extend_ne_nil _ _
      · exact extend_ne_nil _ _
      · exact cons_ne_nil _ _
      · exact extend_ne_nil _ _

/-- **The pieces are the text**, with their commas. -/
theorem intercalate_piecesFrom (fullquoted : Bool) (quoted : Int) (escaped : Bool)
    (s : CodeUnits) : [0x2C].intercalate (piecesFrom fullquoted quoted escaped s) = s := by
  induction s generalizing quoted escaped with
  | nil =>
    rw [piecesFrom]
    rfl
  | cons cur rest ih =>
    have hextend : ∀ q e, [0x2C].intercalate (extend cur (piecesFrom fullquoted q e rest)) =
        cur :: rest := by
      intro q e
      rw [intercalate_extend cur (piecesFrom_ne_nil fullquoted q e rest), ih]
    cases escaped with
    | true =>
      rw [piecesFrom]
      exact hextend _ _
    | false =>
      rw [piecesFrom]
      split_ifs with hescape hquote hcomma
      · exact hextend _ _
      · exact hextend _ _
      · obtain ⟨p, ps, hps⟩ := exists_cons_of_ne_nil
          (piecesFrom_ne_nil fullquoted 0 false rest)
        have hrest := ih 0 false
        rw [hps] at hrest ⊢
        rw [intercalate_cons_cons, hrest, hcomma.1]
        rfl
      · exact hextend _ _

/-- The comma that the second pass finds ends the first piece. -/
theorem piecesFrom_of_nextComma
    (h : nextComma fullquoted quoted first escaped s = some (before, after)) :
    piecesFrom fullquoted quoted escaped s = before :: piecesFrom fullquoted 0 false after := by
  induction s generalizing quoted first escaped before with
  | nil => cases h
  | cons cur rest ih =>
    have hnext : ∀ {q : Int} {f e : Bool},
        ((nextComma fullquoted q f e rest).map fun p => (cur :: p.1, p.2)) =
          some (before, after) →
        extend cur (piecesFrom fullquoted q e rest) =
          before :: piecesFrom fullquoted 0 false after := by
      intro q f e hmap
      obtain ⟨⟨b, a⟩, hb, heq⟩ := map_eq_some_iff.1 hmap
      obtain ⟨rfl, rfl⟩ := Prod.mk.inj heq
      rw [ih hb]
      rfl
    cases escaped with
    | true =>
      rw [piecesFrom]
      exact hnext h
    | false =>
      rw [nextComma] at h
      rw [piecesFrom]
      by_cases hescape : cur = 0x5C
      · rw [if_pos hescape] at h ⊢
        exact hnext h
      rw [if_neg hescape] at h ⊢
      by_cases hquote : isQuoted cur ≠ 0
      · rw [if_pos hquote] at h
        dsimp only at h
        cases fullquoted with
        | true =>
          have hcomma : ¬ (cur = 0x2C ∧ quoted = 0) := by
            rintro ⟨rfl, -⟩
            exact hquote rfl
          rw [if_neg (by simp), if_neg hcomma]
          exact hnext h
        | false =>
          rw [if_pos ⟨hquote, rfl⟩]
          split at h
          · next hfalse => exact absurd hfalse Bool.false_ne_true
          · split at h
            · cases h
            · exact hnext h
      rw [if_neg hquote] at h
      rw [if_neg fun hq => hquote hq.1]
      by_cases hcomma : cur = 0x2C
      · rw [if_pos hcomma] at h
        split at h
        · cases h
        · by_cases hquoted : quoted = 0
          · rw [if_pos hquoted] at h
            rw [if_pos ⟨hcomma, hquoted⟩]
            obtain ⟨rfl, rfl⟩ := Prod.mk.inj (some.inj h)
            rfl
          · rw [if_neg hquoted] at h
            rw [if_neg fun hq => hquoted hq.2]
            exact hnext h
      · rw [if_neg hcomma] at h
        rw [if_neg fun hq => hcomma hq.1]
        exact hnext h

/-- What stands behind the comma does not matter. -/
theorem nextComma_append
    (h : nextComma fullquoted quoted first escaped s = some (before, after)) (b : CodeUnits) :
    nextComma fullquoted quoted first escaped (s ++ b) = some (before, after ++ b) := by
  induction s generalizing quoted first escaped before with
  | nil => cases h
  | cons cur rest ih =>
    have hnext : ∀ {q : Int} {f e : Bool},
        ((nextComma fullquoted q f e rest).map fun p => (cur :: p.1, p.2)) =
          some (before, after) →
        ((nextComma fullquoted q f e (rest ++ b)).map fun p => (cur :: p.1, p.2)) =
          some (before, after ++ b) := by
      intro q f e hmap
      obtain ⟨⟨b', a⟩, hb, heq⟩ := map_eq_some_iff.1 hmap
      obtain ⟨rfl, rfl⟩ := Prod.mk.inj heq
      rw [ih hb]
      rfl
    rw [cons_append]
    cases escaped with
    | true =>
      rw [nextComma] at h ⊢
      exact hnext h
    | false =>
      rw [nextComma] at h ⊢
      by_cases hescape : cur = 0x5C
      · rw [if_pos hescape] at h ⊢
        exact hnext h
      rw [if_neg hescape] at h ⊢
      by_cases hquote : isQuoted cur ≠ 0
      · rw [if_pos hquote] at h ⊢
        dsimp only at h ⊢
        split at h
        next hfull =>
          rw [if_pos hfull]
          exact hnext h
        next hfull =>
          rw [if_neg hfull]
          split at h
          · cases h
          next hopen =>
            rw [if_neg hopen]
            exact hnext h
      rw [if_neg hquote] at h ⊢
      by_cases hcomma : cur = 0x2C
      · rw [if_pos hcomma] at h ⊢
        split at h
        · cases h
        next hfirst =>
          rw [if_neg hfirst]
          split at h
          next hquoted =>
            rw [if_pos hquoted]
            obtain ⟨rfl, rfl⟩ := Prod.mk.inj (some.inj h)
            rfl
          next hquoted =>
            rw [if_neg hquoted]
            exact hnext h
      · rw [if_neg hcomma] at h ⊢
        exact hnext h

/-- A first piece that is clean is found. -/
theorem getNextComma_of_clean {p : CodeUnits} {ps : List CodeUnits} (hps : ps ≠ [])
    (h : pieces fullquoted text = p :: ps) (hclean : Clean fullquoted p) :
    ∃ after, getNextComma fullquoted text = some (p, after) := by
  obtain ⟨q, ps, rfl⟩ := exists_cons_of_ne_nil hps
  have htext := intercalate_piecesFrom fullquoted 0 false text
  have hpieces : piecesFrom fullquoted 0 false text = p :: q :: ps := h
  rw [hpieces, intercalate_cons_cons] at htext
  exact ⟨_, htext ▸ nextComma_append hclean _⟩

theorem elementBefore_eq {e : CodeUnits} (h : elementBefore fullquoted before = some e) :
    e = unquotePiece fullquoted before := by
  rw [elementBefore] at h
  rw [unquotePiece]
  cases fullquoted with
  | true =>
    rw [if_neg (by simp)]
    exact (some.inj h).symm
  | false =>
    rw [if_neg Bool.false_ne_true] at h
    split at h
    · cases h
    · split at h
      next hquote =>
        rw [if_pos ⟨rfl, hquote⟩]
        exact (some.inj h).symm
      next hquote =>
        rw [if_neg fun hq => hquote hq.2]
        exact (some.inj h).symm

/-- A single piece is the text. -/
theorem eq_of_pieces_singleton {p : CodeUnits} (h : pieces fullquoted text = [p]) : p = text := by
  have htext := intercalate_piecesFrom fullquoted 0 false text
  have hpieces : piecesFrom fullquoted 0 false text = [p] := h
  rw [hpieces, intercalate_singleton] at htext
  exact htext

theorem cutLastQuote_concat (s : CodeUnits) : cutLastQuote (s ++ [0x22]) = some s := by
  rw [cutLastQuote, reverse_append, reverse_singleton, singleton_append,
    idxOf?_cons, if_pos (by rfl), map_some, length_append, length_singleton]
  exact congrArg some (take_left' (by omega))

theorem cutTimes_last {e : CodeUnits} (hlast : ClosedLast fullquoted text)
    (h : cutTimes fullquoted (isQuoted (text.headD 0)) 1 (elementStart fullquoted text) =
      some e) : e = unquotePiece fullquoted text := by
  rcases hlast with hplain | ⟨rfl, hhead, hend⟩
  · have hstart : elementStart fullquoted text = text := by
      simp only [elementStart, hplain, ne_eq, not_true, decide_false, Bool.false_and,
        Bool.false_eq_true, if_false]
    rw [hstart, cutTimes, if_pos (by rw [hplain, ite_self])] at h
    rw [unquotePiece, if_neg fun hq => hq.2 hplain]
    exact (some.inj h).symm
  · have hquote : isQuoted (text.headD 0) = 1 := by rw [hhead]; rfl
    have hstart : elementStart false text = text.tail := by
      simp only [elementStart, hquote]
      rfl
    rw [hstart, hquote, cutTimes, if_neg Bool.false_ne_true,
      if_neg (show ¬ (1 : Int) = 0 by decide)] at h
    obtain ⟨cut, hcut, hcut'⟩ := bind_eq_some_iff.1 h
    obtain rfl := some.inj hcut'
    rw [unquotePiece, if_pos ⟨rfl, by rw [hquote]; decide⟩]
    rcases eq_nil_or_concat text.tail with htail | ⟨body, c, htail⟩
    · rw [htail] at hcut
      cases hcut
    · rw [concat_eq_append] at htail
      have hc : c = 0x22 := by
        obtain ⟨head, tail, rfl⟩ := exists_cons_of_ne_nil
          (show text ≠ [] by rintro rfl; cases body <;> cases htail)
        rw [tail_cons] at htail
        rw [htail, getLastD_cons, getLastD_concat] at hend
        exact hend
      rw [htail, hc, cutLastQuote_concat] at hcut
      rw [htail, dropLast_concat]
      exact (some.inj hcut).symm

/-- **The elements are the pieces**, each of them once. -/
theorem elements_pieces {es : List CodeUnits}
    (h : elements fullquoted (pieces fullquoted text).length text = some es)
    (hclean : ∀ p ∈ (pieces fullquoted text).dropLast, Clean fullquoted p)
    (hlast : ∀ p ∈ (pieces fullquoted text).getLast?, ClosedLast fullquoted p) :
    es = (pieces fullquoted text).map (unquotePiece fullquoted) := by
  generalize hps : pieces fullquoted text = ps at *
  induction ps generalizing text es with
  | nil => exact absurd hps (piecesFrom_ne_nil _ _ _ _)
  | cons p ps ih =>
    rw [length_cons, elements] at h
    by_cases hone : ps = []
    · subst hone
      obtain rfl := eq_of_pieces_singleton hps
      have hnone : getNextComma fullquoted p = none := by
        cases hcomma : getNextComma fullquoted p with
        | none => rfl
        | some r =>
          have hpieces := piecesFrom_of_nextComma hcomma
          have hrest := piecesFrom_ne_nil fullquoted 0 false r.2
          rw [pieces, hpieces] at hps
          exact absurd (List.cons.inj hps).2 hrest
      rw [hnone] at h
      obtain ⟨e, hcut, rfl⟩ := map_eq_some_iff.1 h
      rw [cutTimes_last (hlast p rfl) hcut]
      rfl
    · obtain ⟨after, hcomma⟩ := getNextComma_of_clean hone hps
        (hclean p (by rw [dropLast_cons_of_ne_nil hone]; exact mem_cons_self))
      have hpieces := piecesFrom_of_nextComma hcomma
      rw [pieces, hpieces] at hps
      rw [hcomma] at h
      obtain ⟨e, hbefore, h⟩ := bind_eq_some_iff.1 h
      obtain ⟨es, hes, rfl⟩ := map_eq_some_iff.1 h
      rw [ih (List.cons.inj hps).2 hes (fun q hq => hclean q ?_) (fun q hq => hlast q ?_),
        elementBefore_eq hbefore, map_cons]
      · rw [dropLast_cons_of_ne_nil hone]
        exact mem_cons_of_mem p hq
      · rw [getLast?_cons_of_ne_nil hone]
        exact hq

theorem unquoteList_eq {list : CodeUnits} (h : unquoteList list = some (text, fullquoted)) :
    fullquoted = false ∧ list = text ∨
      fullquoted = true ∧ ∃ q, isQuoted q ≠ 0 ∧ list = q :: text ++ [q] := by
  rw [unquoteList] at h
  split at h
  next hquotes =>
    split at h
    · cases h
    next hsame =>
      split at h
      next hvalid =>
        obtain ⟨rfl, rfl⟩ := Prod.mk.inj (some.inj h)
        refine Or.inr ⟨rfl, ?_⟩
        cases list with
        | nil => cases hvalid
        | cons q rest =>
          obtain ⟨hquote, hrest⟩ := Bool.and_eq_true_iff.1 hvalid
          refine ⟨q, of_decide_eq_true hquote, ?_⟩
          -- the loop over the string ends behind the quote it started with
          have hend : ∀ (last : UInt16) (s : CodeUnits), validFullquoted q last s = true →
              s = [] ∧ last = q ∨ s = s.dropLast ++ [q] := by
            intro last s
            induction s generalizing last with
            | nil => exact fun hs => Or.inl ⟨rfl, of_decide_eq_true hs⟩
            | cons c s ih =>
              intro hs
              rw [validFullquoted] at hs
              split at hs
              · cases hs
              · refine Or.inr ?_
                rcases ih c hs with ⟨rfl, rfl⟩ | heq
                · rfl
                · have hne : s ≠ [] := by
                    rintro rfl
                    cases heq
                  rw [dropLast_cons_of_ne_nil hne, cons_append, ← heq]
          rcases hend 0 rest hrest with ⟨rfl, hq⟩ | heq
          · rw [← hq] at hquote
            cases hquote
          · rw [tail_cons, cons_append, ← heq]
      · cases h
  next =>
    obtain ⟨rfl, rfl⟩ := Prod.mk.inj (some.inj h)
    exact Or.inl ⟨rfl, rfl⟩

/-- **The elements of a list are its pieces.** -/
theorem parse_pieces {list : CodeUnits} {es : List CodeUnits}
    (hparse : commandLineParseCommaSeparatedValues (some list) = some es)
    (hunquote : unquoteList list = some (text, fullquoted)) (h : Regular fullquoted text) :
    es = (pieces fullquoted text).map (unquotePiece fullquoted) := by
  have hne : pieces fullquoted text ≠ [] := piecesFrom_ne_nil fullquoted 0 false text
  rw [commandLineParseCommaSeparatedValues, commandLineParseCommaSeparatedValuesEx,
    getD_some, hunquote, bind_eq_bind, bind_some] at hparse
  dsimp only at hparse
  rw [h.count, bind_eq_bind, bind_some, if_neg (mt eq_nil_of_length_eq_zero hne)] at hparse
  obtain ⟨es', hes, rfl⟩ := map_eq_some_iff.1 hparse
  exact elements_pieces hes h.clean h.last

end Pieces

/-! ## The round trip -/

section RoundTrip

variable {fullquoted first : Bool} {e s : CodeUnits} {l : List CodeUnits}

/-- A text that needs no quotes: there is something in it, and it is plain. -/
def PlainText (e : CodeUnits) : Prop := e ≠ [] ∧ ∀ u ∈ e, IsPlain u

theorem nextComma_plain_none (h : ∀ u ∈ s, IsPlain u) :
    nextComma fullquoted 0 first false s = none := by
  induction s generalizing first with
  | nil => rfl
  | cons cur s ih =>
    rw [nextComma_cons (h cur mem_cons_self), ih fun u hu => h u (mem_cons_of_mem cur hu)]
    rfl

theorem intercalate_cons_of_ne_nil (h : l ≠ []) :
    [0x2C].intercalate (e :: l) = e ++ 0x2C :: [0x2C].intercalate l := by
  obtain ⟨e', l, rfl⟩ := exists_cons_of_ne_nil h
  rw [intercalate_cons_cons, append_assoc]
  rfl

theorem intercalate_ne_nil (hl : l ≠ []) (h : ∀ e ∈ l, PlainText e) :
    [0x2C].intercalate l ≠ [] := by
  obtain ⟨e, l, rfl⟩ := exists_cons_of_ne_nil hl
  obtain ⟨hne, -⟩ := h e mem_cons_self
  by_cases hrest : l = []
  · rw [hrest, intercalate_singleton]
    exact hne
  · rw [intercalate_cons_of_ne_nil hrest]
    exact append_ne_nil_of_left_ne_nil hne _

theorem elements_intercalate (hl : l ≠ []) (h : ∀ e ∈ l, PlainText e) :
    getElementCount fullquoted ([0x2C].intercalate l) = some l.length ∧
      elements fullquoted l.length ([0x2C].intercalate l) = some l := by
  induction l with
  | nil => exact absurd rfl hl
  | cons e l ih =>
    obtain ⟨⟨hne, hplain⟩, hrest⟩ := forall_mem_cons.1 h
    obtain ⟨cur, e, rfl⟩ := exists_cons_of_ne_nil hne
    by_cases hlast : l = []
    · subst hlast
      rw [intercalate_singleton]
      constructor
      · rw [getElementCount, if_neg (cons_ne_nil _ _), foldlM_countStep_plain hplain]
        rfl
      · exact elements_last (hplain cur mem_cons_self)
          (nextComma_plain_none fun u hu => hplain u (mem_cons_of_mem cur hu))
    · obtain ⟨hcount, helements⟩ := ih hlast hrest
      rw [intercalate_cons_of_ne_nil hlast]
      constructor
      · rw [getElementCount_plain hplain (intercalate_ne_nil hlast hrest), hcount]
        rfl
      · rw [length_cons, elements_plain hplain, helements]
        rfl

theorem parse_of_elements {list text : CodeUnits}
    (hunquote : unquoteList list = some (text, fullquoted)) (hl : l ≠ [])
    (hcount : getElementCount fullquoted text = some l.length)
    (helements : elements fullquoted l.length text = some l) :
    commandLineParseCommaSeparatedValues (some list) = some l := by
  rw [commandLineParseCommaSeparatedValues, commandLineParseCommaSeparatedValuesEx,
    getD_some, hunquote, bind_eq_bind, bind_some]
  dsimp only
  rw [hcount, bind_eq_bind, bind_some, if_neg (mt eq_nil_of_length_eq_zero hl), helements]
  rfl

theorem isQuoted_intercalate (h : ∀ e ∈ l, PlainText e) :
    ∀ u ∈ [0x2C].intercalate l, isQuoted u = 0 := by
  induction l with
  | nil => exact fun u hu => absurd hu not_mem_nil
  | cons e l ih =>
    obtain ⟨⟨-, hplain⟩, hrest⟩ := forall_mem_cons.1 h
    by_cases hlast : l = []
    · rw [hlast, intercalate_singleton]
      exact fun u hu => (hplain u hu).2.2
    · rw [intercalate_cons_of_ne_nil hlast]
      intro u hu
      rcases mem_append.1 hu with hu | hu
      · exact (hplain u hu).2.2
      · rcases mem_cons.1 hu with rfl | hu
        · rfl
        · exact ih hrest u hu

theorem unquoteList_plain (hne : s ≠ []) (h : ∀ u ∈ s, isQuoted u = 0) :
    unquoteList s = some (s, false) := by
  obtain ⟨cur, s, rfl⟩ := exists_cons_of_ne_nil hne
  have hstart : isQuoted ((cur :: s).headD 0) = 0 := h cur mem_cons_self
  simp only [unquoteList, hstart, ne_eq, not_true, decide_false, Bool.false_and,
    Bool.false_eq_true, if_false]

theorem unquoteList_quoted (h : ∀ u ∈ s, isQuoted u = 0) :
    unquoteList (0x22 :: s ++ [0x22]) = some (s, true) := by
  have hvalid : ∀ (last : UInt16) (s : CodeUnits), (∀ u ∈ s, isQuoted u = 0) →
      validFullquoted 0x22 last (s ++ [0x22]) = true := by
    intro last s
    induction s generalizing last with
    | nil => exact fun _ => rfl
    | cons c s ih =>
      intro hs
      have hc : c ≠ 0x22 := by
        rintro rfl
        exact absurd (hs _ mem_cons_self) (by decide)
      rw [cons_append, validFullquoted, if_neg (by simp [hc])]
      exact ih c fun u hu => hs u (mem_cons_of_mem c hu)
  have hlast : (0x22 :: s ++ [0x22]).getLastD 0 = 0x22 := getLastD_concat
  have hfull : isValidFullquoted (0x22 :: s ++ [0x22]) = true := hvalid 0 s h
  have htext : (0x22 :: s ++ [0x22]).tail.dropLast = s := dropLast_concat
  rw [unquoteList, hlast, hfull, htext]
  rfl

/-- The text that is written. -/
theorem toCommaSeparatedValues_eq (hl : l ≠ []) (h : ∀ e ∈ l, e.length + 1 ≤ intMax) :
    commandLineToCommaSeparatedValues l = some ([0x2C].intercalate l) := by
  have hmap : ∀ l : List CodeUnits, (∀ e ∈ l, e.length + 1 ≤ intMax) →
      l.mapM appendArgument = some (l.map (· ++ [0x2C])) := by
    intro l hall
    induction l with
    | nil => rfl
    | cons e l ih =>
      obtain ⟨he, hrest⟩ := forall_mem_cons.1 hall
      have happend : appendArgument e = some (e ++ [0x2C]) := if_pos he
      rw [mapM_cons, happend, ih hrest]
      rfl
  have hflatten : ∀ l : List CodeUnits, l ≠ [] →
      (l.map (· ++ [0x2C])).flatten = [0x2C].intercalate l ++ [0x2C] := by
    intro l hne
    induction l with
    | nil => exact absurd rfl hne
    | cons e l ih =>
      by_cases hlast : l = []
      · rw [hlast, intercalate_singleton, map_singleton, flatten_singleton]
      · rw [map_cons, flatten_cons, ih hlast, intercalate_cons_of_ne_nil hlast,
          append_assoc, append_assoc]
        rfl
  rw [commandLineToCommaSeparatedValues, if_neg hl, hmap l h, map_some, hflatten l hl,
    dropLast_concat]

/-- **Comma separated values**: lists of plain texts are read as they were written, with quotes
around all of it or without, and the elements of any list are its pieces wherever the two passes
agree. -/
theorem commaSeparatedValues :
    (∀ l : List CodeUnits, l ≠ [] → (∀ e ∈ l, PlainText e ∧ e.length + 1 ≤ intMax) →
      ∃ text, commandLineToCommaSeparatedValues l = some text ∧
        commandLineParseCommaSeparatedValues (some text) = some l ∧
        commandLineParseCommaSeparatedValues (some (0x22 :: text ++ [0x22])) = some l) ∧
    ∀ (list : CodeUnits) (es : List CodeUnits),
      commandLineParseCommaSeparatedValues (some list) = some es →
      ∃ text fullquoted, unquoteList list = some (text, fullquoted) ∧
        (fullquoted = false ∧ list = text ∨
          fullquoted = true ∧ ∃ q, isQuoted q ≠ 0 ∧ list = q :: text ++ [q]) ∧
        [0x2C].intercalate (pieces fullquoted text) = text ∧
        (Regular fullquoted text →
          es = (pieces fullquoted text).map (unquotePiece fullquoted)) := by
  constructor
  · intro l hl h
    have hplain : ∀ e ∈ l, PlainText e := fun e he => (h e he).1
    have hquotes := isQuoted_intercalate hplain
    refine ⟨[0x2C].intercalate l, toCommaSeparatedValues_eq hl fun e he => (h e he).2, ?_, ?_⟩
    · obtain ⟨hcount, helements⟩ := elements_intercalate hl hplain
      exact parse_of_elements (unquoteList_plain (intercalate_ne_nil hl hplain) hquotes) hl hcount
        helements
    · obtain ⟨hcount, helements⟩ := elements_intercalate hl hplain
      exact parse_of_elements (unquoteList_quoted hquotes) hl hcount helements
  · intro list es hparse
    have hparse' := hparse
    rw [commandLineParseCommaSeparatedValues, commandLineParseCommaSeparatedValuesEx,
      getD_some] at hparse'
    obtain ⟨⟨text, fullquoted⟩, hunquote, -⟩ := bind_eq_some_iff.1 hparse'
    exact ⟨text, fullquoted, hunquote, unquoteList_eq hunquote,
      intercalate_piecesFrom fullquoted 0 false text, parse_pieces hparse hunquote⟩

/-- Two words there and back, and a list with a comma in quotes. -/
theorem commaSeparatedValues_quoted :
    (∃ text, commandLineToCommaSeparatedValues [lit "user", lit "pass"] = some text ∧
      commandLineParseCommaSeparatedValues (some text) = some [lit "user", lit "pass"]) ∧
    ∃ es, commandLineParseCommaSeparatedValues (some (lit "u:user,\"a,b\"")) = some es ∧
      es = [lit "u:user", lit "a,b"] := by
  constructor
  · obtain ⟨text, htext, hparse, -⟩ := commaSeparatedValues.1 [lit "user", lit "pass"]
      (by decide) (by simp only [PlainText, IsPlain]; decide)
    exact ⟨text, htext, hparse⟩
  · obtain ⟨es, hes⟩ : ∃ es,
        commandLineParseCommaSeparatedValues (some (lit "u:user,\"a,b\"")) = some es := ⟨_, rfl⟩
    obtain ⟨text, fullquoted, hunquote, -, -, hpieces⟩ := commaSeparatedValues.2 _ es hes
    obtain ⟨rfl, rfl⟩ : lit "u:user,\"a,b\"" = text ∧ false = fullquoted :=
      Prod.mk.inj (some.inj hunquote)
    have hregular : Regular false (lit "u:user,\"a,b\"") := by
      refine ⟨by decide, by decide, fun p hp => ?_⟩
      obtain rfl := some.inj hp
      exact .inr (by decide)
    exact ⟨es, hes, (hpieces hregular).trans (by decide)⟩

/-- A piece without its backslashes: what is behind one stays. -/
def removeEscapes : CodeUnits → CodeUnits
  | [] => []
  | [c] => [c]
  | c :: c' :: rest =>
    if c = 0x5C then c' :: removeEscapes rest else c :: removeEscapes (c' :: rest)

/-- The backslash of an escaped quote is still there. -/
theorem exists_escape_kept : ∃ list es,
    commandLineParseCommaSeparatedValues (some list) = some es ∧
      unquoteList list = some (list, false) ∧
      es ≠ (pieces false list).map fun p => removeEscapes (unquotePiece false p) :=
  ⟨lit "u:some\\\"user,d:x", [lit "u:some\\\"user", lit "d:x"], by decide, by decide, by decide⟩

end RoundTrip

end CommaSeparated
