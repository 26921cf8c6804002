/-
# Line ends and halves of clipboard texts

What `sendClipboardData` hands over is the text cut at 120 000 units; a text with line feeds
and without a single `\r\n` gets its line feeds replaced and is cut once more.
-/
import XyDeskRemote.ClipboardSend
import XyDeskRemote.HostInputCodec

open List

namespace ClipboardSend

open WorkerText (lit)
open Utf8 (isHighSurrogate isLowSurrogate)

/-! ## Line breaks -/

/-- A text with `\r\n` and `\n` read as one line break. -/
def lineBreaks : CodeUnits → CodeUnits
  | [] => []
  | u :: s => if u = 0x0D ∧ s.head? = some 0x0A then lineBreaks s else u :: lineBreaks s

/-- No line feed but behind a carriage return. -/
def NoBareLineFeed (s : CodeUnits) : Prop :=
  ∀ a b, s = a ++ 0x0A :: b → a.getLast? = some 0x0D

/-- Two characters that belong together. -/
def IsPair (x y : UInt16) : Prop :=
  x = 0x0D ∧ y = 0x0A ∨ isHighSurrogate x = true ∧ isLowSurrogate y = true

/-- A cut behind `k` units is between two that belong together. -/
def SplitsPair (s : CodeUnits) (k : ℕ) : Prop :=
  ∃ a b x y, s = a ++ x :: y :: b ∧ a.length + 1 = k ∧ IsPair x y

/-- The text sent for a text: not too long, with the line ends of Windows, and a part of it from
its beginning that ends between two characters. -/
structure Normalised (data sent : CodeUnits) : Prop where
  short : sent.length ≤ maxClipboardUnits
  lineEnds : NoBareLineFeed sent
  spells : lineBreaks sent <+: lineBreaks data
  whole : ∀ k, lineBreaks sent = lineBreaks (data.take k) → ¬ SplitsPair data k

section LineBreaks

variable {s a b : CodeUnits}

theorem lineBreaks_append (h : ¬ (a.getLast? = some 0x0D ∧ b.head? = some 0x0A)) :
    lineBreaks (a ++ b) = lineBreaks a ++ lineBreaks b := by
  induction a with
  | nil => rfl
  | cons u a ih =>
    cases a with
    | nil =>
      have hnot : ¬ (u = 0x0D ∧ b.head? = some 0x0A) := by
        rintro ⟨rfl, hb⟩
        exact h ⟨rfl, hb⟩
      have hnil : ¬ (u = 0x0D ∧ ([] : CodeUnits).head? = some 0x0A) := fun h => nomatch h.2
      rw [singleton_append, lineBreaks, if_neg hnot, lineBreaks, if_neg hnil]
      rfl
    | cons v a =>
      rw [getLast?_cons_cons] at h
      have htail := ih h
      have hstep : lineBreaks (u :: (v :: a ++ b)) =
          if u = 0x0D ∧ v = 0x0A then lineBreaks (v :: a ++ b)
          else u :: lineBreaks (v :: a ++ b) := by
        rw [lineBreaks]
        exact if_congr (and_congr_right fun _ => Option.some_inj) rfl rfl
      have hstep' : lineBreaks (u :: v :: a) =
          if u = 0x0D ∧ v = 0x0A then lineBreaks (v :: a) else u :: lineBreaks (v :: a) := by
        rw [lineBreaks]
        exact if_congr (and_congr_right fun _ => Option.some_inj) rfl rfl
      rw [cons_append, hstep, hstep', htail]
      split
      · rfl
      · rfl

theorem lineBreaks_ne_nil (h : s ≠ []) : lineBreaks s ≠ [] := by
  induction s with
  | nil => exact absurd rfl h
  | cons u s ih =>
    rw [lineBreaks]
    split
    · rename_i hpair
      apply ih
      rintro rfl
      exact absurd hpair.2 nofun
    · exact cons_ne_nil _ _

/-- A line end and what follows it. -/
theorem lineBreaks_crlf (a b : CodeUnits) :
    lineBreaks (a ++ 0x0D :: 0x0A :: b) = lineBreaks a ++ 0x0A :: lineBreaks b := by
  have hnot : ¬ (a.getLast? = some 0x0D ∧ (0x0D :: 0x0A :: b : CodeUnits).head? = some 0x0A) := by
    rintro ⟨-, h⟩
    exact absurd (Option.some.inj h) (by decide)
  rw [lineBreaks_append hnot, lineBreaks, if_pos ⟨rfl, rfl⟩, lineBreaks,
    if_neg fun h => absurd h.1 (by decide)]

theorem lineBreaks_concat (a : CodeUnits) {u : UInt16} (hu : u ≠ 0x0A) :
    lineBreaks (a ++ [u]) = lineBreaks a ++ [u] := by
  have hnot : ¬ (a.getLast? = some 0x0D ∧ [u].head? = some 0x0A) := by
    rintro ⟨-, h⟩
    exact hu (Option.some.inj h)
  rw [lineBreaks_append hnot, lineBreaks, if_neg fun h => nomatch h.2]
  rfl

/-- **The units of a text can be counted in its line breaks.** -/
theorem take_injective {k m : ℕ} (hkm : k ≤ m) (hm : m ≤ s.length)
    (h : lineBreaks (s.take k) = lineBreaks (s.take m)) : k = m := by
  rcases Nat.eq_or_lt_of_le hkm with heq | hlt
  · exact heq
  · exfalso
    have hsplit : s.take m = s.take k ++ (s.take m).drop k := by
      have hfront : (s.take m).take k = s.take k := by
        rw [take_take, Nat.min_eq_left hkm]
      rw [← hfront, take_append_drop]
    have hrest : (s.take m).drop k ≠ [] := by
      apply ne_nil_of_length_pos
      rw [length_drop, length_take]
      omega
    rw [hsplit] at h
    by_cases hpair : (s.take k).getLast? = some 0x0D ∧ ((s.take m).drop k).head? = some 0x0A
    · obtain ⟨hlast, hhead⟩ := hpair
      obtain ⟨a, ha⟩ := getLast?_eq_some_iff.1 hlast
      obtain ⟨b, hb⟩ := head?_eq_some_iff.1 hhead
      rw [ha, hb, append_assoc, singleton_append, lineBreaks_crlf,
        lineBreaks_concat a (by decide)] at h
      have hunits := append_cancel_left h
      exact absurd (List.cons.inj hunits).1 (by decide)
    · rw [lineBreaks_append hpair] at h
      exact lineBreaks_ne_nil hrest (self_eq_append_right.1 h)

theorem lineBreaks_eq_self (h : ¬ [0x0D, 0x0A] <:+: s) : lineBreaks s = s := by
  induction s with
  | nil => rfl
  | cons u s ih =>
    have htail : ¬ [0x0D, 0x0A] <:+: s := fun hs => h (infix_cons hs)
    have hnot : ¬ (u = 0x0D ∧ s.head? = some 0x0A) := by
      rintro ⟨rfl, hs⟩
      obtain ⟨s, rfl⟩ := head?_eq_some_iff.1 hs
      exact h ⟨[], s, rfl⟩
    rw [lineBreaks, if_neg hnot, ih htail]

end LineBreaks

/-! ## Replaced line feeds -/

section Crlf

variable {s : CodeUnits}

theorem crlf_cons_lineFeed (s : CodeUnits) : crlf (0x0A :: s) = 0x0D :: 0x0A :: crlf s := rfl

theorem crlf_cons {u : UInt16} (hu : u ≠ 0x0A) (s : CodeUnits) : crlf (u :: s) = u :: crlf s := by
  rw [crlf, flatMap_cons, if_neg hu]
  rfl

theorem crlf_append (a b : CodeUnits) : crlf (a ++ b) = crlf a ++ crlf b :=
  flatMap_append

theorem length_crlf (s : CodeUnits) : (crlf s).length = s.length + s.count 0x0A := by
  induction s with
  | nil => rfl
  | cons u s ih =>
    by_cases hu : u = 0x0A
    · subst hu
      rw [crlf_cons_lineFeed, length_cons, length_cons, ih, length_cons, count_cons_self]
      omega
    · rw [crlf_cons hu, length_cons, ih, length_cons, count_cons_of_ne hu]
      omega

theorem head?_crlf_ne (s : CodeUnits) : (crlf s).head? ≠ some 0x0A := by
  cases s with
  | nil => nofun
  | cons u s =>
    by_cases hu : u = 0x0A
    · subst hu
      rw [crlf_cons_lineFeed]
      exact fun h => absurd (Option.some.inj h) (by decide)
    · rw [crlf_cons hu]
      exact fun h => hu (Option.some.inj h)

/-- The replaced text has the line breaks of the text, one for each. -/
theorem lineBreaks_crlf_eq (s : CodeUnits) : lineBreaks (crlf s) = s := by
  induction s with
  | nil => rfl
  | cons u s ih =>
    by_cases hu : u = 0x0A
    · subst hu
      rw [crlf_cons_lineFeed, lineBreaks, if_pos ⟨rfl, rfl⟩, lineBreaks,
        if_neg fun h => absurd h.1 (by decide), ih]
    · rw [crlf_cons hu, lineBreaks, if_neg fun h => head?_crlf_ne s h.2, ih]

theorem noBareLineFeed_crlf (s : CodeUnits) : NoBareLineFeed (crlf s) := by
  induction s with
  | nil =>
    intro a b h
    exact absurd h.symm (append_ne_nil_of_right_ne_nil _ (cons_ne_nil _ _))
  | cons u s ih =>
    intro a b h
    by_cases hu : u = 0x0A
    · subst hu
      rw [crlf_cons_lineFeed] at h
      rcases a with _ | ⟨v, _ | ⟨w, a⟩⟩
      · exact absurd (List.cons.inj h).1 (by decide)
      · rw [(List.cons.inj h).1]
        rfl
      · obtain ⟨-, h⟩ := List.cons.inj h
        obtain ⟨-, h⟩ := List.cons.inj h
        have hlast := ih a b h
        cases a with
        | nil => cases hlast
        | cons x a => exact hlast
    · rw [crlf_cons hu] at h
      cases a with
      | nil => exact absurd (List.cons.inj h).1 hu
      | cons v a =>
        have hlast := ih a b (List.cons.inj h).2
        cases a with
        | nil => cases hlast
        | cons x a => exact hlast

/-- The first units of the replaced text: those of a part of the text, or they end inside a line
end. -/
theorem take_crlf (s : CodeUnits) (n : ℕ) :
    (∃ a b, s = a ++ b ∧ (crlf s).take n = crlf a ∧
      (b = [] ∧ (crlf a).length ≤ n ∨ (crlf a).length = n)) ∨
    ∃ a b, s = a ++ 0x0A :: b ∧ (crlf s).take n = crlf a ++ [0x0D] ∧ (crlf a).length + 1 = n := by
  induction s generalizing n with
  | nil => exact Or.inl ⟨[], [], rfl, take_nil, Or.inl ⟨rfl, Nat.zero_le n⟩⟩
  | cons u s ih =>
    by_cases hu : u = 0x0A
    · subst hu
      rcases n with _ | _ | n
      · exact Or.inl ⟨[], 0x0A :: s, rfl, take_zero, Or.inr rfl⟩
      · exact Or.inr ⟨[], s, rfl, rfl, rfl⟩
      · rcases ih n with ⟨a, b, rfl, htake, hlength⟩ | ⟨a, b, rfl, htake, hlength⟩
        · refine Or.inl ⟨0x0A :: a, b, rfl, ?_, ?_⟩
          · rw [crlf_cons_lineFeed, take_succ_cons, take_succ_cons, htake]
            rfl
          · rw [crlf_cons_lineFeed, length_cons, length_cons]
            rcases hlength with ⟨hb, hle⟩ | heq
            · exact Or.inl ⟨hb, by omega⟩
            · exact Or.inr (by omega)
        · refine Or.inr ⟨0x0A :: a, b, rfl, ?_, ?_⟩
          · rw [crlf_cons_lineFeed, take_succ_cons, take_succ_cons, htake]
            rfl
          · rw [crlf_cons_lineFeed, length_cons, length_cons]
            omega
    · cases n with
      | zero => exact Or.inl ⟨[], u :: s, rfl, take_zero, Or.inr rfl⟩
      | succ n =>
        rcases ih n with ⟨a, b, rfl, htake, hlength⟩ | ⟨a, b, rfl, htake, hlength⟩
        · refine Or.inl ⟨u :: a, b, rfl, ?_, ?_⟩
          · rw [crlf_cons hu, take_succ_cons, htake, crlf_cons hu]
          · rw [crlf_cons hu, length_cons]
            rcases hlength with ⟨hb, hle⟩ | heq
            · exact Or.inl ⟨hb, by omega⟩
            · exact Or.inr (by omega)
        · refine Or.inr ⟨u :: a, b, rfl, ?_, ?_⟩
          · rw [crlf_cons hu, take_succ_cons, htake, crlf_cons hu, cons_append]
          · rw [crlf_cons hu, length_cons]
            omega

end Crlf

/-! ## The text that is sent -/

/-- Whether the line feeds are replaced. -/
def ReplacesLineFeeds (capped : CodeUnits) : Prop :=
  0x0A ∈ capped ∧ ¬ [0x0D, 0x0A] <:+: capped

instance (capped : CodeUnits) : Decidable (ReplacesLineFeeds capped) :=
  inferInstanceAs (Decidable (_ ∧ _))

/-- A unit that would be cut from what follows it: a line feed, of which only the carriage return
is kept, or the first half of a surrogate pair. -/
def CutHalf (x : UInt16) (rest : CodeUnits) : Prop :=
  x = 0x0A ∨ isHighSurrogate x = true ∧ ∃ y, rest.head? = some y ∧ isLowSurrogate y = true

/-- The texts that are sent as they should be.  Where line feeds are replaced, no unit is halved
whose replacement begins in the last place; where they are not, all of them stand behind a carriage
return and the cap is between two characters. -/
def SentWhole (data : CodeUnits) : Prop :=
  if ReplacesLineFeeds (data.take maxClipboardUnits) then
    ∀ a x b, data.take maxClipboardUnits = a ++ x :: b →
      a.length + a.count 0x0A + 1 = maxClipboardUnits → ¬ CutHalf x b
  else
    NoBareLineFeed (data.take maxClipboardUnits) ∧ ¬ SplitsPair data maxClipboardUnits

section SafeText

variable {data capped a b : CodeUnits} {n k : ℕ}

theorem safeText_replaced (h : ReplacesLineFeeds (data.take maxClipboardUnits)) :
    safeText data = (crlf (data.take maxClipboardUnits)).take maxClipboardUnits := if_pos h

theorem safeText_capped (h : ¬ ReplacesLineFeeds (data.take maxClipboardUnits)) :
    safeText data = data.take maxClipboardUnits := if_neg h

theorem SplitsPair.lt (h : SplitsPair data k) : k < data.length := by
  obtain ⟨a, b, x, y, rfl, rfl, -⟩ := h
  rw [length_append, length_cons, length_cons]
  omega

/-- A carriage return at a cut, with the line feed behind it, is a pair that is split. -/
theorem splitsPair_of_crlf (ha : a.getLast? = some 0x0D) (hb : b.head? = some 0x0A) :
    SplitsPair (a ++ b) a.length := by
  obtain ⟨a, rfl⟩ := getLast?_eq_some_iff.1 ha
  obtain ⟨b, rfl⟩ := head?_eq_some_iff.1 hb
  refine ⟨a, b, 0x0D, 0x0A, ?_, ?_, Or.inl ⟨rfl, rfl⟩⟩
  · rw [append_assoc, singleton_append]
  · rw [length_append, length_singleton]

/-- Only one cut of a text spells what another does. -/
theorem eq_of_lineBreaks_take {m : ℕ} (hk : k ≤ data.length) (hm : m ≤ data.length)
    (h : lineBreaks (data.take k) = lineBreaks (data.take m)) : k = m := by
  rcases Nat.le_total k m with hle | hle
  · exact take_injective hle hm h
  · exact (take_injective hle hk h.symm).symm

/-- The line breaks of a text begin with those of a part in front of a cut that splits no pair. -/
theorem lineBreaks_isPrefix (h : ¬ SplitsPair (a ++ b) a.length) :
    lineBreaks a <+: lineBreaks (a ++ b) := by
  have hnot : ¬ (a.getLast? = some 0x0D ∧ b.head? = some 0x0A) :=
    fun hpair => h (splitsPair_of_crlf hpair.1 hpair.2)
  rw [lineBreaks_append hnot]
  exact prefix_append _ _

/-- **A text with its own line ends** is sent as it should be exactly when no line feed in it is
bare and the cap splits no pair. -/
theorem normalised_take_iff (data : CodeUnits) :
    Normalised data (data.take maxClipboardUnits) ↔
      NoBareLineFeed (data.take maxClipboardUnits) ∧ ¬ SplitsPair data maxClipboardUnits := by
  constructor
  · intro h
    exact ⟨h.lineEnds, h.whole maxClipboardUnits rfl⟩
  · rintro ⟨hends, hsplit⟩
    have hlength : (data.take maxClipboardUnits).length = min maxClipboardUnits data.length :=
      length_take
    have hnot : ¬ SplitsPair data (data.take maxClipboardUnits).length := by
      rw [hlength]
      rcases Nat.le_total maxClipboardUnits data.length with hle | hle
      · rw [Nat.min_eq_left hle]
        exact hsplit
      · rw [Nat.min_eq_right hle]
        exact fun h => Nat.lt_irrefl _ h.lt
    refine ⟨List.length_take_le _ _, hends, ?_, ?_⟩
    · have hparts := take_append_drop maxClipboardUnits data
      have hpre := lineBreaks_isPrefix (a := data.take maxClipboardUnits)
        (b := data.drop maxClipboardUnits) (by rw [hparts]; exact hnot)
      rwa [hparts] at hpre
    · intro k hk hpair
      have hfront : data.take (data.take maxClipboardUnits).length =
          data.take maxClipboardUnits := by
        rw [hlength, ← take_take, take_length]
      have heq : (data.take maxClipboardUnits).length = k := by
        apply eq_of_lineBreaks_take (by rw [hlength]; exact Nat.min_le_right _ _) hpair.lt.le
        rw [hfront, hk]
      rw [heq] at hnot
      exact hnot hpair

/-- A unit in the last place of the replaced text ends the part that is kept, when that part is
not halved. -/
theorem eq_concat_of_last {x : UInt16} {a' b' : CodeUnits} (hcapped : a ++ b = a' ++ x :: b')
    (hlength : b = [] ∧ (crlf a).length ≤ n ∨ (crlf a).length = n)
    (hlast : (crlf a').length + 1 = n) : x ≠ 0x0A ∧ a = a' ++ [x] ∧ b = b' := by
  rcases append_eq_append_iff.1 hcapped with ⟨c, rfl, rfl⟩ | ⟨c, rfl, hc⟩
  · have hfull : (crlf a).length = n := by
      rcases hlength with ⟨hb, -⟩ | heq
      · exact absurd hb (append_ne_nil_of_right_ne_nil _ (cons_ne_nil _ _))
      · exact heq
    rw [crlf_append, length_append] at hlast
    omega
  · cases c with
    | nil =>
      obtain rfl : x :: b' = b := hc
      rw [append_nil] at hlength
      rcases hlength with ⟨hb, -⟩ | heq
      · exact absurd hb (cons_ne_nil _ _)
      · omega
    | cons y c =>
      obtain ⟨rfl, rfl⟩ := List.cons.inj hc
      have htotal : (crlf a').length + (crlf (x :: c)).length ≤ n := by
        rw [← length_append, ← crlf_append]
        rcases hlength with ⟨-, hle⟩ | heq
        · exact hle
        · exact heq.le
      have hx : x ≠ 0x0A := by
        rintro rfl
        rw [crlf_cons_lineFeed, length_cons, length_cons] at htotal
        omega
      rw [crlf_cons hx, length_cons, length_crlf c] at htotal
      obtain rfl : c = [] := eq_nil_of_length_eq_zero (by omega)
      exact ⟨hx, rfl, rfl⟩

/-- Inside a text without `\r\n` the cut behind a part of it is no split of one. -/
theorem not_crlf_split {d : CodeUnits} (hinside : ¬ [0x0D, 0x0A] <:+: a ++ b)
    (hb : b = [] → d = []) : ¬ (a.getLast? = some 0x0D ∧ (b ++ d).head? = some 0x0A) := by
  rintro ⟨hlast, hhead⟩
  cases b with
  | nil =>
    rw [hb rfl] at hhead
    exact nomatch hhead
  | cons y b =>
    obtain rfl : y = 0x0A := Option.some.inj hhead
    obtain ⟨a, rfl⟩ := getLast?_eq_some_iff.1 hlast
    exact hinside ⟨a, b, by rw [append_assoc, append_assoc]; rfl⟩

/-- A part that is kept and cut from nothing it belongs to ends at the one place of the text that it
spells. -/
theorem whole_of_uncut {d : CodeUnits} (hinside : ¬ [0x0D, 0x0A] <:+: a ++ b)
    (hb : b = [] → d = [])
    (hlength : b = [] ∧ (crlf a).length ≤ maxClipboardUnits ∨
      (crlf a).length = maxClipboardUnits)
    (h : ∀ a' x b', a ++ b = a' ++ x :: b' →
      a'.length + a'.count 0x0A + 1 = maxClipboardUnits → ¬ CutHalf x b')
    (hk : a.length = k) : ¬ SplitsPair (a ++ b ++ d) k := by
  rintro ⟨a', c, x, y, hdata, hlen, htwo⟩
  have hparts : a = a' ++ [x] ∧ b ++ d = y :: c := by
    apply append_inj
    · rw [← append_assoc, hdata, append_assoc]
      rfl
    · rw [length_append, length_singleton, hk, hlen]
  obtain ⟨rfl, hrest⟩ := hparts
  rcases htwo with ⟨rfl, rfl⟩ | ⟨hhigh, hlow⟩
  · apply not_crlf_split hinside hb
    exact ⟨getLast?_concat, by rw [hrest]; rfl⟩
  · have hx : x ≠ 0x0A := by
      rintro rfl
      exact absurd hhigh (by decide)
    cases b with
    | nil =>
      rw [hb rfl] at hrest
      exact nomatch hrest
    | cons z b =>
      -- the rest is not empty, so the replaced text fills all its places
      obtain ⟨rfl, -⟩ := List.cons.inj hrest
      have hfull : (crlf (a' ++ [x])).length = maxClipboardUnits := by
        rcases hlength with ⟨hnil, -⟩ | hfull
        · exact absurd hnil (cons_ne_nil _ _)
        · exact hfull
      apply h a' x (z :: b)
      · rw [append_assoc, singleton_append]
      · rw [crlf_append, length_append, crlf_cons hx, length_crlf] at hfull
        exact hfull
      · exact Or.inr ⟨hhigh, z, rfl, hlow⟩

/-- **A text whose line feeds are replaced**, when the part that is kept is not halved. -/
theorem normalised_crlf_iff {d : CodeUnits} (hinside : ¬ [0x0D, 0x0A] <:+: a ++ b)
    (hb : b = [] → d = [])
    (hlength : b = [] ∧ (crlf a).length ≤ maxClipboardUnits ∨
      (crlf a).length = maxClipboardUnits) :
    Normalised (a ++ b ++ d) (crlf a) ↔
      ∀ a' x b', a ++ b = a' ++ x :: b' → a'.length + a'.count 0x0A + 1 = maxClipboardUnits →
        ¬ CutHalf x b' := by
  have hself : lineBreaks a = a :=
    lineBreaks_eq_self fun h => hinside (h.trans (infix_append' [] a b))
  have hfront : (a ++ b ++ d).take a.length = a := by
    rw [append_assoc, take_left]
  constructor
  · intro h a' x b' heq hlast hcut
    rw [← length_crlf] at hlast
    obtain ⟨hx, rfl, rfl⟩ := eq_concat_of_last heq hlength hlast
    rcases hcut with hfeed | ⟨hhigh, y, hy, hlow⟩
    · exact hx hfeed
    · obtain ⟨c, rfl⟩ := head?_eq_some_iff.1 hy
      apply h.whole (a' ++ [x]).length
      · rw [hfront, lineBreaks_crlf_eq, hself]
      · refine ⟨a', c ++ d, x, y, ?_, ?_, Or.inr ⟨hhigh, hlow⟩⟩
        · rw [append_assoc, append_assoc]
          rfl
        · rw [length_append, length_singleton]
  · intro h
    refine ⟨?_, noBareLineFeed_crlf a, ?_, ?_⟩
    · rcases hlength with ⟨-, hle⟩ | heq
      · exact hle
      · exact heq.le
    · rw [lineBreaks_crlf_eq, append_assoc, lineBreaks_append (not_crlf_split hinside hb),
        hself]
      exact prefix_append _ _
    · intro k hk hpair
      rw [lineBreaks_crlf_eq] at hk
      have heq : a.length = k := by
        have hle : a.length ≤ (a ++ b ++ d).length := by
          rw [append_assoc, length_append]
          exact Nat.le_add_right _ _
        apply eq_of_lineBreaks_take hle hpair.lt.le
        rw [hfront, hself]
        exact hk
      exact whole_of_uncut hinside hb hlength h heq hpair

/-- A text that ends with half of a replaced line feed spells another one. -/
theorem not_normalised_half {d : CodeUnits} (hinside : ¬ [0x0D, 0x0A] <:+: a ++ 0x0A :: b) :
    ¬ Normalised (a ++ 0x0A :: b ++ d) (crlf a ++ [0x0D]) := by
  intro h
  have hspells := h.spells
  have hnot : ¬ (a.getLast? = some 0x0D ∧ (0x0A :: b ++ d).head? = some 0x0A) :=
    not_crlf_split hinside fun hnil => nomatch hnil
  have hself : lineBreaks a = a :=
    lineBreaks_eq_self fun h => hinside (h.trans (infix_append' [] a _))
  rw [lineBreaks_concat _ (by decide), lineBreaks_crlf_eq, append_assoc,
    lineBreaks_append hnot, hself, cons_append, lineBreaks,
    if_neg fun h => absurd h.1 (by decide)] at hspells
  obtain ⟨c, hc⟩ := hspells
  rw [append_assoc] at hc
  exact absurd (List.cons.inj (append_cancel_left hc)).1 (by decide)

/-- **What is sent for a text** is the text with the line ends of Windows, not too long and ending
between two characters, exactly when the cap and the replacement leave it whole. -/
theorem safeText_normalised_iff (data : CodeUnits) :
    Normalised data (safeText data) ↔ SentWhole data := by
  by_cases hreplaces : ReplacesLineFeeds (data.take maxClipboardUnits)
  · rw [SentWhole, if_pos hreplaces, safeText_replaced hreplaces]
    have hparts := take_append_drop maxClipboardUnits data
    obtain ⟨hfeed, hinside⟩ := hreplaces
    have hcount : 0 < (data.take maxClipboardUnits).count 0x0A := count_pos_iff.2 hfeed
    have hdrop : (data.take maxClipboardUnits).length < maxClipboardUnits →
        data.drop maxClipboardUnits = [] := by
      intro hlt
      rw [length_take] at hlt
      exact drop_eq_nil_of_le (by omega)
    rcases take_crlf (data.take maxClipboardUnits) maxClipboardUnits with
      ⟨a, b, heq, hsent, hlength⟩ | ⟨a, b, heq, hsent, hlength⟩
    · rw [hsent]
      have hb : b = [] → data.drop maxClipboardUnits = [] := by
        rintro rfl
        apply hdrop
        rw [heq, append_nil] at hcount ⊢
        rw [length_crlf] at hlength
        omega
      rw [heq] at hinside hparts ⊢
      have hiff := normalised_crlf_iff hinside hb hlength
      rwa [hparts] at hiff
    · rw [hsent]
      apply iff_of_false
      · rw [heq] at hinside hparts
        have hhalf := not_normalised_half (d := data.drop maxClipboardUnits) hinside
        rwa [hparts] at hhalf
      · intro h
        apply h a 0x0A b heq _ (Or.inl rfl)
        rw [← length_crlf]
        exact hlength
  · rw [SentWhole, if_neg hreplaces, safeText_capped hreplaces]
    exact normalised_take_iff data

/-- A text with both kinds of line ends keeps its bare line feed. -/
theorem safeText_keeps_bare_lineFeed :
    ¬ Normalised (lit "a\nb\r\nc") (safeText (lit "a\nb\r\nc")) := by
  intro h
  have hcapped : (lit "a\nb\r\nc").take maxClipboardUnits = lit "a\nb\r\nc" :=
    take_of_length_le (by decide)
  have hkeeps : ¬ ReplacesLineFeeds (lit "a\nb\r\nc") :=
    fun hreplaces => hreplaces.2 ⟨lit "a\nb", lit "c", by decide⟩
  have hends := h.lineEnds
  rw [safeText_capped (by rw [hcapped]; exact hkeeps), hcapped] at hends
  exact absurd (hends (lit "a") (lit "b\r\nc") (by decide)) (by decide)

end SafeText

end ClipboardSend
