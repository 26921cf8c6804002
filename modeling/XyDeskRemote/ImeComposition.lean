/-
# Composed text that is streamed

`ImeCompositionBuffer` remembers the composing text that the remote already has.  Each call answers
with an edit: so many backspaces, a code point each, and a text to type.

`TextField` says what the calls do to a text field.  A remote that follows the edits has the text of
the field after every sequence of calls with well-formed texts (`remote_eq`), where a delete that
reaches beyond the composing text takes as much off the text in front of it.
-/
import XyDeskRemote.ClampedText
import XyDeskRemote.WorkerText

open List
open Utf8 (isHighSurrogate isLowSurrogate)

/-! ## Code points -/

namespace CodePoint

/-- The code points of a text: pairs of surrogates, and every other unit alone. -/
def codePoints : CodeUnits → List CodeUnits
  | [] => []
  | [u] => [[u]]
  | u :: v :: s =>
    if isHighSurrogate u && isLowSurrogate v then [u, v] :: codePoints s
    else [u] :: codePoints (v :: s)

/-- A text without its last `n` code points. -/
def dropCodePoints (s : CodeUnits) (n : ℕ) : CodeUnits :=
  ((codePoints s).take ((codePoints s).length - n)).flatten

/-- The code points in front that fit into `n` units. -/
def fitting : List CodeUnits → ℕ → List CodeUnits
  | [], _ => []
  | c :: cs, n => if c.length ≤ n then c :: fitting cs (n - c.length) else []

/-- Two texts that come together inside a pair of surrogates. -/
def Joins (a b : CodeUnits) : Prop :=
  ∃ u v, a.getLast? = some u ∧ b.head? = some v ∧ isHighSurrogate u = true ∧
    isLowSurrogate v = true

/-- A text that begins in the middle of a pair. -/
def BeginsLow (s : CodeUnits) : Prop := ∃ u, s.head? = some u ∧ isLowSurrogate u = true

section CodePoints

variable {s a b : CodeUnits} {n : ℕ}

theorem flatten_codePoints (s : CodeUnits) : (codePoints s).flatten = s := by
  induction s using codePoints.induct with
  | case1 => rfl
  | case2 u => rfl
  | case3 u v s hpair ih =>
    rw [codePoints, if_pos hpair, flatten_cons, ih]
    rfl
  | case4 u v s hpair ih =>
    rw [codePoints, if_neg hpair, flatten_cons, ih]
    rfl

theorem Joins.cons (u : UInt16) (h : Joins a b) : Joins (u :: a) b := by
  obtain ⟨x, y, hx, hrest⟩ := h
  refine ⟨x, y, ?_, hrest⟩
  rw [getLast?_cons, hx]
  rfl

/-- **Texts that do not come together inside a pair** keep their code points. -/
theorem codePoints_append (h : ¬ Joins a b) :
    codePoints (a ++ b) = codePoints a ++ codePoints b := by
  induction a using codePoints.induct with
  | case1 => rfl
  | case2 u =>
    cases b with
    | nil => rfl
    | cons v b =>
      have hpair : ¬ (isHighSurrogate u && isLowSurrogate v) = true := by
        rw [Bool.and_eq_true]
        exact fun hpair => h ⟨u, v, rfl, rfl, hpair⟩
      show codePoints (u :: v :: b) = [u] :: codePoints (v :: b)
      rw [codePoints, if_neg hpair]
  | case3 u v a hpair ih =>
    have htail := ih fun hjoins => h ((hjoins.cons v).cons u)
    rw [cons_append, cons_append, codePoints, if_pos hpair, codePoints, if_pos hpair, htail]
    rfl
  | case4 u v a hpair ih =>
    have htail := ih fun hjoins => h (hjoins.cons u)
    rw [cons_append, cons_append, codePoints, if_neg hpair, codePoints, if_neg hpair,
      ← cons_append, htail]
    rfl

theorem dropCodePoints_zero (s : CodeUnits) : dropCodePoints s 0 = s := by
  rw [dropCodePoints, Nat.sub_zero, take_length, flatten_codePoints]

/-- A text behind which nothing is kept. -/
theorem dropCodePoints_append (h : ¬ Joins a b) (n : ℕ) :
    dropCodePoints (a ++ b) ((codePoints b).length + n) = dropCodePoints a n := by
  have hlength : (codePoints a ++ codePoints b).length - ((codePoints b).length + n) =
      (codePoints a).length - n := by
    rw [length_append]
    omega
  rw [dropCodePoints, codePoints_append h, hlength,
    take_append_of_le_length (Nat.sub_le _ _), dropCodePoints]

/-- In front of a text that begins with a code point, another text may stand. -/
theorem not_joins_append (t : CodeUnits) (h : ¬ Joins a b) (hbegin : ¬ BeginsLow (a ++ b)) :
    ¬ Joins (t ++ a) b := by
  rintro ⟨u, v, hu, hv, hhigh, hlow⟩
  cases a with
  | nil => exact hbegin ⟨v, hv, hlow⟩
  | cons x a =>
    rw [getLast?_append, getLast?_cons, Option.some_or] at hu
    refine h ⟨u, v, ?_, hv, hhigh, hlow⟩
    rw [getLast?_cons]
    exact hu

theorem not_beginsLow_of_wellFormed (h : Utf8.WellFormed s) : ¬ BeginsLow s := by
  rintro ⟨u, hu, hlow⟩
  obtain ⟨s, rfl⟩ := head?_eq_some_iff.1 hu
  cases s with
  | nil =>
    rw [Utf8.WellFormed, hlow] at h
    exact absurd h.2 (by decide)
  | cons v s =>
    have hhigh := XyHostInputCodec.isHighSurrogate_of_low hlow
    rw [Utf8.WellFormed, if_neg (by rw [hhigh]; decide), hlow] at h
    exact absurd h.1 (by decide)

theorem not_beginsLow_take (h : ¬ BeginsLow s) (n : ℕ) : ¬ BeginsLow (s.take n) := by
  rintro ⟨u, hu, hlow⟩
  cases n with
  | zero => exact nomatch hu
  | succ n =>
    rw [head?_take, if_neg (Nat.succ_ne_zero n)] at hu
    exact h ⟨u, hu, hlow⟩

end CodePoints

end CodePoint

namespace ImeComposition

/-! ## The buffer -/

open CodePoint
open XyHostInputCodec (splitsPair splitsPair_single splitsPair_pair isHighSurrogate_of_low)
open WorkerText (lit)

/-- So many backspaces, and a text to type. -/
structure Edit where
  backspaces : ℕ
  text : CodeUnits

/-- The composing text that is remote, and the text that was finished last. -/
structure ImeCompositionBuffer where
  composingText : CodeUnits
  justFinishedText : Option CodeUnits

/-- A call of the input connection; a text may be `null`. -/
inductive Call where
  | setComposingText (text : Option CodeUnits)
  | commitText (text : Option CodeUnits)
  | finishComposingText
  | onKeyEventDispatched
  | deleteBeforeCursor (beforeLength : ℤ)

/-- The text of a call has its surrogates in pairs. -/
def Call.WellFormed : Call → Prop
  | .setComposingText text => Utf8.WellFormed (text.getD [])
  | .commitText text => Utf8.WellFormed (text.getD [])
  | _ => True

/-- What applying an edit leaves of a text with the cursor at its end. -/
def applyEdit (remote : CodeUnits) (edit : Edit) : CodeUnits :=
  dropCodePoints remote edit.backspaces ++ edit.text

namespace ImeCompositionBuffer

/-- The most that one call deletes. -/
def maxDeleteUnits : ℕ := 256

/-- Nothing is composed. -/
def initial : ImeCompositionBuffer := ⟨[], none⟩

/-- The units that two texts have in common. -/
def commonPrefix : CodeUnits → CodeUnits → ℕ
  | u :: s, v :: t => if u = v then commonPrefix s t + 1 else 0
  | _, _ => 0

/-- A position, or the one in front of it where it is inside a pair. -/
def wholeUnits (s : CodeUnits) (k : ℕ) : ℕ := if splitsPair s k then k - 1 else k

/-- The code points from a place on. -/
def codePointCount (s : CodeUnits) (start : ℕ) : ℕ := (codePoints (s.drop start)).length

/-- The edit from what the remote has to another text. -/
def replaceWith (buffer : ImeCompositionBuffer) (next : CodeUnits) : Edit × ImeCompositionBuffer :=
  let units := wholeUnits buffer.composingText (commonPrefix buffer.composingText next)
  (⟨codePointCount buffer.composingText units, next.drop units⟩,
    { buffer with composingText := next })

/-- `setComposingText`. -/
def setComposingText (buffer : ImeCompositionBuffer) (text : Option CodeUnits) :
    Edit × ImeCompositionBuffer :=
  replaceWith { buffer with justFinishedText := none } (text.getD [])

/-- What `commitText` does without a finished text. -/
def commitComposing (buffer : ImeCompositionBuffer) (committed : CodeUnits) :
    Edit × ImeCompositionBuffer :=
  let (edit, buffer) := replaceWith { buffer with justFinishedText := none } committed
  (edit, { buffer with composingText := [] })

/-- `commitText`. -/
def commitText (buffer : ImeCompositionBuffer) (text : Option CodeUnits) :
    Edit × ImeCompositionBuffer :=
  let committed := text.getD []
  match buffer.justFinishedText with
  | some finished =>
    if buffer.composingText = [] then
      if finished = committed then (⟨0, []⟩, { buffer with justFinishedText := none })
      else if finished <+: committed then
        (⟨0, committed.drop finished.length⟩, { buffer with justFinishedText := none })
      else commitComposing buffer committed
    else commitComposing buffer committed
  | none => commitComposing buffer committed

/-- `finishComposingText`. -/
def finishComposingText (buffer : ImeCompositionBuffer) : ImeCompositionBuffer :=
  { composingText := []
    justFinishedText :=
      if buffer.composingText = [] then buffer.justFinishedText else some buffer.composingText }

/-- `onKeyEventDispatched`. -/
def onKeyEventDispatched (_ : ImeCompositionBuffer) : ImeCompositionBuffer := ⟨[], none⟩

/-- `deleteBeforeCursor`. -/
def deleteBeforeCursor (buffer : ImeCompositionBuffer) (beforeLength : ℤ) :
    ℕ × ImeCompositionBuffer :=
  if beforeLength ≤ 0 then (0, buffer)
  else
    let deleteUnits := min beforeLength.toNat maxDeleteUnits
    if buffer.composingText = [] then (deleteUnits, { buffer with justFinishedText := none })
    else
      let start := wholeUnits buffer.composingText (buffer.composingText.length - deleteUnits)
      let outsideBackspaces := deleteUnits - (buffer.composingText.length - start)
      (codePointCount buffer.composingText start + outsideBackspaces,
        { composingText := buffer.composingText.take start, justFinishedText := none })

/-- The edit that a call is answered with: none for those that answer with nothing. -/
def call (buffer : ImeCompositionBuffer) : Call → Edit × ImeCompositionBuffer
  | .setComposingText text => setComposingText buffer text
  | .commitText text => commitText buffer text
  | .finishComposingText => (⟨0, []⟩, finishComposingText buffer)
  | .onKeyEventDispatched => (⟨0, []⟩, onKeyEventDispatched buffer)
  | .deleteBeforeCursor beforeLength =>
    let (backspaces, buffer) := deleteBeforeCursor buffer beforeLength
    (⟨backspaces, []⟩, buffer)

end ImeCompositionBuffer

/-- A remote text, and the buffer that answers. -/
structure Streamed where
  remote : CodeUnits
  buffer : ImeCompositionBuffer

/-- A call, and its edit applied to the remote text. -/
def Streamed.step (s : Streamed) (call : Call) : Streamed :=
  { remote := applyEdit s.remote (s.buffer.call call).1
    buffer := (s.buffer.call call).2 }

/-- The remote text and the buffer after some calls. -/
def Streamed.after (r0 : CodeUnits) (calls : List Call) : Streamed :=
  calls.foldl Streamed.step ⟨r0, .initial⟩

/-! ## The text field -/

/-- A text field: the text that stays, the composing text behind it, and the text that was finished
last. -/
structure TextField where
  settled : CodeUnits
  composing : CodeUnits
  finished : Option CodeUnits

namespace TextField

/-- The text of a commit that is not there yet: without the finished text, when it begins with
that. -/
def committed (field : TextField) (text : CodeUnits) : CodeUnits :=
  match field.finished with
  | some finished => if finished <+: text then text.drop finished.length else text
  | none => text

/-- A delete of some units: whole code points of the composing text, and `takeOff` for what the
composing text does not have. -/
def delete (takeOff : CodeUnits → ℕ → CodeUnits) (field : TextField) (units : ℕ) : TextField :=
  let kept := (fitting (codePoints field.composing) (field.composing.length - units)).flatten
  { settled := takeOff field.settled (units - (field.composing.length - kept.length))
    composing := kept
    finished := none }

/-- What a call does to the text field. -/
def step (takeOff : CodeUnits → ℕ → CodeUnits) (field : TextField) : Call → TextField
  | .setComposingText text => { field with composing := text.getD [], finished := none }
  | .commitText text => ⟨field.settled ++ field.committed (text.getD []), [], none⟩
  | .finishComposingText =>
    ⟨field.settled ++ field.composing, [],
      if field.composing = [] then field.finished else some field.composing⟩
  | .onKeyEventDispatched => ⟨field.settled ++ field.composing, [], none⟩
  | .deleteBeforeCursor beforeLength =>
    if beforeLength ≤ 0 then field
    else field.delete takeOff (min beforeLength.toNat ImeCompositionBuffer.maxDeleteUnits)

/-- The field after some calls. -/
def after (takeOff : CodeUnits → ℕ → CodeUnits) (r0 : CodeUnits) (calls : List Call) : TextField :=
  calls.foldl (step takeOff) ⟨r0, [], none⟩

/-- The text of the field. -/
def text (field : TextField) : CodeUnits := field.settled ++ field.composing

end TextField

/-! ## Whole code points -/

section WholeUnits

open ImeCompositionBuffer

variable {s t : CodeUnits} {k : ℕ}

theorem wholeUnits_le (s : CodeUnits) (k : ℕ) : wholeUnits s k ≤ k := by
  rw [wholeUnits]
  split
  · exact Nat.sub_le _ _
  · exact Nat.le_refl _

theorem splitsPair_wholeUnits (s : CodeUnits) (k : ℕ) : splitsPair s (wholeUnits s k) = false := by
  rw [wholeUnits]
  split
  · rename_i hsplit
    match k, hsplit with
    | 1, _ => rfl
    | k + 2, hsplit =>
      have hhigh := (Bool.and_eq_true_iff.1 hsplit).1
      show (isHighSurrogate (s.getD k 0) && isLowSurrogate (s.getD (k + 1) 0)) = false
      cases hlow : isLowSurrogate (s.getD (k + 1) 0) with
      | false => exact Bool.and_false _
      | true => exact absurd (hhigh.symm.trans (isHighSurrogate_of_low hlow)) (by decide)
  · rename_i hsplit
    exact Bool.eq_false_iff.2 hsplit

theorem not_joins_of_splitsPair (h : splitsPair s k = false) : ¬ Joins (s.take k) (s.drop k) := by
  rintro ⟨u, v, hu, hv, hhigh, hlow⟩
  cases k with
  | zero => exact nomatch hu
  | succ k =>
    rw [head?_drop] at hv
    obtain ⟨hlt, hv⟩ := List.getElem?_eq_some_iff.1 hv
    rw [getLast?_take, if_neg (Nat.succ_ne_zero k), Nat.add_sub_cancel,
      getElem?_eq_getElem (by omega), Option.some_or] at hu
    have hsplit : splitsPair s (k + 1) = true := by
      rw [splitsPair, getD_eq_getElem?_getD, getD_eq_getElem?_getD,
        getElem?_eq_getElem (by omega), getElem?_eq_getElem hlt, Option.getD_some,
        Option.getD_some, Option.some.inj hu, hv, hhigh, hlow]
      rfl
    exact absurd (h.symm.trans hsplit) (by decide)

theorem not_joins_wholeUnits (s : CodeUnits) (k : ℕ) :
    ¬ Joins (s.take (wholeUnits s k)) (s.drop (wholeUnits s k)) :=
  not_joins_of_splitsPair (splitsPair_wholeUnits s k)

/-- Behind the beginning of a text. -/
theorem wholeUnits_add {m : ℕ} (h : splitsPair s (k + m) = splitsPair t k) :
    wholeUnits s (k + m) = wholeUnits t k + m := by
  rw [wholeUnits, wholeUnits, h]
  cases k with
  | zero => rfl
  | succ k =>
    split
    · omega
    · rfl

/-- **The code points that fit** are the units in front of the position, or of the one before
it. -/
theorem flatten_fitting (h : k ≤ s.length) :
    (fitting (codePoints s) k).flatten = s.take (wholeUnits s k) := by
  induction s using codePoints.induct generalizing k with
  | case1 => rw [take_nil]; rfl
  | case2 u =>
    match k, h with
    | 0, _ => rfl
    | 1, _ => rw [wholeUnits, if_neg (by rw [splitsPair]; simp [isLowSurrogate])]; rfl
  | case3 u v s hpair ih =>
    rw [codePoints, if_pos hpair]
    rcases k with _ | _ | k
    · rfl
    · have hsplit : splitsPair (u :: v :: s) 1 = true := hpair
      rw [wholeUnits, if_pos hsplit]
      rfl
    · have hwhole : wholeUnits (u :: v :: s) (k + 2) = wholeUnits s k + 2 :=
        wholeUnits_add (splitsPair_pair (Bool.and_eq_true_iff.1 hpair).2 k)
      have hfits : [u, v].length ≤ k + 2 := Nat.le_add_left 2 k
      rw [fitting, if_pos hfits, flatten_cons, hwhole, take_succ_cons,
        take_succ_cons, ← ih (by simpa using h)]
      rfl
  | case4 u v s hpair ih =>
    rw [codePoints, if_neg hpair]
    rcases k with _ | k
    · rfl
    · have hwhole : wholeUnits (u :: v :: s) (k + 1) = wholeUnits (v :: s) k + 1 :=
        wholeUnits_add (splitsPair_single (Bool.eq_false_iff.2 hpair) k)
      have hfits : [u].length ≤ k + 1 := Nat.le_add_left 1 k
      rw [fitting, if_pos hfits, flatten_cons, hwhole, take_succ_cons, ← ih (by simpa using h)]
      rfl

theorem take_commonPrefix {m : ℕ} (h : m ≤ commonPrefix s t) : s.take m = t.take m := by
  induction s, t using commonPrefix.induct generalizing m with
  | case1 u s t ih =>
    cases m with
    | zero => rfl
    | succ m =>
      rw [commonPrefix, if_pos rfl] at h
      rw [take_succ_cons, take_succ_cons, ih (Nat.le_of_succ_le_succ h)]
  | case2 u s v t hne =>
    rw [commonPrefix, if_neg hne] at h
    rw [Nat.le_zero.1 h]
    rfl
  | case3 s t hnone =>
    have hzero : commonPrefix s t = 0 := by
      unfold commonPrefix
      split
      · rename_i u s v t
        exact absurd rfl (hnone u s v t rfl)
      · rfl
    rw [hzero] at h
    rw [Nat.le_zero.1 h]
    rfl

end WholeUnits

/-! ## One call -/

section Calls

open ImeCompositionBuffer

variable {buffer : ImeCompositionBuffer} {s settled composing next : CodeUnits} {n : ℕ}

/-- What is left where the end of a composing text is deleted. -/
theorem dropCodePoints_composing (settled : CodeUnits) (hbegin : ¬ BeginsLow composing) (k : ℕ)
    (n : ℕ) :
    dropCodePoints (settled ++ composing) (codePointCount composing (wholeUnits composing k) + n) =
      dropCodePoints (settled ++ composing.take (wholeUnits composing k)) n := by
  have hparts := take_append_drop (wholeUnits composing k) composing
  have hjoins : ¬ Joins (settled ++ composing.take (wholeUnits composing k))
      (composing.drop (wholeUnits composing k)) := by
    apply not_joins_append settled (not_joins_wholeUnits composing k)
    rw [hparts]
    exact hbegin
  have hdrop := dropCodePoints_append hjoins n
  rwa [append_assoc, hparts] at hdrop

/-- **A composing text is replaced.** -/
theorem applyEdit_replaceWith (buffer : ImeCompositionBuffer) (settled : CodeUnits)
    (hbegin : ¬ BeginsLow buffer.composingText) (next : CodeUnits) :
    applyEdit (settled ++ buffer.composingText) (replaceWith buffer next).1 = settled ++ next := by
  have hle : wholeUnits buffer.composingText (commonPrefix buffer.composingText next) ≤
      commonPrefix buffer.composingText next := wholeUnits_le _ _
  have hdrop := dropCodePoints_composing settled hbegin
    (commonPrefix buffer.composingText next) 0
  rw [Nat.add_zero, dropCodePoints_zero] at hdrop
  rw [applyEdit, replaceWith, hdrop, take_commonPrefix hle, append_assoc, take_append_drop]

/-- **A delete** takes whole code points off the composing text, and the rest of its units off the
text in front of it. -/
theorem applyEdit_delete (settled : CodeUnits) (hbegin : ¬ BeginsLow composing) (units : ℕ) :
    dropCodePoints (settled ++ composing)
        (codePointCount composing (wholeUnits composing (composing.length - units)) +
          (units - (composing.length - wholeUnits composing (composing.length - units)))) =
      dropCodePoints settled
          (units - (composing.length - wholeUnits composing (composing.length - units))) ++
        composing.take (wholeUnits composing (composing.length - units)) := by
  have hle : wholeUnits composing (composing.length - units) ≤ composing.length - units :=
    wholeUnits_le _ _
  rw [dropCodePoints_composing settled hbegin]
  rcases Nat.eq_zero_or_pos (units -
    (composing.length - wholeUnits composing (composing.length - units))) with hzero | hpos
  · rw [hzero, dropCodePoints_zero, dropCodePoints_zero]
  · -- units are left over only where the whole composing text is deleted
    have hnone : wholeUnits composing (composing.length - units) = 0 := by omega
    rw [hnone, take_zero, append_nil, append_nil]

/-- The remote text is the one of the field, and the buffer remembers what the field does. -/
structure Mirrors (s : Streamed) (field : TextField) : Prop where
  remote : s.remote = field.text
  composing : s.buffer.composingText = field.composing
  finished : s.buffer.justFinishedText = field.finished
  begins : ¬ BeginsLow field.composing
  idle : field.finished ≠ none → field.composing = []

variable {st : Streamed} {field : TextField} {text : Option CodeUnits}

theorem not_beginsLow_nil : ¬ BeginsLow [] := fun ⟨_, h, _⟩ => nomatch h

/-- The composing text of the field is replaced, in a call that forgets the finished text. -/
theorem Mirrors.replaceWith (h : Mirrors st field) (next : CodeUnits) :
    applyEdit st.remote
        (ImeCompositionBuffer.replaceWith { st.buffer with justFinishedText := none } next).1 =
      field.settled ++ next := by
  have hbegin : ¬ BeginsLow st.buffer.composingText := by
    rw [h.composing]
    exact h.begins
  rw [h.remote, TextField.text, ← h.composing]
  exact applyEdit_replaceWith { st.buffer with justFinishedText := none } field.settled hbegin next

theorem Mirrors.setComposingText (h : Mirrors st field) (htext : Utf8.WellFormed (text.getD [])) :
    Mirrors (st.step (.setComposingText text))
      (field.step dropCodePoints (.setComposingText text)) :=
  ⟨h.replaceWith _, rfl, rfl, not_beginsLow_of_wellFormed htext, fun hnone => absurd rfl hnone⟩

/-- What a commit does: nothing for a text that is there, or its rest behind a finished text, or it
replaces the composing text. -/
theorem commitText_cases (buffer : ImeCompositionBuffer) (text : Option CodeUnits) :
    (∃ finished, buffer.justFinishedText = some finished ∧ buffer.composingText = [] ∧
      finished <+: text.getD [] ∧
      commitText buffer text = (⟨0, (text.getD []).drop finished.length⟩, ⟨[], none⟩)) ∨
    ((∀ finished, buffer.justFinishedText = some finished → buffer.composingText = [] →
        ¬ finished <+: text.getD []) ∧
      commitText buffer text = commitComposing buffer (text.getD [])) := by
  obtain ⟨composing, finished⟩ := buffer
  cases finished with
  | none => exact Or.inr ⟨fun _ h => (nomatch h), rfl⟩
  | some finished =>
    by_cases hcomposing : composing = []
    · subst hcomposing
      by_cases hsame : finished = text.getD []
      · refine Or.inl ⟨finished, rfl, rfl, ⟨[], ?_⟩, ?_⟩
        · rw [append_nil, hsame]
        · simp only [commitText]
          rw [if_pos trivial, if_pos hsame, hsame, drop_length]
      · by_cases hbehind : finished <+: text.getD []
        · refine Or.inl ⟨finished, rfl, rfl, hbehind, ?_⟩
          simp only [commitText]
          rw [if_pos trivial, if_neg hsame, if_pos hbehind]
        · refine Or.inr ⟨?_, ?_⟩
          · rintro _ ⟨⟩ -
            exact hbehind
          · simp only [commitText]
            rw [if_pos trivial, if_neg hsame, if_neg hbehind]
    · refine Or.inr ⟨fun _ _ h => absurd h hcomposing, ?_⟩
      simp only [commitText]
      rw [if_neg hcomposing]

theorem Mirrors.commitText (h : Mirrors st field) :
    Mirrors (st.step (.commitText text)) (field.step dropCodePoints (.commitText text)) := by
  have hcommitted : applyEdit st.remote (st.buffer.commitText text).1 =
      field.settled ++ field.committed (text.getD []) ∧
        (st.buffer.commitText text).2 = ⟨[], none⟩ := by
    rcases commitText_cases st.buffer text with
      ⟨finished, hfinished, hcomposing, hbehind, heq⟩ | ⟨hnot, heq⟩
    · rw [heq, TextField.committed, ← h.finished, hfinished]
      refine ⟨?_, rfl⟩
      dsimp only
      rw [if_pos hbehind, applyEdit, dropCodePoints_zero, h.remote, TextField.text, ← h.composing,
        hcomposing, append_nil]
    · rw [heq]
      refine ⟨(h.replaceWith _).trans ?_, rfl⟩
      rw [TextField.committed]
      cases hfinished : field.finished with
      | none => rfl
      | some finished =>
        -- a finished text is remembered while nothing is composed: only its spelling can differ
        dsimp only
        rw [if_neg]
        apply hnot finished (h.finished.trans hfinished)
        rw [h.composing]
        apply h.idle
        rw [hfinished]
        exact Option.some_ne_none _
  obtain ⟨hremote, hbuffer⟩ := hcommitted
  refine ⟨?_, ?_, ?_, not_beginsLow_nil, fun hnone => absurd rfl hnone⟩
  · show applyEdit st.remote (st.buffer.commitText text).1 =
      field.settled ++ field.committed (text.getD []) ++ []
    rw [hremote, append_nil]
  · show (st.buffer.commitText text).2.composingText = []
    rw [hbuffer]
  · show (st.buffer.commitText text).2.justFinishedText = none
    rw [hbuffer]

theorem Mirrors.finishComposingText (h : Mirrors st field) :
    Mirrors (st.step .finishComposingText) (field.step dropCodePoints .finishComposingText) := by
  refine ⟨?_, rfl, ?_, not_beginsLow_nil, fun _ => rfl⟩
  · show dropCodePoints st.remote 0 ++ [] = field.settled ++ field.composing ++ []
    rw [dropCodePoints_zero, h.remote]
    rfl
  · show (if st.buffer.composingText = [] then st.buffer.justFinishedText
        else some st.buffer.composingText) = _
    rw [h.composing, h.finished]
    rfl

theorem Mirrors.onKeyEventDispatched (h : Mirrors st field) :
    Mirrors (st.step .onKeyEventDispatched) (field.step dropCodePoints .onKeyEventDispatched) := by
  refine ⟨?_, rfl, rfl, not_beginsLow_nil, fun hnone => absurd rfl hnone⟩
  show dropCodePoints st.remote 0 ++ [] = field.settled ++ field.composing ++ []
  rw [dropCodePoints_zero, h.remote]
  rfl

theorem deleteBeforeCursor_pos (buffer : ImeCompositionBuffer) {beforeLength : ℤ}
    (hpos : ¬ beforeLength ≤ 0) {units start : ℕ}
    (hunits : units = min beforeLength.toNat maxDeleteUnits)
    (hstart : start = wholeUnits buffer.composingText (buffer.composingText.length - units)) :
    buffer.deleteBeforeCursor beforeLength =
      (codePointCount buffer.composingText start +
          (units - (buffer.composingText.length - start)),
        ⟨buffer.composingText.take start, none⟩) := by
  obtain ⟨composing, finished⟩ := buffer
  subst hunits
  subst hstart
  by_cases hcomposing : composing = []
  · subst hcomposing
    rw [deleteBeforeCursor, if_neg hpos]
    simp only [length_nil, Nat.zero_sub]
    rw [if_pos trivial, wholeUnits, if_neg (by decide), Nat.sub_zero,
      show codePointCount [] 0 = 0 from rfl, Nat.zero_add]
    rfl
  · rw [deleteBeforeCursor, if_neg hpos]
    simp only
    rw [if_neg hcomposing]

theorem delete_eq (takeOff : CodeUnits → ℕ → CodeUnits) (field : TextField) (units : ℕ) {start : ℕ}
    (hstart : start = wholeUnits field.composing (field.composing.length - units)) :
    field.delete takeOff units =
      ⟨takeOff field.settled (units - (field.composing.length - start)),
        field.composing.take start, none⟩ := by
  have hkept := flatten_fitting (Nat.sub_le field.composing.length units)
  have hle : start ≤ field.composing.length :=
    hstart ▸ (wholeUnits_le _ _).trans (Nat.sub_le _ _)
  rw [← hstart] at hkept
  rw [TextField.delete, hkept, length_take, Nat.min_eq_left hle]

theorem Mirrors.deleteBeforeCursor (h : Mirrors st field) (beforeLength : ℤ) :
    Mirrors (st.step (.deleteBeforeCursor beforeLength))
      (field.step dropCodePoints (.deleteBeforeCursor beforeLength)) := by
  by_cases hpos : beforeLength ≤ 0
  · have hfield : field.step dropCodePoints (.deleteBeforeCursor beforeLength) = field :=
      if_pos hpos
    have hbuffer : st.buffer.deleteBeforeCursor beforeLength = (0, st.buffer) := if_pos hpos
    have hstep : st.step (.deleteBeforeCursor beforeLength) = st := by
      rw [Streamed.step, ImeCompositionBuffer.call, hbuffer]
      show (⟨dropCodePoints st.remote 0 ++ [], st.buffer⟩ : Streamed) = st
      rw [dropCodePoints_zero, append_nil]
    rw [hfield, hstep]
    exact h
  · have hfield := delete_eq dropCodePoints field (min beforeLength.toNat maxDeleteUnits) rfl
    have hbuffer := deleteBeforeCursor_pos st.buffer hpos rfl rfl
    rw [h.composing] at hbuffer
    have hremote := applyEdit_delete field.settled h.begins
      (min beforeLength.toNat maxDeleteUnits)
    rw [TextField.step, if_neg hpos, hfield, Streamed.step, ImeCompositionBuffer.call, hbuffer]
    refine ⟨?_, rfl, rfl, not_beginsLow_take h.begins _, fun hnone => absurd rfl hnone⟩
    show dropCodePoints st.remote _ ++ [] = _
    rw [append_nil, h.remote]
    exact hremote

/-- **One call** keeps the remote text the one of the field. -/
theorem Mirrors.step {call : Call} (h : Mirrors st field) (hcall : call.WellFormed) :
    Mirrors (st.step call) (field.step dropCodePoints call) := by
  cases call with
  | setComposingText text => exact h.setComposingText hcall
  | commitText text => exact h.commitText
  | finishComposingText => exact h.finishComposingText
  | onKeyEventDispatched => exact h.onKeyEventDispatched
  | deleteBeforeCursor beforeLength => exact h.deleteBeforeCursor beforeLength

end Calls

/-! ## Every sequence of calls -/

theorem mirrors_after (r0 : CodeUnits) (calls : List Call)
    (h : ∀ call ∈ calls, call.WellFormed) :
    Mirrors (Streamed.after r0 calls) (TextField.after dropCodePoints r0 calls) := by
  have hinitial : Mirrors ⟨r0, .initial⟩ ⟨r0, [], none⟩ := by
    refine ⟨?_, rfl, rfl, not_beginsLow_nil, fun hnone => absurd rfl hnone⟩
    exact (append_nil r0).symm
  exact foldl_rel hinitial fun call hcall _ _ hmirrors => hmirrors.step (h call hcall)

/-- **The remote text** is the text of the field after every sequence of calls: what was there and
what has been committed, less what deletes have taken off its end, and the composing text. -/
theorem remote_eq (r0 : CodeUnits) (calls : List Call) (h : ∀ call ∈ calls, call.WellFormed) :
    (Streamed.after r0 calls).remote =
        (TextField.after dropCodePoints r0 calls).settled ++
          (TextField.after dropCodePoints r0 calls).composing ∧
      (Streamed.after r0 calls).buffer.composingText =
        (TextField.after dropCodePoints r0 calls).composing :=
  ⟨(mirrors_after r0 calls h).remote, (mirrors_after r0 calls h).composing⟩

/-- A composed word that is finished and committed with a blank behind it. -/
theorem remote_eq_finished :
    (Streamed.after (lit "a") [.setComposingText (lit "ha"), .finishComposingText,
      .commitText (lit "ha ")]).remote = lit "aha " := by
  have hword : Utf8.WellFormed (lit "ha") := by
    show Utf8.WellFormed [0x68, 0x61]
    rw [Utf8.WellFormed, if_neg (by decide)]
    exact ⟨rfl, rfl, rfl⟩
  have hcommit : Utf8.WellFormed (lit "ha ") := by
    show Utf8.WellFormed [0x68, 0x61, 0x20]
    rw [Utf8.WellFormed, if_neg (by decide), Utf8.WellFormed, if_neg (by decide)]
    exact ⟨rfl, rfl, rfl, rfl⟩
  have hcalls : ∀ call ∈ [.setComposingText (lit "ha"), .finishComposingText,
      .commitText (lit "ha ")], Call.WellFormed call := by
    intro call hcall
    rcases mem_cons.1 hcall with rfl | hcall
    · exact hword
    · rcases mem_cons.1 hcall with rfl | hcall
      · exact trivial
      · obtain rfl := mem_singleton.1 hcall
        exact hcommit
  exact (remote_eq (lit "a") _ hcalls).1.trans (by decide)

/-- A delete with no composing text takes a character that was there before. -/
theorem remote_shortened :
    ¬ ∀ r0 calls, (∀ call ∈ calls, Call.WellFormed call) →
      (Streamed.after r0 calls).remote =
        (TextField.after (fun settled _ => settled) r0 calls).text := by
  intro h
  have hdelete := h (lit "ab") [.deleteBeforeCursor 1] fun call hcall => by
    obtain rfl := mem_singleton.1 hcall
    exact trivial
  exact absurd hdelete (by decide)

end ImeComposition
