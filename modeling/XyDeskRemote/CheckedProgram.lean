import Mathlib.Data.Nat.Notation
import Mathlib.Logic.Basic
/-
# Checked programs

A program over a state goes on with a value, gives up, or does what it must not do: a fault.

`Meets G P m Q`: started where `P` holds, the program does not fault; where it goes on, `Q` holds
of the value and the state, and where it gives up, `G` does.  There is a rule for each way to
put programs together, and loops have an invariant.
-/

/-- A program over the states `σ`, with the faults `φ`. -/
def Program (σ φ α : Type) : Type := σ → Except φ (Option α × σ)

namespace Program

variable {σ φ α β : Type}

instance : Monad (Program σ φ) where
  pure a := fun s => .ok (some a, s)
  bind m f := fun s =>
    match m s with
    | .ok (some a, s) => f a s
    | .ok (none, s) => .ok (none, s)
    | .error e => .error e

/-- What the state says. -/
def read (f : σ → α) : Program σ φ α := fun s => .ok (some (f s), s)

/-- A change of the state. -/
def update (f : σ → σ) : Program σ φ Unit := fun s => .ok (some (), f s)

/-- The program ends. -/
def giveUp : Program σ φ α := fun s => .ok (none, s)

/-- The program gives up, or `holds`. -/
def ensure (holds : σ → Bool) : Program σ φ Unit := fun s =>
  if holds s then .ok (some (), s) else .ok (none, s)

/-- The program must not be here, or `holds`. -/
def check (e : φ) (holds : σ → Bool) : Program σ φ Unit := fun s =>
  if holds s then .ok (some (), s) else .error e

/-- What follows a program that goes on. -/
theorem bind_goes {m : Program σ φ α} {f : α → Program σ φ β} {s t : σ} {a : α}
    (h : m s = .ok (some a, t)) : (m >>= f) s = f a t := by
  show (match m s with
    | .ok (some a, s) => f a s
    | .ok (none, s) => .ok (none, s)
    | .error e => .error e) = _
  rw [h]

theorem check_goes {e : φ} (holds : σ → Bool) {s : σ} (h : holds s = true) :
    check e holds s = .ok (some (), s) := if_pos h

/-- The body, `n` times. -/
def times (body : Program σ φ Unit) : ℕ → Program σ φ Unit
  | 0 => pure ()
  | n + 1 => do
    body
    times body n

/-- The body, as long as `again` holds; `e` when that is not over after `fuel` rounds. -/
def loop (e : φ) (again : σ → Bool) (body : Program σ φ Unit) : ℕ → Program σ φ Unit
  | 0 => check e fun s => !again s
  | fuel + 1 => do
    if ← read again then
      body
      loop e again body fuel

/-- Where a program goes on, `Q`; where it gives up, `G`; and there is no fault. -/
def Outcome (G : σ → Prop) (Q : α → σ → Prop) : Except φ (Option α × σ) → Prop
  | .ok (some a, s) => Q a s
  | .ok (none, s) => G s
  | .error _ => False

/-- **A triple.** -/
def Meets (G : σ → Prop) (P : σ → Prop) (m : Program σ φ α) (Q : α → σ → Prop) : Prop :=
  ∀ s, P s → Outcome G Q (m s)

variable {G P P' : σ → Prop} {Q Q' : α → σ → Prop} {m : Program σ φ α}

theorem meets_pure {a : α} (h : ∀ s, P s → Q a s) : Meets G P (pure a : Program σ φ α) Q := h

theorem Meets.bind {f : α → Program σ φ β} {R : β → σ → Prop} (hm : Meets G P m Q)
    (hf : ∀ a, Meets G (Q a) (f a) R) : Meets G P (m >>= f) R := by
  intro s hP
  have hfirst := hm s hP
  show Outcome G R (match m s with
    | .ok (some a, s) => f a s
    | .ok (none, s) => .ok (none, s)
    | .error e => .error e)
  revert hfirst
  cases m s with
  | error e => exact id
  | ok r =>
    obtain ⟨oa, s'⟩ := r
    cases oa with
    | none => exact id
    | some a => exact hf a s'

/-- Less is asked for, or more is known. -/
theorem Meets.imp (hm : Meets G P m Q) (hP : ∀ s, P' s → P s) (hQ : ∀ a s, Q a s → Q' a s) :
    Meets G P' m Q' := by
  intro s hs
  have hfirst := hm s (hP s hs)
  revert hfirst
  cases m s with
  | error e => exact id
  | ok r =>
    obtain ⟨oa, s'⟩ := r
    cases oa with
    | none => exact id
    | some a => exact hQ a s'

theorem Meets.pre (hm : Meets G P m Q) (hP : ∀ s, P' s → P s) : Meets G P' m Q :=
  hm.imp hP fun _ _ h => h

theorem Meets.post (hm : Meets G P m Q) (hQ : ∀ a s, Q a s → Q' a s) : Meets G P m Q' :=
  hm.imp (fun _ h => h) hQ

theorem meets_read (f : σ → α) :
    Meets G P (read f : Program σ φ α) fun a s => P s ∧ a = f s :=
  fun _ hP => ⟨hP, rfl⟩

theorem meets_update {f : σ → σ} {Q : Unit → σ → Prop} (h : ∀ s, P s → Q () (f s)) :
    Meets G P (update f : Program σ φ Unit) Q := h

theorem meets_giveUp (h : ∀ s, P s → G s) : Meets G P (giveUp : Program σ φ α) Q := h

theorem meets_ensure (holds : σ → Bool) (h : ∀ s, P s → G s) :
    Meets G P (ensure holds : Program σ φ Unit) fun _ s => P s ∧ holds s = true := by
  intro s hP
  show Outcome G _ (if holds s then .ok (some (), s) else .ok (none, s))
  by_cases hs : holds s = true
  · rw [if_pos hs]
    exact ⟨hP, hs⟩
  · rw [if_neg hs]
    exact h s hP

theorem meets_check {e : φ} {holds : σ → Bool} (h : ∀ s, P s → holds s = true) :
    Meets G P (check e holds) fun _ s => P s := by
  intro s hP
  show Outcome G _ (if holds s then .ok (some (), s) else .error e)
  rw [if_pos (h s hP)]
  exact hP

theorem meets_ite {c : Prop} [Decidable c] {m' : Program σ φ α} (hpos : c → Meets G P m Q)
    (hneg : ¬c → Meets G P m' Q) : Meets G P (if c then m else m') Q := by
  split
  · exact hpos ‹_›
  · exact hneg ‹_›

/-- What does not depend on the state can be taken out of what holds before. -/
theorem meets_of_and {c : Prop} (h : c → Meets G P m Q) : Meets G (fun s => P s ∧ c) m Q :=
  fun s hs => h hs.2 s hs.1

/-- A family of invariants, one for the rounds that are left. -/
theorem meets_times {body : Program σ φ Unit} {I : ℕ → σ → Prop}
    (hbody : ∀ n, Meets G (I (n + 1)) body fun _ => I n) (n : ℕ) :
    Meets G (I n) (times body n) fun _ => I 0 := by
  induction n with
  | zero => exact meets_pure fun _ h => h
  | succ n ih => exact (hbody n).bind fun _ => ih

/-- **A loop whose rounds make a measure smaller** keeps its invariant, and is over when it
should be. -/
theorem meets_loop {e : φ} {again : σ → Bool} {body : Program σ φ Unit} {I : ℕ → σ → Prop}
    (hzero : ∀ s, I 0 s → again s = false)
    (hbody : ∀ n, Meets G (fun s => I (n + 1) s ∧ again s = true) body fun _ => I n)
    (hmono : ∀ n s, I n s → I (n + 1) s) (fuel : ℕ) :
    Meets G (I fuel) (loop e again body fuel) fun _ s => I fuel s := by
  induction fuel with
  | zero => exact meets_check fun s h => by rw [hzero s h]; rfl
  | succ n ih =>
    refine (meets_read again).bind fun b => ?_
    refine meets_ite (fun hb => ?_) fun hb => ?_
    · refine Meets.pre (P := fun s => I (n + 1) s ∧ again s = true) ?_
        fun s h => ⟨h.1, h.2.symm.trans hb⟩
      exact (hbody n).bind fun _ => ih.post fun _ s => hmono n s
    · exact meets_pure fun s h => h.1

end Program
