/-
# Checked reading

A reader takes values off a stream until the stream ends or a check of its own fails.  What the
stream says is the business of a parser, over a plain list of what is to come.

`Follows`: the reader gets what the parser says, as long as the two have the same to come; no
check of it fails.  The rules below go along the steps of a reader.
-/
import Mathlib.Logic.Basic

/-- How reading comes to an end: the stream is over, or a check fails. -/
inductive Stop (φ : Type) where
  | ends
  | fault (f : φ)
  deriving DecidableEq

/-- Values off a stream `σ`, with checks. -/
abbrev CheckedReader (σ φ : Type) : Type → Type := StateT σ (Except (Stop φ))

/-- Values off what is to come, without any check. -/
abbrev StreamParser (τ : Type) : Type → Type := StateT τ Option

namespace CheckedReader

variable {σ τ φ α β : Type}

/-- A check. -/
def check (f : φ) (holds : Prop) [Decidable holds] : CheckedReader σ φ Unit := fun s =>
  if holds then .ok ((), s) else .error (.fault f)

theorem check_pos {f : φ} {holds : Prop} [Decidable holds] (h : holds) :
    (check f holds : CheckedReader σ φ Unit) = pure () := by
  funext s
  exact if_pos h

theorem bind_ok {m : CheckedReader σ φ α} {f : α → CheckedReader σ φ β} {a : α} {s s' : σ}
    (h : m s = .ok (a, s')) : (m >>= f) s = f a s' := by
  show (m s >>= fun p => f p.1 p.2) = _
  rw [h]
  rfl

theorem bind_error {m : CheckedReader σ φ α} {f : α → CheckedReader σ φ β} {e : Stop φ} {s : σ}
    (h : m s = .error e) : (m >>= f) s = .error e := by
  show (m s >>= fun p => f p.1 p.2) = _
  rw [h]
  rfl

/-- **A reader gets what a parser says**, and no check fails. -/
structure Follows (R : σ → τ → Prop) (m : CheckedReader σ φ α) (p : StreamParser τ α) : Prop where
  ends : ∀ {s t}, R s t → p t = none → m s = .error .ends
  goes : ∀ {s t a t'}, R s t → p t = some (a, t') → ∃ s', m s = .ok (a, s') ∧ R s' t'

variable {R : σ → τ → Prop} {m : CheckedReader σ φ α} {p : StreamParser τ α}

theorem follows_pure (a : α) : Follows R (pure a : CheckedReader σ φ α) (pure a) := by
  constructor
  · intro s t _ hnone
    nomatch hnone
  · intro s t a' t' hR hsome
    cases hsome
    exact ⟨s, rfl, hR⟩

/-- One value after the other. -/
theorem Follows.bind (hm : Follows R m p) {f : α → CheckedReader σ φ β} {q : α → StreamParser τ β}
    (hf : ∀ a, Follows R (f a) (q a)) : Follows R (m >>= f) (p >>= q) := by
  have hbind : ∀ t, (p >>= q) t = (p t).bind fun r => q r.1 r.2 := fun _ => rfl
  constructor
  · intro s t hR hnone
    rw [hbind] at hnone
    cases hp : p t with
    | none => exact bind_error (hm.ends hR hp)
    | some r =>
      obtain ⟨a, t'⟩ := r
      obtain ⟨s', hs', hR'⟩ := hm.goes hR hp
      rw [hp, Option.bind_some] at hnone
      rw [bind_ok hs']
      exact (hf a).ends hR' hnone
  · intro s t b t'' hR hsome
    rw [hbind] at hsome
    obtain ⟨⟨a, t'⟩, hp, hq⟩ := Option.bind_eq_some_iff.1 hsome
    obtain ⟨s', hs', hR'⟩ := hm.goes hR hp
    rw [bind_ok hs']
    exact (hf a).goes hR' hq

theorem Follows.check {f : φ} {holds : Prop} [Decidable holds] (hholds : holds)
    (hm : Follows R m p) : Follows R (check f holds >>= fun _ => m) p := by
  rw [check_pos hholds, pure_bind]
  exact hm

end CheckedReader
