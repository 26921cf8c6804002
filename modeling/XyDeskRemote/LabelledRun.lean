import Mathlib.Data.List.Basic
import Mathlib.Order.WellFounded
/-
# Labelled runs of a partial step function

The transition systems of this development are partial functions
`step : S → A → Option S`: a label names who acts and what the environment
answers, and `none` says that the label is not possible in that state.  This
file has the vocabulary every one of them shares:

* `run` follows a list of labels, `Reachable` forgets it;
* `EveryState P` and `EveryStep Q` say that a run only visits states in `P`,
  respectively only takes steps in `Q`;
* the rules turn what ONE step does into what a whole run does: `Reachable.induct`,
  `everyState_of_everyStep`, `everyState_iff_everyStep` and `run_lockstep`, and
`exists_forall_not` for runs that do not end.
-/

namespace LabelledRun

variable {S S' A : Type*}

/-- The state reached from `s` by the labels `as`, in order. -/
def run (step : S → A → Option S) : S → List A → Option S
  | s, [] => some s
  | s, a :: as => (step s a).bind fun t => run step t as

/-- Some list of labels leads from `init` to `s`. -/
def Reachable (step : S → A → Option S) (init s : S) : Prop :=
  ∃ as, run step init as = some s

/-- Every state the run from `s` along `as` visits (as far as it is possible)
satisfies `P`. -/
def EveryState (step : S → A → Option S) (P : S → Prop) : S → List A → Prop
  | s, [] => P s
  | s, a :: as => P s ∧ ∀ t, step s a = some t → EveryState step P t as

/-- Every step the run from `s` along `as` takes (as far as it is possible)
satisfies `Q`. -/
def EveryStep (step : S → A → Option S) (Q : S → A → S → Prop) : S → List A → Prop
  | _, [] => True
  | s, a :: as => ∀ t, step s a = some t → Q s a t ∧ EveryStep step Q t as

variable {step : S → A → Option S}

@[simp] theorem run_nil (s : S) : run step s [] = some s := rfl

@[simp] theorem run_cons (s : S) (a : A) (as : List A) :
    run step s (a :: as) = (step s a).bind fun t => run step t as := rfl

/-- A run along an append is a run of the second half from where the first ends. -/
theorem run_append (s : S) (as bs : List A) :
    run step s (as ++ bs) = (run step s as).bind fun t => run step t bs := by
  induction as generalizing s with
  | nil => rfl
  | cons a as ih =>
    rw [List.cons_append, run_cons, run_cons]
    cases h : step s a with
    | none => rfl
    | some t => exact ih t

variable {s : S} {as : List A}

theorem run_cons_eq_some {u : S} {a : A} :
    run step s (a :: as) = some u ↔ ∃ t, step s a = some t ∧ run step t as = some u := by
  rw [run_cons, Option.bind_eq_some_iff]

theorem Reachable.refl (s : S) : Reachable step s s := ⟨[], rfl⟩

theorem Reachable.trans {t u : S} (h : Reachable step s t) (h' : Reachable step t u) :
    Reachable step s u := by
  obtain ⟨as, has⟩ := h
  obtain ⟨bs, hbs⟩ := h'
  exact ⟨as ++ bs, by rw [run_append, has, Option.bind_some, hbs]⟩

variable {P : S → Prop}

/-- **Invariant rule.**  What holds initially and is preserved by every step
holds at the end of every run. -/
theorem run_induct (hstep : ∀ s a t, P s → step s a = some t → P t) (hs : P s) {t : S}
    (h : run step s as = some t) : P t := by
  induction as generalizing s with
  | nil => exact Option.some.inj h ▸ hs
  | cons a as ih =>
    obtain ⟨u, hu, hrest⟩ := run_cons_eq_some.1 h
    exact ih (hstep s a u hs hu) hrest

/-- **Invariant rule**, for runs whose labels are all allowed. -/
theorem run_induct_of_forall {allowed : A → Prop}
    (hstep : ∀ s a t, P s → allowed a → step s a = some t → P t) (hs : P s)
    (has : ∀ a ∈ as, allowed a) {t : S} (h : run step s as = some t) : P t := by
  induction as generalizing s with
  | nil => exact Option.some.inj h ▸ hs
  | cons a as ih =>
    obtain ⟨u, hu, hrest⟩ := run_cons_eq_some.1 h
    have hP : P u := hstep s a u hs (has a List.mem_cons_self) hu
    exact ih hP (fun b hb => has b (List.mem_cons_of_mem a hb)) hrest

/-- **Invariant rule**, for what the state has to do with the labels so far, the newest one
first. -/
theorem run_induct_past {P : List A → S → Prop}
    (hstep : ∀ past s a t, P past s → step s a = some t → P (a :: past) t) (hs : P [] s) {t : S}
    (h : run step s as = some t) :
    P as.reverse t := by
  have hpast : ∀ {as past : List A} {s : S}, P past s → run step s as = some t →
      P (as.reverse ++ past) t := by
    intro as
    induction as with
    | nil =>
      intro past s hs h
      exact Option.some.inj h ▸ hs
    | cons a as ih =>
      intro past s hs h
      obtain ⟨u, hu, hrest⟩ := run_cons_eq_some.1 h
      rw [List.reverse_cons, List.append_assoc]
      exact ih (hstep past s a u hs hu) hrest
  have hall := hpast hs h
  rwa [List.append_nil] at hall

/-- **Invariant rule**, for reachable states. -/
theorem Reachable.induct (hstep : ∀ s a t, P s → step s a = some t → P t) {init : S}
    (hinit : P init) (h : Reachable step init s) : P s := by
  obtain ⟨as, has⟩ := h
  exact run_induct hstep hinit has

theorem EveryState.head (h : EveryState step P s as) :
    P s := by
  cases as with
  | nil => exact h
  | cons a as => exact h.1

theorem EveryState.last {t : S} (h : EveryState step P s as) (hrun : run step s as = some t) :
    P t := by
  induction as generalizing s with
  | nil => exact Option.some.inj hrun ▸ h
  | cons a as ih =>
    obtain ⟨u, hu, hrest⟩ := run_cons_eq_some.1 hrun
    exact ih (h.2 u hu) hrest

variable {Q : S → A → S → Prop}

/-- The first part of a run whose steps are all in `Q`. -/
theorem EveryStep.left {bs : List A} (h : EveryStep step Q s (as ++ bs)) :
    EveryStep step Q s as := by
  induction as generalizing s with
  | nil => trivial
  | cons a as ih =>
    intro t ht
    obtain ⟨hq, hrest⟩ := h t ht
    exact ⟨hq, ih hrest⟩

/-- A run whose first step is in `Q` and whose rest takes only steps in `Q`. -/
theorem EveryStep.cons {u : S} {a : A} (hstep : step s a = some u) (hQ : Q s a u)
    (hrest : EveryStep step Q u as) :
    EveryStep step Q s (a :: as) := by
  intro t ht
  obtain rfl := Option.some.inj (hstep.symm.trans ht)
  exact ⟨hQ, hrest⟩

/-- The steps of an append are those of both halves. -/
theorem EveryStep.append {bs : List A} {t : S} (h : EveryStep step Q s as)
    (hrun : run step s as = some t) (hrest : EveryStep step Q t bs) :
    EveryStep step Q s (as ++ bs) := by
  induction as generalizing s with
  | nil => exact Option.some.inj hrun ▸ hrest
  | cons a as ih =>
    intro u hu
    obtain ⟨u', hu', hrun⟩ := run_cons_eq_some.1 hrun
    obtain rfl := Option.some.inj (hu.symm.trans hu')
    exact ⟨(h u hu).1, ih (h u hu).2 hrun⟩

theorem everyStep_cons_none {a : A} (hstep : step s a = none) : EveryStep step Q s (a :: as) := by
  intro t ht
  rw [hstep] at ht
  cases ht

theorem everyStep_cons_some {u : S} {a : A} (hstep : step s a = some u) :
    EveryStep step Q s (a :: as) ↔ Q s a u ∧ EveryStep step Q u as := by
  constructor
  · intro h
    exact h u hstep
  · rintro ⟨hq, hrest⟩
    exact EveryStep.cons hstep hq hrest

/-- Whether every step is such a one can be computed. -/
instance decidableEveryStep [∀ s a t, Decidable (Q s a t)] :
    ∀ s as, Decidable (EveryStep step Q s as)
  | _, [] => isTrue trivial
  | s, a :: as =>
    match h : step s a with
    | none => isTrue (everyStep_cons_none h)
    | some t =>
      have := decidableEveryStep t as
      decidable_of_iff _ (everyStep_cons_some h).symm

/-- **Invariant rule**, from one condition on the steps to another: under `I` a step in `Q` is
in `Q'`, and keeps `I`. -/
theorem everyStep_of_everyStep {I : S → Prop} {Q' : S → A → S → Prop}
    (hstep : ∀ s a t, I s → step s a = some t → Q s a t → Q' s a t ∧ I t) (hs : I s)
    (h : EveryStep step Q s as) : EveryStep step Q' s as := by
  induction as generalizing s with
  | nil => trivial
  | cons a as ih =>
    intro t ht
    obtain ⟨hq, hrest⟩ := h t ht
    obtain ⟨hq', hI⟩ := hstep s a t hs ht hq
    exact ⟨hq', ih hI hrest⟩

/-- Two conditions that agree on every step agree on every run. -/
theorem everyStep_congr {Q' : S → A → S → Prop}
    (h : ∀ s a t, step s a = some t → (Q s a t ↔ Q' s a t)) (s : S) (as : List A) :
    EveryStep step Q s as ↔ EveryStep step Q' s as :=
  ⟨everyStep_of_everyStep (I := fun _ => True) (fun s a t _ ht hq => ⟨(h s a t ht).1 hq, trivial⟩)
      trivial,
    everyStep_of_everyStep (I := fun _ => True) (fun s a t _ ht hq => ⟨(h s a t ht).2 hq, trivial⟩)
      trivial⟩

/-- The steps of a run can be checked one by one. -/
instance {Q : S → A → S → Prop} [∀ s a t, Decidable (Q s a t)] :
    ∀ (s : S) (as : List A), Decidable (EveryStep step Q s as)
  | _, [] => isTrue trivial
  | s, a :: as =>
    match hstep : step s a with
    | none => isTrue (everyStep_cons_none hstep)
    | some u =>
      have : Decidable (EveryStep step Q u as) := instDecidableEveryStep u as
      decidable_of_iff _ (everyStep_cons_some hstep).symm

/-- **Guarded invariant rule.**  If every step of the run is in `Q`, and steps in
`Q` preserve `I`, and `I` implies `P`, then the run only visits `P`. -/
theorem everyState_of_everyStep {I : S → Prop}
    (hstep : ∀ s a t, I s → step s a = some t → Q s a t → I t) (hI : ∀ s, I s → P s) (hs : I s)
    (hQ : EveryStep step Q s as) : EveryState step P s as := by
  induction as generalizing s with
  | nil => exact hI s hs
  | cons a as ih =>
    refine ⟨hI s hs, fun t ht => ?_⟩
    obtain ⟨hq, hrest⟩ := hQ t ht
    exact ih (hstep s a t hs ht hq) hrest

/-- **Exact guarded invariant rule.**  `I` is an invariant of the system.  If,
from a state in `I` and `P`, a step ends in `P` exactly when it is in `Q`, then a
run visits only `P` exactly when it takes only steps in `Q`. -/
theorem everyState_iff_everyStep {I : S → Prop} (hI : ∀ s a t, I s → step s a = some t → I t)
    (hPQ : ∀ s a t, I s → P s → step s a = some t → (P t ↔ Q s a t)) (hIs : I s) (hPs : P s)
    (as : List A) :
    EveryState step P s as ↔ EveryStep step Q s as := by
  induction as generalizing s with
  | nil => exact ⟨fun _ => trivial, fun _ => hPs⟩
  | cons a as ih =>
    constructor
    · rintro ⟨-, h⟩ t ht
      have hPt : P t := (h t ht).head
      exact ⟨(hPQ s a t hIs hPs ht).1 hPt, (ih (hI s a t hIs ht) hPt).1 (h t ht)⟩
    · intro h
      refine ⟨hPs, fun t ht => ?_⟩
      obtain ⟨hq, hrest⟩ := h t ht
      have hPt : P t := (hPQ s a t hIs hPs ht).2 hq
      exact (ih (hI s a t hIs ht) hPt).2 hrest

/-! ## Two runs in lockstep -/

/-- Whenever one side can take a labelled step the other can take the same one,
and the results are related again. -/
def Lockstep (step : S → A → Option S) (step' : S' → A → Option S') (allowed : A → Prop)
    (R : S → S' → Prop) : Prop :=
  ∀ s s' a, allowed a → R s s' →
    (step s a = none ∧ step' s' a = none) ∨
      ∃ t t', step s a = some t ∧ step' s' a = some t' ∧ R t t'

/-- **Lockstep rule.**  Related states stay related along every list of allowed
labels, and are stopped by the same labels. -/
theorem run_lockstep {step' : S' → A → Option S'} {allowed : A → Prop} {R : S → S' → Prop}
    (hR : Lockstep step step' allowed R) {s' : S'} (h : R s s') (as : List A)
    (has : ∀ a ∈ as, allowed a) :
    (run step s as = none ∧ run step' s' as = none) ∨
      ∃ t t', run step s as = some t ∧ run step' s' as = some t' ∧ R t t' := by
  induction as generalizing s s' with
  | nil => exact Or.inr ⟨s, s', rfl, rfl, h⟩
  | cons a as ih =>
    rw [run_cons, run_cons]
    rcases hR s s' a (has a List.mem_cons_self) h with ⟨hn, hn'⟩ | ⟨t, t', ht, ht', htt⟩
    · rw [hn, hn']
      exact Or.inl ⟨rfl, rfl⟩
    · rw [ht, ht']
      exact ih htt fun b hb => has b (List.mem_cons_of_mem a hb)

/-! ## Runs that do not end -/

/-- **Ranking rule.**  What makes a rank smaller, that nothing makes larger, stops happening. -/
theorem exists_forall_not {β : Type*} [Preorder β] [WellFoundedLT β] (rank : ℕ → β)
    (happens : ℕ → Prop) (hle : ∀ n, rank (n + 1) ≤ rank n)
    (hlt : ∀ n, happens n → rank (n + 1) < rank n) : ∃ last, ∀ n ≥ last, ¬ happens n := by
  obtain ⟨b, ⟨last, rfl⟩, hmin⟩ :=
    (wellFounded_lt (α := β)).has_min (Set.range rank) ⟨rank 0, 0, rfl⟩
  refine ⟨last, fun n hn hhappens => hmin (rank (n + 1)) ⟨n + 1, rfl⟩ ?_⟩
  exact (hlt n hhappens).trans_le (antitone_nat_of_succ_le hle hn)

end LabelledRun
