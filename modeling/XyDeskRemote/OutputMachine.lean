/-
# Machines that emit outputs

A loop that reads one input at a time, may raise, and hands values to somebody
else is a partial function `step : S → A → Option (S × List O)`: `none` is the
exception that ends the loop, the list is what the input made it emit.
-/
import Mathlib.Data.List.Basic

namespace OutputMachine

variable {S S' A A' O O' : Type*}

/-- Give the inputs to the machine in order; the final state and all outputs. -/
def feed (step : S → A → Option (S × List O)) : S → List A → Option (S × List O)
  | s, [] => some (s, [])
  | s, a :: as =>
    (step s a).bind fun r => (feed step r.1 as).map fun q => (q.1, r.2 ++ q.2)

variable {step : S → A → Option (S × List O)} {step' : S' → A' → Option (S' × List O')}

@[simp] theorem feed_nil (s : S) : feed step s [] = some (s, []) := rfl

/-- One input, then the rest. -/
theorem feed_cons (s : S) (a : A) (as : List A) :
    feed step s (a :: as) =
      (step s a).bind fun r => (feed step r.1 as).map fun q => (q.1, r.2 ++ q.2) := rfl

/-- The first input is accepted, and so is the rest. -/
theorem feed_cons_of_step {s t u : S} {a : A} {as : List A} {os os' : List O}
    (h : step s a = some (t, os)) (hrest : feed step t as = some (u, os')) :
    feed step s (a :: as) = some (u, os ++ os') := by
  rw [feed_cons, h, Option.bind_some, hrest, Option.map_some]

/-- A machine that ignores every one of the inputs stays where it is. -/
theorem feed_ignored {s : S} {as : List A} (h : ∀ a ∈ as, step s a = some (s, [])) :
    feed step s as = some (s, []) := by
  induction as with
  | nil => rfl
  | cons a as ih =>
    exact feed_cons_of_step (h a List.mem_cons_self)
      (ih fun b hb => h b (List.mem_cons_of_mem a hb))

/-- **Invariant rule.**  If a state in `I` accepts every input in `H`, stays in
`I` and only emits outputs in `P`, then so does every list of inputs in `H`. -/
theorem feed_outputs {I : S → Prop} {H : A → Prop} {P : O → Prop}
    (hstep : ∀ s a, I s → H a → ∃ t os, step s a = some (t, os) ∧ I t ∧ ∀ o ∈ os, P o)
    {s : S} (hs : I s) {as : List A} (has : ∀ a ∈ as, H a) :
    ∃ t os, feed step s as = some (t, os) ∧ I t ∧ ∀ o ∈ os, P o := by
  induction as generalizing s with
  | nil => exact ⟨s, [], rfl, hs, by intro o ho; cases ho⟩
  | cons a as ih =>
    obtain ⟨t, os, hstep_a, ht, hos⟩ := hstep s a hs (has a List.mem_cons_self)
    obtain ⟨u, os', hfeed, hu, hos'⟩ := ih ht fun b hb => has b (List.mem_cons_of_mem a hb)
    refine ⟨u, os ++ os', feed_cons_of_step hstep_a hfeed, hu, fun o ho => ?_⟩
    rcases List.mem_append.1 ho with ho | ho
    · exact hos o ho
    · exact hos' o ho

/-- **Simulation rule.**  `view` says what the second machine sees of an input, if anything.  If
related states answer an input in `H` by related states, with the first machine emitting the image
under `g` of what the second emits, then so they do on all inputs in `H`. -/
theorem feed_simulates {R : S → S' → Prop} {H : A → Prop} {view : A → Option A'} {g : O' → O}
    (hdrop : ∀ s a, view a = none → step s a = some (s, []))
    (hstep : ∀ s s' a a', R s s' → H a → view a = some a' →
      ∃ t t' os', step' s' a' = some (t', os') ∧ step s a = some (t, os'.map g) ∧ R t t')
    {s : S} {s' : S'} (hs : R s s') {as : List A} (has : ∀ a ∈ as, H a) :
    ∃ t t' os', feed step' s' (as.filterMap view) = some (t', os') ∧
      feed step s as = some (t, os'.map g) ∧ R t t' := by
  induction as generalizing s s' with
  | nil => exact ⟨s, s', [], rfl, rfl, hs⟩
  | cons a as ih =>
    have hrest : ∀ b ∈ as, H b := fun b hb => has b (List.mem_cons_of_mem a hb)
    cases hview : view a with
    | none =>
      -- an input the second machine does not see moves neither of them
      obtain ⟨t, t', os', hfeed', hfeed, ht⟩ := ih hs hrest
      refine ⟨t, t', os', ?_, ?_, ht⟩
      · rw [List.filterMap_cons_none hview]
        exact hfeed'
      · exact feed_cons_of_step (hdrop s a hview) hfeed
    | some a' =>
      obtain ⟨t, t', os', hstep', hstep_a, ht⟩ :=
        hstep s s' a a' hs (has a List.mem_cons_self) hview
      obtain ⟨u, u', os'', hfeed', hfeed, hu⟩ := ih ht hrest
      refine ⟨u, u', os' ++ os'', ?_, ?_, hu⟩
      · rw [List.filterMap_cons_some hview]
        exact feed_cons_of_step hstep' hfeed'
      · rw [List.map_append]
        exact feed_cons_of_step hstep_a hfeed

end OutputMachine
