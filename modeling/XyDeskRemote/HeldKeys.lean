import Mathlib.Data.List.Nodup
/-
# Keys held down

A remote host sees a stream of key events and holds down what was pressed last and not
released since: `hold` folds the stream, one key at a time.  `Momentary` events leave nothing
down that was up.  A control that reports only its changes is followed exactly by the key it
drives, provided the key was held as the control was before; `hold_panel` says what a panel of
such controls, each with a key of its own, leaves held.
-/

open List

namespace HeldKeys

variable {K : Type*}

/-- A key goes down or up. -/
structure KeyEvent (K : Type*) where
  key : K
  down : Bool
  deriving DecidableEq

/-- A control with the key it drives, as it was and as it is. -/
structure KeyControl (K : Type*) where
  key : K
  was : Bool
  now : Bool

/-- The event of a control that reports its changes only. -/
def KeyControl.report (c : KeyControl K) : List (KeyEvent K) :=
  if c.was = c.now then [] else [⟨c.key, c.now⟩]

/-- What the control makes of the key. -/
def follow (was now held : Bool) : Bool :=
  if was = now then held else now

/-- A key that was held as the control was is held as the control is. -/
@[simp] theorem follow_was (was now : Bool) : follow was now was = now := by
  cases was <;> cases now <;> rfl

variable [DecidableEq K]

/-- What is held after an event. -/
def press (held : K → Bool) (e : KeyEvent K) : K → Bool :=
  Function.update held e.key e.down

/-- What is held after the events. -/
def hold (held : K → Bool) (events : List (KeyEvent K)) : K → Bool :=
  events.foldl press held

variable (held : K → Bool)

@[simp] theorem hold_nil : hold held [] = held := rfl

@[simp] theorem hold_cons (e : KeyEvent K) (events : List (KeyEvent K)) :
    hold held (e :: events) = hold (press held e) events := rfl

theorem hold_append (events events' : List (KeyEvent K)) :
    hold held (events ++ events') = hold (hold held events) events' :=
  foldl_append

@[simp] theorem press_self (k : K) (down : Bool) : press held ⟨k, down⟩ k = down :=
  Function.update_self ..

theorem press_of_ne {k : K} {e : KeyEvent K} (h : k ≠ e.key) : press held e k = held k :=
  Function.update_of_ne h ..

/-! ## Momentary events -/

/-- The events leave nothing down that was up, whatever was held before. -/
def Momentary (events : List (KeyEvent K)) : Prop :=
  ∀ held k, hold held events k = true → held k = true

/-- A key that was up stays so. -/
theorem Momentary.eq_false {events : List (KeyEvent K)} (h : Momentary events) {k : K}
    (hk : held k = false) : hold held events k = false := by
  rw [Bool.eq_false_iff]
  intro hdown
  rw [h held k hdown] at hk
  cases hk

theorem momentary_nil : Momentary ([] : List (KeyEvent K)) := fun _ _ h => h

theorem Momentary.append {events events' : List (KeyEvent K)} (h : Momentary events)
    (h' : Momentary events') : Momentary (events ++ events') := by
  intro held k hk
  rw [hold_append] at hk
  exact h held k (h' _ k hk)

/-- A key goes up. -/
theorem momentary_up (k : K) : Momentary [⟨k, false⟩] := by
  intro held k' hk'
  by_cases hk : k' = k
  · rw [hk, hold_cons, hold_nil, press_self] at hk'
    cases hk'
  · rwa [hold_cons, hold_nil, press_of_ne held hk] at hk'

/-- A key goes down, something momentary happens, and the key goes up again. -/
theorem Momentary.wrap {events : List (KeyEvent K)} (h : Momentary events) (k : K) :
    Momentary (⟨k, true⟩ :: events ++ [⟨k, false⟩]) := by
  intro held k' hk'
  rw [cons_append, hold_cons, hold_append] at hk'
  by_cases hk : k' = k
  · rw [hk, hold_cons, hold_nil, press_self] at hk'
    cases hk'
  · have hup := h _ k' (momentary_up k _ k' hk')
    rwa [press_of_ne held hk] at hup

/-- Keys that go up one after another. -/
theorem momentary_ups (ks : List K) : Momentary (ks.map fun k => ⟨k, false⟩) := by
  induction ks with
  | nil => exact momentary_nil
  | cons k ks ih => exact (momentary_up k).append ih

theorem hold_ups_eq_false {k : K} {ks : List K} (hk : k ∈ ks) :
    hold held (ks.map fun k => ⟨k, false⟩) k = false := by
  induction ks generalizing held with
  | nil => exact absurd hk not_mem_nil
  | cons k' ks ih =>
    rw [map_cons, hold_cons]
    rcases mem_cons.1 hk with rfl | hk
    · exact (momentary_ups ks).eq_false _ (press_self held k false)
    · exact ih _ hk

/-! ## Controls -/

theorem hold_report_self (c : KeyControl K) :
    hold held c.report c.key = follow c.was c.now (held c.key) := by
  unfold KeyControl.report follow
  split
  · rfl
  · exact press_self held c.key c.now

theorem hold_report_of_ne {k : K} {c : KeyControl K} (h : k ≠ c.key) :
    hold held c.report k = held k := by
  unfold KeyControl.report
  split
  · rfl
  · exact press_of_ne held h

/-- A panel leaves the keys alone that it does not drive. -/
theorem hold_panel_of_notMem {k : K} {panel : List (KeyControl K)}
    (h : k ∉ panel.map KeyControl.key) :
    hold held (panel.flatMap KeyControl.report) k = held k := by
  induction panel generalizing held with
  | nil => rfl
  | cons c panel ih =>
    rw [map_cons, mem_cons, not_or] at h
    rw [flatMap_cons, hold_append, ih _ h.2]
    exact hold_report_of_ne held h.1

/-- **A panel of controls with a key each**: every key follows its control. -/
theorem hold_panel {panel : List (KeyControl K)} (hpanel : (panel.map KeyControl.key).Nodup)
    {c : KeyControl K} (hc : c ∈ panel) :
    hold held (panel.flatMap KeyControl.report) c.key = follow c.was c.now (held c.key) := by
  induction panel generalizing held with
  | nil => exact absurd hc not_mem_nil
  | cons c' panel ih =>
    rw [map_cons, nodup_cons] at hpanel
    rw [flatMap_cons, hold_append]
    rcases mem_cons.1 hc with rfl | hc
    · rw [hold_panel_of_notMem _ hpanel.1]
      exact hold_report_self held c
    · have hne : c.key ≠ c'.key := by
        intro heq
        exact hpanel.1 (heq ▸ mem_map_of_mem hc)
      rw [ih _ hpanel.2 hc, hold_report_of_ne held hne]

end HeldKeys
