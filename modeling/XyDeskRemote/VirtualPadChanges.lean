/-
# What the receiver has of the virtual gamepad

A sender asks the tracker whether anything has changed (`consumeDirty`), and only then takes the
next frame.  This keeps the receiver up to date as long as the change flag is set whenever the
state of the pad is not the one sent last.

The setters keep this up, for any floats: they change nothing or set the flag.  `reset` clears the
pad and the flag.
-/
import XyDeskRemote.LabelledRun
import XyDeskRemote.VirtualPad

open LabelledRun PadFloat

/-- The tracker, and the state in the last frame that was sent; the idle state before the first
one. -/
structure PadLink (F : Type) where
  pad : XyVirtualPadTracker F
  sent : Option XyGamepadState

/-- A call on the pad, or a turn of the sender. -/
inductive PadLinkCall (F : Type) where
  | setLeftStick (x y : F)
  | setRightStick (x y : F)
  | setTrigger (left right : Option F)
  | setButton (button : XyPadButton) (down : Bool)
  | reset
  | send (timestampMs : Int)

namespace PadLink

variable {F : Type} [PadFloat F]

/-- A pad at rest, and nothing sent. -/
def initial : PadLink F where
  pad := XyVirtualPadTracker.initial
  sent := (XyVirtualPadTracker.initial : XyVirtualPadTracker F).state

/-- A turn of the sender; a frame whose state raises is not sent. -/
def send (s : PadLink F) (timestampMs : Int) : PadLink F :=
  let (pad, dirty) := s.pad.consumeDirty
  if dirty then
    let (pad, frame) := pad.nextFrame timestampMs
    { pad, sent := (frame.map XyGamepadFrame.state).or s.sent }
  else { s with pad }

/-- A call. -/
def step (s : PadLink F) : PadLinkCall F → Option (PadLink F)
  | .setLeftStick x y => some { s with pad := s.pad.setLeftStick x y }
  | .setRightStick x y => some { s with pad := s.pad.setRightStick x y }
  | .setTrigger left right => some { s with pad := s.pad.setTrigger left right }
  | .setButton button down => some { s with pad := s.pad.setButton button down }
  | .reset => some { s with pad := s.pad.reset }
  | .send timestampMs => some (s.send timestampMs)

/-- The flag is set whenever the state of the pad, if it has one, is not the one sent last. -/
def Shown (s : PadLink F) : Prop :=
  s.pad.state ≠ none → s.pad.state ≠ s.sent → s.pad.dirty = true

/-- The pad is reset only while the receiver has the idle state. -/
def ResetsIdle (s : PadLink F) (a : PadLinkCall F) (_ : PadLink F) : Prop :=
  match a with
  | .reset =>
    (XyVirtualPadTracker.initial : XyVirtualPadTracker F).state ≠ none →
      s.sent = (XyVirtualPadTracker.initial : XyVirtualPadTracker F).state
  | _ => True

instance (s : PadLink F) (a : PadLinkCall F) (t : PadLink F) : Decidable (ResetsIdle s a t) :=
  match a with
  | .reset => inferInstanceAs (Decidable (_ ≠ _ → _ = _))
  | .setLeftStick _ _ | .setRightStick _ _ | .setTrigger _ _ | .setButton _ _ | .send _ =>
    isTrue trivial

/-! ## What a call changes -/

section
variable (t : XyVirtualPadTracker F)

/-- **A setter changes nothing or sets the flag.** -/
theorem setLeftStick_changes (x y : F) :
    t.setLeftStick x y = t ∨ (t.setLeftStick x y).dirty = true := by
  rw [XyVirtualPadTracker.setLeftStick]
  split
  · exact .inl rfl
  · split
    · exact .inr rfl
    · exact .inl rfl

theorem setRightStick_changes (x y : F) :
    t.setRightStick x y = t ∨ (t.setRightStick x y).dirty = true := by
  rw [XyVirtualPadTracker.setRightStick]
  split
  · exact .inl rfl
  · split
    · exact .inr rfl
    · exact .inl rfl

theorem setTrigger_changes (left right : Option F) :
    t.setTrigger left right = t ∨ (t.setTrigger left right).dirty = true := by
  simp only [XyVirtualPadTracker.setTrigger]
  split
  · exact .inr rfl
  · exact .inl rfl

omit [PadFloat F] in
theorem setButton_changes (button : XyPadButton) (down : Bool) :
    t.setButton button down = t ∨ (t.setButton button down).dirty = true := by
  simp only [XyVirtualPadTracker.setButton]
  generalize (if down = true then t.buttons ||| button.bit
    else t.buttons &&& ~~~button.bit) = next
  split
  · exact .inr rfl
  · exact .inl rfl

end

variable {s t : PadLink F}

theorem shown_of_changes {pad : XyVirtualPadTracker F} (h : s.Shown)
    (hchanges : pad = s.pad ∨ pad.dirty = true) : Shown { s with pad } := by
  rcases hchanges with rfl | hdirty
  · exact h
  · exact fun _ _ => hdirty

/-- **After a turn of the sender** the receiver has the state of the pad, if it has one. -/
theorem sent_send (h : s.Shown) (timestampMs : Int) :
    (s.send timestampMs).pad.state = none ∨
      (s.send timestampMs).sent = (s.send timestampMs).pad.state := by
  rw [send, XyVirtualPadTracker.consumeDirty]
  dsimp only
  split
  next hdirty =>
    have hstate : (XyVirtualPadTracker.nextFrame { s.pad with dirty := false } timestampMs).1.state
        = s.pad.state := rfl
    have hframe : (XyVirtualPadTracker.nextFrame { s.pad with dirty := false } timestampMs).2.map
        XyGamepadFrame.state = s.pad.state := by
      rw [XyVirtualPadTracker.nextFrame]
      dsimp only
      rw [Option.map_map]
      exact Option.map_id'
    dsimp only
    rw [hstate, hframe]
    rcases s.pad.state with _ | state
    · exact .inl rfl
    · exact .inr rfl
  next hdirty =>
    have hstate : XyVirtualPadTracker.state { s.pad with dirty := false } = s.pad.state := rfl
    dsimp only
    rw [hstate]
    by_cases hnone : s.pad.state = none
    · exact .inl hnone
    · refine .inr (Eq.symm ?_)
      by_contra hsent
      exact hdirty (h hnone hsent)

/-- A step that ends with the flag as it should be. -/
theorem shown_step_iff {a : PadLinkCall F} (h : s.Shown) (hstep : step s a = some t) :
    t.Shown ↔ ResetsIdle s a t := by
  cases a with
  | setLeftStick x y =>
    obtain rfl := Option.some.inj hstep
    exact iff_of_true (shown_of_changes h (setLeftStick_changes _ x y)) trivial
  | setRightStick x y =>
    obtain rfl := Option.some.inj hstep
    exact iff_of_true (shown_of_changes h (setRightStick_changes _ x y)) trivial
  | setTrigger left right =>
    obtain rfl := Option.some.inj hstep
    exact iff_of_true (shown_of_changes h (setTrigger_changes _ left right)) trivial
  | setButton button down =>
    obtain rfl := Option.some.inj hstep
    exact iff_of_true (shown_of_changes h (setButton_changes _ button down)) trivial
  | reset =>
    obtain rfl := Option.some.inj hstep
    constructor
    · intro hshown hidle
      by_contra hsent
      exact absurd (hshown hidle (Ne.symm hsent)) Bool.false_ne_true
    · intro hidle hstate hsent
      exact absurd (hidle hstate).symm hsent
  | send timestampMs =>
    obtain rfl := Option.some.inj hstep
    refine iff_of_true (fun hstate hsent => ?_) trivial
    rcases sent_send h timestampMs with hnone | hcurrent
    · exact absurd hnone hstate
    · exact absurd hcurrent.symm hsent

/-! ## Runs -/

/-- **The flag shows every change unless the pad is reset too early.**  In every run, the flag is
as it should be in every state exactly when every reset finds the idle state with the receiver; and
then a turn of the sender brings the receiver up to date. -/
theorem shown_iff_reset (calls : List (PadLinkCall F)) :
    (EveryState step Shown (initial : PadLink F) calls ↔ EveryStep step ResetsIdle initial calls) ∧
      ∀ s : PadLink F, s.Shown → ∀ timestampMs, (s.send timestampMs).pad.state = none ∨
        (s.send timestampMs).sent = (s.send timestampMs).pad.state := by
  refine ⟨?_, fun s hs timestampMs => sent_send hs timestampMs⟩
  refine @everyState_iff_everyStep _ _ step _ Shown ResetsIdle (fun _ => True)
    (fun _ _ _ _ _ => trivial) (fun s a t _ hs hstep => shown_step_iff hs hstep) trivial ?_ calls
  intro _ hsent
  exact absurd rfl hsent

/-- A button is held and let go, and then the pad is reset. -/
theorem shown_iff_reset_released :
    let _ : PadFloat Int := fixedPoint
    EveryState step Shown (initial : PadLink Int)
        [.setButton .a true, .send 5, .setButton .a false, .send 6, .reset] ∧
      ((initial : PadLink Int).send 7).sent = some ⟨0, 0, 0, 0, 0, 0, 0⟩ := by
  let _ : PadFloat Int := fixedPoint
  have hshown := @shown_iff_reset Int _
    [.setButton .a true, .send 5, .setButton .a false, .send 6, .reset]
  refine ⟨hshown.1.2 (by decide), ?_⟩
  rcases hshown.2 initial (fun _ hsent => absurd rfl hsent) 7 with hnone | hsent
  · exact absurd hnone (by decide)
  · exact hsent.trans (by decide)

/-- A button is held, sent, and lost in a reset: the receiver still holds it, and the sender has
nothing to send. -/
theorem reset_not_shown :
    let _ : PadFloat Int := fixedPoint
    ∃ s : PadLink Int, run step initial [.setButton .a true, .send 5, .reset] = some s ∧
      s.pad.state = some ⟨0, 0, 0, 0, 0, 0, 0⟩ ∧ s.sent = some ⟨0x1000, 0, 0, 0, 0, 0, 0⟩ ∧
      s.pad.dirty = false ∧ (s.send 6).sent = s.sent := by
  let _ : PadFloat Int := fixedPoint
  exact ⟨_, rfl, by decide, by decide, by decide, by decide⟩

end PadLink
