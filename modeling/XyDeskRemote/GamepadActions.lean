/-
# The virtual pad on a desktop session

`XyGamepadActionMapper.apply` turns the step from one gamepad state to the next into
pointer, wheel, mouse and key actions.  Buttons and the digital directions of the stick
report their changes only, so the host holds the right keys as long as it held the right
ones before: `implied` is what a state and a stick mode ask for.
-/
import XyDeskRemote.HeldKeys
import XyDeskRemote.LabelledRun
import XyDeskRemote.VirtualPad

open LabelledRun HeldKeys PadFloat KeyControl List

/-- What the mapping needs of the machine's floats beyond the pad; `toInt` is the
truncating conversion. -/
class GamepadFloat (F : Type) extends PadFloat F where
  neg : F → F
  abs : F → F
  toInt : F → Int

/-- The keys that a pad can press. -/
inductive XyPadKey where
  | enter
  | escape
  | arrowUp
  | arrowDown
  | arrowLeft
  | arrowRight
  | w
  | a
  | s
  | d
  deriving DecidableEq

/-- What the left stick does. -/
inductive XyStickMode where
  | pointer
  | wasd
  | arrows
  deriving DecidableEq

/-- The digital directions of the stick. -/
inductive XyStickDirection where
  | up
  | down
  | left
  | right
  deriving DecidableEq

/-- The buttons of the mouse. -/
inductive XyMouseButton where
  | left
  | right
  | middle
  deriving DecidableEq

/-- What can be held down on the host. -/
inductive HostKey where
  | mouse (button : XyMouseButton)
  | key (key : XyPadKey)
  deriving DecidableEq

/-- A call on `XyGamepadOutput`. -/
inductive PadAction (F : Type) where
  | pointerDelta (dx dy : F)
  | scrollUnits (units : Int)
  | mouseClick (button : XyMouseButton) (down : Bool)
  | key (key : XyPadKey) (down : Bool)

/-- What the action does to the keys and buttons of the host. -/
def PadAction.event {F : Type} : PadAction F → Option (KeyEvent HostKey)
  | .pointerDelta _ _ => none
  | .scrollUnits _ => none
  | .mouseClick button down => some ⟨.mouse button, down⟩
  | .key k down => some ⟨.key k, down⟩

namespace XyGamepadActionMapper

section Mapper

variable {F : Type} [GamepadFloat F]

/-- Pointer units of a full deflection. -/
def pointerUnitsPerDeflection : F := decimal 18 0

/-- Wheel units of a shoulder button. -/
def shoulderScrollUnits : Int := 120

/-- Wheel units of a full deflection. -/
def scrollUnitsPerDeflection : F := decimal 48 0

/-- From where a trigger is pressed. -/
def triggerThreshold : F := decimal 5 1

/-- The largest value of an axis. -/
def axisDenominator : F := decimal 32767 0

/-- Below this a stick is at rest. -/
def stickEpsilon : F := decimal 1 3

/-- From where the stick presses a key. -/
def stickKeyThreshold : F := decimal 5 1

/-- No button pressed, and both sticks at rest. -/
def empty : XyGamepadState := ⟨0, 0, 0, 0, 0, 0, 0⟩

/-- An axis as a fraction of its range. -/
def axis (rawValue : Int) : F := div (decimal rawValue 0) axisDenominator

/-- The digital directions of a stick, as a set. -/
def directions (x y : F) : XyStickDirection → Bool
  | .up => le y (GamepadFloat.neg stickKeyThreshold)
  | .down => le stickKeyThreshold y
  | .left => le x (GamepadFloat.neg stickKeyThreshold)
  | .right => le stickKeyThreshold x

/-- The key of a direction in a mode. -/
def keyFor (direction : XyStickDirection) (mode : XyStickMode) : XyPadKey :=
  match direction with
  | .up => if mode = .wasd then .w else .arrowUp
  | .down => if mode = .wasd then .s else .arrowDown
  | .left => if mode = .wasd then .a else .arrowLeft
  | .right => if mode = .wasd then .d else .arrowRight

/-- `(buttons and bit) != 0`. -/
def pressed (buttons : Int) (button : XyPadButton) : Bool :=
  BitVec.ofInt 32 buttons &&& button.bit ≠ 0

/-- The actions of a button that has changed. -/
def edge (before after : Int) (bit : XyPadButton) (emit : Bool → List (PadAction F)) :
    List (PadAction F) :=
  let was := pressed before bit
  let now := pressed after bit
  if was ≠ now then emit now else []

/-- The rising edge past the threshold. -/
def crossed (F : Type) [GamepadFloat F] (before after : Int) : Bool :=
  let threshold : F := mul triggerThreshold (decimal 255 0)
  lt (decimal before 0) threshold && le threshold (decimal after 0)

/-- `XyStickDirection.entries`. -/
def directionEntries : List XyStickDirection := [.up, .down, .left, .right]

/-- The left stick moves the pointer. -/
def stickPointer (leftX leftY : F) : List (PadAction F) :=
  if lt stickEpsilon (GamepadFloat.abs leftX) || lt stickEpsilon (GamepadFloat.abs leftY) then
    [.pointerDelta (mul leftX pointerUnitsPerDeflection) (mul leftY pointerUnitsPerDeflection)]
  else []

/-- The left stick presses keys: what changed between the two sets of directions. -/
def stickKeys (was now : XyStickDirection → Bool) (stickMode : XyStickMode) :
    List (PadAction F) :=
  directionEntries.flatMap fun direction =>
    let isDown := now direction
    if isDown ≠ was direction then [.key (keyFor direction stickMode) isDown] else []

/-- The right stick turns the wheel. -/
def stickScroll (rightY : F) : List (PadAction F) :=
  if lt stickEpsilon (GamepadFloat.abs rightY) then
    let units := GamepadFloat.toInt (mul (GamepadFloat.neg rightY) scrollUnitsPerDeflection)
    if units ≠ 0 then [.scrollUnits units] else []
  else []

/-- `apply`: the actions of a step from one state to the next. -/
def apply (state : XyGamepadState) (previous : Option XyGamepadState)
    (stickMode : XyStickMode) : List (PadAction F) :=
  let before := previous.getD empty
  let leftX : F := axis state.leftX
  let leftY : F := axis state.leftY
  (if stickMode = .pointer then stickPointer leftX leftY
    else stickKeys (directions (axis before.leftX : F) (axis before.leftY))
      (directions leftX leftY) stickMode) ++
  stickScroll (axis state.rightY) ++
  (if crossed F before.leftTrigger state.leftTrigger then
    [.scrollUnits shoulderScrollUnits] else []) ++
  (if crossed F before.rightTrigger state.rightTrigger then
    [.scrollUnits (-shoulderScrollUnits)] else []) ++
  edge before.buttons state.buttons .a (fun down => [.mouseClick .left down]) ++
  edge before.buttons state.buttons .b (fun down => [.mouseClick .right down]) ++
  edge before.buttons state.buttons .leftThumb (fun down => [.mouseClick .middle down]) ++
  edge before.buttons state.buttons .x (fun down => [.key .enter down]) ++
  edge before.buttons state.buttons .y (fun down => [.key .escape down]) ++
  edge before.buttons state.buttons .dpadUp (fun down => [.key .arrowUp down]) ++
  edge before.buttons state.buttons .dpadDown (fun down => [.key .arrowDown down]) ++
  edge before.buttons state.buttons .dpadLeft (fun down => [.key .arrowLeft down]) ++
  edge before.buttons state.buttons .dpadRight (fun down => [.key .arrowRight down]) ++
  edge before.buttons state.buttons .leftShoulder
    (fun down => if down then [.scrollUnits shoulderScrollUnits] else []) ++
  edge before.buttons state.buttons .rightShoulder
    (fun down => if down then [.scrollUnits (-shoulderScrollUnits)] else [])

/-! ## What the host should hold -/

/-- The directions of the left stick. -/
def stick (F : Type) [GamepadFloat F] (state : XyGamepadState) : XyStickDirection → Bool :=
  directions (axis state.leftX : F) (axis state.leftY)

/-- The D-pad button of a direction. -/
def dpad : XyStickDirection → XyPadButton
  | .up => .dpadUp
  | .down => .dpadDown
  | .left => .dpadLeft
  | .right => .dpadRight

/-- The D-pad of a state holds an arrow key, and so does the stick in mode ARROWS. -/
def impliedArrow (F : Type) [GamepadFloat F] (state : XyGamepadState) (mode : XyStickMode)
    (direction : XyStickDirection) : Bool :=
  pressed state.buttons (dpad direction) || (mode = .arrows && stick F state direction)

/-- Whether the stick asks for the letter of a direction. -/
def impliedLetter (F : Type) [GamepadFloat F] (state : XyGamepadState) (mode : XyStickMode)
    (direction : XyStickDirection) : Bool :=
  mode = .wasd && stick F state direction

/-- The keys and buttons that a state and a mode ask for. -/
def implied (F : Type) [GamepadFloat F] (state : XyGamepadState) (mode : XyStickMode) :
    HostKey → Bool
  | .mouse .left => pressed state.buttons .a
  | .mouse .right => pressed state.buttons .b
  | .mouse .middle => pressed state.buttons .leftThumb
  | .key .enter => pressed state.buttons .x
  | .key .escape => pressed state.buttons .y
  | .key .arrowUp => impliedArrow F state mode .up
  | .key .arrowDown => impliedArrow F state mode .down
  | .key .arrowLeft => impliedArrow F state mode .left
  | .key .arrowRight => impliedArrow F state mode .right
  | .key .w => impliedLetter F state mode .up
  | .key .s => impliedLetter F state mode .down
  | .key .a => impliedLetter F state mode .left
  | .key .d => impliedLetter F state mode .right

/-! ## The actions as two panels of controls -/

/-- The stick as controls. -/
def stickPanel (was now : XyStickDirection → Bool) (mode : XyStickMode) :
    List (KeyControl HostKey) :=
  if mode = .pointer then []
  else directionEntries.map fun direction =>
    ⟨.key (keyFor direction mode), was direction, now direction⟩

/-- The buttons that drive a key or a mouse button of the host. -/
def buttonKeys : List (HostKey × XyPadButton) :=
  [(.mouse .left, .a), (.mouse .right, .b), (.mouse .middle, .leftThumb),
    (.key .enter, .x), (.key .escape, .y), (.key .arrowUp, .dpadUp),
    (.key .arrowDown, .dpadDown), (.key .arrowLeft, .dpadLeft),
    (.key .arrowRight, .dpadRight)]

/-- The keys of the buttons that have changed. -/
def buttonPanel (before after : Int) : List (KeyControl HostKey) :=
  buttonKeys.map fun p => ⟨p.1, pressed before p.2, pressed after p.2⟩

/-- The events of a list of actions. -/
def events (actions : List (PadAction F)) : List (KeyEvent HostKey) :=
  actions.filterMap PadAction.event

omit [GamepadFloat F] in
@[simp] theorem events_append (actions actions' : List (PadAction F)) :
    events (actions ++ actions') = events actions ++ events actions' :=
  filterMap_append

omit [GamepadFloat F] in
theorem events_edge (before after : Int) (bit : XyPadButton) {emit : Bool → List (PadAction F)}
    {k : HostKey} (hemit : ∀ down, events (emit down) = [⟨k, down⟩]) :
    events (edge before after bit emit) =
      (⟨k, pressed before bit, pressed after bit⟩ : KeyControl HostKey).report := by
  unfold edge report
  by_cases h : pressed before bit = pressed after bit
  · simp [h, events]
  · simp [h, hemit]

omit [GamepadFloat F] in
/-- The shoulders turn the wheel only. -/
theorem events_edge_nil (before after : Int) (bit : XyPadButton)
    {emit : Bool → List (PadAction F)} (hemit : ∀ down, events (emit down) = []) :
    events (edge before after bit emit) = [] := by
  unfold edge
  by_cases h : pressed before bit = pressed after bit
  · simp [h, events]
  · simp [h, hemit]

theorem events_stickPointer (leftX leftY : F) : events (stickPointer leftX leftY) = [] := by
  unfold stickPointer
  split <;> rfl

theorem events_stickScroll (rightY : F) : events (stickScroll rightY) = [] := by
  unfold stickScroll
  split
  · simp only
    split <;> rfl
  · rfl

omit [GamepadFloat F] in
theorem events_scroll (c : Bool) (units : Int) :
    events (if c then [.scrollUnits units] else [] : List (PadAction F)) = [] := by
  cases c <;> rfl

omit [GamepadFloat F] in
theorem events_stickKeys (was now : XyStickDirection → Bool) {mode : XyStickMode}
    (hmode : mode ≠ .pointer) :
    events (stickKeys was now mode : List (PadAction F)) =
      (stickPanel was now mode).flatMap report := by
  rw [stickPanel, if_neg hmode, stickKeys, flatMap_map, events, filterMap_flatMap]
  apply flatMap_congr
  intro direction _
  unfold report
  by_cases h : now direction = was direction
  · simp [h]
  · simp [h, Ne.symm h, PadAction.event]

/-- **What a step of the pad tells the host**: the changes of the stick, then those of
the buttons. -/
theorem events_apply (state : XyGamepadState) (previous : Option XyGamepadState)
    (mode : XyStickMode) :
    events (apply state previous mode : List (PadAction F)) =
      (stickPanel (stick F (previous.getD empty)) (stick F state) mode).flatMap report ++
        (buttonPanel (previous.getD empty).buttons state.buttons).flatMap report := by
  have hstick : events (if mode = .pointer then stickPointer (axis state.leftX : F)
        (axis state.leftY)
      else stickKeys (stick F (previous.getD empty)) (stick F state) mode) =
      (stickPanel (stick F (previous.getD empty)) (stick F state) mode).flatMap
        report := by
    by_cases hmode : mode = .pointer
    · rw [if_pos hmode, events_stickPointer, stickPanel, if_pos hmode]
      rfl
    · rw [if_neg hmode, events_stickKeys _ _ hmode]
  have hshoulder : ∀ (units : Int) (down : Bool),
      events (if down = true then [.scrollUnits units] else [] : List (PadAction F)) = [] := by
    intro units down
    exact events_scroll down units
  simp only [apply, events_append, events_stickScroll, events_scroll,
    events_edge_nil _ _ _ (hshoulder _), append_nil, nil_append, append_assoc]
  rw [events_edge _ _ .a fun _ => rfl, events_edge _ _ .b fun _ => rfl,
    events_edge _ _ .leftThumb fun _ => rfl, events_edge _ _ .x fun _ => rfl,
    events_edge _ _ .y fun _ => rfl, events_edge _ _ .dpadUp fun _ => rfl,
    events_edge _ _ .dpadDown fun _ => rfl, events_edge _ _ .dpadLeft fun _ => rfl,
    events_edge _ _ .dpadRight fun _ => rfl]
  apply congrArg₂ _ hstick
  simp only [buttonPanel, buttonKeys, map_cons, map_nil, flatMap_cons, flatMap_nil, append_nil]

/-- A host that holds the keys of the letters or arrows in a direction. -/
def letterKey (direction : XyStickDirection) : HostKey := .key (keyFor direction .wasd)

/-- The arrow key of a direction. -/
def arrowKey (direction : XyStickDirection) : HostKey := .key (keyFor direction .arrows)

/-- The buttons whose key nothing else drives. -/
def soleKeys : List (HostKey × XyPadButton) :=
  [(.mouse .left, .a), (.mouse .right, .b), (.mouse .middle, .leftThumb),
    (.key .enter, .x), (.key .escape, .y)]

/-- Every key belongs to a button alone, or to a direction. -/
theorem hostKey_cases (k : HostKey) :
    (∃ p ∈ soleKeys, p.1 = k) ∨ (∃ direction, k = letterKey direction) ∨
      ∃ direction, k = arrowKey direction := by
  rcases k with b | k
  · cases b with
    | left => exact Or.inl ⟨(.mouse .left, .a), by decide, rfl⟩
    | right => exact Or.inl ⟨(.mouse .right, .b), by decide, rfl⟩
    | middle => exact Or.inl ⟨(.mouse .middle, .leftThumb), by decide, rfl⟩
  · cases k with
    | enter => exact Or.inl ⟨(.key .enter, .x), by decide, rfl⟩
    | escape => exact Or.inl ⟨(.key .escape, .y), by decide, rfl⟩
    | arrowUp => exact Or.inr (Or.inr ⟨.up, rfl⟩)
    | arrowDown => exact Or.inr (Or.inr ⟨.down, rfl⟩)
    | arrowLeft => exact Or.inr (Or.inr ⟨.left, rfl⟩)
    | arrowRight => exact Or.inr (Or.inr ⟨.right, rfl⟩)
    | w => exact Or.inr (Or.inl ⟨.up, rfl⟩)
    | s => exact Or.inr (Or.inl ⟨.down, rfl⟩)
    | a => exact Or.inr (Or.inl ⟨.left, rfl⟩)
    | d => exact Or.inr (Or.inl ⟨.right, rfl⟩)

theorem implied_sole (state : XyGamepadState) (mode : XyStickMode) {p : HostKey × XyPadButton}
    (hp : p ∈ soleKeys) : implied F state mode p.1 = pressed state.buttons p.2 := by
  simp only [soleKeys, mem_cons, not_mem_nil, or_false] at hp
  rcases hp with rfl | rfl | rfl | rfl | rfl <;> rfl

theorem implied_letterKey (state : XyGamepadState) (mode : XyStickMode)
    (direction : XyStickDirection) :
    implied F state mode (letterKey direction) = impliedLetter F state mode direction := by
  cases direction <;> rfl

theorem implied_arrowKey (state : XyGamepadState) (mode : XyStickMode)
    (direction : XyStickDirection) :
    implied F state mode (arrowKey direction) = impliedArrow F state mode direction := by
  cases direction <;> rfl

/-! ## What the host holds after a step -/

theorem keys_stickPanel (was now : XyStickDirection → Bool) {mode : XyStickMode}
    (hmode : mode ≠ .pointer) :
    (stickPanel was now mode).map key =
      directionEntries.map fun direction => HostKey.key (keyFor direction mode) := by
  rw [stickPanel, if_neg hmode, map_map]
  rfl

theorem keys_buttonPanel (before after : Int) :
    (buttonPanel before after).map key = buttonKeys.map Prod.fst := by
  rw [buttonPanel, map_map]
  rfl

theorem nodup_stickPanel (was now : XyStickDirection → Bool) (mode : XyStickMode) :
    ((stickPanel was now mode).map key).Nodup := by
  by_cases hmode : mode = .pointer
  · rw [stickPanel, if_pos hmode]
    exact nodup_nil
  · rw [keys_stickPanel was now hmode]
    cases mode <;> decide

theorem nodup_buttonPanel (before after : Int) :
    ((buttonPanel before after).map key).Nodup := by
  rw [keys_buttonPanel]
  decide

variable (held : HostKey → Bool) (was now : XyStickDirection → Bool)

theorem mem_directionEntries (direction : XyStickDirection) :
    direction ∈ directionEntries := by
  cases direction <;> decide

theorem hold_stickPanel_letterKey (mode : XyStickMode) (direction : XyStickDirection) :
    hold held ((stickPanel was now mode).flatMap report) (letterKey direction) =
      if mode = .wasd then
        follow (was direction) (now direction) (held (letterKey direction))
      else held (letterKey direction) := by
  cases mode with
  | pointer => rfl
  | wasd =>
    have hmem : (⟨letterKey direction, was direction, now direction⟩ : KeyControl HostKey) ∈
        stickPanel was now .wasd := by
      exact mem_map_of_mem (mem_directionEntries direction)
    exact hold_panel held (nodup_stickPanel was now .wasd) hmem
  | arrows =>
    apply hold_panel_of_notMem
    rw [keys_stickPanel was now (by decide)]
    cases direction <;> decide

theorem hold_stickPanel_arrowKey (mode : XyStickMode) (direction : XyStickDirection) :
    hold held ((stickPanel was now mode).flatMap report) (arrowKey direction) =
      if mode = .arrows then
        follow (was direction) (now direction) (held (arrowKey direction))
      else held (arrowKey direction) := by
  cases mode with
  | pointer => rfl
  | wasd =>
    apply hold_panel_of_notMem
    rw [keys_stickPanel was now (by decide)]
    cases direction <;> decide
  | arrows =>
    have hmem : (⟨arrowKey direction, was direction, now direction⟩ : KeyControl HostKey) ∈
        stickPanel was now .arrows := by
      exact mem_map_of_mem (mem_directionEntries direction)
    exact hold_panel held (nodup_stickPanel was now .arrows) hmem

theorem hold_stickPanel_sole (mode : XyStickMode) {p : HostKey × XyPadButton}
    (hp : p ∈ soleKeys) :
    hold held ((stickPanel was now mode).flatMap report) p.1 = held p.1 := by
  apply hold_panel_of_notMem
  by_cases hmode : mode = .pointer
  · rw [stickPanel, if_pos hmode]
    exact not_mem_nil
  · rw [keys_stickPanel was now hmode]
    revert p
    cases mode <;> decide

theorem hold_buttonPanel (before after : Int) {p : HostKey × XyPadButton}
    (hp : p ∈ buttonKeys) :
    hold held ((buttonPanel before after).flatMap report) p.1 =
      follow (pressed before p.2) (pressed after p.2) (held p.1) := by
  have hmem : (⟨p.1, pressed before p.2, pressed after p.2⟩ : KeyControl HostKey) ∈
      buttonPanel before after := mem_map_of_mem hp
  exact hold_panel held (nodup_buttonPanel before after) hmem

theorem hold_buttonPanel_letterKey (before after : Int) (direction : XyStickDirection) :
    hold held ((buttonPanel before after).flatMap report) (letterKey direction) =
      held (letterKey direction) := by
  apply hold_panel_of_notMem
  rw [keys_buttonPanel]
  cases direction <;> decide

variable (state : XyGamepadState) (previous : Option XyGamepadState) (mode : XyStickMode)

/-- The host after the events of a step. -/
def holdAfter (F : Type) [GamepadFloat F] (held : HostKey → Bool) (state : XyGamepadState)
    (previous : Option XyGamepadState) (mode : XyStickMode) : HostKey → Bool :=
  hold held (events (apply state previous mode : List (PadAction F)))

theorem holdAfter_sole {p : HostKey × XyPadButton} (hp : p ∈ soleKeys) :
    holdAfter F held state previous mode p.1 =
      follow (pressed (previous.getD empty).buttons p.2) (pressed state.buttons p.2)
        (held p.1) := by
  have hbutton : p ∈ buttonKeys := by
    revert p
    decide
  rw [holdAfter, events_apply, hold_append, hold_buttonPanel _ _ _ hbutton,
    hold_stickPanel_sole held _ _ mode hp]

theorem holdAfter_letterKey (direction : XyStickDirection) :
    holdAfter F held state previous mode (letterKey direction) =
      if mode = .wasd then
        follow (stick F (previous.getD empty) direction) (stick F state direction)
          (held (letterKey direction))
      else held (letterKey direction) := by
  rw [holdAfter, events_apply, hold_append, hold_buttonPanel_letterKey, hold_stickPanel_letterKey]

theorem holdAfter_arrowKey (direction : XyStickDirection) :
    holdAfter F held state previous mode (arrowKey direction) =
      follow (pressed (previous.getD empty).buttons (dpad direction))
        (pressed state.buttons (dpad direction))
        (if mode = .arrows then
          follow (stick F (previous.getD empty) direction) (stick F state direction)
            (held (arrowKey direction))
        else held (arrowKey direction)) := by
  have hbutton : (arrowKey direction, dpad direction) ∈ buttonKeys := by
    cases direction <;> decide
  rw [holdAfter, events_apply, hold_append, hold_buttonPanel _ _ _ hbutton,
    hold_stickPanel_arrowKey]

end Mapper

/-! ## When the keys follow -/

/-- Whether the letter of a direction follows a step from one mode to the next, with the
stick in that direction before and after: mode WASD is not left with the stick held, nor
entered with the stick held throughout. -/
def SteadyLetter (mode mode' : XyStickMode) (was now : Bool) : Prop :=
  (mode = .wasd → mode' ≠ .wasd → was = false) ∧
    (mode' = .wasd → mode ≠ .wasd → was = true → now = false)

/-- Whether the arrow follows: mode ARROWS is not left or entered with the stick held, unless
the D-pad answers for the key, and within ARROWS neither the D-pad nor the stick lets go
while the other one holds. -/
def SteadyArrow (mode mode' : XyStickMode) (was now padWas padNow : Bool) : Prop :=
  (mode = .arrows → mode' ≠ .arrows → was = true → padWas = true ∨ padNow = true) ∧
    (mode' = .arrows → mode ≠ .arrows → was = true → now = true →
      padWas = true ∨ padNow = true) ∧
    (mode' = .arrows → padWas = true → now = true → padNow = true) ∧
    (mode' = .arrows → padWas = true → padNow = true → was = true → now = true)

theorem letter_follows_iff (mode mode' : XyStickMode) (was now : Bool) :
    ((if mode' = .wasd then follow was now (decide (mode = .wasd) && was)
      else decide (mode = .wasd) && was) = (decide (mode' = .wasd) && now)) ↔
      SteadyLetter mode mode' was now := by
  unfold SteadyLetter
  cases mode <;> cases mode' <;> revert was now <;> decide

theorem arrow_follows_iff (mode mode' : XyStickMode) (was now padWas padNow : Bool) :
    (follow padWas padNow
        (if mode' = .arrows then
          follow was now (padWas || (decide (mode = .arrows) && was))
        else padWas || (decide (mode = .arrows) && was)) =
      (padNow || (decide (mode' = .arrows) && now))) ↔
      SteadyArrow mode mode' was now padWas padNow := by
  unfold SteadyArrow
  by_cases hmode : mode = .arrows <;> by_cases hmode' : mode' = .arrows <;>
    simp only [hmode, hmode', decide_true, decide_false, Bool.true_and, Bool.false_and,
      Bool.or_false, if_true, if_false, true_implies, false_implies, ne_eq, not_true_eq_false,
      not_false_eq_true, and_true, true_and] <;>
    revert was now padWas padNow <;> decide

end XyGamepadActionMapper

/-! ## Runs -/

/-- The pad with what its host holds. -/
structure PadSession where
  last : Option (XyGamepadState × XyStickMode) := none
  held : HostKey → Bool := fun _ => false

namespace PadSession

open XyGamepadActionMapper

variable {F : Type} [GamepadFloat F]

/-- The state before the next step, and its mode. -/
def before (s : PadSession) : XyGamepadState := (s.last.map Prod.fst).getD empty

/-- The mode of the last state. -/
def mode (s : PadSession) : XyStickMode := (s.last.map Prod.snd).getD .pointer

/-- `apply` with the state of the preceding step as `previous`. -/
def step (F : Type) [GamepadFloat F] (s : PadSession) (next : XyGamepadState × XyStickMode) :
    Option PadSession :=
  some
    { last := some next
      held := holdAfter F s.held next.1 (s.last.map Prod.fst) next.2 }

/-- The host holds what the last state and mode ask for. -/
def Settled (F : Type) [GamepadFloat F] (s : PadSession) : Prop :=
  s.held = implied F s.before s.mode

theorem settled_iff (next : XyGamepadState × XyStickMode) (held : HostKey → Bool) :
    Settled F ⟨some next, held⟩ ↔ ∀ k, held k = implied F next.1 next.2 k := by
  have hbefore : before ⟨some next, held⟩ = next.1 := rfl
  have hmode : mode ⟨some next, held⟩ = next.2 := rfl
  rw [Settled, hbefore, hmode]
  exact funext_iff

/-- In no direction a step loses track of a key. -/
def Steady (F : Type) [GamepadFloat F] (s : PadSession)
    (next : XyGamepadState × XyStickMode) : Prop :=
  ∀ direction,
    SteadyLetter s.mode next.2 (stick F s.before direction) (stick F next.1 direction) ∧
    SteadyArrow s.mode next.2 (stick F s.before direction) (stick F next.1 direction)
      (pressed s.before.buttons (dpad direction)) (pressed next.1.buttons (dpad direction))

theorem settled_initial : Settled F ({} : PadSession) := by
  funext k
  show false = implied F empty .pointer k
  rcases hostKey_cases k with ⟨p, hp, rfl⟩ | ⟨direction, rfl⟩ | ⟨direction, rfl⟩
  · rw [implied_sole _ _ hp]
    revert p
    decide
  · rw [implied_letterKey]
    rfl
  · rw [implied_arrowKey]
    cases direction <;> rfl

/-- **The step lemma.**  From a host that holds the right keys, a step ends in such a host
exactly when it is steady. -/
theorem settled_step {s t : PadSession} {next : XyGamepadState × XyStickMode}
    (h : s.Settled F) (hstep : step F s next = some t) :
    t.Settled F ↔ s.Steady F next := by
  obtain rfl := Option.some.inj hstep
  have hsole : ∀ p ∈ soleKeys,
      holdAfter F s.held next.1 (s.last.map Prod.fst) next.2 p.1 = implied F next.1 next.2 p.1 := by
    intro p hp
    rw [holdAfter_sole _ _ _ _ hp, h, implied_sole _ _ hp, implied_sole _ _ hp]
    exact follow_was ..
  have hletter : ∀ direction,
      holdAfter F s.held next.1 (s.last.map Prod.fst) next.2 (letterKey direction) =
          implied F next.1 next.2 (letterKey direction) ↔
        SteadyLetter s.mode next.2 (stick F s.before direction) (stick F next.1 direction) := by
    intro direction
    rw [holdAfter_letterKey, h, implied_letterKey, implied_letterKey]
    exact letter_follows_iff ..
  have harrow : ∀ direction,
      holdAfter F s.held next.1 (s.last.map Prod.fst) next.2 (arrowKey direction) =
          implied F next.1 next.2 (arrowKey direction) ↔
        SteadyArrow s.mode next.2 (stick F s.before direction) (stick F next.1 direction)
          (pressed s.before.buttons (dpad direction))
          (pressed next.1.buttons (dpad direction)) := by
    intro direction
    rw [holdAfter_arrowKey, h, implied_arrowKey, implied_arrowKey]
    exact arrow_follows_iff ..
  rw [settled_iff]
  constructor
  · intro hkeys direction
    exact ⟨(hletter direction).1 (hkeys _), (harrow direction).1 (hkeys _)⟩
  · intro hsteady k
    rcases hostKey_cases k with ⟨p, hp, rfl⟩ | ⟨direction, rfl⟩ | ⟨direction, rfl⟩
    · exact hsole p hp
    · exact (hletter direction).2 (hsteady direction).1
    · exact (harrow direction).2 (hsteady direction).2

/-- **No key stuck or dropped, exactly in steady runs.**  After every step of a run the host
holds the keys and buttons of the last state and mode if and only if every step is steady. -/
theorem settled_iff_steady (F : Type) [GamepadFloat F]
    (steps : List (XyGamepadState × XyStickMode)) :
    EveryState (step F) (Settled F) {} steps ↔
      EveryStep (step F) (fun s next _ => s.Steady F next) {} steps := by
  refine everyState_iff_everyStep (I := fun _ => True) (fun _ _ _ _ _ => trivial) ?_ trivial
    settled_initial steps
  intro s next t _ hsettled hstep
  exact settled_step hsettled hstep

/-- The pad's fixed-point arithmetic, with the rest of the operations. -/
@[reducible] def fixedPointPad : GamepadFloat Int where
  toPadFloat := fixedPoint
  neg x := -x
  abs x := x.natAbs
  toInt x := x.tdiv 1000000

/-- The stick pushed up in mode WASD, and held there while the mode goes back to the
pointer; the stick is let go at last. -/
def heldThroughModes : List (XyGamepadState × XyStickMode) :=
  [(⟨0, 0, 0, 0, -32767, 0, 0⟩, .wasd), (⟨0, 0, 0, 0, -32767, 0, 0⟩, .pointer),
    (⟨0, 0, 0, 0, 0, 0, 0⟩, .pointer)]

/-- **W stays down** when the mode changes under the stick. -/
theorem letter_stuck :
    let _ : GamepadFloat Int := fixedPointPad
    ∃ t, run (step Int) {} heldThroughModes = some t ∧ t.held (.key .w) = true ∧
      implied Int t.before t.mode (.key .w) = false := by
  refine ⟨_, rfl, ?_, ?_⟩ <;> decide

end PadSession
