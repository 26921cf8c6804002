/-
# Keys the keyboard mapper leaves down

The host holds what the calls of `KeyboardMapper` pressed and did not release.  A flag of the
mapper stands for a modifier that is held, but it does not say which of its two keys: every
release but that of the right physical key goes to the left one.  So a key stays down for
good when a modifier that is held with one key is taken back with the other.
-/
import XyDeskRemote.KeyboardMapper
import XyDeskRemote.LabelledRun

open LabelledRun HeldKeys VirtualKey AndroidKeyCode Bool

/-- What a call does to the keys of the host. -/
def KeyProcessingCall.event : KeyProcessingCall → Option (KeyEvent Int32)
  | .processVirtualKey vk down => some ⟨vk, down⟩
  | _ => none

/-- A call on the mapper. -/
inductive MapperCall where
  | processAndroidKeyEvent (event : AndroidKeyEvent)
  | processCustomKeyEvent (keycode : Int32)
  | processCustomKeyLock (keycode : Int32)
  | clearlAllModifiers
  deriving DecidableEq

/-- The mapper with the host behind it.  `physical` are the physical modifier keys that are
down, and `cleared` says that no modifier went down since `clearlAllModifiers`. -/
structure KeyboardHost where
  mapper : KeyboardMapper
  held : Int32 → Bool := fun _ => false
  physical : List Int32 := []
  cleared : Bool := false

namespace KeyboardHost

variable (table : CharacterTable)

/-! ## Runs -/

/-- The mapper moved on and made some calls. -/
def after (s : KeyboardHost) (mapper : KeyboardMapper) (calls : List KeyProcessingCall)
    (cleared : Bool) : KeyboardHost :=
  { s with
    mapper
    held := hold s.held (calls.filterMap KeyProcessingCall.event)
    cleared }

/-- The physical modifier keys that are down after an event. -/
def trackPhysical (event : AndroidKeyEvent) (physical : List Int32) : List Int32 :=
  if (KeyboardMapper.physicalModifier event.keyCode).isNone then physical
  else
    match event.action with
    | .down => physical.insert event.keyCode
    | .up => physical.erase event.keyCode
    | _ => physical

/-- The calls with which a modifier goes down: the ACTION_DOWN of a physical one (the Windows
key waits for its release), and a tap or a long press on a toggle. -/
def Arms : MapperCall → Prop
  | .processAndroidKeyEvent event =>
    event.action = .down ∧
      ∃ p ∈ KeyboardMapper.physicalModifier event.keyCode, p.1 ≠ .win
  | .processCustomKeyEvent keycode =>
    KeyboardMapper.getExtendedKeyCode keycode &&& KEY_FLAG_TOGGLE ≠ 0
  | .processCustomKeyLock keycode =>
    KeyboardMapper.getExtendedKeyCode keycode &&& KEY_FLAG_TOGGLE ≠ 0
  | .clearlAllModifiers => False

instance : DecidablePred Arms
  | .processAndroidKeyEvent _ => inferInstanceAs (Decidable (_ ∧ _))
  | .processCustomKeyEvent _ => inferInstanceAs (Decidable (¬ _))
  | .processCustomKeyLock _ => inferInstanceAs (Decidable (¬ _))
  | .clearlAllModifiers => inferInstanceAs (Decidable False)

/-- One call. -/
def call (s : KeyboardHost) (a : MapperCall) : KeyboardHost :=
  let cleared := s.cleared && ¬ Arms a
  match a with
  | .processAndroidKeyEvent event =>
    let r := s.mapper.processAndroidKeyEvent table event
    { s.after r.mapper r.calls cleared with physical := trackPhysical event s.physical }
  | .processCustomKeyEvent keycode =>
    let r := s.mapper.processCustomKeyEvent keycode
    s.after r.1 r.2 cleared
  | .processCustomKeyLock keycode =>
    let r := s.mapper.processCustomKeyLock keycode
    s.after r.mapper r.calls cleared
  | .clearlAllModifiers =>
    let r := s.mapper.clearlAllModifiers
    s.after r.1 r.2 true

/-- Every call is possible at any time. -/
def step (s : KeyboardHost) (a : MapperCall) : Option KeyboardHost := some (call table s a)

/-- A host that holds nothing, after `reset`. -/
def start (m : KeyboardMapper) : KeyboardHost := { mapper := m.reset }

/-- Once all physical modifiers are up and the modifiers were cleared, nothing is held. -/
def Unstuck (s : KeyboardHost) : Prop :=
  s.cleared = true → s.physical = [] → ∀ vk, s.held vk = false

/-! ## Taking a modifier back -/

/-- The event of a key that is no modifier sends something. -/
def Sends (event : AndroidKeyEvent) : Prop :=
  KeyboardMapper.getVirtualKeyCode event.keyCode &&& KEY_FLAG_UNICODE ≠ 0 ∨
    (0 < KeyboardMapper.getVirtualKeyCode event.keyCode ∧ event.isSymPressed = false) ∨
    event.unicodeChar ≠ 0

instance (event : AndroidKeyEvent) : Decidable (Sends event) := by
  unfold Sends; infer_instance

/-- The key with which a call takes back the modifier `key`, if it does: the flag is set, and
* an ACTION_UP takes it back with the key that went up, unless the modifier is locked;
* another key that sends something, of either keyboard, takes it back with the left key,
  unless it is locked;
* its toggle takes it back with the left key, and so does a long press when it is locked;
* `clearlAllModifiers` takes it back with the left key. -/
def takesBack (m : KeyboardMapper) (key : ModifierKey) : MapperCall → Option KeySide
  | .processAndroidKeyEvent event =>
    if m.pressed key = true ∧ m.locked key = false then
      match event.action, KeyboardMapper.physicalModifier event.keyCode with
      | .up, some (key', side) => if key' = key ∧ key ≠ .win then some side else none
      | .down, none => if Sends event then some .left else none
      | _, _ => none
    else none
  | .processCustomKeyEvent keycode =>
    let extCode := KeyboardMapper.getExtendedKeyCode keycode
    if m.pressed key = false ∨ extCode = 0 then none
    else if extCode &&& KEY_FLAG_TOGGLE ≠ 0 then
      if KeyboardMapper.toggledModifier (extCode &&& ~~~KEY_FLAG_TOGGLE) = some key then
        some .left
      else none
    else if extCode = EXTKEY_KBFUNCTIONKEYS ∨ extCode = EXTKEY_KBNUMPAD then none
    else if m.locked key = false then some .left else none
  | .processCustomKeyLock keycode =>
    let extCode := KeyboardMapper.getExtendedKeyCode keycode
    if m.pressed key = true ∧ m.locked key = true ∧ extCode &&& KEY_FLAG_TOGGLE ≠ 0 ∧
        KeyboardMapper.toggledModifier (extCode &&& ~~~KEY_FLAG_TOGGLE) = some key then
      some .left
    else none
  | .clearlAllModifiers => if m.pressed key = true then some .left else none

/-- No modifier is taken back with one of its keys while the other is held. -/
def Unmixed (s : KeyboardHost) (a : MapperCall) : Prop :=
  ∀ key ∈ [ModifierKey.shift, .ctrl, .alt], ∀ side ∈ takesBack s.mapper key a,
    s.held (KeyboardMapper.modifierVk key side.other) = false

instance (s : KeyboardHost) (a : MapperCall) : Decidable (Unmixed s a) := by
  unfold Unmixed; infer_instance

end KeyboardHost

namespace KeyboardMapper

/-! ## What the handlers do to the keys that are held -/

/-- The calls as events of keys. -/
def keyEvents (calls : List KeyProcessingCall) : List (KeyEvent Int32) :=
  calls.filterMap KeyProcessingCall.event

theorem keyEvents_append (calls calls' : List KeyProcessingCall) :
    keyEvents (calls ++ calls') = keyEvents calls ++ keyEvents calls' :=
  List.filterMap_append

/-- Every key that is held belongs to a modifier whose flag is set. -/
def Owned (pressed : ModifierKey → Bool) (held : Int32 → Bool) : Prop :=
  ∀ vk, held vk = true → ∃ key side, pressed key = true ∧ vk = modifierVk key side

variable {pressed pressed' : ModifierKey → Bool} {held held' : Int32 → Bool}

/-- Nothing goes down, and a modifier whose flag is cleared is held with neither key. -/
theorem Owned.lower (h : Owned pressed held) (hheld : ∀ vk, held' vk = true → held vk = true)
    (hclear : ∀ key, pressed key = true → pressed' key = false →
      ∀ side, held' (modifierVk key side) = false) : Owned pressed' held' := by
  intro vk hvk
  obtain ⟨key, side, hkey, rfl⟩ := h vk (hheld vk hvk)
  cases hkey' : pressed' key with
  | true => exact ⟨key, side, hkey', rfl⟩
  | false =>
    rw [hclear key hkey hkey' side] at hvk
    cases hvk

theorem Owned.momentary (h : Owned pressed held) {events : List (KeyEvent Int32)}
    (hevents : Momentary events) : Owned pressed (hold held events) := by
  apply h.lower (hevents held)
  intro key hkey hkey'
  rw [hkey] at hkey'
  cases hkey'

/-- A modifier goes down with one of its keys, and its flag is set. -/
theorem Owned.press (h : Owned pressed held) (key : ModifierKey) (side : KeySide) :
    Owned (Function.update pressed key true) (press held ⟨modifierVk key side, true⟩) := by
  intro vk hvk
  by_cases hself : vk = modifierVk key side
  · exact ⟨key, side, Function.update_self .., hself⟩
  · rw [press_of_ne held hself] at hvk
    obtain ⟨key', side', hkey', rfl⟩ := h vk hvk
    refine ⟨key', side', ?_, rfl⟩
    by_cases heq : key' = key
    · rw [heq, Function.update_self]
    · rwa [Function.update_of_ne heq]

/-- A modifier that went up with one key while the other was up is held with neither. -/
theorem both_up {key : ModifierKey} (side : KeySide)
    (hheld : ∀ vk, held' vk = true → held vk = true) (hside : held' (modifierVk key side) = false)
    (hother : key ≠ .win → held (modifierVk key side.other) = false) (side' : KeySide) :
    held' (modifierVk key side') = false := by
  have hside' : side' = side ∨ side' = side.other := by
    cases side <;> cases side' <;> simp [KeySide.other]
  rcases hside' with rfl | rfl
  · exact hside
  · by_cases hwin : key = .win
    · subst hwin
      exact hside
    · rw [eq_false_iff]
      intro hdown
      rw [hheld _ hdown] at hother
      cases hother hwin

/-- A modifier goes up with one key while the other is up, and its flag is cleared. -/
theorem Owned.release (h : Owned pressed held) (key : ModifierKey) (side : KeySide)
    (hother : key ≠ .win → held (modifierVk key side.other) = false) :
    Owned (Function.update pressed key false)
      (HeldKeys.press held ⟨modifierVk key side, false⟩) := by
  have hup := momentary_up (modifierVk key side) held
  apply h.lower hup
  intro key' hkey' hclear side'
  by_cases heq : key' = key
  · subst heq
    exact both_up side hup (press_self held _ false) hother side'
  · rw [Function.update_of_ne heq, hkey'] at hclear
    cases hclear

/-! ## The reset after input -/

theorem keyEvents_reset (force : Bool) (m : KeyboardMapper) :
    keyEvents (m.resetModifierKeysAfterInput force).2 =
      ((([ModifierKey.shift, .ctrl, .alt, .win].filter (m.resets force)).map
        (modifierVk · .left)).map fun vk => ⟨vk, false⟩) := by
  have hcalls : ∀ keys : List ModifierKey,
      keyEvents (keys.map fun key => .processVirtualKey (modifierVk key .left) false) =
        (keys.map (modifierVk · .left)).map fun vk => ⟨vk, false⟩ := by
    intro keys
    induction keys with
    | nil => rfl
    | cons key keys ih => exact congrArg (_ :: ·) ih
  rw [resetModifierKeysAfterInput, keyEvents_append, hcalls]
  exact List.append_nil _

variable {m : KeyboardMapper}

theorem owned_reset (h : Owned m.pressed held) {force : Bool}
    (hother : ∀ key, m.resets force key = true → key ≠ .win →
      held (modifierVk key .right) = false) :
    Owned (m.resetModifierKeysAfterInput force).1.pressed
      (hold held (keyEvents (m.resetModifierKeysAfterInput force).2)) := by
  rw [keyEvents_reset]
  have hups := momentary_ups (([ModifierKey.shift, .ctrl, .alt, .win].filter
    (m.resets force)).map (modifierVk · .left)) held
  apply h.lower hups
  intro key hkey hclear
  have hresets : m.resets force key = true := by
    rw [resetModifierKeysAfterInput] at hclear
    simpa [hkey] using hclear
  apply both_up .left hups
  · apply hold_ups_eq_false
    apply List.mem_map_of_mem
    rw [List.mem_filter]
    refine ⟨?_, hresets⟩
    cases key <;> decide
  · exact hother key hresets

/-! ## Toggles -/

theorem owned_toggle (h : Owned m.pressed held) (keycode : Int32) (lock : Bool)
    (hother : ∀ key, toggledModifier keycode = some key → m.pressed key = true →
      (lock = true → m.locked key = true) → key ≠ .win → held (modifierVk key .right) = false) :
    Owned (m.processToggleButton keycode lock).1.pressed
      (hold held (keyEvents (m.processToggleButton keycode lock).2)) := by
  unfold processToggleButton
  cases hkey : toggledModifier keycode with
  | none => exact h
  | some key =>
    dsimp only [applyModifier]
    set target : Bool := if lock then lock && !m.locked key else !m.pressed key with htarget
    rw [keyEvents_append]
    by_cases hchange : target = m.pressed key
    · -- no change is reported
      rw [if_neg (not_not_intro hchange), hchange, Function.update_eq_self]
      exact h
    · rw [if_pos hchange]
      cases hnew : target with
      | true => exact h.press key .left
      | false =>
        apply h.release key .left
        have hpressed : m.pressed key = true := by
          rw [hnew] at hchange
          exact eq_true_of_ne_false (Ne.symm hchange)
        apply hother key hkey hpressed
        intro hlock
        rw [hlock] at htarget
        simpa [hnew] using htarget

/-! ## Other keys -/

variable {calls : List KeyProcessingCall}

theorem momentary_around (h : Momentary (keyEvents calls)) (send : Bool) (vk : Int32) :
    Momentary (keyEvents (around send vk calls)) := by
  cases send with
  | false => exact h
  | true =>
    have hevents : keyEvents (around true vk calls) =
        ⟨vk, true⟩ :: keyEvents calls ++ [⟨vk, false⟩] := by
      rw [around, if_pos rfl, keyEvents_append]
      rfl
    rw [hevents]
    exact h.wrap vk

theorem momentary_tap (vk : Int32) :
    Momentary (keyEvents [.processVirtualKey vk true, .processVirtualKey vk false]) :=
  momentary_nil.wrap vk

theorem momentary_unicode (units : List UInt16) :
    Momentary (keyEvents (units.map fun c => .processUnicodeKey (.ofNat c.toNat))) := by
  induction units with
  | nil => exact momentary_nil
  | cons c units ih => exact ih

variable {event : AndroidKeyEvent}

/-- A key that is no modifier leaves nothing down, nor do the modifiers sent around it. -/
theorem momentary_typed {table : CharacterTable} (h : typedKey table event m = some calls) :
    Momentary (keyEvents calls) := by
  unfold typedKey at h
  dsimp only at h
  split_ifs at h
  · obtain rfl := Option.some.inj h
    exact momentary_nil
  · obtain rfl := Option.some.inj h
    exact momentary_nil
  · obtain rfl := Option.some.inj h
    apply momentary_around
    apply momentary_around
    apply momentary_around
    apply momentary_around
    exact momentary_tap _
  · obtain rfl := Option.some.inj h
    exact momentary_nil

theorem sends_of_typed {table : CharacterTable} (h : typedKey table event m = some calls) :
    KeyboardHost.Sends event := by
  unfold typedKey at h
  dsimp only at h
  split_ifs at h with hunicode hdigit hvk hchar
  · exact .inl hunicode
  · simp only [Bool.and_eq_true, decide_eq_true_eq] at hdigit
    refine .inr (.inr ?_)
    intro hzero
    rw [hzero] at hdigit
    exact absurd hdigit.1.2 (by decide)
  · rw [Bool.and_eq_true, decide_eq_true_eq, Bool.not_eq_true'] at hvk
    exact .inr (.inl hvk)
  · exact .inr (.inr hchar)

/-! ## Physical modifiers -/

theorem processKeyUp_of_ne_win {key : ModifierKey} {side : KeySide}
    (hphysical : physicalModifier event.keyCode = some (key, side)) (hwin : key ≠ .win)
    (m : KeyboardMapper) :
    processKeyUp event m =
      if m.pressed key && !m.locked key then
        { mapper := m.setPressed key false
          calls := [.processVirtualKey (modifierVk key side) false] }
      else { mapper := m } := by
  rw [processKeyUp, hphysical]
  cases key with
  | win => exact absurd rfl hwin
  | _ => rfl

theorem processKeyDown_of_ne_win {key : ModifierKey} {side : KeySide}
    (hphysical : physicalModifier event.keyCode = some (key, side)) (hwin : key ≠ .win)
    (table : CharacterTable) (m : KeyboardMapper) :
    processKeyDown table event m =
      if m.pressed key then { mapper := m }
      else
        { mapper := m.setPressed key true
          calls := [.processVirtualKey (modifierVk key side) true] } := by
  rw [processKeyDown, hphysical]
  cases key with
  | win => exact absurd rfl hwin
  | _ => rfl

/-- An ACTION_UP takes a modifier back with the key that went up. -/
theorem owned_up (h : Owned m.pressed held) (event : AndroidKeyEvent)
    (hother : ∀ key side, physicalModifier event.keyCode = some (key, side) → key ≠ .win →
      m.pressed key = true → m.locked key = false →
      held (modifierVk key side.other) = false) :
    Owned (processKeyUp event m).mapper.pressed
      (hold held (keyEvents (processKeyUp event m).calls)) := by
  cases hphysical : physicalModifier event.keyCode with
  | none =>
    rw [processKeyUp, hphysical]
    exact h
  | some p =>
    obtain ⟨key, side⟩ := p
    by_cases hwin : key = .win
    · subst hwin
      rw [processKeyUp, hphysical]
      dsimp only
      split_ifs
      · exact h
      · exact h.momentary (momentary_tap _)
      · exact h
    · rw [processKeyUp_of_ne_win hphysical hwin]
      split_ifs with hflags
      · rw [Bool.and_eq_true, Bool.not_eq_true'] at hflags
        apply h.release key side
        intro _
        exact hother key side hphysical hwin hflags.1 hflags.2
      · exact h

/-- An ACTION_DOWN presses a modifier, or takes the modifiers back with their left keys. -/
theorem owned_down (h : Owned m.pressed held) (table : CharacterTable) (event : AndroidKeyEvent)
    (hother : ∀ key, physicalModifier event.keyCode = none → KeyboardHost.Sends event →
      m.pressed key = true → m.locked key = false → key ≠ .win →
      held (modifierVk key .right) = false) :
    Owned (processKeyDown table event m).mapper.pressed
      (hold held (keyEvents (processKeyDown table event m).calls)) := by
  cases hphysical : physicalModifier event.keyCode with
  | none =>
    rw [processKeyDown, hphysical]
    dsimp only
    set m₁ : KeyboardMapper := { m with isWinComboUsed := m.isWinKeyDown || m.isWinComboUsed }
    cases htyped : typedKey table event m₁ with
    | none => exact h
    | some calls =>
      have hcalls := momentary_typed htyped
      dsimp only
      split_ifs
      · rw [keyEvents_append, hold_append]
        apply owned_reset (m := m₁) (h.momentary hcalls)
        intro key hresets hwin
        apply hcalls.eq_false
        rw [resets, Bool.or_false, Bool.and_eq_true, Bool.not_eq_true'] at hresets
        exact hother key hphysical (sends_of_typed htyped) hresets.1 hresets.2 hwin
      · exact h.momentary hcalls
  | some p =>
    obtain ⟨key, side⟩ := p
    by_cases hwin : key = .win
    · subst hwin
      rw [processKeyDown, hphysical]
      exact h
    · rw [processKeyDown_of_ne_win hphysical hwin]
      split_ifs with hpressed
      · exact h
      · exact h.press key side

end KeyboardMapper

namespace KeyboardHost

open KeyboardMapper

variable {table : CharacterTable}

/-! ## The invariant -/

/-- Every key that is held is accounted for by a flag, and after `clearlAllModifiers` no flag
is set until a modifier goes down. -/
structure Inv (s : KeyboardHost) : Prop where
  owned : Owned s.mapper.pressed s.held
  cleared : s.cleared = true → ∀ key, s.mapper.pressed key = false

variable {s : KeyboardHost}

theorem Inv.unstuck (h : Inv s) : Unstuck s := by
  intro hcleared _ vk
  rw [eq_false_iff]
  intro hvk
  obtain ⟨key, side, hkey, -⟩ := h.owned vk hvk
  rw [h.cleared hcleared key] at hkey
  cases hkey

theorem inv_start (m : KeyboardMapper) : Inv (start m) := ⟨nofun, nofun⟩

variable {m : KeyboardMapper}

theorem pressed_up {event : AndroidKeyEvent} (h : ∀ key, m.pressed key = false)
    (key : ModifierKey) :
    (processKeyUp event m).mapper.pressed key = false := by
  cases hphysical : physicalModifier event.keyCode with
  | none =>
    rw [processKeyUp, hphysical]
    exact h key
  | some p =>
    obtain ⟨key', side⟩ := p
    by_cases hwin : key' = .win
    · subst hwin
      rw [processKeyUp, hphysical]
      dsimp only
      split_ifs
      · exact h key
      · exact h key
      · exact h key
    · rw [processKeyUp_of_ne_win hphysical hwin, h key']
      exact h key

theorem pressed_reset (h : ∀ key, m.pressed key = false) (force : Bool) (key : ModifierKey) :
    (m.resetModifierKeysAfterInput force).1.pressed key = false := by
  rw [resetModifierKeysAfterInput]
  dsimp only
  rw [h key, Bool.false_and]

theorem pressed_down {event : AndroidKeyEvent} (h : ∀ key, m.pressed key = false)
    (hphysical : ∀ p ∈ physicalModifier event.keyCode, p.1 = .win) (key : ModifierKey) :
    (processKeyDown table event m).mapper.pressed key = false := by
  unfold processKeyDown
  cases hp : physicalModifier event.keyCode with
  | none =>
    dsimp only
    split
    · exact h key
    · split
      · exact pressed_reset h false key
      · exact h key
  | some p =>
    obtain ⟨key', side⟩ := p
    obtain rfl : key' = .win := hphysical _ hp
    exact h key

theorem pressed_custom {keycode : Int32} (h : ∀ key, m.pressed key = false)
    (htoggle : getExtendedKeyCode keycode &&& KEY_FLAG_TOGGLE = 0) (key : ModifierKey) :
    (m.processCustomKeyEvent keycode).1.pressed key = false := by
  unfold processCustomKeyEvent
  dsimp only
  rw [if_neg (not_not_intro htoggle)]
  split_ifs
  · exact h key
  · exact h key
  · exact pressed_reset h false key
  · exact pressed_reset h false key

/-- A call after which the modifiers still count as cleared sets no flag. -/
theorem pressed_of_cleared (h : Inv s) (a : MapperCall) (hcleared : (call table s a).cleared = true)
    (key : ModifierKey) :
    (call table s a).mapper.pressed key = false := by
  cases a with
  | processAndroidKeyEvent event =>
    obtain ⟨hbefore, harms⟩ := (Bool.and_eq_true _ _).mp hcleared
    have hflags := h.cleared hbefore
    have hphysical : event.action = .down → ∀ p ∈ physicalModifier event.keyCode, p.1 = .win := by
      intro haction p hp
      by_contra hwin
      exact of_decide_eq_true harms ⟨haction, p, hp, hwin⟩
    show (processAndroidKeyEvent table event s.mapper).mapper.pressed key = false
    unfold processAndroidKeyEvent
    cases haction : event.action with
    | up => exact pressed_up hflags key
    | down => exact pressed_down hflags (hphysical haction) key
    | multiple => exact hflags key
    | other => exact hflags key
  | processCustomKeyEvent keycode =>
    obtain ⟨hbefore, harms⟩ := (Bool.and_eq_true _ _).mp hcleared
    apply pressed_custom (h.cleared hbefore)
    exact not_not.1 (of_decide_eq_true harms)
  | processCustomKeyLock keycode =>
    obtain ⟨hbefore, harms⟩ := (Bool.and_eq_true _ _).mp hcleared
    show (processCustomKeyLock keycode s.mapper).mapper.pressed key = false
    rw [processCustomKeyLock, if_pos (not_not.1 (of_decide_eq_true harms))]
    exact h.cleared hbefore key
  | clearlAllModifiers =>
    show (s.mapper.pressed key && !(s.mapper.pressed key && (!s.mapper.locked key || true))) =
      false
    cases s.mapper.pressed key <;> simp

theorem Unmixed.other {a : MapperCall} (h : Unmixed s a) {key : ModifierKey} (hwin : key ≠ .win)
    (side : KeySide) (hback : takesBack s.mapper key a = some side) :
    s.held (modifierVk key side.other) = false := by
  apply h key _ side hback
  cases key with
  | win => exact absurd rfl hwin
  | _ => decide

theorem owned_custom (h : Inv s) (keycode : Int32)
    (hunmixed : Unmixed s (.processCustomKeyEvent keycode)) :
    Owned (s.mapper.processCustomKeyEvent keycode).1.pressed
      (hold s.held (keyEvents (s.mapper.processCustomKeyEvent keycode).2)) := by
  -- a key that is no toggle resets the modifiers
  have hreset : ∀ calls, Momentary (keyEvents calls) →
      (∀ key, s.mapper.pressed key = true → s.mapper.locked key = false →
        takesBack s.mapper key (.processCustomKeyEvent keycode) = some .left) →
      Owned (s.mapper.resetModifierKeysAfterInput false).1.pressed
        (hold s.held (keyEvents (calls ++ (s.mapper.resetModifierKeysAfterInput false).2))) := by
    intro calls hcalls hback
    rw [keyEvents_append, hold_append]
    apply owned_reset (h.owned.momentary hcalls)
    intro key hresets hwin
    rw [resets, Bool.or_false, Bool.and_eq_true, Bool.not_eq_true'] at hresets
    apply hcalls.eq_false
    exact hunmixed.other hwin .left (hback key hresets.1 hresets.2)
  unfold processCustomKeyEvent
  dsimp only
  split_ifs with hzero htoggle hswitch hunicode
  · exact h.owned
  · apply owned_toggle h.owned
    intro key hkey hpressed _ hwin
    apply hunmixed.other hwin .left
    simp [takesBack, hpressed, hzero, htoggle, hkey]
  · apply h.owned.momentary
    unfold switchKeyboard
    split_ifs
    · exact momentary_nil
    · exact momentary_nil
    · exact momentary_nil
  · apply hreset [.processUnicodeKey _] momentary_nil
    intro key hpressed hlocked
    simp [takesBack, hpressed, hlocked, hzero, htoggle, hswitch]
  · apply hreset _ (momentary_tap _)
    intro key hpressed hlocked
    simp [takesBack, hpressed, hlocked, hzero, htoggle, hswitch]

/-- **Step lemma.**  An unmixed call keeps every key that is held accounted for. -/
theorem owned_call (h : Inv s) (a : MapperCall) (hunmixed : Unmixed s a) :
    Owned (call table s a).mapper.pressed (call table s a).held := by
  cases a with
  | processAndroidKeyEvent event =>
    show Owned (processAndroidKeyEvent table event s.mapper).mapper.pressed
      (hold s.held (keyEvents (processAndroidKeyEvent table event s.mapper).calls))
    unfold processAndroidKeyEvent
    cases haction : event.action with
    | up =>
      apply owned_up h.owned
      intro key side hphysical hwin hpressed hlocked
      apply hunmixed.other hwin side
      simp [takesBack, hpressed, hlocked, haction, hphysical, hwin]
    | down =>
      apply owned_down h.owned
      intro key hphysical hsends hpressed hlocked hwin
      apply hunmixed.other hwin .left
      simp [takesBack, hpressed, hlocked, haction, hphysical, hsends]
    | multiple =>
      exact h.owned.momentary (momentary_unicode _)
    | other => exact h.owned
  | processCustomKeyEvent keycode => exact owned_custom h keycode hunmixed
  | processCustomKeyLock keycode =>
    show Owned (processCustomKeyLock keycode s.mapper).mapper.pressed
      (hold s.held (keyEvents (processCustomKeyLock keycode s.mapper).calls))
    unfold processCustomKeyLock
    dsimp only
    split_ifs with htoggle
    · exact h.owned
    · apply owned_toggle h.owned
      intro key hkey hpressed hlocked hwin
      apply hunmixed.other hwin .left
      simp [takesBack, hpressed, hlocked rfl, htoggle, hkey]
  | clearlAllModifiers =>
    apply owned_reset h.owned
    intro key hresets hwin
    apply hunmixed.other hwin .left
    rw [resets, Bool.and_eq_true] at hresets
    exact if_pos hresets.1

/-- **Keys that are never mixed do not get stuck**: in a run in which no modifier is taken back
with one of its keys while the other is held, nothing is held once all physical modifiers are
up and the modifiers were cleared. -/
theorem unstuck_of_unmixed (table : CharacterTable) (m : KeyboardMapper) (as : List MapperCall)
    (h : EveryStep (step table) (fun s a _ => Unmixed s a) (start m) as) :
    EveryState (step table) Unstuck (start m) as := by
  refine everyState_of_everyStep (I := Inv) ?_ (fun _ => Inv.unstuck) (inv_start m) h
  intro s a t hs hstep hunmixed
  obtain rfl := Option.some.inj hstep
  exact ⟨owned_call hs a hunmixed, pressed_of_cleared hs a⟩

/-- Digits and capitals of ASCII only. -/
def asciiTable : CharacterTable where
  isDigit c := 0x30 ≤ c && c ≤ 0x39
  isUpperCase c := 0x41 ≤ c && c ≤ 0x5A

/-- An event of a modifier of the physical keyboard. -/
def modifierCall (action : KeyAction) (keyCode : Int32) : MapperCall :=
  .processAndroidKeyEvent { action, keyCode }

/-- An event of the letter A while a shift key is down. -/
def capitalCall (action : KeyAction) : MapperCall :=
  .processAndroidKeyEvent { action, keyCode := 29, unicodeChar := 0x41, isShiftPressed := true }

theorem unstuck_of_unmixed_left :
    EveryState (step asciiTable) Unstuck (start {})
      [modifierCall .down KEYCODE_SHIFT_LEFT, capitalCall .down, capitalCall .up,
        modifierCall .up KEYCODE_SHIFT_LEFT, .clearlAllModifiers] :=
  unstuck_of_unmixed asciiTable {} _ (by decide +kernel)

/-- A capital is typed with the right shift key. -/
def rightShiftRun : List MapperCall :=
  [modifierCall .down KEYCODE_SHIFT_RIGHT, capitalCall .down, capitalCall .up,
    modifierCall .up KEYCODE_SHIFT_RIGHT, .clearlAllModifiers]

/-- The letter takes the shift back with the left key, and the right one stays down. -/
theorem right_shift_stuck :
    ¬ ∀ table m as, EveryState (step table) Unstuck (start m) as := by
  intro h
  have hrun : run (step asciiTable) (start {}) rightShiftRun =
      some (rightShiftRun.foldl (call asciiTable) (start {})) := rfl
  have hunstuck := (h asciiTable {} rightShiftRun).last hrun
  have hheld := hunstuck (by decide +kernel) (by decide +kernel) VK_RSHIFT
  exact absurd hheld (by decide +kernel)

end KeyboardHost
