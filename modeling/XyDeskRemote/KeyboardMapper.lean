/-
# The Android keyboard mapper

`KeyboardMapper` turns key events of Android, and the keys of the custom keyboards, into
virtual keys of Windows and unicode characters.  It keeps one flag for each modifier that is
down and one for each that is locked; physical keys, the toggles of the custom keyboard and
the reset after every other key share these flags.

Each handler returns the mapper afterwards and the calls on the listener, in order.  The
listener is the one `reset` was given.
-/
import XyDeskRemote.HeldKeys

/-! ## Key codes -/

/-- A call on `KeyProcessingListener`. -/
inductive KeyProcessingCall where
  | processVirtualKey (virtualKeyCode : Int32) (down : Bool)
  | processUnicodeKey (unicodeKey : Int32)
  | switchKeyboard (keyboardType : Int32)
  | modifiersChanged
  deriving DecidableEq

/-- The modifiers that have a flag. -/
inductive ModifierKey where
  | shift
  | ctrl
  | alt
  | win
  deriving DecidableEq

/-- Which of two physical keys. -/
inductive KeySide where
  | left
  | right
  deriving DecidableEq

/-- The other key. -/
def KeySide.other : KeySide → KeySide
  | left => right
  | right => left

namespace VirtualKey

def VK_LWIN : Int32 := 0x5B
def VK_LSHIFT : Int32 := 0xA0
def VK_RSHIFT : Int32 := 0xA1
def VK_LCONTROL : Int32 := 0xA2
def VK_RCONTROL : Int32 := 0xA3
def VK_LMENU : Int32 := 0xA4
def VK_RMENU : Int32 := 0xA5
def VK_EXT_KEY : Int32 := 0x100
def EXTKEY_KBFUNCTIONKEYS : Int32 := 0x1100
def EXTKEY_KBNUMPAD : Int32 := 0x1101
def KEY_FLAG_UNICODE : Int32 := 0x80000000
def KEY_FLAG_TOGGLE : Int32 := 0x40000000

end VirtualKey

namespace AndroidKeyCode

def KEYCODE_0 : Int32 := 7
def KEYCODE_9 : Int32 := 16
def KEYCODE_ALT_LEFT : Int32 := 57
def KEYCODE_ALT_RIGHT : Int32 := 58
def KEYCODE_SHIFT_LEFT : Int32 := 59
def KEYCODE_SHIFT_RIGHT : Int32 := 60
def KEYCODE_CTRL_LEFT : Int32 := 113
def KEYCODE_CTRL_RIGHT : Int32 := 114
def KEYCODE_META_LEFT : Int32 := 117
def KEYCODE_META_RIGHT : Int32 := 118

end AndroidKeyCode

open VirtualKey AndroidKeyCode

/-- The action of a key event. -/
inductive KeyAction where
  | down
  | up
  | multiple
  | other
  deriving DecidableEq

/-- What the mapper reads of an `android.view.KeyEvent`. -/
structure AndroidKeyEvent where
  action : KeyAction
  keyCode : Int32
  unicodeChar : Int32 := 0
  isCtrlPressed : Bool := false
  isAltPressed : Bool := false
  isShiftPressed : Bool := false
  isSymPressed : Bool := false
  characters : Option (List UInt16) := none
  deriving DecidableEq

/-- `Character.isDigit` and `Character.isUpperCase`, which follow the Unicode tables of the
machine. -/
structure CharacterTable where
  isDigit : Int32 → Bool
  isUpperCase : Int32 → Bool

/-- The fields of `KeyboardMapper`: `pressed .shift` is `shiftPressed`, `locked .shift` is
`isShiftLocked`, and so on. -/
structure KeyboardMapper where
  pressed : ModifierKey → Bool := fun _ => false
  locked : ModifierKey → Bool := fun _ => false
  isWinKeyDown : Bool := false
  isWinComboUsed : Bool := false

/-- What `processAndroidKeyEvent` and `processCustomKeyLock` leave: the mapper, the calls on
the listener and the answer. -/
structure ProcessedKey where
  mapper : KeyboardMapper
  calls : List KeyProcessingCall := []
  consumed : Bool := true

namespace KeyboardMapper

/-! ## The keymaps -/

/-- `n` keys in a row. -/
def keysFrom (n : ℕ) (keycode vk : Int32) : List (Int32 × Int32) :=
  (List.range n).map fun i => (keycode + .ofNat i, vk + .ofNat i)

/-- `ensureAndroidKeymapInitialized`: the entries of `keymapAndroid` that are not zero. -/
def keymapAndroid : List (Int32 × Int32) :=
  -- the digits and the letters
  keysFrom 10 7 0x30 ++ keysFrom 26 29 0x41 ++
  -- DEL, ENTER, SPACE, TAB, ESCAPE, CAPS_LOCK, MENU
  [(67, 0x08), (66, 0x0D), (62, 0x20), (61, 0x09), (111, 0x1B), (115, 0x14),
    (82, 0x5D ||| VK_EXT_KEY),
  -- DPAD_DOWN, DPAD_LEFT, DPAD_RIGHT, DPAD_UP
    (20, 0x28 ||| VK_EXT_KEY), (21, 0x25 ||| VK_EXT_KEY), (22, 0x27 ||| VK_EXT_KEY),
    (19, 0x26 ||| VK_EXT_KEY),
  -- MOVE_HOME, MOVE_END, PAGE_UP, PAGE_DOWN, FORWARD_DEL, INSERT
    (122, 0x24 ||| VK_EXT_KEY), (123, 0x23 ||| VK_EXT_KEY), (92, 0x21 ||| VK_EXT_KEY),
    (93, 0x22 ||| VK_EXT_KEY), (112, 0x2E ||| VK_EXT_KEY), (124, 0x2D ||| VK_EXT_KEY),
  -- MINUS, EQUALS, LEFT_BRACKET, RIGHT_BRACKET, BACKSLASH, SEMICOLON
    (69, 0xBD), (70, 0xBB), (71, 0xDB), (72, 0xDD), (73, 0xDC), (74, 0xBA),
  -- APOSTROPHE, GRAVE, COMMA, PERIOD, SLASH
    (75, 0xDE), (68, 0xC0), (55, 0xBC), (56, 0xBE), (76, 0xBF)] ++
  -- F1 to F12
  keysFrom 12 131 0x70 ++
  -- NUM_LOCK, SCROLL_LOCK, SYSRQ, BREAK
  [(143, 0x90), (116, 0x91), (120, 0x2C ||| VK_EXT_KEY), (121, 0x13)] ++
  -- NUMPAD_0 to NUMPAD_9
  keysFrom 10 144 0x60 ++
  -- NUMPAD_DIVIDE, _MULTIPLY, _SUBTRACT, _ADD, _DOT, _COMMA, _ENTER
  [(154, 0x6F ||| VK_EXT_KEY), (155, 0x6A), (156, 0x6D), (157, 0x6B), (158, 0x6E), (159, 0x6E),
    (160, 0x0D ||| VK_EXT_KEY),
  -- NUMPAD_EQUALS, NUMPAD_LEFT_PAREN, NUMPAD_RIGHT_PAREN
    (161, KEY_FLAG_UNICODE ||| 61), (162, KEY_FLAG_UNICODE ||| 40),
    (163, KEY_FLAG_UNICODE ||| 41),
  -- STAR, PLUS, AT, POUND
    (17, 0x6A), (81, KEY_FLAG_UNICODE ||| 0x2B), (77, KEY_FLAG_UNICODE ||| 0x40),
    (18, KEY_FLAG_UNICODE ||| 0x23)]

/-- `init`: the entries of `keymapExt` that are not zero, with the key codes of
`integers.xml`. -/
def keymapExt : List (Int32 × Int32) :=
  -- F1 to F12
  keysFrom 12 0x1E 0x70 ++
  -- tab, print, insert, delete, home, end, pgup, pgdn
  [(0x2A, 0x09), (0x2B, 0x2A), (0x2C, 0x2D ||| VK_EXT_KEY), (0x2D, 0x2E ||| VK_EXT_KEY),
    (0x2E, 0x24 ||| VK_EXT_KEY), (0x2F, 0x23 ||| VK_EXT_KEY), (0x30, 0x21 ||| VK_EXT_KEY),
    (0x31, 0x22 ||| VK_EXT_KEY)] ++
  -- numpad_0 to numpad_9
  keysFrom 10 0x0A 0x60 ++
  -- numpad_numlock, numpad_add, numpad_comma, comma, numpad_divide, numpad_enter
  [(0x1B, 0x90), (0x14, 0x6B), (0x15, 0x6E), (0x46, 0xBC), (0x16, 0x6F ||| VK_EXT_KEY),
    (0x17, 0x0D ||| VK_EXT_KEY),
  -- numpad_multiply, numpad_subtract, numpad_equals, numpad_left_paren, numpad_right_paren
    (0x18, 0x6A), (0x19, 0x6D), (0x1A, KEY_FLAG_UNICODE ||| 61), (0x1C, KEY_FLAG_UNICODE ||| 40),
    (0x1D, KEY_FLAG_UNICODE ||| 41),
  -- up, down, left, right, enter, backspace
    (0x32, 0x26 ||| VK_EXT_KEY), (0x33, 0x28 ||| VK_EXT_KEY), (0x34, 0x25 ||| VK_EXT_KEY),
    (0x45, 0x27 ||| VK_EXT_KEY), (0x01, 0x0D ||| VK_EXT_KEY), (0x02, 0x08),
  -- win, menu, esc
    (0x03, VK_LWIN ||| VK_EXT_KEY), (0x04, 0x5D ||| VK_EXT_KEY), (0x05, 0x1B),
  -- specialkeys_keyboard, numpad_keyboard
    (0xF3, EXTKEY_KBFUNCTIONKEYS), (0xF2, EXTKEY_KBNUMPAD),
  -- toggle_shift, toggle_ctrl, toggle_alt, toggle_win
    (0x08, KEY_FLAG_TOGGLE ||| VK_LSHIFT), (0x07, KEY_FLAG_TOGGLE ||| VK_LCONTROL),
    (0x09, KEY_FLAG_TOGGLE ||| VK_LMENU), (0x06, KEY_FLAG_TOGGLE ||| VK_LWIN)]

/-- No key is assigned twice, so the order of the assignments does not matter. -/
example : (keymapAndroid.map Prod.fst).Nodup ∧ (keymapExt.map Prod.fst).Nodup := by
  decide +kernel

/-- `getVirtualKeyCode`. -/
def getVirtualKeyCode (keycode : Int32) : Int32 :=
  if 0 ≤ keycode ∧ keycode ≤ 0xFF then (keymapAndroid.lookup keycode).getD 0 else 0

/-- `getExtendedKeyCode`. -/
def getExtendedKeyCode (keycode : Int32) : Int32 :=
  if 0 ≤ keycode ∧ keycode ≤ 0xFF then (keymapExt.lookup keycode).getD 0 else 0

/-- The modifier and the side of a physical modifier key. -/
def physicalModifier (keycode : Int32) : Option (ModifierKey × KeySide) :=
  if keycode = KEYCODE_META_LEFT then some (.win, .left)
  else if keycode = KEYCODE_META_RIGHT then some (.win, .right)
  else if keycode = KEYCODE_CTRL_LEFT then some (.ctrl, .left)
  else if keycode = KEYCODE_CTRL_RIGHT then some (.ctrl, .right)
  else if keycode = KEYCODE_SHIFT_LEFT then some (.shift, .left)
  else if keycode = KEYCODE_SHIFT_RIGHT then some (.shift, .right)
  else if keycode = KEYCODE_ALT_LEFT then some (.alt, .left)
  else if keycode = KEYCODE_ALT_RIGHT then some (.alt, .right)
  else none

/-- The virtual key of a modifier; both Windows keys send the left one. -/
def modifierVk : ModifierKey → KeySide → Int32
  | .shift, .left => VK_LSHIFT
  | .shift, .right => VK_RSHIFT
  | .ctrl, .left => VK_LCONTROL
  | .ctrl, .right => VK_RCONTROL ||| VK_EXT_KEY
  | .alt, .left => VK_LMENU
  | .alt, .right => VK_RMENU ||| VK_EXT_KEY
  | .win, _ => VK_LWIN ||| VK_EXT_KEY

/-- The modifier that `processToggleButton` finds for a key code. -/
def toggledModifier (keycode : Int32) : Option ModifierKey :=
  if keycode = VK_LSHIFT then some .shift
  else if keycode = VK_LCONTROL then some .ctrl
  else if keycode = VK_LMENU then some .alt
  else if keycode = VK_LWIN then some .win
  else none

/-! ## Modifiers -/

/-- One of the four modifiers is down. -/
def isModifierPressed (m : KeyboardMapper) : Bool :=
  m.pressed .shift || m.pressed .ctrl || m.pressed .alt || m.pressed .win

/-- `reset`: no modifier is down or locked. -/
def reset (m : KeyboardMapper) : KeyboardMapper :=
  { m with pressed := fun _ => false, isWinKeyDown := false, isWinComboUsed := false }

/-- A flag of `pressed` is set. -/
def setPressed (key : ModifierKey) (down : Bool) (m : KeyboardMapper) : KeyboardMapper :=
  { m with pressed := Function.update m.pressed key down }

/-- The modifiers that `resetModifierKeysAfterInput` releases. -/
def resets (force : Bool) (m : KeyboardMapper) (key : ModifierKey) : Bool :=
  m.pressed key && (!m.locked key || force)

/-- `resetModifierKeysAfterInput`: all modifiers, or those not locked. -/
def resetModifierKeysAfterInput (force : Bool) (m : KeyboardMapper) :
    KeyboardMapper × List KeyProcessingCall :=
  let released := [ModifierKey.shift, .ctrl, .alt, .win].filter (m.resets force)
  ({ m with
      pressed := fun key => m.pressed key && !m.resets force key
      locked := if force then fun _ => false else m.locked },
    released.map (fun key => .processVirtualKey (modifierVk key .left) false) ++
      [.modifiersChanged])

/-- `clearlAllModifiers`. -/
def clearlAllModifiers (m : KeyboardMapper) : KeyboardMapper × List KeyProcessingCall :=
  m.resetModifierKeysAfterInput true

/-- `applyModifier`: the new state of the flag, reported on a real change. -/
def applyModifier (vk : Int32) (pressed locked lock : Bool) : Bool × List KeyProcessingCall :=
  let target := if lock then locked else !pressed
  (target, if target ≠ pressed then [.processVirtualKey vk target] else [])

/-- `processToggleButton`: a modifier of the custom keyboard. -/
def processToggleButton (keycode : Int32) (lock : Bool) (m : KeyboardMapper) :
    KeyboardMapper × List KeyProcessingCall :=
  match toggledModifier keycode with
  | none => (m, [.modifiersChanged])
  | some key =>
    let isLocked := lock && !m.locked key
    let applied := applyModifier (modifierVk key .left) (m.pressed key) isLocked lock
    ({ m with
        locked := Function.update m.locked key isLocked
        pressed := Function.update m.pressed key applied.1 },
      applied.2 ++ [.modifiersChanged])

/-! ## Events of Android -/

/-- `processAndroidKeyEvent`, ACTION_UP. -/
def processKeyUp (event : AndroidKeyEvent) (m : KeyboardMapper) : ProcessedKey :=
  match physicalModifier event.keyCode with
  | some (.win, _) =>
    if m.isWinKeyDown then
      { mapper := { m with isWinKeyDown := false, isWinComboUsed := false }
        calls :=
          if m.isWinComboUsed then []
          else [.processVirtualKey (VK_LWIN ||| VK_EXT_KEY) true,
            .processVirtualKey (VK_LWIN ||| VK_EXT_KEY) false] }
    else { mapper := m }
  | some (key, side) =>
    if m.pressed key && !m.locked key then
      { mapper := m.setPressed key false
        calls := [.processVirtualKey (modifierVk key side) false] }
    else { mapper := m }
  | none =>
    { mapper := m
      consumed := getVirtualKeyCode event.keyCode ≠ 0 || event.unicodeChar ≠ 0 }

/-- A modifier of the event is held around the calls, when it is sent. -/
def around (send : Bool) (vk : Int32) (calls : List KeyProcessingCall) :
    List KeyProcessingCall :=
  if send then .processVirtualKey vk true :: calls ++ [.processVirtualKey vk false] else calls

/-- The virtual key with the modifiers of the event that the mapper has not sent down. -/
def chord (table : CharacterTable) (event : AndroidKeyEvent) (vkcode : Int32)
    (m : KeyboardMapper) : List KeyProcessingCall :=
  let sendCtrl := !m.pressed .ctrl && event.isCtrlPressed
  let sendAlt := !m.pressed .alt && event.isAltPressed
  let sendWin := !m.pressed .win && m.isWinKeyDown
  let sendShift := !m.pressed .shift && (event.isShiftPressed ||
    (0 < event.unicodeChar && table.isUpperCase event.unicodeChar))
  around sendCtrl VK_LCONTROL <| around sendAlt VK_LMENU <|
    around sendWin (VK_LWIN ||| VK_EXT_KEY) <| around sendShift VK_LSHIFT
      [.processVirtualKey vkcode true, .processVirtualKey vkcode false]

/-- What a key that is no modifier sends; `none` for a key that is not handled. -/
def typedKey (table : CharacterTable) (event : AndroidKeyEvent) (m : KeyboardMapper) :
    Option (List KeyProcessingCall) :=
  let hasNonShiftModifier :=
    m.isModifierPressed || event.isCtrlPressed || event.isAltPressed || m.isWinKeyDown
  let vkcode := getVirtualKeyCode event.keyCode
  if vkcode &&& KEY_FLAG_UNICODE ≠ 0 then
    some [.processUnicodeKey (vkcode &&& ~~~KEY_FLAG_UNICODE)]
  else if !hasNonShiftModifier && !event.isShiftPressed && KEYCODE_0 ≤ event.keyCode &&
      event.keyCode ≤ KEYCODE_9 && 0 < event.unicodeChar && !table.isDigit event.unicodeChar then
    some [.processUnicodeKey event.unicodeChar]
  else if 0 < vkcode && !event.isSymPressed then some (chord table event vkcode m)
  else if event.unicodeChar ≠ 0 then some [.processUnicodeKey event.unicodeChar]
  else none

/-- `processAndroidKeyEvent`, ACTION_DOWN. -/
def processKeyDown (table : CharacterTable) (event : AndroidKeyEvent) (m : KeyboardMapper) :
    ProcessedKey :=
  match physicalModifier event.keyCode with
  | some (.win, _) => { mapper := { m with isWinKeyDown := true, isWinComboUsed := false } }
  | some (key, side) =>
    if m.pressed key then { mapper := m }
    else
      { mapper := m.setPressed key true
        calls := [.processVirtualKey (modifierVk key side) true] }
  | none =>
    let m₁ : KeyboardMapper :=
      { m with isWinComboUsed := m.isWinKeyDown || m.isWinComboUsed }
    match typedKey table event m₁ with
    | none => { mapper := m₁, consumed := false }
    | some calls =>
      if m.isModifierPressed then
        let after := m₁.resetModifierKeysAfterInput false
        { mapper := after.1, calls := calls ++ after.2 }
      else { mapper := m₁, calls }

/-- `processAndroidKeyEvent`. -/
def processAndroidKeyEvent (table : CharacterTable) (event : AndroidKeyEvent)
    (m : KeyboardMapper) : ProcessedKey :=
  match event.action with
  | .up => processKeyUp event m
  | .down => processKeyDown table event m
  | .multiple =>
    { mapper := m
      calls := (event.characters.getD []).map fun c => .processUnicodeKey (.ofNat c.toNat) }
  | .other => { mapper := m, consumed := false }

/-! ## Keys of the custom keyboards -/

/-- A key that changes to another custom keyboard. -/
def switchKeyboard (keycode : Int32) : List KeyProcessingCall :=
  if keycode = EXTKEY_KBFUNCTIONKEYS then [.switchKeyboard 1]
  else if keycode = EXTKEY_KBNUMPAD then [.switchKeyboard 2]
  else []

/-- `processCustomKeyEvent`. -/
def processCustomKeyEvent (keycode : Int32) (m : KeyboardMapper) :
    KeyboardMapper × List KeyProcessingCall :=
  let extCode := getExtendedKeyCode keycode
  if extCode = 0 then (m, [])
  else if extCode &&& KEY_FLAG_TOGGLE ≠ 0 then
    m.processToggleButton (extCode &&& ~~~KEY_FLAG_TOGGLE) false
  else if extCode = EXTKEY_KBFUNCTIONKEYS ∨ extCode = EXTKEY_KBNUMPAD then
    (m, switchKeyboard extCode)
  else
    let calls :=
      if extCode &&& KEY_FLAG_UNICODE ≠ 0 then
        [.processUnicodeKey (extCode &&& ~~~KEY_FLAG_UNICODE)]
      else [.processVirtualKey extCode true, .processVirtualKey extCode false]
    let after := m.resetModifierKeysAfterInput false
    (after.1, calls ++ after.2)

/-- A long press: only modifiers are locked. -/
def processCustomKeyLock (keycode : Int32) (m : KeyboardMapper) : ProcessedKey :=
  let extCode := getExtendedKeyCode keycode
  if extCode &&& KEY_FLAG_TOGGLE = 0 then { mapper := m, consumed := false }
  else
    let after := m.processToggleButton (extCode &&& ~~~KEY_FLAG_TOGGLE) true
    { mapper := after.1, calls := after.2 }

end KeyboardMapper
