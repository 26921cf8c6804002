/-
# Raw game input: the host's decoder

`HandleRawInputPacket` of the host agent turns an `XYI1` datagram into `SendInput`
calls.  The `INPUT` structures are modelled with the fields the code writes, the
other fields being zero (`INPUT inp{}`); what Windows does with one of them is
`InputEvent.action`.  `MapVirtualKeyA` belongs to Windows and is a parameter.

The client's encoder and this decoder agree (`handle_encode`), except that a key
without a scan code gets the scan code of the host's keyboard layout.
-/
import XyDeskRemote.RawInputCodec

open LittleEndian

/-! ## The part of the Windows input API that is used -/

def mouseeventfMove : UInt32 := 0x0001
def mouseeventfLeftDown : UInt32 := 0x0002
def mouseeventfLeftUp : UInt32 := 0x0004
def mouseeventfRightDown : UInt32 := 0x0008
def mouseeventfRightUp : UInt32 := 0x0010
def mouseeventfMiddleDown : UInt32 := 0x0020
def mouseeventfMiddleUp : UInt32 := 0x0040
def mouseeventfXDown : UInt32 := 0x0080
def mouseeventfXUp : UInt32 := 0x0100
def mouseeventfWheel : UInt32 := 0x0800
def mouseeventfAbsolute : UInt32 := 0x8000
def xButton1 : UInt32 := 0x0001
def xButton2 : UInt32 := 0x0002
def keyeventfKeyUp : UInt32 := 0x0002

/-- The mouse part of an `INPUT`. -/
structure MouseInput where
  dx : Int32 := 0
  dy : Int32 := 0
  mouseData : UInt32 := 0
  dwFlags : UInt32 := 0
  deriving DecidableEq

/-- The keyboard part of an `INPUT`. -/
structure KeybdInput where
  wVk : UInt16 := 0
  wScan : UInt16 := 0
  dwFlags : UInt32 := 0
  deriving DecidableEq

/-- An `INPUT` structure. -/
inductive InputEvent where
  | mouse (mi : MouseInput)
  | keyboard (ki : KeybdInput)
  deriving DecidableEq

/-- What Windows does with a mouse input. -/
def MouseInput.action (mi : MouseInput) : Option InputAction :=
  if mi.dwFlags = mouseeventfMove then some (.moveBy mi.dx.toInt mi.dy.toInt)
  else if mi.dwFlags = mouseeventfMove ||| mouseeventfAbsolute then
    some (.moveTo mi.dx.toInt mi.dy.toInt)
  else if mi.dwFlags = mouseeventfLeftDown then some (.button 0 true)
  else if mi.dwFlags = mouseeventfLeftUp then some (.button 0 false)
  else if mi.dwFlags = mouseeventfRightDown then some (.button 1 true)
  else if mi.dwFlags = mouseeventfRightUp then some (.button 1 false)
  else if mi.dwFlags = mouseeventfMiddleDown then some (.button 2 true)
  else if mi.dwFlags = mouseeventfMiddleUp then some (.button 2 false)
  else if mi.dwFlags = mouseeventfXDown then
    if mi.mouseData = xButton1 then some (.button 3 true)
    else if mi.mouseData = xButton2 then some (.button 4 true) else none
  else if mi.dwFlags = mouseeventfXUp then
    if mi.mouseData = xButton1 then some (.button 3 false)
    else if mi.mouseData = xButton2 then some (.button 4 false) else none
  else if mi.dwFlags = mouseeventfWheel then some (.wheel mi.mouseData.toInt32.toInt)
  else none

/-- What Windows does with an input. -/
def InputEvent.action : InputEvent → Option InputAction
  | mouse mi => mi.action
  | keyboard ki =>
    some (.key ki.wVk.toNat ki.wScan.toNat (ki.dwFlags &&& keyeventfKeyUp == 0))

/-! ## The decoder -/

/-- The flags and data of a mouse button; no flags for an unknown button. -/
def mouseButtonInput (btn : UInt8) (down : Bool) : MouseInput :=
  match btn.toNat with
  | 0 => { dwFlags := if down then mouseeventfLeftDown else mouseeventfLeftUp }
  | 1 => { dwFlags := if down then mouseeventfRightDown else mouseeventfRightUp }
  | 2 => { dwFlags := if down then mouseeventfMiddleDown else mouseeventfMiddleUp }
  | 3 =>
    { dwFlags := if down then mouseeventfXDown else mouseeventfXUp, mouseData := xButton1 }
  | 4 =>
    { dwFlags := if down then mouseeventfXDown else mouseeventfXUp, mouseData := xButton2 }
  | _ => {}

/-- The inputs a datagram of at least 12 bytes injects. -/
def injectedInputs (mapVirtualKeyA : UInt32 → UInt32) (rx : List UInt8) : List InputEvent :=
  let cmd := rx.getD 4 0
  let arg1 := int16At rx 6
  let arg2 := int16At rx 8
  if cmd = 0x01 then
    [.mouse { dx := arg1.toInt32, dy := arg2.toInt32, dwFlags := mouseeventfMove }]
  else if cmd = 0x06 then
    let xNorm := arg1.toUInt16
    let yNorm := arg2.toUInt16
    [.mouse { dx := xNorm.toUInt32.toInt32, dy := yNorm.toUInt32.toInt32,
              dwFlags := mouseeventfMove ||| mouseeventfAbsolute }]
  else if cmd = 0x02 then
    let mi := mouseButtonInput (rx.getD 5 0) (arg1 != 0)
    if mi.dwFlags ≠ 0 then [.mouse mi] else []
  else if cmd = 0x03 then
    -- the `int16_t` is sign extended to the `DWORD`
    [.mouse { dwFlags := mouseeventfWheel, mouseData := arg1.toInt32.toUInt32 }]
  else if cmd = 0x04 then
    let down := rx.getD 5 0 != 0
    let vk := arg1.toUInt16
    let scan := arg2.toUInt16
    let scan := if scan = 0 ∧ vk ≠ 0 then (mapVirtualKeyA vk.toUInt32).toUInt16 else scan
    [.keyboard { wVk := vk, wScan := scan, dwFlags := if down then 0 else keyeventfKeyUp }]
  else []

/-- The variables the handler keeps between datagrams. -/
structure RawInputHost where
  lastAckMs : UInt64 := 0
  packetsServed : UInt64 := 0

/-- What one datagram makes the handler do. -/
structure RawInputEffect where
  injected : List InputEvent := []
  ack : Option (List UInt8) := none

/-- `HandleRawInputPacket`, at the tick count `nowMs`, in a console session or not. -/
def handleRawInputPacket (mapVirtualKeyA : UInt32 → UInt32) (isConsole : Bool) (nowMs : UInt64)
    (s : RawInputHost) (rx : List UInt8) : RawInputHost × RawInputEffect :=
  if rx.length < 12 then (s, {})
  else
    let injected := injectedInputs mapVirtualKeyA rx
    let served := s.packetsServed + 1
    if rx.getD 4 0 = 0x05 ∨ nowMs - s.lastAckMs ≥ 250 then
      let flags : UInt8 := 0x01 ||| (if isConsole then 0x02 else 0x00)
      ({ lastAckMs := nowMs, packetsServed := served },
        { injected := injected, ack := some [0x58, 0x59, 0x49, 0x41, flags] })
    else ({ s with packetsServed := served }, { injected := injected })

/-- The acknowledgement has no influence on what is injected. -/
theorem handle_injected (mapVirtualKeyA : UInt32 → UInt32) (isConsole : Bool) (nowMs : UInt64)
    (s : RawInputHost) {rx : List UInt8} (h : rx.length = 12) :
    (handleRawInputPacket mapVirtualKeyA isConsole nowMs s rx).2.injected =
      injectedInputs mapVirtualKeyA rx := by
  unfold handleRawInputPacket
  rw [if_neg (by omega)]
  dsimp only
  split <;> rfl

/-! ## The two sides agree -/

/-- The scan code of an injected key: the host's own for a key without one. -/
def hostScanCode (mapVirtualKeyA : UInt32 → UInt32) (vk scanCode : Int) : Int :=
  if and0xFFFF scanCode = 0 ∧ and0xFFFF vk ≠ 0 then
    (mapVirtualKeyA (UInt32.ofNat (and0xFFFF vk).toNat)).toUInt16.toNat
  else and0xFFFF scanCode

/-- What a command makes the host do: what it means, a key without a scan code
getting the scan code of the host's keyboard layout. -/
def RawCommand.hostAction (mapVirtualKeyA : UInt32 → UInt32) : RawCommand → Option InputAction
  | keyVk vk down scanCode =>
    some (.key (and0xFFFF vk) (hostScanCode mapVirtualKeyA vk scanCode) down)
  | c => c.action

section Agreement

variable (mapVirtualKeyA : UInt32 → UInt32)

theorem inject_mouseRel (dx dy : Int) :
    (injectedInputs mapVirtualKeyA (encodeMouseRel dx dy)).map InputEvent.action =
      [(RawCommand.mouseRel dx dy).action] := by
  have hx := coerceIn_range (by omega : (-32768 : Int) ≤ 32767) dx
  have hy := coerceIn_range (by omega : (-32768 : Int) ≤ 32767) dy
  unfold injectedInputs encodeMouseRel
  rw [encodeCommand_cmd, encodeCommand_arg1, encodeCommand_arg2]
  show [some (InputAction.moveBy (Int16.ofInt _).toInt32.toInt (Int16.ofInt _).toInt32.toInt)] = _
  rw [Int16.toInt_toInt32, Int16.toInt_toInt32, toInt_ofInt_signed hx.1 hx.2,
    toInt_ofInt_signed hy.1 hy.2]
  rfl

/-- An unsigned 16-bit number as a `LONG`. -/
theorem toInt_toUInt32 (x : UInt16) : x.toUInt32.toInt32.toInt = x.toNat := by
  have hlt : x.toNat < 65536 := x.toNat_lt
  show x.toUInt32.toBitVec.toInt = x.toNat
  rw [BitVec.toInt_eq_toNat_of_lt]
  · exact congrArg Int.ofNat (UInt16.toNat_toUInt32 x)
  · show 2 * x.toUInt32.toNat < 2 ^ 32
    rw [UInt16.toNat_toUInt32]
    omega

theorem inject_mouseAbs (xNorm yNorm : Int) :
    (injectedInputs mapVirtualKeyA (encodeMouseAbs xNorm yNorm)).map InputEvent.action =
      [(RawCommand.mouseAbs xNorm yNorm).action] := by
  have hx := coerceIn_range (by omega : (0 : Int) ≤ 65535) xNorm
  have hy := coerceIn_range (by omega : (0 : Int) ≤ 65535) yNorm
  unfold injectedInputs encodeMouseAbs
  rw [encodeCommand_cmd, encodeCommand_arg1, encodeCommand_arg2]
  show [some (InputAction.moveTo (Int16.ofInt _).toUInt16.toUInt32.toInt32.toInt
    (Int16.ofInt _).toUInt16.toUInt32.toInt32.toInt)] = _
  rw [toInt_toUInt32, toInt_toUInt32, toNat_ofInt_unsigned hx.1 (by omega),
    toNat_ofInt_unsigned hy.1 (by omega)]
  rfl

/-- The five buttons, each with its direction. -/
theorem mouseButtonInput_action {button : Int} (hlo : 0 ≤ button) (hhi : button ≤ 4)
    (down : Bool) :
    (mouseButtonInput (UInt8.ofInt button) down).dwFlags ≠ 0 ∧
      (mouseButtonInput (UInt8.ofInt button) down).action = some (.button button down) := by
  have hcases : button = 0 ∨ button = 1 ∨ button = 2 ∨ button = 3 ∨ button = 4 := by omega
  rcases hcases with rfl | rfl | rfl | rfl | rfl <;> cases down <;> decide

theorem inject_mouseButton (button : Int) (down : Bool) :
    (injectedInputs mapVirtualKeyA (encodeMouseButton button down)).map InputEvent.action =
      [(RawCommand.mouseButton button down).action] := by
  have hb := coerceIn_range (by omega : (0 : Int) ≤ 4) button
  obtain ⟨hflags, haction⟩ := mouseButtonInput_action hb.1 hb.2 down
  have hdown : (Int16.ofInt (if down then 1 else 0) != 0) = down := by cases down <;> rfl
  unfold injectedInputs encodeMouseButton
  rw [encodeCommand_cmd, encodeCommand_param, encodeCommand_arg1, encodeCommand_arg2]
  dsimp only
  rw [hdown]
  show List.map InputEvent.action (if _ ≠ 0 then [InputEvent.mouse _] else []) = _
  rw [if_pos hflags, List.map_singleton]
  show [MouseInput.action _] = _
  rw [haction]
  rfl

theorem inject_mouseWheel (wheelDelta : Int) :
    (injectedInputs mapVirtualKeyA (encodeMouseWheel wheelDelta)).map InputEvent.action =
      [(RawCommand.mouseWheel wheelDelta).action] := by
  have hd := coerceIn_range (by omega : (-32768 : Int) ≤ 32767) wheelDelta
  unfold injectedInputs encodeMouseWheel
  rw [encodeCommand_cmd, encodeCommand_arg1, encodeCommand_arg2]
  show [some (InputAction.wheel (Int16.ofInt _).toInt32.toUInt32.toInt32.toInt)] = _
  rw [Int32.toInt32_toUInt32, Int16.toInt_toInt32, toInt_ofInt_signed hd.1 hd.2]
  rfl

/-- The unsigned reading of a masked argument. -/
theorem ofInt_and0xFFFF_toUInt16 (x : Int) :
    ((Int16.ofInt (and0xFFFF x)).toUInt16.toNat : Int) = and0xFFFF x :=
  toNat_ofInt_unsigned (and0xFFFF_range x).1 (and0xFFFF_range x).2

/-- The unsigned reading is zero exactly when the masked argument is. -/
theorem ofInt_and0xFFFF_eq_zero (x : Int) :
    (Int16.ofInt (and0xFFFF x)).toUInt16 = 0 ↔ and0xFFFF x = 0 := by
  rw [← UInt16.toNat_inj]
  have hval := ofInt_and0xFFFF_toUInt16 x
  show (Int16.ofInt (and0xFFFF x)).toUInt16.toNat = 0 ↔ _
  omega

theorem inject_keyVk (vk : Int) (down : Bool) (scanCode : Int) :
    (injectedInputs mapVirtualKeyA (encodeKeyVk vk down scanCode)).map InputEvent.action =
      [(RawCommand.keyVk vk down scanCode).hostAction mapVirtualKeyA] := by
  have hvk := ofInt_and0xFFFF_toUInt16 vk
  have hwide : (Int16.ofInt (and0xFFFF vk)).toUInt16.toUInt32 =
      UInt32.ofNat (and0xFFFF vk).toNat := by
    rw [← UInt32.toNat_inj, UInt16.toNat_toUInt32, UInt32.toNat_ofNat']
    have hrange := and0xFFFF_range vk
    omega
  have hdown : ((if down then (1 : UInt8) else 0) != 0) = down := by cases down <;> rfl
  have hdir : ∀ d : Bool,
      ((if d then (0 : UInt32) else keyeventfKeyUp) &&& keyeventfKeyUp == 0) = d := by decide
  unfold injectedInputs encodeKeyVk
  rw [encodeCommand_cmd, encodeCommand_param, encodeCommand_arg1, encodeCommand_arg2, hdown]
  show [some (InputAction.key _ _ _)] = [some (InputAction.key _ _ _)]
  dsimp only
  rw [hvk, hdir, hostScanCode, hwide]
  congr 3
  simp only [ne_eq, ofInt_and0xFFFF_eq_zero]
  split
  · rfl
  · exact ofInt_and0xFFFF_toUInt16 scanCode

theorem inject_ping :
    injectedInputs mapVirtualKeyA encodePing = [] := rfl

end Agreement

/-- **Encoder and decoder agree.**  Whatever the state of the host, the datagram of a
command makes it inject exactly one input, which does what the command means after
clamping, a zero scan code of a nonzero key being replaced by the host's own; a ping
injects nothing. -/
theorem handle_encode (mapVirtualKeyA : UInt32 → UInt32) (isConsole : Bool) (nowMs : UInt64)
    (s : RawInputHost) (c : RawCommand) :
    (handleRawInputPacket mapVirtualKeyA isConsole nowMs s c.encode).2.injected.map
        InputEvent.action =
      ((c.hostAction mapVirtualKeyA).map some).toList := by
  rw [handle_injected mapVirtualKeyA isConsole nowMs s c.encode_framed.1]
  cases c with
  | mouseRel dx dy => exact inject_mouseRel mapVirtualKeyA dx dy
  | mouseAbs xNorm yNorm => exact inject_mouseAbs mapVirtualKeyA xNorm yNorm
  | mouseButton button down => exact inject_mouseButton mapVirtualKeyA button down
  | mouseWheel wheelDelta => exact inject_mouseWheel mapVirtualKeyA wheelDelta
  | keyVk vk down scanCode => exact inject_keyVk mapVirtualKeyA vk down scanCode
  | ping => exact congrArg (List.map InputEvent.action) (inject_ping mapVirtualKeyA)

/-- The scan codes of a US keyboard, as far as the letter `A`. -/
def usLetterA (vk : UInt32) : UInt32 := if vk = 0x41 then 0x1E else 0

/-- A key without a scan code is not injected as it was encoded: the host looks the
scan code up. -/
theorem keyWithoutScanCode_lookedUp :
    (handleRawInputPacket usLetterA true 0 {} (encodeKeyVk 0x41 true 0)).2.injected.map
        InputEvent.action = [some (.key 0x41 0x1E true)] ∧
      [some (.key 0x41 0x1E true)] ≠
        ((RawCommand.keyVk 0x41 true 0).action.map some).toList := by
  decide
