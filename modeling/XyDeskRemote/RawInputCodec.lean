/-
# Raw game input: the client's encoder

`XyRawGameInputBridge` sends each input command as a 12 byte `XYI1` datagram.  The
encoders are modelled on the bytes they put; their `Int` arguments are arbitrary
integers.  A `RawCommand` is a call of one of them, and `RawCommand.action` says
what the command means: the arguments after the clamping the encoders document.
-/
import XyDeskRemote.ByteBuffer

/-! ## Kotlin conversions -/

/-- `x.coerceIn(lo, hi)`. -/
def coerceIn (x lo hi : Int) : Int :=
  if x < lo then lo else if hi < x then hi else x

/-- `x and 0xFFFF`. -/
def and0xFFFF (x : Int) : Int := x % 65536

/-- `putShort(x.toShort())` into a little-endian buffer. -/
def putShort (x : Int) : List UInt8 := LittleEndian.encodeInt16 (Int16.ofInt x)

theorem coerceIn_range {lo hi : Int} (h : lo ≤ hi) (x : Int) :
    lo ≤ coerceIn x lo hi ∧ coerceIn x lo hi ≤ hi := by
  unfold coerceIn
  split
  · omega
  · split <;> omega

theorem and0xFFFF_range (x : Int) : 0 ≤ and0xFFFF x ∧ and0xFFFF x < 65536 := by
  unfold and0xFFFF
  omega

/-! ## The encoders -/

def cmdMouseRel : UInt8 := 0x01
def cmdMouseBtn : UInt8 := 0x02
def cmdMouseWheel : UInt8 := 0x03
def cmdKeyVk : UInt8 := 0x04
def cmdPing : UInt8 := 0x05
def cmdMouseAbs : UInt8 := 0x06

/-- The layout the encoders share: `XYI1`, the command, a byte and three shorts. -/
def encodeCommand (cmd param : UInt8) (arg1 arg2 : Int) : List UInt8 :=
  [0x58, 0x59, 0x49, 0x31, cmd, param] ++ putShort arg1 ++ putShort arg2 ++ putShort 0

/-- A relative move. -/
def encodeMouseRel (dx dy : Int) : List UInt8 :=
  encodeCommand cmdMouseRel 0 (coerceIn dx (-32768) 32767) (coerceIn dy (-32768) 32767)

/-- An absolute move. -/
def encodeMouseAbs (xNorm yNorm : Int) : List UInt8 :=
  encodeCommand cmdMouseAbs 0 (coerceIn xNorm 0 65535) (coerceIn yNorm 0 65535)

/-- A button. -/
def encodeMouseButton (button : Int) (down : Bool) : List UInt8 :=
  encodeCommand cmdMouseBtn (UInt8.ofInt (coerceIn button 0 4)) (if down then 1 else 0) 0

/-- The wheel. -/
def encodeMouseWheel (wheelDelta : Int) : List UInt8 :=
  encodeCommand cmdMouseWheel 0 (coerceIn wheelDelta (-32768) 32767) 0

/-- A key. -/
def encodeKeyVk (vk : Int) (down : Bool) (scanCode : Int) : List UInt8 :=
  encodeCommand cmdKeyVk (if down then 1 else 0) (and0xFFFF vk) (and0xFFFF scanCode)

/-- Only five bytes are put; the rest of the buffer stays zero. -/
def encodePing : List UInt8 := [0x58, 0x59, 0x49, 0x31, cmdPing] ++ List.replicate 7 0

/-! ## Commands and what they mean -/

/-- A call of one of the encoders. -/
inductive RawCommand where
  | mouseRel (dx dy : Int)
  | mouseAbs (xNorm yNorm : Int)
  | mouseButton (button : Int) (down : Bool)
  | mouseWheel (wheelDelta : Int)
  | keyVk (vk : Int) (down : Bool) (scanCode : Int)
  | ping
  deriving DecidableEq

/-- The datagram of a command. -/
def RawCommand.encode : RawCommand → List UInt8
  | mouseRel dx dy => encodeMouseRel dx dy
  | mouseAbs xNorm yNorm => encodeMouseAbs xNorm yNorm
  | mouseButton button down => encodeMouseButton button down
  | mouseWheel wheelDelta => encodeMouseWheel wheelDelta
  | keyVk vk down scanCode => encodeKeyVk vk down scanCode
  | ping => encodePing

/-- What the user did, in plain numbers. -/
inductive InputAction where
  | moveBy (dx dy : Int)
  | moveTo (x y : Int)
  | button (index : Int) (down : Bool)
  | wheel (delta : Int)
  | key (vk scan : Int) (down : Bool)
  deriving DecidableEq

/-- The meaning of a command: its arguments after the documented clamping. -/
def RawCommand.action : RawCommand → Option InputAction
  | mouseRel dx dy => some (.moveBy (coerceIn dx (-32768) 32767) (coerceIn dy (-32768) 32767))
  | mouseAbs xNorm yNorm => some (.moveTo (coerceIn xNorm 0 65535) (coerceIn yNorm 0 65535))
  | mouseButton button down => some (.button (coerceIn button 0 4) down)
  | mouseWheel wheelDelta => some (.wheel (coerceIn wheelDelta (-32768) 32767))
  | keyVk vk down scanCode => some (.key (and0xFFFF vk) (and0xFFFF scanCode) down)
  | ping => none

/-! ## The layout, read back -/

open LittleEndian

section Layout

variable (cmd param : UInt8) (arg1 arg2 : Int)

@[simp] theorem encodeCommand_cmd : (encodeCommand cmd param arg1 arg2).getD 4 0 = cmd := rfl

@[simp] theorem encodeCommand_param : (encodeCommand cmd param arg1 arg2).getD 5 0 = param := rfl

@[simp] theorem encodeCommand_arg1 :
    int16At (encodeCommand cmd param arg1 arg2) 6 = Int16.ofInt arg1 :=
  int16At_of_bytes rfl rfl

@[simp] theorem encodeCommand_arg2 :
    int16At (encodeCommand cmd param arg1 arg2) 8 = Int16.ofInt arg2 :=
  int16At_of_bytes rfl rfl

end Layout

/-- A datagram of any encoder has 12 bytes and starts with the magic. -/
theorem RawCommand.encode_framed (c : RawCommand) :
    c.encode.length = 12 ∧ c.encode.take 4 = [0x58, 0x59, 0x49, 0x31] := by
  cases c <;> exact ⟨rfl, rfl⟩

/-- A signed 16-bit number survives the trip through a short. -/
theorem toInt_ofInt_signed {x : Int} (hlo : -32768 ≤ x) (hhi : x ≤ 32767) :
    (Int16.ofInt x).toInt = x :=
  Int16.toInt_ofInt_of_le (by omega) (by omega)

/-- An unsigned 16-bit number survives it too, when it is read as unsigned. -/
theorem toNat_ofInt_unsigned {x : Int} (hlo : 0 ≤ x) (hhi : x < 65536) :
    ((Int16.ofInt x).toUInt16.toNat : Int) = x := by
  obtain ⟨n, rfl⟩ := Int.eq_ofNat_of_zero_le hlo
  have hn : n < 65536 := by omega
  have hword : (Int16.ofInt n).toUInt16 = UInt16.ofNat n := by
    apply UInt16.toBitVec_inj.1
    exact BitVec.ofInt_natCast 16 n
  rw [hword, UInt16.toNat_ofNat', Nat.mod_eq_of_lt hn]
