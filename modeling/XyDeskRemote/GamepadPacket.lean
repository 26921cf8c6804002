/-
# The gamepad packet

`XyGamepadPacketV1`: a frame of the virtual gamepad in 28 bytes.  A check that raises is `none`.

The two directions are inverse to each other (`gamepadPacket_bijective`): a frame that the checks
of `encode` admit is decoded as itself, and a packet that `decode` accepts is encoded again as it
is.
-/
import XyDeskRemote.ByteFields
import XyDeskRemote.VirtualPad

open ByteFields

namespace XyGamepadPacketV1

/-- The size of a packet. -/
def byteSize : ℕ := 28

/-- The version. -/
def version : ℕ := 1

/-- The type of a state. -/
def typeState : ℕ := 1

/-- `MAGIC`: `XYGP` in the order of the bytes. -/
def magic : ℕ := 0x50475958

/-- The check of `encode` on an axis. -/
def axisFits (axis : ℤ) : Bool := -32768 ≤ axis ∧ axis ≤ 32767

/-- The checks of `encode`. -/
def admits (sequence timestampMs : ℤ) (state : XyGamepadState) : Bool :=
  decide (0 ≤ sequence ∧ sequence ≤ uint32Max) &&
    decide (0 ≤ timestampMs ∧ timestampMs ≤ uint32Max) &&
    decide (0 ≤ state.buttons ∧ state.buttons ≤ 0xFFFF) &&
    (decide (0 ≤ state.leftTrigger ∧ state.leftTrigger ≤ 255) &&
      decide (0 ≤ state.rightTrigger ∧ state.rightTrigger ≤ 255)) &&
    (axisFits state.leftX && axisFits state.leftY && axisFits state.rightX && axisFits state.rightY)

/-- The widths of the fields of a packet. -/
def widths : List ℕ := [4, 1, 1, 2, 4, 4, 2, 1, 1, 2, 2, 2, 2]

/-- The fields that `encode` puts. -/
def fields (sequence timestampMs : ℤ) (state : XyGamepadState) : List (ℕ × ℤ) :=
  [(4, magic), (1, version), (1, typeState), (2, byteSize), (4, sequence), (4, timestampMs),
   (2, state.buttons), (1, state.leftTrigger), (1, state.rightTrigger),
   (2, state.leftX), (2, state.leftY), (2, state.rightX), (2, state.rightY)]

/-- `encode`. -/
def encode (sequence timestampMs : ℤ) (state : XyGamepadState) : Option (List UInt8) :=
  if admits sequence timestampMs state then
    some (putAll (fields sequence timestampMs state))
  else none

/-- `short.toInt()`, of the two bytes without a sign. -/
def signed (n : ℕ) : ℤ := if n < 32768 then n else n - 65536

/-- `decode`. -/
def decode (packet : List UInt8) : Option XyGamepadFrame :=
  if packet.length = byteSize then
    match getAll widths packet with
    | [m, v, t, size, sequence, timestampMs, buttons, leftTrigger, rightTrigger,
        leftX, leftY, rightX, rightY] =>
      if m = magic ∧ v = version ∧ t = typeState ∧ size = byteSize then
        some
          { sequence, timestampMs32 := timestampMs,
            state :=
              { buttons, leftTrigger, rightTrigger,
                leftX := signed leftX, leftY := signed leftY,
                rightX := signed rightX, rightY := signed rightY } }
      else none
    | _ => none
  else none

/-! ## Numbers in their ranges -/

/-- A signed number of 16 bits, through two bytes. -/
theorem signed_emod {axis : ℤ} (h : axisFits axis = true) :
    signed (axis % 256 ^ 2).toNat = axis := by
  rw [axisFits, decide_eq_true_iff] at h
  rw [signed]
  split
  all_goals omega

/-- Two bytes, through a signed number. -/
theorem emod_signed {n : ℕ} (h : n < 256 ^ 2) :
    axisFits (signed n) = true ∧ signed n % 256 ^ 2 = (n : ℤ) % 256 ^ 2 := by
  rw [axisFits, decide_eq_true_iff, signed]
  split
  all_goals omega

/-- A number without a sign, through its bytes. -/
theorem toNat_emod {x : ℤ} {width : ℕ} (h : 0 ≤ x) (hlt : x < 256 ^ width) :
    (((x % 256 ^ width).toNat : ℕ) : ℤ) = x := by
  rw [Int.emod_eq_of_lt h hlt, Int.toNat_of_nonneg h]

/-! ## The two directions -/

variable {sequence timestampMs : ℤ} {state : XyGamepadState}

/-- **A frame in its bytes** is decoded as itself. -/
theorem decode_encode (h : admits sequence timestampMs state = true) :
    (encode sequence timestampMs state).bind decode = some ⟨sequence, timestampMs, state⟩ := by
  have hlength : (putAll (fields sequence timestampMs state)).length = byteSize :=
    length_putAll _
  have hfields := getAll_putAll (fields sequence timestampMs state)
  rw [encode, if_pos h, Option.bind_some, decode, if_pos hlength]
  have hwidths : (fields sequence timestampMs state).map Prod.fst = widths := rfl
  rw [hwidths] at hfields
  simp only [admits, Bool.and_eq_true, decide_eq_true_eq] at h
  obtain ⟨⟨⟨⟨hsequence, htimestamp⟩, hbuttons⟩, hleft, hright⟩,
    ⟨⟨hleftX, hleftY⟩, hrightX⟩, hrightY⟩ := h
  rw [uint32Max] at hsequence htimestamp
  rw [hfields]
  simp only [fields, List.map_cons, List.map_nil]
  rw [if_pos (by decide), toNat_emod hsequence.1 (by omega), toNat_emod htimestamp.1 (by omega),
    toNat_emod hbuttons.1 (by omega), toNat_emod hleft.1 (by omega),
    toNat_emod hright.1 (by omega), signed_emod hleftX, signed_emod hleftY, signed_emod hrightX,
    signed_emod hrightY]

/-- **A packet that is accepted** is encoded again as it is. -/
theorem encode_decode {packet : List UInt8} {frame : XyGamepadFrame}
    (h : decode packet = some frame) :
    encode frame.sequence frame.timestampMs32 frame.state = some packet := by
  rw [decode] at h
  split at h
  next hlength =>
    have hagain := @putAll_getAll widths packet hlength
    have hranges := @getAll_lt widths packet
    split at h
    next m v t size sequence timestampMs buttons leftTrigger rightTrigger leftX leftY rightX rightY
        hfields =>
      split at h
      next hheader =>
        obtain ⟨rfl, rfl, rfl, rfl⟩ := hheader
        obtain rfl := Option.some.inj h
        rw [hfields] at hagain hranges
        simp only [widths, List.zip_cons_cons, List.zip_nil_right, List.forall_mem_cons] at hranges
        obtain ⟨-, -, -, -, hsequence, htimestamp, hbuttons, hleft, hright, hleftX, hleftY,
          hrightX, hrightY, -⟩ := hranges
        have hadmits : admits sequence timestampMs
            ⟨buttons, leftTrigger, rightTrigger, signed leftX, signed leftY, signed rightX,
              signed rightY⟩ = true := by
          have hmax : uint32Max = 4294967295 := rfl
          simp only [admits, Bool.and_eq_true, decide_eq_true_eq]
          refine ⟨⟨⟨⟨?_, ?_⟩, ?_⟩, ?_, ?_⟩, ⟨⟨(emod_signed hleftX).1, (emod_signed hleftY).1⟩,
            (emod_signed hrightX).1⟩, (emod_signed hrightY).1⟩
          all_goals omega
        rw [encode, if_pos hadmits, Option.some_inj, ← hagain, fields]
        simp only [widths, List.map_cons, List.map_nil, List.zip_cons_cons, List.zip_nil_right,
          putAll, List.flatMap_cons]
        rw [put_congr (emod_signed hleftX).2,
          put_congr (emod_signed hleftY).2,
          put_congr (emod_signed hrightX).2,
          put_congr (emod_signed hrightY).2]
      next => cases h
    next => cases h
  next => cases h

/-- **Encoding and decoding are inverse to each other.** -/
theorem gamepadPacket_bijective :
    (∀ (sequence timestampMs : ℤ) (state : XyGamepadState),
      admits sequence timestampMs state = true →
        (encode sequence timestampMs state).bind decode = some ⟨sequence, timestampMs, state⟩) ∧
    ∀ (packet : List UInt8) (frame : XyGamepadFrame), decode packet = some frame →
      encode frame.sequence frame.timestampMs32 frame.state = some packet :=
  ⟨fun _ _ _ h => decode_encode h, fun _ _ h => encode_decode h⟩

/-- A frame with a button, and signed axes at both ends. -/
theorem gamepadPacket_bijective_sample : ∃ packet : List UInt8,
    encode 1 4294967295 ⟨0x1000, 255, 0, -32768, 32767, -1, 0⟩ = some packet ∧
      decode packet = some ⟨1, 4294967295, ⟨0x1000, 255, 0, -32768, 32767, -1, 0⟩⟩ ∧
      encode 1 4294967295 ⟨0x1000, 255, 0, -32768, 32767, -1, 0⟩ = some packet := by
  have hdecode := gamepadPacket_bijective.1 1 4294967295 ⟨0x1000, 255, 0, -32768, 32767, -1, 0⟩
    (by decide)
  rw [Option.bind_eq_some_iff] at hdecode
  obtain ⟨packet, hencode, hdecode⟩ := hdecode
  exact ⟨packet, hencode, hdecode, gamepadPacket_bijective.2 packet _ hdecode⟩

end XyGamepadPacketV1
