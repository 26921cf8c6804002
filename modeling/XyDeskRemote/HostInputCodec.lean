/-
# The input channel of the PC host

`XyHostInputCodec` has fifteen messages for the host's input channel: eight-byte ones
padded with zeros (`fixedMessage`), ones of exactly their payload (`exactMessage`) and text
(`variableMessage`).  An encoder whose check on its arguments raises is `none`.

A `HostInputCall` is a call of one of the encoders; `HostInputCall.event` is what it
says.
-/
import XyDeskRemote.Utf8RoundTrip
import XyDeskRemote.VirtualPad

open LittleEndian Utf8 UInt8

/-- The qualities of the video. -/
inductive XyHostVideoQuality where
  | auto | medium | high | ultra
  deriving DecidableEq

/-- The byte of a quality. -/
def XyHostVideoQuality.code : XyHostVideoQuality → Int
  | auto => 0
  | medium => 1
  | high => 2
  | ultra => 3

/-- The resolutions of the video. -/
inductive XyHostVideoResolution where
  | p720 | p1080 | native
  deriving DecidableEq

/-- The byte of a resolution. -/
def XyHostVideoResolution.code : XyHostVideoResolution → Int
  | p720 => 0
  | p1080 => 1
  | native => 2

/-- What the decoder gives, one event a message. -/
inductive XyHostInputEvent where
  | mouseMoveRel (dx dy : Int)
  | mouseMoveAbs (x y : Int)
  | mouseButton (button : Int) (down : Bool)
  | scroll (dx dy : Int)
  | key (vk : Int) (down : Bool)
  | text (value : CodeUnits)
  | displaySelect (index : Int)
  | clipboardSet (value : CodeUnits)
  | clipboardRequest
  | videoQuality (code : Int)
  | virtualDisplay (width height refreshHz count : Int)
  | videoBitrate (mbps : Int)
  | videoResolution (code : Int)
  | gamepad (state : XyGamepadState)
  | videoFps (fps : Int)
  deriving DecidableEq

namespace XyHostInputCodec

@[match_pattern] def tagMouseMoveRel : Nat := 0x01
@[match_pattern] def tagMouseMoveAbs : Nat := 0x02
@[match_pattern] def tagMouseButton : Nat := 0x03
@[match_pattern] def tagScroll : Nat := 0x04
@[match_pattern] def tagKey : Nat := 0x05
@[match_pattern] def tagText : Nat := 0x06
@[match_pattern] def tagDisplaySelect : Nat := 0x07
@[match_pattern] def tagClipboardSet : Nat := 0x08
@[match_pattern] def tagClipboardReq : Nat := 0x09
@[match_pattern] def tagVideoQuality : Nat := 0x0A
@[match_pattern] def tagVideoBitrate : Nat := 0x0B
@[match_pattern] def tagVideoResolution : Nat := 0x0C
@[match_pattern] def tagGamepad : Nat := 0x0E
@[match_pattern] def tagVideoFps : Nat := 0x0F
@[match_pattern] def tagVirtualDisplay : Nat := 0x10

/-- The size of a padded message. -/
def fixedEventBytes : Nat := 8

/-- The size of a virtual display message. -/
def virtualDisplayBytes : Nat := 7

/-- The size of a gamepad message. -/
def gamepadMessageBytes : Nat := 13

/-- The longest text. -/
def maxTextUnits : Nat := 4096

/-! ## Encoders -/

/-- `put(x.toByte())`. -/
def put (x : Int) : List UInt8 := [ofInt x]

/-- A first-generation message: always eight bytes, padded with zeros. -/
def fixedMessage (tag : Nat) (body : List UInt8) : List UInt8 :=
  (UInt8.ofNat tag :: body) ++ List.replicate (fixedEventBytes - (body.length + 1)) 0

/-- A message of exactly its payload. -/
def exactMessage (tag : Nat) (body : List UInt8) : List UInt8 := UInt8.ofNat tag :: body

/-- A text message. -/
def variableMessage (tag : Nat) (value : CodeUnits) : List UInt8 :=
  UInt8.ofNat tag :: javaEncode value

/-- `x in lo..hi`. -/
def within (x lo hi : Int) : Bool := lo ≤ x && x ≤ hi

/-- `require(check) { .. }`, then the message. -/
def require (check : Bool) (message : List UInt8) : Option (List UInt8) :=
  if check then some message else none

/-- A relative move. -/
def mouseMoveRel (dx dy : Int) : Option (List UInt8) :=
  require (within dx (-32768) 32767 && within dy (-32768) 32767)
    (fixedMessage tagMouseMoveRel (putShort dx ++ putShort dy))

/-- An absolute move. -/
def mouseMoveAbs (x y : Int) : Option (List UInt8) :=
  require (within x 0 65535 && within y 0 65535)
    (fixedMessage tagMouseMoveAbs (putShort x ++ putShort y))

/-- A mouse button. -/
def mouseButton (button : Int) (down : Bool) : Option (List UInt8) :=
  require (within button 0 4)
    (fixedMessage tagMouseButton (put button ++ put (if down then 1 else 0)))

/-- The wheel. -/
def scroll (dx dy : Int) : Option (List UInt8) :=
  require (within dx (-32768) 32767 && within dy (-32768) 32767)
    (fixedMessage tagScroll (putShort dx ++ putShort dy))

/-- A key by its virtual key code. -/
def key (vk : Int) (down : Bool) : Option (List UInt8) :=
  require (within vk 0 65535) (fixedMessage tagKey (putShort vk ++ put (if down then 1 else 0)))

/-- The loop of `clampTextUnits` with `units` units already taken: a surrogate pair is
taken whole or not at all. -/
def clampFrom (units : Nat) : CodeUnits → CodeUnits
  | [] => []
  | [ch] => if units + 1 > maxTextUnits then [] else [ch]
  | ch :: next :: rest =>
    if isHighSurrogate ch && isLowSurrogate next then
      if units + 2 > maxTextUnits then [] else ch :: next :: clampFrom (units + 2) rest
    else if units + 1 > maxTextUnits then [] else ch :: clampFrom (units + 1) (next :: rest)

/-- A text of at most `maxTextUnits`, without half a pair at its end. -/
def clampTextUnits (value : CodeUnits) : CodeUnits := clampFrom 0 value

/-- Typed text. -/
def text (value : CodeUnits) : List UInt8 := variableMessage tagText (clampTextUnits value)

/-- Which display is shown. -/
def displaySelect (index : Int) : Option (List UInt8) :=
  require (within index 0 255) (exactMessage tagDisplaySelect (put index))

/-- A text for the clipboard. -/
def clipboardSet (value : CodeUnits) : List UInt8 := variableMessage tagClipboardSet value

/-- A request for the text of the clipboard. -/
def clipboardRequest : List UInt8 := exactMessage tagClipboardReq []

/-- A quality for the video. -/
def videoQuality (quality : XyHostVideoQuality) : List UInt8 :=
  exactMessage tagVideoQuality (put quality.code)

/-- A bitrate; 0 is automatic. -/
def videoBitrate (mbps : Int) : Option (List UInt8) :=
  require (within mbps 0 50) (exactMessage tagVideoBitrate (putShort mbps))

/-- A resolution for the video. -/
def videoResolution (mode : XyHostVideoResolution) : List UInt8 :=
  exactMessage tagVideoResolution (put mode.code)

/-- A frame rate. -/
def videoFps (fps : Int) : Option (List UInt8) :=
  require (fps = 30 || fps = 60 || fps = 90 || fps = 120) (exactMessage tagVideoFps (put fps))

/-- A virtual display. -/
def virtualDisplay (width height refreshHz count : Int) : Option (List UInt8) :=
  require (within width 640 7680 && within height 480 4320 && within refreshHz 24 240 &&
      within count 1 4)
    (exactMessage tagVirtualDisplay
      (putShort width ++ putShort height ++ put refreshHz ++ put count))

/-- The state of a gamepad. -/
def gamepad (state : XyGamepadState) : Option (List UInt8) :=
  require (within state.buttons 0 0xFFFF &&
      (within state.leftTrigger 0 255 && within state.rightTrigger 0 255) &&
      (within state.leftX (-32768) 32767 && within state.leftY (-32768) 32767 &&
        within state.rightX (-32768) 32767 && within state.rightY (-32768) 32767))
    (exactMessage tagGamepad (putShort state.buttons ++ put state.leftTrigger ++
      put state.rightTrigger ++ putShort state.leftX ++ putShort state.leftY ++
      putShort state.rightX ++ putShort state.rightY))

/-! ## The decoder -/

/-- `data[i].toInt() and 0xFF`. -/
def byteAt (data : List UInt8) (i : Nat) : Int := (data.getD i 0).toNat

/-- Two bytes, the lower one first. -/
def le16 (data : List UInt8) (i : Nat) : Int :=
  LittleEndian.decode [data.getD i 0, data.getD (i + 1) 0]

/-- The same as a signed number. -/
def le16signed (data : List UInt8) (i : Nat) : Int := (Int16.ofInt (le16 data i)).toInt

/-- The text from a byte on. -/
def utf8 (data : List UInt8) (start : Nat) : CodeUnits := decode (data.drop start)

/-- `decode`: the event of a message. -/
def decode (data : List UInt8) : Option XyHostInputEvent :=
  if data.isEmpty then none
  else
    match (data.getD 0 0).toNat with
    | tagMouseMoveRel =>
      if data.length ≥ 5 then some (.mouseMoveRel (le16signed data 1) (le16signed data 3))
      else none
    | tagMouseMoveAbs =>
      if data.length ≥ 5 then some (.mouseMoveAbs (le16 data 1) (le16 data 3)) else none
    | tagMouseButton =>
      if data.length ≥ 3 then
        some (.mouseButton (data.getD 1 0).toInt8.toInt (data.getD 2 0 ≠ 0))
      else none
    | tagScroll =>
      if data.length ≥ 5 then some (.scroll (le16signed data 1) (le16signed data 3)) else none
    | tagKey =>
      if data.length ≥ 4 then some (.key (le16 data 1) (data.getD 3 0 ≠ 0)) else none
    | tagText => if data.length ≥ 2 then some (.text (utf8 data 1)) else none
    | tagDisplaySelect =>
      if data.length ≥ 2 then some (.displaySelect (byteAt data 1)) else none
    | tagClipboardSet => if data.length ≥ 1 then some (.clipboardSet (utf8 data 1)) else none
    | tagClipboardReq => if data.length ≥ 1 then some .clipboardRequest else none
    | tagVideoQuality => if data.length ≥ 2 then some (.videoQuality (byteAt data 1)) else none
    | tagVideoBitrate => if data.length ≥ 3 then some (.videoBitrate (le16 data 1)) else none
    | tagVideoResolution =>
      if data.length ≥ 2 then some (.videoResolution (byteAt data 1)) else none
    | tagGamepad =>
      if data.length ≥ gamepadMessageBytes then
        some (.gamepad
          { buttons := le16 data 1
            leftTrigger := byteAt data 3
            rightTrigger := byteAt data 4
            leftX := le16signed data 5
            leftY := le16signed data 7
            rightX := le16signed data 9
            rightY := le16signed data 11 })
      else none
    | tagVideoFps => if data.length ≥ 2 then some (.videoFps (byteAt data 1)) else none
    | tagVirtualDisplay =>
      if data.length ≥ virtualDisplayBytes then
        some (.virtualDisplay (le16 data 1) (le16 data 3) (byteAt data 5) (byteAt data 6))
      else none
    | _ => none

end XyHostInputCodec

/-! ## Calls -/

/-- A call of an encoder. -/
inductive HostInputCall where
  | mouseMoveRel (dx dy : Int)
  | mouseMoveAbs (x y : Int)
  | mouseButton (button : Int) (down : Bool)
  | scroll (dx dy : Int)
  | key (vk : Int) (down : Bool)
  | text (value : CodeUnits)
  | displaySelect (index : Int)
  | clipboardSet (value : CodeUnits)
  | clipboardRequest
  | videoQuality (quality : XyHostVideoQuality)
  | videoBitrate (mbps : Int)
  | videoResolution (mode : XyHostVideoResolution)
  | videoFps (fps : Int)
  | virtualDisplay (width height refreshHz count : Int)
  | gamepad (state : XyGamepadState)
  deriving DecidableEq

namespace HostInputCall

/-- The message of a call; `none` when the check on its arguments raises. -/
def encode : HostInputCall → Option (List UInt8)
  | mouseMoveRel dx dy => XyHostInputCodec.mouseMoveRel dx dy
  | mouseMoveAbs x y => XyHostInputCodec.mouseMoveAbs x y
  | mouseButton button down => XyHostInputCodec.mouseButton button down
  | scroll dx dy => XyHostInputCodec.scroll dx dy
  | key vk down => XyHostInputCodec.key vk down
  | text value => some (XyHostInputCodec.text value)
  | displaySelect index => XyHostInputCodec.displaySelect index
  | clipboardSet value => some (XyHostInputCodec.clipboardSet value)
  | clipboardRequest => some XyHostInputCodec.clipboardRequest
  | videoQuality quality => some (XyHostInputCodec.videoQuality quality)
  | videoBitrate mbps => XyHostInputCodec.videoBitrate mbps
  | videoResolution mode => some (XyHostInputCodec.videoResolution mode)
  | videoFps fps => XyHostInputCodec.videoFps fps
  | virtualDisplay width height refreshHz count =>
    XyHostInputCodec.virtualDisplay width height refreshHz count
  | gamepad state => XyHostInputCodec.gamepad state

/-- The event a call stands for. -/
def event : HostInputCall → XyHostInputEvent
  | mouseMoveRel dx dy => .mouseMoveRel dx dy
  | mouseMoveAbs x y => .mouseMoveAbs x y
  | mouseButton button down => .mouseButton button down
  | scroll dx dy => .scroll dx dy
  | key vk down => .key vk down
  | text value => .text value
  | displaySelect index => .displaySelect index
  | clipboardSet value => .clipboardSet value
  | clipboardRequest => .clipboardRequest
  | videoQuality quality => .videoQuality quality.code
  | videoBitrate mbps => .videoBitrate mbps
  | videoResolution mode => .videoResolution mode.code
  | videoFps fps => .videoFps fps
  | virtualDisplay width height refreshHz count => .virtualDisplay width height refreshHz count
  | gamepad state => .gamepad state

end HostInputCall

/-! ## Reading back what was put -/

namespace XyHostInputCodec

variable {data : List UInt8}

/-- The two bytes of a short, read as an unsigned number. -/
theorem le16_of_bytes {i : Nat} {x : Int}
    (hlo : data.getD i 0 = UInt8.ofNat (Int16.ofInt x).toUInt16.toNat)
    (hhi : data.getD (i + 1) 0 = UInt8.ofNat ((Int16.ofInt x).toUInt16.toNat / 256)) :
    le16 data i = ((Int16.ofInt x).toUInt16.toNat : Nat) := by
  have hlt : (Int16.ofInt x).toUInt16.toNat < 256 ^ 2 := UInt16.toNat_lt _
  rw [le16, hlo, hhi]
  show ((LittleEndian.decode (LittleEndian.encode 2 _) : Nat) : Int) = _
  rw [decode_encode_of_lt hlt]

/-- An unsigned argument of a short survives. -/
theorem le16_put {i : Nat} {x : Int} (h : within x 0 65535 = true)
    (hlo : data.getD i 0 = UInt8.ofNat (Int16.ofInt x).toUInt16.toNat)
    (hhi : data.getD (i + 1) 0 = UInt8.ofNat ((Int16.ofInt x).toUInt16.toNat / 256)) :
    le16 data i = x := by
  rw [within, Bool.and_eq_true, decide_eq_true_iff, decide_eq_true_iff] at h
  rw [le16_of_bytes hlo hhi, toNat_ofInt_unsigned h.1 (by omega)]

/-- A signed argument of a short survives. -/
theorem le16signed_put {i : Nat} {x : Int} (h : within x (-32768) 32767 = true)
    (hlo : data.getD i 0 = UInt8.ofNat (Int16.ofInt x).toUInt16.toNat)
    (hhi : data.getD (i + 1) 0 = UInt8.ofNat ((Int16.ofInt x).toUInt16.toNat / 256)) :
    le16signed data i = x := by
  rw [within, Bool.and_eq_true, decide_eq_true_iff, decide_eq_true_iff] at h
  have hword : Int16.ofInt ((Int16.ofInt x).toUInt16.toNat : Nat) = Int16.ofInt x := by
    apply Int16.toBitVec_inj.1
    show BitVec.ofInt 16 ((Int16.ofInt x).toBitVec.toNat : Nat) = (Int16.ofInt x).toBitVec
    rw [BitVec.ofInt_natCast, BitVec.ofNat_toNat, BitVec.setWidth_eq]
  rw [le16signed, le16_of_bytes hlo hhi, hword, toInt_ofInt_signed h.1 h.2]

/-- An argument of a byte survives. -/
theorem byteAt_put {i : Nat} {x : Int} (h : within x 0 255 = true)
    (hbyte : data.getD i 0 = ofInt x) : byteAt data i = x := by
  rw [within, Bool.and_eq_true, decide_eq_true_iff, decide_eq_true_iff] at h
  have hmod : x % 2 ^ 8 = x := Int.emod_eq_of_lt h.1 (by omega)
  rw [byteAt, hbyte, ofInt, hmod, toNat_ofNat', Nat.mod_eq_of_lt (by omega)]
  exact Int.toNat_of_nonneg h.1

/-- A smaller range of arguments. -/
theorem within_mono {x lo hi lo' hi' : Int} (h : within x lo hi = true) (hlo : lo' ≤ lo)
    (hhi : hi ≤ hi') : within x lo' hi' = true := by
  rw [within, Bool.and_eq_true, decide_eq_true_iff, decide_eq_true_iff] at h ⊢
  omega

/-- What an encoder whose check passes gives. -/
theorem require_eq_some {check : Bool} {message bytes : List UInt8} :
    require check message = some bytes ↔ check = true ∧ message = bytes := by
  rw [require, Option.ite_none_right_eq_some, Option.some_inj]

variable {value : CodeUnits}

/-- Text that fits is not cut. -/
theorem clampFrom_eq_self : ∀ {units : Nat},
    units + value.length ≤ maxTextUnits → clampFrom units value = value := by
  intro units h
  induction units, value using clampFrom.induct with
  | case1 units => rfl
  | case2 units ch hfull => exact absurd hfull (Nat.not_lt.2 h)
  | case3 units ch hroom => rw [clampFrom, if_neg hroom]
  | case4 units ch next rest hpair hfull =>
    rw [List.length_cons, List.length_cons] at h
    omega
  | case5 units ch next rest hpair hroom ih =>
    rw [List.length_cons, List.length_cons] at h
    rw [clampFrom, if_pos hpair, if_neg hroom, ih (by omega)]
  | case6 units ch next rest hpair hfull =>
    rw [List.length_cons, List.length_cons] at h
    omega
  | case7 units ch next rest hpair hroom ih =>
    rw [List.length_cons] at h
    rw [clampFrom, if_neg hpair, if_neg hroom, ih (by omega)]

theorem clampTextUnits_eq_self (h : value.length ≤ maxTextUnits) :
    clampTextUnits value = value :=
  clampFrom_eq_self (by omega)

/-- The bytes of a text that is not empty. -/
theorem javaEncode_length_pos (h : value ≠ []) :
    0 < (javaEncode value).length := by
  have hscalar : ∀ cp, 0 < (encodeScalar cp).length := by
    intro cp
    unfold encodeScalar
    split
    · exact Nat.succ_pos _
    · split
      · exact Nat.succ_pos _
      · split <;> exact Nat.succ_pos _
  cases value using javaEncode.induct with
  | case1 => exact absurd rfl h
  | case2 u hsurrogate =>
    rw [javaEncode, if_pos hsurrogate]
    decide
  | case3 u hplain =>
    rw [javaEncode, if_neg hplain]
    exact hscalar _
  | case4 u v rest hhigh hlow =>
    rw [javaEncode, if_pos hhigh, if_pos hlow, List.length_append]
    exact Nat.add_pos_left (hscalar _) _
  | case5 u v rest hhigh hlow =>
    rw [javaEncode, if_pos hhigh, if_neg hlow]
    exact Nat.succ_pos _
  | case6 u v rest hhigh hlow =>
    rw [javaEncode, if_neg hhigh, if_pos hlow]
    exact Nat.succ_pos _
  | case7 u v rest hhigh hlow =>
    rw [javaEncode, if_neg hhigh, if_neg hlow, List.length_append]
    exact Nat.add_pos_left (hscalar _) _

/-- A text message, read back. -/
theorem utf8_variableMessage (h : Utf8.WellFormed value) (tag : Nat) :
    utf8 (variableMessage tag value) 1 = value :=
  decode_javaEncode h

end XyHostInputCodec

open XyHostInputCodec

namespace HostInputCall

/-- The arguments are what the checks of the encoder ask for, and a text is one without lone
surrogates; typed text is not empty and at most as long as one message takes. -/
def Admitted : HostInputCall → Prop
  | mouseMoveRel dx dy | scroll dx dy =>
    -32768 ≤ dx ∧ dx ≤ 32767 ∧ -32768 ≤ dy ∧ dy ≤ 32767
  | mouseMoveAbs x y => 0 ≤ x ∧ x ≤ 65535 ∧ 0 ≤ y ∧ y ≤ 65535
  | mouseButton button _ => 0 ≤ button ∧ button ≤ 4
  | key vk _ => 0 ≤ vk ∧ vk ≤ 65535
  | text value => Utf8.WellFormed value ∧ value ≠ [] ∧ value.length ≤ maxTextUnits
  | displaySelect index => 0 ≤ index ∧ index ≤ 255
  | clipboardSet value => Utf8.WellFormed value
  | clipboardRequest | videoQuality _ | videoResolution _ => True
  | videoBitrate mbps => 0 ≤ mbps ∧ mbps ≤ 50
  | videoFps fps => fps ∈ ({30, 60, 90, 120} : Set Int)
  | virtualDisplay width height refreshHz count => 640 ≤ width ∧ width ≤ 7680 ∧
      480 ≤ height ∧ height ≤ 4320 ∧ 24 ≤ refreshHz ∧ refreshHz ≤ 240 ∧ 1 ≤ count ∧ count ≤ 4
  | gamepad state => 0 ≤ state.buttons ∧ state.buttons ≤ 0xFFFF ∧
      (∀ trigger ∈ [state.leftTrigger, state.rightTrigger], 0 ≤ trigger ∧ trigger ≤ 255) ∧
      ∀ axis ∈ [state.leftX, state.leftY, state.rightX, state.rightY],
        -32768 ≤ axis ∧ axis ≤ 32767

/-- No check raises on arguments that it admits. -/
theorem exists_encode {call : HostInputCall} (h : call.Admitted) :
    ∃ bytes, call.encode = some bytes := by
  cases call with
  | text | clipboardSet | clipboardRequest | videoQuality | videoResolution => exact ⟨_, rfl⟩
  | mouseMoveRel | mouseMoveAbs | mouseButton | scroll | key | displaySelect | videoBitrate
  | videoFps | virtualDisplay | gamepad =>
    refine ⟨_, require_eq_some.2 ⟨?_, rfl⟩⟩
    simp only [Admitted, Set.mem_insert_iff, Set.mem_singleton_iff,
      List.forall_mem_cons] at h
    simp only [within, Bool.and_eq_true, Bool.or_eq_true, decide_eq_true_iff]
    tauto

/-- The mouse button's index is read as a signed byte. -/
theorem toInt8_ofInt_button {button : Int} (h : within button 0 4 = true) :
    (ofInt button).toInt8.toInt = button := by
  rw [within, Bool.and_eq_true, decide_eq_true_iff, decide_eq_true_iff] at h
  have hcases : button = 0 ∨ button = 1 ∨ button = 2 ∨ button = 3 ∨ button = 4 := by omega
  rcases hcases with rfl | rfl | rfl | rfl | rfl <;> decide

/-- A flag is read as the byte it was put as. -/
theorem flag_put (down : Bool) : decide (ofInt (if down then 1 else 0) ≠ 0) = down := by
  cases down <;> decide

/-- **The decoder reads back every call that its encoder admits.** -/
theorem decode_encode {call : HostInputCall} (htext : call.Admitted) {bytes : List UInt8}
    (h : call.encode = some bytes) : XyHostInputCodec.decode bytes = some call.event := by
  cases call with
  | mouseMoveRel dx dy =>
    obtain ⟨hcheck, rfl⟩ := require_eq_some.1 h
    rw [Bool.and_eq_true] at hcheck
    show some (XyHostInputEvent.mouseMoveRel (le16signed _ 1) (le16signed _ 3)) = _
    rw [le16signed_put hcheck.1 rfl rfl, le16signed_put hcheck.2 rfl rfl]
    rfl
  | mouseMoveAbs x y =>
    obtain ⟨hcheck, rfl⟩ := require_eq_some.1 h
    rw [Bool.and_eq_true] at hcheck
    show some (XyHostInputEvent.mouseMoveAbs (le16 _ 1) (le16 _ 3)) = _
    rw [le16_put hcheck.1 rfl rfl, le16_put hcheck.2 rfl rfl]
    rfl
  | mouseButton button down =>
    obtain ⟨hcheck, rfl⟩ := require_eq_some.1 h
    show some (XyHostInputEvent.mouseButton (ofInt button).toInt8.toInt
      (decide (ofInt (if down then 1 else 0) ≠ 0))) = _
    rw [toInt8_ofInt_button hcheck, flag_put]
    rfl
  | scroll dx dy =>
    obtain ⟨hcheck, rfl⟩ := require_eq_some.1 h
    rw [Bool.and_eq_true] at hcheck
    show some (XyHostInputEvent.scroll (le16signed _ 1) (le16signed _ 3)) = _
    rw [le16signed_put hcheck.1 rfl rfl, le16signed_put hcheck.2 rfl rfl]
    rfl
  | key vk down =>
    obtain ⟨hcheck, rfl⟩ := require_eq_some.1 h
    show some (XyHostInputEvent.key (le16 _ 1)
      (decide (ofInt (if down then 1 else 0) ≠ 0))) = _
    rw [le16_put hcheck rfl rfl, flag_put]
    rfl
  | text value =>
    obtain ⟨hwf, hne, hlen⟩ := htext
    have hbytes : variableMessage tagText value = bytes := by
      rw [← clampTextUnits_eq_self hlen]
      exact Option.some.inj h
    subst hbytes
    have hsize : (variableMessage tagText value).length ≥ 2 :=
      Nat.succ_le_succ (javaEncode_length_pos hne)
    show (if (variableMessage tagText value).length ≥ 2 then
      some (XyHostInputEvent.text (utf8 (variableMessage tagText value) 1)) else none) = _
    rw [if_pos hsize, utf8_variableMessage hwf]
    rfl
  | displaySelect index =>
    obtain ⟨hcheck, rfl⟩ := require_eq_some.1 h
    show some (XyHostInputEvent.displaySelect (byteAt _ 1)) = _
    rw [byteAt_put hcheck rfl]
    rfl
  | clipboardSet value =>
    obtain rfl := Option.some.inj h
    have hsize : (XyHostInputCodec.clipboardSet value).length ≥ 1 :=
      Nat.succ_le_succ (Nat.zero_le _)
    show (if (XyHostInputCodec.clipboardSet value).length ≥ 1 then
      some (XyHostInputEvent.clipboardSet (utf8 (variableMessage tagClipboardSet value) 1))
      else none) = _
    rw [if_pos hsize, utf8_variableMessage htext]
    rfl
  | clipboardRequest =>
    obtain rfl := Option.some.inj h
    rfl
  | videoQuality quality =>
    obtain rfl := Option.some.inj h
    cases quality <;> rfl
  | videoBitrate mbps =>
    obtain ⟨hcheck, rfl⟩ := require_eq_some.1 h
    show some (XyHostInputEvent.videoBitrate (le16 _ 1)) = _
    rw [le16_put (within_mono hcheck (by decide) (by decide)) rfl rfl]
    rfl
  | videoResolution mode =>
    obtain rfl := Option.some.inj h
    cases mode <;> rfl
  | videoFps fps =>
    obtain ⟨hcheck, rfl⟩ := require_eq_some.1 h
    have hfps : within fps 0 255 = true := by
      simp only [Bool.or_eq_true, decide_eq_true_iff] at hcheck
      rcases hcheck with ((rfl | rfl) | rfl) | rfl <;> decide
    show some (XyHostInputEvent.videoFps (byteAt _ 1)) = _
    rw [byteAt_put hfps rfl]
    rfl
  | virtualDisplay width height refreshHz count =>
    obtain ⟨hcheck, rfl⟩ := require_eq_some.1 h
    simp only [Bool.and_eq_true] at hcheck
    obtain ⟨⟨⟨hwidth, hheight⟩, hrefresh⟩, hcount⟩ := hcheck
    show some (XyHostInputEvent.virtualDisplay (le16 _ 1) (le16 _ 3) (byteAt _ 5)
      (byteAt _ 6)) = _
    rw [le16_put (within_mono hwidth (by decide) (by decide)) rfl rfl,
      le16_put (within_mono hheight (by decide) (by decide)) rfl rfl,
      byteAt_put (within_mono hrefresh (by decide) (by decide)) rfl,
      byteAt_put (within_mono hcount (by decide) (by decide)) rfl]
    rfl
  | gamepad state =>
    obtain ⟨hcheck, rfl⟩ := require_eq_some.1 h
    simp only [Bool.and_eq_true] at hcheck
    obtain ⟨⟨hbuttons, hleft, hright⟩, ⟨⟨hlx, hly⟩, hrx⟩, hry⟩ := hcheck
    show some (XyHostInputEvent.gamepad ⟨le16 _ 1, byteAt _ 3, byteAt _ 4, le16signed _ 5,
      le16signed _ 7, le16signed _ 9, le16signed _ 11⟩) = _
    rw [le16_put hbuttons rfl rfl, byteAt_put hleft rfl, byteAt_put hright rfl,
      le16signed_put hlx rfl rfl, le16signed_put hly rfl rfl, le16signed_put hrx rfl rfl,
      le16signed_put hry rfl rfl]
    rfl

end HostInputCall

/-- **The round trip of the input channel.**  Every call whose checks pass has a message, which
is read back as its event, and calls for different events have different messages. -/
theorem hostInput_roundTrip :
    (∀ call : HostInputCall, call.Admitted → ∃ bytes, call.encode = some bytes ∧
      XyHostInputCodec.decode bytes = some call.event) ∧
    ∀ call call' : HostInputCall, call.Admitted → call'.Admitted →
      call.event ≠ call'.event → call.encode ≠ call'.encode := by
  have hread : ∀ call : HostInputCall, call.Admitted → ∃ bytes, call.encode = some bytes ∧
      XyHostInputCodec.decode bytes = some call.event := by
    intro call hadmitted
    obtain ⟨bytes, hbytes⟩ := HostInputCall.exists_encode hadmitted
    exact ⟨bytes, hbytes, HostInputCall.decode_encode hadmitted hbytes⟩
  refine ⟨hread, ?_⟩
  intro call call' h h' hne hsame
  obtain ⟨bytes, hbytes, hevent⟩ := hread call h
  obtain ⟨bytes', hbytes', hevent'⟩ := hread call' h'
  obtain rfl := Option.some.inj (hbytes.symm.trans (hsame.trans hbytes'))
  exact hne (Option.some.inj (hevent.symm.trans hevent'))

/-- The text "Hé", read back, and other bytes than the same text on the clipboard; and a virtual
display. -/
theorem hostInput_roundTrip_text :
    (∃ bytes, HostInputCall.encode (.text [0x48, 0xE9]) = some bytes ∧
      XyHostInputCodec.decode bytes = some (.text [0x48, 0xE9])) ∧
    HostInputCall.encode (.text [0x48, 0xE9]) ≠ HostInputCall.encode (.clipboardSet [0x48, 0xE9]) ∧
    ∃ bytes, HostInputCall.encode (.virtualDisplay 1920 1080 60 2) = some bytes ∧
      XyHostInputCodec.decode bytes = some (.virtualDisplay 1920 1080 60 2) := by
  have hwf : Utf8.WellFormed [0x48, 0xE9] := by
    rw [Utf8.WellFormed, if_neg (by decide)]
    exact ⟨rfl, rfl, rfl⟩
  refine ⟨?_, ?_, ?_⟩
  · exact hostInput_roundTrip.1 (.text [0x48, 0xE9]) ⟨hwf, by decide, by decide⟩
  · exact hostInput_roundTrip.2 (.text [0x48, 0xE9]) (.clipboardSet [0x48, 0xE9])
      ⟨hwf, by decide, by decide⟩ hwf (by decide)
  · exact hostInput_roundTrip.1 (.virtualDisplay 1920 1080 60 2) (by
      simp [HostInputCall.Admitted])
