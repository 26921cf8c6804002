/-
# The virtual gamepad

`XyVirtualPadTracker` holds the on-screen pad and turns it into frames numbered by a
uint32 sequence; `isNewerSequence` orders two of them.  The tracker's floats are
kept abstract: `PadFloat` lists the operations the code uses, and nothing is assumed
about them, so that every result holds of the machine's floats, rounding and NaN
included.
-/
import XyDeskRemote.RawInputCodec
import XyDeskRemote.SerialNumber

open SerialNumber

/-! ## Floats -/

/-- The single-precision operations of the pad; `decimal n k` is the literal
`n / 10^k`, and `roundToInt` raises on NaN. -/
class PadFloat (F : Type) where
  decimal : Int → Nat → F
  lt : F → F → Bool
  le : F → F → Bool
  eq : F → F → Bool
  sub : F → F → F
  mul : F → F → F
  div : F → F → F
  hypot : F → F → F
  roundToInt : F → Option Int

namespace PadFloat

variable {F : Type} [PadFloat F]

/-- Zero. -/
def zero : F := decimal 0 0

/-- One. -/
def one : F := decimal 1 0

/-- `x.coerceIn(lo, hi)` on floats; NaN passes. -/
def coerceIn (x lo hi : F) : F := if lt x lo then lo else if lt hi x then hi else x

end PadFloat

open PadFloat hiding coerceIn

/-! ## Axes -/

namespace XyPadAxis

variable {F : Type} [PadFloat F]

/-- The dead zone of a stick. -/
def defaultDeadzone : F := decimal 12 2

/-- The largest value of an axis. -/
def axisScale : F := decimal 32767 0

/-- Radial deadzone with rescaling; `none` when the check on `deadzone` raises. -/
def deadzone (x y deadzone : F) : Option (F × F) :=
  if le zero deadzone && le deadzone (decimal 9 1) then
    let magnitude := hypot x y
    if le magnitude deadzone || eq magnitude zero then some (zero, zero)
    else
      let scaled :=
        PadFloat.coerceIn (div (sub magnitude deadzone) (sub one deadzone)) zero one
      some (mul (div x magnitude) scaled, mul (div y magnitude) scaled)
  else none

/-- A value between -1 and 1. -/
def clampUnit (value : F) : F := PadFloat.coerceIn value (decimal (-1) 0) one

/-- An axis as an integer. -/
def toInt16 (value : F) : Option Int :=
  (roundToInt (mul (clampUnit value) axisScale)).map fun n => coerceIn n (-32768) 32767

/-- A trigger as a byte. -/
def triggerToByte (value : F) : Option Int :=
  (roundToInt (mul (PadFloat.coerceIn value zero one) (decimal 255 0))).map fun n =>
    coerceIn n 0 255

end XyPadAxis

/-! ## Frames -/

/-- The state of a pad. -/
structure XyGamepadState where
  buttons : Int
  leftTrigger : Int
  rightTrigger : Int
  leftX : Int
  leftY : Int
  rightX : Int
  rightY : Int
  deriving DecidableEq

/-- A state with its number and its time. -/
structure XyGamepadFrame where
  sequence : Int
  timestampMs32 : Int
  state : XyGamepadState
  deriving DecidableEq

/-- The largest number. -/
def uint32Max : Int := 0xFFFFFFFF

/-- `x and 0xFFFF_FFFFL`. -/
def andUint32 (x : Int) : Int := x % 4294967296

/-- True when `candidate` follows `previous` under uint32 wraparound ordering; `none`
when the check on the arguments raises. -/
def isNewerSequence (candidate previous : Int) : Option Bool :=
  if (0 ≤ candidate ∧ candidate ≤ uint32Max) ∧ (0 ≤ previous ∧ previous ≤ uint32Max) then
    let difference := andUint32 (candidate - previous)
    some (difference ≠ 0 && difference < 0x80000000)
  else none

/-! ## The tracker -/

/-- The buttons of a pad. -/
inductive XyPadButton where
  | a | b | x | y
  | leftShoulder | rightShoulder
  | start | back
  | leftThumb | rightThumb
  | dpadUp | dpadDown | dpadLeft | dpadRight
  deriving DecidableEq

/-- The bit of a button. -/
def XyPadButton.bit : XyPadButton → BitVec 32
  | a => 0x1000
  | b => 0x2000
  | x => 0x4000
  | y => 0x8000
  | leftShoulder => 0x0100
  | rightShoulder => 0x0200
  | start => 0x0010
  | back => 0x0020
  | leftThumb => 0x0040
  | rightThumb => 0x0080
  | dpadUp => 0x0001
  | dpadDown => 0x0002
  | dpadLeft => 0x0004
  | dpadRight => 0x0008

/-- `XyVirtualPadTracker`. -/
structure XyVirtualPadTracker (F : Type) where
  leftX : F
  leftY : F
  rightX : F
  rightY : F
  leftTrigger : F
  rightTrigger : F
  buttons : BitVec 32
  sequence : Int
  dirty : Bool

namespace XyVirtualPadTracker

variable {F : Type} [PadFloat F]

/-- A pad at rest. -/
def initial : XyVirtualPadTracker F where
  leftX := zero
  leftY := zero
  rightX := zero
  rightY := zero
  leftTrigger := zero
  rightTrigger := zero
  buttons := 0
  sequence := 0
  dirty := false

/-- `state()`; `none` when rounding raises. -/
def state (t : XyVirtualPadTracker F) : Option XyGamepadState := do
  let leftTrigger ← XyPadAxis.triggerToByte t.leftTrigger
  let rightTrigger ← XyPadAxis.triggerToByte t.rightTrigger
  let leftX ← XyPadAxis.toInt16 t.leftX
  let leftY ← XyPadAxis.toInt16 t.leftY
  let rightX ← XyPadAxis.toInt16 t.rightX
  let rightY ← XyPadAxis.toInt16 t.rightY
  some ⟨t.buttons.toInt, leftTrigger, rightTrigger, leftX, leftY, rightX, rightY⟩

/-- `setLeftStick`; a check that raises leaves the tracker as it is. -/
def setLeftStick (t : XyVirtualPadTracker F) (x y : F) : XyVirtualPadTracker F :=
  match XyPadAxis.deadzone x y XyPadAxis.defaultDeadzone with
  | none => t
  | some deflected =>
    if !eq deflected.1 t.leftX || !eq deflected.2 t.leftY then
      { t with leftX := deflected.1, leftY := deflected.2, dirty := true }
    else t

/-- `setRightStick`. -/
def setRightStick (t : XyVirtualPadTracker F) (x y : F) : XyVirtualPadTracker F :=
  match XyPadAxis.deadzone x y XyPadAxis.defaultDeadzone with
  | none => t
  | some deflected =>
    if !eq deflected.1 t.rightX || !eq deflected.2 t.rightY then
      { t with rightX := deflected.1, rightY := deflected.2, dirty := true }
    else t

/-- `setTrigger`; an argument that is left out is the current value. -/
def setTrigger (t : XyVirtualPadTracker F) (left right : Option F) : XyVirtualPadTracker F :=
  let safeLeft := PadFloat.coerceIn (left.getD t.leftTrigger) zero one
  let safeRight := PadFloat.coerceIn (right.getD t.rightTrigger) zero one
  if !eq safeLeft t.leftTrigger || !eq safeRight t.rightTrigger then
    { t with leftTrigger := safeLeft, rightTrigger := safeRight, dirty := true }
  else t

/-- `setButton`. -/
def setButton (t : XyVirtualPadTracker F) (button : XyPadButton) (down : Bool) :
    XyVirtualPadTracker F :=
  let next := if down then t.buttons ||| button.bit else t.buttons &&& ~~~button.bit
  if next ≠ t.buttons then { t with buttons := next, dirty := true } else t

/-- `nextFrame`: the sequence advances and the change flag falls before the state is
read, so that a frame whose state raises still uses up its number. -/
def nextFrame (t : XyVirtualPadTracker F) (timestampMs : Int) :
    XyVirtualPadTracker F × Option XyGamepadFrame :=
  let t' := { t with sequence := andUint32 (t.sequence + 1), dirty := false }
  (t', t'.state.map fun s => ⟨t'.sequence, andUint32 timestampMs, s⟩)

/-- `consumeDirty`. -/
def consumeDirty (t : XyVirtualPadTracker F) : XyVirtualPadTracker F × Bool :=
  ({ t with dirty := false }, t.dirty)

/-- `reset` keeps the sequence. -/
def reset (t : XyVirtualPadTracker F) : XyVirtualPadTracker F :=
  { t with
    leftX := zero, leftY := zero, rightX := zero, rightY := zero
    leftTrigger := zero, rightTrigger := zero, buttons := 0, dirty := false }

end XyVirtualPadTracker

/-! ## Runs of the tracker -/

/-- A call on the tracker. -/
inductive PadCall (F : Type) where
  | setLeftStick (x y : F)
  | setRightStick (x y : F)
  | setTrigger (left right : Option F)
  | setButton (button : XyPadButton) (down : Bool)
  | nextFrame (timestampMs : Int)
  | consumeDirty
  | reset

namespace XyVirtualPadTracker

variable {F : Type} [PadFloat F]

/-- One call: the tracker after it, and what it gave for a frame when it was
`nextFrame`. -/
def step (t : XyVirtualPadTracker F) :
    PadCall F → XyVirtualPadTracker F × List (Option XyGamepadFrame)
  | .setLeftStick x y => (t.setLeftStick x y, [])
  | .setRightStick x y => (t.setRightStick x y, [])
  | .setTrigger left right => (t.setTrigger left right, [])
  | .setButton button down => (t.setButton button down, [])
  | .nextFrame timestampMs => ((t.nextFrame timestampMs).1, [(t.nextFrame timestampMs).2])
  | .consumeDirty => (t.consumeDirty.1, [])
  | .reset => (t.reset, [])

/-- What the calls of `nextFrame` among `calls` gave, in order. -/
def frames : XyVirtualPadTracker F → List (PadCall F) → List (Option XyGamepadFrame)
  | _, [] => []
  | t, call :: calls => (t.step call).2 ++ frames (t.step call).1 calls

/-- The frame of the `n`-th call of `nextFrame`, counted from zero, from the initial
tracker on. -/
def frameAt (calls : List (PadCall F)) (n : Nat) : Option XyGamepadFrame :=
  ((initial : XyVirtualPadTracker F).frames calls)[n]?.join

/-! ## The numbers of the frames -/

section Setters

variable (t : XyVirtualPadTracker F)

@[simp] theorem sequence_setLeftStick (x y : F) :
    (t.setLeftStick x y).sequence = t.sequence := by
  unfold setLeftStick
  split
  · rfl
  · split <;> rfl

@[simp] theorem sequence_setRightStick (x y : F) :
    (t.setRightStick x y).sequence = t.sequence := by
  unfold setRightStick
  split
  · rfl
  · split <;> rfl

@[simp] theorem sequence_setTrigger (left right : Option F) :
    (t.setTrigger left right).sequence = t.sequence := by
  simp only [setTrigger]
  split <;> rfl

omit [PadFloat F] in
@[simp] theorem sequence_setButton (button : XyPadButton) (down : Bool) :
    (t.setButton button down).sequence = t.sequence := by
  simp only [setButton]
  generalize (if down = true then t.buttons ||| button.bit
    else t.buttons &&& ~~~button.bit) = next
  split <;> rfl

end Setters

theorem step_quiet (t : XyVirtualPadTracker F) {call : PadCall F}
    (h : ∀ timestampMs, call ≠ .nextFrame timestampMs) :
    (t.step call).2 = [] ∧ (t.step call).1.sequence = t.sequence := by
  cases call with
  | setLeftStick x y => exact ⟨rfl, t.sequence_setLeftStick x y⟩
  | setRightStick x y => exact ⟨rfl, t.sequence_setRightStick x y⟩
  | setTrigger left right => exact ⟨rfl, t.sequence_setTrigger left right⟩
  | setButton button down => exact ⟨rfl, t.sequence_setButton button down⟩
  | nextFrame timestampMs => exact absurd rfl (h timestampMs)
  | consumeDirty => exact ⟨rfl, rfl⟩
  | reset => exact ⟨rfl, rfl⟩

theorem sequence_of_nextFrame {t : XyVirtualPadTracker F} {timestampMs : Int}
    {f : XyGamepadFrame} (h : (t.nextFrame timestampMs).2 = some f) :
    f.sequence = andUint32 (t.sequence + 1) := by
  obtain ⟨s, -, rfl⟩ := Option.map_eq_some_iff.1 h
  rfl

theorem sequence_of_frames {calls : List (PadCall F)} :
    ∀ {t : XyVirtualPadTracker F} {n : Nat} {f : XyGamepadFrame},
      (t.frames calls)[n]? = some (some f) → f.sequence = andUint32 (t.sequence + n + 1) := by
  induction calls with
  | nil =>
    intro t n f h
    simp [frames] at h
  | cons call calls ih =>
    intro t n f h
    by_cases hnext : ∃ timestampMs, call = .nextFrame timestampMs
    · obtain ⟨timestampMs, rfl⟩ := hnext
      cases n with
      | zero =>
        have hframe : (t.nextFrame timestampMs).2 = some f := Option.some.inj h
        rw [sequence_of_nextFrame hframe, Nat.cast_zero, Int.add_zero]
      | succ n =>
        -- the rest of the run starts one number later
        have hrest := ih h
        rw [hrest]
        show andUint32 (andUint32 (t.sequence + 1) + n + 1) = _
        unfold andUint32
        push_cast
        omega
    · have hquiet : ∀ timestampMs, call ≠ .nextFrame timestampMs := by
        intro timestampMs hcall
        exact hnext ⟨timestampMs, hcall⟩
      obtain ⟨hnone, hsequence⟩ := t.step_quiet hquiet
      rw [frames, hnone, List.nil_append] at h
      rw [ih h, hsequence]

/-- **The `n`-th frame of a run carries the number `n + 1` modulo 2^32.** -/
theorem sequence_frameAt {calls : List (PadCall F)} {n : Nat} {f : XyGamepadFrame}
    (h : frameAt calls n = some f) : f.sequence = ((n + 1) % (2 * 2147483648) : Nat) := by
  rw [frameAt, Option.join_eq_some_iff] at h
  rw [sequence_of_frames h]
  show (0 + (n : Int) + 1) % 4294967296 = _
  rw [Int.zero_add]
  rfl

end XyVirtualPadTracker

/-! ## The order of the frames -/

open XyVirtualPadTracker

/-- On numbers counted modulo 2^32 the check passes, and the answer is the order on the
circle. -/
theorem isNewerSequence_count (m n : Nat) :
    isNewerSequence ((m % (2 * 2147483648) : Nat)) ((n % (2 * 2147483648) : Nat)) =
      some (follows 2147483648 (m % (2 * 2147483648)) (n % (2 * 2147483648))) := by
  have hcheck : (0 ≤ ((m % (2 * 2147483648) : Nat) : Int) ∧
      ((m % (2 * 2147483648) : Nat) : Int) ≤ uint32Max) ∧
      0 ≤ ((n % (2 * 2147483648) : Nat) : Int) ∧
      ((n % (2 * 2147483648) : Nat) : Int) ≤ uint32Max := by
    unfold uint32Max
    omega
  rw [isNewerSequence, if_pos hcheck]
  rfl

/-- A receiver that applies a frame only when it is newer than the last applied one;
`none` when the check raises. -/
def applyFrame (held : Option XyGamepadFrame) (f : XyGamepadFrame) :
    Option (Option XyGamepadFrame) :=
  match held with
  | none => some (some f)
  | some last =>
    (isNewerSequence f.sequence last.sequence).map fun newer =>
      if newer then some f else some last

/-- What the receiver holds after the frames, in the order they arrive. -/
def receive (arrivals : List XyGamepadFrame) : Option (Option XyGamepadFrame) :=
  arrivals.foldlM applyFrame none

/-- The frames are in the order of their positions in the run. -/
theorem isNewerSequence_frameAt {F : Type} [PadFloat F] {calls : List (PadCall F)}
    {m n : Nat} {f g : XyGamepadFrame} (hf : frameAt calls m = some f)
    (hg : frameAt calls n = some g) (hmn : m < n + 2147483648) (hnm : n < m + 2147483648) :
    isNewerSequence f.sequence g.sequence = some (decide (n < m)) := by
  rw [sequence_frameAt hf, sequence_frameAt hg, isNewerSequence_count, Option.some_inj,
    Bool.eq_iff_iff, follows_iff_lt (by omega) (by omega), decide_eq_true_iff]
  omega

/-- Frames whose numbers pass the check are received without an exception. -/
theorem receive_eq_keepNewest {newer : XyGamepadFrame → XyGamepadFrame → Bool}
    {arrivals : List XyGamepadFrame}
    (h : ∀ f ∈ arrivals, ∀ g ∈ arrivals,
      isNewerSequence f.sequence g.sequence = some (newer f g)) :
    receive arrivals = some (keepNewest newer none arrivals) := by
  have hfold : ∀ {rest : List XyGamepadFrame} {held : Option XyGamepadFrame},
      (∀ f ∈ rest, f ∈ arrivals) → (∀ f ∈ held, f ∈ arrivals) →
        rest.foldlM applyFrame held = some (keepNewest newer held rest) := by
    intro rest
    induction rest with
    | nil =>
      intro held _ _
      rfl
    | cons f rest ih =>
      intro held hrest hheld
      have hf : f ∈ arrivals := hrest f List.mem_cons_self
      have hstep : applyFrame held f = some (keepNewer newer held f) := by
        cases held with
        | none => rfl
        | some last =>
          rw [applyFrame, h f hf last (hheld last rfl)]
          rfl
      rw [List.foldlM_cons, hstep]
      refine ih (fun g hg => hrest g (List.mem_cons_of_mem f hg)) ?_
      intro g hg
      rcases keepNewer_mem hg with rfl | hg
      · exact hf
      · exact hheld g hg
  exact hfold (fun f hf => hf) (by simp)

/-- **Gamepad frames stay ordered through the wrap of their numbers.**  Two frames of
one run less than 2^31 steps apart compare as they were emitted, and a receiver that
gets any of the frames of such a span, in any order and any number of times, ends with
the state of the newest one it got. -/
theorem padFrames_orderable {F : Type} [PadFloat F] (calls : List (PadCall F)) :
    (∀ (i k : Nat) (early late : XyGamepadFrame), 1 ≤ k → k < 2 ^ 31 →
      frameAt calls i = some early → frameAt calls (i + k) = some late →
        isNewerSequence late.sequence early.sequence = some true ∧
        isNewerSequence early.sequence late.sequence = some false) ∧
    ∀ delivered : List (Nat × XyGamepadFrame), delivered ≠ [] →
      (∀ d ∈ delivered, frameAt calls d.1 = some d.2) →
      (∀ d ∈ delivered, ∀ e ∈ delivered, d.1 < e.1 + 2 ^ 31) →
        ∃ newest ∈ delivered, (∀ d ∈ delivered, d.1 ≤ newest.1) ∧
          (receive (delivered.map Prod.snd)).map (Option.map XyGamepadFrame.state) =
            some (some newest.2.state) := by
  constructor
  · intro i k early late hk hk' hearly hlate
    rw [isNewerSequence_frameAt hlate hearly (by omega) (by omega),
      isNewerSequence_frameAt hearly hlate (by omega) (by omega)]
    constructor
    · rw [decide_eq_true (by omega)]
    · rw [decide_eq_false (by omega)]
  · intro delivered hne hframes hspan
    -- the order the receiver sees is the order of the positions
    have hnewer : ∀ d ∈ delivered, ∀ e ∈ delivered,
        isNewerSequence d.2.sequence e.2.sequence = some (decide (e.1 < d.1)) := by
      intro d hd e he
      have hde := hspan d hd e he
      have hed := hspan e he d hd
      exact isNewerSequence_frameAt (hframes d hd) (hframes e he) (by omega) (by omega)
    have hanswer : ∀ f ∈ delivered.map Prod.snd, ∀ g ∈ delivered.map Prod.snd,
        isNewerSequence f.sequence g.sequence =
          some ((isNewerSequence f.sequence g.sequence).getD false) := by
      intro f hf g hg
      obtain ⟨d, hd, rfl⟩ := List.mem_map.1 hf
      obtain ⟨e, he, rfl⟩ := List.mem_map.1 hg
      rw [hnewer d hd e he]
      rfl
    have hrank : ∀ d ∈ delivered, ∀ e ∈ delivered,
        (isNewerSequence d.2.sequence e.2.sequence).getD false = true ↔ e.1 < d.1 := by
      intro d hd e he
      rw [hnewer d hd e he, Option.getD_some, decide_eq_true_iff]
    obtain ⟨newest, hmem, hkeep, hmax⟩ := keepNewest_isNewest hne hrank
    refine ⟨newest, hmem, hmax, ?_⟩
    have hreceive := receive_eq_keepNewest hanswer
    rw [← Option.map_none, keepNewest_map, hkeep] at hreceive
    rw [hreceive]
    rfl

/-- Fixed-point arithmetic in millionths: exact on sticks moved along one axis. -/
@[reducible] def fixedPoint : PadFloat Int where
  decimal n k := n * (1000000 / 10 ^ k)
  lt x y := x < y
  le x y := x ≤ y
  eq x y := x = y
  sub x y := x - y
  mul x y := x * y / 1000000
  div x y := x * 1000000 / y
  hypot x y := x.natAbs + y.natAbs
  roundToInt x := some ((x + 500000) / 1000000)

/-- A button, the left stick pushed fully to the right, and a reset, with a frame after
each. -/
def pushAndRelease : List (PadCall Int) :=
  [.setButton .a true, .nextFrame 5, .setLeftStick 1000000 0, .nextFrame 6, .reset, .nextFrame 7]

/-- The frames of that run, delivered out of order and one of them twice. -/
theorem padFrames_orderable_pushAndRelease :
    (isNewerSequence 3 1 = some true ∧ isNewerSequence 1 3 = some false) ∧
    (receive [⟨3, 7, ⟨0, 0, 0, 0, 0, 0, 0⟩⟩, ⟨1, 5, ⟨0x1000, 0, 0, 0, 0, 0, 0⟩⟩,
        ⟨2, 6, ⟨0x1000, 0, 0, 32767, 0, 0, 0⟩⟩, ⟨1, 5, ⟨0x1000, 0, 0, 0, 0, 0, 0⟩⟩]).map
      (Option.map XyGamepadFrame.state) = some (some ⟨0, 0, 0, 0, 0, 0, 0⟩) := by
  let _ : PadFloat Int := fixedPoint
  have h := padFrames_orderable pushAndRelease
  constructor
  · exact h.1 0 2 ⟨1, 5, ⟨0x1000, 0, 0, 0, 0, 0, 0⟩⟩ ⟨3, 7, ⟨0, 0, 0, 0, 0, 0, 0⟩⟩
      (by decide) (by decide) (by decide) (by decide)
  · obtain ⟨newest, hmem, hmax, hstate⟩ := h.2
      [(2, ⟨3, 7, ⟨0, 0, 0, 0, 0, 0, 0⟩⟩), (0, ⟨1, 5, ⟨0x1000, 0, 0, 0, 0, 0, 0⟩⟩),
        (1, ⟨2, 6, ⟨0x1000, 0, 0, 32767, 0, 0, 0⟩⟩),
        (0, ⟨1, 5, ⟨0x1000, 0, 0, 0, 0, 0, 0⟩⟩)]
      (by decide) (by decide) (by decide)
    have hlast : 2 ≤ newest.1 := hmax _ List.mem_cons_self
    simp only [List.mem_cons, List.not_mem_nil, or_false] at hmem
    rcases hmem with rfl | rfl | rfl | rfl
    · exact hstate
    · exact absurd hlast (by decide)
    · exact absurd hlast (by decide)
    · exact absurd hlast (by decide)
