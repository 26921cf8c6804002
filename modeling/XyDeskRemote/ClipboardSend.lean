/-
# Clipboard texts that were sent

`SessionManager.sendClipboardData` hands a text to the native layer and reports whether it was
taken.  A text whose hash is the one of the last attempt, less than 350 ms later, is reported as
done at once.

The hash and the time are stored before the native layer has answered, two texts may have one
hash, and a session may have followed another.
-/
import XyDeskRemote.LabelledRun
import XyDeskRemote.WorkerText
import Mathlib.Data.List.Infix

namespace ClipboardSend

open LabelledRun
open WorkerText (lit)

/-! ## The text and its hash -/

/-- The longest text. -/
def maxClipboardUnits : ℕ := 120000

/-- Line feeds as the line ends of Windows. -/
def crlf (text : CodeUnits) : CodeUnits :=
  text.flatMap fun u => if u = 0x0A then [0x0D, 0x0A] else [u]

/-- The text that is sent: capped, and with the line ends of Windows. -/
def safeText (data : CodeUnits) : CodeUnits :=
  let capped := data.take maxClipboardUnits
  if 0x0A ∈ capped ∧ ¬ [0x0D, 0x0A] <:+: capped then (crlf capped).take maxClipboardUnits
  else capped

/-- `text.hashCode()`. -/
def hashCode (text : CodeUnits) : Int32 :=
  text.foldl (fun h u => h * 31 + Int32.ofNat u.toNat) 0

/-! ## The manager -/

/-- A call: the instance of the session, if there is one, the text, the time, and what the native
layer answers, unless it raises. -/
structure Call where
  inst : Option Int
  data : CodeUnits
  now : Int
  answer : Option Bool

/-- What the manager remembers of the last attempt; and the last text that the native layer has
accepted for each session, and the last call that came to it. -/
structure Manager where
  lastSentClipboardHash : Int32
  lastSentClipboardAtMs : Int
  accepted : Int → Option CodeUnits
  attempt : Option Call

/-- Nothing was sent. -/
def Manager.initial : Manager := ⟨0, 0, fun _ => none, none⟩

/-- The duplicate check. -/
def IsRepeat (m : Manager) (call : Call) : Prop :=
  hashCode (safeText call.data) = m.lastSentClipboardHash ∧
    call.now - m.lastSentClipboardAtMs < 350

instance (m : Manager) (call : Call) : Decidable (IsRepeat m call) :=
  inferInstanceAs (Decidable (_ ∧ _))

/-- The manager behind an attempt for the session `inst`. -/
def attempted (m : Manager) (call : Call) (inst : Int) : Manager where
  lastSentClipboardHash := hashCode (safeText call.data)
  lastSentClipboardAtMs := call.now
  accepted :=
    if call.answer.getD false then Function.update m.accepted inst (some (safeText call.data))
    else m.accepted
  attempt := some call

/-- `sendClipboardData`. -/
def sendClipboardData (m : Manager) (call : Call) : Bool × Manager :=
  match call.inst with
  | none => (false, m)
  | some inst =>
    if call.data = [] then (false, m)
    else if IsRepeat m call then (true, m)
    else (call.answer.getD false, attempted m call inst)

/-- A call. -/
def step (m : Manager) (call : Call) : Option Manager := some (sendClipboardData m call).2

/-- A report of success is right: the last text that the native layer has accepted for the session
of the call is the one of the call. -/
def Reported (m : Manager) (call : Call) (next : Manager) : Prop :=
  (sendClipboardData m call).1 = true →
    ∃ inst ∈ call.inst, next.accepted inst = some (safeText call.data)

/-- A text that comes less than 350 ms after the last attempt, and has its hash, is the text of
that attempt, for the same session, and the native layer has taken it. -/
def RepeatsDelivered (m : Manager) (call : Call) (_ : Manager) : Prop :=
  call.inst ≠ none → call.data ≠ [] → IsRepeat m call →
    ∃ a ∈ m.attempt, a.inst = call.inst ∧ safeText a.data = safeText call.data ∧
      a.answer = some true

/-! ## One call -/

section Calls

variable {m next : Manager} {call : Call}

/-- What a call does: nothing, a report without an attempt, or an attempt. -/
theorem sendClipboardData_cases (m : Manager) (call : Call) :
    ((call.inst = none ∨ call.data = []) ∧ sendClipboardData m call = (false, m)) ∨
    (call.inst ≠ none ∧ call.data ≠ [] ∧ IsRepeat m call ∧
      sendClipboardData m call = (true, m)) ∨
    ∃ inst, call.inst = some inst ∧ ¬ IsRepeat m call ∧
      sendClipboardData m call = (call.answer.getD false, attempted m call inst) := by
  rw [sendClipboardData]
  cases hinst : call.inst with
  | none => exact .inl ⟨.inl rfl, rfl⟩
  | some inst =>
    dsimp only
    by_cases hdata : call.data = []
    · rw [if_pos hdata]
      exact .inl ⟨.inr hdata, rfl⟩
    · rw [if_neg hdata]
      by_cases hrepeat : IsRepeat m call
      · rw [if_pos hrepeat]
        exact .inr (.inl ⟨Option.some_ne_none inst, hdata, hrepeat, rfl⟩)
      · rw [if_neg hrepeat]
        exact .inr (.inr ⟨inst, rfl, hrepeat, rfl⟩)

/-- What the native layer took in the last attempt is the last text that it took for the session. -/
def Delivered (m : Manager) : Prop :=
  ∀ a ∈ m.attempt, a.answer = some true → ∀ inst ∈ a.inst,
    m.accepted inst = some (safeText a.data)

theorem accepted_attempted {inst : Int} (hok : call.answer.getD false = true) :
    (attempted m call inst).accepted inst = some (safeText call.data) := by
  show (if call.answer.getD false = true then _ else m.accepted) inst = _
  rw [if_pos hok, Function.update_self]

/-- **Step lemma.**  A call whose repeats are delivered reports what is right, and keeps track of
what was delivered. -/
theorem delivered_step (hm : Delivered m) (h : step m call = some next)
    (hrepeats : RepeatsDelivered m call next) : Reported m call next ∧ Delivered next := by
  obtain rfl := Option.some.inj h
  rw [Reported]
  rcases sendClipboardData_cases m call with ⟨-, heq⟩ | ⟨hinst, hdata, hrepeat, heq⟩ |
    ⟨inst, hinst, -, heq⟩
  · rw [heq]
    exact ⟨nofun, hm⟩
  · rw [heq]
    refine ⟨fun _ => ?_, hm⟩
    obtain ⟨a, ha, hsame, htext, hanswer⟩ := hrepeats hinst hdata hrepeat
    obtain ⟨inst, hcall⟩ := Option.ne_none_iff_exists'.1 hinst
    exact ⟨inst, hcall, htext ▸ hm a ha hanswer inst (hsame.trans hcall)⟩
  · rw [heq]
    refine ⟨fun hok => ⟨inst, hinst, accepted_attempted hok⟩, ?_⟩
    intro a ha hanswer inst' hinst'
    obtain rfl : call = a := Option.some.inj ha
    obtain rfl := Option.some.inj (hinst.symm.trans hinst')
    exact accepted_attempted (by rw [hanswer]; rfl)

/-! ## A run of calls -/

/-- **Every report of a run is right** when no text of the run that the duplicate check takes for
sent is one that the last attempt did not bring to the session. -/
theorem reported_of_delivered (calls : List Call)
    (h : EveryStep step RepeatsDelivered Manager.initial calls) :
    EveryStep step Reported Manager.initial calls :=
  everyStep_of_everyStep (fun _ _ _ hm hnext hcall => delivered_step hm hnext hcall) nofun h

/-- A text that fails, the same text half a second later, and once more at once. -/
def retries : List Call :=
  [⟨some 1, lit "a", 1000, some false⟩, ⟨some 1, lit "a", 1500, some true⟩,
    ⟨some 1, lit "a", 1600, none⟩]

theorem reported_of_delivered_retries : EveryStep step Reported Manager.initial retries := by
  apply reported_of_delivered
  refine .cons rfl (fun _ _ h => absurd h.2 (by decide)) ?_
  refine .cons rfl (fun _ _ h => absurd h.2 (by decide)) ?_
  exact .cons rfl (fun _ _ _ => ⟨_, rfl, rfl, rfl, rfl⟩) trivial

/-- A text that was not accepted, and is sent again at once; and a text that was accepted for a
session, and is sent to the next one at once. -/
theorem retry_not_reported :
    (¬ EveryStep step Reported Manager.initial
      [⟨some 1, lit "a", 1000, some false⟩, ⟨some 1, lit "a", 1100, some false⟩]) ∧
    ¬ EveryStep step Reported Manager.initial
      [⟨some 1, lit "a", 1000, some true⟩, ⟨some 2, lit "a", 1100, some true⟩] := by
  constructor <;>
  · intro h
    obtain ⟨-, hrest⟩ := h _ rfl
    obtain ⟨hsecond, -⟩ := hrest _ rfl
    obtain ⟨inst, hinst, haccepted⟩ := hsecond (by decide)
    obtain rfl := Option.some.inj hinst
    exact absurd haccepted (by decide)

end Calls

end ClipboardSend
