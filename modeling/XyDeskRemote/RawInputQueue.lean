/-
# Raw game input: the bounded queue and the sender

The `send…` calls of `XyRawGameInputBridge` put packets into a queue of 512; the
sender thread takes them out, merges runs of relative motion and sends.  Every
operation on the queue is one step here, so that a call may be interrupted by the
sender, and the sender by a call, between any two of them:

* a call offers its packet (`call`); when the queue is full it polls the oldest
  packet away (`evict`) and offers again (`offerAgain`);
* the sender polls a packet (`poll`), and after a relative motion peeks (`peek`)
  and polls (`pollMerged`) as long as more of them follow, then sends.

The bridge is running throughout, and a call that returns `false` is not a step.
`accepted` and `sent` record what the calls accepted and what the sender sent.
-/
import XyDeskRemote.LabelledRun
import XyDeskRemote.RawInputCodec

open LabelledRun LittleEndian

/-- A packet. -/
abbrev Packet := List UInt8

/-! ## Calls -/

/-- The packet a `send…` call hands to `enqueue`, or nothing when the call returns
`false` by itself.  There is no call for a ping. -/
def RawCommand.sendPacket : RawCommand → Option Packet
  | mouseRel dx dy =>
    let clampedDx := coerceIn dx (-32768) 32767
    let clampedDy := coerceIn dy (-32768) 32767
    if clampedDx = 0 ∧ clampedDy = 0 then none else some (encodeMouseRel clampedDx clampedDy)
  | mouseAbs xNorm yNorm =>
    some (encodeMouseAbs (coerceIn xNorm 0 65535) (coerceIn yNorm 0 65535))
  | mouseButton button down => some (encodeMouseButton (coerceIn button 0 4) down)
  | mouseWheel wheelDelta =>
    if wheelDelta = 0 then none
    else some (encodeMouseWheel (coerceIn wheelDelta (-32768) 32767))
  | keyVk vk down scanCode => if vk ≤ 0 then none else some (encodeKeyVk vk down scanCode)
  | ping => none

/-- `readInt16Le`. -/
def readInt16Le (buf : Packet) (offset : Nat) : Int := (int16At buf offset).toInt

/-! ## The two threads -/

/-- The capacity of the queue. -/
def queueCapacity : Nat := 512

/-- Where a call is inside `enqueue`: nowhere, after a failed offer, or after the poll
that makes room. -/
inductive ProducerPc where
  | idle
  | full (packet : Packet)
  | evicted (packet : Packet)
  deriving DecidableEq

/-- Where the sender is inside its loop: before the poll, in the merging loop before
the peek or after it, before the send, before the ping check. -/
inductive SenderPc where
  | polling
  | merging (sumDx sumDy : Int)
  | peeked (peek : Packet) (sumDx sumDy : Int)
  | sending (toSend : Packet)
  | pingCheck
  deriving DecidableEq

/-- The bridge. -/
structure RawInputBridge where
  queue : List Packet := []
  producer : ProducerPc := .idle
  sender : SenderPc := .polling
  accepted : List Packet := []
  sent : List Packet := []
  deriving DecidableEq

/-- Who moves; `pingDue` is the sender's comparison with the clock. -/
inductive BridgeLabel where
  | call (c : RawCommand)
  | evict
  | offerAgain
  | poll
  | peek
  | pollMerged
  | send
  | pingCheck (pingDue : Bool)
  deriving DecidableEq

namespace RawInputBridge

/-- The first queue operation of a call. -/
def onCall (s : RawInputBridge) (c : RawCommand) : Option RawInputBridge :=
  match s.producer, c.sendPacket with
  | .idle, some packet =>
    let s := { s with accepted := s.accepted ++ [packet] }
    if s.queue.length < queueCapacity then some { s with queue := s.queue ++ [packet] }
    else some { s with producer := .full packet }
  | _, _ => none

/-- `queue.poll()` of `enqueue`. -/
def onEvict (s : RawInputBridge) : Option RawInputBridge :=
  match s.producer with
  | .full packet => some { s with queue := s.queue.tail, producer := .evicted packet }
  | _ => none

/-- The second `queue.offer(packet)` of `enqueue`, whose result is not looked at. -/
def onOfferAgain (s : RawInputBridge) : Option RawInputBridge :=
  match s.producer with
  | .evicted packet =>
    let s := { s with producer := .idle }
    if s.queue.length < queueCapacity then some { s with queue := s.queue ++ [packet] }
    else some s
  | _ => none

/-- `queue.poll(350, MILLISECONDS)`: a packet, or a time-out on an empty queue. -/
def onPoll (s : RawInputBridge) : Option RawInputBridge :=
  match s.sender, s.queue with
  | .polling, first :: rest =>
    if first.getD 4 0 = cmdMouseRel then
      some { s with
        queue := rest
        sender := .merging (readInt16Le first 6) (readInt16Le first 8) }
    else some { s with queue := rest, sender := .sending first }
  | .polling, [] => some { s with sender := .pingCheck }
  | _, _ => none

/-- `queue.peek()` of the merging loop. -/
def onPeek (s : RawInputBridge) : Option RawInputBridge :=
  match s.sender with
  | .merging sumDx sumDy =>
    match s.queue with
    | peek :: _ =>
      if peek.getD 4 0 = cmdMouseRel then some { s with sender := .peeked peek sumDx sumDy }
      else some { s with sender := .sending (encodeMouseRel sumDx sumDy) }
    | [] => some { s with sender := .sending (encodeMouseRel sumDx sumDy) }
  | _ => none

/-- `queue.poll()` of the merging loop: the result is thrown away and the peeked packet
is added, whichever packet the poll took. -/
def onPollMerged (s : RawInputBridge) : Option RawInputBridge :=
  match s.sender with
  | .peeked peek sumDx sumDy =>
    some { s with
      queue := s.queue.tail
      sender := .merging (coerceIn (sumDx + readInt16Le peek 6) (-32768) 32767)
        (coerceIn (sumDy + readInt16Le peek 8) (-32768) 32767) }
  | _ => none

/-- `sock.send`. -/
def onSend (s : RawInputBridge) : Option RawInputBridge :=
  match s.sender with
  | .sending toSend => some { s with sent := s.sent ++ [toSend], sender := .pingCheck }
  | _ => none

/-- The ping at the end of the loop. -/
def onPingCheck (s : RawInputBridge) (pingDue : Bool) : Option RawInputBridge :=
  match s.sender with
  | .pingCheck =>
    if pingDue then some { s with sent := s.sent ++ [encodePing], sender := .polling }
    else some { s with sender := .polling }
  | _ => none

/-- A step of the calls or of the sender. -/
def step (s : RawInputBridge) : BridgeLabel → Option RawInputBridge
  | .call c => s.onCall c
  | .evict => s.onEvict
  | .offerAgain => s.onOfferAgain
  | .poll => s.onPoll
  | .peek => s.onPeek
  | .pollMerged => s.onPollMerged
  | .send => s.onSend
  | .pingCheck pingDue => s.onPingCheck pingDue

end RawInputBridge

/-! ## Presses and releases -/

/-- A mouse button or a virtual key. -/
inductive Control where
  | button (index : UInt8)
  | key (vk : UInt16)
  deriving DecidableEq

/-- The control a packet presses (`true`) or releases (`false`), read as the host
reads it. -/
def controlEvent (p : Packet) : Option (Control × Bool) :=
  if p.getD 4 0 = cmdMouseBtn then some (.button (p.getD 5 0), int16At p 6 != 0)
  else if p.getD 4 0 = cmdKeyVk then some (.key (int16At p 6).toUInt16, p.getD 5 0 != 0)
  else none

/-- The event of control `k` in a packet. -/
def eventOf (k : Control) (p : Packet) : Option Bool :=
  match controlEvent p with
  | some (c, down) => if c = k then some down else none
  | none => none

/-- The presses and releases of `k` in a list of packets. -/
def events (k : Control) (l : List Packet) : List Bool := l.filterMap (eventOf k)

@[simp] theorem events_append (k : Control) (l l' : List Packet) :
    events k (l ++ l') = events k l ++ events k l' := List.filterMap_append

theorem events_cons (k : Control) (p : Packet) (l : List Packet) :
    events k (p :: l) = (eventOf k p).toList ++ events k l := by
  rw [events, List.filterMap_cons]
  cases eventOf k p <;> rfl

theorem eventOf_of_cmd {p : Packet} (hbtn : p.getD 4 0 ≠ cmdMouseBtn)
    (hkey : p.getD 4 0 ≠ cmdKeyVk) (k : Control) : eventOf k p = none := by
  rw [eventOf, controlEvent, if_neg hbtn, if_neg hkey]

theorem eventOf_rel {p : Packet} (h : p.getD 4 0 = cmdMouseRel) (k : Control) :
    eventOf k p = none :=
  eventOf_of_cmd (by rw [h]; decide) (by rw [h]; decide) k

theorem eventOf_encodeMouseRel (dx dy : Int) (k : Control) :
    eventOf k (encodeMouseRel dx dy) = none := eventOf_rel rfl k

theorem eventOf_encodePing (k : Control) : eventOf k encodePing = none :=
  eventOf_of_cmd (by decide) (by decide) k

/-- Every press of `k` in the list is followed by a release of `k`. -/
def ReleasedAfterPress (k : Control) (l : List Packet) : Prop :=
  ∀ pre post, events k l = pre ++ true :: post → false ∈ post

theorem releasedAfterPress_iff {k : Control} {l : List Packet} :
    ReleasedAfterPress k l ↔ (events k l).getLast? ≠ some true := by
  constructor
  · intro h hlast
    obtain ⟨pre, hpre⟩ := List.getLast?_eq_some_iff.1 hlast
    cases h pre [] hpre
  · -- the last event is in what follows the press, and it is a release
    intro h pre post hsplit
    rcases List.eq_nil_or_concat post with rfl | ⟨front, last, rfl⟩
    · rw [hsplit, List.getLast?_append] at h
      exact absurd rfl h
    · cases last with
      | false =>
        rw [List.concat_eq_append]
        exact List.mem_append_right _ (List.mem_singleton_self false)
      | true =>
        refine absurd ?_ h
        rw [hsplit, List.concat_eq_append, ← List.cons_append, ← List.append_assoc,
          List.getLast?_append]
        rfl
