/-
# The input queue of the Android client

`android_event.c`: the threads of the user interface push events, the thread of the
session pops them.  The queue is a circular buffer behind a lock and an event object that
is signalled with every push, so that a push, a pop and the drain at the end are one step
each.  A push joins adjacent pure moves, makes the buffer larger when it is full, and takes
everything back when the event object cannot be signalled.

The purpose is an ordinary queue: `Fifo` says what a log of pushes and pops means there,
and `InputTraffic` is the code's queue together with the log of what it did.  The log also
has the calls of `android_event_free`, so that every event can be accounted for.
-/
import XyDeskRemote.LabelledRun
import XyDeskRemote.RingBuffer
import Mathlib.Data.List.Perm.Basic
import Mathlib.Data.List.Nodup
import Mathlib.Algebra.Group.Nat.Defs

open LabelledRun List Option

/-! ## Events -/

/-- What an event says, by its `type`; `unknown` is a type that has no constant.  `flags`
of a key is an `int`, the deltas of a relative move are `INT16`. -/
inductive AndroidEventBody where
  | key (flags : Int32) (scancode : UInt16)
  | keyUnicode (flags : Int32) (scancode : UInt16)
  | cursor (flags x y : UInt16)
  | cursorRel (flags : UInt16) (dx dy : Int16)
  | clipboard (data : Option (List UInt8)) (mimeType : Option String)
  | disconnect
  | unknown (type : Int32)
  deriving DecidableEq

/-- An event: the block the pointer stands for, and what is in it. -/
structure AndroidEvent where
  address : ℕ
  body : AndroidEventBody
  deriving DecidableEq

/-- The blocks that can belong to one event. -/
inductive EventBlock where
  | event
  | data
  | mimeType
  deriving DecidableEq

/-- The blocks `android_event_free` gives back. -/
def androidEventFree : AndroidEventBody → List EventBlock
  | .clipboard data mimeType =>
    (if data.isSome then [.data] else []) ++ (if mimeType.isSome then [.mimeType] else []) ++
      [.event]
  | .unknown _ => []
  | _ => [.event]

/-- The blocks an event consists of. -/
def eventBlocks : AndroidEventBody → List EventBlock
  | .clipboard data mimeType =>
    [.event] ++ (if data.isSome then [.data] else []) ++
      (if mimeType.isSome then [.mimeType] else [])
  | _ => [.event]

/-- An event with a type that has a constant is freed with all its blocks; one without is
left alone. -/
theorem androidEventFree_perm {body : AndroidEventBody} (h : ∀ type, body ≠ .unknown type) :
    (androidEventFree body).Perm (eventBlocks body) := by
  cases body with
  | clipboard data mimeType =>
    rw [androidEventFree, eventBlocks, append_assoc [EventBlock.event]]
    exact perm_append_comm
  | unknown type => exact absurd rfl (h type)
  | _ => exact List.Perm.refl _

/-- A call of `android_event_free`: the event it is about and the blocks it gives back. -/
def freeCall (e : AndroidEvent) : ℕ × List EventBlock := (e.address, androidEventFree e.body)

/-- `PTR_FLAGS_MOVE`. -/
def ptrFlagsMove : UInt16 := 0x0800

/-- `(INT16)(sum > SHRT_MAX ? SHRT_MAX : (sum < SHRT_MIN ? SHRT_MIN : sum))`. -/
def saturate (sum : Int) : Int16 :=
  Int16.ofInt (if sum > 32767 then 32767 else if sum < -32768 then -32768 else sum)

/-- The last event of the queue after a pure move was joined to it, if it can be. -/
def joinMove (last incoming : AndroidEvent) : Option AndroidEvent :=
  match incoming.body, last.body with
  | .cursor flags x y, .cursor flags' _ _ =>
    if flags = ptrFlagsMove ∧ flags' = ptrFlagsMove then
      some { last with body := .cursor flags' x y }
    else none
  | .cursorRel flags dx dy, .cursorRel flags' dx' dy' =>
    if flags = ptrFlagsMove ∧ flags' = ptrFlagsMove then
      some { last with
        body := .cursorRel flags' (saturate (dx'.toInt + dx.toInt))
          (saturate (dy'.toInt + dy.toInt)) }
    else none
  | _, _ => none

/-! ## The queue -/

/-- `SIZE_MAX` and `sizeof(ANDROID_EVENT*)`. -/
structure WordSize where
  sizeMax : ℕ
  pointerBytes : ℕ

/-- 64 bits. -/
def lp64 : WordSize := ⟨2 ^ 64 - 1, 8⟩

/-- `INT_MAX`. -/
def intMax : ℕ := 2147483647

/-- `ANDROID_EVENT_QUEUE`: `events` with `size`, `head` and `count`, and whether `isSet`
is signalled. -/
structure AndroidEventQueue where
  events : RingBuffer AndroidEvent
  isSet : Bool
  deriving DecidableEq

/-- The loop that looks for a larger size: 128 more at a time, until the size is larger
than `count` or would no longer fit. -/
def grownSize (w : WordSize) (count newSize : ℕ) : Option ℕ :=
  if newSize > intMax - 128 ∨ newSize > w.sizeMax / w.pointerBytes - 128 then none
  else if newSize + 128 ≤ count then grownSize w count (newSize + 128)
  else some (newSize + 128)
termination_by intMax - newSize
decreasing_by simp only [intMax] at *; omega

/-- A buffer with room for one more event; `allocated` says whether `calloc` succeeds. -/
def withRoom (w : WordSize) (events : RingBuffer AndroidEvent) (allocated : Bool) :
    Option (RingBuffer AndroidEvent) :=
  if events.count ≥ events.size then
    match grownSize w events.count events.size with
    | none => none
    | some newSize => if allocated then some (events.linearize newSize) else none
  else some events

/-- What a push leaves: the queue, its result, and the events it freed. -/
structure PushResult where
  queue : AndroidEventQueue
  success : Bool
  freed : List AndroidEvent
  deriving DecidableEq

namespace AndroidEventQueue

/-- A push that fails. -/
def refused (q : AndroidEventQueue) : PushResult := ⟨q, false, []⟩

/-- The event behind which a push would stand. -/
def tail (q : AndroidEventQueue) : Option AndroidEvent :=
  if q.events.count > 0 then q.events.read (q.events.index (q.events.count - 1)) else none

/-- A push that joins its move to the last event, which is `joined` then. -/
def pushJoined (q : AndroidEventQueue) (joined event : AndroidEvent) (signalled : Bool) :
    PushResult :=
  if signalled then
    { queue :=
        { events := q.events.write (q.events.index (q.events.count - 1)) (some joined)
          isSet := true }
      success := true
      freed := [event] }
  else q.refused

/-- A push that puts its event behind the others. -/
def pushBehind (w : WordSize) (q : AndroidEventQueue) (event : AndroidEvent)
    (allocated signalled : Bool) : PushResult :=
  match withRoom w q.events allocated with
  | none => q.refused
  | some events =>
    if signalled then ⟨{ events := events.put event, isSet := true }, true, []⟩
    else refused { q with events := (events.put event).unput }

/-- `android_push_event`; `allocated` and `signalled` are the answers of `calloc` and
`SetEvent`. -/
def androidPushEvent (w : WordSize) (q : AndroidEventQueue) (event : AndroidEvent)
    (allocated signalled : Bool) : PushResult :=
  if q.events.size = 0 then q.refused
  else
    match q.tail.bind fun last => joinMove last event with
    | some joined => q.pushJoined joined event signalled
    | none => q.pushBehind w event allocated signalled

/-- `android_pop_event`. -/
def androidPopEvent (q : AndroidEventQueue) : AndroidEventQueue × Option AndroidEvent :=
  if 0 < q.events.size ∧ 0 < q.events.count then
    ({ q with events := q.events.take }, q.events.read q.events.head)
  else (q, none)

/-- `android_event_queue_init`, by the answers of the two `calloc` and of
`CreateEventA`. -/
def androidEventQueueInit (queueAllocated created eventsAllocated : Bool) :
    Option AndroidEventQueue :=
  if queueAllocated ∧ created ∧ eventsAllocated then
    some { events := RingBuffer.alloc 16, isSet := false }
  else none

/-- The events `android_event_queue_uninit` frees. -/
def androidEventQueueUninit (q : AndroidEventQueue) : List AndroidEvent := q.events.contents

end AndroidEventQueue

/-! ## What is sent for an event -/

/-- The calls behind `android_process_event`. -/
inductive InputCall where
  | sendKeyboardEvent (flags : Int32) (scancode : UInt16)
  | sendUnicodeKeyboardEvent (flags : Int32) (scancode : UInt16)
  | sendMouseEvent (flags x y : UInt16)
  | sendRelMouseEvent (flags : UInt16) (dx dy : Int16)
  | clipboardSetData (mimeType : Option String) (data : List UInt8)
  | clipboardEmpty
  | sendClientFormatList
  deriving DecidableEq

/-- The calls `android_process_event` makes for an event, where there is a clipboard and a
clipboard channel or not.  A call that fails is only logged. -/
def inputCalls (clipboard cliprdr : Bool) : AndroidEventBody → List InputCall
  | .key flags scancode => [.sendKeyboardEvent flags scancode]
  | .keyUnicode flags scancode => [.sendUnicodeKeyboardEvent flags scancode]
  | .cursor flags x y => [.sendMouseEvent flags x y]
  | .cursorRel flags dx dy => [.sendRelMouseEvent flags dx dy]
  | .clipboard data mimeType =>
    (if clipboard then
      match data with
      | some (b :: bytes) => [.clipboardSetData mimeType (b :: bytes)]
      | _ => [.clipboardEmpty]
    else []) ++ (if cliprdr then [.sendClientFormatList] else [])
  | .disconnect => []
  | .unknown _ => []

/-! ## Traffic -/

/-- What happened at the queue. -/
inductive QueueEvent where
  | pushed (e : AndroidEvent) (success : Bool)
  | popped (e : Option AndroidEvent)
  | sent (call : InputCall)
  | freed (e : AndroidEvent)
  | uninit
  deriving DecidableEq

/-- The queue of a context, which is `none` after `android_event_queue_uninit`; the event
the session is processing; and what happened so far. -/
structure InputTraffic where
  queue : Option AndroidEventQueue
  processing : Option AndroidEvent := none
  log : List QueueEvent := []
  deriving DecidableEq

/-- Who acts, and what the system answers. -/
inductive TrafficLabel where
  | push (event : AndroidEvent) (allocated signalled : Bool)
  | pop
  | process (clipboard cliprdr : Bool)
  | uninit
  deriving DecidableEq

namespace InputTraffic

/-- A thread pushes an event. -/
def onPush (w : WordSize) (s : InputTraffic) (event : AndroidEvent)
    (allocated signalled : Bool) : InputTraffic :=
  match s.queue with
  | none => { s with log := s.log ++ [.pushed event false] }
  | some q =>
    let r := q.androidPushEvent w event allocated signalled
    { s with
      queue := some r.queue
      log := s.log ++ (.pushed event r.success :: r.freed.map .freed) }

/-- The session asks for the next event, which it does when it has processed the one
before. -/
def onPop (s : InputTraffic) : Option InputTraffic :=
  match s.queue, s.processing with
  | some q, none =>
    let r := q.androidPopEvent
    some { queue := some r.1, processing := r.2, log := s.log ++ [.popped r.2] }
  | _, _ => none

/-- The session processes the event it has popped, and frees it. -/
def onProcess (s : InputTraffic) (clipboard cliprdr : Bool) : Option InputTraffic :=
  match s.processing with
  | some e =>
    some { s with
      processing := none
      log := s.log ++ ((inputCalls clipboard cliprdr e.body).map .sent ++ [.freed e]) }
  | none => none

/-- The context is freed. -/
def onUninit (s : InputTraffic) : InputTraffic :=
  match s.queue with
  | none => s
  | some q =>
    { s with
      queue := none
      log := s.log ++ (.uninit :: q.androidEventQueueUninit.map .freed) }

/-- A step of the threads. -/
def step (w : WordSize) (s : InputTraffic) : TrafficLabel → Option InputTraffic
  | .push event allocated signalled => some (s.onPush w event allocated signalled)
  | .pop => s.onPop
  | .process clipboard cliprdr => s.onProcess clipboard cliprdr
  | .uninit => some s.onUninit

/-- The traffic when `android_event_queue_init` has returned. -/
def initial : InputTraffic :=
  { queue := AndroidEventQueue.androidEventQueueInit true true true }

/-- The events that wait in the queue. -/
def waiting (s : InputTraffic) : List AndroidEvent :=
  match s.queue with
  | none => []
  | some q => q.events.contents

/-- The events the code has taken over and not freed yet. -/
def held (s : InputTraffic) : List AndroidEvent := s.waiting ++ s.processing.toList

end InputTraffic

/-! ## The queue it is meant to be -/

/-- `last` and `e` are adjacent pure moves, and `joined` stands for both: the later
position, or the sum of the two ways as far as an `INT16` goes. -/
inductive JoinsTo : AndroidEvent → AndroidEvent → AndroidEvent → Prop
  | absolute (a a' : ℕ) (x y x' y' : UInt16) :
      JoinsTo ⟨a, .cursor ptrFlagsMove x y⟩ ⟨a', .cursor ptrFlagsMove x' y'⟩
        ⟨a, .cursor ptrFlagsMove x' y'⟩
  | relative (a a' : ℕ) (dx dy dx' dy' : Int16) :
      JoinsTo ⟨a, .cursorRel ptrFlagsMove dx dy⟩ ⟨a', .cursorRel ptrFlagsMove dx' dy'⟩
        ⟨a, .cursorRel ptrFlagsMove
          (Int16.ofInt (max (-32768) (min 32767 (dx.toInt + dx'.toInt))))
          (Int16.ofInt (max (-32768) (min 32767 (dy.toInt + dy'.toInt))))⟩

/-- Pushing `e` makes `waiting'` of `waiting`. -/
inductive Pushed (e : AndroidEvent) : List AndroidEvent → List AndroidEvent → Prop
  | joined {front : List AndroidEvent} {last m : AndroidEvent} (h : JoinsTo last e m) :
      Pushed e (front ++ [last]) (front ++ [m])
  | behind {waiting : List AndroidEvent}
      (h : ∀ last m, waiting.getLast? = some last → ¬ JoinsTo last e m) :
      Pushed e waiting (waiting ++ [e])

/-- **The queue.**  `Fifo log waiting`: every pop of the log gave the oldest event that
waited, or nothing when none did; a push that failed changed nothing; and `waiting` is what
waits at the end. -/
inductive Fifo : List QueueEvent → List AndroidEvent → Prop
  | empty : Fifo [] []
  | push {log waiting waiting' e} (h : Fifo log waiting) (hpush : Pushed e waiting waiting') :
      Fifo (log ++ [.pushed e true]) waiting'
  | refused {log waiting e} (h : Fifo log waiting) : Fifo (log ++ [.pushed e false]) waiting
  | pop {log e waiting} (h : Fifo log (e :: waiting)) : Fifo (log ++ [.popped (some e)]) waiting
  | popEmpty {log} (h : Fifo log []) : Fifo (log ++ [.popped none]) []
  | sent {log waiting call} (h : Fifo log waiting) : Fifo (log ++ [.sent call]) waiting
  | freed {log waiting e} (h : Fifo log waiting) : Fifo (log ++ [.freed e]) waiting
  | uninit {log waiting} (h : Fifo log waiting) : Fifo (log ++ [.uninit]) []

/-- The event a log entry takes over. -/
def QueueEvent.accepted : QueueEvent → Option AndroidEvent
  | .pushed e true => some e
  | _ => none

/-- The event a log entry frees. -/
def QueueEvent.freedEvent : QueueEvent → Option AndroidEvent
  | .freed e => some e
  | _ => none

/-- The calls of `android_event_free` that the pushes with success call for. -/
def acceptedCalls (log : List QueueEvent) : List (ℕ × List EventBlock) :=
  (log.filterMap QueueEvent.accepted).map freeCall

/-- The calls of `android_event_free` that were made. -/
def freedCalls (log : List QueueEvent) : List (ℕ × List EventBlock) :=
  (log.filterMap QueueEvent.freedEvent).map freeCall

/-! ## One push and one pop -/

theorem saturate_eq (sum : Int) : saturate sum = Int16.ofInt (max (-32768) (min 32767 sum)) := by
  rw [saturate]
  congr 1
  split
  · omega
  · split <;> omega

theorem joinMove_eq_some {last e m : AndroidEvent} :
    joinMove last e = some m ↔ JoinsTo last e m := by
  constructor
  · intro h
    obtain ⟨a, lastBody⟩ := last
    obtain ⟨a', body⟩ := e
    rw [joinMove] at h
    split at h
    · rename_i flags x y flags' x' y' hbody hlast
      obtain ⟨⟨rfl, rfl⟩, rfl⟩ := ite_none_right_eq_some.1 h |>.imp_right some.inj
      obtain rfl : body = _ := hbody
      obtain rfl : lastBody = _ := hlast
      exact JoinsTo.absolute a a' x' y' x y
    · rename_i flags dx dy flags' dx' dy' hbody hlast
      obtain ⟨⟨rfl, rfl⟩, rfl⟩ := ite_none_right_eq_some.1 h |>.imp_right some.inj
      obtain rfl : body = _ := hbody
      obtain rfl : lastBody = _ := hlast
      rw [saturate_eq, saturate_eq]
      exact JoinsTo.relative a a' dx' dy' dx dy
    · cases h
  · intro h
    cases h with
    | absolute a a' x y x' y' => rfl
    | relative a a' dx dy dx' dy' =>
      rw [← saturate_eq, ← saturate_eq]
      rfl

/-- The joined event is freed like the one it replaces. -/
theorem JoinsTo.freeCall_eq {last e m : AndroidEvent} (h : JoinsTo last e m) :
    freeCall m = freeCall last := by
  cases h <;> rfl

theorem lt_of_grownSize {w : WordSize} {count newSize n : ℕ}
    (h : grownSize w count newSize = some n) : count < n := by
  fun_induction grownSize w count newSize with
  | case1 newSize hlimit => cases h
  | case2 newSize hlimit hsmall ih => exact ih h
  | case3 newSize hlimit hlarge =>
    obtain rfl := some.inj h
    omega

theorem holds_withRoom {w : WordSize} {events events' : RingBuffer AndroidEvent}
    {allocated : Bool} {xs : List AndroidEvent} (h : events.Holds xs)
    (hroom : withRoom w events allocated = some events') :
    events'.Holds xs ∧ events'.count < events'.size := by
  rw [withRoom] at hroom
  split at hroom
  · split at hroom
    · cases hroom
    · rename_i n hn
      obtain ⟨-, rfl⟩ := ite_none_right_eq_some.1 hroom |>.imp_right some.inj
      have hlt := lt_of_grownSize hn
      refine ⟨h.linearize (by omega) (by omega), ?_⟩
      rw [events.size_linearize (by omega)]
      exact hlt
  · rename_i hfull
    obtain rfl := some.inj hroom
    exact ⟨h, by omega⟩

namespace AndroidEventQueue

/-- What a push does to a queue in which `xs` waits. -/
inductive PushSpec (q : AndroidEventQueue) (xs : List AndroidEvent) (e : AndroidEvent) :
    PushResult → Prop
  | success {r : PushResult} {xs' : List AndroidEvent} (hpush : Pushed e xs xs')
      (hholds : r.queue.events.Holds xs') (hset : r.queue.isSet = true)
      (hsuccess : r.success = true)
      (hfreed : ∀ c, (r.freed.map freeCall).count c + (xs'.map freeCall).count c =
        (xs.map freeCall).count c + [freeCall e].count c) : PushSpec q xs e r
  | failure {r : PushResult} (hholds : r.queue.events.Holds xs)
      (hset : r.queue.isSet = q.isSet) (hsuccess : r.success = false) (hfreed : r.freed = []) :
      PushSpec q xs e r

variable {q : AndroidEventQueue} {xs : List AndroidEvent} {e : AndroidEvent}

theorem tail_eq (h : q.events.Holds xs) : q.tail = xs.getLast? := by
  rw [tail]
  rcases eq_nil_or_concat xs with rfl | ⟨front, last, rfl⟩
  · rw [if_neg]
    · rfl
    · rw [h.count_eq]
      exact Nat.lt_irrefl 0
  · rw [concat_eq_append] at h ⊢
    have hlength : (front ++ [last]).length = front.length + 1 := length_append
    rw [if_pos, h.read_last, getLast?_concat]
    rw [h.count_eq]
    omega

theorem pushSpec_joined {joined : AndroidEvent} (h : q.events.Holds xs)
    (hjoin : (q.tail.bind fun last => joinMove last e) = some joined) (signalled : Bool) :
    PushSpec q xs e (q.pushJoined joined e signalled) := by
  obtain ⟨last, hlast, hjoin⟩ := bind_eq_some_iff.1 hjoin
  rw [tail_eq h] at hlast
  obtain ⟨front, rfl⟩ := getLast?_eq_some_iff.1 hlast
  rw [joinMove_eq_some] at hjoin
  cases signalled with
  | false => exact PushSpec.failure h rfl rfl rfl
  | true =>
    refine PushSpec.success (Pushed.joined hjoin) h.replace rfl rfl ?_
    -- the pushed event is freed, and the joined one is freed later instead of the last
    have hmap : (front ++ [joined]).map freeCall = (front ++ [last]).map freeCall := by
      rw [map_append, map_append, map_singleton, map_singleton, hjoin.freeCall_eq]
    intro c
    rw [hmap]
    exact Nat.add_comm _ _

theorem pushSpec_behind {w : WordSize} (h : q.events.Holds xs)
    (hjoin : (q.tail.bind fun last => joinMove last e) = none) (allocated signalled : Bool) :
    PushSpec q xs e (q.pushBehind w e allocated signalled) := by
  have hnone : ∀ last m, xs.getLast? = some last → ¬ JoinsTo last e m := by
    intro last m hlast hm
    rw [tail_eq h, hlast, bind_some, joinMove_eq_some.2 hm] at hjoin
    cases hjoin
  rw [pushBehind]
  split
  · exact PushSpec.failure h rfl rfl rfl
  · rename_i events hroom
    obtain ⟨hholds, hlt⟩ := holds_withRoom h hroom
    have hput := hholds.put (x := e) hlt
    cases signalled with
    | false => exact PushSpec.failure hput.unput rfl rfl rfl
    | true =>
      refine PushSpec.success (Pushed.behind hnone) hput rfl rfl ?_
      intro c
      rw [map_append, count_append]
      exact Nat.zero_add _

/-- **One push** keeps the queue, whatever the system answers. -/
theorem androidPushEvent_spec {w : WordSize} (h : q.events.Holds xs)
    (allocated signalled : Bool) :
    PushSpec q xs e (q.androidPushEvent w e allocated signalled) := by
  rw [androidPushEvent]
  split
  · exact PushSpec.failure h rfl rfl rfl
  · split
    · rename_i joined hjoin
      exact pushSpec_joined h hjoin signalled
    · rename_i hjoin
      exact pushSpec_behind h hjoin allocated signalled

/-- A pop of an empty queue gives nothing. -/
theorem androidPopEvent_nil (h : q.events.Holds []) : q.androidPopEvent = (q, none) := by
  rw [androidPopEvent, if_neg]
  rintro ⟨-, hcount⟩
  rw [h.count_eq] at hcount
  exact Nat.lt_irrefl 0 hcount

theorem androidPopEvent_cons {x : AndroidEvent} (h : q.events.Holds (x :: xs)) :
    q.androidPopEvent = ({ q with events := q.events.take }, some x) := by
  have hlength : (x :: xs).length = xs.length + 1 := length_cons
  have hcount := h.count_eq
  have hsize := h.length_le
  rw [androidPopEvent, if_pos ⟨by omega, by omega⟩, h.read_head]

end AndroidEventQueue

/-! ## The code's queue is the queue -/

@[simp] theorem acceptedCalls_append (log log' : List QueueEvent) :
    acceptedCalls (log ++ log') = acceptedCalls log ++ acceptedCalls log' := by
  simp only [acceptedCalls, filterMap_append, map_append]

@[simp] theorem freedCalls_append (log log' : List QueueEvent) :
    freedCalls (log ++ log') = freedCalls log ++ freedCalls log' := by
  simp only [freedCalls, filterMap_append, map_append]

@[simp] theorem acceptedCalls_freed (es : List AndroidEvent) :
    acceptedCalls (es.map .freed) = [] := by
  induction es with
  | nil => rfl
  | cons e es ih => exact ih

@[simp] theorem freedCalls_freed (es : List AndroidEvent) :
    freedCalls (es.map .freed) = es.map freeCall := by
  induction es with
  | nil => rfl
  | cons e es ih => exact congrArg (freeCall e :: ·) ih

@[simp] theorem acceptedCalls_sent (calls : List InputCall) :
    acceptedCalls (calls.map .sent) = [] := by
  induction calls with
  | nil => rfl
  | cons call calls ih => exact ih

@[simp] theorem freedCalls_sent (calls : List InputCall) : freedCalls (calls.map .sent) = [] := by
  induction calls with
  | nil => rfl
  | cons call calls ih => exact ih

@[simp] theorem acceptedCalls_pushed (e : AndroidEvent) (success : Bool) :
    acceptedCalls [.pushed e success] = if success then [freeCall e] else [] := by
  cases success <;> rfl

@[simp] theorem freedCalls_pushed (e : AndroidEvent) (success : Bool) :
    freedCalls [.pushed e success] = [] := rfl

@[simp] theorem acceptedCalls_popped (e : Option AndroidEvent) :
    acceptedCalls [.popped e] = [] := rfl

@[simp] theorem freedCalls_popped (e : Option AndroidEvent) : freedCalls [.popped e] = [] := rfl

namespace Fifo

variable {log : List QueueEvent} {waiting : List AndroidEvent}

theorem freedAll (h : Fifo log waiting) (es : List AndroidEvent) :
    Fifo (log ++ es.map .freed) waiting := by
  induction es using reverseRecOn with
  | nil => rwa [map_nil, append_nil]
  | append_singleton es e ih =>
    rw [map_append, ← append_assoc]
    exact ih.freed

theorem sentAll (h : Fifo log waiting) (calls : List InputCall) :
    Fifo (log ++ calls.map .sent) waiting := by
  induction calls using reverseRecOn with
  | nil => rwa [map_nil, append_nil]
  | append_singleton calls call ih =>
    rw [map_append, ← append_assoc]
    exact ih.sent

end Fifo

namespace InputTraffic

/-- The calls of `android_event_free` that are still to come. -/
def heldCalls (s : InputTraffic) : List (ℕ × List EventBlock) := s.held.map freeCall

/-- The buffer has a row, the log is a queue's with this row waiting, and what was taken
over is freed or held. -/
structure Inv (s : InputTraffic) : Prop where
  holds : ∀ q, s.queue = some q → q.events.Holds s.waiting
  fifo : Fifo s.log s.waiting
  ledger : ∀ c, (freedCalls s.log).count c + s.heldCalls.count c = (acceptedCalls s.log).count c

variable {w : WordSize} {s t : InputTraffic} {q : AndroidEventQueue} {xs : List AndroidEvent}

/-- How often a call is still to come, for a queue in which `xs` waits. -/
theorem count_heldCalls (hwaiting : s.waiting = xs) (c : ℕ × List EventBlock) :
    s.heldCalls.count c =
      (xs.map freeCall).count c + (s.processing.toList.map freeCall).count c := by
  rw [heldCalls, held, hwaiting, map_append, count_append]

theorem waiting_of_holds (hq : s.queue = some q) (h : q.events.Holds xs) : s.waiting = xs := by
  rw [waiting, hq]
  exact h.contents_eq

theorem Inv.of_holds (hq : s.queue = some q) (hholds : q.events.Holds xs) (hfifo : Fifo s.log xs)
    (hledger : ∀ c, (freedCalls s.log).count c +
      ((xs.map freeCall).count c + (s.processing.toList.map freeCall).count c) =
        (acceptedCalls s.log).count c) : s.Inv := by
  have hwaiting := waiting_of_holds hq hholds
  refine ⟨?_, ?_, ?_⟩
  · intro q' hq'
    obtain rfl := some.inj (hq.symm.trans hq')
    rw [hwaiting]
    exact hholds
  · rw [hwaiting]
    exact hfifo
  · intro c
    rw [count_heldCalls hwaiting]
    exact hledger c

/-- The invariant, after the queue is gone. -/
theorem Inv.of_none (hq : s.queue = none) (hfifo : Fifo s.log [])
    (hledger : ∀ c, (freedCalls s.log).count c + (s.processing.toList.map freeCall).count c =
      (acceptedCalls s.log).count c) : s.Inv := by
  have hwaiting : s.waiting = [] := by
    rw [waiting, hq]
  refine ⟨?_, ?_, ?_⟩
  · intro q' hq'
    rw [hq] at hq'
    cases hq'
  · rw [hwaiting]
    exact hfifo
  · intro c
    rw [count_heldCalls hwaiting, ← hledger c]
    simp

theorem inv_initial : initial.Inv := by
  refine Inv.of_holds rfl (RingBuffer.Holds.alloc (by decide)) Fifo.empty ?_
  intro c
  rfl

theorem inv_pushed (h : s.Inv) {e : AndroidEvent} {r : PushResult}
    (hspec : AndroidEventQueue.PushSpec q s.waiting e r) :
    Inv { s with
      queue := some r.queue, log := s.log ++ (.pushed e r.success :: r.freed.map .freed) } := by
  have hledger := h.ledger
  simp only [count_heldCalls rfl] at hledger
  cases hspec with
  | success hpush hholds hset hsuccess hfreed =>
    refine Inv.of_holds rfl hholds ?_ ?_
    · show Fifo (s.log ++ ([.pushed e r.success] ++ r.freed.map .freed)) _
      rw [← append_assoc, hsuccess]
      exact (h.fifo.push hpush).freedAll r.freed
    · intro c
      have hcalls := hfreed c
      have hbefore := hledger c
      show (freedCalls (s.log ++ ([.pushed e r.success] ++ r.freed.map .freed))).count c + _ =
        (acceptedCalls (s.log ++ ([.pushed e r.success] ++ r.freed.map .freed))).count c
      simp only [hsuccess, acceptedCalls_append, freedCalls_append, acceptedCalls_freed,
        freedCalls_freed, acceptedCalls_pushed, freedCalls_pushed, if_true,
        append_nil, nil_append, count_append]
      omega
  | failure hholds hset hsuccess hfreed =>
    refine Inv.of_holds rfl hholds ?_ ?_
    · rw [hsuccess, hfreed]
      exact h.fifo.refused
    · intro c
      have hbefore := hledger c
      rw [hsuccess, hfreed]
      show (freedCalls (s.log ++ [.pushed e false])).count c + _ =
        (acceptedCalls (s.log ++ [.pushed e false])).count c
      simp only [acceptedCalls_append, freedCalls_append, acceptedCalls_pushed,
        freedCalls_pushed, append_nil, Bool.false_eq_true, if_false]
      exact hbefore

theorem inv_onPush (h : s.Inv) (e : AndroidEvent) (allocated signalled : Bool) :
    (s.onPush w e allocated signalled).Inv := by
  rw [onPush]
  split
  · rename_i hq
    have hwaiting : s.waiting = [] := by
      rw [waiting, hq]
    refine Inv.of_none hq ?_ ?_
    · have hfifo := h.fifo
      rw [hwaiting] at hfifo
      exact hfifo.refused
    · intro c
      have hledger := h.ledger c
      rw [count_heldCalls hwaiting] at hledger
      simpa using hledger
  · rename_i q hq
    exact inv_pushed h
      (AndroidEventQueue.androidPushEvent_spec (h.holds q hq) allocated signalled)

theorem inv_onPop (h : s.Inv) (hstep : s.onPop = some t) : t.Inv := by
  rw [onPop] at hstep
  split at hstep
  · rename_i q hq hprocessing
    obtain rfl := some.inj hstep
    have hledger := h.ledger
    simp only [count_heldCalls rfl, hprocessing] at hledger
    have hholds := h.holds q hq
    have hfifo := h.fifo
    cases hwaiting : s.waiting with
    | nil =>
      rw [hwaiting] at hholds hfifo hledger
      rw [AndroidEventQueue.androidPopEvent_nil hholds]
      refine Inv.of_holds rfl hholds hfifo.popEmpty ?_
      intro c
      have hbefore := hledger c
      simpa using hbefore
    | cons x xs =>
      rw [hwaiting] at hholds hfifo hledger
      rw [AndroidEventQueue.androidPopEvent_cons hholds]
      refine Inv.of_holds rfl hholds.take hfifo.pop ?_
      intro c
      have hbefore := hledger c
      simp only [acceptedCalls_append, freedCalls_append, acceptedCalls_popped,
        freedCalls_popped, append_nil, map_cons, map_nil, toList,
        count_cons, count_nil] at hbefore ⊢
      omega
  · cases hstep

theorem inv_onProcess (h : s.Inv) {clipboard cliprdr : Bool}
    (hstep : s.onProcess clipboard cliprdr = some t) : t.Inv := by
  rw [onProcess] at hstep
  split at hstep
  · rename_i e hprocessing
    obtain rfl := some.inj hstep
    have hwaiting : ∀ log, ({ s with processing := none, log := log } : InputTraffic).waiting =
        s.waiting := fun _ => rfl
    refine ⟨h.holds, ?_, ?_⟩
    · show Fifo (s.log ++ _) s.waiting
      rw [← append_assoc]
      exact (h.fifo.sentAll _).freed
    · intro c
      have hbefore := h.ledger c
      rw [count_heldCalls rfl, hprocessing] at hbefore
      rw [count_heldCalls (hwaiting _)]
      show (freedCalls (s.log ++ (_ ++ [e].map .freed))).count c + _ =
        (acceptedCalls (s.log ++ (_ ++ [e].map .freed))).count c
      simp only [acceptedCalls_append, freedCalls_append, acceptedCalls_sent, freedCalls_sent,
        acceptedCalls_freed, freedCalls_freed, append_nil, nil_append,
        count_append, toList] at hbefore ⊢
      simp only [map_nil, count_nil]
      omega
  · cases hstep

theorem inv_onUninit (h : s.Inv) : s.onUninit.Inv := by
  rw [onUninit]
  cases hq : s.queue with
  | none => exact h
  | some q =>
    have hcontents : q.androidEventQueueUninit = s.waiting := by
      rw [waiting, hq]
      rfl
    refine Inv.of_none rfl ?_ ?_
    · show Fifo (s.log ++ ([.uninit] ++ _)) []
      rw [← append_assoc]
      exact h.fifo.uninit.freedAll _
    · intro c
      have hbefore := h.ledger c
      rw [count_heldCalls rfl] at hbefore
      show (freedCalls (s.log ++ ([.uninit] ++ _))).count c + _ =
        (acceptedCalls (s.log ++ ([.uninit] ++ _))).count c
      rw [hcontents]
      simp only [acceptedCalls_append, freedCalls_append, acceptedCalls_freed,
        freedCalls_freed, append_nil, count_append]
      have huninit : freedCalls [.uninit] = [] ∧ acceptedCalls [.uninit] = [] := ⟨rfl, rfl⟩
      rw [huninit.1, huninit.2, count_nil]
      omega

/-- **The step lemma.** -/
theorem inv_step {a : TrafficLabel} (h : s.Inv) (hstep : step w s a = some t) : t.Inv := by
  cases a with
  | push event allocated signalled =>
    obtain rfl := some.inj hstep
    exact inv_onPush h event allocated signalled
  | pop => exact inv_onPop h hstep
  | process clipboard cliprdr => exact inv_onProcess h hstep
  | uninit =>
    obtain rfl := some.inj hstep
    exact inv_onUninit h

theorem inv_of_run {labels : List TrafficLabel} (h : run (step w) initial labels = some s) :
    s.Inv :=
  run_induct (fun _ _ _ hinv hstep => inv_step hinv hstep) inv_initial h

/-- Without a queue and without an event in work, nothing is held. -/
theorem heldCalls_of_none (hq : s.queue = none) (hprocessing : s.processing = none) :
    s.heldCalls = [] := by
  rw [heldCalls, held, waiting, hq, hprocessing]
  rfl

/-- **The input queue is a queue.**  Whatever threads push, whatever the system answers, and
wherever the session pops: the log is one of an ordinary queue in which the buffer's row waits;
every event taken over has been freed once or is held; and the indices are in range. -/
theorem androidQueue_refines_fifo (w : WordSize) {labels : List TrafficLabel} {s : InputTraffic}
    (h : run (step w) initial labels = some s) :
    Fifo s.log s.waiting ∧
      (∀ c, (freedCalls s.log).count c + s.heldCalls.count c = (acceptedCalls s.log).count c) ∧
      (s.queue = none → s.processing = none →
        (freedCalls s.log).Perm (acceptedCalls s.log)) ∧
      (∀ body, (∀ type, body ≠ .unknown type) →
        (androidEventFree body).Perm (eventBlocks body)) ∧
      ∀ q, s.queue = some q → q.events.head < q.events.size ∧ q.events.count ≤ q.events.size := by
  have hinv := inv_of_run h
  refine ⟨hinv.fifo, hinv.ledger, ?_, fun _ => androidEventFree_perm, ?_⟩
  · intro hq hprocessing
    rw [perm_iff_count]
    intro c
    have hledger := hinv.ledger c
    rw [heldCalls_of_none hq hprocessing, count_nil] at hledger
    exact hledger
  · intro q hq
    have hholds := hinv.holds q hq
    refine ⟨hholds.head_lt, ?_⟩
    rw [hholds.count_eq]
    exact hholds.length_le

/-- Two pure moves that are joined, a key whose push the system refuses and that is pushed
again, a pop, and the end. -/
def sampleTraffic : List TrafficLabel :=
  [.push ⟨1, .cursor ptrFlagsMove 10 20⟩ true true, .push ⟨2, .cursor ptrFlagsMove 30 40⟩ true true,
    .push ⟨3, .key 0x4000 28⟩ true false, .push ⟨3, .key 0x4000 28⟩ true true, .pop,
    .process false false, .uninit]

theorem androidQueue_refines_fifo_sample :
    ∃ s, run (step lp64) initial sampleTraffic = some s ∧ s.queue = none ∧
      Fifo s.log s.waiting ∧ (freedCalls s.log).Perm (acceptedCalls s.log) := by
  obtain ⟨s, hs, hq, hprocessing⟩ : ∃ s, run (step lp64) initial sampleTraffic = some s ∧
      s.queue = none ∧ s.processing = none := ⟨_, rfl, rfl, rfl⟩
  have hlaw := androidQueue_refines_fifo lp64 hs
  exact ⟨s, hs, hq, hlaw.1, hlaw.2.2.1 hq hprocessing⟩

end InputTraffic
