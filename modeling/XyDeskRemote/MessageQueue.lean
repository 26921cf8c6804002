/-
# The message queue of WinPR

`MessageQueue.c`: a circular buffer of messages behind a lock, and an event object for the
threads that wait for one.  Every function but `MessageQueue_Get` is one critical section;
`MessageQueue_Get` first waits for the event, and other threads may come in between.
-/
import XyDeskRemote.LabelledRun
import XyDeskRemote.RingBuffer

open LabelledRun RingBuffer List Option Nat

/-- `wMessage`; the pointers are addresses. -/
structure WMessage where
  id : UInt32
  context : ℕ := 0
  wParam : ℕ := 0
  lParam : ℕ := 0
  time : ℕ := 0
  free : ℕ := 0
  deriving DecidableEq

/-- `WMQ_QUIT`. -/
def wmqQuit : UInt32 := 0xFFFFFFFF

/-- `wMessageQueue`: a slot that was zeroed is `none`, and `event` says whether the event
object is signalled. -/
structure MessageQueue where
  array : List (Option WMessage) := []
  head : ℕ := 0
  tail : ℕ := 0
  size : ℕ := 0
  closed : Bool := false
  event : Bool := false
  deriving DecidableEq

namespace MessageQueue

/-! ## The functions of the queue -/

/-- `capacity`. -/
def capacity (q : MessageQueue) : ℕ := q.array.length

/-- The array grown to `newCapacity` slots, with the wrapped part of the row moved into the
new ones. -/
def rearrange (newCapacity : ℕ) (q : MessageQueue) : MessageQueue :=
  let slots := newCapacity - q.capacity
  let grown := q.array ++ replicate slots none
  if q.tail ≤ q.head then
    let batch := min q.tail slots
    let copied := copySlots grown q.capacity 0 batch
    if q.tail < slots then
      -- the whole of it is behind the old end now
      { q with array := clearSlots copied 0 batch, tail := q.tail + q.capacity }
    else
      let remain := q.tail - batch
      let moved := copySlots copied 0 batch remain
      { q with
        array := clearSlots moved remain (q.tail - remain)
        tail := q.tail - batch }
  else { q with array := grown }

/-- `MessageQueue_EnsureCapacity`; `limit` is `(SIZE_MAX - increment) / sizeof(wMessage)`, and
`allocated` the answer of `realloc`.  A sum that overflows is beyond the limit. -/
def ensureCapacity (limit : ℕ) (q : MessageQueue) (count : ℕ) (allocated : Bool) :
    Option MessageQueue :=
  let required := q.size + count
  if required > limit then none
  else if required > q.capacity then
    if allocated then some (q.rearrange (required + 128)) else none
  else some q

/-- `MessageQueue_Dispatch` at the time `now`; the result is the return value. -/
def dispatch (limit : ℕ) (q : MessageQueue) (message : Option WMessage) (now : ℕ)
    (allocated : Bool) : MessageQueue × Bool :=
  match message with
  | none => (q, false)
  | some message =>
    if q.closed then (q, false)
    else
      match q.ensureCapacity limit 1 allocated with
      | none => (q, false)
      | some q₁ =>
        ({ q₁ with
            array := q₁.array.set q₁.tail (some { message with time := now })
            tail := (q₁.tail + 1) % q₁.capacity
            size := q₁.size + 1
            event := true
            closed := q₁.closed || message.id = wmqQuit }, true)

/-- The message `MessageQueue_Post` dispatches. -/
def postMessage (context : ℕ) (type : UInt32) (wParam lParam : ℕ) : WMessage :=
  { id := type, context, wParam, lParam }

/-- The message `MessageQueue_PostQuit` posts. -/
def quitMessage (exitCode : ℕ) : WMessage := postMessage 0 wmqQuit exitCode 0

/-- The first message is taken from the queue, and the event reset when it was the last. -/
def take (q : MessageQueue) : MessageQueue :=
  { q with
    array := q.array.set q.head none
    head := (q.head + 1) % q.capacity
    size := q.size - 1
    event := if q.size - 1 < 1 then false else q.event }

/-- The message at the head. -/
def first (q : MessageQueue) : Option WMessage := q.array[q.head]?.join

/-- `MessageQueue_Get` after the wait: the status, and the message if there was one. -/
def getLocked (q : MessageQueue) : MessageQueue × Int × Option WMessage :=
  if q.size > 0 then
    match q.first with
    | none => (q.take, 1, none)
    | some message => (q.take, if message.id ≠ wmqQuit then 1 else 0, some message)
  else (q, -1, none)

/-- `MessageQueue_Peek`. -/
def peek (q : MessageQueue) (remove : Bool) : MessageQueue × Int × Option WMessage :=
  if q.size > 0 then (if remove then q.take else q, 1, q.first) else (q, 0, none)

/-- `MessageQueue_Clear`: the loop that drops message after message. -/
def dropAll (q : MessageQueue) : MessageQueue :=
  if q.size = 0 then q
  else
    dropAll
      { q with
        array := q.array.set q.head none
        head := (q.head + 1) % q.capacity
        size := q.size - 1 }
termination_by q.size
decreasing_by show q.size - 1 < q.size; omega

/-- `MessageQueue_Clear`. -/
def clear (q : MessageQueue) : MessageQueue := { q.dropAll with event := false, closed := false }

/-- `MessageQueue_New`, by the answers of `realloc` and of the other constructors. -/
def new (limit : ℕ) (allocated created : Bool) : Option MessageQueue :=
  if created then ensureCapacity limit {} 32 allocated else none

/-! ## The row of messages -/

/-- The array as a circular buffer. -/
def row (q : MessageQueue) : RingBuffer WMessage := ⟨q.array, q.head, q.size⟩

/-- The row is `xs`, and the tail stands behind it. -/
structure Stores (q : MessageQueue) (xs : List WMessage) : Prop where
  holds : q.row.Holds xs
  tail_eq : q.tail = (q.head + q.size) % q.capacity

variable {q : MessageQueue} {xs : List WMessage}

theorem Stores.size_eq (h : Stores q xs) : q.size = xs.length := h.holds.count_eq

theorem capacity_rearrange (q : MessageQueue) {n : ℕ} (hn : q.capacity ≤ n) :
    (q.rearrange n).capacity = n := by
  have hgrown : (q.array ++ replicate (n - q.capacity) none).length = n := by
    rw [length_append, length_replicate]
    exact Nat.add_sub_cancel' hn
  unfold rearrange
  dsimp only
  split_ifs
  · simpa [capacity] using hgrown
  · simpa [capacity] using hgrown
  · exact hgrown

/-- Where the slots of a full array stand when it has grown: those from the head on stay, and
the ones in front of it follow behind the old end, the rest of them from slot 0 on. -/
theorem read_rearrange {q : MessageQueue} (htail : q.tail = q.head) (hhead : q.head < q.capacity)
    {n : ℕ} (hn : q.capacity < n) (k : ℕ) :
    (q.head ≤ k → k < q.capacity → (q.rearrange n).array[k]?.join = q.array[k]?.join) ∧
      (q.capacity ≤ k → k < n → k < q.capacity + q.head →
        (q.rearrange n).array[k]?.join = q.array[k - q.capacity]?.join) ∧
      (k + (n - q.capacity) < q.head →
        (q.rearrange n).array[k]?.join = q.array[k + (n - q.capacity)]?.join) := by
  set grown : List (Option WMessage) := q.array ++ replicate (n - q.capacity) none with hgrown
  have hlength : grown.length = n := by
    rw [hgrown, length_append, length_replicate]
    exact Nat.add_sub_cancel' (Nat.le_of_lt hn)
  have hold : ∀ j < q.capacity, grown[j]? = q.array[j]? := by
    intro j hj
    exact getElem?_append_left hj
  unfold rearrange
  dsimp only
  rw [if_pos (le_of_eq htail), ← hgrown]
  split_ifs with hslots
  · -- there is room for all slots in front of the head
    refine ⟨?_, ?_, ?_⟩
    · intro h₁ h₂
      rw [clearSlots_of_notMem (by omega), copySlots_of_notMem (by omega), hold k h₂]
    · intro h₁ h₂ h₃
      rw [clearSlots_of_notMem (by omega),
        copySlots_of_mem (by omega) h₁ (by omega), Nat.zero_add, hold _ (by omega)]
    · intro h₁
      omega
  · refine ⟨?_, ?_, ?_⟩
    · intro h₁ h₂
      rw [clearSlots_of_notMem (by omega), copySlots_of_notMem (by omega),
        copySlots_of_notMem (by omega), hold k h₂]
    · intro h₁ h₂ h₃
      rw [clearSlots_of_notMem (by omega), copySlots_of_notMem (by omega),
        copySlots_of_mem (by omega) h₁ (by omega), Nat.zero_add, hold _ (by omega)]
    · intro h₁
      rw [clearSlots_of_notMem (by omega),
        copySlots_of_mem (by rw [length_copySlots]; omega) (zero_le k)
          (by omega),
        copySlots_of_notMem (by omega), hold _ (by omega)]
      congr 2
      omega

/-- **A full array that grows keeps its row.** -/
theorem stores_rearrange (h : Stores q xs) (hfull : q.size = q.capacity) {n : ℕ}
    (hn : q.capacity < n) : Stores (q.rearrange n) xs := by
  have hhead : q.head < q.capacity := h.holds.head_lt
  have htail : q.tail = q.head := by
    rw [h.tail_eq, hfull, add_mod_right, mod_eq_of_lt hhead]
  have hcapacity := capacity_rearrange q (Nat.le_of_lt hn)
  have hsize : (q.rearrange n).size = q.size := by
    unfold rearrange
    dsimp only
    split_ifs <;> rfl
  have hhead' : (q.rearrange n).head = q.head := by
    unfold rearrange
    dsimp only
    split_ifs <;> rfl
  constructor
  · refine ⟨?_, ?_, ?_, ?_⟩
    · show (q.rearrange n).head < (q.rearrange n).capacity
      omega
    · show (q.rearrange n).size = xs.length
      rw [hsize, h.size_eq]
    · show xs.length ≤ (q.rearrange n).capacity
      have := h.size_eq
      omega
    · intro i hi
      have hread := h.holds.read_index i hi
      have hsize' := h.size_eq
      have hindex : q.row.index i =
          if q.head + i < q.capacity then q.head + i else q.head + i - q.capacity :=
        index_eq hhead (show i ≤ q.capacity by omega)
      have hindex' : (q.rearrange n).row.index i =
          if q.head + i < n then q.head + i else q.head + i - n := by
        rw [index_eq (show (q.rearrange n).head < (q.rearrange n).capacity by omega)
          (show i ≤ (q.rearrange n).capacity by omega)]
        show (if (q.rearrange n).head + i < (q.rearrange n).capacity then
          (q.rearrange n).head + i else (q.rearrange n).head + i - (q.rearrange n).capacity) = _
        rw [hhead', hcapacity]
      rw [← hread, hindex, hindex']
      show (q.rearrange n).array[_]?.join = q.array[_]?.join
      by_cases hfront : q.head + i < q.capacity
      · rw [if_pos (by omega), if_pos hfront]
        exact (read_rearrange htail hhead hn _).1 (by omega) hfront
      · rw [if_neg hfront]
        by_cases hroom : q.head + i < n
        · rw [if_pos hroom]
          exact (read_rearrange htail hhead hn _).2.1 (by omega) hroom (by omega)
        · rw [if_neg hroom, (read_rearrange htail hhead hn _).2.2 (by omega)]
          congr 2
          omega
  · rw [hhead', hsize, hcapacity]
    unfold rearrange
    dsimp only
    rw [if_pos (by omega)]
    split_ifs with hslots
    · show q.tail + q.capacity = _
      rw [mod_eq_of_lt (by omega)]
      omega
    · show q.tail - min q.tail (n - q.capacity) = _
      rw [mod_eq_sub_mod (by omega), mod_eq_of_lt (by omega)]
      omega

/-- What making room does: the row is the same, and has room for one more. -/
theorem stores_ensureCapacity {limit : ℕ} {allocated : Bool} {q₁ : MessageQueue}
    (h : Stores q xs) (hq₁ : q.ensureCapacity limit 1 allocated = some q₁) :
    Stores q₁ xs ∧ q₁.size < q₁.capacity ∧ q₁.closed = q.closed := by
  have hle : q.size ≤ q.capacity := by
    rw [h.size_eq]
    exact h.holds.length_le
  unfold ensureCapacity at hq₁
  dsimp only at hq₁
  split_ifs at hq₁ with hlimit hroom hallocated
  · obtain rfl := some.inj hq₁
    have hfull : q.size = q.capacity := by omega
    have hstores := stores_rearrange h hfull (n := q.size + 1 + 128) (by omega)
    have hcapacity := capacity_rearrange q (n := q.size + 1 + 128) (by omega)
    refine ⟨hstores, ?_, ?_⟩
    · rw [hstores.size_eq, ← h.size_eq, hcapacity]
      omega
    · unfold rearrange
      dsimp only
      split_ifs <;> rfl
  · obtain rfl := some.inj hq₁
    exact ⟨h, by omega, rfl⟩

/-- The message a dispatch accepts. -/
def stamped (message : WMessage) (now : ℕ) : WMessage := { message with time := now }

/-- A dispatch is refused and changes nothing, or puts its message behind the others. -/
theorem dispatch_cases (limit : ℕ) (h : Stores q xs) (message : Option WMessage) (now : ℕ)
    (allocated : Bool) :
    q.dispatch limit message now allocated = (q, false) ∨
      ∃ m q', message = some m ∧ q.closed = false ∧
        q.dispatch limit message now allocated = (q', true) ∧
        Stores q' (xs ++ [stamped m now]) ∧ q'.event = true ∧
        q'.closed = decide (m.id = wmqQuit) := by
  cases message with
  | none => exact .inl rfl
  | some m =>
    rw [dispatch]
    cases hclosed : q.closed with
    | true => exact .inl (if_pos rfl)
    | false =>
      cases hq₁ : q.ensureCapacity limit 1 allocated with
      | none => exact .inl (if_neg (by decide))
      | some q₁ =>
        obtain ⟨hstores, hroom, hclosed₁⟩ := stores_ensureCapacity h hq₁
        have hput := hstores.holds.put (x := stamped m now) hroom
        refine .inr ⟨m, _, rfl, rfl, if_neg (by decide), ⟨?_, ?_⟩, rfl, ?_⟩
        · -- the slot behind the row is the one at the tail
          rw [hstores.tail_eq]
          exact hput
        · show (q₁.tail + 1) % q₁.capacity = (q₁.head + (q₁.size + 1)) % _
          rw [hstores.tail_eq, Nat.mod_add_mod, Nat.add_assoc]
          simp [capacity]
        · show (q₁.closed || decide (m.id = wmqQuit)) = _
          rw [hclosed₁, hclosed, Bool.false_or]

/-- The oldest message is taken. -/
theorem stores_take {x : WMessage} (h : Stores q (x :: xs)) :
    Stores q.take xs ∧ q.first = some x := by
  have hsize := h.size_eq
  rw [length_cons] at hsize
  refine ⟨⟨h.holds.take, ?_⟩, h.holds.read_head⟩
  have hcapacity : q.take.capacity = q.capacity := length_set
  show q.tail = ((q.head + 1) % q.capacity + (q.size - 1)) % q.take.capacity
  rw [hcapacity, h.tail_eq, Nat.mod_add_mod]
  congr 1
  omega

/-- With a message waiting, `MessageQueue_Get` and a removing `MessageQueue_Peek` give it out. -/
theorem getLocked_cons {x : WMessage} (h : Stores q (x :: xs)) :
    q.getLocked = (q.take, if x.id ≠ wmqQuit then 1 else 0, some x) ∧
      q.peek true = (q.take, 1, some x) := by
  have hsize : q.size > 0 := by
    rw [h.size_eq]
    exact succ_pos _
  rw [getLocked, peek, if_pos hsize, if_pos hsize, (stores_take h).2]
  exact ⟨rfl, rfl⟩

/-- With none they say so. -/
theorem getLocked_nil (h : Stores q []) :
    q.getLocked = (q, -1, none) ∧ q.peek true = (q, 0, none) := by
  have hsize : ¬ q.size > 0 := by
    rw [h.size_eq]
    exact lt_irrefl 0
  rw [getLocked, peek, if_neg hsize, if_neg hsize]
  exact ⟨rfl, rfl⟩

/-- An open queue takes a message when it is below its limit and there is memory. -/
theorem dispatch_accepted {limit : ℕ} (hopen : q.closed = false) (hroom : q.size < limit)
    (m : WMessage) (now : ℕ) : (q.dispatch limit (some m) now true).2 = true := by
  have hmade : (q.ensureCapacity limit 1 true).isSome := by
    rw [ensureCapacity]
    rw [if_neg (by omega)]
    split <;> rfl
  obtain ⟨q₁, hq₁⟩ := isSome_iff_exists.1 hmade
  rw [dispatch, hopen, hq₁]
  rfl

theorem stores_dropAll (h : Stores q xs) : Stores q.dropAll [] := by
  induction xs generalizing q with
  | nil =>
    rw [dropAll, if_pos (show q.size = 0 from h.size_eq)]
    exact h
  | cons x xs ih =>
    have hsize := h.size_eq
    rw [length_cons] at hsize
    rw [dropAll, if_neg (by omega)]
    apply ih
    obtain ⟨hholds, htail⟩ := (stores_take h).1
    exact ⟨hholds, htail⟩

theorem stores_new {limit : ℕ} {allocated created : Bool}
    (h : new limit allocated created = some q) :
    Stores q [] ∧ q.event = false ∧ q.closed = false := by
  have hq : q = rearrange 160 {} := by
    rw [new, ensureCapacity] at h
    dsimp only at h
    split_ifs at h with _ hlimit hroom hallocated
    · exact (some.inj h).symm
    · exact absurd (show 32 > 0 by omega) hroom
  have hcapacity : q.capacity = 160 := by
    rw [hq]
    exact capacity_rearrange {} (zero_le 160)
  have hhead : q.head = 0 := by
    rw [hq]
    rfl
  have hsize : q.size = 0 := by
    rw [hq]
    rfl
  refine ⟨⟨⟨?_, hsize, zero_le _, nofun⟩, ?_⟩, ?_, ?_⟩
  · show q.head < q.capacity
    omega
  · rw [hhead, hsize, hcapacity, hq]
    rfl
  · rw [hq]
    rfl
  · rw [hq]
    rfl

end MessageQueue

/-! ## Threads -/

/-- The queue between the threads that use it: which of them are past the wait of
`MessageQueue_Get`, and what was accepted and given out, in order, since the queue was made or
last cleared. -/
structure MessageTraffic where
  queue : MessageQueue
  woken : ℕ → Bool := fun _ => false
  accepted : List WMessage := []
  returned : List WMessage := []

/-- What a thread does, and what the system answers. -/
inductive MessageLabel where
  | dispatch (message : Option WMessage) (now : ℕ) (allocated : Bool)
  | post (context : ℕ) (type : UInt32) (wParam lParam now : ℕ) (allocated : Bool)
  | postQuit (exitCode now : ℕ) (allocated : Bool)
  /-- The wait of `MessageQueue_Get` ends. -/
  | wake (thread : ℕ)
  /-- The rest of `MessageQueue_Get`. -/
  | get (thread : ℕ)
  | peek (remove : Bool)
  | clear
  deriving DecidableEq

namespace MessageTraffic

open MessageQueue

/-- A queue without a past. -/
def start (q : MessageQueue) : MessageTraffic := { queue := q }

/-- A message is offered. -/
def onDispatch (limit : ℕ) (s : MessageTraffic) (message : Option WMessage) (now : ℕ)
    (allocated : Bool) : MessageTraffic :=
  let r := s.queue.dispatch limit message now allocated
  { s with
    queue := r.1
    accepted := s.accepted ++
      if r.2 then (message.map fun m => stamped m now).toList else [] }

/-- A message is given out. -/
def onReturn (s : MessageTraffic) (r : MessageQueue × Int × Option WMessage) : MessageTraffic :=
  { s with queue := r.1, returned := s.returned ++ r.2.2.toList }

/-- A step of the threads. -/
def step (limit : ℕ) (s : MessageTraffic) : MessageLabel → Option MessageTraffic
  | .dispatch message now allocated => some (s.onDispatch limit message now allocated)
  | .post context type wParam lParam now allocated =>
    some (s.onDispatch limit (some (postMessage context type wParam lParam)) now allocated)
  | .postQuit exitCode now allocated =>
    some (s.onDispatch limit (some (quitMessage exitCode)) now allocated)
  | .wake thread =>
    if s.queue.event ∧ ¬ s.woken thread then
      some { s with woken := Function.update s.woken thread true }
    else none
  | .get thread =>
    if s.woken thread then
      some { s.onReturn s.queue.getLocked with woken := Function.update s.woken thread false }
    else none
  | .peek true => some (s.onReturn (s.queue.peek true))
  | .peek false => some { s with queue := (s.queue.peek false).1 }
  | .clear => some { s with queue := s.queue.clear, accepted := [], returned := [] }

/-- The messages that wait in the queue. -/
def waiting (s : MessageTraffic) : List WMessage := s.queue.row.contents

/-- A quit is the last message accepted. -/
def QuitLast (accepted : List WMessage) : Prop :=
  ∀ front m rest, accepted = front ++ m :: rest → m.id = wmqQuit → rest = []

/-! ## The invariant -/

/-- `xs` waits: it is what was accepted and not given out; the queue is closed when a quit was
accepted, which is the last one then; and the event is signalled while a message waits. -/
structure Waits (s : MessageTraffic) (xs : List WMessage) : Prop where
  stores : Stores s.queue xs
  accepted_eq : s.accepted = s.returned ++ xs
  quitLast : QuitLast s.accepted
  closed : ∀ m ∈ s.accepted, m.id = wmqQuit → s.queue.closed = true
  event : s.queue.event = decide (xs ≠ [])

variable {limit : ℕ} {s t : MessageTraffic} {xs : List WMessage}

theorem Waits.waiting_eq (h : Waits s xs) : s.waiting = xs := h.stores.holds.contents_eq

theorem waits_start {q : MessageQueue} {allocated created : Bool}
    (h : MessageQueue.new limit allocated created = some q) : Waits (start q) [] := by
  obtain ⟨hstores, hevent, -⟩ := stores_new h
  refine ⟨hstores, rfl, ?_, nofun, hevent⟩
  intro front m rest heq
  have hlength := congrArg List.length heq
  simp [start] at hlength

/-- A message behind messages none of which is a quit. -/
theorem quitLast_append {accepted : List WMessage} (h : ∀ m ∈ accepted, m.id ≠ wmqQuit)
    (m : WMessage) : QuitLast (accepted ++ [m]) := by
  intro front m' rest heq hquit
  rcases eq_nil_or_concat rest with rfl | ⟨rest', last, rfl⟩
  · rfl
  · rw [concat_eq_append, ← cons_append, ← append_assoc] at heq
    have hfront := (append_inj' heq rfl).1
    refine absurd hquit (h m' ?_)
    rw [hfront]
    exact mem_append_right front mem_cons_self

theorem Waits.dispatch (h : Waits s xs) (message : Option WMessage) (now : ℕ)
    (allocated : Bool) : ∃ ys, Waits (s.onDispatch limit message now allocated) ys := by
  rcases dispatch_cases limit h.stores message now allocated with
    hrefused | ⟨m, q', rfl, hopen, haccepted, hstores, hevent, hclosed⟩
  · refine ⟨xs, ?_⟩
    rw [onDispatch, hrefused]
    dsimp only
    rw [if_neg (by decide), append_nil]
    exact ⟨h.stores, h.accepted_eq, h.quitLast, h.closed, h.event⟩
  · refine ⟨xs ++ [stamped m now], ?_⟩
    rw [onDispatch, haccepted]
    -- no quit was accepted while the queue is open
    have hquit : ∀ m' ∈ s.accepted, m'.id ≠ wmqQuit := by
      intro m' hm' hid
      rw [h.closed m' hm' hid] at hopen
      cases hopen
    refine ⟨hstores, ?_, quitLast_append hquit _, ?_, ?_⟩
    · show s.accepted ++ [stamped m now] = _
      rw [h.accepted_eq, append_assoc]
    · intro m' hm' hid
      show q'.closed = true
      rw [hclosed]
      rcases mem_append.1 hm' with hold | hnew
      · exact absurd hid (hquit m' hold)
      · obtain rfl := mem_singleton.1 hnew
        exact decide_eq_true hid
    · show q'.event = _
      rw [hevent]
      exact (decide_eq_true
        (append_ne_nil_of_right_ne_nil xs (cons_ne_nil _ _))).symm

/-- The oldest message is given out. -/
theorem Waits.taken {x : WMessage} (h : Waits s (x :: xs)) (status : Int) :
    Waits (s.onReturn (s.queue.take, status, some x)) xs := by
  obtain ⟨hstores, -⟩ := stores_take h.stores
  refine ⟨hstores, ?_, h.quitLast, h.closed, ?_⟩
  · show s.accepted = s.returned ++ [x] ++ xs
    rw [h.accepted_eq, append_assoc]
    rfl
  · show (if s.queue.size - 1 < 1 then false else s.queue.event) = _
    have hsize := h.stores.size_eq
    rw [length_cons] at hsize
    cases xs with
    | nil => exact if_pos (by rw [hsize]; decide)
    | cons y ys =>
      rw [length_cons] at hsize
      rw [if_neg (by omega), h.event]
      rfl

theorem Waits.getLocked (h : Waits s xs) : ∃ ys, Waits (s.onReturn s.queue.getLocked) ys := by
  cases xs with
  | nil =>
    refine ⟨[], ?_⟩
    rw [(getLocked_nil h.stores).1, onReturn]
    dsimp only
    rw [toList_none, append_nil]
    exact h
  | cons x xs =>
    refine ⟨xs, ?_⟩
    rw [(getLocked_cons h.stores).1]
    exact h.taken _

theorem Waits.peek (h : Waits s xs) : ∃ ys, Waits (s.onReturn (s.queue.peek true)) ys := by
  cases xs with
  | nil =>
    refine ⟨[], ?_⟩
    rw [(getLocked_nil h.stores).2, onReturn]
    dsimp only
    rw [toList_none, append_nil]
    exact h
  | cons x xs =>
    refine ⟨xs, ?_⟩
    rw [(getLocked_cons h.stores).2]
    exact h.taken _

theorem Waits.clear (h : Waits s xs) :
    Waits { s with queue := s.queue.clear, accepted := [], returned := [] } [] := by
  obtain ⟨hholds, htail⟩ := stores_dropAll h.stores
  refine ⟨⟨hholds, htail⟩, rfl, ?_, nofun, rfl⟩
  intro front m rest heq
  have hlength := congrArg List.length heq
  simp at hlength

/-- **Step lemma.** -/
theorem waits_step {a : MessageLabel} (h : Waits s xs) (hstep : step limit s a = some t) :
    ∃ ys, Waits t ys := by
  cases a with
  | dispatch message now allocated =>
    obtain rfl := some.inj hstep
    exact h.dispatch message now allocated
  | post context type wParam lParam now allocated =>
    obtain rfl := some.inj hstep
    exact h.dispatch _ now allocated
  | postQuit exitCode now allocated =>
    obtain rfl := some.inj hstep
    exact h.dispatch _ now allocated
  | wake thread =>
    obtain ⟨-, hstep⟩ := ite_none_right_eq_some.1 hstep
    obtain rfl := some.inj hstep
    exact ⟨xs, h.stores, h.accepted_eq, h.quitLast, h.closed, h.event⟩
  | get thread =>
    obtain ⟨-, hstep⟩ := ite_none_right_eq_some.1 hstep
    obtain rfl := some.inj hstep
    obtain ⟨ys, hys⟩ := h.getLocked
    exact ⟨ys, hys.stores, hys.accepted_eq, hys.quitLast, hys.closed, hys.event⟩
  | peek remove =>
    cases remove with
    | true =>
      obtain rfl := some.inj hstep
      exact h.peek
    | false =>
      obtain rfl := some.inj hstep
      have hqueue : (s.queue.peek false).1 = s.queue := by
        rw [MessageQueue.peek]
        by_cases hsize : s.queue.size > 0
        · rw [if_pos hsize]
          rfl
        · rw [if_neg hsize]
      rw [hqueue]
      exact ⟨xs, h⟩
  | clear =>
    obtain rfl := some.inj hstep
    exact ⟨[], h.clear⟩

/-- What a call that takes a message answers: the status, the message, and what waits behind
it. -/
def Answers (r : MessageQueue × Int × Option WMessage) (status : Int) (x : Option WMessage)
    (waiting : List WMessage) : Prop :=
  r.2 = (status, x) ∧ r.1.row.contents = waiting

/-- **The queue is a FIFO that ends with a quit.**  After any run: what was given out, and what
waits behind it, are the messages accepted, in order; a dispatch that fails changes nothing; the
oldest message that waits is what the next call takes; nothing is accepted after a quit; and the
event is signalled exactly when a message waits. -/
theorem messageQueue_fifo {allocated created : Bool} {q : MessageQueue}
    (hnew : MessageQueue.new limit allocated created = some q) {as : List MessageLabel}
    (hrun : run (step limit) (start q) as = some s) :
    s.returned <+: s.accepted ∧ s.accepted = s.returned ++ s.waiting ∧
      (∀ message now allocated, (s.queue.dispatch limit message now allocated).2 = false →
        (s.queue.dispatch limit message now allocated).1 = s.queue) ∧
      (∀ m now, s.queue.closed = false → s.waiting.length < limit →
        (s.queue.dispatch limit (some m) now true).2 = true) ∧
      (∀ x xs, s.waiting = x :: xs →
        Answers s.queue.getLocked (if x.id ≠ wmqQuit then 1 else 0) (some x) xs ∧
          Answers (s.queue.peek true) 1 (some x) xs) ∧
      (s.waiting = [] → Answers s.queue.getLocked (-1) none [] ∧
        Answers (s.queue.peek true) 0 none []) ∧
      QuitLast s.accepted ∧ (s.queue.event = true ↔ s.waiting ≠ []) := by
  have hwaits : ∃ xs, Waits s xs :=
    run_induct (P := fun s => ∃ xs, Waits s xs) (fun _ _ _ ⟨_, h⟩ => waits_step h)
      ⟨[], waits_start hnew⟩ hrun
  obtain ⟨xs, h⟩ := hwaits
  have hwaiting := h.waiting_eq
  refine ⟨?_, ?_, ?_, ?_, ?_, ?_, h.quitLast, ?_⟩
  · rw [h.accepted_eq]
    exact prefix_append _ _
  · rw [hwaiting]
    exact h.accepted_eq
  · intro message now allocated hfalse
    rcases dispatch_cases limit h.stores message now allocated with
      hrefused | ⟨_, _, _, _, haccepted, -⟩
    · rw [hrefused]
    · rw [haccepted] at hfalse
      cases hfalse
  · intro m now hopen hroom
    rw [hwaiting, ← h.stores.size_eq] at hroom
    exact dispatch_accepted hopen hroom m now
  · intro x ys hcons
    have hstores := h.stores
    rw [hwaiting.symm.trans hcons] at hstores
    have hrest := (stores_take hstores).1.holds.contents_eq
    obtain ⟨hget, hpeek⟩ := getLocked_cons hstores
    rw [hget, hpeek]
    exact ⟨⟨rfl, hrest⟩, rfl, hrest⟩
  · intro hnil
    have hstores := h.stores
    rw [hwaiting.symm.trans hnil] at hstores
    obtain ⟨hget, hpeek⟩ := getLocked_nil hstores
    rw [hget, hpeek]
    exact ⟨⟨rfl, hstores.holds.contents_eq⟩, rfl, hstores.holds.contents_eq⟩
  · rw [h.event, hwaiting, decide_eq_true_iff]

set_option maxRecDepth 4000 in
/-- Two threads wait for one message: the second finds the queue empty.  Then a quit waits behind
a message. -/
theorem messageQueue_fifo_sample : ∃ s x y, run (step 1000) (start (MessageQueue.rearrange 160 {}))
      [.post 0 7 0 0 5 true, .wake 1, .wake 2, .get 2, .get 1, .post 0 8 0 0 6 true,
        .postQuit 0 6 true] = some s ∧
    s.waiting = [x, y] ∧ y.id = wmqQuit ∧ Answers s.queue.getLocked 1 (some x) [y] := by
  have hnew : MessageQueue.new 1000 true true = some (MessageQueue.rearrange 160 {}) := rfl
  have hfifo := messageQueue_fifo hnew (rfl : run (step 1000) _
    [.post 0 7 0 0 5 true, .wake 1, .wake 2, .get 2, .get 1, .post 0 8 0 0 6 true,
      .postQuit 0 6 true] = _)
  exact ⟨_, _, _, rfl, rfl, rfl, (hfifo.2.2.2.2.1 _ _ rfl).1⟩

end MessageTraffic
