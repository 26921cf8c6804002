/-
# Closing dynamic channels

The reference counts of the `drdynvc` client: the channels, the table `channelsById` and the
threads that close channels while the receiver handles PDUs.  A step is a locked section of the
table, an interlocked operation on a count, or the handler code between two of them.

A count that reaches zero and the removal of the channel from the table are two steps, and between
them `dvcman_get_channel_by_id` still finds the channel.

Freed channels stay in the model's memory, for what is said about them, but no step touches one.
-/
import Mathlib.Data.Int.Basic
import XyDeskRemote.LabelledRun

open LabelledRun Function Option Or

namespace DvcmanClose

/-! ## Channels -/

/-- `DVC_CHANNEL_STATE`. -/
inductive ChannelState where
  | init
  | running
  | closed
  deriving DecidableEq

/-- `DVCMAN_CHANNEL`, and how often its `OnClose` was called and it was passed to
`dvcman_channel_free`. -/
structure Channel where
  channelId : ℕ
  refCounter : ℤ
  state : ChannelState
  channelCallback : Bool
  closes : ℕ
  frees : ℕ

/-- The memory, and the table from channel ids to channels. -/
structure Dvcman where
  heap : ℕ → Option Channel
  channelsById : ℕ → Option ℕ

/-- A channel that was not freed. -/
def Dvcman.live (d : Dvcman) (a : ℕ) : Option Channel :=
  (d.heap a).filter fun ch => ch.frees = 0

/-- A channel is written back. -/
def Dvcman.set (d : Dvcman) (a : ℕ) (ch : Channel) : Dvcman :=
  { d with heap := update d.heap a (some ch) }

/-- `dvcman_channel_close`, up to the release of the reference. -/
def Channel.close (ch : Channel) : Channel :=
  match ch.state with
  | .running =>
    { ch with
      state := .closed
      channelCallback := false
      closes := ch.closes + if ch.channelCallback then 1 else 0 }
  | _ => ch

/-- `channelByIdCleanerFn`. -/
def Channel.clean (ch : Channel) : Channel := { ch.close with frees := ch.close.frees + 1 }

/-- `HashTable_Remove`, with the cleaner of the table. -/
def Dvcman.remove (d : Dvcman) (channelId : ℕ) : Dvcman :=
  match d.channelsById channelId with
  | none => d
  | some a =>
    { heap := update d.heap a ((d.heap a).map Channel.clean)
      channelsById := update d.channelsById channelId none }

/-! ## Threads -/

/-- The reference that a thread gives up: that of the open channel when it is closed, that of a
channel which could not be created, or the one of `dvcman_get_channel_by_id`. -/
inductive Reference where
  | closing
  | created
  | found
  deriving DecidableEq

/-- What a thread is about to do in `dvcman_channel_unref`. -/
inductive Task where
  | idle
  | unref (r : Reference) (a : ℕ)
  | remove (a : ℕ)
  deriving DecidableEq

/-- Where the receiver is in the handler of a PDU. -/
inductive Phase where
  | idle
  | inserting (channelId : ℕ)
  | connecting (a : ℕ)
  | sending (a : ℕ)
  | found (a : ℕ) (data : Bool)
  | receiving (a : ℕ)
  | closing (a : ℕ)

/-- The channels, the receiver, and the tasks of the threads; `none` is the receiver. -/
structure State where
  dvcman : Dvcman
  phase : Phase
  tasks : Option ℕ → Task

/-- A thread has a task. -/
def setTask (tasks : Option ℕ → Task) (i : Option ℕ) (task : Task) : Option ℕ → Task :=
  update tasks i task

/-- A call of `dvcman_channel_close`. -/
def callClose (s : State) (i : Option ℕ) (a : ℕ) (phase : Phase) : Option State :=
  (s.dvcman.live a).map fun ch =>
    { dvcman := s.dvcman.set a ch.close
      phase
      tasks := setTask s.tasks i (if ch.state = .running then .unref .closing a else .idle) }

/-- `dvcman_channel_unref`: the count, and then the removal when it is zero. -/
def runTask (s : State) (i : Option ℕ) : Option State :=
  match s.tasks i with
  | .idle => none
  | .unref _ a =>
    (s.dvcman.live a).map fun ch =>
      { s with
        dvcman := s.dvcman.set a { ch with refCounter := ch.refCounter - 1 }
        tasks := setTask s.tasks i (if (ch.refCounter - 1 : ℤ) = 0 then .remove a else .idle) }
  | .remove a =>
    (s.dvcman.live a).map fun ch =>
      { s with dvcman := s.dvcman.remove ch.channelId, tasks := setTask s.tasks i .idle }

/-- The receiver is done with its PDU, but for a reference. -/
def giveUp (s : State) (r : Reference) (a : ℕ) : State :=
  { s with phase := .idle, tasks := setTask s.tasks none (.unref r a) }

/-- What happens next in the receiver; the arguments are the surroundings' answers. -/
inductive ReceiverStep where
  | create (channelId : ℕ)
  | insert (a : ℕ)
  | insertFails
  | connect (accepted : Bool)
  | sent (givesUp : Bool)
  | lookup (channelId : ℕ) (data : Bool)
  | handle
  | nested (a : ℕ)
  | finish (failed : Bool)

/-- The handlers of `drdynvc_order_recv`. -/
def receive (s : State) : Phase → ReceiverStep → Option State
  -- `drdynvc_process_create_request`
  | .idle, .create channelId =>
    match s.dvcman.channelsById channelId with
    | some _ => some s
    | none => some { s with phase := .inserting channelId }
  | .inserting channelId, .insert a =>
    match s.dvcman.heap a with
    | some _ => none
    | none =>
      let ch : Channel :=
        { channelId, refCounter := 1, state := .init, channelCallback := false,
          closes := 0, frees := 0 }
      some { s with
        dvcman :=
          { heap := update s.dvcman.heap a (some ch)
            channelsById := update s.dvcman.channelsById channelId (some a) }
        phase := .connecting a }
  | .inserting _, .insertFails => some { s with phase := .idle }
  | .connecting a, .connect true =>
    (s.dvcman.live a).map fun ch =>
      { s with
        dvcman := s.dvcman.set a { ch with state := .running, channelCallback := true }
        phase := .sending a }
  | .connecting a, .connect false => some (giveUp s .created a)
  | .sending _, .sent false => some { s with phase := .idle }
  | .sending a, .sent true => some (giveUp s .created a)
  -- `dvcman_get_channel_by_id`
  | .idle, .lookup channelId data =>
    match s.dvcman.channelsById channelId with
    | none => some s
    | some a =>
      (s.dvcman.live a).map fun ch =>
        { s with
          dvcman := s.dvcman.set a { ch with refCounter := ch.refCounter + 1 }
          phase := .found a data }
  -- `drdynvc_process_data_first` and `drdynvc_process_data`
  | .found a true, .handle =>
    (s.dvcman.live a).map fun ch =>
      if ch.state = .running then { s with phase := .receiving a } else giveUp s .found a
  | .receiving _, .nested b => callClose s none b s.phase
  | .receiving a, .finish false => some (giveUp s .found a)
  | .receiving a, .finish true => callClose s none a (.closing a)
  -- `drdynvc_process_close_request`
  | .found a false, .handle => callClose s none a (.closing a)
  | .closing a, .finish _ => some (giveUp s .found a)
  | _, _ => none

/-- Who acts: another thread, which closes a channel, a thread with a task, or the receiver. -/
inductive Label where
  | call (t a : ℕ)
  | go (i : Option ℕ)
  | receive (r : ReceiverStep)

/-- A step of the threads. -/
def step (s : State) : Label → Option State
  | .call t a => if s.tasks (some t) = .idle then callClose s (some t) a s.phase else none
  | .go i => runTask s i
  | .receive r => if s.tasks none = .idle then receive s s.phase r else none

/-- No channels, no PDU and no tasks. -/
def initial : State :=
  { dvcman := { heap := fun _ => none, channelsById := fun _ => none }
    phase := .idle
    tasks := fun _ => .idle }

/-! ## The invariant -/

/-- The channel that the receiver's handler has a reference to. -/
def Phase.held : Phase → Option ℕ
  | .found a _ => some a
  | .receiving a => some a
  | .closing a => some a
  | _ => none

/-- The receiver has a reference of `dvcman_get_channel_by_id` that it has not released. -/
def Holds (tasks : Option ℕ → Task) (held : Option ℕ) (a : ℕ) : Prop :=
  held = some a ∨ tasks none = .unref .found a

/-- The reference of the open channel was not given up: it is not closed, or the thread that has
closed it is about to. -/
def Based (tasks : Option ℕ → Task) (a : ℕ) (ch : Channel) : Prop :=
  ch.state ≠ .closed ∨ ∃ i, tasks i = .unref .closing a

open Classical in
/-- The count of that reference. -/
noncomputable def base (tasks : Option ℕ → Task) (a : ℕ) (ch : Channel) : ℤ :=
  if Based tasks a ch then 1 else 0

/-- **The invariant.**  A channel is in the table until it is freed; it is closed by one thread,
which gives up one reference; and while the receiver holds it, its count is the number of its
references. -/
structure Inv (d : Dvcman) (tasks : Option ℕ → Task) (held : Option ℕ) : Prop where
  closes : ∀ a ch, d.heap a = some ch →
    ch.closes ≤ 1 ∧ (ch.state ≠ .closed → ch.closes = 0)
  frees : ∀ a ch, d.heap a = some ch →
    ch.frees ≤ 1 ∧ (ch.frees = 0 ↔ d.channelsById ch.channelId = some a)
  table : ∀ channelId a, d.channelsById channelId = some a →
    ∃ ch, d.heap a = some ch ∧ ch.channelId = channelId
  closing : ∀ i a, tasks i = .unref .closing a →
    ∃ ch, d.heap a = some ch ∧ ch.state = .closed
  unique : ∀ i j a, tasks i = .unref .closing a → tasks j = .unref .closing a → i = j
  created : ∀ i a, tasks i = .unref .created a → i = none ∧ held = none
  found : ∀ i a, tasks i = .unref .found a → i = none ∧ held = none
  removing : ∀ i a, tasks i = .remove a → ∃ ch, d.heap a = some ch ∧ ch.refCounter ≤ 0
  holds : ∀ a, Holds tasks held a →
    ∃ ch, d.heap a = some ch ∧ ch.frees = 0 ∧ ch.refCounter = base tasks a ch + 1
  free : ∀ a ch, d.heap a = some ch → ¬ Holds tasks held a → ch.refCounter ≤ base tasks a ch

variable {s t : State} {d : Dvcman} {tasks : Option ℕ → Task} {held : Option ℕ}
  {i : Option ℕ} {a b : ℕ} {ch : Channel}

theorem base_nonneg : 0 ≤ base tasks a ch := by
  rw [base]
  split <;> omega

theorem base_le_one : base tasks a ch ≤ 1 := by
  rw [base]
  split <;> omega

theorem base_of_based (h : Based tasks a ch) : base tasks a ch = 1 := if_pos h

theorem base_of_not_based (h : ¬ Based tasks a ch) : base tasks a ch = 0 := if_neg h

theorem base_congr {tasks' : Option ℕ → Task} {ch' : Channel}
    (h : Based tasks a ch ↔ Based tasks' a ch') : base tasks a ch = base tasks' a ch' := by
  by_cases hb : Based tasks a ch
  · rw [base_of_based hb, base_of_based (h.1 hb)]
  · rw [base_of_not_based hb, base_of_not_based fun hb' => hb (h.2 hb')]

@[simp] theorem setTask_self (tasks : Option ℕ → Task) (i : Option ℕ) (task : Task) :
    setTask tasks i task i = task := update_self ..

theorem setTask_of_ne {j : Option ℕ} (h : j ≠ i) (task : Task) :
    setTask tasks i task j = tasks j := update_of_ne h ..

/-- A task that somebody has after one was given out: it is the new one, or an old one of another
thread. -/
theorem setTask_cases {j : Option ℕ} {task task' : Task} (h : setTask tasks i task j = task') :
    (j = i ∧ task = task') ∨ (j ≠ i ∧ tasks j = task') := by
  by_cases hj : j = i
  · subst hj
    exact inl ⟨rfl, (setTask_self tasks j task).symm.trans h⟩
  · exact inr ⟨hj, (setTask_of_ne hj task).symm.trans h⟩

theorem live_eq_some : d.live a = some ch ↔ d.heap a = some ch ∧ ch.frees = 0 := by
  rw [Dvcman.live, filter_eq_some_iff]
  exact and_congr_right fun _ => decide_eq_true_iff

theorem heap_set_self (d : Dvcman) (a : ℕ) (ch : Channel) : (d.set a ch).heap a = some ch :=
  update_self ..

theorem heap_set_of_ne (h : b ≠ a) (ch : Channel) : (d.set a ch).heap b = d.heap b :=
  update_of_ne h ..

/-- A channel after another one was written back. -/
theorem heap_set_cases {ch' : Channel} (h : (d.set a ch).heap b = some ch') :
    (b = a ∧ ch = ch') ∨ (b ≠ a ∧ d.heap b = some ch') := by
  by_cases hb : b = a
  · subst hb
    exact inl ⟨rfl, some.inj ((heap_set_self d b ch).symm.trans h)⟩
  · exact inr ⟨hb, (heap_set_of_ne hb ch).symm.trans h⟩

/-- Two channels of one memory at one address are the same. -/
theorem heap_unique {ch' : Channel} (h : d.heap a = some ch) (h' : d.heap a = some ch') :
    ch = ch' := some.inj (h.symm.trans h')

/-- One channel is written back and one thread has a new task, which has to do with that channel
if with any; the receiver may have taken a reference. -/
theorem Inv.set {held' : Option ℕ} {task : Task} {ch' : Channel} (hinv : Inv d tasks held)
    (hheap : d.heap a = some ch) (hid : ch'.channelId = ch.channelId)
    (hfrees : ch'.frees = ch.frees)
    (hcloses : ch'.closes ≤ 1 ∧ (ch'.state ≠ .closed → ch'.closes = 0))
    (hclosed : ch.state = .closed → ch'.state = .closed)
    (htask : task = .idle ∨ task = .unref .closing a ∨ task = .remove a)
    (hclosing : task = .unref .closing a →
      ch'.state = .closed ∧ ∀ j, tasks j ≠ .unref .closing a)
    (hremoving : ∀ j, setTask tasks i task j = .remove a → ch'.refCounter ≤ 0)
    (hheld : held' = held ∨ setTask tasks i task none = .idle)
    (hother : ∀ b, b ≠ a → tasks i ≠ .unref .closing b ∧
      (Holds (setTask tasks i task) held' b ↔ Holds tasks held b))
    (hholds : Holds (setTask tasks i task) held' a →
      ch'.frees = 0 ∧ ch'.refCounter = base (setTask tasks i task) a ch' + 1)
    (hfree : ¬ Holds (setTask tasks i task) held' a →
      ch'.refCounter ≤ base (setTask tasks i task) a ch') :
    Inv (d.set a ch') (setTask tasks i task) held' := by
  -- the tasks that `task` is not are old ones
  have hold : ∀ {j : Option ℕ} {r : Reference} {b : ℕ}, r ≠ .closing →
      setTask tasks i task j = .unref r b → tasks j = .unref r b := by
    intro j r b hr hj
    rcases setTask_cases hj with ⟨-, heq⟩ | ⟨-, heq⟩
    · rw [heq] at htask
      rcases htask with h | h | h
      · exact absurd h (by simp)
      · exact absurd (Task.unref.inj h).1 hr
      · exact absurd h (by simp)
    · exact heq
  have hnone : ∀ {j : Option ℕ} {r : Reference} {b : ℕ}, setTask tasks i task j = .unref r b →
      j = none ∧ held = none → j = none ∧ held' = none := by
    rintro j r b hj ⟨rfl, hnone⟩
    refine ⟨rfl, ?_⟩
    rcases hheld with hheld | hidle
    · rw [hheld, hnone]
    · rw [hidle] at hj
      exact absurd hj (by simp)
  have hbase : ∀ {b : ℕ} {ch₀ : Channel}, b ≠ a →
      base (setTask tasks i task) b ch₀ = base tasks b ch₀ := by
    intro b ch₀ hne
    refine base_congr (or_congr_right ⟨?_, ?_⟩)
    · rintro ⟨j, hj⟩
      rcases setTask_cases hj with ⟨-, rfl⟩ | ⟨-, heq⟩
      · rcases htask with h | h | h
        · exact absurd h (by simp)
        · exact absurd (Task.unref.inj h).2 hne
        · exact absurd h (by simp)
      · exact ⟨j, heq⟩
    · rintro ⟨j, hj⟩
      refine ⟨j, ?_⟩
      rw [setTask_of_ne]
      · exact hj
      · rintro rfl
        exact (hother b hne).1 hj
  constructor
  case closes =>
    intro b ch₀ hb
    rcases heap_set_cases hb with ⟨rfl, rfl⟩ | ⟨-, hb⟩
    · exact hcloses
    · exact hinv.closes b ch₀ hb
  case frees =>
    intro b ch₀ hb
    rcases heap_set_cases hb with ⟨rfl, rfl⟩ | ⟨-, hb⟩
    · rw [hfrees, hid]
      exact hinv.frees b ch hheap
    · exact hinv.frees b ch₀ hb
  case table =>
    intro channelId b hb
    obtain ⟨ch₀, hheap₀, hid₀⟩ := hinv.table channelId b hb
    by_cases hba : b = a
    · subst hba
      refine ⟨ch', heap_set_self .., ?_⟩
      rw [hid, heap_unique hheap hheap₀, hid₀]
    · exact ⟨ch₀, by rwa [heap_set_of_ne hba], hid₀⟩
  case closing =>
    intro j b hj
    by_cases hba : b = a
    · subst hba
      refine ⟨ch', heap_set_self .., ?_⟩
      rcases setTask_cases hj with ⟨-, heq⟩ | ⟨-, heq⟩
      · exact (hclosing heq).1
      · obtain ⟨ch₀, hheap₀, hstate⟩ := hinv.closing j b heq
        exact hclosed (heap_unique hheap hheap₀ ▸ hstate)
    · rcases setTask_cases hj with ⟨-, rfl⟩ | ⟨-, heq⟩
      · rcases htask with h | h | h
        · exact absurd h (by simp)
        · exact absurd (Task.unref.inj h).2 hba
        · exact absurd h (by simp)
      · obtain ⟨ch₀, hheap₀, hstate⟩ := hinv.closing j b heq
        exact ⟨ch₀, by rwa [heap_set_of_ne hba], hstate⟩
  case unique =>
    intro j k b hj hk
    have hnobody : task = .unref .closing b → ∀ j, tasks j ≠ .unref .closing b := by
      intro heq
      rcases htask with h | h | h
      · exact absurd (heq.symm.trans h) (by simp)
      · obtain rfl : b = a := (Task.unref.inj (heq.symm.trans h)).2
        exact (hclosing h).2
      · exact absurd (heq.symm.trans h) (by simp)
    rcases setTask_cases hj with ⟨hji, heq⟩ | ⟨-, hj'⟩
    · rcases setTask_cases hk with ⟨hki, -⟩ | ⟨-, hk'⟩
      · exact hji.trans hki.symm
      · exact absurd hk' (hnobody heq k)
    · rcases setTask_cases hk with ⟨-, heq⟩ | ⟨-, hk'⟩
      · exact absurd hj' (hnobody heq j)
      · exact hinv.unique j k b hj' hk'
  case created =>
    intro j b hj
    exact hnone hj (hinv.created j b (hold (by decide) hj))
  case found =>
    intro j b hj
    exact hnone hj (hinv.found j b (hold (by decide) hj))
  case removing =>
    intro j b hj
    by_cases hba : b = a
    · subst hba
      exact ⟨ch', heap_set_self .., hremoving j hj⟩
    · rcases setTask_cases hj with ⟨-, rfl⟩ | ⟨-, heq⟩
      · rcases htask with h | h | h
        · exact absurd h (by simp)
        · exact absurd h (by simp)
        · exact absurd (Task.remove.inj h) hba
      · obtain ⟨ch₀, hb₀, hle⟩ := hinv.removing j b heq
        exact ⟨ch₀, by rwa [heap_set_of_ne hba], hle⟩
  case holds =>
    intro b hb
    by_cases hba : b = a
    · subst hba
      exact ⟨ch', heap_set_self .., hholds hb⟩
    · obtain ⟨ch₀, hb₀, hfree₀, hcount⟩ := hinv.holds b ((hother b hba).2.1 hb)
      exact ⟨ch₀, by rwa [heap_set_of_ne hba], hfree₀, by rw [hcount, hbase hba]⟩
  case free =>
    intro b ch₀ hb hnot
    rcases heap_set_cases hb with ⟨rfl, rfl⟩ | ⟨hne, hb⟩
    · exact hfree hnot
    · rw [hbase hne]
      exact hinv.free b ch₀ hb fun h => hnot ((hother b hne).2.2 h)

/-- The count of a channel that a thread is about to remove. -/
theorem Inv.refCounter_le (hinv : Inv d tasks held) (htask : tasks i = .remove a)
    (hheap : d.heap a = some ch) : ch.refCounter ≤ 0 := by
  obtain ⟨ch', hheap', hle⟩ := hinv.removing i a htask
  exact heap_unique hheap hheap' ▸ hle

/-- The receiver's references do not change with the task of a thread, unless that task is the
release of one. -/
theorem holds_setTask {task : Task} (hi : ∀ b, tasks i ≠ .unref .found b)
    (htask : ∀ b, task ≠ .unref .found b) (b : ℕ) :
    Holds (setTask tasks i task) held b ↔ Holds tasks held b := by
  refine or_congr_right ⟨fun h => ?_, fun h => ?_⟩
  · rcases setTask_cases h with ⟨-, heq⟩ | ⟨-, heq⟩
    · exact absurd heq (htask b)
    · exact heq
  · rw [setTask_of_ne]
    · exact h
    · rintro rfl
      exact hi b h

/-! ## Closing -/

theorem close_of_running (h : ch.state = .running) :
    ch.close = { ch with
      state := .closed
      channelCallback := false
      closes := ch.closes + if ch.channelCallback then 1 else 0 } := by
  rw [Channel.close, h]

theorem close_of_not_running (h : ch.state ≠ .running) : ch.close = ch := by
  rw [Channel.close]
  split
  next hrunning => exact absurd hrunning h
  next => rfl

@[simp] theorem channelId_close (ch : Channel) : ch.close.channelId = ch.channelId := by
  rw [Channel.close]
  split <;> rfl

@[simp] theorem refCounter_close (ch : Channel) : ch.close.refCounter = ch.refCounter := by
  rw [Channel.close]
  split <;> rfl

@[simp] theorem frees_close (ch : Channel) : ch.close.frees = ch.frees := by
  rw [Channel.close]
  split <;> rfl

theorem closes_close (h : ch.closes ≤ 1 ∧ (ch.state ≠ .closed → ch.closes = 0)) :
    ch.close.closes ≤ 1 ∧ (ch.close.state ≠ .closed → ch.close.closes = 0) := by
  by_cases hrunning : ch.state = .running
  · have hzero := h.2 (by rw [hrunning]; decide)
    rw [close_of_running hrunning]
    refine ⟨?_, fun hclosed => absurd rfl hclosed⟩
    dsimp only
    split <;> omega
  · rw [close_of_not_running hrunning]
    exact h

theorem state_close_of_closed (h : ch.state = .closed) : ch.close.state = .closed := by
  rw [close_of_not_running (by rw [h]; decide)]
  exact h

/-- **Closing keeps the invariant**, whoever does it. -/
theorem Inv.close (hinv : Inv d tasks held) (hidle : tasks i = .idle) (hlive : d.live a = some ch) :
    Inv (d.set a ch.close)
      (setTask tasks i (if ch.state = .running then .unref .closing a else .idle)) held := by
  obtain ⟨hheap, hfrees⟩ := live_eq_some.1 hlive
  have hholds : ∀ task : Task, (∀ b, task ≠ .unref .found b) → ∀ b,
      (Holds (setTask tasks i task) held b ↔ Holds tasks held b) := fun task htask =>
    holds_setTask (fun b => by rw [hidle]; simp) htask
  by_cases hrunning : ch.state = .running
  · have hclosed : ch.close.state = .closed := by
      rw [close_of_running hrunning]
    -- nobody else has closed the channel
    have hnobody : ∀ j, tasks j ≠ .unref .closing a := by
      intro j hj
      obtain ⟨ch', hheap', hstate⟩ := hinv.closing j a hj
      rw [← heap_unique hheap hheap', hrunning] at hstate
      exact absurd hstate (by decide)
    have hbase : base (setTask tasks i (.unref .closing a)) a ch.close = base tasks a ch := by
      rw [base_of_based (inr ⟨i, setTask_self ..⟩), base_of_based (inl (by rw [hrunning]; decide))]
    rw [if_pos hrunning]
    refine hinv.set hheap (channelId_close ch) (frees_close ch)
      (closes_close (hinv.closes a ch hheap)) (fun _ => hclosed) (inr (inl rfl))
      (fun _ => ⟨hclosed, hnobody⟩) ?_ (inl rfl) ?_ ?_ ?_
    · intro j hj
      rcases setTask_cases hj with ⟨-, heq⟩ | ⟨-, heq⟩
      · exact absurd heq (by simp)
      · rw [refCounter_close]
        exact hinv.refCounter_le heq hheap
    · exact fun b _ => ⟨by rw [hidle]; simp, hholds _ (by simp) b⟩
    · intro h
      obtain ⟨ch', hheap', hfree, hcount⟩ := hinv.holds a ((hholds _ (by simp) a).1 h)
      obtain rfl := heap_unique hheap hheap'
      exact ⟨(frees_close ch).trans hfree, by rw [refCounter_close, hcount, hbase]⟩
    · intro h
      rw [refCounter_close, hbase]
      exact hinv.free a ch hheap fun h' => h ((hholds _ (by simp) a).2 h')
  · -- nothing happens
    have hset : d.set a ch.close = d := by
      rw [close_of_not_running hrunning, Dvcman.set, ← hheap, update_eq_self]
    have htasks : setTask tasks i .idle = tasks := by
      rw [setTask, ← hidle, update_eq_self]
    rw [if_neg hrunning, hset, htasks]
    exact hinv

/-! ## Giving references up -/

/-- **The count goes down**, for any of the references. -/
theorem Inv.unref {r : Reference} (hinv : Inv d tasks held) (htask : tasks i = .unref r a)
    (hlive : d.live a = some ch) :
    Inv (d.set a { ch with refCounter := ch.refCounter - 1 })
      (setTask tasks i (if (ch.refCounter - 1 : ℤ) = 0 then .remove a else .idle)) held := by
  obtain ⟨hheap, hfrees⟩ := live_eq_some.1 hlive
  generalize hnext : (if (ch.refCounter - 1 : ℤ) = 0 then Task.remove a else .idle) = next
  have hcases : next = .idle ∨ next = .remove a ∧ ch.refCounter - 1 = 0 := by
    rw [← hnext]
    split
    next h => exact inr ⟨rfl, h⟩
    next => exact inl rfl
  have hnotUnref : ∀ r b, next ≠ .unref r b := by
    rintro r b rfl
    rcases hcases with h | ⟨h, -⟩
    · exact absurd h (by simp)
    · exact absurd h (by simp)
  have hremoving : ∀ j, setTask tasks i next j = .remove a → ch.refCounter - 1 ≤ 0 := by
    intro j hj
    rcases setTask_cases hj with ⟨-, rfl⟩ | ⟨-, heq⟩
    · rcases hcases with h | ⟨-, h⟩
      · exact absurd h (by simp)
      · exact Int.le_of_eq h
    · have hle := hinv.refCounter_le heq hheap
      omega
  -- what the reference was decides what the count is afterwards
  have hcount : (Holds (setTask tasks i next) held a →
        ch.frees = 0 ∧ ch.refCounter - 1 = base (setTask tasks i next) a ch + 1) ∧
      (¬ Holds (setTask tasks i next) held a →
        ch.refCounter - 1 ≤ base (setTask tasks i next) a ch) := by
    cases r with
    | closing =>
      obtain ⟨ch', hheap', hstate⟩ := hinv.closing i a htask
      obtain rfl := heap_unique hheap hheap'
      have hbefore : base tasks a ch = 1 := base_of_based (inr ⟨i, htask⟩)
      have hafter : base (setTask tasks i next) a ch = 0 := by
        refine base_of_not_based (not_or.2 ⟨not_not.2 hstate, ?_⟩)
        rintro ⟨j, hj⟩
        rcases setTask_cases hj with ⟨-, heq⟩ | ⟨hne, heq⟩
        · exact hnotUnref _ _ heq
        · exact hne (hinv.unique j i a heq htask)
      have hholds : Holds (setTask tasks i next) held a ↔ Holds tasks held a :=
        holds_setTask (fun b => by rw [htask]; simp) (hnotUnref .found) a
      rw [hafter]
      constructor
      · intro h
        obtain ⟨ch', hheap', hfree, hcount⟩ := hinv.holds a (hholds.1 h)
        obtain rfl := heap_unique hheap hheap'
        exact ⟨hfree, by omega⟩
      · intro h
        have hle := hinv.free a ch hheap fun h' => h (hholds.2 h')
        omega
    | created =>
      obtain ⟨rfl, rfl⟩ := hinv.created i a htask
      have hnot : ¬ Holds tasks none a := by
        rintro (h | h)
        · exact absurd h (by simp)
        · exact absurd (htask.symm.trans h) (by simp)
      have hnot' : ¬ Holds (setTask tasks none next) none a := by
        rintro (h | h)
        · exact absurd h (by simp)
        · exact hnotUnref _ _ ((setTask_self ..).symm.trans h)
      have hle := hinv.free a ch hheap hnot
      have hnonneg : 0 ≤ base (setTask tasks none next) a ch := base_nonneg
      have hone : base tasks a ch ≤ 1 := base_le_one
      exact ⟨fun h => absurd h hnot', fun _ => by omega⟩
    | found =>
      obtain ⟨rfl, rfl⟩ := hinv.found i a htask
      obtain ⟨ch', hheap', hfree, hcount⟩ := hinv.holds a (inr htask)
      obtain rfl := heap_unique hheap hheap'
      have hnot' : ¬ Holds (setTask tasks none next) none a := by
        rintro (h | h)
        · exact absurd h (by simp)
        · exact hnotUnref _ _ ((setTask_self ..).symm.trans h)
      have hbase : base (setTask tasks none next) a ch = base tasks a ch := by
        refine base_congr (or_congr_right ⟨?_, ?_⟩)
        · rintro ⟨j, hj⟩
          rcases setTask_cases hj with ⟨-, heq⟩ | ⟨-, heq⟩
          · exact absurd heq (hnotUnref _ _)
          · exact ⟨j, heq⟩
        · rintro ⟨j, hj⟩
          refine ⟨j, ?_⟩
          rw [setTask_of_ne]
          · exact hj
          · rintro rfl
            exact absurd (htask.symm.trans hj) (by simp)
      exact ⟨fun h => absurd h hnot', fun _ => by rw [hbase, hcount]; omega⟩
  refine hinv.set hheap rfl rfl (hinv.closes a ch hheap) id ?_ ?_ hremoving (inl rfl) ?_
    hcount.1 hcount.2
  · exact hcases.imp id fun h => inr h.1
  · exact fun h => absurd h (hnotUnref _ _)
  · intro b hne
    refine ⟨fun h => ?_, ?_⟩
    · exact hne (Task.unref.inj (h.symm.trans htask)).2
    · refine or_congr_right ⟨fun h => ?_, fun h => ?_⟩
      · rcases setTask_cases h with ⟨-, heq⟩ | ⟨-, heq⟩
        · exact absurd heq (hnotUnref _ _)
        · exact heq
      · rw [setTask_of_ne]
        · exact h
        · rintro rfl
          exact absurd (Task.unref.inj (h.symm.trans htask)).2 hne

/-- **A channel is removed**, by the thread that has brought its count to zero. -/
theorem Inv.remove (hinv : Inv d tasks held) (htask : tasks i = .remove a)
    (hlive : d.live a = some ch) :
    Inv (d.remove ch.channelId) (setTask tasks i .idle) held := by
  obtain ⟨hheap, hfrees⟩ := live_eq_some.1 hlive
  have hentry : d.channelsById ch.channelId = some a := (hinv.frees a ch hheap).2.1 hfrees
  have hremove : d.remove ch.channelId =
      { heap := update d.heap a (some ch.clean)
        channelsById := update d.channelsById ch.channelId none } := by
    rw [Dvcman.remove, hentry]
    dsimp only
    rw [hheap, map_some]
  have hcount : ch.refCounter ≤ 0 := hinv.refCounter_le htask hheap
  -- the receiver does not hold the channel
  have hnot : ¬ Holds tasks held a := by
    intro h
    obtain ⟨ch', hheap', -, hcount'⟩ := hinv.holds a h
    have hnonneg : 0 ≤ base tasks a ch' := base_nonneg
    rw [← heap_unique hheap hheap'] at hcount' hnonneg
    omega
  have hholds : ∀ b, Holds (setTask tasks i .idle) held b ↔ Holds tasks held b :=
    holds_setTask (fun b => by rw [htask]; simp) (by simp)
  have hold : ∀ {j : Option ℕ} {task : Task}, task ≠ .idle →
      setTask tasks i .idle j = task → tasks j = task := by
    intro j task hne hj
    rcases setTask_cases hj with ⟨-, heq⟩ | ⟨-, heq⟩
    · exact absurd heq.symm hne
    · exact heq
  have hbase : ∀ b ch', base (setTask tasks i .idle) b ch' = base tasks b ch' := by
    intro b ch'
    refine base_congr (or_congr_right ⟨?_, ?_⟩)
    · rintro ⟨j, hj⟩
      exact ⟨j, hold (by simp) hj⟩
    · rintro ⟨j, hj⟩
      refine ⟨j, ?_⟩
      rw [setTask_of_ne]
      · exact hj
      · rintro rfl
        exact absurd (htask.symm.trans hj) (by simp)
  have hheapCases : ∀ {b ch'}, update d.heap a (some ch.clean) b = some ch' →
      (b = a ∧ ch.clean = ch') ∨ (b ≠ a ∧ d.heap b = some ch') := heap_set_cases
  have hheapSelf : update d.heap a (some ch.clean) a = some ch.clean :=
    update_self ..
  rw [hremove]
  constructor
  case closes =>
    intro b ch' hb
    rcases hheapCases hb with ⟨rfl, rfl⟩ | ⟨-, hb⟩
    · exact closes_close (hinv.closes b ch hheap)
    · exact hinv.closes b ch' hb
  case frees =>
    intro b ch' hb
    rcases hheapCases hb with ⟨rfl, rfl⟩ | ⟨hne, hb⟩
    · have hclean : ch.clean.frees = 1 := by
        rw [Channel.clean, frees_close, hfrees]
      have hid : ch.clean.channelId = ch.channelId := channelId_close ch
      rw [hclean, hid]
      dsimp only
      rw [update_self]
      simp
    · obtain ⟨hle, hiff⟩ := hinv.frees b ch' hb
      refine ⟨hle, ?_⟩
      dsimp only
      by_cases hid : ch'.channelId = ch.channelId
      · rw [hid, update_self, hiff, hid, hentry]
        simpa using hne.symm
      · rw [update_of_ne hid]
        exact hiff
  case table =>
    intro channelId b hb
    dsimp only at hb ⊢
    have hid : channelId ≠ ch.channelId := by
      rintro rfl
      rw [update_self] at hb
      exact absurd hb (by simp)
    rw [update_of_ne hid] at hb
    obtain ⟨ch', hheap', hid'⟩ := hinv.table channelId b hb
    have hba : b ≠ a := by
      rintro rfl
      exact hid (hid'.symm.trans (congrArg Channel.channelId (heap_unique hheap' hheap)))
    exact ⟨ch', by rwa [update_of_ne hba], hid'⟩
  case closing =>
    intro j b hj
    obtain ⟨ch', hheap', hstate⟩ := hinv.closing j b (hold (by simp) hj)
    by_cases hba : b = a
    · subst hba
      obtain rfl := heap_unique hheap hheap'
      exact ⟨ch.clean, hheapSelf, state_close_of_closed hstate⟩
    · exact ⟨ch', (update_of_ne hba ..).trans hheap', hstate⟩
  case unique =>
    intro j k b hj hk
    exact hinv.unique j k b (hold (by simp) hj) (hold (by simp) hk)
  case created =>
    intro j b hj
    exact hinv.created j b (hold (by simp) hj)
  case found =>
    intro j b hj
    exact hinv.found j b (hold (by simp) hj)
  case removing =>
    intro j b hj
    obtain ⟨ch', hheap', hle⟩ := hinv.removing j b (hold (by simp) hj)
    by_cases hba : b = a
    · subst hba
      exact ⟨ch.clean, hheapSelf, (refCounter_close ch).symm ▸ hcount⟩
    · exact ⟨ch', (update_of_ne hba ..).trans hheap', hle⟩
  case holds =>
    intro b hb
    obtain ⟨ch', hheap', hfree, hcount'⟩ := hinv.holds b ((hholds b).1 hb)
    have hba : b ≠ a := by
      rintro rfl
      exact hnot ((hholds b).1 hb)
    exact ⟨ch', (update_of_ne hba ..).trans hheap', hfree, by rw [hcount', hbase]⟩
  case free =>
    intro b ch' hb hfree
    rcases hheapCases hb with ⟨rfl, rfl⟩ | ⟨-, hb⟩
    · have hnonneg : 0 ≤ base (setTask tasks i .idle) b ch.clean := base_nonneg
      have hsame : ch.clean.refCounter = ch.refCounter := refCounter_close ch
      omega
    · rw [hbase]
      exact hinv.free b ch' hb fun h => hfree ((hholds b).2 h)

/-! ## The receiver -/

/-- **A reference is taken**, when the count is above zero. -/
theorem Inv.lookup (hinv : Inv d tasks none) (hidle : tasks none = .idle)
    (hlive : d.live a = some ch) (hcount : 0 < ch.refCounter) :
    Inv (d.set a { ch with refCounter := ch.refCounter + 1 }) tasks (some a) := by
  obtain ⟨hheap, hfrees⟩ := live_eq_some.1 hlive
  have hnot : ∀ b, ¬ Holds tasks none b := by
    rintro b (h | h)
    · exact absurd h (by simp)
    · rw [hidle] at h
      exact absurd h (by simp)
  have hle := hinv.free a ch hheap (hnot a)
  have hone : base tasks a ch ≤ 1 := base_le_one
  have htasks : setTask tasks none .idle = tasks := by
    rw [setTask, ← hidle, update_eq_self]
  rw [← htasks]
  refine hinv.set hheap rfl rfl (hinv.closes a ch hheap) id (inl rfl) (by simp) ?_
    (inr (setTask_self ..)) ?_ ?_ ?_
  · intro j hj
    rw [htasks] at hj
    have hzero := hinv.refCounter_le hj hheap
    omega
  · rw [htasks]
    refine fun b hne => ⟨by rw [hidle]; simp, ?_⟩
    refine ⟨fun h => ?_, fun h => absurd h (hnot b)⟩
    rcases h with h | h
    · exact absurd (some.inj h).symm hne
    · exact inr h
  · rw [htasks]
    have hsame : base tasks a { ch with refCounter := ch.refCounter + 1 } = base tasks a ch :=
      base_congr Iff.rfl
    exact fun _ => ⟨hfrees, by rw [hsame]; dsimp only; omega⟩
  · exact fun h => absurd (inl rfl) h

/-- **A channel is accepted.** -/
theorem Inv.connect (hinv : Inv d tasks none) (hidle : tasks none = .idle)
    (hlive : d.live a = some ch) (hstate : ch.state = .init) :
    Inv (d.set a { ch with state := .running, channelCallback := true }) tasks none := by
  obtain ⟨hheap, hfrees⟩ := live_eq_some.1 hlive
  have htasks : setTask tasks none .idle = tasks := by
    rw [setTask, ← hidle, update_eq_self]
  have hsame : base tasks a { ch with state := .running, channelCallback := true } =
      base tasks a ch := by
    refine base_congr (iff_of_true (inl ChannelState.noConfusion) (inl ?_))
    rw [hstate]
    decide
  rw [← htasks]
  refine hinv.set hheap rfl rfl ?_ (fun h => ?_) (inl rfl) (by simp) ?_ (inl rfl) ?_ ?_ ?_
  · have hzero := (hinv.closes a ch hheap).2 (by rw [hstate]; decide)
    exact ⟨by dsimp only; omega, fun _ => hzero⟩
  · rw [hstate] at h
    exact absurd h (by decide)
  · intro j hj
    rw [htasks] at hj
    have hle := hinv.refCounter_le hj hheap
    exact hle
  · rw [htasks]
    exact fun b _ => ⟨by rw [hidle]; simp, Iff.rfl⟩
  · rw [htasks, hsame]
    intro h
    obtain ⟨ch', hheap', hfree, hcount⟩ := hinv.holds a h
    obtain rfl := heap_unique hheap hheap'
    exact ⟨hfree, hcount⟩
  · rw [htasks, hsame]
    exact hinv.free a ch hheap

/-- **The receiver is about to give a reference up**: the one that it holds, or that of a channel
which it could not create. -/
theorem Inv.giveUp {r : Reference} (hinv : Inv d tasks held) (hidle : tasks none = .idle)
    (hr : (r = .found ∧ held = some a) ∨ (r = .created ∧ held = none)) :
    Inv d (setTask tasks none (.unref r a)) none := by
  have hclosing : r ≠ .closing := by
    rcases hr with ⟨rfl, -⟩ | ⟨rfl, -⟩ <;> decide
  have hold : ∀ {j : Option ℕ} {task : Task}, (∀ b, task ≠ .unref r b) →
      setTask tasks none (.unref r a) j = task → tasks j = task := by
    intro j task hne hj
    rcases setTask_cases hj with ⟨-, heq⟩ | ⟨-, heq⟩
    · exact absurd heq.symm (hne a)
    · exact heq
  have hold' : ∀ {j : Option ℕ} {b : ℕ}, setTask tasks none (.unref r a) j = .unref .closing b →
      tasks j = .unref .closing b :=
    hold fun c h => hclosing (Task.unref.inj h).1.symm
  have hnone : ∀ {j : Option ℕ} {r' : Reference} {b : ℕ},
      (tasks j = .unref r' b → j = none ∧ held = none) →
      setTask tasks none (.unref r a) j = .unref r' b → j = none := by
    intro j r' b h hj
    rcases setTask_cases hj with ⟨rfl, -⟩ | ⟨-, heq⟩
    · rfl
    · exact (h heq).1
  have hbase : ∀ b ch, base (setTask tasks none (.unref r a)) b ch = base tasks b ch := by
    intro b ch
    refine base_congr (or_congr_right ⟨?_, ?_⟩)
    · rintro ⟨j, hj⟩
      exact ⟨j, hold' hj⟩
    · rintro ⟨j, hj⟩
      refine ⟨j, ?_⟩
      rw [setTask_of_ne]
      · exact hj
      · rintro rfl
        exact absurd (hidle.symm.trans hj) (by simp)
  have hholds : ∀ b, Holds (setTask tasks none (.unref r a)) none b ↔ Holds tasks held b := by
    intro b
    rw [Holds, Holds, setTask_self, hidle]
    rcases hr with ⟨rfl, rfl⟩ | ⟨rfl, rfl⟩
    · simp
    · simp
  constructor
  case closes => exact hinv.closes
  case frees => exact hinv.frees
  case table => exact hinv.table
  case closing => exact fun j b hj => hinv.closing j b (hold' hj)
  case unique => exact fun j k b hj hk => hinv.unique j k b (hold' hj) (hold' hk)
  case created => exact fun j b hj => ⟨hnone (hinv.created j b) hj, rfl⟩
  case found => exact fun j b hj => ⟨hnone (hinv.found j b) hj, rfl⟩
  case removing => exact fun j b hj => hinv.removing j b (hold (by simp) hj)
  case holds =>
    intro b hb
    obtain ⟨ch, hheap, hfree, hcount⟩ := hinv.holds b ((hholds b).1 hb)
    exact ⟨ch, hheap, hfree, by rw [hcount, hbase]⟩
  case free =>
    intro b ch hb hfree
    rw [hbase]
    exact hinv.free b ch hb fun h => hfree ((hholds b).2 h)

/-- A new channel, with the one reference of the open channel. -/
def newChannel (channelId : ℕ) : Channel :=
  { channelId, refCounter := 1, state := .init, channelCallback := false, closes := 0, frees := 0 }

/-- **A channel is created.** -/
theorem Inv.insert {channelId : ℕ} (hinv : Inv d tasks none)
    (hheap : d.heap a = none) (hentry : d.channelsById channelId = none) :
    Inv { heap := update d.heap a (some (newChannel channelId))
          channelsById := update d.channelsById channelId (some a) } tasks none := by
  have hheapCases : ∀ {b ch'}, update d.heap a (some (newChannel channelId)) b = some ch' →
      (b = a ∧ newChannel channelId = ch') ∨ (b ≠ a ∧ d.heap b = some ch') := heap_set_cases
  have hkept : ∀ {b ch'}, d.heap b = some ch' →
      update d.heap a (some (newChannel channelId)) b = some ch' := by
    intro b ch' hb
    rw [update_of_ne]
    · exact hb
    · rintro rfl
      exact absurd (hheap.symm.trans hb) (by simp)
  constructor
  case closes =>
    intro b ch' hb
    rcases hheapCases hb with ⟨-, rfl⟩ | ⟨-, hb⟩
    · exact ⟨Nat.zero_le 1, fun _ => rfl⟩
    · exact hinv.closes b ch' hb
  case frees =>
    intro b ch' hb
    dsimp only
    rcases hheapCases hb with ⟨rfl, rfl⟩ | ⟨hne, hb⟩
    · rw [newChannel, update_self]
      exact ⟨Nat.zero_le 1, iff_of_true rfl rfl⟩
    · obtain ⟨hle, hiff⟩ := hinv.frees b ch' hb
      refine ⟨hle, ?_⟩
      by_cases hid : ch'.channelId = channelId
      · rw [hid, update_self, hiff, hid, hentry]
        simpa using hne.symm
      · rw [update_of_ne hid]
        exact hiff
  case table =>
    intro channelId' b hb
    dsimp only at hb ⊢
    by_cases hid : channelId' = channelId
    · rw [hid, update_self] at hb
      obtain rfl := some.inj hb
      exact ⟨newChannel channelId, update_self .., hid.symm⟩
    · rw [update_of_ne hid] at hb
      obtain ⟨ch', hheap', hid'⟩ := hinv.table channelId' b hb
      exact ⟨ch', hkept hheap', hid'⟩
  case closing =>
    intro j b hj
    obtain ⟨ch', hheap', hstate⟩ := hinv.closing j b hj
    exact ⟨ch', hkept hheap', hstate⟩
  case unique => exact hinv.unique
  case created => exact hinv.created
  case found => exact hinv.found
  case removing =>
    intro j b hj
    obtain ⟨ch', hheap', hle⟩ := hinv.removing j b hj
    exact ⟨ch', hkept hheap', hle⟩
  case holds =>
    intro b hb
    obtain ⟨ch', hheap', hfree, hcount⟩ := hinv.holds b hb
    exact ⟨ch', hkept hheap', hfree, hcount⟩
  case free =>
    intro b ch' hb hfree
    rcases hheapCases hb with ⟨-, rfl⟩ | ⟨-, hb⟩
    · rw [base_of_based (inl ChannelState.noConfusion)]
      exact Int.le_refl 1
    · exact hinv.free b ch' hb hfree

/-! ## Steps -/

/-- What the receiver relies on between two of its steps, whatever the other threads do: a channel
id stays free, and a channel that is not accepted stays so. -/
structure Keeps (d d' : Dvcman) : Prop where
  entry : ∀ channelId, d.channelsById channelId = none → d'.channelsById channelId = none
  init : ∀ a ch, d.heap a = some ch → ch.state = .init →
    ∃ ch', d'.heap a = some ch' ∧ ch'.state = .init

/-- A channel is written back that was not accepted if it was not before. -/
theorem keeps_set {ch' : Channel} (hheap : d.heap a = some ch)
    (hstate : ch.state = .init → ch'.state = .init) : Keeps d (d.set a ch') := by
  refine ⟨fun _ h => h, fun b ch₀ hb hinit => ?_⟩
  by_cases hba : b = a
  · subst hba
    obtain rfl := heap_unique hheap hb
    exact ⟨ch', heap_set_self .., hstate hinit⟩
  · exact ⟨ch₀, by rwa [heap_set_of_ne hba], hinit⟩

theorem state_close_of_init (h : ch.state = .init) : ch.close.state = .init := by
  rw [close_of_not_running (by rw [h]; decide)]
  exact h

theorem keeps_remove (d : Dvcman) (channelId : ℕ) : Keeps d (d.remove channelId) := by
  rw [Dvcman.remove]
  split
  next => exact ⟨fun _ h => h, fun a ch h hinit => ⟨ch, h, hinit⟩⟩
  next a _ =>
    refine ⟨fun id h => ?_, fun b ch hb hinit => ?_⟩
    · dsimp only
      by_cases hid : id = channelId
      · rw [hid, update_self]
      · rwa [update_of_ne hid]
    · dsimp only
      by_cases hba : b = a
      · subst hba
        refine ⟨ch.clean, ?_, state_close_of_init hinit⟩
        rw [update_self, hb, map_some]
      · exact ⟨ch, by rwa [update_of_ne hba], hinit⟩

/-- **The invariant of the whole**: that of the references, and what the receiver relies on while
it creates a channel. -/
structure State.Inv (s : State) : Prop where
  refs : DvcmanClose.Inv s.dvcman s.tasks s.phase.held
  inserting : ∀ channelId, s.phase = .inserting channelId →
    s.dvcman.channelsById channelId = none
  connecting : ∀ a, s.phase = .connecting a → ∃ ch, s.dvcman.heap a = some ch ∧ ch.state = .init

/-- The receiver is where it was. -/
theorem State.Inv.of_keeps (hinv : s.Inv) (hphase : t.phase = s.phase)
    (hkeeps : Keeps s.dvcman t.dvcman) (hrefs : DvcmanClose.Inv t.dvcman t.tasks s.phase.held) :
    t.Inv := by
  refine ⟨hphase ▸ hrefs, fun channelId h => ?_, fun a h => ?_⟩
  · exact hkeeps.entry channelId (hinv.inserting channelId (hphase ▸ h))
  · obtain ⟨ch, hheap, hinit⟩ := hinv.connecting a (hphase ▸ h)
    exact hkeeps.init a ch hheap hinit

/-- The receiver does not create a channel. -/
theorem State.Inv.of_refs (hrefs : DvcmanClose.Inv t.dvcman t.tasks t.phase.held)
    (hinserting : ∀ channelId, t.phase ≠ .inserting channelId)
    (hconnecting : ∀ a, t.phase ≠ .connecting a) : t.Inv :=
  ⟨hrefs, fun channelId h => absurd h (hinserting channelId), fun a h => absurd h (hconnecting a)⟩

theorem callClose_eq_some {phase : Phase} (h : callClose s i a phase = some t) :
    ∃ ch, s.dvcman.live a = some ch ∧ t.dvcman = s.dvcman.set a ch.close ∧ t.phase = phase ∧
      t.tasks = setTask s.tasks i
        (if ch.state = .running then .unref .closing a else .idle) := by
  obtain ⟨ch, hlive, rfl⟩ := map_eq_some_iff.1 h
  exact ⟨ch, hlive, rfl, rfl, rfl⟩

/-- A thread closes a channel, while the receiver stays where it is. -/
theorem inv_callClose (hinv : s.Inv) (hidle : s.tasks i = .idle)
    (h : callClose s i a s.phase = some t) : t.Inv := by
  obtain ⟨ch, hlive, hdvcman, hphase, htasks⟩ := callClose_eq_some h
  have hheap := (live_eq_some.1 hlive).1
  refine hinv.of_keeps hphase ?_ ?_
  · rw [hdvcman]
    exact keeps_set hheap state_close_of_init
  · rw [hdvcman, htasks]
    exact hinv.refs.close hidle hlive

/-- The receiver closes the channel that it holds. -/
theorem inv_closing (hinv : s.Inv) (hidle : s.tasks none = .idle) (hheld : s.phase.held = some a)
    (h : callClose s none a (.closing a) = some t) : t.Inv := by
  obtain ⟨ch, hlive, hdvcman, hphase, htasks⟩ := callClose_eq_some h
  refine State.Inv.of_refs ?_ (by rw [hphase]; simp) (by rw [hphase]; simp)
  rw [hdvcman, htasks, hphase]
  have hclose := hinv.refs.close hidle hlive
  rw [hheld] at hclose
  exact hclose

/-- A thread goes on. -/
theorem inv_runTask (hinv : s.Inv) (h : runTask s i = some t) : t.Inv := by
  rw [runTask] at h
  split at h
  next => exact absurd h (by simp)
  next r a htask =>
    obtain ⟨ch, hlive, rfl⟩ := map_eq_some_iff.1 h
    exact hinv.of_keeps rfl (keeps_set (live_eq_some.1 hlive).1 id)
      (hinv.refs.unref htask hlive)
  next a htask =>
    obtain ⟨ch, hlive, rfl⟩ := map_eq_some_iff.1 h
    exact hinv.of_keeps rfl (keeps_remove ..) (hinv.refs.remove htask hlive)

/-- The receiver gives a reference up. -/
theorem inv_giveUp {r : Reference} (hinv : s.Inv) (hidle : s.tasks none = .idle)
    (hr : (r = .found ∧ s.phase.held = some a) ∨ (r = .created ∧ s.phase.held = none)) :
    (giveUp s r a).Inv :=
  State.Inv.of_refs (hinv.refs.giveUp hidle hr) (by simp [giveUp]) (by simp [giveUp])

/-- A lookup with a reference finds a channel whose count is above zero, if it finds one. -/
def FindsCounted (s : State) : Label → Prop
  | .receive (.lookup channelId _) =>
    ∀ a ch, s.dvcman.channelsById channelId = some a → s.dvcman.heap a = some ch →
      0 < ch.refCounter
  | _ => True

theorem inv_receive {r : ReceiverStep} (hinv : s.Inv) (hidle : s.tasks none = .idle)
    (hcounted : FindsCounted s (.receive r)) (h : receive s s.phase r = some t) : t.Inv := by
  have hrefs := hinv.refs
  generalize hphase : s.phase = phase at h
  rw [receive.eq_def] at h
  split at h
  next channelId =>
    -- a create request
    split at h
    next =>
      obtain rfl := some.inj h
      exact hinv
    next hfree =>
      obtain rfl := some.inj h
      rw [hphase] at hrefs
      refine ⟨hrefs, fun channelId' hp => ?_, fun a hp => absurd hp (by simp)⟩
      obtain rfl := Phase.inserting.inj hp
      exact hfree
  next channelId a =>
    split at h
    next => exact absurd h (by simp)
    next hheap =>
      obtain rfl := some.inj h
      rw [hphase] at hrefs
      refine ⟨hrefs.insert hheap (hinv.inserting channelId hphase),
        fun channelId' hp => absurd hp (by simp), fun b hp => ?_⟩
      obtain rfl := Phase.connecting.inj hp
      exact ⟨newChannel channelId, update_self .., rfl⟩
  next =>
    obtain rfl := some.inj h
    rw [hphase] at hrefs
    exact State.Inv.of_refs hrefs (by simp) (by simp)
  next a =>
    obtain ⟨ch, hlive, rfl⟩ := map_eq_some_iff.1 h
    obtain ⟨ch', hheap', hinit⟩ := hinv.connecting a hphase
    obtain rfl := heap_unique (live_eq_some.1 hlive).1 hheap'
    rw [hphase] at hrefs
    exact State.Inv.of_refs (hrefs.connect hidle hlive hinit) (by simp) (by simp)
  next a =>
    obtain rfl := some.inj h
    exact inv_giveUp hinv hidle (inr ⟨rfl, by rw [hphase]; rfl⟩)
  next =>
    obtain rfl := some.inj h
    rw [hphase] at hrefs
    exact State.Inv.of_refs hrefs (by simp) (by simp)
  next a =>
    obtain rfl := some.inj h
    exact inv_giveUp hinv hidle (inr ⟨rfl, by rw [hphase]; rfl⟩)
  next channelId data =>
    -- a lookup
    split at h
    next =>
      obtain rfl := some.inj h
      exact hinv
    next a hentry =>
      obtain ⟨ch, hlive, rfl⟩ := map_eq_some_iff.1 h
      have hcount : 0 < ch.refCounter := hcounted a ch hentry (live_eq_some.1 hlive).1
      rw [hphase] at hrefs
      exact State.Inv.of_refs (hrefs.lookup hidle hlive hcount) (by simp) (by simp)
  next a =>
    -- a data PDU
    obtain ⟨ch, hlive, ht⟩ := map_eq_some_iff.1 h
    split at ht
    next =>
      obtain rfl := ht
      rw [hphase] at hrefs
      exact State.Inv.of_refs hrefs (by simp) (by simp)
    next =>
      obtain rfl := ht
      exact inv_giveUp hinv hidle (inl ⟨rfl, by rw [hphase]; rfl⟩)
  next a b =>
    exact inv_callClose hinv hidle h
  next a =>
    obtain rfl := some.inj h
    exact inv_giveUp hinv hidle (inl ⟨rfl, by rw [hphase]; rfl⟩)
  next a =>
    exact inv_closing hinv hidle (by rw [hphase]; rfl) h
  next a =>
    -- a close PDU
    exact inv_closing hinv hidle (by rw [hphase]; rfl) h
  next a failed =>
    obtain rfl := some.inj h
    exact inv_giveUp hinv hidle (inl ⟨rfl, by rw [hphase]; rfl⟩)
  next => exact absurd h (by simp)

/-- **Every step keeps the invariant**, unless it is a lookup that finds a count of zero. -/
theorem inv_step {l : Label} (hinv : s.Inv) (h : step s l = some t) (hcounted : FindsCounted s l) :
    t.Inv := by
  cases l with
  | call n a =>
    rw [step] at h
    split at h
    next hidle => exact inv_callClose hinv hidle h
    next => exact absurd h (by simp)
  | go i => exact inv_runTask hinv h
  | receive r =>
    rw [step] at h
    split at h
    next hidle => exact inv_receive hinv hidle hcounted h
    next => exact absurd h (by simp)

theorem inv_initial : initial.Inv := by
  refine State.Inv.of_refs ?_ (by simp [initial]) (by simp [initial])
  constructor <;> simp [initial, Holds, Phase.held]

/-! ## Runs -/

/-- Every channel was closed at most once and freed at most once, and was not freed while the
receiver has a reference to it. -/
def State.Safe (s : State) : Prop :=
  ∀ a ch, s.dvcman.heap a = some ch →
    ch.closes ≤ 1 ∧ ch.frees ≤ 1 ∧ (Holds s.tasks s.phase.held a → ch.frees = 0)

theorem State.Inv.safe (hinv : s.Inv) : s.Safe := by
  intro a ch hheap
  refine ⟨(hinv.refs.closes a ch hheap).1, (hinv.refs.frees a ch hheap).1, fun hholds => ?_⟩
  obtain ⟨ch', hheap', hfree, -⟩ := hinv.refs.holds a hholds
  exact heap_unique hheap hheap' ▸ hfree

/-- **Closed once, freed once, and not while it is held**, in every run whose lookups with a
reference find only counts above zero. -/
theorem closed_once {labels : List Label}
    (hcounted : EveryStep step (fun s l _ => FindsCounted s l) initial labels) :
    EveryState step State.Safe initial labels :=
  everyState_of_everyStep (fun _ _ _ hinv h hcounted => inv_step hinv h hcounted)
    (fun _ hinv => hinv.safe) inv_initial hcounted

/-- The server creates a channel. -/
def createChannel : List Label :=
  [.receive (.create 1), .receive (.insert 0), .receive (.connect true), .receive (.sent false)]

/-- A channel that another thread closes while the receiver handles a data PDU for it. -/
theorem closed_once_receiving : ∃ t,
    run step initial (createChannel ++ [.receive (.lookup 1 true), .call 0 0, .go (some 0)]) =
      some t ∧ t.Safe := by
  refine ⟨_, rfl, (closed_once ?_ : EveryState step State.Safe initial (createChannel ++
    [.receive (.lookup 1 true), .call 0 0, .go (some 0)])).last rfl⟩
  refine EveryStep.cons rfl trivial (EveryStep.cons rfl trivial (EveryStep.cons rfl trivial
    (EveryStep.cons rfl trivial (EveryStep.cons rfl ?_ (EveryStep.cons rfl trivial
      (EveryStep.cons rfl trivial trivial))))))
  intro a ch hentry hheap
  obtain rfl : 0 = a := some.inj hentry
  obtain rfl := some.inj hheap
  decide

/-- Another thread closes a channel and brings its count to zero; the receiver finds the channel
for a data PDU; the thread removes the channel, and frees what the receiver holds. -/
theorem freed_while_held : ∃ t,
    run step initial (createChannel ++
      [.call 0 0, .go (some 0), .receive (.lookup 1 true), .go (some 0)]) = some t ∧
    (∃ ch, t.dvcman.heap 0 = some ch ∧ ch.frees = 1) ∧ Holds t.tasks t.phase.held 0 ∧
    ¬ t.Safe := by
  refine ⟨_, rfl, ⟨_, rfl, rfl⟩, inl rfl, fun h => ?_⟩
  have hfree := (h 0 _ rfl).2.2 (inl rfl)
  exact absurd hfree (by decide)

end DvcmanClose
