/-
# Who owns a native session

Three kinds of threads race over `core`: the main thread creates sessions and
cleans up after terminal events, the worker connects them and cleans up after a
failed probe, and the daemons of `release` free what was left.  `owned_linearly`
says that whatever the interleaving, the native sessions are owned linearly: the
events of the log form a ledger.
-/
import XyDeskRemote.SessionThreads
import XyDeskRemote.SessionLifecycle
import XyDeskRemote.OwnershipLedger

open LabelledRun OwnershipLedger SessionManager Option

/-- What an effect does to the ownership of a session. -/
def Effect.owner : Effect → Option (OwnerEvent CoreSession)
  | .createSession session _ => some (.create session)
  | .connectSession session => some (.use session)
  | .freeSession session => some (.free session)
  | .scheduleReconnect _ => none

/-- The ownership events of a log. -/
def ownerEvents (log : List Effect) : List (OwnerEvent CoreSession) :=
  log.filterMap Effect.owner

@[simp] theorem ownerEvents_append (log log' : List Effect) :
    ownerEvents (log ++ log') = ownerEvents log ++ ownerEvents log' :=
  List.filterMap_append

@[simp] theorem ownerEvents_createSession (c : CoreSession) (n : ℕ) :
    ownerEvents [.createSession c n] = [.create c] := rfl
@[simp] theorem ownerEvents_connectSession (c : CoreSession) :
    ownerEvents [.connectSession c] = [.use c] := rfl
@[simp] theorem ownerEvents_freeSession (c : CoreSession) :
    ownerEvents [.freeSession c] = [.free c] := rfl
@[simp] theorem ownerEvents_scheduleReconnect (d : ℕ) :
    ownerEvents [.scheduleReconnect d] = [] := rfl

/-- The main thread is not about to touch `core`. -/
def MainPc.Free : MainPc → Prop
  | .submitting _ => False
  | .terminating _ _ _ => False
  | _ => True

/-- The worker holds no task that it has still to finish. -/
def WorkerPc.Free : WorkerPc → Prop
  | .idle => True
  | .gaveUp _ => True
  | _ => False

/-- The worker holds `task`, with the connect or the cleanup of its session ahead. -/
def WorkerPc.On (task : WorkerTask) : WorkerPc → Prop
  | .probing t => t = task
  | .unreachable t => t = task
  | .connecting t => t = task
  | .thrown t _ => t = task
  | .closing t => t = task
  | _ => False

/-- Which thread holds what is ahead of the current session. -/
inductive Phase where
  | vacant
  | submitting (task : WorkerTask)
  | queued (task : WorkerTask)
  | working (task : WorkerTask)
  | running (session : CoreSession) (successes : ℕ)
  | ending (session : CoreSession) (successes : ℕ) (failed : Bool)
  | terminating (session : CoreSession)

/-- The current session, what is queued for it, and its native thread. -/
structure Holding (s : SessionManager) (session : Option CoreSession) (queue : List WorkerTask)
    (posted : List Callback) (alive : List Instance) : Prop where
  core : s.core = session
  tasks : s.tasks = queue
  callbacks : s.callbacks = posted
  running : s.running = alive
  registered : s.registered = (session.map CoreSession.inst).toList
  sessionMap : s.sessionMap = (session.map CoreSession.inst).toList

namespace SessionThreads

/-- The threads are in the given phase. -/
def PhaseShape (u : SessionThreads) : Phase → Prop
  | .vacant => Holding u.mgr none [] [] [] ∧ u.main.Free ∧ u.worker.Free
  | .submitting task =>
    Holding u.mgr (some task.session) [] [] [] ∧ u.main = .submitting task ∧ u.worker.Free
  | .queued task =>
    Holding u.mgr (some task.session) [task] [] [] ∧ u.main.Free ∧ u.worker.Free
  | .working task =>
    Holding u.mgr (some task.session) [] [] [] ∧ u.main.Free ∧ u.worker.On task
  | .running c n =>
    Holding u.mgr (some c) [] (successCallbacks c.inst n) [c.inst] ∧ u.main.Free ∧
      u.worker.Free
  | .ending c n failed =>
    Holding u.mgr (some c) []
      (successCallbacks c.inst n ++ [⟨c.inst, SessionStep.endEvent failed⟩]) [] ∧
      u.main.Free ∧ u.worker.Free
  | .terminating c =>
    Holding u.mgr (some c) [] [] [] ∧
      (∃ failed nativeDetail, u.main = .terminating c.inst failed nativeDetail) ∧ u.worker.Free

/-- The ledger of a manager that was not released: `core` owns the newest session,
and nothing else is owned. -/
def LiveLedger (s : SessionManager) : Prop :=
  ∃ cs, Ledger (ownerEvents s.log) cs s.core.toList ∧ (∀ c ∈ cs, c.serial < s.created) ∧
    ∀ c, s.core = some c → cs.head? = some c

/-- The ledger of a released manager: its daemon still owns what it has to free. -/
def ReleasedLedger (s : SessionManager) : Prop :=
  ∃ cs os, Ledger (ownerEvents s.log) cs os ∧
    (s.frees = [] ∨ ∃ c ∈ os, s.frees = [c])

/-- The invariant of the threads. -/
inductive ThreadInv (u : SessionThreads) : Prop
  | closed (released : u.mgr.released) (core : u.mgr.core = none) (ledger : ReleasedLedger u.mgr)
  | live (released : u.mgr.released = false) (frees : u.mgr.frees = []) (phase : Phase)
      (shape : PhaseShape u phase) (ledger : LiveLedger u.mgr)

/-! ## Moves that do not touch the session -/

/-- The fields the invariant speaks about. -/
def ownFields (s : SessionManager) :=
  (s.released, s.frees, s.created, ownerEvents s.log, s.core, s.tasks, s.callbacks, s.running,
    s.registered, s.sessionMap)

variable {s : SessionManager}

theorem holding_congr {t : SessionManager} {session : Option CoreSession} {queue : List WorkerTask}
    {posted : List Callback} {alive : List Instance} (h : Holding s session queue posted alive)
    (hf : ownFields t = ownFields s) :
    Holding t session queue posted alive := by
  simp only [ownFields, Prod.mk.injEq] at hf
  obtain ⟨-, -, -, -, h₁, h₂, h₃, h₄, h₅, h₆⟩ := hf
  exact ⟨h₁.trans h.core, h₂.trans h.tasks, h₃.trans h.callbacks, h₄.trans h.running,
    h₅.trans h.registered, h₆.trans h.sessionMap⟩

theorem liveLedger_congr {t : SessionManager} (h : LiveLedger s) (hf : ownFields t = ownFields s) :
    LiveLedger t := by
  simp only [ownFields, Prod.mk.injEq] at hf
  obtain ⟨-, -, hcreated, hlog, hcore, -⟩ := hf
  obtain ⟨cs, hl, hlt, hnew⟩ := h
  exact ⟨cs, hlog ▸ hcore ▸ hl, hcreated ▸ hlt, hcore ▸ hnew⟩

theorem releasedLedger_congr {t : SessionManager} (h : ReleasedLedger s)
    (hf : ownFields t = ownFields s) : ReleasedLedger t := by
  simp only [ownFields, Prod.mk.injEq] at hf
  obtain ⟨-, hfrees, -, hlog, -⟩ := hf
  obtain ⟨cs, os, hl, hfr⟩ := h
  exact ⟨cs, os, hlog ▸ hl, hfrees ▸ hfr⟩

/-- A move of the main thread between two places where it holds nothing. -/
theorem PhaseShape.main {u v : SessionThreads} {p : Phase} (h : PhaseShape u p)
    (hf : ownFields v.mgr = ownFields u.mgr) (hu : u.main.Free) (hv : v.main.Free)
    (hw : v.worker = u.worker) : PhaseShape v p := by
  cases p with
  | submitting task =>
    rw [h.2.1] at hu
    exact hu.elim
  | terminating c =>
    obtain ⟨failed, d, hm⟩ := h.2.1
    rw [hm] at hu
    exact hu.elim
  | _ => exact ⟨holding_congr h.1 hf, hv, hw ▸ h.2.2⟩

/-- A move of the worker between two places where it holds nothing. -/
theorem PhaseShape.worker {u v : SessionThreads} {p : Phase} (h : PhaseShape u p)
    (hf : ownFields v.mgr = ownFields u.mgr) (hu : u.worker.Free) (hv : v.worker.Free)
    (hm : v.main = u.main) : PhaseShape v p := by
  cases p with
  | working task =>
    -- no place of the worker is both free and on a task
    have hon := h.2.2
    cases hw : u.worker <;> rw [hw] at hu hon <;> first | exact hu.elim | exact hon.elim
  | _ => exact ⟨holding_congr h.1 hf, hm ▸ h.2.1, hv⟩

/-! ### The pieces that leave the fields alone -/

theorem ownFields_scheduleReconnect (profile : Option ConnectionProfile) (delayMs : ℕ)
    (s : SessionManager) : ownFields (scheduleReconnect profile delayMs s) = ownFields s := by
  simp [ownFields, scheduleReconnect]

theorem ownFields_releaseTail (s : SessionManager) : ownFields s.releaseTail = ownFields s := by
  rw [releaseTail]
  split <;> rfl

theorem ownFields_disconnectNative (inst : Instance) (accepted : Bool) (s : SessionManager) :
    ownFields (s.disconnectNative inst accepted) = ownFields s := by
  rw [SessionManager.disconnectNative]
  split
  · rfl
  · split <;> rfl

theorem ownFields_onAuthenticate (inst : Instance) (s : SessionManager) :
    ownFields (s.onAuthenticate inst) = ownFields s := by
  rw [onAuthenticate]
  split <;> rfl

theorem ownFields_retryLost (profile : Option ConnectionProfile) (s : SessionManager) :
    ownFields (retryLost profile s) = ownFields s :=
  ownFields_scheduleReconnect profile 1500 _

theorem ownFields_terminalTail (inst : Instance) (failed : Bool) (nativeDetail : String)
    (profile : Option ConnectionProfile) (s : SessionManager) :
    ownFields (terminalTail inst failed nativeDetail profile s) = ownFields s := by
  rw [terminalTail]
  split
  · rw [failureTail]
    split
    · exact ownFields_scheduleReconnect profile 450 _
    · split
      · exact ownFields_retryLost profile s
      · rfl
  · rw [disconnectedTail]
    split
    · exact ownFields_retryLost profile s
    · rfl

theorem ownFields_workerUnreachableTail (task : WorkerTask) (s : SessionManager) :
    ownFields (workerUnreachableTail task s) = ownFields s := by
  rw [workerUnreachableTail]
  split
  · exact ownFields_scheduleReconnect none 2000 _
  · rfl

theorem ownFields_fireGuard (u : SessionThreads) (r : DelayedRunnable) :
    ownFields (fireGuard u r).mgr = ownFields u.mgr := by
  cases r with
  | reconnect profile delayMs =>
    simp only [fireGuard]
    split
    · split <;> rfl
    · rfl
  | cancelFallback inst =>
    simp only [fireGuard, cancelFallback]
    split <;> rfl
  | disconnectFallback inst =>
    simp only [fireGuard, disconnectFallback]
    split <;> rfl
  | watchdog inst token =>
    simp only [fireGuard, watchdog]
    split
    · rfl
    · split <;> rfl

theorem fireGuard_main (u : SessionThreads) (hu : u.main.Free) (r : DelayedRunnable) :
    (fireGuard u r).main.Free ∧ (fireGuard u r).worker = u.worker := by
  cases r with
  | reconnect profile delayMs =>
    simp only [fireGuard]
    split
    · split
      · exact ⟨trivial, rfl⟩
      · exact ⟨hu, rfl⟩
    · exact ⟨hu, rfl⟩
  | _ => exact ⟨hu, rfl⟩

/-! ## Moves under the lock -/

/-- What the `synchronized` block of `connect` does: nothing that matters, or the
installation of a new session where there was none. -/
theorem connectLocked_cases (env : SessionEnv) (raw : ConnectionProfile)
    (alloc : Option Instance) (s : SessionManager) :
    (∃ s', connectLocked env raw alloc s = (s', none) ∧ ownFields s' = ownFields s) ∨
      ∃ profile inst, s.released = false ∧ s.core = none ∧
        connectLocked env raw alloc s =
          ((install env profile inst s).1, some (install env profile inst s).2) := by
  simp only [connectLocked]
  split_ifs with hr hst hc
  · exact Or.inl ⟨s, rfl, rfl⟩
  · exact Or.inl ⟨s, rfl, rfl⟩
  · exact Or.inl ⟨s, rfl, rfl⟩
  · cases alloc with
    | none => exact Or.inl ⟨_, rfl, rfl⟩
    | some inst =>
      refine Or.inr ⟨normalized env raw, inst, ?_, ?_, rfl⟩
      · exact Bool.eq_false_iff.2 hr
      · exact not_isSome_iff_eq_none.1 hc

/-- A new session is the newest one, and the only one that is owned. -/
theorem liveLedger_install (h : LiveLedger s) (hc : s.core = none) (env : SessionEnv)
    (profile : ConnectionProfile) (inst : Instance) :
    LiveLedger (install env profile inst s).1 := by
  obtain ⟨cs, hl, hlt, -⟩ := h
  rw [hc] at hl
  set c : CoreSession := (install env profile inst s).2.session with hcdef
  have hserial : c.serial = s.created := rfl
  -- the serial numbers of the sessions so far are all smaller
  have hnew : c ∉ cs := by
    intro hmem
    have := hlt c hmem
    omega
  refine ⟨c :: cs, ?_, ?_, ?_⟩
  · show Ledger (ownerEvents (s.log ++ [Effect.createSession c s.compatHandshakeStage])) _ [c]
    rw [ownerEvents_append, ownerEvents_createSession]
    exact hl.create hnew
  · show ∀ d ∈ c :: cs, d.serial < s.created + 1
    intro d hd
    rcases List.mem_cons.1 hd with rfl | hd
    · omega
    · have := hlt d hd
      omega
  · rintro d hd
    obtain rfl : c = d := some.inj hd
    rfl

/-- The cleanup frees the session of `core`, and nothing is owned any more. -/
theorem liveLedger_freed (h : LiveLedger s) {c : CoreSession} (hc : s.core = some c) :
    LiveLedger (freed c s) := by
  obtain ⟨cs, hl, hlt, -⟩ := h
  rw [hc] at hl
  refine ⟨cs, ?_, hlt, fun _ hnone => by cases hnone⟩
  have hown : c ∈ (some c).toList := List.mem_singleton_self c
  have hnone : (some c).toList.erase c = (none : Option CoreSession).toList := by simp
  show Ledger (ownerEvents (s.log ++ [Effect.freeSession c])) cs none.toList
  rw [ownerEvents_append, ownerEvents_freeSession, ← hnone]
  exact hl.free hown

/-- The connect uses the newest session, which is owned. -/
theorem liveLedger_connectSession (h : LiveLedger s) {c : CoreSession} (hc : s.core = some c) :
    LiveLedger { s with log := s.log ++ [.connectSession c] } := by
  obtain ⟨cs, hl, hlt, hnew⟩ := h
  have hhead : cs.head? = some c := hnew c hc
  obtain ⟨ds, rfl⟩ : ∃ ds, cs = c :: ds := by
    cases cs with
    | nil => exact nomatch hhead
    | cons d ds => exact ⟨ds, by rw [some.inj hhead]⟩
  refine ⟨c :: ds, ?_, hlt, hnew⟩
  show Ledger (ownerEvents (s.log ++ [Effect.connectSession c])) _ s.core.toList
  rw [ownerEvents_append, ownerEvents_connectSession]
  refine hl.use ?_
  rw [hc]
  exact List.mem_singleton_self c

theorem releasedLedger_releaseLocked (h : LiveLedger s) (hfrees : s.frees = [])
    (hr : s.released = false) : ReleasedLedger s.releaseLocked := by
  obtain ⟨cs, hl, -, -⟩ := h
  have hnot : ¬ s.released = true := by simp [hr]
  rw [releaseLocked, if_neg hnot]
  cases hc : s.core with
  | none => exact ⟨cs, _, hl, Or.inl hfrees⟩
  | some c =>
    simp only
    split
    · exact ⟨cs, _, hl, Or.inl hfrees⟩
    · refine ⟨cs, _, hl, Or.inr ⟨c, ?_, ?_⟩⟩
      · rw [hc]
        exact List.mem_singleton_self c
      · show s.frees ++ [c] = [c]
        rw [hfrees, List.nil_append]

/-- A daemon frees what it owns. -/
theorem releasedLedger_runFree (h : ReleasedLedger s) {session : CoreSession}
    {rest : List CoreSession} (hfrees : s.frees = session :: rest) :
    ReleasedLedger (freeSession session { s with frees := rest }) := by
  obtain ⟨cs, os, hl, hnil | ⟨c, hown, hc⟩⟩ := h
  · simp [hnil] at hfrees
  · obtain ⟨rfl, rfl⟩ : c = session ∧ [] = rest := by simpa [hc] using hfrees
    refine ⟨cs, os.erase c, ?_, Or.inl rfl⟩
    show Ledger (ownerEvents (s.log ++ [Effect.freeSession c])) cs _
    rw [ownerEvents_append, ownerEvents_freeSession]
    exact hl.free hown

/-! ## The moves, one by one -/

section Moves

variable {env : SessionEnv} {u v : SessionThreads}

/-- The invariant, where the fields are left alone and every phase leads to one. -/
theorem ThreadInv.of_shape (h : ThreadInv u) (hf : ownFields v.mgr = ownFields u.mgr)
    (hshape : ∀ p, PhaseShape u p → ∃ q, PhaseShape v q) : ThreadInv v := by
  have hfields := hf
  simp only [ownFields, Prod.mk.injEq] at hfields
  obtain ⟨hrel, hfrees, -, -, hcore, -⟩ := hfields
  obtain ⟨hr, hc, hl⟩ | ⟨hr, hfr, p, shape, hl⟩ := h
  · exact .closed (hrel ▸ hr) (hcore ▸ hc) (releasedLedger_congr hl hf)
  · obtain ⟨q, shape'⟩ := hshape p shape
    exact .live (hrel.trans hr) (hfrees.trans hfr) q shape' (liveLedger_congr hl hf)

theorem ThreadInv.main (h : ThreadInv u) (hf : ownFields v.mgr = ownFields u.mgr)
    (hu : u.main.Free) (hv : v.main.Free) (hw : v.worker = u.worker) : ThreadInv v :=
  h.of_shape hf fun p shape => ⟨p, shape.main hf hu hv hw⟩

/-- A move of the worker that leaves the fields alone. -/
theorem ThreadInv.worker (h : ThreadInv u) (hf : ownFields v.mgr = ownFields u.mgr)
    (hu : u.worker.Free) (hv : v.worker.Free) (hm : v.main = u.main) : ThreadInv v :=
  h.of_shape hf fun p shape => ⟨p, shape.worker hf hu hv hm⟩

variable {p : Phase}

theorem PhaseShape.vacant_of_core (h : PhaseShape u p) (hc : u.mgr.core = none) :
    PhaseShape u .vacant := by
  cases p with
  | vacant => exact h
  | _ => exact absurd (h.1.core.symm.trans hc) (by simp)

variable {task : WorkerTask}

theorem PhaseShape.of_submitting (h : PhaseShape u p) (hm : u.main = .submitting task) :
    PhaseShape u (.submitting task) := by
  cases p with
  | submitting task' =>
    obtain rfl : task' = task := MainPc.submitting.inj (h.2.1.symm.trans hm)
    exact h
  | terminating c =>
    obtain ⟨failed, d, hm'⟩ := h.2.1
    exact nomatch hm'.symm.trans hm
  | _ =>
    have hfree := h.2.1
    rw [hm] at hfree
    exact hfree.elim

/-- The phase in which the main thread runs a terminal handler. -/
theorem PhaseShape.of_terminating (h : PhaseShape u p) {inst : Instance} {failed : Bool}
    {nativeDetail : String} (hm : u.main = .terminating inst failed nativeDetail) :
    ∃ c, c.inst = inst ∧ PhaseShape u (.terminating c) := by
  cases p with
  | terminating c =>
    obtain ⟨failed', d, hm'⟩ := h.2.1
    obtain ⟨hinst, -, -⟩ := MainPc.terminating.inj (hm'.symm.trans hm)
    exact ⟨c, hinst, h⟩
  | submitting task => exact nomatch h.2.1.symm.trans hm
  | _ =>
    have hfree := h.2.1
    rw [hm] at hfree
    exact hfree.elim

theorem eq_of_on {w : WorkerPc} {task' : WorkerTask} (h : w.On task) (h' : w.On task') :
    task = task' := by
  cases w <;> first | exact h.elim | exact (Eq.symm h).trans h'

theorem not_free_of_on {w : WorkerPc} (h : w.On task) : ¬ w.Free := by
  cases w <;> first | exact h.elim | exact id

theorem PhaseShape.of_on (h : PhaseShape u p) (task : WorkerTask) (hw : u.worker.On task) :
    PhaseShape u (.working task) := by
  cases p with
  | working task' =>
    obtain rfl := eq_of_on h.2.2 hw
    exact h
  | _ => exact absurd h.2.2 (not_free_of_on hw)

theorem PhaseShape.of_tasks (h : PhaseShape u p) {rest : List WorkerTask}
    (ht : u.mgr.tasks = task :: rest) :
    rest = [] ∧ PhaseShape u (.queued task) := by
  cases p with
  | queued task' =>
    obtain ⟨rfl, rfl⟩ : task = task' ∧ rest = [] := by
      simpa using ht.symm.trans h.1.tasks
    exact ⟨rfl, h⟩
  | _ => exact nomatch ht.symm.trans h.1.tasks

/-- The phase in which a native thread is alive. -/
theorem PhaseShape.of_running (h : PhaseShape u p) {inst : Instance} (hr : inst ∈ u.mgr.running) :
    ∃ c n, inst = c.inst ∧ PhaseShape u (.running c n) := by
  cases p with
  | running c n =>
    rw [h.1.running] at hr
    exact ⟨c, n, List.mem_singleton.1 hr, h⟩
  | _ =>
    rw [h.1.running] at hr
    exact nomatch hr

/-- The cleanup of the current session leaves nothing behind. -/
theorem holding_freed {s : SessionManager} {c : CoreSession}
    (h : Holding s (some c) [] [] []) : Holding (freed c s) none [] [] [] where
  core := rfl
  tasks := h.tasks
  callbacks := h.callbacks
  running := h.running
  registered := by
    show s.registered.filter (· ≠ c.inst) = []
    rw [h.registered]
    simp
  sessionMap := by
    show s.sessionMap.filter (· ≠ c.inst) = []
    rw [h.sessionMap]
    simp

theorem cleanup_of_core_none {s : SessionManager} (h : s.core = none) (inst : Instance) :
    cleanupTerminalSession inst s = s := by
  rw [cleanupTerminalSession, h]

theorem inv_afterLock (h : ThreadInv u) (hu : u.main.Free) (raw : ConnectionProfile)
    (alloc : Option Instance) : ThreadInv (u.afterLock (connectLocked env raw alloc u.mgr)) := by
  rcases connectLocked_cases env raw alloc u.mgr with ⟨s', hs', hf⟩ | ⟨profile, inst, hr, hc, hs'⟩
  · rw [hs']
    exact h.main hf hu trivial rfl
  · rw [hs']
    obtain ⟨hr', -, -⟩ | ⟨-, hfrees, p, shape, ledger⟩ := h
    · exact absurd hr' (by simp [hr])
    obtain ⟨hold, -, hw⟩ := shape.vacant_of_core hc
    refine .live hr hfrees (.submitting (install env profile inst u.mgr).2) ⟨?_, rfl, hw⟩
      (liveLedger_install ledger hc env profile inst)
    refine ⟨rfl, hold.tasks, hold.callbacks, hold.running, ?_, ?_⟩
    · show inst :: u.mgr.registered.filter (· ≠ inst) = [inst]
      rw [hold.registered]
      rfl
    · show inst :: u.mgr.sessionMap = [inst]
      rw [hold.sessionMap]
      rfl

/-- **The main thread goes on.** -/
theorem inv_mainStep (h : ThreadInv u) {alloc : Option Instance} {accepted : Bool}
    (hv : mainStep env alloc accepted u = some v) : ThreadInv v := by
  rw [mainStep] at hv
  cases hm : u.main with
  | idle => simp [hm] at hv
  | reconnecting profile =>
    simp only [hm, ite_none_right_eq_some, some.injEq] at hv
    obtain ⟨-, rfl⟩ := hv
    exact inv_afterLock h (by rw [hm]; trivial) profile alloc
  | submitting task =>
    simp only [hm, some.injEq] at hv
    subst hv
    obtain ⟨hr, hc, hl⟩ | ⟨hr, hfrees, p, shape, ledger⟩ := h
    · exact .closed hr hc hl
    · obtain ⟨hold, -, hw⟩ := shape.of_submitting hm
      refine .live hr hfrees (.queued task) ⟨⟨hold.core, ?_, hold.callbacks, hold.running,
        hold.registered, hold.sessionMap⟩, trivial, hw⟩ ledger
      show u.mgr.tasks ++ [task] = [task]
      rw [hold.tasks, List.nil_append]
  | cancelling =>
    simp only [hm] at hv
    cases hc : u.mgr.core <;> simp only [hc, some.injEq] at hv <;> subst hv <;>
      exact h.main rfl (by rw [hm]; trivial) trivial rfl
  | cancelNative inst =>
    simp only [hm, some.injEq] at hv
    subst hv
    exact h.main rfl (by rw [hm]; trivial) trivial rfl
  | disconnecting =>
    simp only [hm] at hv
    cases hc : u.mgr.core <;> simp only [hc, some.injEq] at hv <;> subst hv <;>
      exact h.main rfl (by rw [hm]; trivial) trivial rfl
  | disconnectFound inst =>
    simp only [hm, some.injEq] at hv
    subst hv
    exact h.main rfl (by rw [hm]; trivial) trivial rfl
  | disconnectNative inst =>
    simp only [hm, some.injEq] at hv
    subst hv
    exact h.main (ownFields_disconnectNative inst accepted u.mgr) (by rw [hm]; trivial) trivial
      rfl
  | releasing =>
    simp only [hm, some.injEq] at hv
    subst hv
    exact h.main (ownFields_releaseTail u.mgr) (by rw [hm]; trivial) trivial rfl
  | succeeding now =>
    simp only [hm, some.injEq] at hv
    subst hv
    exact h.main rfl (by rw [hm]; trivial) trivial rfl
  | terminating inst failed nativeDetail =>
    simp only [hm, some.injEq] at hv
    subst hv
    obtain ⟨hr, hc, hl⟩ | ⟨hr, hfrees, p, shape, ledger⟩ := h
    · rw [cleanup_of_core_none (s := u.mgr.stopWatchdog) hc]
      exact .closed hr hc hl
    · obtain ⟨c, rfl, hold, -, hw⟩ := shape.of_terminating hm
      rw [cleanup_of_core (s := u.mgr.stopWatchdog) hold.core]
      exact .live hr hfrees .vacant ⟨holding_freed (holding_congr hold rfl), trivial, hw⟩
        (liveLedger_freed (s := u.mgr.stopWatchdog) ledger hold.core)
  | terminated inst failed nativeDetail profile =>
    simp only [hm, some.injEq] at hv
    subst hv
    exact h.main (ownFields_terminalTail inst failed nativeDetail profile u.mgr)
      (by rw [hm]; trivial) trivial rfl

theorem ThreadInv.keepsTask (h : ThreadInv u) (hu : u.worker.On task)
    (hf : ownFields v.mgr = ownFields u.mgr) (hv : v.worker.On task) (hm : v.main = u.main) :
    ThreadInv v := by
  refine h.of_shape hf fun p shape => ⟨.working task, ?_⟩
  obtain ⟨hold, hfree, -⟩ := shape.of_on task hu
  exact ⟨holding_congr hold hf, hm ▸ hfree, hv⟩

/-- A worker whose session is no longer the current one: only `release` takes the
session of a task away. -/
theorem ThreadInv.of_not_current (h : ThreadInv u) (hu : u.worker.On task)
    (hnot : ¬ u.mgr.isCurrent task.session.inst) (hf : ownFields v.mgr = ownFields u.mgr) :
    ThreadInv v := by
  refine h.of_shape hf fun p shape => ?_
  obtain ⟨hold, -, -⟩ := shape.of_on task hu
  exact absurd ((isCurrent_iff_of_core hold.core _).2 rfl) hnot

theorem ThreadInv.cleansUp (h : ThreadInv u) (hu : u.worker.On task) {w : WorkerPc} (hw : w.Free) :
    ThreadInv ⟨cleanupTerminalSession task.session.inst u.mgr, u.main, w⟩ := by
  obtain ⟨hr, hc, hl⟩ | ⟨hr, hfrees, p, shape, ledger⟩ := h
  · rw [cleanup_of_core_none hc]
    exact .closed hr hc hl
  · obtain ⟨hold, hm, -⟩ := shape.of_on task hu
    rw [cleanup_of_core hold.core]
    exact .live hr hfrees .vacant ⟨holding_freed hold, hm, hw⟩ (liveLedger_freed ledger hold.core)

/-- **The worker goes on.** -/
theorem inv_workStep (h : ThreadInv u) {reachable : Bool} {thrown : Option String}
    (hv : workStep reachable thrown u = some v) : ThreadInv v := by
  rw [workStep] at hv
  cases hw : u.worker with
  | idle =>
    simp only [hw] at hv
    cases ht : u.mgr.tasks with
    | nil => simp [ht] at hv
    | cons task rest =>
      simp only [ht, some.injEq] at hv
      subst hv
      obtain ⟨hr, hc, hl⟩ | ⟨hr, hfrees, p, shape, ledger⟩ := h
      · exact .closed hr hc hl
      · obtain ⟨rfl, hold, hm, -⟩ := shape.of_tasks ht
        exact .live hr hfrees (.working task) ⟨⟨hold.core, rfl, hold.callbacks, hold.running,
          hold.registered, hold.sessionMap⟩, hm, rfl⟩ ledger
  | probing task =>
    have hon : u.worker.On task := by rw [hw]; rfl
    simp only [hw] at hv
    split at hv
    · next hnot =>
        obtain rfl := some.inj hv
        exact h.of_not_current hon hnot rfl
    · split at hv <;> obtain rfl := some.inj hv
      · exact h.keepsTask hon rfl rfl rfl
      · exact h.keepsTask hon rfl rfl rfl
  | unreachable task =>
    simp only [hw, some.injEq] at hv
    subst hv
    exact h.cleansUp (by rw [hw]; rfl) trivial
  | gaveUp task =>
    simp only [hw, some.injEq] at hv
    subst hv
    exact h.worker (ownFields_workerUnreachableTail task u.mgr) (by rw [hw]; trivial) trivial rfl
  | connecting task =>
    simp only [hw, workerConnectLocked] at hv
    obtain ⟨hr, hc, hl⟩ | ⟨hr, hfrees, p, shape, ledger⟩ := h
    · rw [if_pos (Or.inl (not_isCurrent_of_core_none hc _))] at hv
      obtain rfl := some.inj hv
      exact .closed hr hc hl
    · obtain ⟨hold, hm, -⟩ := shape.of_on task (by rw [hw]; rfl)
      have hcur : u.mgr.isCurrent task.session.inst :=
        (isCurrent_iff_of_core hold.core _).2 rfl
      have used := liveLedger_connectSession ledger hold.core
      rw [if_neg (by simp [hcur, hr])] at hv
      cases thrown with
      | none =>
        obtain rfl := some.inj hv
        refine .live hr hfrees (.running task.session 0) ⟨?_, hm, trivial⟩ used
        refine ⟨hold.core, hold.tasks, hold.callbacks, ?_, hold.registered, hold.sessionMap⟩
        show task.session.inst :: u.mgr.running = [task.session.inst]
        rw [hold.running]
      | some message =>
        obtain rfl := some.inj hv
        exact .live hr hfrees (.working task) ⟨⟨hold.core, hold.tasks, hold.callbacks,
          hold.running, hold.registered, hold.sessionMap⟩, hm, rfl⟩ used
  | thrown task message =>
    have hon : u.worker.On task := by rw [hw]; rfl
    simp only [hw] at hv
    split at hv <;> obtain rfl := some.inj hv
    · exact h.keepsTask hon rfl rfl rfl
    · next hnot => exact h.of_not_current hon hnot rfl
  | closing task =>
    simp only [hw, some.injEq] at hv
    subst hv
    exact h.cleansUp (by rw [hw]; rfl) trivial

/-- **The main looper begins a callback.**  A success leaves the main thread with
nothing, a terminal event gives it the cleanup of the session. -/
theorem inv_deliverGuard (h : ThreadInv u) {cb : Callback} {rest : List Callback}
    (hcb : u.mgr.callbacks = cb :: rest) (nativeDetail : String) (now : ℕ) :
    ThreadInv (deliverGuard cb nativeDetail now
      { u with mgr := { u.mgr with callbacks := rest } }) := by
  obtain ⟨hr, hc, hl⟩ | ⟨hr, hfrees, p, shape, ledger⟩ := h
  · rw [deliverGuard, if_neg (by exact not_isCurrent_of_core_none hc _)]
    exact .closed hr hc hl
  have current : ∀ {c : CoreSession}, u.mgr.core = some c → cb.inst = c.inst →
      isCurrent cb.inst { u.mgr with callbacks := rest } := fun hcore hinst =>
    (isCurrent_iff_of_core hcore _).2 hinst.symm
  cases p with
  | vacant => exact nomatch hcb.symm.trans shape.1.callbacks
  | submitting task => exact nomatch hcb.symm.trans shape.1.callbacks
  | queued task => exact nomatch hcb.symm.trans shape.1.callbacks
  | working task => exact nomatch hcb.symm.trans shape.1.callbacks
  | terminating c => exact nomatch hcb.symm.trans shape.1.callbacks
  | running c n =>
    obtain ⟨hold, -, hw⟩ := shape
    have hlist := hcb.symm.trans hold.callbacks
    cases n with
    | zero => exact nomatch hlist
    | succ m =>
      obtain ⟨rfl, rfl⟩ : cb = ⟨c.inst, .success⟩ ∧ rest = successCallbacks c.inst m := by
        simpa [successCallbacks, List.replicate_succ] using hlist
      rw [deliverGuard, if_pos (current hold.core rfl)]
      exact .live hr hfrees (.running c m) ⟨⟨hold.core, hold.tasks, rfl, hold.running,
        hold.registered, hold.sessionMap⟩, trivial, hw⟩ ledger
  | ending c n failed =>
    obtain ⟨hold, -, hw⟩ := shape
    have hlist := hcb.symm.trans hold.callbacks
    cases n with
    | zero =>
      obtain ⟨rfl, rfl⟩ : cb = ⟨c.inst, SessionStep.endEvent failed⟩ ∧ rest = [] := by
        simpa [successCallbacks] using hlist
      rw [deliverGuard, if_pos (current hold.core rfl)]
      have hold' : Holding { u.mgr with callbacks := [] } (some c) [] [] [] :=
        ⟨hold.core, hold.tasks, rfl, hold.running, hold.registered, hold.sessionMap⟩
      cases failed with
      | true => exact .live hr hfrees (.terminating c) ⟨hold', ⟨true, _, rfl⟩, hw⟩ ledger
      | false => exact .live hr hfrees (.terminating c) ⟨hold', ⟨false, _, rfl⟩, hw⟩ ledger
    | succ m =>
      obtain ⟨rfl, rfl⟩ : cb = ⟨c.inst, .success⟩ ∧
          rest = successCallbacks c.inst m ++ [⟨c.inst, SessionStep.endEvent failed⟩] := by
        simpa [successCallbacks, List.replicate_succ] using hlist
      rw [deliverGuard, if_pos (current hold.core rfl)]
      exact .live hr hfrees (.ending c m failed) ⟨⟨hold.core, hold.tasks, rfl, hold.running,
        hold.registered, hold.sessionMap⟩, trivial, hw⟩ ledger

/-- **A native thread reports.** -/
theorem inv_native (h : ThreadInv u) {inst : Instance} (hrun : inst ∈ u.mgr.running) :
    ThreadInv { u with mgr := u.mgr.dispatch ⟨inst, .success⟩ } ∧
      ∀ failed, ThreadInv ⟨dispatch ⟨inst, SessionStep.endEvent failed⟩
        { u.mgr with running := u.mgr.running.filter (· ≠ inst) }, u.main, u.worker⟩ := by
  obtain ⟨hr, hc, hl⟩ | ⟨hr, hfrees, p, shape, ledger⟩ := h
  · refine ⟨?_, fun failed => ?_⟩
    · simp only [dispatch]
      split <;> exact .closed hr hc hl
    · simp only [dispatch]
      split <;> exact .closed hr hc hl
  · obtain ⟨c, n, rfl, hold, hm, hw⟩ := shape.of_running hrun
    have hmem : c.inst ∈ u.mgr.registered := by
      rw [hold.registered]
      exact List.mem_singleton_self _
    constructor
    · rw [dispatch_of_mem (by exact hmem)]
      refine .live hr hfrees (.running c (n + 1)) ⟨⟨hold.core, hold.tasks, ?_, hold.running,
        hold.registered, hold.sessionMap⟩, hm, hw⟩ ledger
      show u.mgr.callbacks ++ [_] = _
      rw [hold.callbacks, successCallbacks, successCallbacks, List.replicate_succ']
    · intro failed
      rw [dispatch_of_mem (by exact hmem)]
      refine .live hr hfrees (.ending c n failed) ⟨⟨hold.core, hold.tasks, ?_, ?_,
        hold.registered, hold.sessionMap⟩, hm, hw⟩ ledger
      · show u.mgr.callbacks ++ [_] = _
        rw [hold.callbacks]
      · show u.mgr.running.filter (· ≠ c.inst) = []
        rw [hold.running]
        simp

/-! ## The step lemma and the run lemma -/

/-- **Step lemma.**  Every move keeps the invariant. -/
theorem threadInv_step {a : ThreadStep} (h : ThreadInv u) (hv : step env u a = some v) :
    ThreadInv v := by
  cases a with
  | connect raw alloc =>
    simp only [step, ite_none_right_eq_some, some.injEq] at hv
    obtain ⟨⟨hm, -⟩, rfl⟩ := hv
    exact inv_afterLock h (by rw [hm]; trivial) raw alloc
  | cancelConnection =>
    simp only [step, ite_none_right_eq_some, some.injEq] at hv
    obtain ⟨hm, rfl⟩ := hv
    exact h.main rfl (by rw [hm]; trivial) trivial rfl
  | disconnect =>
    simp only [step, ite_none_right_eq_some, some.injEq] at hv
    obtain ⟨hm, rfl⟩ := hv
    exact h.main rfl (by rw [hm]; trivial) trivial rfl
  | release =>
    simp only [step, ite_none_right_eq_some] at hv
    obtain ⟨hm, hv⟩ := hv
    split at hv <;> obtain rfl := some.inj hv
    · exact h
    · -- the one move that closes the manager: its session passes to the daemon
      rename_i hnot
      obtain ⟨hr, -, -⟩ | ⟨hr, hfrees, p, shape, ledger⟩ := h
      · exact absurd hr hnot
      · obtain ⟨hrel, hcore⟩ := releaseLocked_closed hr
        exact .closed hrel hcore (releasedLedger_releaseLocked ledger hfrees hr)
  | setListener present =>
    obtain rfl := some.inj hv
    refine h.of_shape rfl fun p shape => ⟨p, ?_⟩
    cases p <;> exact ⟨holding_congr shape.1 rfl, shape.2⟩
  | deliver nativeDetail now =>
    simp only [step, ite_none_right_eq_some] at hv
    obtain ⟨-, hv⟩ := hv
    cases hcb : u.mgr.callbacks with
    | nil => simp [hcb] at hv
    | cons cb rest =>
      simp only [hcb, some.injEq] at hv
      subst hv
      exact inv_deliverGuard h hcb nativeDetail now
  | fire i =>
    simp only [step, ite_none_right_eq_some] at hv
    obtain ⟨hm, hv⟩ := hv
    cases hr : u.mgr.runnables[i]? with
    | none => simp [hr] at hv
    | some r =>
      simp only [hr, some.injEq] at hv
      subst hv
      set u₀ : SessionThreads :=
        { u with mgr := { u.mgr with runnables := u.mgr.runnables.eraseIdx i } }
      have hfree : u₀.main.Free := by
        show u.main.Free
        rw [hm]
        trivial
      obtain ⟨hfree', hw⟩ := fireGuard_main u₀ hfree r
      exact h.main (ownFields_fireGuard u₀ r) hfree hfree' hw
  | main alloc accepted => exact inv_mainStep h hv
  | work reachable thrown => exact inv_workStep h hv
  | nativeSuccess inst =>
    simp only [step, ite_none_right_eq_some, some.injEq] at hv
    obtain ⟨hrun, rfl⟩ := hv
    exact (inv_native h hrun).1
  | nativeEnd inst failed =>
    simp only [step, ite_none_right_eq_some, some.injEq] at hv
    obtain ⟨hrun, rfl⟩ := hv
    exact (inv_native h hrun).2 failed
  | authenticate inst =>
    simp only [step, ite_none_right_eq_some, some.injEq] at hv
    obtain ⟨-, rfl⟩ := hv
    have hf := ownFields_onAuthenticate inst u.mgr
    refine h.of_shape hf fun p shape => ⟨p, ?_⟩
    cases p <;> exact ⟨holding_congr shape.1 hf, shape.2⟩
  | runFree =>
    simp only [step] at hv
    cases hfr : u.mgr.frees with
    | nil => simp [hfr] at hv
    | cons session rest =>
      simp only [hfr, some.injEq] at hv
      subst hv
      obtain ⟨hr, hc, hl⟩ | ⟨-, hfrees, -⟩ := h
      · exact .closed hr hc (releasedLedger_runFree hl hfr)
      · -- a live manager has left nothing to a daemon
        exact absurd (hfr.symm.trans hfrees) (by simp)

theorem threadInv_initial : ThreadInv initial :=
  .live rfl rfl .vacant ⟨⟨rfl, rfl, rfl, rfl, rfl, rfl⟩, trivial, trivial⟩
    ⟨[], .empty, by simp, fun _ hnone => by cases hnone⟩

/-- **Run lemma.**  The threads keep the invariant along every interleaving. -/
theorem threadInv_of_run {as : List ThreadStep} (h : run (step env) initial as = some u) :
    ThreadInv u :=
  run_induct (fun _ _ _ => threadInv_step) threadInv_initial h

end Moves

/-- **Native sessions are owned linearly.**  Whatever the interleaving: no session
is freed twice; where `session.connect` is called, its session is the newest one and
was not freed before; and until the manager is released at most one created session
is not freed. -/
theorem owned_linearly (env : SessionEnv) (as : List ThreadStep) (u : SessionThreads)
    (h : run (step env) initial as = some u) :
    (freed (ownerEvents u.mgr.log)).Nodup ∧
    (∀ pre post c, u.mgr.log = pre ++ .connectSession c :: post →
      (created (ownerEvents pre)).getLast? = some c ∧ c ∉ freed (ownerEvents pre)) ∧
    (u.mgr.released = false → (unfreed (ownerEvents u.mgr.log)).length ≤ 1) := by
  obtain ⟨cs, os, ledger, hos⟩ : ∃ cs os, Ledger (ownerEvents u.mgr.log) cs os ∧
      (u.mgr.released = false → os = u.mgr.core.toList) := by
    obtain ⟨hr, -, cs, os, hl, -⟩ | ⟨-, -, -, -, cs, hl, -⟩ := threadInv_of_run h
    · exact ⟨cs, os, hl, fun hr' => absurd hr (by simp [hr'])⟩
    · exact ⟨cs, _, hl, fun _ => rfl⟩
  refine ⟨ledger.freed_nodup, ?_, ?_⟩
  · intro pre post c hlog
    have hevents : ownerEvents u.mgr.log = ownerEvents pre ++ .use c :: ownerEvents post := by
      rw [hlog, ownerEvents_append]
      rfl
    exact ledger.use_spec hevents
  · intro hr
    refine ledger.unfreed_length_le.trans ?_
    rw [hos hr]
    cases u.mgr.core <;> simp

/-- `release` comes between the probe and the lock of the worker. -/
def releaseDuringProbe : List ThreadStep :=
  [.connect deskProfile (some 1), .main none true, .work true none, .work true none, .release,
    .work true none, .main none true, .runFree]

theorem owned_linearly_releaseDuringProbe :
    ∃ u, run (step plainEnv) initial releaseDuringProbe = some u ∧
      (freed (ownerEvents u.mgr.log)).Nodup ∧
      (∀ pre post c, u.mgr.log = pre ++ .connectSession c :: post →
        (created (ownerEvents pre)).getLast? = some c ∧ c ∉ freed (ownerEvents pre)) ∧
      (u.mgr.released = false → (unfreed (ownerEvents u.mgr.log)).length ≤ 1) :=
  ⟨_, rfl, owned_linearly plainEnv releaseDuringProbe _ rfl⟩

/-- **One attempt at a time**, whatever the interleaving: what waits or runs is for the current
session, and there is none of it twice. -/
theorem one_attempt (env : SessionEnv) (as : List ThreadStep) (u : SessionThreads)
    (h : run (step env) initial as = some u) :
    (u.mgr.released → u.mgr.core = none) ∧
    (u.mgr.released = false → u.mgr.tasks.length + u.mgr.running.length ≤ 1 ∧
      (∀ inst ∈ u.mgr.running, u.mgr.isCurrent inst) ∧
      ∀ cb ∈ u.mgr.callbacks, u.mgr.isCurrent cb.inst) := by
  obtain ⟨hr, hcore, -⟩ | ⟨hr, -, phase, hshape, -⟩ := threadInv_of_run h
  · exact ⟨fun _ => hcore, fun hlive => absurd hr (by simp [hlive])⟩
  · refine ⟨fun hclosed => absurd hclosed (by simp [hr]), fun _ => ?_⟩
    cases phase <;> obtain ⟨⟨hcore, htasks, hcallbacks, hrunning, -, -⟩, -⟩ := hshape <;>
      simp +contextual [isCurrent, hcore, htasks, hcallbacks, hrunning, successCallbacks]
    -- the terminal event waits behind the successes
    grind

theorem one_attempt_releaseDuringProbe :
    ∃ u, run (step plainEnv) initial releaseDuringProbe = some u ∧ u.mgr.core = none :=
  ⟨_, rfl, (one_attempt plainEnv releaseDuringProbe _ rfl).1 rfl⟩

end SessionThreads
