/-
# The life of a native session

What the session manager is for, as a state machine of its own: between two
handlers it owns no session, or one that is waiting for the worker (`probing`),
connected to a native thread (`running`), or about to be told its terminal event
(`ending`).  `Shape s l` says that the concrete state `s` is in the abstract state
`l`.  Every handler keeps the manager in one of these states (`inv_step`), and keeps
the bookkeeping of the fields (`Books`) that the later files use.
-/
import XyDeskRemote.SessionStep

open LabelledRun

/-- Where the manager stands with its native session. -/
inductive Lifecycle where
  | vacant
  | probing (task : WorkerTask)
  | running (session : CoreSession) (successes : ℕ)
  | ending (session : CoreSession) (successes : ℕ) (failed : Bool)
  deriving DecidableEq, Repr

/-- The session of an occupied abstract state. -/
def Lifecycle.session : Lifecycle → Option CoreSession
  | .vacant => none
  | .probing task => some task.session
  | .running session _ => some session
  | .ending session _ _ => some session

namespace SessionManager

/-- The callbacks of a live native thread: `n` successes. -/
def successCallbacks (inst : Instance) (n : ℕ) : List Callback :=
  List.replicate n ⟨inst, .success⟩

/-- The abstract state `l` describes the manager `s`. -/
def Shape (s : SessionManager) : Lifecycle → Prop
  | .vacant =>
    s.core = none ∧ s.tasks = [] ∧ s.callbacks = [] ∧ s.running = [] ∧
      s.registered = [] ∧ s.sessionMap = []
  | .probing task =>
    s.core = some task.session ∧ s.tasks = [task] ∧ s.callbacks = [] ∧ s.running = [] ∧
      s.registered = [task.session.inst] ∧ s.sessionMap = [task.session.inst] ∧
      s.connectedAtMs = 0
  | .running session n =>
    s.core = some session ∧ s.tasks = [] ∧
      s.callbacks = successCallbacks session.inst n ∧ s.running = [session.inst] ∧
      s.registered = [session.inst] ∧ s.sessionMap = [session.inst] ∧ s.lastTcpReachable
  | .ending session n failed =>
    s.core = some session ∧ s.tasks = [] ∧
      s.callbacks = successCallbacks session.inst n ++
        [⟨session.inst, SessionStep.endEvent failed⟩] ∧ s.running = [] ∧
      s.registered = [session.inst] ∧ s.sessionMap = [session.inst] ∧ s.lastTcpReachable

/-- The bookkeeping of the fields between two handlers. -/
structure Books (s : SessionManager) : Prop where
  stage_le : s.compatHandshakeStage ≤ 2
  connected : s.state = .connected → 0 < s.connectedAtMs ∧ s.autoReconnectAttempts = 0
  vacant_state : s.core = none → s.state ≠ .connected ∧ s.state ≠ .authenticating
  profile : s.core.isSome → s.lastProfile.isSome
  frees : s.frees = []

/-- A released manager has no session and announces none. -/
structure Closed (s : SessionManager) : Prop where
  released : s.released
  core : s.core = none
  state : ¬ s.state.Transitional

/-- The invariant of the manager between two handlers. -/
inductive Inv (s : SessionManager) : Prop
  | closed (h : Closed s)
  | live (h : s.released = false) (books : Books s) (l : Lifecycle) (shape : Shape s l)

variable {s : SessionManager}

theorem Inv.shape (h : Inv s) (hr : s.released = false) :
    Books s ∧ ∃ l, Shape s l := by
  obtain hclosed | ⟨-, books, l, shape⟩ := h
  · exact absurd hclosed.released (by simp [hr])
  · exact ⟨books, l, shape⟩

/-! ## Small facts about the pieces -/

theorem not_isCurrent_of_core_none (h : s.core = none) (inst : Instance) :
    ¬ s.isCurrent inst := by
  simp [isCurrent, h]

variable {c : CoreSession}

theorem isCurrent_iff_of_core (h : s.core = some c) (inst : Instance) :
    s.isCurrent inst ↔ c.inst = inst := by
  simp [isCurrent, h]

@[simp] theorem transition_core (st : SessionState) (s : SessionManager) :
    (transition st s).core = s.core := rfl

/-- The manager after `cleanupTerminalSession` of its current session. -/
def freed (c : CoreSession) (s : SessionManager) : SessionManager :=
  freeSession c { unregisterSessionListener c.inst s.stopWatchdog with core := none }

theorem cleanup_of_core (h : s.core = some c) :
    cleanupTerminalSession c.inst s = freed c s := by
  simp [cleanupTerminalSession, freed, h]

/-- A user call that finds no session changes nothing but the flag and the token. -/
theorem disconnect_of_core_none (h : s.core = none) (accepted : Bool) :
    s.disconnect accepted = s.cancelRequested := by
  simp [disconnect, h]

theorem cancelConnection_of_core_none (h : s.core = none) :
    s.cancelConnection = s.cancelRequested := by
  simp [cancelConnection, h]

variable {env : SessionEnv}

theorem connect_of_core (h : s.core = some c) (raw : ConnectionProfile) (alloc : Option Instance) :
    connect env raw alloc s = s := by
  unfold connect connectLocked
  rw [h]
  by_cases h₁ : s.released <;> simp [h₁]

theorem connect_of_released (h : s.released) (raw : ConnectionProfile) (alloc : Option Instance) :
    connect env raw alloc s = s := by
  simp [connect, connectLocked, h]

/-- The manager after a `connect` that created the session `inst`. -/
def started (env : SessionEnv) (raw : ConnectionProfile) (inst : Instance) (s : SessionManager) :
    SessionManager :=
  submit (install env (normalized env raw) inst s).2 (install env (normalized env raw) inst s).1

theorem connect_of_vacant (hr : s.released = false) (hc : s.core = none)
    (hs : s.state ≠ .connected ∧ s.state ≠ .authenticating) (raw : ConnectionProfile)
    (alloc : Option Instance) :
    connect env raw alloc s =
      match alloc with
      | none => { s with connectedAtMs := 0 }
      | some inst => started env raw inst s := by
  cases alloc <;> simp [connect, connectLocked, started, hr, hc, hs.1, hs.2]

/-! ## A closed manager stays closed -/

variable {t : SessionManager}

theorem closed_of_eq (h : Closed s) (hr : t.released = s.released) (hc : t.core = s.core)
    (hs : t.state = s.state) : Closed t :=
  ⟨hr ▸ h.released, hc ▸ h.core, hs ▸ h.state⟩

theorem closed_dispatch (h : Closed s) (cb : Callback) :
    Closed (s.dispatch cb) := by
  unfold dispatch
  split
  · exact closed_of_eq h rfl rfl rfl
  · exact h

theorem closed_runDelayed (h : Closed s) (alloc : Instance) (r : DelayedRunnable) :
    Closed (runDelayed env alloc s r) := by
  have hcur := not_isCurrent_of_core_none h.core
  cases r with
  | reconnect p d => simpa [runDelayed, reconnect, mayReconnect, h.released] using h
  | cancelFallback inst => simpa [runDelayed, cancelFallback, hcur] using h
  | disconnectFallback inst => simpa [runDelayed, disconnectFallback, hcur] using h
  | watchdog inst token => simpa [runDelayed, watchdog, hcur] using h

theorem closed_runCallback (h : Closed s) (cb : Callback) (d : String) (now : ℕ) :
    Closed (runCallback cb d now s) := by
  have hcur := not_isCurrent_of_core_none h.core
  obtain ⟨inst, event⟩ := cb
  cases event <;>
    simpa [runCallback, onConnectionSuccess, onConnectionFailure, onDisconnected, hcur] using h

theorem closed_step (h : Closed s) {a : SessionStep} (ht : step env s a = some t) : Closed t := by
  have hcur := not_isCurrent_of_core_none h.core
  cases a with
  | connect raw alloc =>
    obtain ⟨-, rfl⟩ := step_connect.1 ht
    rwa [connect_of_released h.released]
  | cancelConnection =>
    obtain rfl : s.cancelConnection = t := Option.some.inj ht
    rw [cancelConnection_of_core_none h.core]
    exact ⟨h.released, h.core, h.state⟩
  | disconnect accepted =>
    obtain rfl : s.disconnect accepted = t := Option.some.inj ht
    rw [disconnect_of_core_none h.core]
    exact ⟨h.released, h.core, h.state⟩
  | release =>
    obtain rfl : s.release = t := Option.some.inj ht
    rwa [release, if_pos h.released]
  | setListener present =>
    exact Option.some.inj ht ▸ ⟨h.released, h.core, h.state⟩
  | work reachable thrown =>
    obtain ⟨task, rest, -, rfl⟩ := step_work.1 ht
    have hn : ¬ isCurrent task.session.inst
        { s with tasks := rest, lastTcpReachable := reachable } :=
      not_isCurrent_of_core_none h.core _
    rw [workerBody, if_pos hn]
    exact ⟨h.released, h.core, h.state⟩
  | nativeSuccess inst =>
    obtain ⟨-, rfl⟩ := step_nativeSuccess.1 ht
    exact closed_dispatch h _
  | nativeEnd inst failed =>
    obtain ⟨-, rfl⟩ := step_nativeEnd.1 ht
    apply closed_dispatch
    exact closed_of_eq h rfl rfl rfl
  | authenticate inst =>
    obtain ⟨-, rfl⟩ := step_authenticate.1 ht
    rwa [onAuthenticate, if_neg fun hc => hcur inst hc.2]
  | deliver d now =>
    obtain ⟨-, cb, rest, -, rfl⟩ := step_deliver.1 ht
    apply closed_runCallback
    exact closed_of_eq h rfl rfl rfl
  | fire i alloc =>
    obtain ⟨-, r, -, rfl⟩ := step_fire.1 ht
    apply closed_runDelayed
    exact closed_of_eq h rfl rfl rfl
  | runFree =>
    obtain ⟨session, rest, -, rfl⟩ := step_runFree.1 ht
    exact closed_of_eq h rfl rfl rfl

/-! ## A live manager moves along the abstract machine -/

/-- The fields `Shape` speaks about. -/
def shapeFields (s : SessionManager) :=
  (s.core, s.tasks, s.callbacks, s.running, s.registered, s.sessionMap, s.connectedAtMs,
    s.lastTcpReachable)

variable {l : Lifecycle}

theorem shape_congr (h : Shape s l) (hf : t.shapeFields = s.shapeFields) : Shape t l := by
  simp only [shapeFields, Prod.mk.injEq] at hf
  obtain ⟨h₁, h₂, h₃, h₄, h₅, h₆, h₇, h₈⟩ := hf
  cases l <;> simpa only [Shape, h₁, h₂, h₃, h₄, h₅, h₆, h₇, h₈] using h

theorem Books.transition (h : Books s) {st : SessionState} (hc : st ≠ .connected)
    (ha : st ≠ .authenticating) :
    Books (SessionManager.transition st s) where
  stage_le := h.stage_le
  connected := fun hst => absurd hst hc
  vacant_state := fun _ => ⟨hc, ha⟩
  profile := h.profile
  frees := h.frees

/-- The fields the books are about. -/
def bookFields (s : SessionManager) :=
  (s.compatHandshakeStage, s.state, s.connectedAtMs, s.autoReconnectAttempts, s.core,
    s.lastProfile, s.frees)

theorem Books.congr (h : Books s) (hf : t.bookFields = s.bookFields) :
    Books t := by
  simp only [bookFields, Prod.mk.injEq] at hf
  obtain ⟨hstage, hstate, hat, hatt, hcore, hprof, hfrees⟩ := hf
  constructor
  · rw [hstage]
    exact h.stage_le
  · rw [hstate, hat, hatt]
    exact h.connected
  · rw [hstate, hcore]
    exact h.vacant_state
  · rw [hcore, hprof]
    exact h.profile
  · rw [hfrees]
    exact h.frees

theorem Shape.core_eq (h : Shape s l) :
    s.core = l.session := by
  cases l <;> exact h.1

/-- Without a session the abstract state is `vacant`. -/
theorem Shape.vacant_of_core (h : Shape s l) (hc : s.core = none) : Shape s .vacant := by
  have hnone : l.session = none := h.core_eq.symm.trans hc
  cases l with
  | vacant => exact h
  | _ => exact nomatch hnone

/-- The fields the invariant speaks about. -/
def invFields (s : SessionManager) :=
  (s.shapeFields, s.released, s.state, s.compatHandshakeStage, s.autoReconnectAttempts,
    s.lastProfile, s.frees)

/-- The invariant depends on its fields only. -/
theorem Inv.of_eq (h : Inv s) (hf : t.invFields = s.invFields) : Inv t := by
  simp only [invFields, Prod.mk.injEq] at hf
  obtain ⟨hshape, hrel, hstate, hstage, hatt, hprof, hfrees⟩ := hf
  have hcore : t.core = s.core := congrArg Prod.fst hshape
  have hat : t.connectedAtMs = s.connectedAtMs := by
    simp only [shapeFields, Prod.mk.injEq] at hshape
    exact hshape.2.2.2.2.2.2.1
  have hbooks : t.bookFields = s.bookFields := by
    simp only [bookFields, hstage, hstate, hat, hatt, hcore, hprof, hfrees]
  obtain hclosed | ⟨hr, books, l, shape⟩ := h
  · exact .closed ⟨hrel ▸ hclosed.released, hcore ▸ hclosed.core, hstate ▸ hclosed.state⟩
  · exact .live (hrel.trans hr) (books.congr hbooks) l
      (shape_congr shape hshape)

/-- The session of an occupied state, and everything that is registered for it,
is gone after the cleanup. -/
theorem shape_freed (ht : s.tasks = []) (hcb : s.callbacks = []) (hr : s.running = [])
    (hreg : s.registered = [c.inst]) (hmap : s.sessionMap = [c.inst]) :
    Shape (freed c s) .vacant := by
  simp [Shape, freed, freeSession, unregisterSessionListener, stopWatchdog, ht, hcb, hr, hreg,
    hmap]

/-- `connect` of a live manager: ignored, or from `vacant` to `probing`. -/
theorem inv_connect (hr : s.released = false) (books : Books s) (shape : Shape s l)
    (raw : ConnectionProfile) (alloc : Option Instance) : Inv (connect env raw alloc s) := by
  cases hc : s.core with
  | some c =>
    rw [connect_of_core hc]
    exact .live hr books l shape
  | none =>
    obtain ⟨hcore, htasks, hcb, hrun, hreg, hmap⟩ := shape.vacant_of_core hc
    have hst := books.vacant_state hc
    rw [connect_of_vacant hr hc hst]
    cases alloc with
    | none =>
      refine .live hr ?_ .vacant ⟨hcore, htasks, hcb, hrun, hreg, hmap⟩
      exact ⟨books.stage_le, fun h => absurd h hst.1, books.vacant_state, books.profile,
        books.frees⟩
    | some inst =>
      refine .live hr ?_ (.probing (install env (normalized env raw) inst s).2) ?_
      · exact ⟨books.stage_le, nofun, nofun, fun _ => rfl, books.frees⟩
      · simp [Shape, started, install, submit, startWatchdog, postDelayed, stopWatchdog,
          SessionManager.transition, registerSessionListener, htasks, hcb, hrun, hreg, hmap]

/-- A handler that leaves the fields of `Shape` alone and moves to a quiet state
keeps the invariant. -/
theorem inv_transition (hr : s.released = false) (books : Books s) (shape : Shape s l)
    {st : SessionState} (hc : st ≠ .connected) (ha : st ≠ .authenticating) :
    Inv (transition st s) :=
  .live hr (books.transition hc ha) l (shape_congr shape rfl)

/-! ### The worker body of a current task -/

section Worker

variable {s : SessionManager} {task : WorkerTask}

/-- A failed probe frees the session and is reported: the retry needs
`connectedAtMs > 0`, which `sessionUri` has cleared when the task was made. -/
theorem workerBody_unreachable (hcore : s.core = some task.session) (hat : s.connectedAtMs = 0)
    (thrown : Option String) :
    workerBody task false thrown s =
      transition (unreachableError task)
        (freed task.session { s with lastTcpReachable := false }) := by
  rw [workerBody, if_neg (by simp [isCurrent, hcore]), if_pos (by simp),
    cleanup_of_core (by exact hcore), workerUnreachableTail, if_neg]
  rintro ⟨-, -, hpos, -⟩
  exact absurd hat hpos.ne'

/-- After a good probe `session.connect` starts the native thread. -/
theorem workerBody_started (hcore : s.core = some task.session) (hr : s.released = false) :
    workerBody task true none s = { s with
      lastTcpReachable := true
      log := s.log ++ [.connectSession task.session]
      running := task.session.inst :: s.running } := by
  rw [workerBody, if_neg (by simp [isCurrent, hcore]), if_neg (by simp), workerConnectLocked,
    if_neg (by simp [isCurrent, hcore, hr])]

theorem workerBody_thrown (hcore : s.core = some task.session) (hr : s.released = false)
    (message : String) :
    workerBody task true (some message) s =
      freed task.session (transition (connectException task.session.inst message)
        { s with lastTcpReachable := true, log := s.log ++ [.connectSession task.session] }) := by
  rw [workerBody, if_neg (by simp [isCurrent, hcore]), if_neg (by simp), workerConnectLocked,
    if_neg (by simp [isCurrent, hcore, hr])]
  simp only [workerThrown]
  rw [if_pos (by simp [isCurrent, hcore]), cleanup_of_core (by exact hcore)]

end Worker

/-- The task of the worker is the one the abstract state names. -/
theorem Shape.probing_of_tasks (h : Shape s l) {task : WorkerTask} {rest : List WorkerTask}
    (htasks : s.tasks = task :: rest) :
    l = .probing task ∧ rest = [] := by
  cases l with
  | vacant => simp [h.2.1] at htasks
  | running session n => simp [h.2.1] at htasks
  | ending session n failed => simp [h.2.1] at htasks
  | probing task' =>
    obtain ⟨rfl, rfl⟩ : task' = task ∧ rest = [] := by simpa [h.2.1] using htasks
    exact ⟨rfl, rfl⟩

/-- **The worker body**: from `probing` back to `vacant`, or on to `running`. -/
theorem inv_work (hr : s.released = false) (books : Books s) (shape : Shape s l) {task : WorkerTask}
    {rest : List WorkerTask} (htasks : s.tasks = task :: rest) (reachable : Bool)
    (thrown : Option String) :
    Inv (workerBody task reachable thrown { s with tasks := rest }) := by
  obtain ⟨rfl, rfl⟩ := shape.probing_of_tasks htasks
  obtain ⟨hcore, -, hcb, hrun, hreg, hmap, hat⟩ := shape
  set s₀ : SessionManager := { s with tasks := [] } with hs₀
  cases reachable with
  | false =>
    rw [workerBody_unreachable (s := s₀) hcore hat]
    exact .live hr ⟨books.stage_le, nofun, fun _ => ⟨nofun, nofun⟩, nofun, books.frees⟩ .vacant
      (shape_congr (shape_freed (s := { s₀ with lastTcpReachable := false }) rfl hcb hrun hreg
        hmap) rfl)
  | true =>
    cases thrown with
    | none =>
      rw [workerBody_started (s := s₀) hcore hr]
      refine .live hr (books.congr rfl) (.running task.session 0) ?_
      exact ⟨hcore, rfl, hcb, by rw [hs₀, hrun], hreg, hmap, rfl⟩
    | some message =>
      rw [workerBody_thrown (s := s₀) hcore hr]
      exact .live hr ⟨books.stage_le, nofun, fun _ => ⟨nofun, nofun⟩, nofun, books.frees⟩
        .vacant (shape_freed rfl hcb hrun hreg hmap)

theorem inv_terminal (hr : s.released = false) (books : Books s) (hcore : s.core = some c)
    (vacant : Shape (freed c s.stopWatchdog) .vacant) (failed : Bool) (nativeDetail : String)
    (now : ℕ) :
    Inv (runCallback ⟨c.inst, SessionStep.endEvent failed⟩ nativeDetail now s) := by
  have hcur : s.isCurrent c.inst := (isCurrent_iff_of_core hcore _).2 rfl
  have books' : Books s.stopWatchdog := books.congr rfl
  -- every branch frees the session and leaves a state that announces no session
  have quiet : ∀ {t : SessionManager} {st : SessionState}, t.shapeFields =
      (freed c s.stopWatchdog).shapeFields → t.released = false → t.frees = [] →
      t.compatHandshakeStage ≤ 2 → t.state = st → st ≠ .connected → st ≠ .authenticating →
      Inv t := by
    intro t st hf hrel hfr hle hst hc ha
    have ht : Shape t .vacant := shape_congr vacant hf
    refine .live hrel ⟨hle, ?_, ?_, ?_, hfr⟩ .vacant ht
    · rw [hst]; exact fun h => absurd h hc
    · rw [hst]; exact fun _ => ⟨hc, ha⟩
    · rw [ht.1]; exact nofun
  cases failed with
  | true =>
    show Inv (onConnectionFailure c.inst nativeDetail s)
    rw [onConnectionFailure, if_pos hcur, cleanup_of_core (s := s.stopWatchdog) hcore, failureTail]
    split
    · rename_i h
      have hlt : s.compatHandshakeStage < 2 := h.2.2.2.2.2.1
      exact quiet rfl hr books.frees (Nat.succ_le_of_lt hlt) rfl nofun nofun
    · split
      · exact quiet rfl hr books.frees books.stage_le rfl nofun nofun
      · exact quiet rfl hr books.frees books.stage_le rfl nofun nofun
  | false =>
    show Inv (onDisconnected c.inst nativeDetail s)
    rw [onDisconnected, if_pos hcur, cleanup_of_core (s := s.stopWatchdog) hcore, disconnectedTail]
    split
    · exact quiet rfl hr books.frees books.stage_le rfl nofun nofun
    · exact quiet rfl hr books.frees books.stage_le rfl nofun nofun

/-- The success handler, while its instance is the current one. -/
theorem inv_success (hr : s.released = false) (books : Books s) (hcore : s.core = some c) {now : ℕ}
    (hnow : 0 < now) (shape : Shape (successBody now s) l) :
    Inv (onConnectionSuccess c.inst now s) := by
  rw [onConnectionSuccess, if_pos ((isCurrent_iff_of_core hcore _).2 rfl)]
  refine .live hr ⟨Nat.zero_le 2, fun _ => ⟨hnow, rfl⟩, fun h => ?_, books.profile,
    books.frees⟩ l shape
  exact absurd (hcore.symm.trans h) (by simp)

variable {cb : Callback} {rest : List Callback}

/-- The callback that is posted next: a success of the current session, or its
terminal event, which is then the last thing that is left of it. -/
theorem Shape.callback_cases (shape : Shape s l) (hcb : s.callbacks = cb :: rest) :
    ∃ c, s.core = some c ∧
      ((cb = ⟨c.inst, .success⟩ ∧
          ∃ l', ∀ now, Shape (successBody now { s with callbacks := rest }) l') ∨
        ∃ failed, cb = ⟨c.inst, SessionStep.endEvent failed⟩ ∧ rest = [] ∧ s.tasks = [] ∧
          s.running = [] ∧ s.registered = [c.inst] ∧ s.sessionMap = [c.inst] ∧
          s.lastTcpReachable) := by
  cases l with
  | vacant => simp [shape.2.2.1] at hcb
  | probing task => simp [shape.2.2.1] at hcb
  | running c n =>
    obtain ⟨hcore, htasks, hcb', hrun, hreg, hmap, htcp⟩ := shape
    refine ⟨c, hcore, Or.inl ?_⟩
    cases n with
    | zero => simp [hcb', successCallbacks] at hcb
    | succ m =>
      obtain ⟨hcb₁, hrest⟩ : ⟨c.inst, .success⟩ = cb ∧ successCallbacks c.inst m = rest := by
        simpa [hcb', successCallbacks, List.replicate_succ] using hcb
      exact ⟨hcb₁.symm, .running c m,
        fun _ => ⟨hcore, htasks, hrest.symm, hrun, hreg, hmap, htcp⟩⟩
  | ending c n failed =>
    obtain ⟨hcore, htasks, hcb', hrun, hreg, hmap, htcp⟩ := shape
    refine ⟨c, hcore, ?_⟩
    cases n with
    | zero =>
      obtain ⟨hcb₁, hrest⟩ : ⟨c.inst, SessionStep.endEvent failed⟩ = cb ∧ [] = rest := by
        simpa [hcb', successCallbacks] using hcb
      -- no success is left in front of the terminal event
      exact Or.inr ⟨failed, hcb₁.symm, hrest.symm, htasks, hrun, hreg, hmap, htcp⟩
    | succ m =>
      obtain ⟨hcb₁, hrest⟩ : ⟨c.inst, .success⟩ = cb ∧
          successCallbacks c.inst m ++ [⟨c.inst, SessionStep.endEvent failed⟩] = rest := by
        simpa [hcb', successCallbacks, List.replicate_succ] using hcb
      exact Or.inl ⟨hcb₁.symm, .ending c m failed,
        fun _ => ⟨hcore, htasks, hrest.symm, hrun, hreg, hmap, htcp⟩⟩

/-- Callbacks come from a native thread, which was started after a good probe. -/
theorem Shape.tcp_of_callbacks (shape : Shape s l) (hcb : s.callbacks = cb :: rest) :
    s.lastTcpReachable := by
  cases l with
  | vacant => simp [shape.2.2.1] at hcb
  | probing task => simp [shape.2.2.1] at hcb
  | running c n => exact shape.2.2.2.2.2.2
  | ending c n failed => exact shape.2.2.2.2.2.2

/-- **A posted callback**: a success stays with its native thread, a terminal
event leads back to `vacant`. -/
theorem inv_deliver (hr : s.released = false) (books : Books s) (shape : Shape s l)
    (hcb : s.callbacks = cb :: rest) (nativeDetail : String) {now : ℕ} (hnow : 0 < now) :
    Inv (runCallback cb nativeDetail now { s with callbacks := rest }) := by
  set s₀ : SessionManager := { s with callbacks := rest } with hs₀
  have books₀ : Books s₀ := books.congr rfl
  obtain ⟨c, hcore, ⟨rfl, l', hl'⟩ | ⟨failed, rfl, hrest, htasks, hrun, hreg, hmap, -⟩⟩ :=
    shape.callback_cases hcb
  · exact inv_success (s := s₀) hr books₀ hcore hnow (hl' now)
  · exact inv_terminal (s := s₀) hr books₀ hcore
      (shape_freed htasks hrest hrun hreg hmap) failed nativeDetail now

/-- **A delayed runnable** reconnects or reports a quiet error. -/
theorem inv_fire (hr : s.released = false) (books : Books s) (shape : Shape s l) (alloc : Instance)
    (r : DelayedRunnable) : Inv (runDelayed env alloc s r) := by
  have same : Inv s := .live hr books l shape
  cases r with
  | reconnect profile delayMs =>
    simp only [runDelayed, reconnect]
    split
    · cases profile.or s.lastProfile with
      | none => exact same
      | some p => exact inv_connect hr books shape p (some alloc)
    · exact same
  | cancelFallback inst =>
    simp only [runDelayed, cancelFallback]
    split
    · exact inv_transition hr books shape nofun nofun
    · exact same
  | disconnectFallback inst =>
    simp only [runDelayed, disconnectFallback]
    split
    · exact inv_transition hr books shape nofun nofun
    · exact same
  | watchdog inst token =>
    simp only [runDelayed, SessionManager.watchdog]
    split
    · exact same
    · split
      · have books₁ : Books s.stopWatchdog := books.congr rfl
        exact inv_transition (s := s.stopWatchdog) hr books₁ (shape_congr shape rfl) nofun nofun
      · exact same

/-- `dispatch` of an event of the running native thread. -/
theorem dispatch_of_mem (h : cb.inst ∈ s.registered) :
    s.dispatch cb = { s with callbacks := s.callbacks ++ [cb] } := by
  rw [dispatch, if_pos h]

/-- **A native event** moves `running` on: one more success, or `ending`. -/
theorem inv_native (hr : s.released = false) (books : Books s) (shape : Shape s l) {inst : Instance}
    (hrun : inst ∈ s.running) :
    Inv (s.dispatch ⟨inst, .success⟩) ∧ ∀ failed, Inv (dispatch ⟨inst, SessionStep.endEvent failed⟩
      { s with running := s.running.filter (· ≠ inst) }) := by
  cases l with
  | vacant => simp [shape.2.2.2.1] at hrun
  | probing task => simp [shape.2.2.2.1] at hrun
  | ending c n failed => simp [shape.2.2.2.1] at hrun
  | running c n =>
    obtain ⟨hcore, htasks, hcb, hrun', hreg, hmap, htcp⟩ := shape
    obtain rfl : inst = c.inst := by simpa [hrun'] using hrun
    -- the listener of a running session is registered, so the event is posted
    have hmem : c.inst ∈ s.registered := by simp [hreg]
    constructor
    · rw [dispatch_of_mem (by exact hmem)]
      refine .live hr (books.congr rfl) (.running c (n + 1)) ?_
      exact ⟨hcore, htasks, by simp [hcb, successCallbacks, List.replicate_succ'], hrun', hreg,
        hmap, htcp⟩
    · intro failed
      rw [dispatch_of_mem (by exact hmem)]
      refine .live hr (books.congr rfl) (.ending c n failed) ?_
      exact ⟨hcore, htasks, by simp [hcb], by simp [hrun'], hreg, hmap, htcp⟩

/-- The `synchronized` block of `release` takes the session away. -/
theorem releaseLocked_closed (hr : s.released = false) :
    s.releaseLocked.released ∧ s.releaseLocked.core = none := by
  have hrel : ¬ s.released = true := by simp [hr]
  rw [releaseLocked, if_neg hrel]
  cases s.core with
  | none => exact ⟨rfl, rfl⟩
  | some c => by_cases hc : c.inst = 0 <;> simp [hc, unregisterSessionListener]

theorem closed_release (hr : s.released = false) : Closed s.release := by
  have hrel : ¬ s.released = true := by simp [hr]
  obtain ⟨h₁, h₂⟩ := releaseLocked_closed hr
  rw [release, if_neg hrel, releaseTail]
  split
  · exact ⟨h₁, h₂, id⟩
  · rename_i h
    exact ⟨h₁, h₂, fun ht => h (Or.inr ht)⟩

/-! ## The step lemma and the run lemma -/

/-- **Step lemma.**  Every handler keeps the invariant. -/
theorem inv_step {a : SessionStep} (h : Inv s) (ht : step env s a = some t) : Inv t := by
  obtain hclosed | ⟨hr, books, l, shape⟩ := h
  · exact .closed (closed_step hclosed ht)
  -- what most labels do: the abstract state stays, the books are kept
  have same : ∀ {u : SessionManager}, u.released = false → Books u →
      u.shapeFields = s.shapeFields → Inv u := fun hu hb hf => .live hu hb l (shape_congr shape hf)
  have marked : Books s.cancelRequested := books.congr rfl
  cases a with
  | connect raw alloc =>
    obtain ⟨-, rfl⟩ := step_connect.1 ht
    exact inv_connect hr books shape raw alloc
  | cancelConnection =>
    obtain rfl : s.cancelConnection = t := Option.some.inj ht
    rw [cancelConnection]
    cases s.core with
    | none => exact same hr marked rfl
    | some c => exact same hr (books.congr rfl) rfl
  | disconnect accepted =>
    obtain rfl : s.disconnect accepted = t := Option.some.inj ht
    rw [SessionManager.disconnect]
    cases s.core with
    | none => exact same hr marked rfl
    | some c =>
      have quiet : Books (SessionManager.transition .disconnecting s.cancelRequested) :=
        marked.transition nofun nofun
      simp only [disconnectNative]
      split
      · exact same hr (quiet.congr rfl) rfl
      · split
        · exact same hr (quiet.transition nofun nofun) rfl
        · exact same hr quiet rfl
  | release =>
    obtain rfl : s.release = t := Option.some.inj ht
    exact .closed (closed_release hr)
  | setListener present =>
    exact Option.some.inj ht ▸ same hr (books.congr rfl) rfl
  | work reachable thrown =>
    obtain ⟨task, rest, htasks, rfl⟩ := step_work.1 ht
    exact inv_work hr books shape htasks reachable thrown
  | nativeSuccess inst =>
    obtain ⟨hrun, rfl⟩ := step_nativeSuccess.1 ht
    exact (inv_native hr books shape hrun).1
  | nativeEnd inst failed =>
    obtain ⟨hrun, rfl⟩ := step_nativeEnd.1 ht
    exact (inv_native hr books shape hrun).2 failed
  | authenticate inst =>
    obtain ⟨-, rfl⟩ := step_authenticate.1 ht
    rw [onAuthenticate]
    split
    · rename_i h
      refine .live hr ⟨books.stage_le, nofun, fun hc => ?_, books.profile, books.frees⟩ l
        (shape_congr shape rfl)
      exact absurd h.2 (not_isCurrent_of_core_none hc inst)
    · exact same hr books rfl
  | deliver nativeDetail now =>
    obtain ⟨hnow, cb, rest, hcb, rfl⟩ := step_deliver.1 ht
    exact inv_deliver hr books shape hcb nativeDetail hnow
  | fire i alloc =>
    obtain ⟨-, r, -, rfl⟩ := step_fire.1 ht
    set s₀ : SessionManager := { s with runnables := s.runnables.eraseIdx i }
    exact inv_fire (s := s₀) hr (books.congr rfl)
      (shape_congr shape rfl) alloc r
  | runFree =>
    obtain ⟨session, rest, hfrees, rfl⟩ := step_runFree.1 ht
    simp [books.frees] at hfrees

theorem inv_initial : Inv initial :=
  .live rfl ⟨Nat.zero_le 2, nofun, fun _ => ⟨nofun, nofun⟩, nofun, rfl⟩ .vacant
    ⟨rfl, rfl, rfl, rfl, rfl, rfl⟩

/-- **Run lemma.**  A manager between two handlers is closed, or in one of the
states of the abstract machine with its books in order. -/
theorem Reachable.inv (h : Reachable env s) : Inv s :=
  LabelledRun.Reachable.induct (fun _ _ _ => inv_step) inv_initial h

end SessionManager
