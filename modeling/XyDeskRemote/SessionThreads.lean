/-
# The session manager, thread by thread

The same pieces of code as in `SessionStep.lean`, but not back to back: the main
thread, the worker and the release daemons each stand somewhere inside a handler
(`MainPc`, `WorkerPc`), and any of them may make the next move.  A move runs up
to the point where `lifecycleLock` is taken or left, where a native call or the
probe comes back, or where `core` is read again; what happens under the lock is one
move.  Native threads report events between any two moves.

`handler_run` connects the two: a handler that runs from beginning to end is a run
of these moves.
-/
import XyDeskRemote.SessionStep

open LabelledRun Reachable

/-- Where the main thread stands. -/
inductive MainPc where
  | idle
  /-- A posted reconnect has passed its guard. -/
  | reconnecting (profile : ConnectionProfile)
  /-- `connect` has left the lock with a new session. -/
  | submitting (task : WorkerTask)
  /-- `cancelConnection` is about to read `core`. -/
  | cancelling
  /-- `cancelConnection` is in the native call. -/
  | cancelNative (inst : Instance)
  /-- `disconnect` is about to read `core`. -/
  | disconnecting
  /-- `disconnect` has read `core`. -/
  | disconnectFound (inst : Instance)
  /-- `disconnect` is in the native call. -/
  | disconnectNative (inst : Instance)
  /-- `release` has left the lock. -/
  | releasing
  /-- `onConnectionSuccess` has passed its guard. -/
  | succeeding (now : ℕ)
  /-- A terminal handler has passed its guard. -/
  | terminating (inst : Instance) (failed : Bool) (nativeDetail : String)
  /-- A terminal handler has left `cleanupTerminalSession`. -/
  | terminated (inst : Instance) (failed : Bool) (nativeDetail : String)
      (profile : Option ConnectionProfile)
  deriving DecidableEq, Repr

/-- Where the worker stands with its task. -/
inductive WorkerPc where
  | idle
  /-- The TCP probe is running. -/
  | probing (task : WorkerTask)
  /-- The probe failed and the guard was passed. -/
  | unreachable (task : WorkerTask)
  /-- `cleanupTerminalSession` is done. -/
  | gaveUp (task : WorkerTask)
  /-- The probe succeeded and the guard was passed. -/
  | connecting (task : WorkerTask)
  /-- `session.connect` threw. -/
  | thrown (task : WorkerTask) (message : String)
  /-- The exception was reported. -/
  | closing (task : WorkerTask)
  deriving DecidableEq, Repr

/-- The manager and its threads. -/
structure SessionThreads where
  mgr : SessionManager := {}
  main : MainPc := .idle
  worker : WorkerPc := .idle
  deriving DecidableEq, Repr

/-- Which thread moves, and what the environment answers. -/
inductive ThreadStep where
  /-- The user calls `connect`. -/
  | connect (raw : ConnectionProfile) (alloc : Option Instance)
  /-- The user calls `cancelConnection`. -/
  | cancelConnection
  /-- The user calls `disconnect`. -/
  | disconnect
  /-- The user calls `release`. -/
  | release
  /-- The user interface calls `setListener`. -/
  | setListener (present : Bool)
  /-- The main looper begins the next posted callback. -/
  | deliver (nativeDetail : String) (now : ℕ)
  /-- The main looper begins the delayed runnable at position `i`. -/
  | fire (i : ℕ)
  /-- The main thread goes on. -/
  | main (alloc : Option Instance) (accepted : Bool)
  /-- The worker goes on. -/
  | work (reachable : Bool) (thrown : Option String)
  /-- The native thread of `inst` reports a connection. -/
  | nativeSuccess (inst : Instance)
  /-- The native thread of `inst` ends with its terminal event. -/
  | nativeEnd (inst : Instance) (failed : Bool)
  /-- The native thread of `inst` asks for credentials. -/
  | authenticate (inst : Instance)
  /-- A release daemon runs. -/
  | runFree
  deriving DecidableEq, Repr

namespace SessionThreads

open SessionManager

/-- Where `connect` stands after its `synchronized` block. -/
def afterLock (u : SessionThreads) (r : SessionManager × Option WorkerTask) : SessionThreads :=
  match r with
  | (s, none) => { u with mgr := s, main := .idle }
  | (s, some task) => { u with mgr := s, main := .submitting task }

/-- The guard of a posted callback. -/
def deliverGuard (cb : Callback) (nativeDetail : String) (now : ℕ) (u : SessionThreads) :
    SessionThreads :=
  if u.mgr.isCurrent cb.inst then
    match cb.event with
    | .success => { u with main := .succeeding now }
    | .failure => { u with main := .terminating cb.inst true nativeDetail }
    | .disconnected => { u with main := .terminating cb.inst false nativeDetail }
  else u

/-- A delayed runnable: the guard of a reconnect, or all of another one. -/
def fireGuard (u : SessionThreads) : DelayedRunnable → SessionThreads
  | .reconnect profile _ =>
    if u.mgr.mayReconnect then
      match profile.or u.mgr.lastProfile with
      | some p => { u with main := .reconnecting p }
      | none => u
    else u
  | .cancelFallback inst => { u with mgr := u.mgr.cancelFallback inst }
  | .disconnectFallback inst => { u with mgr := u.mgr.disconnectFallback inst }
  | .watchdog inst token => { u with mgr := u.mgr.watchdog inst token }

/-- The end of a terminal handler, after the cleanup. -/
def terminalTail (inst : Instance) (failed : Bool) (nativeDetail : String)
    (profile : Option ConnectionProfile) (s : SessionManager) : SessionManager :=
  if failed then failureTail inst profile nativeDetail s
  else disconnectedTail profile (administrativeDetail nativeDetail) s

/-- The main thread goes on from where it stands. -/
def mainStep (env : SessionEnv) (alloc : Option Instance) (accepted : Bool)
    (u : SessionThreads) : Option SessionThreads :=
  match u.main with
  | .idle => none
  | .reconnecting profile =>
    if ∀ inst ∈ alloc, u.mgr.FreshHandle inst then
      some (u.afterLock (connectLocked env profile alloc u.mgr))
    else none
  | .submitting task => some { u with mgr := u.mgr.submit task, main := .idle }
  | .cancelling =>
    match u.mgr.core with
    | none => some { u with main := .idle }
    | some session => some { u with main := .cancelNative session.inst }
  | .cancelNative inst =>
    some { u with mgr := u.mgr.postDelayed (.cancelFallback inst), main := .idle }
  | .disconnecting =>
    match u.mgr.core with
    | none => some { u with main := .idle }
    | some session => some { u with main := .disconnectFound session.inst }
  | .disconnectFound inst =>
    some { u with mgr := u.mgr.transition .disconnecting, main := .disconnectNative inst }
  | .disconnectNative inst =>
    some { u with mgr := u.mgr.disconnectNative inst accepted, main := .idle }
  | .releasing => some { u with mgr := u.mgr.releaseTail, main := .idle }
  | .succeeding now => some { u with mgr := u.mgr.successBody now, main := .idle }
  | .terminating inst failed nativeDetail =>
    some { u with
      mgr := cleanupTerminalSession inst u.mgr.stopWatchdog
      main := .terminated inst failed nativeDetail u.mgr.lastProfile }
  | .terminated inst failed nativeDetail profile =>
    some { u with mgr := terminalTail inst failed nativeDetail profile u.mgr, main := .idle }

/-- The worker goes on from where it stands. -/
def workStep (reachable : Bool) (thrown : Option String) (u : SessionThreads) :
    Option SessionThreads :=
  match u.worker with
  | .idle =>
    match u.mgr.tasks with
    | [] => none
    | task :: rest => some { u with
        mgr := { u.mgr with tasks := rest }, worker := .probing task }
  | .probing task =>
    let s : SessionManager := { u.mgr with lastTcpReachable := reachable }
    if ¬ s.isCurrent task.session.inst then some { u with mgr := s, worker := .idle }
    else if ¬ reachable then some { u with mgr := s, worker := .unreachable task }
    else some { u with mgr := s, worker := .connecting task }
  | .unreachable task =>
    some { u with
      mgr := cleanupTerminalSession task.session.inst u.mgr, worker := .gaveUp task }
  | .gaveUp task => some { u with mgr := workerUnreachableTail task u.mgr, worker := .idle }
  | .connecting task =>
    match workerConnectLocked task thrown u.mgr with
    | (s, .done) => some { u with mgr := s, worker := .idle }
    | (s, .thrown message) => some { u with mgr := s, worker := .thrown task message }
  | .thrown task message =>
    if u.mgr.isCurrent task.session.inst then
      some { u with
        mgr := u.mgr.transition (connectException task.session.inst message)
        worker := .closing task }
    else some { u with worker := .idle }
  | .closing task =>
    some { u with mgr := cleanupTerminalSession task.session.inst u.mgr, worker := .idle }

/-- One move.  The main thread begins a handler only when it is idle. -/
def step (env : SessionEnv) (u : SessionThreads) : ThreadStep → Option SessionThreads
  | .connect raw alloc =>
    if u.main = .idle ∧ ∀ inst ∈ alloc, u.mgr.FreshHandle inst then
      some (u.afterLock (connectLocked env raw alloc u.mgr))
    else none
  | .cancelConnection =>
    if u.main = .idle then some { u with mgr := u.mgr.cancelRequested, main := .cancelling }
    else none
  | .disconnect =>
    if u.main = .idle then some { u with mgr := u.mgr.cancelRequested, main := .disconnecting }
    else none
  | .release =>
    if u.main = .idle then
      if u.mgr.released then some u
      else some { u with mgr := u.mgr.releaseLocked, main := .releasing }
    else none
  | .setListener present => some { u with mgr := { u.mgr with listener := present } }
  | .deliver nativeDetail now =>
    if u.main = .idle ∧ 0 < now then
      match u.mgr.callbacks with
      | [] => none
      | cb :: rest => some (deliverGuard cb nativeDetail now
          { u with mgr := { u.mgr with callbacks := rest } })
    else none
  | .fire i =>
    if u.main = .idle then
      match u.mgr.runnables[i]? with
      | none => none
      | some r => some (fireGuard
          { u with mgr := { u.mgr with runnables := u.mgr.runnables.eraseIdx i } } r)
    else none
  | .main alloc accepted => mainStep env alloc accepted u
  | .work reachable thrown => workStep reachable thrown u
  | .nativeSuccess inst =>
    if inst ∈ u.mgr.running then some { u with mgr := u.mgr.dispatch ⟨inst, .success⟩ }
    else none
  | .nativeEnd inst failed =>
    if inst ∈ u.mgr.running then
      let s : SessionManager := { u.mgr with running := u.mgr.running.filter (· ≠ inst) }
      some { u with mgr := s.dispatch ⟨inst, SessionStep.endEvent failed⟩ }
    else none
  | .authenticate inst =>
    if inst ∈ u.mgr.running then some { u with mgr := u.mgr.onAuthenticate inst } else none
  | .runFree =>
    match u.mgr.frees with
    | [] => none
    | session :: rest => some { u with mgr := freeSession session { u.mgr with frees := rest } }

/-- The threads of a manager that was just constructed. -/
def initial : SessionThreads := {}

/-- The threads between two handlers. -/
def atRest (s : SessionManager) : SessionThreads := { mgr := s }

/-! ## A handler that is not interrupted -/

section Handlers

variable {env : SessionEnv}

theorem move {u v w : SessionThreads} (a : ThreadStep) (h : step env u a = some v)
    (h' : Reachable (step env) v w) : Reachable (step env) u w :=
  Reachable.trans ⟨[a], by rw [run_cons, h]; rfl⟩ h'

theorem run_afterLock (raw : ConnectionProfile) (alloc : Option Instance) (s : SessionManager)
    (main : MainPc) :
    Reachable (step env) (afterLock ⟨s, main, .idle⟩ (connectLocked env raw alloc s))
      (atRest (SessionManager.connect env raw alloc s)) := by
  rw [SessionManager.connect]
  obtain ⟨s', task⟩ := connectLocked env raw alloc s
  cases task with
  | none => exact refl _
  | some task => exact move (.main none true) rfl (refl _)

theorem run_workerBody (task : WorkerTask) (reachable : Bool) (thrown : Option String)
    (s : SessionManager) :
    Reachable (step env) ⟨s, .idle, .probing task⟩
      (atRest (workerBody task reachable thrown s)) := by
  simp only [workerBody]
  set s₀ : SessionManager := { s with lastTcpReachable := reachable }
  have probed : step env ⟨s, .idle, .probing task⟩ (.work reachable thrown) =
      if ¬ s₀.isCurrent task.session.inst then some ⟨s₀, .idle, .idle⟩
      else if ¬ reachable then some ⟨s₀, .idle, .unreachable task⟩
      else some ⟨s₀, .idle, .connecting task⟩ := rfl
  by_cases hcur : ¬ s₀.isCurrent task.session.inst
  · rw [if_pos hcur] at probed ⊢
    exact move _ probed (refl _)
  · rw [if_neg hcur] at probed ⊢
    by_cases hreach : ¬ reachable
    · rw [if_pos hreach] at probed ⊢
      refine move _ probed (move (.work reachable thrown) rfl ?_)
      exact move (.work reachable thrown) rfl (refl _)
    · rw [if_neg hreach] at probed ⊢
      -- a good probe: the lock is taken again, and the session may be gone by then
      refine move _ probed ?_
      have locked : step env ⟨s₀, .idle, .connecting task⟩ (.work reachable thrown) =
          match workerConnectLocked task thrown s₀ with
          | (s, .done) => some ⟨s, .idle, .idle⟩
          | (s, .thrown message) => some ⟨s, .idle, .thrown task message⟩ := rfl
      generalize workerConnectLocked task thrown s₀ = r at locked ⊢
      obtain ⟨s₁, outcome⟩ := r
      cases outcome with
      | done => exact move _ locked (refl _)
      | thrown message =>
        refine move _ locked ?_
        have caught : step env ⟨s₁, .idle, .thrown task message⟩ (.work reachable thrown) =
            if s₁.isCurrent task.session.inst then
              some ⟨transition (connectException task.session.inst message) s₁, .idle,
                .closing task⟩
            else some ⟨s₁, .idle, .idle⟩ := rfl
        show Reachable _ _ (atRest (workerThrown task message s₁))
        rw [workerThrown]
        by_cases hcur₁ : s₁.isCurrent task.session.inst
        · rw [if_pos hcur₁] at caught ⊢
          exact move _ caught (move (.work reachable thrown) rfl (refl _))
        · rw [if_neg hcur₁] at caught ⊢
          exact move _ caught (refl _)

theorem run_runCallback (cb : Callback) (nativeDetail : String) (now : ℕ)
    (s : SessionManager) :
    Reachable (step env) (deliverGuard cb nativeDetail now (atRest s))
      (atRest (runCallback cb nativeDetail now s)) := by
  obtain ⟨inst, event⟩ := cb
  by_cases hcur : s.isCurrent inst
  · have guard : ∀ u, deliverGuard ⟨inst, event⟩ nativeDetail now (atRest s) = u →
        u = match event with
          | .success => ⟨s, .succeeding now, .idle⟩
          | .failure => ⟨s, .terminating inst true nativeDetail, .idle⟩
          | .disconnected => ⟨s, .terminating inst false nativeDetail, .idle⟩ := by
      rintro u rfl
      exact if_pos hcur
    rw [guard _ rfl]
    cases event with
    | success =>
      rw [runCallback, onConnectionSuccess, if_pos hcur]
      exact move (.main none true) rfl (refl _)
    | failure =>
      rw [runCallback, onConnectionFailure, if_pos hcur]
      exact move (.main none true) rfl (move (.main none true) rfl (refl _))
    | disconnected =>
      rw [runCallback, onDisconnected, if_pos hcur]
      exact move (.main none true) rfl (move (.main none true) rfl (refl _))
  · have guard : deliverGuard ⟨inst, event⟩ nativeDetail now (atRest s) = atRest s := if_neg hcur
    have body : runCallback ⟨inst, event⟩ nativeDetail now s = s := by
      cases event
      · exact if_neg hcur
      · exact if_neg hcur
      · exact if_neg hcur
    rw [guard, body]
    exact refl _

theorem run_runDelayed (alloc : Instance) {s : SessionManager} (hal : s.FreshHandle alloc)
    (r : DelayedRunnable) :
    Reachable (step env) (fireGuard (atRest s) r) (atRest (runDelayed env alloc s r)) := by
  cases r with
  | reconnect profile delayMs =>
    have guard : fireGuard (atRest s) (.reconnect profile delayMs) =
        if s.mayReconnect then
          match profile.or s.lastProfile with
          | some p => ⟨s, .reconnecting p, .idle⟩
          | none => atRest s
        else atRest s := rfl
    rw [guard, runDelayed, reconnect]
    by_cases hmay : s.mayReconnect
    · rw [if_pos hmay, if_pos hmay]
      cases profile.or s.lastProfile with
      | none => exact refl _
      | some p =>
        have hfresh : ∀ inst ∈ some alloc, s.FreshHandle inst := by
          rintro inst hinst
          obtain rfl : alloc = inst := Option.some.inj hinst
          exact hal
        have locked : step env ⟨s, .reconnecting p, .idle⟩ (.main (some alloc) true) =
            some (afterLock ⟨s, .reconnecting p, .idle⟩
              (connectLocked env p (some alloc) s)) := if_pos hfresh
        exact move _ locked (run_afterLock p (some alloc) s _)
    · rw [if_neg hmay, if_neg hmay]
      exact refl _
  | cancelFallback inst => exact refl _
  | disconnectFallback inst => exact refl _
  | watchdog inst token => exact refl _

/-- `cancelConnection` reads `core`, and posts its fallback after the native call. -/
theorem run_cancelConnection (s : SessionManager) :
    Reachable (step env) (atRest s) (atRest s.cancelConnection) := by
  have begun : step env (atRest s) .cancelConnection =
      some ⟨s.cancelRequested, .cancelling, .idle⟩ := rfl
  have read : step env ⟨s.cancelRequested, .cancelling, .idle⟩ (.main none true) =
      match s.core with
      | none => some ⟨s.cancelRequested, .idle, .idle⟩
      | some session => some ⟨s.cancelRequested, .cancelNative session.inst, .idle⟩ := rfl
  rw [SessionManager.cancelConnection]
  refine move _ begun ?_
  cases hc : s.core with
  | none =>
    rw [hc] at read
    exact move _ read (refl _)
  | some session =>
    rw [hc] at read
    exact move _ read (move (.main none true) rfl (refl _))

/-- `disconnect` reads `core`, and looks at the answer of the native call. -/
theorem run_disconnect (accepted : Bool) (s : SessionManager) :
    Reachable (step env) (atRest s) (atRest (s.disconnect accepted)) := by
  have begun : step env (atRest s) .disconnect =
      some ⟨s.cancelRequested, .disconnecting, .idle⟩ := rfl
  have read : step env ⟨s.cancelRequested, .disconnecting, .idle⟩ (.main none accepted) =
      match s.core with
      | none => some ⟨s.cancelRequested, .idle, .idle⟩
      | some session => some ⟨s.cancelRequested, .disconnectFound session.inst, .idle⟩ := rfl
  rw [SessionManager.disconnect]
  refine move _ begun ?_
  cases hc : s.core with
  | none =>
    rw [hc] at read
    exact move _ read (refl _)
  | some session =>
    rw [hc] at read
    refine move _ read (move (.main none accepted) rfl ?_)
    exact move (.main none accepted) rfl (refl _)

/-- `release` leaves at once when it was called before. -/
theorem run_release (s : SessionManager) :
    Reachable (step env) (atRest s) (atRest s.release) := by
  have begun : step env (atRest s) .release =
      if s.released then some (atRest s) else some ⟨s.releaseLocked, .releasing, .idle⟩ := rfl
  rw [SessionManager.release]
  by_cases hr : s.released
  · rw [if_pos hr]
    exact refl _
  · rw [if_neg hr] at begun ⊢
    exact move _ begun (move (.main none true) rfl (refl _))

/-- **A handler is a run of moves.**  What the manager can do one handler at a
time, the threads can do one move at a time. -/
theorem handler_run {s t : SessionManager} {a : SessionStep}
    (h : SessionManager.step env s a = some t) :
    Reachable (step env) (atRest s) (atRest t) := by
  cases a with
  | connect raw alloc =>
    obtain ⟨hfresh, rfl⟩ := step_connect.1 h
    have begun : step env (atRest s) (.connect raw alloc) =
        some (afterLock (atRest s) (connectLocked env raw alloc s)) := if_pos ⟨rfl, hfresh⟩
    exact move _ begun (run_afterLock raw alloc s _)
  | cancelConnection =>
    obtain rfl : s.cancelConnection = t := Option.some.inj h
    exact run_cancelConnection s
  | disconnect accepted =>
    obtain rfl : s.disconnect accepted = t := Option.some.inj h
    exact run_disconnect accepted s
  | release =>
    obtain rfl : s.release = t := Option.some.inj h
    exact run_release s
  | setListener present =>
    obtain rfl : { s with listener := present } = t := Option.some.inj h
    exact move (.setListener present) rfl (refl _)
  | work reachable thrown =>
    obtain ⟨task, rest, htasks, rfl⟩ := step_work.1 h
    have taken : step env (atRest s) (.work reachable thrown) =
        some ⟨{ s with tasks := rest }, .idle, .probing task⟩ := by
      show (match s.tasks with | [] => _ | task :: rest => _) = _
      rw [htasks]
      rfl
    exact move _ taken (run_workerBody task reachable thrown _)
  | nativeSuccess inst =>
    obtain ⟨hrun, rfl⟩ := step_nativeSuccess.1 h
    have moved : step env (atRest s) (.nativeSuccess inst) =
        some (atRest (s.dispatch ⟨inst, .success⟩)) := if_pos hrun
    exact move _ moved (refl _)
  | nativeEnd inst failed =>
    obtain ⟨hrun, rfl⟩ := step_nativeEnd.1 h
    have moved : step env (atRest s) (.nativeEnd inst failed) = some (atRest
        (dispatch ⟨inst, SessionStep.endEvent failed⟩
          { s with running := s.running.filter (· ≠ inst) })) := if_pos hrun
    exact move _ moved (refl _)
  | authenticate inst =>
    obtain ⟨hrun, rfl⟩ := step_authenticate.1 h
    have moved : step env (atRest s) (.authenticate inst) =
        some (atRest (s.onAuthenticate inst)) := if_pos hrun
    exact move _ moved (refl _)
  | deliver nativeDetail now =>
    obtain ⟨hnow, cb, rest, hcb, rfl⟩ := step_deliver.1 h
    have begun : step env (atRest s) (.deliver nativeDetail now) =
        some (deliverGuard cb nativeDetail now (atRest { s with callbacks := rest })) := by
      show (if _ ∧ 0 < now then (match s.callbacks with | [] => _ | cb :: rest => _) else _) = _
      rw [if_pos ⟨rfl, hnow⟩, hcb]
      rfl
    exact move _ begun (run_runCallback cb nativeDetail now _)
  | fire i alloc =>
    obtain ⟨hal, r, hr, rfl⟩ := step_fire.1 h
    have begun : step env (atRest s) (.fire i) =
        some (fireGuard (atRest { s with runnables := s.runnables.eraseIdx i }) r) := by
      show (match s.runnables[i]? with | none => _ | some r => _) = _
      rw [hr]
      rfl
    exact move _ begun
      (run_runDelayed alloc (s := { s with runnables := s.runnables.eraseIdx i }) hal r)
  | runFree =>
    obtain ⟨session, rest, hfrees, rfl⟩ := step_runFree.1 h
    have moved : step env (atRest s) .runFree =
        some (atRest (freeSession session { s with frees := rest })) := by
      show (match s.frees with | [] => _ | session :: rest => _) = _
      rw [hfrees]
      rfl
    exact move _ moved (refl _)

/-- A reachable state of the handlers is a reachable state of the threads. -/
theorem reachable_atRest {s : SessionManager} (h : SessionManager.Reachable env s) :
    Reachable (step env) initial (atRest s) :=
  LabelledRun.Reachable.induct (P := fun s => Reachable (step env) initial (atRest s))
    (fun _ _ _ hs hstep => hs.trans (handler_run hstep)) (refl _) h

/-- A session that is running. -/
theorem reachable_atRest_connected :
    ∃ s, Reachable (step plainEnv) initial (atRest s) ∧ s.core.isSome :=
  ⟨_, reachable_atRest ⟨[.connect deskProfile (some 1), .work true none], rfl⟩, rfl⟩

end Handlers

end SessionThreads
