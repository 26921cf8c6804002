/-
# The session manager

The lifecycle part of `SessionManager.kt`: its fields, and every piece of code
that reads or writes them.  A handler of the source is cut where it takes or
leaves `lifecycleLock`, so that the pieces can be run back to back (the handlers
of `SessionStep.lean`) or interleaved between threads (`SessionThreads.lean`).

Next to the fields stands what the manager talks to:

* `tasks`, the queue of the single worker thread;
* `runnables`, what is waiting on the main handler;
* `callbacks`, what `GlobalApp.dispatch` has posted to the main looper;
* `registered` and `sessionMap`, the two maps of `GlobalApp`;
* `running`, the instances whose native connect thread is alive;
* `frees`, the sessions handed to a release daemon that has not run yet.

`log` records the calls that matter to the outside, and `created` counts the
sessions `GlobalApp.createSession` has returned.  A native handle is an address,
so it can come back after it was freed: `CoreSession.serial` tells two sessions
with the same handle apart, and no code of the manager reads it.
-/
import XyDeskRemote.SessionState

/-- What `connect` reads from outside the manager: the normalisation of `RdpUri`, the options of a
device, the graphics fallback flag, the options resolved for the network and the profile, and the
scale of the remote desktop (`remote_dpi` when it is one of the factors, 100 in PC mode). -/
structure SessionEnv where
  normalizeProfile : ConnectionProfile → ConnectionProfile
  optionsOf : ConnectionProfile → RdpOptions
  graphicsFallback : ConnectionProfile → Bool
  resolve : ConnectionProfile → RdpOptions → RdpOptions
  remoteScale : ConnectionProfile → ℤ

/-- The session URI, before `RdpUri.build` prints it. -/
structure SessionUri where
  profile : ConnectionProfile
  options : RdpOptions
  deriving DecidableEq, Repr, Inhabited

/-- `com.freerdp.freerdpcore.application.SessionState`: one created session. -/
structure CoreSession where
  serial : ℕ
  inst : Instance
  openUri : SessionUri
  deriving DecidableEq, Repr, Inhabited

/-- The body `connect` hands to the worker, with what it captured. -/
structure WorkerTask where
  session : CoreSession
  profile : ConnectionProfile
  deriving DecidableEq, Repr, Inhabited

/-- The events of `GlobalApp.SessionEventListener`. -/
inductive NativeEvent where
  | success
  | failure
  | disconnected
  deriving DecidableEq, Repr, Inhabited

/-- An event posted to the main looper for the listener of `inst`. -/
structure Callback where
  inst : Instance
  event : NativeEvent
  deriving DecidableEq, Repr, Inhabited

/-- What is posted with `mainHandler.postDelayed`.  A `reconnect` without a
profile is the one of the worker, which reads `lastProfile` when it runs. -/
inductive DelayedRunnable where
  | reconnect (profile : Option ConnectionProfile) (delayMs : ℕ)
  | cancelFallback (inst : Instance)
  | disconnectFallback (inst : Instance)
  | watchdog (inst : Instance) (token : ℕ)
  deriving DecidableEq, Repr, Inhabited

/-- The calls that leave the manager. -/
inductive Effect where
  | createSession (session : CoreSession) (compatStage : ℕ)
  | connectSession (session : CoreSession)
  | freeSession (session : CoreSession)
  | scheduleReconnect (delayMs : ℕ)
  deriving DecidableEq, Repr, Inhabited

/-- The manager and what it talks to. -/
structure SessionManager where
  state : SessionState := .idle
  core : Option CoreSession := none
  listener : Bool := false
  released : Bool := false
  lastProfile : Option ConnectionProfile := none
  connectedAtMs : ℕ := 0
  userInitiatedDisconnect : Bool := false
  autoReconnectAttempts : ℕ := 0
  compatHandshakeStage : ℕ := 0
  lastTcpReachable : Bool := false
  watchdogToken : ℕ := 0
  tasks : List WorkerTask := []
  runnables : List DelayedRunnable := []
  callbacks : List Callback := []
  registered : List Instance := []
  sessionMap : List Instance := []
  running : List Instance := []
  frees : List CoreSession := []
  created : ℕ := 0
  log : List Effect := []
  deriving DecidableEq, Repr, Inhabited

namespace SessionManager

/-- `isCurrent`: `core?.getInstance() == inst`. -/
def isCurrent (inst : Instance) (s : SessionManager) : Prop :=
  s.core.map CoreSession.inst = some inst

instance (inst : Instance) (s : SessionManager) : Decidable (s.isCurrent inst) := by
  unfold isCurrent; infer_instance

/-- `transition`. -/
def transition (state : SessionState) (s : SessionManager) : SessionManager :=
  { s with state := state }

/-- `stopWatchdog`: the runnable that is waiting no longer has the token. -/
def stopWatchdog (s : SessionManager) : SessionManager :=
  { s with watchdogToken := s.watchdogToken + 1 }

/-- `mainHandler.postDelayed`. -/
def postDelayed (r : DelayedRunnable) (s : SessionManager) : SessionManager :=
  { s with runnables := s.runnables ++ [r] }

/-- `startWatchdog`. -/
def startWatchdog (inst : Instance) (s : SessionManager) : SessionManager :=
  postDelayed (.watchdog inst (s.watchdogToken + 1)) s.stopWatchdog

/-- `mainHandler.postDelayed` of a runnable that calls `connect`. -/
def scheduleReconnect (profile : Option ConnectionProfile) (delayMs : ℕ) (s : SessionManager) :
    SessionManager :=
  { s with
    runnables := s.runnables ++ [.reconnect profile delayMs]
    log := s.log ++ [.scheduleReconnect delayMs] }

/-- `GlobalApp.registerSessionListener`. -/
def registerSessionListener (inst : Instance) (s : SessionManager) : SessionManager :=
  { s with registered := inst :: s.registered.filter (· ≠ inst) }

/-- `GlobalApp.unregisterSessionListener`. -/
def unregisterSessionListener (inst : Instance) (s : SessionManager) : SessionManager :=
  { s with registered := s.registered.filter (· ≠ inst) }

/-- `GlobalApp.freeSession`. -/
def freeSession (session : CoreSession) (s : SessionManager) : SessionManager :=
  { s with
    sessionMap := s.sessionMap.filter (· ≠ session.inst)
    log := s.log ++ [.freeSession session] }

/-- `GlobalApp.dispatch`: an event of an instance without a listener is dropped. -/
def dispatch (cb : Callback) (s : SessionManager) : SessionManager :=
  if cb.inst ∈ s.registered then { s with callbacks := s.callbacks ++ [cb] } else s

/-! ## connect -/

/-- `sessionUri`: the stored options with the graphics fallback, resolved, and
changed by the compatibility stage. -/
def sessionUri (env : SessionEnv) (profile : ConnectionProfile) (s : SessionManager) :
    SessionUri :=
  let base := env.optionsOf profile
  let stored := if env.graphicsFallback profile then base.withGraphicsFallback else base
  { profile := profile
    options := (env.resolve profile stored).compat s.compatHandshakeStage }

/-- The profile `connect` works with: normalised, with the label and the key the
caller gave. -/
def normalized (env : SessionEnv) (raw : ConnectionProfile) : ConnectionProfile :=
  { env.normalizeProfile raw with label := raw.label, key := raw.key }

/-- The end of the `synchronized` block of `connect`: `createSession` has returned
`inst` and the new session becomes `core`. -/
def install (env : SessionEnv) (profile : ConnectionProfile) (inst : Instance)
    (s : SessionManager) : SessionManager × WorkerTask :=
  let session : CoreSession :=
    { serial := s.created, inst := inst, openUri := sessionUri env profile s }
  let s₁ : SessionManager := { s with
    connectedAtMs := 0
    sessionMap := inst :: s.sessionMap
    created := s.created + 1
    log := s.log ++ [.createSession session s.compatHandshakeStage] }
  let s₂ : SessionManager := { registerSessionListener inst s₁ with
    core := some session
    lastProfile := some profile }
  (startWatchdog inst (transition .connecting s₂), { session := session, profile := profile })

/-- The `synchronized` block of `connect`.  `alloc` is what `createSession`
returns: a handle, or `none` when it throws, in which case only the writes of
`sessionUri` stay. -/
def connectLocked (env : SessionEnv) (raw : ConnectionProfile) (alloc : Option Instance)
    (s : SessionManager) : SessionManager × Option WorkerTask :=
  if s.released then (s, none)
  else if s.state = .connected ∨ s.state = .authenticating ∨
      (s.state = .connecting ∧ s.core.isSome) then (s, none)
  else if s.core.isSome then (s, none)
  else match alloc with
    | none => ({ s with connectedAtMs := 0 }, none)
    | some inst =>
      let r := install env (normalized env raw) inst s
      (r.1, some r.2)

/-- `worker.execute`. -/
def submit (task : WorkerTask) (s : SessionManager) : SessionManager :=
  { s with tasks := s.tasks ++ [task] }

/-- `connect`. -/
def connect (env : SessionEnv) (raw : ConnectionProfile) (alloc : Option Instance)
    (s : SessionManager) : SessionManager :=
  match connectLocked env raw alloc s with
  | (s', none) => s'
  | (s', some task) => submit task s'

/-! ## Leaving a session -/

/-- `cleanupTerminalSession`: frees the instance only while it is the current one. -/
def cleanupTerminalSession (inst : Instance) (s : SessionManager) : SessionManager :=
  match s.core with
  | none => s
  | some session =>
    if session.inst ≠ inst then s
    else freeSession session
      { unregisterSessionListener inst s.stopWatchdog with core := none }

/-- `cancelConnection` up to the native call. -/
def cancelRequested (s : SessionManager) : SessionManager :=
  { s.stopWatchdog with userInitiatedDisconnect := true }

/-- `cancelConnection`. -/
def cancelConnection (s : SessionManager) : SessionManager :=
  match s.core with
  | none => s.cancelRequested
  | some session => postDelayed (.cancelFallback session.inst) s.cancelRequested

/-- The error of a native engine that did not confirm a disconnect. -/
def disconnectUnconfirmed : SessionState :=
  .error "disconnect_unconfirmed"
    "Engine belum mengonfirmasi putus; tutup sesi untuk melepas koneksi dengan aman." 0 0

/-- `disconnect` from the native call on; `accepted` is its answer. -/
def disconnectNative (inst : Instance) (accepted : Bool) (s : SessionManager) : SessionManager :=
  if accepted then postDelayed (.disconnectFallback inst) s
  else if s.isCurrent inst then transition disconnectUnconfirmed s
  else s

/-- `disconnect`. -/
def disconnect (accepted : Bool) (s : SessionManager) : SessionManager :=
  match s.core with
  | none => s.cancelRequested
  | some session =>
    disconnectNative session.inst accepted (transition .disconnecting s.cancelRequested)

/-- The `synchronized` block of `release`. -/
def releaseLocked (s : SessionManager) : SessionManager :=
  if s.released then s
  else
    let s₁ : SessionManager := { s.stopWatchdog with
      released := true, core := none, listener := false }
    match s.core with
    | none => s₁
    | some session =>
      if session.inst = 0 then s₁
      else { unregisterSessionListener session.inst s₁ with frees := s.frees ++ [session] }

/-- The end of `release`, after the lock. -/
def releaseTail (s : SessionManager) : SessionManager :=
  if s.state = .connected ∨ s.state.Transitional then transition .idle s else s

/-- `release`: a second call returns at once. -/
def release (s : SessionManager) : SessionManager :=
  if s.released then s else releaseTail (releaseLocked s)

/-! ## The worker -/

/-- The error of a failed probe. -/
def unreachableError (task : WorkerTask) : SessionState :=
  .error errorUnreachable
    (s!"Tidak bisa menghubungi {task.profile.host}:{task.profile.port}. Kemungkinan: " ++
      "RDP nonaktif, firewall memblokir, nama host salah, atau target " ++
      "Windows Home (tidak punya server RDP).")
    (RdpFailure.codeFor errorUnreachable "") 0

/-- The worker after a failed probe and the cleanup: retry, or report the host as
unreachable. -/
def workerUnreachableTail (task : WorkerTask) (s : SessionManager) : SessionManager :=
  if ¬ s.userInitiatedDisconnect ∧ ¬ s.released ∧ 0 < s.connectedAtMs ∧
      1 ≤ s.autoReconnectAttempts ∧ s.autoReconnectAttempts ≤ 7 then
    scheduleReconnect none 2000
      { s with autoReconnectAttempts := s.autoReconnectAttempts + 1 }
  else transition (unreachableError task) s

/-- What the `synchronized` block of the worker leaves to do. -/
inductive WorkerOutcome where
  | done
  | thrown (message : String)
  deriving DecidableEq, Repr

/-- The `synchronized` block of the worker.  `thrown` is the exception of
`session.connect`, if it throws; otherwise the native thread runs. -/
def workerConnectLocked (task : WorkerTask) (thrown : Option String) (s : SessionManager) :
    SessionManager × WorkerOutcome :=
  if ¬ s.isCurrent task.session.inst ∨ s.released then (s, .done)
  else
    let s₁ := { s with log := s.log ++ [.connectSession task.session] }
    match thrown with
    | some message => (s₁, .thrown message)
    | none => ({ s₁ with running := task.session.inst :: s₁.running }, .done)

/-- The error of a `session.connect` that threw. -/
def connectException (inst : Instance) (message : String) : SessionState :=
  .error "connect_exception" message (RdpFailure.codeFor "connect_exception" message) inst

/-- The `catch` block of the worker. -/
def workerThrown (task : WorkerTask) (message : String) (s : SessionManager) : SessionManager :=
  if s.isCurrent task.session.inst then
    cleanupTerminalSession task.session.inst
      (transition (connectException task.session.inst message) s)
  else s

/-- The body `connect` hands to the worker, for a probe with result `reachable`. -/
def workerBody (task : WorkerTask) (reachable : Bool) (thrown : Option String)
    (s : SessionManager) : SessionManager :=
  let s₀ := { s with lastTcpReachable := reachable }
  if ¬ s₀.isCurrent task.session.inst then s₀
  else if ¬ reachable then
    workerUnreachableTail task (cleanupTerminalSession task.session.inst s₀)
  else
    match workerConnectLocked task thrown s₀ with
    | (s₁, .done) => s₁
    | (s₁, .thrown message) => workerThrown task message s₁

/-! ## The native callbacks -/

/-- The native text names a failed logon. -/
def isAuthFailure (nativeDetail : String) : Bool :=
  let lower := lowercase nativeDetail
  containsText lower "logon" || containsText lower "password" ||
    containsText lower "access_denied" || containsText lower "denied"

/-- The native text names an administrative reason; other texts are dropped. -/
def administrativeDetail (nativeDetail : String) : Option String :=
  let lower := lowercase nativeDetail
  if containsText lower "another user connected" ||
      containsText lower "active session limit timer" ||
      containsText lower "idle session limit timer" ||
      containsText lower "server denied connection" then some nativeDetail
  else none

/-- `onConnectionSuccess` after its guard; `now` is `elapsedRealtime()`. -/
def successBody (now : ℕ) (s : SessionManager) : SessionManager :=
  transition .connected { s.stopWatchdog with
    userInitiatedDisconnect := false
    autoReconnectAttempts := 0
    compatHandshakeStage := 0
    connectedAtMs := now }

/-- `onConnectionSuccess`. -/
def onConnectionSuccess (inst : Instance) (now : ℕ) (s : SessionManager) : SessionManager :=
  if s.isCurrent inst then successBody now s else s

/-- The error `onConnectionFailure` reports when nothing is retried. -/
def connectFailed (inst : Instance) (profile : Option ConnectionProfile) (nativeDetail : String) :
    SessionState :=
  let summary := match profile with
    | some p => s!"Gagal koneksi ke {p.host}:{p.port}"
    | none => "Gagal koneksi"
  .error "connect_failed"
    (if nativeDetail = "" then summary else s!"{summary} — Detail: {nativeDetail}")
    (RdpFailure.codeFor "connect_failed" nativeDetail) inst

/-- A failed handshake is tried again with the next compatibility stage. -/
def RetriesCompat (profile : Option ConnectionProfile) (nativeDetail : String)
    (s : SessionManager) : Prop :=
  ¬ s.userInitiatedDisconnect ∧ ¬ s.released ∧ ¬ isAuthFailure nativeDetail ∧
    s.connectedAtMs = 0 ∧ s.lastTcpReachable ∧ s.compatHandshakeStage < 2 ∧ profile.isSome

instance (profile : Option ConnectionProfile) (nativeDetail : String) (s : SessionManager) :
    Decidable (s.RetriesCompat profile nativeDetail) := by
  unfold RetriesCompat; infer_instance

/-- An established session that is lost is reconnected; `quiet` says that the native
text gives no reason not to. -/
def RetriesLost (profile : Option ConnectionProfile) (quiet : Bool) (s : SessionManager) : Prop :=
  ¬ s.userInitiatedDisconnect ∧ ¬ s.released ∧ quiet ∧ 0 < s.connectedAtMs ∧
    s.autoReconnectAttempts < 6 ∧ profile.isSome

instance (profile : Option ConnectionProfile) (quiet : Bool) (s : SessionManager) :
    Decidable (s.RetriesLost profile quiet) := by
  unfold RetriesLost; infer_instance

/-- The reconnect of a lost session. -/
def retryLost (profile : Option ConnectionProfile) (s : SessionManager) : SessionManager :=
  scheduleReconnect profile 1500
    (transition .connecting { s with autoReconnectAttempts := s.autoReconnectAttempts + 1 })

/-- `onConnectionFailure` after the cleanup: the next compatibility stage, an
automatic reconnect, or an error. -/
def failureTail (inst : Instance) (profile : Option ConnectionProfile) (nativeDetail : String)
    (s : SessionManager) : SessionManager :=
  if s.RetriesCompat profile nativeDetail then
    scheduleReconnect profile 450
      (transition .connecting { s with compatHandshakeStage := s.compatHandshakeStage + 1 })
  else if s.RetriesLost profile (!isAuthFailure nativeDetail) then retryLost profile s
  else transition (connectFailed inst profile nativeDetail) s

/-- `onConnectionFailure`. -/
def onConnectionFailure (inst : Instance) (nativeDetail : String) (s : SessionManager) :
    SessionManager :=
  if s.isCurrent inst then
    failureTail inst s.lastProfile nativeDetail (cleanupTerminalSession inst s.stopWatchdog)
  else s

/-- `onDisconnected` after the cleanup: an automatic reconnect, or the end. -/
def disconnectedTail (profile : Option ConnectionProfile) (detail : Option String)
    (s : SessionManager) : SessionManager :=
  if s.RetriesLost profile detail.isNone then retryLost profile s
  else transition (.disconnected detail) s

/-- `onDisconnected`. -/
def onDisconnected (inst : Instance) (nativeDetail : String) (s : SessionManager) :
    SessionManager :=
  if s.isCurrent inst then
    disconnectedTail s.lastProfile (administrativeDetail nativeDetail)
      (cleanupTerminalSession inst s.stopWatchdog)
  else s

/-- `OnAuthenticate`, on the native thread: without a listener it is refused. -/
def onAuthenticate (inst : Instance) (s : SessionManager) : SessionManager :=
  if s.listener ∧ s.isCurrent inst then transition .authenticating s else s

/-! ## The delayed runnables -/

/-- The guard of every runnable that reconnects. -/
def mayReconnect (s : SessionManager) : Prop :=
  ¬ s.released ∧ ¬ s.userInitiatedDisconnect

instance (s : SessionManager) : Decidable s.mayReconnect := by
  unfold mayReconnect; infer_instance

/-- A posted reconnect: `connect(p)`, or `lastProfile?.let { connect(it) }`. -/
def reconnect (env : SessionEnv) (profile : Option ConnectionProfile) (alloc : Instance)
    (s : SessionManager) : SessionManager :=
  if s.mayReconnect then
    match profile.or s.lastProfile with
    | some p => connect env p (some alloc) s
    | none => s
  else s

/-- The runnable `cancelConnection` posts. -/
def cancelFallback (inst : Instance) (s : SessionManager) : SessionManager :=
  if s.isCurrent inst ∧ s.state.Handshaking then
    transition (.error "cancelled" ("Pembatalan belum dikonfirmasi engine; tutup sesi " ++
      "untuk menghentikan koneksi dengan aman.") 0 0) s
  else s

/-- The runnable `disconnect` posts. -/
def disconnectFallback (inst : Instance) (s : SessionManager) : SessionManager :=
  if s.isCurrent inst ∧ s.state = .disconnecting then transition disconnectUnconfirmed s
  else s

/-- The error of a handshake that hangs for `CONNECT_WATCHDOG_MS`. -/
def connectTimeout (inst : Instance) : SessionState :=
  .error "connect_timeout" ("Koneksi menggantung lebih dari 30 detik. " ++
    "Kemungkinan: firewall memblokir setelah TCP, server lambat, atau " ++
    "NLA/TLS tidak selesai. Tekan Detail untuk log.")
    (RdpFailure.codeFor "connect_timeout" "") inst

/-- The runnable `startWatchdog` posts. -/
def watchdog (inst : Instance) (token : ℕ) (s : SessionManager) : SessionManager :=
  if token ≠ s.watchdogToken then s
  else if s.isCurrent inst ∧ s.state.Handshaking then
    transition (connectTimeout inst) s.stopWatchdog
  else s

/-- A delayed runnable runs.  `alloc` is the handle `createSession` returns if it
is called; an exception there leaves a posted runnable and ends the process. -/
def runDelayed (env : SessionEnv) (alloc : Instance) (s : SessionManager) :
    DelayedRunnable → SessionManager
  | .reconnect profile _ => reconnect env profile alloc s
  | .cancelFallback inst => cancelFallback inst s
  | .disconnectFallback inst => disconnectFallback inst s
  | .watchdog inst token => watchdog inst token s

/-- A posted callback runs.  `nativeDetail` is `getLastErrorString(inst).trim()` and
`now` is `elapsedRealtime()`, both read when it runs. -/
def runCallback (cb : Callback) (nativeDetail : String) (now : ℕ) (s : SessionManager) :
    SessionManager :=
  match cb.event with
  | .success => onConnectionSuccess cb.inst now s
  | .failure => onConnectionFailure cb.inst nativeDetail s
  | .disconnected => onDisconnected cb.inst nativeDetail s

end SessionManager
