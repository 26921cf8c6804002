/-
# Transitional states and pending reconnects

A user interface that shows `Connecting`, `Authenticating` or `Disconnecting` is
waiting for something: either there is a native session whose callbacks will
come, or a reconnect is pending that will start one (`NotStuck`).

Every handler keeps this up, with one exception.  `cancelConnection` and
`disconnect` raise `userInitiatedDisconnect` before they look at `core`, and
return when it is null: in the back-off window of an automatic reconnect this
disarms the pending reconnect and leaves the state as it is.
-/
import XyDeskRemote.SessionLifecycle

open LabelledRun Option

/-- The runnable will call `connect` with a profile when it runs in `s`. -/
def DelayedRunnable.Armed (s : SessionManager) : DelayedRunnable → Prop
  | .reconnect profile _ => s.mayReconnect ∧ (profile.or s.lastProfile).isSome
  | _ => False

instance (s : SessionManager) (r : DelayedRunnable) : Decidable (r.Armed s) :=
  match r with
  | .reconnect _ _ => instDecidableAnd
  | .cancelFallback _ | .disconnectFallback _ | .watchdog _ _ => instDecidableFalse

namespace SessionManager

/-- A transitional state has a session to wait for, or a reconnect that is going
to make one. -/
def NotStuck (s : SessionManager) : Prop :=
  s.state.Transitional → s.core.isSome ∨ ∃ r ∈ s.runnables, r.Armed s

instance (s : SessionManager) : Decidable s.NotStuck := by
  unfold NotStuck; infer_instance

/-- A call by which the user ends the connection, made while there is no session
and the state announces one. -/
def StopInBackoff (s : SessionManager) (a : SessionStep) : Prop :=
  a.IsUserStop ∧ s.core = none ∧ s.state.Transitional

/-! ## Where the property comes from -/

variable {s : SessionManager}

theorem notStuck_of_core {c : CoreSession} (h : s.core = some c) :
    s.NotStuck := by
  intro _
  left
  simp [h]

theorem notStuck_of_quiet (h : ¬ s.state.Transitional) : s.NotStuck :=
  fun ht => absurd ht h

variable {profile : Option ConnectionProfile}

/-- A reconnect that was just scheduled is armed. -/
theorem notStuck_scheduleReconnect (hmay : s.mayReconnect) (hp : profile.isSome) (delayMs : ℕ) :
    (scheduleReconnect profile delayMs s).NotStuck := by
  intro _
  right
  refine ⟨.reconnect profile delayMs, by simp [scheduleReconnect], hmay, ?_⟩
  simp [isSome_or, hp]

/-- The fields the property is about, apart from the runnables. -/
def stuckFields (s : SessionManager) :=
  (s.state, s.core, s.released, s.userInitiatedDisconnect, s.lastProfile)

variable {t : SessionManager}

/-- Steps that keep these fields, and drop no armed runnable, keep the property. -/
theorem NotStuck.mono (h : s.NotStuck) (hf : t.stuckFields = s.stuckFields)
    (hrun : ∀ r ∈ s.runnables, r.Armed s → r ∈ t.runnables) : t.NotStuck := by
  simp only [stuckFields, Prod.mk.injEq] at hf
  obtain ⟨hstate, hcore, hrel, huser, hprof⟩ := hf
  intro ht
  rw [hstate] at ht
  rcases h ht with hc | ⟨r, hr, harmed⟩
  · left
    rwa [hcore]
  · right
    refine ⟨r, hrun r hr harmed, ?_⟩
    cases r with
    | reconnect profile delayMs => simpa [DelayedRunnable.Armed, mayReconnect, hrel, huser, hprof]
        using harmed
    | cancelFallback inst => exact harmed.elim
    | disconnectFallback inst => exact harmed.elim
    | watchdog inst token => exact harmed.elim

variable {r : DelayedRunnable}

/-- Taking a runnable that is not armed off the handler keeps the property. -/
theorem NotStuck.eraseIdx (h : s.NotStuck) {i : ℕ} (hr : s.runnables[i]? = some r)
    (hn : ¬ r.Armed s) :
    NotStuck { s with runnables := s.runnables.eraseIdx i } := by
  refine h.mono rfl fun r' hr' harmed => ?_
  obtain ⟨j, hj⟩ := List.mem_iff_getElem?.1 hr'
  refine List.mem_eraseIdx_iff_getElem?.2 ⟨j, ?_, hj⟩
  rintro rfl
  obtain rfl : r = r' := some.inj (hr.symm.trans hj)
  exact hn harmed

variable {env : SessionEnv}

/-- **An armed reconnect does what it promises**: in a live manager without a
session it creates one. -/
theorem core_of_armed (books : Books s) (harmed : r.Armed s) (hc : s.core = none)
    (alloc : Instance) :
    (runDelayed env alloc s r).core.isSome := by
  cases r with
  | cancelFallback inst => exact harmed.elim
  | disconnectFallback inst => exact harmed.elim
  | watchdog inst token => exact harmed.elim
  | reconnect profile delayMs =>
    obtain ⟨hmay, hp⟩ := harmed
    obtain ⟨p, hp⟩ := isSome_iff_exists.1 hp
    have hr : s.released = false := by simpa using hmay.1
    simp only [runDelayed, reconnect, if_pos hmay, hp]
    rw [connect_of_vacant hr hc (books.vacant_state hc)]
    rfl

/-! ## The handlers -/

/-- The fallbacks and the watchdog touch the state of a current session only. -/
theorem runDelayed_of_core_none (hc : s.core = none) (hn : ¬ r.Armed s) (alloc : Instance) :
    runDelayed env alloc s r = s := by
  have hcur := not_isCurrent_of_core_none hc
  cases r with
  | reconnect profile delayMs =>
    simp only [runDelayed, reconnect]
    split
    · rename_i hmay
      cases hp : profile.or s.lastProfile with
      | none => rfl
      | some p => exact absurd ⟨hmay, by simp [hp]⟩ hn
    · rfl
  | cancelFallback inst => simp [runDelayed, cancelFallback, hcur]
  | disconnectFallback inst => simp [runDelayed, disconnectFallback, hcur]
  | watchdog inst token => simp [runDelayed, SessionManager.watchdog, hcur]

theorem runDelayed_core {c : CoreSession} (hc : s.core = some c) (r : DelayedRunnable)
    (alloc : Instance) :
    (runDelayed env alloc s r).core = some c := by
  cases r with
  | reconnect profile delayMs =>
    simp only [runDelayed, reconnect]
    split
    · cases profile.or s.lastProfile with
      | none => exact hc
      | some p => simpa only [connect_of_core hc] using hc
    · exact hc
  | cancelFallback inst =>
    simp only [runDelayed, cancelFallback]
    split <;> exact hc
  | disconnectFallback inst =>
    simp only [runDelayed, disconnectFallback]
    split <;> exact hc
  | watchdog inst token =>
    simp only [runDelayed, SessionManager.watchdog]
    split
    · exact hc
    · split <;> exact hc

theorem notStuck_fire (books : Books s) (h : s.NotStuck) {i : ℕ} (hr : s.runnables[i]? = some r)
    (alloc : Instance) :
    NotStuck (runDelayed env alloc { s with runnables := s.runnables.eraseIdx i } r) := by
  set s₀ : SessionManager := { s with runnables := s.runnables.eraseIdx i }
  have books₀ : Books s₀ := books.congr rfl
  cases hc : s.core with
  | some c => exact notStuck_of_core (runDelayed_core (s := s₀) hc r alloc)
  | none =>
    -- with no session only an armed reconnect does anything
    have same : r.Armed s₀ ↔ r.Armed s := by cases r <;> rfl
    by_cases harmed : r.Armed s
    · have hsome : (runDelayed env alloc s₀ r).core.isSome :=
        core_of_armed books₀ (same.2 harmed) hc alloc
      obtain ⟨c, hcore⟩ := isSome_iff_exists.1 hsome
      exact notStuck_of_core hcore
    · rw [runDelayed_of_core_none (s := s₀) hc (mt same.1 harmed)]
      exact h.eraseIdx hr harmed

/-- The end of a failed connection: a reconnect, or a quiet error. -/
theorem notStuck_failureTail {inst : Instance} {nativeDetail : String} :
    (failureTail inst profile nativeDetail s).NotStuck := by
  rw [failureTail]
  split
  · rename_i h
    obtain ⟨huser, hrel, -, -, -, -, hp⟩ := h
    refine notStuck_scheduleReconnect ?_ hp 450
    exact ⟨hrel, huser⟩
  · split
    · rename_i h
      obtain ⟨huser, hrel, -, -, -, hp⟩ := h
      refine notStuck_scheduleReconnect ?_ hp 1500
      exact ⟨hrel, huser⟩
    · exact notStuck_of_quiet id

/-- The end of a lost connection: a reconnect, or a quiet state. -/
theorem notStuck_disconnectedTail {detail : Option String} :
    (disconnectedTail profile detail s).NotStuck := by
  rw [disconnectedTail]
  split
  · rename_i h
    obtain ⟨huser, hrel, -, -, -, hp⟩ := h
    refine notStuck_scheduleReconnect ?_ hp 1500
    exact ⟨hrel, huser⟩
  · exact notStuck_of_quiet id

/-- A posted callback keeps the property. -/
theorem notStuck_deliver (h : s.NotStuck) (cb : Callback) (nativeDetail : String) (now : ℕ) :
    (runCallback cb nativeDetail now s).NotStuck := by
  obtain ⟨inst, event⟩ := cb
  cases event with
  | success =>
    simp only [runCallback, onConnectionSuccess]
    split
    · exact notStuck_of_quiet id
    · exact h
  | failure =>
    simp only [runCallback, onConnectionFailure]
    split
    · exact notStuck_failureTail
    · exact h
  | disconnected =>
    simp only [runCallback, onDisconnected]
    split
    · exact notStuck_disconnectedTail
    · exact h

theorem notStuck_work (hr : s.released = false) {task : WorkerTask}
    (hcore : s.core = some task.session) (hat : s.connectedAtMs = 0) (reachable : Bool)
    (thrown : Option String) : NotStuck (workerBody task reachable thrown s) := by
  cases reachable with
  | false =>
    rw [workerBody_unreachable hcore hat]
    exact notStuck_of_quiet id
  | true =>
    cases thrown with
    | none =>
      rw [workerBody_started hcore hr]
      exact notStuck_of_core hcore
    | some message =>
      rw [workerBody_thrown hcore hr]
      exact notStuck_of_quiet id

variable {a : SessionStep}

/-- A stop that finds no session changes nothing but the flag and the token. -/
theorem userStop_of_core_none (ha : a.IsUserStop) (hc : s.core = none)
    (ht : step env s a = some t) :
    t = s.cancelRequested := by
  cases a with
  | cancelConnection =>
    obtain rfl : s.cancelConnection = t := some.inj ht
    exact cancelConnection_of_core_none hc
  | disconnect accepted =>
    obtain rfl : s.disconnect accepted = t := some.inj ht
    exact disconnect_of_core_none hc accepted
  | _ => exact ha.elim

/-- A stop that finds a session leaves it in place. -/
theorem userStop_core (ha : a.IsUserStop) {c : CoreSession} (hc : s.core = some c)
    (ht : step env s a = some t) :
    t.core = some c := by
  cases a with
  | cancelConnection =>
    obtain rfl : s.cancelConnection = t := some.inj ht
    rw [cancelConnection, hc]
    exact hc
  | disconnect accepted =>
    obtain rfl : s.disconnect accepted = t := some.inj ht
    simp only [SessionManager.disconnect, hc, disconnectNative]
    split
    · exact hc
    · split <;> exact hc
  | _ => exact ha.elim

/-! ## Steps and runs -/

/-- A stop in the back-off window disarms every reconnect and leaves the state. -/
theorem stuck_of_stopInBackoff (ht : step env s a = some t) (hstop : s.StopInBackoff a) :
    ¬ t.NotStuck := by
  obtain ⟨ha, hc, hst⟩ := hstop
  obtain rfl := userStop_of_core_none ha hc ht
  intro h
  rcases h hst with hcore | ⟨r, -, harmed⟩
  · simp [cancelRequested, stopWatchdog, hc] at hcore
  · cases r with
    | reconnect profile delayMs => exact harmed.1.2 rfl
    | cancelFallback inst => exact harmed
    | disconnectFallback inst => exact harmed
    | watchdog inst token => exact harmed

/-- **Step lemma.**  Every other step keeps the property. -/
theorem notStuck_step (hinv : Inv s) (h : s.NotStuck) (ht : step env s a = some t)
    (hstop : ¬ s.StopInBackoff a) :
    t.NotStuck := by
  obtain hclosed | ⟨hr, books, l, shape⟩ := hinv
  · exact notStuck_of_quiet (closed_step hclosed ht).state
  -- a stop outside a back-off window finds a session, or a state that waits for nothing
  have stop : a.IsUserStop → t.NotStuck := by
    intro ha
    cases hc : s.core with
    | some c => exact notStuck_of_core (userStop_core ha hc ht)
    | none =>
      obtain rfl := userStop_of_core_none ha hc ht
      exact notStuck_of_quiet fun hst => hstop ⟨ha, hc, hst⟩
  cases a with
  | connect raw alloc =>
    obtain ⟨-, rfl⟩ := step_connect.1 ht
    cases hc : s.core with
    | some c => rwa [connect_of_core hc]
    | none =>
      rw [connect_of_vacant hr hc (books.vacant_state hc)]
      cases alloc with
      | none => exact h.mono rfl fun _ hr' _ => hr'
      | some inst => exact notStuck_of_core (c := (install env _ inst s).2.session) rfl
  | cancelConnection => exact stop trivial
  | disconnect accepted => exact stop trivial
  | release =>
    obtain rfl : s.release = t := some.inj ht
    exact notStuck_of_quiet (closed_release hr).state
  | setListener present =>
    exact some.inj ht ▸ h.mono rfl fun _ hr' _ => hr'
  | work reachable thrown =>
    obtain ⟨task, rest, htasks, rfl⟩ := step_work.1 ht
    obtain ⟨rfl, -⟩ := shape.probing_of_tasks htasks
    obtain ⟨hcore, -, -, -, -, -, hat⟩ := shape
    exact notStuck_work (s := { s with tasks := rest }) hr hcore hat reachable thrown
  | nativeSuccess inst =>
    obtain ⟨-, rfl⟩ := step_nativeSuccess.1 ht
    rw [dispatch]
    split
    · exact h.mono rfl fun _ hr' _ => hr'
    · exact h
  | nativeEnd inst failed =>
    obtain ⟨-, rfl⟩ := step_nativeEnd.1 ht
    rw [dispatch]
    split <;> exact h.mono rfl fun _ hr' _ => hr'
  | authenticate inst =>
    obtain ⟨-, rfl⟩ := step_authenticate.1 ht
    rw [onAuthenticate]
    split
    · rename_i hcur
      intro _
      left
      -- a handshake that authenticates is the one of the current session
      have hc : s.core.map CoreSession.inst = some inst := hcur.2
      cases h' : s.core with
      | none => simp [h'] at hc
      | some c => simp [transition_core, h']
    · exact h
  | deliver nativeDetail now =>
    obtain ⟨-, cb, rest, -, rfl⟩ := step_deliver.1 ht
    apply notStuck_deliver
    exact h.mono rfl fun _ hr' _ => hr'
  | fire i alloc =>
    obtain ⟨-, r, hr', rfl⟩ := step_fire.1 ht
    exact notStuck_fire books h hr' alloc
  | runFree =>
    obtain ⟨session, rest, hfrees, rfl⟩ := step_runFree.1 ht
    simp [books.frees] at hfrees

/-- **A run visits no stuck state exactly when no stop falls into a back-off
window.** -/
theorem never_stuck_iff (env : SessionEnv) (as : List SessionStep) :
    EveryState (step env) NotStuck initial as ↔
      EveryStep (step env) (fun s a _ => ¬ s.StopInBackoff a) initial as := by
  refine everyState_iff_everyStep (I := Inv) (fun _ _ _ => inv_step) ?_ inv_initial
    (notStuck_of_quiet id) as
  intro s a t hinv h ht
  exact ⟨fun hok hstop => stuck_of_stopInBackoff ht hstop hok, notStuck_step hinv h ht⟩

/-- The first attempt fails after a good probe, and the user cancels before the
compatibility retry runs. -/
def cancelInBackoff : List SessionStep :=
  [.connect deskProfile (some 1), .work true none, .nativeEnd 1 true, .deliver "" 1,
    .cancelConnection]

/-- The manager is left in `Connecting` without a session and with nothing armed. -/
theorem cancel_in_backoff_stuck :
    ∃ s, run (step plainEnv) initial cancelInBackoff = some s ∧ s.state = .connecting ∧
      ¬ s.NotStuck := by
  refine ⟨_, rfl, ?_, ?_⟩ <;> decide

end SessionManager
