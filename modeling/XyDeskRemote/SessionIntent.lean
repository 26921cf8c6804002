/-
# The intent of the user

`disconnect` and `cancelConnection` raise `userInitiatedDisconnect`, and every
place that reconnects by itself tests the flag.  While the flag is up nothing but
a call of the user creates a native session, and the state does not come back to
`Connected` (`stop_wins`).
-/
import XyDeskRemote.SessionLifecycle

open LabelledRun

/-- The user calls `connect`. -/
def SessionStep.IsUserConnect : SessionStep → Prop
  | .connect _ _ => True
  | _ => False

namespace SessionManager

/-- The next posted callback is a success of the current instance, and `a` runs it. -/
def SuccessDue (s : SessionManager) (a : SessionStep) : Prop :=
  (∃ nativeDetail now, a = .deliver nativeDetail now) ∧
    ∃ cb ∈ s.callbacks.head?, cb.event = .success ∧ s.isCurrent cb.inst

/-- From `s` to `t` no session was created and the state did not become
`Connected`. -/
structure Quiet (s t : SessionManager) : Prop where
  created : t.created = s.created
  state : t.state = .connected → s.state = .connected

/-- From `s` to `t` the manager stayed quiet and kept its intent. -/
structure Obeys (s t : SessionManager) : Prop extends Quiet s t where
  intent : s.userInitiatedDisconnect → t.userInitiatedDisconnect

/-! ## The pieces -/

theorem Obeys.refl (s : SessionManager) : Obeys s s := ⟨⟨rfl, id⟩, id⟩

theorem Obeys.trans {s t u : SessionManager} (h : Obeys s t) (h' : Obeys t u) : Obeys s u where
  created := h'.created.trans h.created
  state := fun hu => h.state (h'.state hu)
  intent := fun hs => h'.intent (h.intent hs)

/-- The fields `Obeys` is about. -/
def intentFields (s : SessionManager) := (s.created, s.state, s.userInitiatedDisconnect)

/-- A piece that leaves these fields alone. -/
theorem obeys_of_eq {s t : SessionManager} (hf : t.intentFields = s.intentFields) :
    Obeys s t := by
  simp only [intentFields, Prod.mk.injEq] at hf
  obtain ⟨hcreated, hstate, huser⟩ := hf
  refine ⟨⟨hcreated, fun h => ?_⟩, fun h => ?_⟩
  · rwa [hstate] at h
  · rwa [huser]

theorem obeys_transition {st : SessionState} (h : st ≠ .connected) (s : SessionManager) :
    Obeys s (transition st s) :=
  ⟨⟨rfl, fun hst => absurd hst h⟩, id⟩

theorem obeys_cancelRequested (s : SessionManager) : Obeys s s.cancelRequested :=
  ⟨⟨rfl, id⟩, fun _ => rfl⟩

theorem obeys_dispatch (cb : Callback) (s : SessionManager) : Obeys s (s.dispatch cb) := by
  rw [dispatch]
  split
  · exact obeys_of_eq rfl
  · exact Obeys.refl s

theorem obeys_cleanup (inst : Instance) (s : SessionManager) :
    Obeys s (cleanupTerminalSession inst s) := by
  rw [cleanupTerminalSession]
  cases s.core with
  | none => exact Obeys.refl s
  | some session =>
    simp only
    split
    · exact Obeys.refl s
    · exact obeys_of_eq rfl

/-! ## The handlers -/

theorem obeys_cancelConnection (s : SessionManager) : Obeys s s.cancelConnection := by
  rw [cancelConnection]
  cases s.core with
  | none => exact obeys_cancelRequested s
  | some session => exact (obeys_cancelRequested s).trans (obeys_of_eq rfl)

theorem obeys_disconnect (accepted : Bool) (s : SessionManager) :
    Obeys s (s.disconnect accepted) := by
  rw [SessionManager.disconnect]
  cases s.core with
  | none => exact obeys_cancelRequested s
  | some session =>
    have h : Obeys s (transition .disconnecting s.cancelRequested) :=
      (obeys_cancelRequested s).trans (obeys_transition (by rintro ⟨⟩) _)
    simp only [disconnectNative]
    split
    · exact h.trans (obeys_of_eq rfl)
    · split
      · exact h.trans (obeys_transition (by rintro ⟨⟩) _)
      · exact h

theorem obeys_release (s : SessionManager) : Obeys s s.release := by
  have hlocked : Obeys s s.releaseLocked := by
    rw [releaseLocked]
    split
    · exact Obeys.refl s
    · cases s.core with
      | none => exact obeys_of_eq rfl
      | some session =>
        simp only
        split <;> exact obeys_of_eq rfl
  rw [release]
  split
  · exact Obeys.refl s
  · rw [releaseTail]
    split
    · exact hlocked.trans (obeys_transition (by rintro ⟨⟩) _)
    · exact hlocked

theorem obeys_workerUnreachableTail (task : WorkerTask) (s : SessionManager) :
    Obeys s (workerUnreachableTail task s) := by
  rw [workerUnreachableTail]
  split
  · exact obeys_of_eq rfl
  · exact obeys_transition (by rintro ⟨⟩) s

theorem obeys_workerConnectLocked (task : WorkerTask) (thrown : Option String)
    (s : SessionManager) : Obeys s (workerConnectLocked task thrown s).1 := by
  rw [workerConnectLocked]
  split
  · exact Obeys.refl s
  · cases thrown <;> exact obeys_of_eq rfl

theorem obeys_workerThrown (task : WorkerTask) (message : String) (s : SessionManager) :
    Obeys s (workerThrown task message s) := by
  rw [workerThrown]
  split
  · exact (obeys_transition (by rintro ⟨⟩) s).trans (obeys_cleanup _ _)
  · exact Obeys.refl s

theorem obeys_workerBody (task : WorkerTask) (reachable : Bool) (thrown : Option String)
    (s : SessionManager) : Obeys s (workerBody task reachable thrown s) := by
  set s₀ : SessionManager := { s with lastTcpReachable := reachable } with hs₀
  have probed : Obeys s s₀ := obeys_of_eq rfl
  simp only [workerBody, ← hs₀]
  split
  · exact probed
  · split
    · exact (probed.trans (obeys_cleanup _ _)).trans (obeys_workerUnreachableTail _ _)
    · -- what the locked part leaves to do decides whether the `catch` block runs
      have locked := probed.trans (obeys_workerConnectLocked task thrown s₀)
      generalize workerConnectLocked task thrown s₀ = r at locked ⊢
      obtain ⟨s₁, outcome⟩ := r
      cases outcome with
      | done => exact locked
      | thrown message => exact locked.trans (obeys_workerThrown task message s₁)

theorem obeys_failureTail (inst : Instance) (profile : Option ConnectionProfile)
    (nativeDetail : String) (s : SessionManager) :
    Obeys s (failureTail inst profile nativeDetail s) := by
  rw [failureTail]
  split
  · exact ⟨⟨rfl, by rintro ⟨⟩⟩, id⟩
  · split
    · exact ⟨⟨rfl, by rintro ⟨⟩⟩, id⟩
    · exact obeys_transition (by rintro ⟨⟩) s

theorem obeys_disconnectedTail (profile : Option ConnectionProfile) (detail : Option String)
    (s : SessionManager) : Obeys s (disconnectedTail profile detail s) := by
  rw [disconnectedTail]
  split
  · exact ⟨⟨rfl, by rintro ⟨⟩⟩, id⟩
  · exact obeys_transition (by rintro ⟨⟩) s

theorem obeys_runCallback {cb : Callback} {s : SessionManager}
    (h : ¬ (cb.event = .success ∧ s.isCurrent cb.inst)) (nativeDetail : String) (now : ℕ) :
    Obeys s (runCallback cb nativeDetail now s) := by
  have stopped : Obeys s s.stopWatchdog := obeys_of_eq rfl
  obtain ⟨inst, event⟩ := cb
  cases event with
  | success =>
    -- the success of an instance that is no longer current is dropped
    have hcur : ¬ s.isCurrent inst := fun hc => h ⟨rfl, hc⟩
    simp only [runCallback, onConnectionSuccess, if_neg hcur]
    exact Obeys.refl s
  | failure =>
    simp only [runCallback, onConnectionFailure]
    split
    · exact (stopped.trans (obeys_cleanup _ _)).trans (obeys_failureTail _ _ _ _)
    · exact Obeys.refl s
  | disconnected =>
    simp only [runCallback, onDisconnected]
    split
    · exact (stopped.trans (obeys_cleanup _ _)).trans (obeys_disconnectedTail _ _ _)
    · exact Obeys.refl s

/-- A delayed runnable, while the flag is up: the reconnects do nothing. -/
theorem obeys_runDelayed {env : SessionEnv} {s : SessionManager}
    (h : s.userInitiatedDisconnect) (r : DelayedRunnable) (alloc : Instance) :
    Obeys s (runDelayed env alloc s r) := by
  cases r with
  | reconnect profile delayMs =>
    -- the guard reads the flag when the runnable runs
    have hno : ¬ s.mayReconnect := fun hmay => hmay.2 h
    simp only [runDelayed, reconnect, if_neg hno]
    exact Obeys.refl s
  | cancelFallback inst =>
    simp only [runDelayed, cancelFallback]
    split
    · exact obeys_transition (by rintro ⟨⟩) s
    · exact Obeys.refl s
  | disconnectFallback inst =>
    simp only [runDelayed, disconnectFallback]
    split
    · exact obeys_transition (by rintro ⟨⟩) s
    · exact Obeys.refl s
  | watchdog inst token =>
    simp only [runDelayed, SessionManager.watchdog]
    split
    · exact Obeys.refl s
    · split
      · exact ⟨⟨rfl, by rintro ⟨⟩⟩, id⟩
      · exact Obeys.refl s

/-! ## Steps and runs -/

/-- **Step lemma.**  While the flag is up, every step obeys it except a call of
`connect` and a success callback of the current instance. -/
theorem obeys_step {env : SessionEnv} {s t : SessionManager} {a : SessionStep}
    (h : s.userInitiatedDisconnect) (ht : step env s a = some t) (hconn : ¬ a.IsUserConnect)
    (hsucc : ¬ s.SuccessDue a) : Obeys s t := by
  cases a with
  | connect raw alloc => exact absurd trivial hconn
  | cancelConnection => exact Option.some.inj ht ▸ obeys_cancelConnection s
  | disconnect accepted => exact Option.some.inj ht ▸ obeys_disconnect accepted s
  | release => exact Option.some.inj ht ▸ obeys_release s
  | setListener present => exact Option.some.inj ht ▸ obeys_of_eq rfl
  | work reachable thrown =>
    obtain ⟨task, rest, -, rfl⟩ := step_work.1 ht
    refine Obeys.trans ?_ (obeys_workerBody task reachable thrown _)
    exact obeys_of_eq rfl
  | nativeSuccess inst =>
    obtain ⟨-, rfl⟩ := step_nativeSuccess.1 ht
    exact obeys_dispatch _ s
  | nativeEnd inst failed =>
    obtain ⟨-, rfl⟩ := step_nativeEnd.1 ht
    refine Obeys.trans ?_ (obeys_dispatch _ _)
    exact obeys_of_eq rfl
  | authenticate inst =>
    obtain ⟨-, rfl⟩ := step_authenticate.1 ht
    rw [onAuthenticate]
    split
    · exact obeys_transition (by rintro ⟨⟩) s
    · exact Obeys.refl s
  | deliver nativeDetail now =>
    obtain ⟨-, cb, rest, hcb, rfl⟩ := step_deliver.1 ht
    refine Obeys.trans ?_ (obeys_runCallback ?_ nativeDetail now)
    · exact obeys_of_eq rfl
    · rintro ⟨hevent, hcur⟩
      exact hsucc ⟨⟨nativeDetail, now, rfl⟩, cb, by simp [hcb], hevent, hcur⟩
  | fire i alloc =>
    obtain ⟨-, r, -, rfl⟩ := step_fire.1 ht
    refine Obeys.trans ?_ (obeys_runDelayed ?_ r alloc)
    · exact obeys_of_eq rfl
    · exact h
  | runFree =>
    obtain ⟨session, rest, -, rfl⟩ := step_runFree.1 ht
    exact obeys_of_eq rfl

/-- A stop raises the flag. -/
theorem intent_of_userStop {env : SessionEnv} {s t : SessionManager} {a : SessionStep}
    (ha : a.IsUserStop) (ht : step env s a = some t) : t.userInitiatedDisconnect := by
  cases a with
  | cancelConnection =>
    obtain rfl : s.cancelConnection = t := Option.some.inj ht
    rw [cancelConnection]
    cases s.core <;> rfl
  | disconnect accepted =>
    obtain rfl : s.disconnect accepted = t := Option.some.inj ht
    rw [SessionManager.disconnect]
    cases s.core with
    | none => rfl
    | some session =>
      simp only [disconnectNative]
      split
      · rfl
      · split <;> rfl
  | _ => exact ha.elim

/-- **The user's stop wins** over every automatic reconnect, along every run
until the user connects again, as long as no success callback of the current
instance is delivered. -/
theorem stop_wins {env : SessionEnv} {s t : SessionManager} {a : SessionStep}
    (ha : a.IsUserStop) (ht : step env s a = some t) (as : List SessionStep)
    (hrun : EveryStep (step env) (fun u b _ => ¬ b.IsUserConnect ∧ ¬ u.SuccessDue b) t as) :
    EveryStep (step env) (fun u _ v => Quiet u v) t as := by
  have hflag : t.userInitiatedDisconnect := intent_of_userStop ha ht
  clear ht
  -- the flag is the invariant that carries the induction on the run
  induction as generalizing t with
  | nil => trivial
  | cons b bs ih =>
    intro u hu
    obtain ⟨⟨hconn, hsucc⟩, hrest⟩ := hrun u hu
    have hobeys : Obeys t u := obeys_step hflag hu hconn hsucc
    exact ⟨hobeys.toQuiet, ih hrest (hobeys.intent hflag)⟩

/-- A session in its handshake. -/
def handshake : List SessionStep :=
  [.connect deskProfile (some 1), .work true none]

/-- The user cancels a handshake, and its failure is not retried. -/
theorem stop_wins_handshake :
    ∃ s t, run (step plainEnv) initial handshake = some s ∧
      step plainEnv s .cancelConnection = some t ∧
      EveryStep (step plainEnv) (fun u _ v => Quiet u v) t [.nativeEnd 1 true, .deliver "" 5] := by
  refine ⟨_, _, rfl, rfl, stop_wins (a := .cancelConnection) trivial rfl _ ?_⟩
  refine fun u hu => ⟨⟨id, ?_⟩, fun v _ => ⟨⟨id, ?_⟩, trivial⟩⟩
  · rintro ⟨⟨d, now, h⟩, -⟩
    exact nomatch h
  · rintro ⟨-, cb, hcb, hevent, -⟩
    obtain rfl := Option.some.inj hu
    obtain rfl : ⟨1, .failure⟩ = cb := Option.some.inj hcb
    exact nomatch hevent

/-- The terminal event of a session, and the reconnect it schedules. -/
def lostAndReconnected : List SessionStep :=
  [.nativeEnd 1 false, .deliver "" 6, .fire 2 2]

/-- **The queued success callback wins over the user.**  After `disconnect` it
reports `Connected`, and the loss of that session makes the manager connect
again. -/
theorem queued_success_overrides_disconnect :
    ∃ s t u v, run (step plainEnv) initial (handshake ++ [.nativeSuccess 1]) = some s ∧
      step plainEnv s (.disconnect true) = some t ∧ t.state = .disconnecting ∧
      step plainEnv t (.deliver "" 5) = some u ∧ u.state = .connected ∧
      run (step plainEnv) u lostAndReconnected = some v ∧ t.created < v.created := by
  refine ⟨_, _, _, _, rfl, rfl, ?_, rfl, ?_, rfl, ?_⟩ <;> decide

end SessionManager
