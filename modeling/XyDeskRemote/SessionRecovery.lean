/-
# Recovery of a lost session

When an established session is lost, the manager schedules a reconnect, and the
worker has a branch for a network that is not back yet: a failed probe schedules
the next attempt while `autoReconnectAttempts` is between 1 and 7.

The branch also asks for `connectedAtMs > 0`, and `sessionUri` clears that field
in the very `connect` that precedes the probe.
-/
import XyDeskRemote.SessionLifecycle

open LabelledRun

namespace SessionStep

/-- The worker probes. -/
def IsProbe : SessionStep → Prop
  | work _ _ => True
  | _ => False

/-- The labels of a recovery in which no probe succeeds and the user neither stops
the connection nor closes the manager. -/
def Unattended : SessionStep → Prop
  | cancelConnection | disconnect _ | release => False
  | work reachable _ => reachable = false
  | _ => True

end SessionStep

/-- The runnable reconnects. -/
def DelayedRunnable.IsReconnect : DelayedRunnable → Prop
  | .reconnect _ _ => True
  | _ => False

instance (r : DelayedRunnable) : Decidable r.IsReconnect := by
  cases r <;> simp only [DelayedRunnable.IsReconnect] <;> infer_instance

namespace SessionManager

/-- The next posted callback ends the current session, for a reason that the
manager recovers from. -/
def LossDue (s : SessionManager) (nativeDetail : String) : Prop :=
  ∃ cb rest, s.callbacks = cb :: rest ∧ s.isCurrent cb.inst ∧
    (cb.event = .failure ∧ isAuthFailure nativeDetail = false ∨
      cb.event = .disconnected ∧ administrativeDetail nativeDetail = none)

/-- What the branch for a network that is not back yet intends for a probe that
fails within the budget: another attempt, and no error. -/
def RetriesProbe (s : SessionManager) (a : SessionStep) (t : SessionManager) : Prop :=
  a.IsProbe → 1 ≤ s.autoReconnectAttempts → s.autoReconnectAttempts ≤ 7 →
    t.log.getLast? = some (.scheduleReconnect 2000) ∧
      ∀ message errorCode inst, t.state ≠ .error errorUnreachable message errorCode inst

/-- A recovery: the lost session is gone, its native thread too, and one attempt
has been counted. -/
structure Recovering (s : SessionManager) : Prop where
  inv : Inv s
  released : s.released = false
  attempts : s.autoReconnectAttempts = 1
  callbacks : s.callbacks = []
  running : s.running = []

/-! ## The loss -/

variable {s : SessionManager}

theorem retriesLost_established {profile : Option ConnectionProfile} {quiet : Bool}
    (huser : s.userInitiatedDisconnect = false) (hr : s.released = false) (hquiet : quiet = true)
    (hat : 0 < s.connectedAtMs) (hatt : s.autoReconnectAttempts = 0) (hp : profile.isSome) :
    s.RetriesLost profile quiet := by
  refine ⟨by simp [huser], by simp [hr], hquiet, hat, ?_, hp⟩
  omega

/-- The manager after the loss of its session `c`: one attempt counted, and its
reconnect scheduled. -/
def afterLoss (c : CoreSession) (s : SessionManager) : SessionManager :=
  scheduleReconnect s.lastProfile 1500
    (transition .connecting { freed c s.stopWatchdog with autoReconnectAttempts := 1 })

theorem retryLost_freed {c : CoreSession} (hatt : s.autoReconnectAttempts = 0) :
    retryLost s.lastProfile (freed c s.stopWatchdog) = afterLoss c s := by
  have hzero : (freed c s.stopWatchdog).autoReconnectAttempts + 1 = 1 := congrArg (· + 1) hatt
  rw [retryLost, hzero, afterLoss]

/-- **The loss** of an established session, by either terminal event. -/
theorem runCallback_of_loss {c : CoreSession} (books : Books s) (hcore : s.core = some c)
    (hconn : s.state = .connected) (hr : s.released = false)
    (huser : s.userInitiatedDisconnect = false) {failed : Bool} {nativeDetail : String}
    (hcause : (failed = true ∧ isAuthFailure nativeDetail = false) ∨
      (failed = false ∧ administrativeDetail nativeDetail = none)) (now : ℕ) :
    runCallback ⟨c.inst, SessionStep.endEvent failed⟩ nativeDetail now s = afterLoss c s := by
  have hcur : s.isCurrent c.inst := (isCurrent_iff_of_core hcore _).2 rfl
  obtain ⟨hat, hatt⟩ := books.connected hconn
  have hp : s.lastProfile.isSome := books.profile (by simp [hcore])
  rcases hcause with ⟨rfl, hauth⟩ | ⟨rfl, hadmin⟩
  · show onConnectionFailure c.inst nativeDetail s = _
    have hlost : (freed c s.stopWatchdog).RetriesLost s.lastProfile
        (!isAuthFailure nativeDetail) := by
      apply retriesLost_established <;> first | assumption | simp [hauth]
    -- a compatibility stage is only tried before the first connection
    have hnot : ¬ (freed c s.stopWatchdog).RetriesCompat s.lastProfile nativeDetail := by
      rintro ⟨-, -, -, hz, -⟩
      exact absurd hz hat.ne'
    rw [onConnectionFailure, if_pos hcur, cleanup_of_core (s := s.stopWatchdog) hcore,
      failureTail, if_neg hnot, if_pos hlost]
    exact retryLost_freed hatt
  · show onDisconnected c.inst nativeDetail s = _
    have hlost : (freed c s.stopWatchdog).RetriesLost s.lastProfile
        (administrativeDetail nativeDetail).isNone := by
      apply retriesLost_established <;> first | assumption | simp [hadmin]
    rw [onDisconnected, if_pos hcur, cleanup_of_core (s := s.stopWatchdog) hcore,
      disconnectedTail, if_pos hlost]
    exact retryLost_freed hatt

variable {env : SessionEnv} {t : SessionManager}

/-- The loss of an established session starts a recovery. -/
theorem recovering_of_loss (hs : Inv s) (hconn : s.state = .connected) (hr : s.released = false)
    (huser : s.userInitiatedDisconnect = false) {nativeDetail : String} {now : ℕ}
    (hloss : s.LossDue nativeDetail) (ht : step env s (.deliver nativeDetail now) = some t) :
    Recovering t := by
  have hinv : Inv t := inv_step hs ht
  obtain ⟨-, cb, rest, hcb, rfl⟩ := step_deliver.1 ht
  obtain ⟨cb', rest', hcb', hcur, hcause⟩ := hloss
  obtain ⟨rfl, rfl⟩ : cb = cb' ∧ rest = rest' := by simpa [hcb] using hcb'
  obtain hclosed | ⟨-, books, l, shape⟩ := hs
  · simp [hclosed.released] at hr
  have books' : Books { s with callbacks := rest } := books.congr rfl
  obtain ⟨c, hcore, ⟨rfl, -⟩ | ⟨failed, rfl, hrest, -, hrun, -⟩⟩ := shape.callback_cases hcb
  · rcases hcause with ⟨h, -⟩ | ⟨h, -⟩ <;> exact nomatch h
  · have hcause' : (failed = true ∧ isAuthFailure nativeDetail = false) ∨
        (failed = false ∧ administrativeDetail nativeDetail = none) := by
      cases failed <;> simpa [SessionStep.endEvent] using hcause
    have key := runCallback_of_loss books' hcore hconn hr huser hcause' now
    rw [key] at hinv ⊢
    exact ⟨hinv, hr, rfl, hrest, hrun⟩

/-! ## The recovery -/

/-- The parts of the manager that `Recovering` asks about. -/
def recoveryFields (s : SessionManager) :=
  (s.released, s.autoReconnectAttempts, s.callbacks, s.running)

/-- A step that changes none of them stays in the recovery. -/
theorem Recovering.of_eq {a : SessionStep} (h : Recovering s) (ht : step env s a = some t)
    (hf : t.recoveryFields = s.recoveryFields) : Recovering t := by
  simp only [recoveryFields, Prod.mk.injEq] at hf
  obtain ⟨hr, hatt, hcb, hrun⟩ := hf
  constructor
  · exact inv_step h.inv ht
  · rw [hr, h.released]
  · rw [hatt, h.attempts]
  · rw [hcb, h.callbacks]
  · rw [hrun, h.running]

theorem recoveryFields_connect (env : SessionEnv) (raw : ConnectionProfile)
    (alloc : Option Instance) (s : SessionManager) :
    (connect env raw alloc s).recoveryFields = s.recoveryFields := by
  simp only [connect, connectLocked]
  split_ifs
  · rfl
  · rfl
  · rfl
  · cases alloc <;> rfl

theorem recoveryFields_runDelayed (env : SessionEnv) (alloc : Instance) (s : SessionManager)
    (r : DelayedRunnable) : (runDelayed env alloc s r).recoveryFields = s.recoveryFields := by
  cases r with
  | reconnect profile delayMs =>
    simp only [runDelayed, reconnect]
    split
    · cases profile.or s.lastProfile with
      | none => rfl
      | some p => exact recoveryFields_connect env p (some alloc) s
    · rfl
  | cancelFallback inst =>
    simp only [runDelayed, cancelFallback]
    split <;> rfl
  | disconnectFallback inst =>
    simp only [runDelayed, disconnectFallback]
    split <;> rfl
  | watchdog inst token =>
    simp only [runDelayed, SessionManager.watchdog]
    split
    · rfl
    · split <;> rfl

/-- **A failed probe ends the recovery**: the session is freed, the state is the
error of an unreachable host, and nothing is scheduled. -/
theorem probe_of_recovering {thrown : Option String} (h : Recovering s)
    (ht : step env s (.work false thrown) = some t) :
    ∃ task c, s.tasks = [task] ∧ t.state = unreachableError task ∧
      t.log = s.log ++ [.freeSession c] ∧ t.recoveryFields = s.recoveryFields := by
  obtain ⟨task, rest, htasks, rfl⟩ := step_work.1 ht
  obtain hclosed | ⟨-, -, l, shape⟩ := h.inv
  · exact absurd hclosed.released (by simp [h.released])
  obtain ⟨rfl, rfl⟩ := shape.probing_of_tasks htasks
  -- `sessionUri` has cleared `connectedAtMs` for the session that is probed
  obtain ⟨hcore, -, -, -, -, -, hat⟩ := shape
  rw [workerBody_unreachable (s := { s with tasks := [] }) hcore hat]
  exact ⟨task, task.session, htasks, rfl, rfl, rfl⟩

/-- **Step lemma.**  An unattended step stays in the recovery: nothing but the worker
and the delayed runnables can move, and neither changes what makes it a recovery. -/
theorem recovering_step {a : SessionStep} (h : Recovering s) (ha : a.Unattended)
    (ht : step env s a = some t) : Recovering t := by
  apply h.of_eq ht
  cases a with
  | cancelConnection => exact ha.elim
  | disconnect accepted => exact ha.elim
  | release => exact ha.elim
  | connect raw alloc =>
    obtain ⟨-, rfl⟩ := step_connect.1 ht
    exact recoveryFields_connect env raw alloc s
  | setListener present => exact Option.some.inj ht ▸ rfl
  | work reachable thrown =>
    obtain rfl : reachable = false := ha
    obtain ⟨-, -, -, -, -, hf⟩ := probe_of_recovering h ht
    exact hf
  | nativeSuccess inst =>
    -- the native thread of the lost session has ended
    obtain ⟨hrun, -⟩ := step_nativeSuccess.1 ht
    simp [h.running] at hrun
  | nativeEnd inst failed =>
    obtain ⟨hrun, -⟩ := step_nativeEnd.1 ht
    simp [h.running] at hrun
  | authenticate inst =>
    obtain ⟨hrun, -⟩ := step_authenticate.1 ht
    simp [h.running] at hrun
  | deliver nativeDetail now =>
    obtain ⟨-, cb, rest, hcb, -⟩ := step_deliver.1 ht
    simp [h.callbacks] at hcb
  | fire i alloc =>
    obtain ⟨-, r, -, rfl⟩ := step_fire.1 ht
    exact recoveryFields_runDelayed env alloc _ r
  | runFree =>
    obtain ⟨session, rest, -, rfl⟩ := step_runFree.1 ht
    rfl

theorem not_retriesProbe {a : SessionStep} (h : Recovering s) (ha : a.Unattended)
    (hprobe : a.IsProbe) (ht : step env s a = some t) :
    ¬ s.RetriesProbe a t := by
  cases a with
  | work reachable thrown =>
    obtain rfl : reachable = false := ha
    obtain ⟨task, c, -, hstate, -⟩ := probe_of_recovering h ht
    intro hretry
    obtain ⟨-, hno⟩ := hretry trivial h.attempts.ge (by rw [h.attempts]; decide)
    exact hno _ _ _ hstate
  | _ => exact hprobe.elim

/-- **A recovery keeps retrying exactly as long as it makes no probe.** -/
theorem recovery_retries_iff {env : SessionEnv} {s t : SessionManager} (hs : Reachable env s)
    (hconn : s.state = .connected) (hr : s.released = false)
    (huser : s.userInitiatedDisconnect = false) (nativeDetail : String) (now : ℕ)
    (hloss : s.LossDue nativeDetail) (ht : step env s (.deliver nativeDetail now) = some t)
    (as : List SessionStep) (has : ∀ a ∈ as, a.Unattended) :
    EveryStep (step env) RetriesProbe t as ↔
      EveryStep (step env) (fun _ a _ => ¬ a.IsProbe) t as := by
  have hrec : Recovering t := recovering_of_loss hs.inv hconn hr huser hloss ht
  clear ht
  induction as generalizing t with
  | nil => exact Iff.rfl
  | cons a as ih =>
    have ha : a.Unattended := has a List.mem_cons_self
    refine forall₂_congr fun u hu => ?_
    have hrec' : Recovering u := recovering_step hrec ha hu
    refine and_congr ?_ (ih (fun b hb => has b (List.mem_cons_of_mem a hb)) hrec')
    constructor
    · intro hretry hprobe
      exact not_retriesProbe hrec ha hprobe hu hretry
    · intro hprobe h
      exact absurd h hprobe

/-- A session that was connected, and whose native thread has reported its end. -/
def lostSession : List SessionStep :=
  [.connect deskProfile (some 1), .work true none, .nativeSuccess 1, .deliver "" 5,
    .nativeEnd 1 false]

/-- The recovery of that session waits for its first probe. -/
theorem recovery_retries_lostSession :
    ∃ s t, run (step plainEnv) initial lostSession = some s ∧
      step plainEnv s (.deliver "" 6) = some t ∧
      (EveryStep (step plainEnv) RetriesProbe t [.fire 1 2, .work false none] ↔
        EveryStep (step plainEnv) (fun _ a _ => ¬ a.IsProbe) t [.fire 1 2, .work false none]) := by
  refine ⟨_, _, rfl, rfl, ?_⟩
  refine recovery_retries_iff ⟨lostSession, rfl⟩ rfl rfl rfl "" 6 ?_ rfl _ ?_
  · exact ⟨⟨1, .disconnected⟩, [], rfl, by decide, Or.inr ⟨rfl, by decide⟩⟩
  · simp [SessionStep.Unattended]

/-- **The first failed probe gives up.**  One attempt out of seven is counted, and
the probe ends in `Error(unreachable)` with no reconnect scheduled. -/
theorem first_failed_probe_gives_up :
    ∃ s t task, run (step plainEnv) initial (lostSession ++ [.deliver "" 6, .fire 1 2]) = some s ∧
      s.autoReconnectAttempts = 1 ∧ step plainEnv s (.work false none) = some t ∧
      t.state = unreachableError task ∧ ∀ r ∈ t.runnables, ¬ r.IsReconnect := by
  refine ⟨_, _, _, rfl, rfl, rfl, rfl, ?_⟩
  decide

end SessionManager
