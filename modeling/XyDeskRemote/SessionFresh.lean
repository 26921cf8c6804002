/-
# What a new connect inherits

A user who calls `connect` on a manager that is at rest starts a course of
automatic attempts: which compatibility stage each session is created with, and
when a reconnect is scheduled.  This file compares the courses of two managers
with different pasts.
-/
import XyDeskRemote.SessionLifecycle
import Mathlib.Data.List.InsertIdx

open LabelledRun DelayedRunnable List Option Or

/-- What the outside sees of a course. -/
inductive CourseEvent where
  | attempt (uri : SessionUri) (compatStage : ℕ)
  | retry (delayMs : ℕ)
  deriving DecidableEq, Repr

/-- The events of a course among the effects. -/
def Effect.course : Effect → Option CourseEvent
  | .createSession session compatStage => some (.attempt session.openUri compatStage)
  | .scheduleReconnect delayMs => some (.retry delayMs)
  | .connectSession _ => none
  | .freeSession _ => none

/-- A session without its serial number, which no code reads. -/
def CoreSession.face (c : CoreSession) : Instance × SessionUri := (c.inst, c.openUri)

/-- A worker task without the serial number of its session. -/
def WorkerTask.face (task : WorkerTask) : (Instance × SessionUri) × ConnectionProfile :=
  (task.session.face, task.profile)

/-- The reconnect a runnable plans, if it plans one. -/
def DelayedRunnable.plan : DelayedRunnable → Option (Option ConnectionProfile × ℕ)
  | .reconnect profile delayMs => some (profile, delayMs)
  | _ => none

namespace SessionManager

/-- The manager is at rest, and free to be used again. -/
structure Quiescent (s : SessionManager) : Prop where
  core : s.core = none
  runnables : s.runnables = []
  released : s.released = false
  state : s.state = .idle ∨ (∃ c m e i, s.state = .error c m e i) ∨
    ∃ d, s.state = .disconnected d

/-- The course so far. -/
def course (s : SessionManager) : List CourseEvent := s.log.filterMap Effect.course

/-- The course of a run, from an empty log. -/
def courseOf (env : SessionEnv) (s : SessionManager) (as : List SessionStep) :
    Option (List CourseEvent) :=
  (run (step env) { s with log := [] } as).map course

/-- After the user's `connect`, whatever the native side answers, the two managers
make the same attempts and the same retries. -/
def SameCourse (env : SessionEnv) (s t : SessionManager) : Prop :=
  ∀ raw alloc as, (∀ a ∈ as, ¬ a.IsUser) →
    courseOf env s (.connect raw alloc :: as) = courseOf env t (.connect raw alloc :: as)

/-- No runnable plans a reconnect. -/
def NoPlan (s : SessionManager) : Prop := ∀ r ∈ s.runnables, r.plan = none

/-! ## Managers that cannot be told apart -/

/-- The two managers will do the same.  The attempts count while `connectedAtMs`
is set only; the intent may differ in the last stage before a success, where
nothing is retried anyway; the profile may differ while nobody is going to use it. -/
structure Alike (s t : SessionManager) : Prop where
  live : s.released = false
  live' : t.released = false
  core : s.core.map CoreSession.face = t.core.map CoreSession.face
  tasks : s.tasks.map WorkerTask.face = t.tasks.map WorkerTask.face
  connectedAtMs : s.connectedAtMs = t.connectedAtMs
  stage : s.compatHandshakeStage = t.compatHandshakeStage
  runnables : s.runnables.map plan = t.runnables.map plan
  callbacks : s.callbacks = t.callbacks
  registered : s.registered = t.registered
  sessionMap : s.sessionMap = t.sessionMap
  running : s.running = t.running
  course : s.course = t.course
  attempts : 0 < s.connectedAtMs → s.autoReconnectAttempts = t.autoReconnectAttempts
  intent : s.userInitiatedDisconnect = t.userInitiatedDisconnect ∨
    (s.compatHandshakeStage = 2 ∧ s.connectedAtMs = 0 ∧ s.NoPlan)
  profile : s.lastProfile = t.lastProfile ∨ (s.core = none ∧ s.NoPlan)

/-- The fields `Alike` reads. -/
def alikeFields (s : SessionManager) :=
  (s.released, s.core, s.tasks, s.connectedAtMs, s.compatHandshakeStage, s.runnables,
    s.callbacks, s.registered, s.sessionMap, s.running, s.log, s.autoReconnectAttempts,
    s.userInitiatedDisconnect, s.lastProfile)

variable {s t : SessionManager}

theorem Alike.of_eq {s' t' : SessionManager} (h : Alike s t) (hs : s'.alikeFields = s.alikeFields)
    (ht : t'.alikeFields = t.alikeFields) :
    Alike s' t' := by
  obtain ⟨h₀, h₀', h₁, h₂, h₃, h₄, h₅, h₆, h₇, h₈, h₉, h₁₀, h₁₁, h₁₂, h₁₃⟩ := h
  simp only [alikeFields, Prod.mk.injEq] at hs ht
  obtain ⟨a₀, a₁, a₂, a₃, a₄, a₅, a₆, a₇, a₈, a₉, a₁₀, a₁₁, a₁₂, a₁₃⟩ := hs
  obtain ⟨b₀, b₁, b₂, b₃, b₄, b₅, b₆, b₇, b₈, b₉, b₁₀, b₁₁, b₁₂, b₁₃⟩ := ht
  constructor <;>
    simpa only [SessionManager.course, NoPlan, a₀, a₁, a₂, a₃, a₄, a₅, a₆, a₇, a₈, a₉, a₁₀, a₁₁,
      a₁₂, a₁₃, b₀, b₁, b₂, b₃, b₄, b₅, b₆, b₇, b₈, b₉, b₁₀, b₁₁, b₁₂, b₁₃]

/-- Two managers between handlers that cannot be told apart. -/
structure SameFuture (s t : SessionManager) : Prop where
  left : Inv s
  right : Inv t
  alike : Alike s t

theorem Alike.core_none (h : Alike s t) :
    s.core = none ↔ t.core = none := by
  rw [← map_eq_none_iff (f := CoreSession.face), h.core, map_eq_none_iff]

variable {c : CoreSession}

theorem Alike.core_some (h : Alike s t) (hc : s.core = some c) :
    ∃ c', t.core = some c' ∧ c.face = c'.face := by
  have hcore := h.core
  rw [hc] at hcore
  cases hc' : t.core with
  | none => simp [hc'] at hcore
  | some c' => exact ⟨c', rfl, by simpa [hc'] using hcore⟩

theorem inst_of_face {c' : CoreSession} (h : c.face = c'.face) : c.inst = c'.inst :=
  congrArg Prod.fst h

/-- The same event is added to both courses. -/
theorem Alike.course_append (h : Alike s t) (e e' : Effect) (he : e.course = e'.course) :
    (s.log ++ [e]).filterMap Effect.course = (t.log ++ [e']).filterMap Effect.course := by
  have hcourse : s.log.filterMap Effect.course = t.log.filterMap Effect.course := h.course
  rw [filterMap_append, filterMap_append, hcourse]
  simp only [filterMap_cons, he]

/-- The cleanup of the current sessions. -/
theorem Alike.freed (h : Alike s t) {c' : CoreSession} (hc : c.face = c'.face) :
    Alike (freed c s) (SessionManager.freed c' t) where
  live := h.live
  live' := h.live'
  core := rfl
  tasks := h.tasks
  connectedAtMs := h.connectedAtMs
  stage := h.stage
  runnables := h.runnables
  callbacks := h.callbacks
  registered := by
    show s.registered.filter (· ≠ c.inst) = t.registered.filter (· ≠ c'.inst)
    rw [h.registered, inst_of_face hc]
  sessionMap := by
    show s.sessionMap.filter (· ≠ c.inst) = t.sessionMap.filter (· ≠ c'.inst)
    rw [h.sessionMap, inst_of_face hc]
  running := h.running
  course := h.course_append (.freeSession c) (.freeSession c') rfl
  attempts := h.attempts
  intent := h.intent
  profile := h.profile.imp_right fun hp => ⟨rfl, hp.2⟩

theorem Alike.scheduleReconnect (h : Alike s t)
    (hintent : s.userInitiatedDisconnect = t.userInitiatedDisconnect)
    (hprof : s.lastProfile = t.lastProfile) (profile : Option ConnectionProfile) (delayMs : ℕ) :
    Alike (SessionManager.scheduleReconnect profile delayMs s)
      (SessionManager.scheduleReconnect profile delayMs t) :=
  { h with
    runnables := by
      show (s.runnables ++ [_]).map plan = (t.runnables ++ [_]).map _
      rw [map_append, map_append, h.runnables]
    course := h.course_append _ _ rfl
    intent := inl hintent
    profile := inl hprof }

theorem NoPlan.postDelayed (h : s.NoPlan) {r : DelayedRunnable} (hr : r.plan = none) :
    (SessionManager.postDelayed r s).NoPlan := by
  intro r' hr'
  rcases mem_append.1 hr' with hmem | hmem
  · exact h r' hmem
  · rw [mem_singleton.1 hmem, hr]

/-- **The start of an attempt.**  What was left in the other fields does not
matter: `connect` writes them before anything reads them. -/
theorem alike_started {env : SessionEnv} (hs : s.released = false) (ht : t.released = false)
    (vs : Shape s .vacant) (vt : Shape t .vacant)
    (hstage : s.compatHandshakeStage = t.compatHandshakeStage)
    (hrun : s.runnables.map plan = t.runnables.map plan)
    (hcourse : s.course = t.course)
    (hintent : s.userInitiatedDisconnect = t.userInitiatedDisconnect ∨
      (s.compatHandshakeStage = 2 ∧ s.NoPlan)) (raw : ConnectionProfile) (inst : Instance) :
    Alike (started env raw inst s) (started env raw inst t) := by
  obtain ⟨-, htasks, hcb, hrunning, hreg, hmap⟩ := vs
  obtain ⟨-, htasks', hcb', hrunning', hreg', hmap'⟩ := vt
  have huri : sessionUri env (normalized env raw) s = sessionUri env (normalized env raw) t := by
    simp only [sessionUri, hstage]
  -- the parts that need an argument: session, task, runnables, maps, course, attempts, intent
  refine ⟨hs, ht, ?_, ?_, rfl, hstage, ?_, hcb.trans hcb'.symm, ?_, ?_,
    hrunning.trans hrunning'.symm, ?_, ?_, ?_, inl rfl⟩
  · show some (_, sessionUri env (normalized env raw) s) = some (_, sessionUri env _ t)
    rw [huri]
  · simp [started, submit, install, startWatchdog, postDelayed, stopWatchdog,
      SessionManager.transition, registerSessionListener, WorkerTask.face, CoreSession.face, huri,
      htasks, htasks']
  · show (s.runnables ++ [_]).map plan = (t.runnables ++ [_]).map _
    rw [map_append, map_append, hrun]
    rfl
  · show inst :: s.registered.filter _ = inst :: t.registered.filter _
    rw [hreg, hreg']
  · show inst :: s.sessionMap = inst :: t.sessionMap
    rw [hmap, hmap']
  · show (s.log ++ [_]).filterMap Effect.course = (t.log ++ [_]).filterMap Effect.course
    rw [filterMap_append, filterMap_append]
    simp only [filterMap_cons, Effect.course, huri, hstage]
    exact congrArg (· ++ _) hcourse
  · intro hpos
    exact absurd hpos (Nat.lt_irrefl 0)
  · refine hintent.imp_right fun h => ⟨h.1, rfl, ?_⟩
    exact NoPlan.postDelayed (s := s) h.2 rfl

/-! ## The handlers, side by side -/

/-- An event of a native thread is dropped by both managers or queued by both. -/
theorem Alike.dispatch (h : Alike s t) (cb : Callback) :
    Alike (s.dispatch cb) (t.dispatch cb) := by
  rw [SessionManager.dispatch, SessionManager.dispatch]
  by_cases hmem : cb.inst ∈ s.registered
  · rw [if_pos hmem, if_pos (h.registered ▸ hmem)]
    exact { h with
      callbacks := by
        show s.callbacks ++ [cb] = t.callbacks ++ [cb]
        rw [h.callbacks] }
  · rw [if_neg hmem, if_neg (h.registered ▸ hmem)]
    exact h

/-- The success of the current session puts both on the same footing. -/
theorem Alike.success (h : Alike s t) (hprof : s.lastProfile = t.lastProfile) (now : ℕ) :
    Alike (successBody now s) (successBody now t) :=
  { h with
    connectedAtMs := rfl
    stage := rfl
    attempts := fun _ => rfl
    intent := inl rfl
    profile := inl hprof }

theorem Alike.profile_of_core (h : Alike s t) (hc : s.core = some c) :
    s.lastProfile = t.lastProfile := by
  rcases h.profile with hp | ⟨hnone, -⟩
  · exact hp
  · rw [hc] at hnone
    exact nomatch hnone

theorem Alike.retryLost (h : Alike s t)
    (hintent : s.userInitiatedDisconnect = t.userInitiatedDisconnect)
    (hprof : s.lastProfile = t.lastProfile) (hpos : 0 < s.connectedAtMs)
    (profile : Option ConnectionProfile) :
    Alike (retryLost profile s) (SessionManager.retryLost profile t) := by
  have h' : Alike
      (transition .connecting { s with autoReconnectAttempts := s.autoReconnectAttempts + 1 })
      (transition .connecting { t with autoReconnectAttempts := t.autoReconnectAttempts + 1 }) :=
    { h with attempts := fun _ => congrArg (· + 1) (h.attempts hpos) }
  exact h'.scheduleReconnect hintent hprof profile 1500

theorem Alike.retriesLost (h : Alike s t) (profile : Option ConnectionProfile) (quiet : Bool) :
    s.RetriesLost profile quiet ↔ t.RetriesLost profile quiet := by
  rcases h.intent with hintent | ⟨-, hat, -⟩
  · simp only [RetriesLost, hintent, h.live, h.live', ← h.connectedAtMs]
    refine and_congr_right fun _ => and_congr_right fun _ => and_congr_right fun _ =>
      and_congr_right fun hpos => ?_
    rw [h.attempts hpos]
  · simp only [RetriesLost, ← h.connectedAtMs, hat, Nat.lt_irrefl, false_and, and_false]

/-- Both managers go to the next compatibility stage, or neither does. -/
theorem Alike.retriesCompat (h : Alike s t) (htcp : s.lastTcpReachable) (htcp' : t.lastTcpReachable)
    (profile : Option ConnectionProfile) (nativeDetail : String) :
    s.RetriesCompat profile nativeDetail ↔ t.RetriesCompat profile nativeDetail := by
  rcases h.intent with hintent | ⟨hstage, -, -⟩
  · simp only [RetriesCompat, hintent, h.live, h.live', htcp, htcp', h.connectedAtMs, h.stage]
  · simp only [RetriesCompat, ← h.stage, hstage, Nat.lt_irrefl, false_and, and_false]

/-- A retry is only decided where the intents agree. -/
theorem Alike.intent_of_retriesLost (h : Alike s t) {profile : Option ConnectionProfile}
    {quiet : Bool} (hl : s.RetriesLost profile quiet) :
    s.userInitiatedDisconnect = t.userInitiatedDisconnect := by
  rcases h.intent with hintent | ⟨-, hat, -⟩
  · exact hintent
  · obtain ⟨-, -, -, hpos, -⟩ := hl
    omega

theorem Alike.intent_of_retriesCompat (h : Alike s t) {profile : Option ConnectionProfile}
    {nativeDetail : String} (hc : s.RetriesCompat profile nativeDetail) :
    s.userInitiatedDisconnect = t.userInitiatedDisconnect := by
  rcases h.intent with hintent | ⟨hstage, -, -⟩
  · exact hintent
  · obtain ⟨-, -, -, -, -, hlt, -⟩ := hc
    omega

/-- The decision after a failed connection. -/
theorem Alike.failureTail (h : Alike s t) (htcp : s.lastTcpReachable) (htcp' : t.lastTcpReachable)
    (hprof : s.lastProfile = t.lastProfile) (inst : Instance) (profile : Option ConnectionProfile)
    (nativeDetail : String) :
    Alike (failureTail inst profile nativeDetail s)
      (SessionManager.failureTail inst profile nativeDetail t) := by
  have hcompat := h.retriesCompat htcp htcp' profile nativeDetail
  have hlost := h.retriesLost profile (!isAuthFailure nativeDetail)
  rw [SessionManager.failureTail, SessionManager.failureTail]
  by_cases hc : s.RetriesCompat profile nativeDetail
  · -- both go on to the next stage, which is not the last one: the intents agree
    rw [if_pos hc, if_pos (hcompat.1 hc)]
    have hintent := h.intent_of_retriesCompat hc
    have h' : Alike
        (transition .connecting { s with compatHandshakeStage := s.compatHandshakeStage + 1 })
        (transition .connecting { t with compatHandshakeStage := t.compatHandshakeStage + 1 }) :=
      { h with
        stage := congrArg (· + 1) h.stage
        intent := inl hintent }
    exact h'.scheduleReconnect hintent hprof profile 450
  · rw [if_neg hc, if_neg (mt hcompat.2 hc)]
    by_cases hl : s.RetriesLost profile (!isAuthFailure nativeDetail)
    · rw [if_pos hl, if_pos (hlost.1 hl)]
      exact h.retryLost (h.intent_of_retriesLost hl) hprof hl.2.2.2.1 profile
    · rw [if_neg hl, if_neg (mt hlost.2 hl)]
      exact h.of_eq rfl rfl

/-- The decision after a lost connection. -/
theorem Alike.disconnectedTail (h : Alike s t) (hprof : s.lastProfile = t.lastProfile)
    (profile : Option ConnectionProfile) (detail : Option String) :
    Alike (disconnectedTail profile detail s)
      (SessionManager.disconnectedTail profile detail t) := by
  have hlost := h.retriesLost profile detail.isNone
  rw [SessionManager.disconnectedTail, SessionManager.disconnectedTail]
  by_cases hl : s.RetriesLost profile detail.isNone
  · rw [if_pos hl, if_pos (hlost.1 hl)]
    exact h.retryLost (h.intent_of_retriesLost hl) hprof hl.2.2.2.1 profile
  · rw [if_neg hl, if_neg (mt hlost.2 hl)]
    exact h.of_eq rfl rfl

/-! ## Steps and runs, side by side -/

section Simulation

variable {env : SessionEnv} {s t : SessionManager}

/-- The worker bodies of two managers that cannot be told apart. -/
theorem SameFuture.work (h : SameFuture s t) {task : WorkerTask} {rest : List WorkerTask}
    (htasks : s.tasks = task :: rest) (reachable : Bool) (thrown : Option String) :
    ∃ task' rest', t.tasks = task' :: rest' ∧
      Alike (workerBody task reachable thrown { s with tasks := rest })
        (workerBody task' reachable thrown { t with tasks := rest' }) := by
  obtain ⟨left, right, alike⟩ := h
  obtain ⟨-, l, shape⟩ := left.shape alike.live
  obtain ⟨-, l', shape'⟩ := right.shape alike.live'
  have hmap := alike.tasks
  rw [htasks] at hmap
  obtain ⟨task', rest', htasks'⟩ : ∃ task' rest', t.tasks = task' :: rest' := by
    cases ht : t.tasks with
    | nil => simp [ht] at hmap
    | cons task' rest' => exact ⟨task', rest', rfl⟩
  -- a queued task is the only one, and its session is the current one
  obtain ⟨rfl, rfl⟩ := shape.probing_of_tasks htasks
  obtain ⟨rfl, rfl⟩ := shape'.probing_of_tasks htasks'
  obtain ⟨hcore, -, -, -, -, -, hat⟩ := shape
  obtain ⟨hcore', -, -, -, -, -, hat'⟩ := shape'
  have hface : task.session.face = task'.session.face := by
    have hfaces : task.face = task'.face := by simpa [htasks'] using hmap
    exact congrArg Prod.fst hfaces
  refine ⟨task', [], htasks', ?_⟩
  have h₀ : Alike { s with tasks := [], lastTcpReachable := reachable }
      { t with tasks := [], lastTcpReachable := reachable } := { alike with tasks := rfl }
  have h₁ : Alike
      { s with tasks := [], lastTcpReachable := reachable,
               log := s.log ++ [.connectSession task.session] }
      { t with tasks := [], lastTcpReachable := reachable,
               log := t.log ++ [.connectSession task'.session] } :=
    { h₀ with course := alike.course_append _ _ rfl }
  cases reachable with
  | false =>
    rw [workerBody_unreachable (s := { s with tasks := [] }) hcore hat,
      workerBody_unreachable (s := { t with tasks := [] }) hcore' hat']
    exact (h₀.freed hface).of_eq rfl rfl
  | true =>
    cases thrown with
    | none =>
      rw [workerBody_started (s := { s with tasks := [] }) hcore alike.live,
        workerBody_started (s := { t with tasks := [] }) hcore' alike.live']
      exact { h₁ with
        running := by
          show task.session.inst :: s.running = task'.session.inst :: t.running
          rw [inst_of_face hface, alike.running] }
    | some message =>
      rw [workerBody_thrown (s := { s with tasks := [] }) hcore alike.live,
        workerBody_thrown (s := { t with tasks := [] }) hcore' alike.live']
      refine Alike.freed ?_ hface
      exact h₁.of_eq rfl rfl

/-- A posted callback runs in two managers that cannot be told apart. -/
theorem SameFuture.deliver (h : SameFuture s t) {cb : Callback} {rest : List Callback}
    (hcb : s.callbacks = cb :: rest) (nativeDetail : String) (now : ℕ) :
    Alike (runCallback cb nativeDetail now { s with callbacks := rest })
      (runCallback cb nativeDetail now { t with callbacks := rest }) := by
  obtain ⟨left, right, alike⟩ := h
  obtain ⟨-, l, shape⟩ := left.shape alike.live
  obtain ⟨-, l', shape'⟩ := right.shape alike.live'
  have htcp := shape.tcp_of_callbacks hcb
  have htcp' := shape'.tcp_of_callbacks (alike.callbacks ▸ hcb)
  obtain ⟨c, hcore, hcase⟩ := shape.callback_cases hcb
  obtain ⟨c', hcore', hface⟩ := alike.core_some hcore
  have hinst : cb.inst = c.inst := by
    rcases hcase with ⟨rfl, -⟩ | ⟨failed, rfl, -⟩ <;> rfl
  have hinst' : cb.inst = c'.inst := hinst.trans (inst_of_face hface)
  set s₀ : SessionManager := { s with callbacks := rest }
  set t₀ : SessionManager := { t with callbacks := rest }
  have h₀ : Alike s₀ t₀ := { alike with callbacks := rfl }
  have hprof : s₀.lastProfile = t₀.lastProfile := alike.profile_of_core hcore
  have hcur : s₀.isCurrent cb.inst := (isCurrent_iff_of_core hcore _).2 hinst.symm
  have hcur' : t₀.isCurrent cb.inst := (isCurrent_iff_of_core hcore' _).2 hinst'.symm
  -- the cleanup of a terminal event, in both
  have hfreed : Alike (freed c s₀.stopWatchdog) (freed c' t₀.stopWatchdog) := by
    refine Alike.freed ?_ hface
    exact h₀.of_eq rfl rfl
  have hclean : cleanupTerminalSession cb.inst s₀.stopWatchdog = freed c s₀.stopWatchdog := by
    rw [hinst]
    exact cleanup_of_core hcore
  have hclean' : cleanupTerminalSession cb.inst t₀.stopWatchdog = freed c' t₀.stopWatchdog := by
    rw [hinst']
    exact cleanup_of_core hcore'
  cases hevent : cb.event with
  | success =>
    simp only [runCallback, hevent, onConnectionSuccess]
    rw [if_pos hcur, if_pos hcur']
    exact h₀.success hprof now
  | failure =>
    simp only [runCallback, hevent, onConnectionFailure]
    rw [if_pos hcur, if_pos hcur', hclean, hclean', hprof]
    exact hfreed.failureTail htcp htcp' hprof _ _ _
  | disconnected =>
    simp only [runCallback, hevent, onDisconnected]
    rw [if_pos hcur, if_pos hcur', hclean, hclean', hprof]
    exact hfreed.disconnectedTail hprof _ _

theorem alikeFields_runDelayed {r : DelayedRunnable} (hr : r.plan = none) (alloc : Instance)
    (s : SessionManager) : (runDelayed env alloc s r).alikeFields = s.alikeFields := by
  cases r with
  | reconnect profile delayMs => exact nomatch hr
  | cancelFallback inst =>
    simp only [runDelayed, cancelFallback]
    split <;> rfl
  | disconnectFallback inst =>
    simp only [runDelayed, disconnectFallback]
    split <;> rfl
  | watchdog inst token =>
    simp only [runDelayed, SessionManager.watchdog]
    split
    · rfl
    · split <;> rfl

theorem eq_reconnect_of_plan {r : DelayedRunnable} {profile : Option ConnectionProfile}
    {delayMs : ℕ} (hr : r.plan = some (profile, delayMs)) : r = .reconnect profile delayMs := by
  cases r with
  | reconnect p d =>
    obtain ⟨rfl, rfl⟩ : p = profile ∧ d = delayMs := by
      simpa [plan] using hr
    rfl
  | _ => exact nomatch hr

/-- A posted reconnect runs in two managers that cannot be told apart. -/
theorem SameFuture.reconnect (h : SameFuture s t)
    (hintent : s.userInitiatedDisconnect = t.userInitiatedDisconnect)
    (hprof : s.lastProfile = t.lastProfile) (profile : Option ConnectionProfile)
    (alloc : Instance) :
    Alike (reconnect env profile alloc s) (SessionManager.reconnect env profile alloc t) := by
  obtain ⟨left, right, alike⟩ := h
  obtain ⟨books, l, shape⟩ := left.shape alike.live
  obtain ⟨books', l', shape'⟩ := right.shape alike.live'
  have hmay : s.mayReconnect ↔ t.mayReconnect := by
    rw [mayReconnect, mayReconnect, alike.live, alike.live', hintent]
  rw [SessionManager.reconnect, SessionManager.reconnect]
  by_cases hs : s.mayReconnect
  · rw [if_pos hs, if_pos (hmay.1 hs), hprof]
    cases profile.or t.lastProfile with
    | none => exact alike
    | some p =>
      show Alike (connect env p (some alloc) s) (connect env p (some alloc) t)
      cases hc : s.core with
      | some c =>
        obtain ⟨c', hc', -⟩ := alike.core_some hc
        rw [connect_of_core hc, connect_of_core hc']
        exact alike
      | none =>
        have hc' := alike.core_none.1 hc
        rw [connect_of_vacant alike.live hc (books.vacant_state hc),
          connect_of_vacant alike.live' hc' (books'.vacant_state hc')]
        exact alike_started alike.live alike.live' (shape.vacant_of_core hc)
          (shape'.vacant_of_core hc') alike.stage alike.runnables alike.course
          (inl hintent) p alloc
  · rw [if_neg hs, if_neg (mt hmay.2 hs)]
    exact alike

/-- A delayed runnable runs in two managers that cannot be told apart. -/
theorem SameFuture.fire (h : SameFuture s t) {i : ℕ} {r : DelayedRunnable}
    (hr : s.runnables[i]? = some r) (alloc : Instance) :
    ∃ r', t.runnables[i]? = some r' ∧
      Alike (runDelayed env alloc { s with runnables := s.runnables.eraseIdx i } r)
        (runDelayed env alloc { t with runnables := t.runnables.eraseIdx i } r') := by
  obtain ⟨left, right, alike⟩ := h
  have hmap : (s.runnables.map plan)[i]? =
      (t.runnables.map plan)[i]? := by rw [alike.runnables]
  obtain ⟨r', hr', hplan⟩ : ∃ r', t.runnables[i]? = some r' ∧ r.plan = r'.plan := by
    rw [getElem?_map, getElem?_map, hr] at hmap
    cases ht : t.runnables[i]? with
    | none => simp [ht] at hmap
    | some r' => exact ⟨r', rfl, by simpa [ht] using hmap⟩
  refine ⟨r', hr', ?_⟩
  have hno : s.NoPlan → NoPlan { s with runnables := s.runnables.eraseIdx i } :=
    fun hno r hmem => hno r (mem_of_mem_eraseIdx hmem)
  have h₀ : Alike { s with runnables := s.runnables.eraseIdx i }
      { t with runnables := t.runnables.eraseIdx i } :=
    { alike with
      runnables := by
        show (s.runnables.eraseIdx i).map _ = (t.runnables.eraseIdx i).map _
        rw [← eraseIdx_map, ← eraseIdx_map, alike.runnables]
      intent := alike.intent.imp_right fun hi => ⟨hi.1, hi.2.1, hno hi.2.2⟩
      profile := alike.profile.imp_right fun hp => ⟨hp.1, hno hp.2⟩ }
  cases hp : r.plan with
  | none =>
    exact h₀.of_eq (alikeFields_runDelayed hp alloc _)
      (alikeFields_runDelayed (hplan.symm.trans hp) alloc _)
  | some plan =>
    obtain ⟨profile, delayMs⟩ := plan
    obtain rfl := eq_reconnect_of_plan hp
    obtain rfl := eq_reconnect_of_plan (hplan.symm.trans hp)
    have hplanned : ¬ s.NoPlan := by
      intro hno'
      have := hno' _ (mem_of_getElem? hr)
      exact nomatch this
    have hintent := alike.intent.resolve_right fun hi => hplanned hi.2.2
    have hprof := alike.profile.resolve_right fun hi => hplanned hi.2
    have hfuture : SameFuture { s with runnables := s.runnables.eraseIdx i }
        { t with runnables := t.runnables.eraseIdx i } :=
      ⟨left.of_eq rfl, right.of_eq rfl, h₀⟩
    exact hfuture.reconnect hintent hprof profile alloc

/-- **Step lemma.**  Whatever a manager does next without the user, one that cannot
be told apart from it does too, and they still cannot be told apart. -/
theorem sameFuture_lockstep :
    Lockstep (step env) (step env) (fun a => ¬ a.IsUser) SameFuture := by
  intro s t a ha h
  obtain ⟨left, right, alike⟩ := id h
  -- both managers take the step, or neither can
  have both : ∀ {s' t' : SessionManager}, step env s a = some s' → step env t a = some t' →
      Alike s' t' → (step env s a = none ∧ step env t a = none) ∨
        ∃ s' t', step env s a = some s' ∧ step env t a = some t' ∧ SameFuture s' t' :=
    fun hs' ht' h' => inr ⟨_, _, hs', ht', inv_step left hs', inv_step right ht', h'⟩
  cases a with
  | connect raw alloc => exact absurd trivial ha
  | cancelConnection => exact absurd trivial ha
  | disconnect accepted => exact absurd trivial ha
  | release => exact absurd trivial ha
  | setListener present => exact both rfl rfl (alike.of_eq rfl rfl)
  | work reachable thrown =>
    cases htasks : s.tasks with
    | nil =>
      have htasks' : t.tasks = [] := by simpa [htasks] using alike.tasks
      exact inl ⟨by simp [step, htasks], by simp [step, htasks']⟩
    | cons task rest =>
      obtain ⟨task', rest', htasks', h'⟩ := h.work htasks reachable thrown
      exact both (step_work.2 ⟨task, rest, htasks, rfl⟩)
        (step_work.2 ⟨task', rest', htasks', rfl⟩) h'
  | nativeSuccess inst =>
    by_cases hrun : inst ∈ s.running
    · exact both (step_nativeSuccess.2 ⟨hrun, rfl⟩)
        (step_nativeSuccess.2 ⟨alike.running ▸ hrun, rfl⟩) (alike.dispatch _)
    · exact inl ⟨if_neg hrun, if_neg (alike.running ▸ hrun)⟩
  | nativeEnd inst failed =>
    by_cases hrun : inst ∈ s.running
    · refine both (step_nativeEnd.2 ⟨hrun, rfl⟩)
        (step_nativeEnd.2 ⟨alike.running ▸ hrun, rfl⟩) (Alike.dispatch ?_ _)
      exact { alike with
        running := by
          show s.running.filter _ = t.running.filter _
          rw [alike.running] }
    · exact inl ⟨if_neg hrun, if_neg (alike.running ▸ hrun)⟩
  | authenticate inst =>
    have same : ∀ u : SessionManager, (u.onAuthenticate inst).alikeFields = u.alikeFields := by
      intro u
      rw [onAuthenticate]
      split <;> rfl
    by_cases hrun : inst ∈ s.running
    · exact both (step_authenticate.2 ⟨hrun, rfl⟩)
        (step_authenticate.2 ⟨alike.running ▸ hrun, rfl⟩) (alike.of_eq (same s) (same t))
    · exact inl ⟨if_neg hrun, if_neg (alike.running ▸ hrun)⟩
  | deliver nativeDetail now =>
    by_cases hnow : 0 < now
    · cases hcb : s.callbacks with
      | nil =>
        have hcb' : t.callbacks = [] := alike.callbacks ▸ hcb
        exact inl ⟨by simp [step, hcb], by simp [step, hcb']⟩
      | cons cb rest =>
        exact both (step_deliver.2 ⟨hnow, cb, rest, hcb, rfl⟩)
          (step_deliver.2 ⟨hnow, cb, rest, alike.callbacks ▸ hcb, rfl⟩)
          (h.deliver hcb nativeDetail now)
    · exact inl ⟨if_neg hnow, if_neg hnow⟩
  | fire i alloc =>
    have hfresh : s.FreshHandle alloc ↔ t.FreshHandle alloc := by
      rw [FreshHandle, FreshHandle, alike.sessionMap, alike.running]
    by_cases hal : s.FreshHandle alloc
    · cases hr : s.runnables[i]? with
      | none =>
        have hr' : t.runnables[i]? = none := by
          have hmap : (s.runnables.map plan)[i]? =
              (t.runnables.map plan)[i]? := by rw [alike.runnables]
          rw [getElem?_map, getElem?_map, hr] at hmap
          exact map_eq_none_iff.1 hmap.symm
        exact inl ⟨by simp [step, hr], by simp [step, hr']⟩
      | some r =>
        obtain ⟨r', hr', h'⟩ := h.fire hr alloc
        exact both (step_fire.2 ⟨hal, r, hr, rfl⟩)
          (step_fire.2 ⟨hfresh.1 hal, r', hr', rfl⟩) h'
    · exact inl ⟨if_neg hal, if_neg (mt hfresh.2 hal)⟩
  | runFree =>
    obtain ⟨books, -⟩ := left.shape alike.live
    obtain ⟨books', -⟩ := right.shape alike.live'
    exact inl ⟨by simp [step, books.frees], by simp [step, books'.frees]⟩

end Simulation

/-! ## Managers at rest -/

section Rest

variable {env : SessionEnv} {s t : SessionManager}

/-- A manager at rest, with its log cleared, has nothing on the way. -/
theorem Quiescent.vacant (q : s.Quiescent) (hs : Inv s) :
    Books { s with log := [] } ∧ Shape { s with log := [] } .vacant := by
  obtain ⟨books, l, shape⟩ := hs.shape q.released
  exact ⟨books.congr rfl, shape_congr (shape.vacant_of_core q.core) rfl⟩

theorem Quiescent.noPlan (q : s.Quiescent) : NoPlan { s with log := [] } := by
  intro r hr
  have hnil : r ∈ s.runnables := hr
  rw [q.runnables] at hnil
  exact nomatch hnil

theorem Shape.freshHandle (v : Shape s .vacant) (inst : Instance) : s.FreshHandle inst := by
  obtain ⟨-, -, -, hrun, -, hmap⟩ := v
  simp [FreshHandle, hrun, hmap]

/-- A vacant manager accepts every connect of the user. -/
theorem step_connect_of_vacant (v : Shape s .vacant) (raw : ConnectionProfile)
    (alloc : Option Instance) :
    step env s (.connect raw alloc) = some (connect env raw alloc s) :=
  step_connect.2 ⟨fun inst _ => v.freshHandle inst, rfl⟩

/-- **Agreement of the two fields is enough**: the courses are the same. -/
theorem sameCourse_of_eq (hs : Inv s) (ht : Inv t) (qs : s.Quiescent) (qt : t.Quiescent)
    (hstage : s.compatHandshakeStage = t.compatHandshakeStage)
    (hintent : s.userInitiatedDisconnect = t.userInitiatedDisconnect ∨
      s.compatHandshakeStage = 2) : SameCourse env s t := by
  intro raw alloc as has
  obtain ⟨books, shape⟩ := qs.vacant hs
  obtain ⟨books', shape'⟩ := qt.vacant ht
  have hnp := qs.noPlan
  have hrun : s.runnables.map plan = t.runnables.map plan := by
    rw [qs.runnables, qt.runnables]
  have hs₀ : Inv { s with log := [] } := hs.of_eq rfl
  have ht₀ : Inv { t with log := [] } := ht.of_eq rfl
  rw [courseOf, courseOf, run_cons, run_cons]
  set s₀ : SessionManager := { s with log := [] }
  set t₀ : SessionManager := { t with log := [] }
  have hstep : step env s₀ (.connect raw alloc) = some (connect env raw alloc s₀) :=
    step_connect_of_vacant shape raw alloc
  have hstep' : step env t₀ (.connect raw alloc) = some (connect env raw alloc t₀) :=
    step_connect_of_vacant shape' raw alloc
  have halike : Alike (connect env raw alloc s₀) (connect env raw alloc t₀) := by
    rw [connect_of_vacant (s := s₀) qs.released qs.core (books.vacant_state qs.core),
      connect_of_vacant (s := t₀) qt.released qt.core (books'.vacant_state qt.core)]
    cases alloc with
    | none =>
      obtain ⟨hcore, htasks, hcb, hrunning, hreg, hmap⟩ := shape
      obtain ⟨hcore', htasks', hcb', hrunning', hreg', hmap'⟩ := shape'
      exact {
        live := qs.released
        live' := qt.released
        core := by simp only [hcore, hcore', map_none]
        tasks := by simp only [htasks, htasks']
        connectedAtMs := rfl
        stage := hstage
        runnables := hrun
        callbacks := hcb.trans hcb'.symm
        registered := hreg.trans hreg'.symm
        sessionMap := hmap.trans hmap'.symm
        running := hrunning.trans hrunning'.symm
        course := rfl
        attempts := fun hpos => absurd hpos (Nat.lt_irrefl 0)
        intent := hintent.imp_right fun h2 => ⟨h2, rfl, hnp⟩
        profile := inr ⟨hcore, hnp⟩ }
    | some inst =>
      exact alike_started (s := s₀) (t := t₀) qs.released qt.released shape shape' hstage
        hrun rfl (hintent.imp_right fun h2 => ⟨h2, hnp⟩) raw inst
  have hfuture : SameFuture (connect env raw alloc s₀) (connect env raw alloc t₀) :=
    ⟨inv_step hs₀ hstep, inv_step ht₀ hstep', halike⟩
  rw [hstep, hstep', bind_some, bind_some]
  rcases run_lockstep sameFuture_lockstep hfuture as has with ⟨hn, hn'⟩ | ⟨u, u', hu, hu', h⟩
  · rw [hn, hn']
  · rw [hu, hu', map_some, map_some, h.alike.course]

/-- A handshake that fails after a good probe. -/
def failedHandshake : List SessionStep :=
  [.work true none, .nativeEnd 1 true, .deliver "" 1]

/-- A vacant manager accepts a connect, and makes its attempt in the stage it has. -/
theorem step_connect_vacant (hr : s.released = false) (books : Books s) (v : Shape s .vacant)
    (raw : ConnectionProfile) :
    step env s (.connect raw (some 1)) = some (started env raw 1 s) := by
  rw [step_connect_of_vacant v, connect_of_vacant hr v.1 (books.vacant_state v.1)]

/-- The attempt a vacant manager starts. -/
def attemptOf (env : SessionEnv) (raw : ConnectionProfile) (s : SessionManager) : CourseEvent :=
  .attempt (sessionUri env (normalized env raw) s) s.compatHandshakeStage

theorem course_started (raw : ConnectionProfile) (inst : Instance) :
    (started env raw inst s).course = s.course ++ [attemptOf env raw s] := by
  show (s.log ++ [_]).filterMap Effect.course = _
  rw [filterMap_append]
  rfl

/-- What `onConnectionFailure` adds to the course of a first handshake: it is tried
again unless the stage is the last one or the user's old intent still stands. -/
theorem course_failureTail (hr : s.released = false) (hat : s.connectedAtMs = 0)
    (htcp : s.lastTcpReachable) (inst : Instance) (p : ConnectionProfile) :
    (failureTail inst (some p) "" s).course = s.course ++
      if s.userInitiatedDisconnect = false ∧ s.compatHandshakeStage < 2 then [.retry 450]
      else [] := by
  have hauth : isAuthFailure "" = false := by decide
  have hcompat : s.RetriesCompat (some p) "" ↔
      s.userInitiatedDisconnect = false ∧ s.compatHandshakeStage < 2 := by
    simp [RetriesCompat, hr, hauth, hat, htcp]
  have hlost : ¬ s.RetriesLost (some p) (!isAuthFailure "") := by
    rintro ⟨-, -, -, hpos, -⟩
    omega
  rw [failureTail, if_neg hlost]
  by_cases hc : s.RetriesCompat (some p) ""
  · rw [if_pos hc, if_pos (hcompat.1 hc)]
    show (s.log ++ [_]).filterMap Effect.course = _
    rw [filterMap_append]
    rfl
  · rw [if_neg hc, if_neg (mt hcompat.2 hc), append_nil]
    rfl

/-- **A first handshake that fails**, from any vacant manager. -/
theorem run_failedHandshake (env : SessionEnv) (hr : s.released = false) (books : Books s)
    (v : Shape s .vacant) (raw : ConnectionProfile) :
    ∃ u, run (step env) s (.connect raw (some 1) :: failedHandshake) = some u ∧
      u.course = s.course ++ [attemptOf env raw s] ++
        if s.userInitiatedDisconnect = false ∧ s.compatHandshakeStage < 2 then [.retry 450]
        else [] := by
  have h₁ : step env s (.connect raw (some 1)) = some (started env raw 1 s) :=
    step_connect_vacant hr books v raw
  obtain ⟨-, htasks, hcb, hrun, -, -⟩ := v
  set task := (install env (normalized env raw) 1 s).2
  set s₁ : SessionManager := started env raw 1 s
  have htasks₁ : s₁.tasks = [task] := by
    show s.tasks ++ [task] = [task]
    rw [htasks, nil_append]
  -- the probe succeeds and the native thread runs
  set s₂ : SessionManager := { s₁ with
    tasks := [], lastTcpReachable := true
    log := s₁.log ++ [.connectSession task.session], running := 1 :: s₁.running } with hs₂
  have hstarted : workerBody task true none { s₁ with tasks := [] } = s₂ :=
    workerBody_started (s := { s₁ with tasks := [] }) rfl hr
  have h₂ : step env s₁ (.work true none) = some s₂ :=
    step_work.2 ⟨task, [], htasks₁, hstarted.symm⟩
  -- it ends with a failure
  set s₃ : SessionManager := { s₂ with
    running := s₂.running.filter (· ≠ 1), callbacks := s₂.callbacks ++ [⟨1, .failure⟩] }
  have hmem : (1 : Instance) ∈ s₁.registered := mem_cons_self
  have h₃ : step env s₂ (.nativeEnd 1 true) = some s₃ := by
    refine step_nativeEnd.2 ⟨mem_cons_self, ?_⟩
    rw [dispatch_of_mem (by exact hmem)]
    rfl
  have hcb₃ : s₃.callbacks = [⟨1, .failure⟩] := by
    show s.callbacks ++ [_] = _
    rw [hcb, nil_append]
  -- the failure is delivered
  set s₄ : SessionManager := { s₃ with callbacks := [] }
  have h₄ : step env s₃ (.deliver "" 1) = some (onConnectionFailure 1 "" s₄) :=
    step_deliver.2 ⟨Nat.one_pos, _, [], hcb₃, rfl⟩
  have hfail : onConnectionFailure 1 "" s₄ =
      failureTail 1 s₄.lastProfile "" (freed task.session s₄.stopWatchdog) := by
    have hcur : s₄.isCurrent 1 := (isCurrent_iff_of_core (c := task.session) rfl 1).2 rfl
    have hclean : cleanupTerminalSession 1 s₄.stopWatchdog =
        freed task.session s₄.stopWatchdog :=
      cleanup_of_core (s := s₄.stopWatchdog) (c := task.session) rfl
    rw [onConnectionFailure, if_pos hcur, hclean]
  refine ⟨onConnectionFailure 1 "" s₄, ?_, ?_⟩
  · rw [failedHandshake, run_cons, h₁, bind_some, run_cons, h₂, bind_some, run_cons,
      h₃, bind_some, run_cons, h₄]
    rfl
  · have hcourse : (freed task.session s₄.stopWatchdog).course = s₁.course := by
      show ((s₁.log ++ [_]) ++ [_]).filterMap Effect.course = _
      rw [filterMap_append, filterMap_append]
      simp only [filterMap_cons, Effect.course, filterMap_nil, append_nil]
      rfl
    have hprof : s₄.lastProfile = some (normalized env raw) := rfl
    rw [hfail, hprof, course_failureTail (s := freed task.session s₄.stopWatchdog) hr rfl rfl,
      hcourse, course_started]
    rfl

/-- The courses of two managers are the same only if their stages are. -/
theorem stage_of_sameCourse (hs : Inv s) (ht : Inv t) (qs : s.Quiescent) (qt : t.Quiescent)
    (h : SameCourse env s t) : s.compatHandshakeStage = t.compatHandshakeStage := by
  have first : ∀ {u : SessionManager}, Inv u → u.Quiescent → ∃ uri,
      courseOf env u [.connect deskProfile (some 1)] =
        some [.attempt uri u.compatHandshakeStage] := by
    intro u hu qu
    obtain ⟨books, v⟩ := qu.vacant hu
    refine ⟨sessionUri env (normalized env deskProfile) { u with log := [] }, ?_⟩
    rw [courseOf, run_cons, step_connect_vacant (s := { u with log := [] }) qu.released books v,
      bind_some, run_nil, map_some, course_started]
    rfl
  obtain ⟨uri, hcs⟩ := first hs qs
  obtain ⟨uri', hct⟩ := first ht qt
  have heq := h deskProfile (some 1) [] (by simp)
  rw [hcs, hct] at heq
  simpa using congrArg (Option.map (List.map fun
    | .attempt _ stage => stage
    | .retry _ => 0)) heq

theorem intent_of_sameCourse (hs : Inv s) (ht : Inv t) (qs : s.Quiescent) (qt : t.Quiescent)
    (h : SameCourse env s t) : s.userInitiatedDisconnect = t.userInitiatedDisconnect ∨
      s.compatHandshakeStage = 2 := by
  have hstage := stage_of_sameCourse hs ht qs qt h
  obtain ⟨books, v⟩ := qs.vacant hs
  obtain ⟨books', v'⟩ := qt.vacant ht
  have hle : s.compatHandshakeStage ≤ 2 := books.stage_le
  by_cases h2 : s.compatHandshakeStage = 2
  · exact inr h2
  left
  have hlt : s.compatHandshakeStage < 2 := by omega
  have heq := h deskProfile (some 1) failedHandshake (by simp [failedHandshake, SessionStep.IsUser])
  obtain ⟨u, hu, hcu⟩ := run_failedHandshake env (s := { s with log := [] }) qs.released books
    v deskProfile
  obtain ⟨w, hw, hcw⟩ := run_failedHandshake env (s := { t with log := [] }) qt.released books'
    v' deskProfile
  rw [courseOf, courseOf, hu, hw, map_some, map_some, hcu, hcw] at heq
  -- the courses differ in length when one manager retries and the other does not
  have hlen := congrArg (Option.map List.length) heq
  simp only [map_some, length_append, hlt, ← hstage, and_true] at hlen
  cases hus : s.userInitiatedDisconnect <;> cases hut : t.userInitiatedDisconnect <;>
    simp_all [SessionManager.course]

end Rest

/-! ## The courses of two managers -/

theorem quiescent_initial : initial.Quiescent := ⟨rfl, rfl, rfl, inl rfl⟩

/-- **What a new connect inherits.**  Two managers at rest make the same course
exactly when they agree on the stage, and on the old intent of the user where it
still matters; and it is the course of a new manager exactly when nothing of the
two is left. -/
theorem course_iff {env : SessionEnv} {s t : SessionManager} (hs : Reachable env s)
    (ht : Reachable env t) (qs : s.Quiescent) (qt : t.Quiescent) :
    (SameCourse env s t ↔ s.compatHandshakeStage = t.compatHandshakeStage ∧
      (s.userInitiatedDisconnect = t.userInitiatedDisconnect ∨ s.compatHandshakeStage = 2)) ∧
    (SameCourse env s initial ↔
      s.compatHandshakeStage = 0 ∧ s.userInitiatedDisconnect = false) := by
  have exact_for : ∀ {u : SessionManager}, Inv u → u.Quiescent →
      (SameCourse env s u ↔ s.compatHandshakeStage = u.compatHandshakeStage ∧
        (s.userInitiatedDisconnect = u.userInitiatedDisconnect ∨ s.compatHandshakeStage = 2)) := by
    intro u hu qu
    constructor
    · intro h
      exact ⟨stage_of_sameCourse hs.inv hu qs qu h, intent_of_sameCourse hs.inv hu qs qu h⟩
    · rintro ⟨hstage, hintent⟩
      exact sameCourse_of_eq hs.inv hu qs qu hstage hintent
  refine ⟨exact_for ht.inv qt, (exact_for inv_initial quiescent_initial).trans ?_⟩
  show s.compatHandshakeStage = 0 ∧ (s.userInitiatedDisconnect = false ∨ _) ↔ _
  refine and_congr_right fun h0 => ?_
  rw [h0]
  simp

/-- A handshake fails after a good probe, and the network is gone when the
compatibility retry probes; the two watchdogs run out last. -/
def retryUnreachable : List SessionStep :=
  [.connect deskProfile (some 1), .work true none, .nativeEnd 1 true, .deliver "" 1,
    .fire 1 2, .work false none, .fire 0 3, .fire 0 3]

/-- The URI of the desk in a compatibility stage. -/
def deskUri (compatStage : ℕ) : SessionUri :=
  { profile := deskProfile, options := RdpOptions.compat {} compatStage }

/-- What that run leaves: an error, and stage 1. -/
def leftInStageOne : SessionManager where
  state := unreachableError ⟨⟨1, 2, deskUri 1⟩, deskProfile⟩
  lastProfile := some deskProfile
  compatHandshakeStage := 1
  watchdogToken := 5
  created := 2
  log := [.createSession ⟨0, 1, deskUri 0⟩ 0, .connectSession ⟨0, 1, deskUri 0⟩,
    .freeSession ⟨0, 1, deskUri 0⟩, .scheduleReconnect 450,
    .createSession ⟨1, 2, deskUri 1⟩ 1, .freeSession ⟨1, 2, deskUri 1⟩]

theorem reachable_leftInStageOne : Reachable plainEnv leftInStageOne := ⟨retryUnreachable, rfl⟩

theorem quiescent_leftInStageOne : leftInStageOne.Quiescent :=
  ⟨rfl, rfl, rfl, inr (inl ⟨_, _, _, _, rfl⟩)⟩

/-- The exact condition, for the manager that run leaves and a new one. -/
theorem course_iff_leftInStageOne :
    (SameCourse plainEnv leftInStageOne initial ↔
      (1 : ℕ) = 0 ∧ (false = false ∨ (1 : ℕ) = 2)) ∧
    (SameCourse plainEnv leftInStageOne initial ↔ (1 : ℕ) = 0 ∧ false = false) :=
  course_iff reachable_leftInStageOne ⟨[], rfl⟩ quiescent_leftInStageOne quiescent_initial

/-- **A connect does inherit.**  The next connect of the user starts in stage 1,
where a new manager starts in stage 0. -/
theorem stage_is_inherited :
    Reachable plainEnv leftInStageOne ∧ leftInStageOne.Quiescent ∧
      courseOf plainEnv leftInStageOne [.connect deskProfile (some 3)] =
        some [.attempt (deskUri 1) 1] ∧
      courseOf plainEnv initial [.connect deskProfile (some 3)] =
        some [.attempt (deskUri 0) 0] ∧
      ¬ SameCourse plainEnv leftInStageOne initial := by
  refine ⟨reachable_leftInStageOne, quiescent_leftInStageOne, rfl, rfl, fun h => ?_⟩
  have hfirst := h deskProfile (some 3) [] (by simp)
  exact absurd hfirst (by decide)

end SessionManager
