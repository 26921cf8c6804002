/-
# The session manager, one handler at a time

The step relation of the session manager: a user call, a native event, the body
of the worker, a posted callback or a delayed runnable runs from beginning to
end.  A label carries what the environment answers: the handle of a new native
session, the outcome of the TCP probe and of `session.connect`, the native error
text and the clock.  A delayed runnable may run at any time after it was posted,
so the order of two of them is not fixed by their delays.
-/
import XyDeskRemote.SessionManager
import XyDeskRemote.LabelledRun

open LabelledRun Option

/-- Who acts, and what the environment answers. -/
inductive SessionStep where
  /-- The user calls `connect`. -/
  | connect (raw : ConnectionProfile) (alloc : Option Instance)
  /-- The user calls `cancelConnection`. -/
  | cancelConnection
  /-- The user calls `disconnect`. -/
  | disconnect (accepted : Bool)
  /-- The user calls `release`. -/
  | release
  /-- The user interface calls `setListener`. -/
  | setListener (present : Bool)
  /-- The worker runs the next body in its queue. -/
  | work (reachable : Bool) (thrown : Option String)
  /-- The native thread of `inst` reports a connection. -/
  | nativeSuccess (inst : Instance)
  /-- The native thread of `inst` ends with its terminal event. -/
  | nativeEnd (inst : Instance) (failed : Bool)
  /-- The native thread of `inst` asks for credentials. -/
  | authenticate (inst : Instance)
  /-- The main looper runs the next posted callback. -/
  | deliver (nativeDetail : String) (now : ℕ)
  /-- The main looper runs the delayed runnable at position `i`. -/
  | fire (i : ℕ) (alloc : Instance)
  /-- A release daemon runs. -/
  | runFree
  deriving DecidableEq, Repr

namespace SessionStep

/-- The calls of the user. -/
def IsUser : SessionStep → Prop
  | connect _ _ | cancelConnection | disconnect _ | release => True
  | _ => False

/-- The calls by which the user ends the connection. -/
def IsUserStop : SessionStep → Prop
  | cancelConnection | disconnect _ => True
  | _ => False

instance (a : SessionStep) : Decidable a.IsUserStop := by
  cases a <;> simp only [IsUserStop] <;> infer_instance

/-- The terminal event of a native thread. -/
def endEvent (failed : Bool) : NativeEvent := if failed then .failure else .disconnected

end SessionStep

namespace SessionManager

/-- The allocator never returns an address that is still in use; it may come back
after it was freed, and a failed allocation returns 0. -/
def FreshHandle (inst : Instance) (s : SessionManager) : Prop :=
  inst ∉ s.sessionMap ∧ inst ∉ s.running

instance (inst : Instance) (s : SessionManager) : Decidable (s.FreshHandle inst) := by
  unfold FreshHandle; infer_instance

/-- One step. -/
def step (env : SessionEnv) (s : SessionManager) : SessionStep → Option SessionManager
  | .connect raw alloc =>
    if ∀ inst ∈ alloc, s.FreshHandle inst then some (connect env raw alloc s) else none
  | .cancelConnection => some s.cancelConnection
  | .disconnect accepted => some (s.disconnect accepted)
  | .release => some s.release
  | .setListener present => some { s with listener := present }
  | .work reachable thrown =>
    match s.tasks with
    | [] => none
    | task :: rest => some (workerBody task reachable thrown { s with tasks := rest })
  | .nativeSuccess inst =>
    if inst ∈ s.running then some (s.dispatch ⟨inst, .success⟩) else none
  | .nativeEnd inst failed =>
    if inst ∈ s.running then
      some (dispatch ⟨inst, SessionStep.endEvent failed⟩
        { s with running := s.running.filter (· ≠ inst) })
    else none
  | .authenticate inst => if inst ∈ s.running then some (s.onAuthenticate inst) else none
  | .deliver nativeDetail now =>
    if 0 < now then
      match s.callbacks with
      | [] => none
      | cb :: rest => some (runCallback cb nativeDetail now { s with callbacks := rest })
    else none
  | .fire i alloc =>
    if s.FreshHandle alloc then
      match s.runnables[i]? with
      | none => none
      | some r => some (runDelayed env alloc { s with runnables := s.runnables.eraseIdx i } r)
    else none
  | .runFree =>
    match s.frees with
    | [] => none
    | session :: rest => some (freeSession session { s with frees := rest })

/-! ## What each label does -/

section Inversion

variable {env : SessionEnv} {s t : SessionManager}

theorem step_connect {raw : ConnectionProfile} {alloc : Option Instance} :
    step env s (.connect raw alloc) = some t ↔
      (∀ inst ∈ alloc, s.FreshHandle inst) ∧ t = connect env raw alloc s := by
  rw [step, ite_none_right_eq_some, some.injEq, @eq_comm _ t]

theorem step_work {reachable : Bool} {thrown : Option String} :
    step env s (.work reachable thrown) = some t ↔
      ∃ task rest, s.tasks = task :: rest ∧
        t = workerBody task reachable thrown { s with tasks := rest } := by
  simp only [step]
  split <;> simp_all [eq_comm]

theorem step_nativeSuccess {inst : Instance} :
    step env s (.nativeSuccess inst) = some t ↔
      inst ∈ s.running ∧ t = s.dispatch ⟨inst, .success⟩ := by
  rw [step, ite_none_right_eq_some, some.injEq, @eq_comm _ t]

theorem step_nativeEnd {inst : Instance} {failed : Bool} :
    step env s (.nativeEnd inst failed) = some t ↔
      inst ∈ s.running ∧ t = dispatch ⟨inst, SessionStep.endEvent failed⟩
        { s with running := s.running.filter (· ≠ inst) } := by
  rw [step, ite_none_right_eq_some, some.injEq, @eq_comm _ t]

theorem step_authenticate {inst : Instance} :
    step env s (.authenticate inst) = some t ↔
      inst ∈ s.running ∧ t = s.onAuthenticate inst := by
  rw [step, ite_none_right_eq_some, some.injEq, @eq_comm _ t]

theorem step_deliver {nativeDetail : String} {now : ℕ} :
    step env s (.deliver nativeDetail now) = some t ↔
      0 < now ∧ ∃ cb rest, s.callbacks = cb :: rest ∧
        t = runCallback cb nativeDetail now { s with callbacks := rest } := by
  rw [step, ite_none_right_eq_some]
  refine and_congr_right fun _ => ?_
  split <;> simp_all [eq_comm]

theorem step_fire {i : ℕ} {alloc : Instance} :
    step env s (.fire i alloc) = some t ↔
      s.FreshHandle alloc ∧ ∃ r, s.runnables[i]? = some r ∧
        t = runDelayed env alloc { s with runnables := s.runnables.eraseIdx i } r := by
  rw [step, ite_none_right_eq_some]
  refine and_congr_right fun _ => ?_
  cases s.runnables[i]? <;> simp [eq_comm]

theorem step_runFree :
    step env s .runFree = some t ↔
      ∃ session rest, s.frees = session :: rest ∧
        t = freeSession session { s with frees := rest } := by
  simp only [step]
  split <;> simp_all [eq_comm]

end Inversion

/-- An environment that stores the default options for every device and changes
nothing when it resolves them. -/
def plainEnv : SessionEnv where
  normalizeProfile := id
  optionsOf := fun _ => {}
  graphicsFallback := fun _ => false
  resolve := fun _ options => options
  remoteScale := fun _ => 100

/-- A profile to run the manager with. -/
def deskProfile : ConnectionProfile := { host := "desk" }

/-- A manager that was just constructed. -/
def initial : SessionManager := {}

/-- The states a session manager can be in between two handlers. -/
def Reachable (env : SessionEnv) (s : SessionManager) : Prop :=
  LabelledRun.Reachable (step env) initial s

end SessionManager
