/-
# Freeing a native instance

`LibFreeRDP` keeps, in `mInstanceState`, which native instances are in use.  `connect`
marks the instance and starts the native worker; the worker's terminal callback removes the
mark; `freeInstance` waits for that, twelve times for 250 ms at most, and frees the context
only when the mark is gone.  The map is one monitor for all instances: whoever calls
`notifyAll` wakes the `freeInstance` that waits, and a wait that returns counts, however
short it was.

`FreerdpInstance` is one instance `inst` with its `connect`, its worker and its
`freeInstance`; the other instances act on the map and on the monitor.  A `synchronized`
block is one step, cut where it waits.
-/
import XyDeskRemote.LabelledRun
import XyDeskRemote.SessionState
import Mathlib.Data.List.TakeWhile

open LabelledRun Option Or

/-- Where `connect` is: not called, behind its first block, back from a native call that
did not start a worker, or returned. -/
inductive ConnectPc where
  | idle
  | marked
  | refused
  | returned (started : Bool)
  deriving DecidableEq

/-- The native worker; it has ended when its terminal callback has left the monitor. -/
inductive NativePc where
  | absent
  | running
  | ended
  deriving DecidableEq

/-- Where `freeInstance` is: not called, in `wait` since a time, behind the monitor with
the decision to free, or returned. -/
inductive FreePc where
  | notBegun
  | waiting (spins since : ℕ) (notified : Bool)
  | freeing
  | returned
  deriving DecidableEq

/-- What `notifyAll` does to it. -/
def FreePc.notify : FreePc → FreePc
  | .waiting spins since _ => .waiting spins since true
  | pc => pc

/-- The native calls for the instance. -/
inductive NativeCall where
  | connect
  | disconnect
  | free
  deriving DecidableEq

/-- Why a wait returns. -/
inductive WakeCause where
  | notified
  | timedOut
  | spurious
  deriving DecidableEq

/-- What another instance does to the map: `put` of `connect`, `append` of
`OnConnectionSuccess`, or a removal, the last two with `notifyAll`. -/
inductive OtherAct where
  | mark
  | connected
  | unmark
  deriving DecidableEq

/-- The state of the library, as far as `inst` goes. -/
structure FreerdpInstance where
  instanceState : Instance → Bool := fun _ => false
  connect : ConnectPc := .idle
  worker : NativePc := .absent
  freeInstance : FreePc := .notBegun
  calls : List NativeCall := []
  now : ℕ := 0
  waitingFrom : Option ℕ := none
  endedAt : Option ℕ := none

/-- Who acts, and what the system answers. -/
inductive InstanceLabel where
  | connectMark
  | connectNative (started : Bool)
  | connectUnmark
  | disconnect
  | freeBegin
  | wake (cause : WakeCause)
  | interrupted
  | freeNative
  | connectionSuccess
  | terminal
  | other (i : Instance) (act : OtherAct)
  | tick (ms : ℕ)
  deriving DecidableEq

namespace FreerdpInstance

/-- How many waits there are. -/
def maxSpins : ℕ := 12

/-- How long a wait lasts. -/
def waitMs : ℕ := 250

/-- `mInstanceState.put`, `append` and `remove`. -/
def setState (i : Instance) (active : Bool) (s : FreerdpInstance) : FreerdpInstance :=
  { s with instanceState := Function.update s.instanceState i active }

/-- `mInstanceState.notifyAll()`. -/
def notifyAll (s : FreerdpInstance) : FreerdpInstance :=
  { s with freeInstance := s.freeInstance.notify }

/-- A native call. -/
def call (c : NativeCall) (s : FreerdpInstance) : FreerdpInstance :=
  { s with calls := s.calls ++ [c] }

/-- The end of the block of `freeInstance`: the mark is removed by force, or the context
may be freed. -/
def leaveLoop (inst : Instance) (s : FreerdpInstance) : FreerdpInstance :=
  if s.instanceState inst then
    notifyAll { s.setState inst false with freeInstance := .returned }
  else { s with freeInstance := .freeing }

/-- The condition of the loop of `freeInstance`. -/
def checkLoop (inst : Instance) (spins : ℕ) (s : FreerdpInstance) : FreerdpInstance :=
  if s.instanceState inst ∧ spins < maxSpins then
    { s with
      freeInstance := .waiting spins s.now false
      waitingFrom := s.waitingFrom.or (some s.now) }
  else s.leaveLoop inst

/-- `connect` up to the end of its first block. -/
def onConnectMark (inst : Instance) (s : FreerdpInstance) : Option FreerdpInstance :=
  match s.connect with
  | .idle =>
    if s.instanceState inst then some { s with connect := .returned false }
    else some { s.setState inst true with connect := .marked }
  | _ => none

/-- `freerdp_connect`, which starts the worker or not. -/
def onConnectNative (started : Bool) (s : FreerdpInstance) : Option FreerdpInstance :=
  match s.connect with
  | .marked =>
    if started then some { s.call .connect with connect := .returned true, worker := .running }
    else some { s.call .connect with connect := .refused }
  | _ => none

/-- The block of `connect` behind a native call that failed. -/
def onConnectUnmark (inst : Instance) (s : FreerdpInstance) : Option FreerdpInstance :=
  match s.connect with
  | .refused => some { (s.setState inst false).notifyAll with connect := .returned false }
  | _ => none

/-- `disconnect`. -/
def onDisconnect (inst : Instance) (s : FreerdpInstance) : FreerdpInstance :=
  if s.instanceState inst then s.call .disconnect else s

/-- `freeInstance` up to its first wait or to the end of its block; it is called when
`connect` has marked the instance, or later. -/
def onFreeBegin (inst : Instance) (s : FreerdpInstance) : Option FreerdpInstance :=
  match s.connect, s.freeInstance with
  | .idle, _ => none
  | _, .notBegun => some ((s.onDisconnect inst).checkLoop inst 0)
  | _, _ => none

/-- A wait can return for this cause. -/
def MayWake (now since : ℕ) (notified : Bool) : WakeCause → Prop
  | .notified => notified = true
  | .timedOut => since + waitMs ≤ now
  | .spurious => True

instance (now since : ℕ) (notified : Bool) (cause : WakeCause) :
    Decidable (MayWake now since notified cause) := by
  cases cause <;> simp only [MayWake] <;> infer_instance

/-- A wait that returns. -/
def onWake (inst : Instance) (cause : WakeCause) (s : FreerdpInstance) :
    Option FreerdpInstance :=
  match s.freeInstance with
  | .waiting spins since notified =>
    if MayWake s.now since notified cause then some (s.checkLoop inst (spins + 1)) else none
  | _ => none

/-- `wait` throws `InterruptedException`. -/
def onInterrupted (inst : Instance) (s : FreerdpInstance) : Option FreerdpInstance :=
  match s.freeInstance with
  | .waiting _ _ _ => some (s.leaveLoop inst)
  | _ => none

/-- The native free, once the mark is gone. -/
def onFreeNative (s : FreerdpInstance) : Option FreerdpInstance :=
  match s.freeInstance with
  | .freeing => some { s.call .free with freeInstance := .returned }
  | _ => none

/-- The block of `OnConnectionSuccess`. -/
def onConnectionSuccess (inst : Instance) (s : FreerdpInstance) : Option FreerdpInstance :=
  match s.worker with
  | .running => some (s.setState inst true).notifyAll
  | _ => none

/-- The block of `OnConnectionFailure` or `OnDisconnected`. -/
def onTerminal (inst : Instance) (s : FreerdpInstance) : Option FreerdpInstance :=
  match s.worker with
  | .running =>
    some { (s.setState inst false).notifyAll with worker := .ended, endedAt := some s.now }
  | _ => none

/-- What another instance does. -/
def onOther (i : Instance) (s : FreerdpInstance) : OtherAct → FreerdpInstance
  | .mark => s.setState i true
  | .connected => (s.setState i true).notifyAll
  | .unmark => (s.setState i false).notifyAll

/-- A step of one of the threads. -/
def step (inst : Instance) (s : FreerdpInstance) : InstanceLabel → Option FreerdpInstance
  | .connectMark => s.onConnectMark inst
  | .connectNative started => s.onConnectNative started
  | .connectUnmark => s.onConnectUnmark inst
  | .disconnect => some (s.onDisconnect inst)
  | .freeBegin => s.onFreeBegin inst
  | .wake cause => s.onWake inst cause
  | .interrupted => s.onInterrupted inst
  | .freeNative => s.onFreeNative
  | .connectionSuccess => s.onConnectionSuccess inst
  | .terminal => s.onTerminal inst
  | .other i act => if i = inst then none else some (s.onOther i act)
  | .tick ms => some { s with now := s.now + ms }

/-- Nothing is in use. -/
def initial : FreerdpInstance := {}

/-- How often `freerdp_free` was called. -/
def frees (s : FreerdpInstance) : ℕ := s.calls.count .free

/-! ## Never under the worker -/

/-- While a worker runs or may be started, the instance is marked, or `freeInstance` has
given up; the context is freed once at most, and neither then nor when it is about to be is
there a worker. -/
structure Inv (inst : Instance) (s : FreerdpInstance) : Prop where
  idle : s.connect = .idle → s.freeInstance = .notBegun ∧ s.instanceState inst = false
  started : s.worker ≠ .absent ↔ s.connect = .returned true
  active : s.connect = .marked ∨ s.worker = .running →
    s.instanceState inst = true ∨ (s.freeInstance = .returned ∧ s.frees = 0)
  ended : s.worker = .ended → s.instanceState inst = false
  unfreed : s.freeInstance ≠ .returned → s.frees = 0
  once : s.frees ≤ 1
  safe : s.freeInstance = .freeing ∨ 0 < s.frees → s.connect ≠ .marked ∧ s.worker ≠ .running
  spins : ∀ k since notified, s.freeInstance = .waiting k since notified → k < maxSpins

@[simp] theorem frees_call (c : NativeCall) (s : FreerdpInstance) :
    (s.call c).frees = s.frees + [c].count .free := List.count_append

theorem notify_eq_returned {pc : FreePc} : pc.notify = .returned ↔ pc = .returned := by
  cases pc <;> simp [FreePc.notify]

theorem notify_eq_freeing {pc : FreePc} : pc.notify = .freeing ↔ pc = .freeing := by
  cases pc <;> simp [FreePc.notify]

theorem notify_eq_notBegun {pc : FreePc} : pc.notify = .notBegun ↔ pc = .notBegun := by
  cases pc <;> simp [FreePc.notify]

variable {inst : Instance} {s t : FreerdpInstance}

theorem inv_initial : initial.Inv inst := by
  constructor <;> simp [initial, frees]

/-- A notification changes nothing that counts. -/
theorem Inv.notifyAll (h : s.Inv inst) : s.notifyAll.Inv inst := by
  have hreturned : s.notifyAll.freeInstance = .returned ↔ s.freeInstance = .returned :=
    notify_eq_returned
  refine ⟨?_, h.started, ?_, h.ended, ?_, h.once, ?_, ?_⟩
  · intro hconnect
    exact ⟨notify_eq_notBegun.2 (h.idle hconnect).1, (h.idle hconnect).2⟩
  · intro hactive
    rw [hreturned]
    exact h.active hactive
  · intro hfree
    exact h.unfreed (mt hreturned.2 hfree)
  · rintro (hfree | hfree)
    · exact h.safe (inl (notify_eq_freeing.1 hfree))
    · exact h.safe (inr hfree)
  · intro k since notified hfree
    have hpc : s.freeInstance.notify = .waiting k since notified := hfree
    cases hwait : s.freeInstance with
    | waiting k' since' notified' =>
      rw [hwait] at hpc
      cases hpc
      exact h.spins k since notified' hwait
    | _ =>
      rw [hwait] at hpc
      cases hpc

/-- The marks of the other instances do not count. -/
theorem Inv.setState_of_ne (h : s.Inv inst) {i : Instance} (hi : i ≠ inst) (active : Bool) :
    (s.setState i active).Inv inst := by
  have hstate : (s.setState i active).instanceState inst = s.instanceState inst :=
    Function.update_of_ne (Ne.symm hi) ..
  refine ⟨?_, h.started, ?_, ?_, h.unfreed, h.once, h.safe, h.spins⟩
  · rw [hstate]
    exact h.idle
  · rw [hstate]
    exact h.active
  · rw [hstate]
    exact h.ended

/-- Nor does a call that is not `freerdp_free`, nor the clock. -/
theorem Inv.call (h : s.Inv inst) {c : NativeCall} (hc : c ≠ .free) : (s.call c).Inv inst := by
  have hcount : [c].count NativeCall.free = 0 := List.count_eq_zero.2 (by simpa using hc.symm)
  have hfrees : (s.call c).frees = s.frees := by
    rw [frees_call, hcount, Nat.add_zero]
  refine ⟨h.idle, h.started, ?_, h.ended, ?_, ?_, ?_, h.spins⟩
  · rw [hfrees]
    exact h.active
  · rw [hfrees]
    exact h.unfreed
  · rw [hfrees]
    exact h.once
  · rw [hfrees]
    exact h.safe

theorem Inv.onDisconnect (h : s.Inv inst) : (s.onDisconnect inst).Inv inst := by
  rw [FreerdpInstance.onDisconnect]
  split
  · exact h.call (by decide)
  · exact h

@[simp] theorem connect_onDisconnect : (s.onDisconnect inst).connect = s.connect := by
  rw [FreerdpInstance.onDisconnect]
  split <;> rfl

@[simp] theorem freeInstance_onDisconnect :
    (s.onDisconnect inst).freeInstance = s.freeInstance := by
  rw [FreerdpInstance.onDisconnect]
  split <;> rfl

/-- `freeInstance` leaves its block: it gives up, or there is no worker. -/
theorem Inv.leaveLoop (h : s.Inv inst) (hconnect : s.connect ≠ .idle)
    (hfree : s.freeInstance ≠ .returned) : (s.leaveLoop inst).Inv inst := by
  have hfrees := h.unfreed hfree
  rw [FreerdpInstance.leaveLoop]
  split
  · rename_i hmarked
    have hended : s.worker ≠ .ended := by
      intro hworker
      rw [h.ended hworker] at hmarked
      cases hmarked
    refine ⟨fun hidle => absurd hidle hconnect, h.started, fun _ => inr ⟨rfl, hfrees⟩,
      fun hworker => absurd hworker hended, fun hne => absurd rfl hne, h.once, ?_, ?_⟩
    · rintro (hfreeing | hpos)
      · cases hfreeing
      · exact absurd hfrees (Nat.pos_iff_ne_zero.1 hpos)
    · intro k since notified hwait
      cases hwait
  · rename_i hunmarked
    have hquiet : ¬ (s.connect = .marked ∨ s.worker = .running) := by
      intro hactive
      rcases h.active hactive with hmarked | ⟨hreturned, -⟩
      · exact hunmarked hmarked
      · exact hfree hreturned
    rw [not_or] at hquiet
    refine ⟨fun hidle => absurd hidle hconnect, h.started, fun hactive => ?_, h.ended,
      fun _ => hfrees, h.once, fun _ => hquiet, ?_⟩
    · rcases hactive with hmarked | hrunning
      · exact absurd hmarked hquiet.1
      · exact absurd hrunning hquiet.2
    · intro k since notified hwait
      cases hwait

theorem Inv.checkLoop (h : s.Inv inst) (hconnect : s.connect ≠ .idle)
    (hfree : s.freeInstance ≠ .returned) (k : ℕ) : (s.checkLoop inst k).Inv inst := by
  rw [FreerdpInstance.checkLoop]
  split
  · rename_i hloop
    have hfrees := h.unfreed hfree
    refine ⟨fun hidle => absurd hidle hconnect, h.started, fun _ => inl hloop.1, h.ended,
      fun _ => hfrees, h.once, ?_, ?_⟩
    · rintro (hfreeing | hpos)
      · cases hfreeing
      · exact absurd hfrees (Nat.pos_iff_ne_zero.1 hpos)
    · intro k' since notified hwait
      cases hwait
      exact hloop.2
  · exact h.leaveLoop hconnect hfree

theorem inv_connectMark (h : s.Inv inst) (hstep : s.onConnectMark inst = some t) :
    t.Inv inst := by
  rw [onConnectMark] at hstep
  split at hstep
  · rename_i hidle
    obtain ⟨hnotBegun, hunmarked⟩ := h.idle hidle
    have hfrees : s.frees = 0 := h.unfreed (by rw [hnotBegun]; decide)
    have hworker : s.worker = .absent := by
      by_contra hworker
      rw [h.started.1 hworker] at hidle
      cases hidle
    rw [if_neg (by rw [hunmarked]; decide)] at hstep
    obtain rfl := some.inj hstep
    have hmarked : (s.setState inst true).instanceState inst = true := Function.update_self ..
    refine ⟨nofun, ?_, fun _ => inl hmarked, ?_, fun _ => hfrees, h.once, ?_, ?_⟩
    · show s.worker ≠ .absent ↔ ConnectPc.marked = .returned true
      simp [hworker]
    · intro hended
      rw [show s.worker = .ended from hended] at hworker
      cases hworker
    · rintro (hfreeing | hpos)
      · rw [show s.freeInstance = .freeing from hfreeing] at hnotBegun
        cases hnotBegun
      · exact absurd hfrees (Nat.pos_iff_ne_zero.1 hpos)
    · exact h.spins
  · cases hstep

theorem inv_connectNative (h : s.Inv inst) {started : Bool}
    (hstep : s.onConnectNative started = some t) : t.Inv inst := by
  rw [onConnectNative] at hstep
  split at hstep
  · rename_i hmarked
    have hcall := h.call (c := .connect) (by decide)
    have hworker : s.worker = .absent := by
      by_contra hworker
      rw [h.started.1 hworker] at hmarked
      cases hmarked
    have hunsafe : ¬ (s.freeInstance = .freeing ∨ 0 < (s.call .connect).frees) := by
      intro hfree
      exact (hcall.safe hfree).1 hmarked
    have hactive := hcall.active (inl hmarked)
    split at hstep
    · obtain rfl := some.inj hstep
      refine ⟨nofun, ?_, fun _ => hactive, nofun, hcall.unfreed, hcall.once, ?_, hcall.spins⟩
      · exact ⟨fun _ => rfl, nofun⟩
      · intro hfree
        exact absurd hfree hunsafe
    · obtain rfl := some.inj hstep
      refine ⟨nofun, ?_, ?_, ?_, hcall.unfreed, hcall.once, ?_, hcall.spins⟩
      · show s.worker ≠ .absent ↔ ConnectPc.refused = .returned true
        simp [hworker]
      · rintro (hconnect | hrunning)
        · cases hconnect
        · rw [show s.worker = .running from hrunning] at hworker
          cases hworker
      · intro hended
        rw [show s.worker = .ended from hended] at hworker
        cases hworker
      · intro hfree
        exact absurd hfree hunsafe
  · cases hstep

theorem inv_connectUnmark (h : s.Inv inst) (hstep : s.onConnectUnmark inst = some t) :
    t.Inv inst := by
  rw [onConnectUnmark] at hstep
  split at hstep
  · rename_i hrefused
    obtain rfl := some.inj hstep
    have hnotify := h.notifyAll
    have hworker : s.worker = .absent := by
      by_contra hworker
      rw [h.started.1 hworker] at hrefused
      cases hrefused
    refine ⟨nofun, ?_, ?_, fun _ => Function.update_self .., hnotify.unfreed, hnotify.once, ?_,
      hnotify.spins⟩
    · show s.worker ≠ .absent ↔ ConnectPc.returned false = .returned true
      simp [hworker]
    · rintro (hconnect | hrunning)
      · cases hconnect
      · rw [show s.worker = .running from hrunning] at hworker
        cases hworker
    · intro hfree
      exact ⟨nofun, (hnotify.safe hfree).2⟩
  · cases hstep

theorem inv_freeBegin (h : s.Inv inst) (hstep : s.onFreeBegin inst = some t) : t.Inv inst := by
  rw [onFreeBegin] at hstep
  split at hstep
  · cases hstep
  · rename_i hnotBegun hconnect
    obtain rfl := some.inj hstep
    apply h.onDisconnect.checkLoop
    · rw [connect_onDisconnect]
      exact hconnect
    · rw [freeInstance_onDisconnect, hnotBegun]
      decide
  · cases hstep

theorem Inv.connect_ne_idle (h : s.Inv inst) (hfree : s.freeInstance ≠ .notBegun) :
    s.connect ≠ .idle := by
  intro hidle
  exact hfree (h.idle hidle).1

theorem inv_wake (h : s.Inv inst) {cause : WakeCause} (hstep : s.onWake inst cause = some t) :
    t.Inv inst := by
  rw [onWake] at hstep
  split at hstep
  · rename_i hwaiting
    split at hstep
    · obtain rfl := some.inj hstep
      apply h.checkLoop
      · apply h.connect_ne_idle
        rw [hwaiting]
        exact nofun
      · rw [hwaiting]
        exact nofun
    · cases hstep
  · cases hstep

theorem inv_interrupted (h : s.Inv inst) (hstep : s.onInterrupted inst = some t) :
    t.Inv inst := by
  rw [onInterrupted] at hstep
  split at hstep
  · rename_i hwaiting
    obtain rfl := some.inj hstep
    apply h.leaveLoop
    · apply h.connect_ne_idle
      rw [hwaiting]
      exact nofun
    · rw [hwaiting]
      exact nofun
  · cases hstep

theorem inv_freeNative (h : s.Inv inst) (hstep : s.onFreeNative = some t) : t.Inv inst := by
  rw [onFreeNative] at hstep
  split at hstep
  · rename_i hfreeing
    obtain rfl := some.inj hstep
    have hfrees : (s.call .free).frees = 1 := by
      rw [frees_call, h.unfreed (by rw [hfreeing]; decide)]
      rfl
    have hsafe := h.safe (inl hfreeing)
    refine ⟨?_, h.started, ?_, h.ended, fun hne => absurd rfl hne, le_of_eq hfrees,
      fun _ => hsafe, nofun⟩
    · intro hidle
      refine absurd hidle (h.connect_ne_idle ?_)
      rw [hfreeing]
      decide
    · rintro (hmarked | hrunning)
      · exact absurd hmarked hsafe.1
      · exact absurd hrunning hsafe.2
  · cases hstep

theorem inv_connectionSuccess (h : s.Inv inst) (hstep : s.onConnectionSuccess inst = some t) :
    t.Inv inst := by
  rw [onConnectionSuccess] at hstep
  split at hstep
  · rename_i hrunning
    obtain rfl := some.inj hstep
    have hconnect : s.connect = .returned true := h.started.1 (by rw [hrunning]; decide)
    apply Inv.notifyAll
    refine ⟨?_, h.started, fun _ => inl (Function.update_self ..), ?_, h.unfreed, h.once,
      h.safe, h.spins⟩
    · intro hidle
      rw [show s.connect = .idle from hidle] at hconnect
      cases hconnect
    · intro hended
      rw [show s.worker = .ended from hended] at hrunning
      cases hrunning
  · cases hstep

theorem inv_terminal (h : s.Inv inst) (hstep : s.onTerminal inst = some t) : t.Inv inst := by
  rw [onTerminal] at hstep
  split at hstep
  · rename_i hrunning
    obtain rfl := some.inj hstep
    have hconnect : s.connect = .returned true := h.started.1 (by rw [hrunning]; decide)
    have hnotify := h.notifyAll
    refine ⟨?_, ⟨fun _ => hconnect, fun _ => nofun⟩, ?_, fun _ => Function.update_self ..,
      hnotify.unfreed, hnotify.once, ?_, hnotify.spins⟩
    · intro hidle
      rw [show s.connect = .idle from hidle] at hconnect
      cases hconnect
    · rintro (hmarked | hworker)
      · rw [show s.connect = .marked from hmarked] at hconnect
        cases hconnect
      · cases hworker
    · intro hfree
      exact ⟨(hnotify.safe hfree).1, nofun⟩
  · cases hstep

theorem inv_other (h : s.Inv inst) {i : Instance} (hi : i ≠ inst) (act : OtherAct) :
    (s.onOther i act).Inv inst := by
  cases act with
  | mark => exact h.setState_of_ne hi true
  | connected => exact (h.setState_of_ne hi true).notifyAll
  | unmark => exact (h.setState_of_ne hi false).notifyAll

/-- **The step lemma.** -/
theorem inv_step {a : InstanceLabel} (h : s.Inv inst) (hstep : step inst s a = some t) :
    t.Inv inst := by
  cases a with
  | connectMark => exact inv_connectMark h hstep
  | connectNative started => exact inv_connectNative h hstep
  | connectUnmark => exact inv_connectUnmark h hstep
  | disconnect =>
    obtain rfl := some.inj hstep
    exact h.onDisconnect
  | freeBegin => exact inv_freeBegin h hstep
  | wake cause => exact inv_wake h hstep
  | interrupted => exact inv_interrupted h hstep
  | freeNative => exact inv_freeNative h hstep
  | connectionSuccess => exact inv_connectionSuccess h hstep
  | terminal => exact inv_terminal h hstep
  | other i act =>
    rw [step] at hstep
    split at hstep
    · cases hstep
    · rename_i hi
      obtain rfl := some.inj hstep
      exact inv_other h hi act
  | tick ms =>
    obtain rfl := some.inj hstep
    exact ⟨h.idle, h.started, h.active, h.ended, h.unfreed, h.once, h.safe, h.spins⟩

theorem inv_of_run {labels : List InstanceLabel}
    (h : run (step inst) initial labels = some s) : s.Inv inst :=
  run_induct (fun _ _ _ hinv hstep => inv_step hinv hstep) inv_initial h

/-- **The context is never freed under its worker.** -/
theorem worker_ne_running {labels : List InstanceLabel}
    (h : run (step inst) initial labels = some s) (hfree : 0 < s.frees) :
    s.worker ≠ .running :=
  ((inv_of_run h).safe (inr hfree)).2

/-! ## Freed once, if the worker ends early -/

/-- The claim on the context is due: `freeInstance` has returned, and the worker ended
within twelve times 250 ms of its first wait. -/
structure Due (s : FreerdpInstance) : Prop where
  returned : s.freeInstance = .returned
  ended : s.worker = .ended
  inTime : ∀ since, s.waitingFrom = some since → ∀ ended, s.endedAt = some ended →
    ended < since + maxSpins * waitMs

end FreerdpInstance

/-- A wait returns. -/
def InstanceLabel.isWake : InstanceLabel → Bool
  | .wake _ => true
  | _ => false

/-- The labels before the terminal callback. -/
def InstanceLabel.beforeTerminal (labels : List InstanceLabel) : List InstanceLabel :=
  labels.takeWhile (· ≠ .terminal)

/-- Behind `k` waits that returned: before the terminal callback no wait is interrupted,
and not so many return that `freeInstance` gives up. -/
def InstanceLabel.EndsEarly (k : ℕ) (labels : List InstanceLabel) : Prop :=
  k + (beforeTerminal labels).countP isWake < FreerdpInstance.maxSpins ∧
    .interrupted ∉ beforeTerminal labels

namespace InstanceLabel

theorem endsEarly_terminal (k : ℕ) (labels : List InstanceLabel) :
    EndsEarly k (.terminal :: labels) ↔ k < FreerdpInstance.maxSpins := by
  simp [EndsEarly, beforeTerminal]

theorem endsEarly_interrupted (k : ℕ) (labels : List InstanceLabel) :
    ¬ EndsEarly k (.interrupted :: labels) := by
  simp [EndsEarly, beforeTerminal]

theorem endsEarly_wake (k : ℕ) (cause : WakeCause) (labels : List InstanceLabel) :
    EndsEarly k (.wake cause :: labels) ↔ EndsEarly (k + 1) labels := by
  have hbefore : beforeTerminal (.wake cause :: labels) =
      .wake cause :: beforeTerminal labels := rfl
  have hcount : (beforeTerminal (.wake cause :: labels)).countP isWake =
      (beforeTerminal labels).countP isWake + 1 := by
    rw [hbefore]
    exact List.countP_cons_of_pos rfl
  rw [EndsEarly, EndsEarly, hcount, hbefore, List.mem_cons]
  constructor
  · rintro ⟨hlt, hnot⟩
    exact ⟨by omega, fun hmem => hnot (inr hmem)⟩
  · rintro ⟨hlt, hnot⟩
    refine ⟨by omega, ?_⟩
    rintro (heq | hmem)
    · cases heq
    · exact hnot hmem

theorem endsEarly_cons (k : ℕ) {a : InstanceLabel} (labels : List InstanceLabel)
    (hterminal : a ≠ .terminal) (hinterrupted : a ≠ .interrupted) (hwake : a.isWake = false) :
    EndsEarly k (a :: labels) ↔ EndsEarly k labels := by
  have hbefore : beforeTerminal (a :: labels) = a :: beforeTerminal labels :=
    List.takeWhile_cons_of_pos (by simpa using hterminal)
  have hcount : (beforeTerminal (a :: labels)).countP isWake =
      (beforeTerminal labels).countP isWake := by
    rw [hbefore]
    exact List.countP_cons_of_neg (by rw [hwake]; exact Bool.false_ne_true)
  rw [EndsEarly, EndsEarly, hcount, hbefore, List.mem_cons]
  constructor
  · rintro ⟨hlt, hnot⟩
    exact ⟨hlt, fun hmem => hnot (inr hmem)⟩
  · rintro ⟨hlt, hnot⟩
    refine ⟨hlt, ?_⟩
    rintro (heq | hmem)
    · exact hinterrupted heq.symm
    · exact hnot hmem

theorem not_endsEarly_of_le {k : ℕ} (hk : FreerdpInstance.maxSpins ≤ k)
    (labels : List InstanceLabel) : ¬ EndsEarly k labels := by
  rintro ⟨hlt, -⟩
  omega

end InstanceLabel

namespace FreerdpInstance

open InstanceLabel

variable {inst : Instance} {s t : FreerdpInstance}

/-- The context is freed in the end, judged from what `freeInstance` has done so far and
from what is still to happen. -/
def WillBeFreed (s : FreerdpInstance) (labels : List InstanceLabel) : Prop :=
  match s.freeInstance with
  | .notBegun => s.worker = .ended ∨ EndsEarly 0 labels
  | .waiting spins _ _ => s.worker = .ended ∨ EndsEarly spins labels
  | .freeing => True
  | .returned => s.frees = 1

/-- A step that `freeInstance` notices at most as a notification. -/
structure Passive (s t : FreerdpInstance) : Prop where
  freeInstance : t.freeInstance = s.freeInstance ∨ t.freeInstance = s.freeInstance.notify
  worker : t.worker = .ended ↔ s.worker = .ended
  frees : t.frees = s.frees

theorem Passive.willBeFreed_iff (h : Passive s t) {a : InstanceLabel}
    (ha : ∀ k labels, EndsEarly k (a :: labels) ↔ EndsEarly k labels)
    (labels : List InstanceLabel) :
    s.WillBeFreed (a :: labels) ↔ t.WillBeFreed labels := by
  rw [WillBeFreed, WillBeFreed]
  cases hpc : s.freeInstance <;> rcases h.freeInstance with ht | ht <;>
    simp only [ht, hpc, FreePc.notify, ha, h.worker, h.frees]

theorem Inv.marked_or_ended (h : s.Inv inst) (hidle : s.connect ≠ .idle)
    (hrefused : s.connect ≠ .refused) (hfailed : s.connect ≠ .returned false)
    (hfree : s.freeInstance ≠ .returned) :
    s.instanceState inst = true ∧ s.worker ≠ .ended ∨
      s.instanceState inst = false ∧ s.worker = .ended := by
  have hactive : s.connect = .marked ∨ s.worker = .running ∨ s.worker = .ended := by
    cases hconnect : s.connect with
    | idle => exact absurd hconnect hidle
    | marked => exact inl rfl
    | refused => exact absurd hconnect hrefused
    | returned started =>
      cases started with
      | false => exact absurd hconnect hfailed
      | true =>
        have hworker := h.started.2 hconnect
        cases hw : s.worker with
        | absent => exact absurd hw hworker
        | running => exact inr (inl rfl)
        | ended => exact inr (inr rfl)
  have hmarked : s.connect = .marked ∨ s.worker = .running → s.instanceState inst = true := by
    intro hactive
    rcases h.active hactive with hmarked | ⟨hreturned, -⟩
    · exact hmarked
    · exact absurd hreturned hfree
  have hended : s.worker = .ended ∨ s.worker ≠ .ended := em _
  rcases hended with hended | hended
  · exact inr ⟨h.ended hended, hended⟩
  · refine inl ⟨hmarked ?_, hended⟩
    rcases hactive with hconnect | hrunning | hended'
    · exact inl hconnect
    · exact inr hrunning
    · exact absurd hended' hended

/-- A `connect` that did not start a worker has failed for good. -/
def Hopeless (s : FreerdpInstance) : Prop :=
  s.connect = .refused ∨ s.connect = .returned false

theorem Inv.worker_of_hopeless (h : s.Inv inst) (hs : s.Hopeless) : s.worker = .absent := by
  by_contra hworker
  have hconnect := h.started.1 hworker
  rcases hs with hrefused | hfailed
  · rw [hconnect] at hrefused
    cases hrefused
  · rw [hconnect] at hfailed
    cases hfailed

theorem connect_leaveLoop : (s.leaveLoop inst).connect = s.connect := by
  rw [leaveLoop]
  split <;> rfl

theorem connect_checkLoop (k : ℕ) : (s.checkLoop inst k).connect = s.connect := by
  rw [checkLoop]
  split
  · rfl
  · exact connect_leaveLoop

theorem hopeless_step {a : InstanceLabel} (hs : s.Hopeless) (hstep : step inst s a = some t) :
    t.Hopeless := by
  have hkeep : ∀ {u : FreerdpInstance}, u.connect = s.connect → u.Hopeless := by
    intro u hu
    rw [Hopeless, hu]
    exact hs
  have hidle : s.connect ≠ .idle := by
    rcases hs with hrefused | hfailed
    · rw [hrefused]
      exact nofun
    · rw [hfailed]
      exact nofun
  have hmarked : s.connect ≠ .marked := by
    rcases hs with hrefused | hfailed
    · rw [hrefused]
      exact nofun
    · rw [hfailed]
      exact nofun
  cases a with
  | connectMark =>
    rw [step, onConnectMark] at hstep
    split at hstep
    · exact absurd (by assumption) hidle
    · cases hstep
  | connectNative started =>
    rw [step, onConnectNative] at hstep
    split at hstep
    · exact absurd (by assumption) hmarked
    · cases hstep
  | connectUnmark =>
    rw [step, onConnectUnmark] at hstep
    split at hstep
    · obtain rfl := some.inj hstep
      exact inr rfl
    · cases hstep
  | disconnect =>
    obtain rfl := some.inj hstep
    exact hkeep connect_onDisconnect
  | freeBegin =>
    rw [step, onFreeBegin] at hstep
    split at hstep
    · cases hstep
    · obtain rfl := some.inj hstep
      exact hkeep (by rw [connect_checkLoop, connect_onDisconnect])
    · cases hstep
  | wake cause =>
    rw [step, onWake] at hstep
    split at hstep
    · split at hstep
      · obtain rfl := some.inj hstep
        exact hkeep (connect_checkLoop _)
      · cases hstep
    · cases hstep
  | interrupted =>
    rw [step, onInterrupted] at hstep
    split at hstep
    · obtain rfl := some.inj hstep
      exact hkeep connect_leaveLoop
    · cases hstep
  | freeNative =>
    rw [step, onFreeNative] at hstep
    split at hstep
    · obtain rfl := some.inj hstep
      exact hs
    · cases hstep
  | connectionSuccess =>
    rw [step, onConnectionSuccess] at hstep
    split at hstep
    · obtain rfl := some.inj hstep
      exact hs
    · cases hstep
  | terminal =>
    rw [step, onTerminal] at hstep
    split at hstep
    · obtain rfl := some.inj hstep
      exact hs
    · cases hstep
  | other i act =>
    rw [step] at hstep
    split at hstep
    · cases hstep
    · obtain rfl := some.inj hstep
      cases act <;> exact hs
  | tick ms =>
    obtain rfl := some.inj hstep
    exact hs

/-- Where a worker ends, `connect` had not failed. -/
theorem not_hopeless_of_run (h : s.Inv inst) {labels : List InstanceLabel}
    (hrun : run (step inst) s labels = some t) (hended : t.worker = .ended) :
    ¬ s.Hopeless := by
  intro hs
  have hboth : t.Inv inst ∧ t.Hopeless :=
    run_induct (P := fun u => u.Inv inst ∧ u.Hopeless)
      (fun _ _ _ hu hstep => ⟨inv_step hu.1 hstep, hopeless_step hu.2 hstep⟩) ⟨h, hs⟩ hrun
  rw [hboth.1.worker_of_hopeless hboth.2] at hended
  cases hended

/-- Leaving the loop with the mark gives the context up, without it frees it. -/
theorem willBeFreed_leaveLoop (hfrees : s.frees = 0) (labels : List InstanceLabel) :
    (s.leaveLoop inst).WillBeFreed labels ↔ s.instanceState inst = false := by
  rw [leaveLoop]
  split
  · rename_i hmarked
    constructor
    · intro hfreed
      have hone : s.frees = 1 := hfreed
      rw [hfrees] at hone
      cases hone
    · intro hunmarked
      rw [hmarked] at hunmarked
      cases hunmarked
  · rename_i hunmarked
    constructor
    · intro _
      exact Bool.eq_false_iff.2 hunmarked
    · intro _
      exact trivial

theorem willBeFreed_checkLoop (hfrees : s.frees = 0)
    (hmark : s.instanceState inst = true ∧ s.worker ≠ .ended ∨
      s.instanceState inst = false ∧ s.worker = .ended) (k : ℕ) (labels : List InstanceLabel) :
    (s.checkLoop inst k).WillBeFreed labels ↔ s.worker = .ended ∨ EndsEarly k labels := by
  rw [checkLoop]
  split
  · exact Iff.rfl
  · rename_i hloop
    rw [willBeFreed_leaveLoop hfrees]
    rcases hmark with ⟨hmarked, hworker⟩ | ⟨hunmarked, hworker⟩
    · have hspins : maxSpins ≤ k := by
        by_contra hk
        exact hloop ⟨hmarked, by omega⟩
      rw [hmarked]
      constructor
      · intro heq
        cases heq
      · rintro (hended | hearly)
        · exact absurd hended hworker
        · exact absurd hearly (not_endsEarly_of_le hspins labels)
    · rw [hunmarked]
      exact ⟨fun _ => inl hworker, fun _ => rfl⟩

theorem willBeFreed_freeBegin (h : s.Inv inst) (hs : ¬ s.Hopeless)
    (hstep : s.onFreeBegin inst = some t) (labels : List InstanceLabel) :
    s.WillBeFreed (.freeBegin :: labels) ↔ t.WillBeFreed labels := by
  rw [onFreeBegin] at hstep
  rw [Hopeless, not_or] at hs
  split at hstep
  · cases hstep
  · rename_i hnotBegun hidle
    obtain rfl := some.inj hstep
    have hfree : s.freeInstance ≠ .returned := by
      rw [hnotBegun]
      decide
    have hmark := h.marked_or_ended hidle hs.1 hs.2 hfree
    have hcount : (s.onDisconnect inst).frees = 0 := by
      apply h.onDisconnect.unfreed
      rw [freeInstance_onDisconnect]
      exact hfree
    have hworker : (s.onDisconnect inst).worker = s.worker := by
      rw [onDisconnect]
      split <;> rfl
    have hstate : (s.onDisconnect inst).instanceState = s.instanceState := by
      rw [onDisconnect]
      split <;> rfl
    rw [willBeFreed_checkLoop hcount (by rw [hstate, hworker]; exact hmark), hworker,
      WillBeFreed, hnotBegun]
    show s.worker = .ended ∨ EndsEarly 0 (.freeBegin :: labels) ↔ _
    rw [endsEarly_cons 0 labels (by decide) (by decide) rfl]
  · cases hstep

theorem willBeFreed_wake (h : s.Inv inst) (hs : ¬ s.Hopeless) {cause : WakeCause}
    (hstep : s.onWake inst cause = some t) (labels : List InstanceLabel) :
    s.WillBeFreed (.wake cause :: labels) ↔ t.WillBeFreed labels := by
  rw [onWake] at hstep
  rw [Hopeless, not_or] at hs
  split at hstep
  · rename_i k since notified hwaiting
    split at hstep
    · obtain rfl := some.inj hstep
      have hfree : s.freeInstance ≠ .returned := by
        rw [hwaiting]
        exact nofun
      have hidle : s.connect ≠ .idle := h.connect_ne_idle (by rw [hwaiting]; exact nofun)
      have hmark := h.marked_or_ended hidle hs.1 hs.2 hfree
      rw [willBeFreed_checkLoop (h.unfreed hfree) hmark, WillBeFreed, hwaiting]
      show s.worker = .ended ∨ EndsEarly k (.wake cause :: labels) ↔ _
      rw [endsEarly_wake]
    · cases hstep
  · cases hstep

theorem willBeFreed_interrupted (h : s.Inv inst) (hs : ¬ s.Hopeless)
    (hstep : s.onInterrupted inst = some t) (labels : List InstanceLabel) :
    s.WillBeFreed (.interrupted :: labels) ↔ t.WillBeFreed labels := by
  rw [onInterrupted] at hstep
  rw [Hopeless, not_or] at hs
  split at hstep
  · rename_i k since notified hwaiting
    obtain rfl := some.inj hstep
    have hfree : s.freeInstance ≠ .returned := by
      rw [hwaiting]
      exact nofun
    have hidle : s.connect ≠ .idle := h.connect_ne_idle (by rw [hwaiting]; exact nofun)
    rw [willBeFreed_leaveLoop (h.unfreed hfree), WillBeFreed, hwaiting]
    show s.worker = .ended ∨ EndsEarly k (.interrupted :: labels) ↔ _
    rcases h.marked_or_ended hidle hs.1 hs.2 hfree with ⟨hmarked, hworker⟩ | ⟨hunmarked, hworker⟩
    · rw [hmarked]
      constructor
      · rintro (hended | hearly)
        · exact absurd hended hworker
        · exact absurd hearly (endsEarly_interrupted k labels)
      · intro heq
        cases heq
    · exact ⟨fun _ => hunmarked, fun _ => inl hworker⟩
  · cases hstep

theorem willBeFreed_freeNative (h : s.Inv inst) (hstep : s.onFreeNative = some t)
    (labels : List InstanceLabel) :
    s.WillBeFreed (.freeNative :: labels) ↔ t.WillBeFreed labels := by
  rw [onFreeNative] at hstep
  split at hstep
  · rename_i hfreeing
    obtain rfl := some.inj hstep
    have hfrees : (s.call .free).frees = 1 := by
      rw [frees_call, h.unfreed (by rw [hfreeing]; decide)]
      rfl
    rw [WillBeFreed, hfreeing]
    exact ⟨fun _ => hfrees, fun _ => trivial⟩
  · cases hstep

theorem willBeFreed_terminal (h : s.Inv inst) (hstep : s.onTerminal inst = some t)
    (labels : List InstanceLabel) :
    s.WillBeFreed (.terminal :: labels) ↔ t.WillBeFreed labels := by
  rw [onTerminal] at hstep
  split at hstep
  · obtain rfl := some.inj hstep
    rw [WillBeFreed, WillBeFreed]
    show _ ↔ match s.freeInstance.notify with
      | .notBegun => NativePc.ended = .ended ∨ EndsEarly 0 labels
      | .waiting spins _ _ => NativePc.ended = .ended ∨ EndsEarly spins labels
      | .freeing => True
      | .returned => s.frees = 1
    cases hpc : s.freeInstance with
    | notBegun =>
      exact ⟨fun _ => inl rfl, fun _ => inr ((endsEarly_terminal 0 labels).2 (by decide))⟩
    | waiting k since notified =>
      have hk := h.spins k since notified hpc
      exact ⟨fun _ => inl rfl, fun _ => inr ((endsEarly_terminal k labels).2 hk)⟩
    | freeing => exact Iff.rfl
    | returned => exact Iff.rfl
  · cases hstep

theorem passive_onDisconnect : Passive s (s.onDisconnect inst) := by
  refine ⟨inl freeInstance_onDisconnect, ?_, ?_⟩
  · rw [onDisconnect]
    split <;> rfl
  · rw [onDisconnect]
    split
    · rw [frees_call]
      rfl
    · rfl

theorem passive_connectMark (hstep : s.onConnectMark inst = some t) : Passive s t := by
  rw [onConnectMark] at hstep
  split at hstep
  · split at hstep
    · obtain rfl := some.inj hstep
      exact ⟨inl rfl, Iff.rfl, rfl⟩
    · obtain rfl := some.inj hstep
      exact ⟨inl rfl, Iff.rfl, rfl⟩
  · cases hstep

theorem passive_connectNative (h : s.Inv inst) {started : Bool}
    (hstep : s.onConnectNative started = some t) : Passive s t := by
  rw [onConnectNative] at hstep
  split at hstep
  · rename_i hmarked
    have hworker : s.worker ≠ .ended := by
      intro hended
      rw [h.started.1 (by rw [hended]; decide)] at hmarked
      cases hmarked
    have hfrees : (s.call .connect).frees = s.frees := frees_call ..
    split at hstep
    · obtain rfl := some.inj hstep
      exact ⟨inl rfl, ⟨nofun, fun hended => absurd hended hworker⟩, hfrees⟩
    · obtain rfl := some.inj hstep
      exact ⟨inl rfl, Iff.rfl, hfrees⟩
  · cases hstep

theorem passive_connectUnmark (hstep : s.onConnectUnmark inst = some t) : Passive s t := by
  rw [onConnectUnmark] at hstep
  split at hstep
  · obtain rfl := some.inj hstep
    exact ⟨inr rfl, Iff.rfl, rfl⟩
  · cases hstep

theorem passive_connectionSuccess (hstep : s.onConnectionSuccess inst = some t) :
    Passive s t := by
  rw [onConnectionSuccess] at hstep
  split at hstep
  · obtain rfl := some.inj hstep
    exact ⟨inr rfl, Iff.rfl, rfl⟩
  · cases hstep

theorem passive_onOther (i : Instance) (act : OtherAct) : Passive s (s.onOther i act) := by
  cases act with
  | mark => exact ⟨inl rfl, Iff.rfl, rfl⟩
  | connected => exact ⟨inr rfl, Iff.rfl, rfl⟩
  | unmark => exact ⟨inr rfl, Iff.rfl, rfl⟩

/-- **The step lemma.**  While the worker can still end, no step changes the judgement. -/
theorem willBeFreed_step (h : s.Inv inst) (hs : ¬ s.Hopeless) {a : InstanceLabel}
    (hstep : step inst s a = some t) (labels : List InstanceLabel) :
    s.WillBeFreed (a :: labels) ↔ t.WillBeFreed labels := by
  have hpassive : Passive s t → a ≠ .terminal → a ≠ .interrupted → a.isWake = false →
      (s.WillBeFreed (a :: labels) ↔ t.WillBeFreed labels) := by
    intro hpassive hterminal hinterrupted hwake
    exact hpassive.willBeFreed_iff
      (fun k labels => endsEarly_cons k labels hterminal hinterrupted hwake) labels
  cases a with
  | connectMark => exact hpassive (passive_connectMark hstep) nofun nofun rfl
  | connectNative started => exact hpassive (passive_connectNative h hstep) nofun nofun rfl
  | connectUnmark => exact hpassive (passive_connectUnmark hstep) nofun nofun rfl
  | disconnect =>
    obtain rfl := some.inj hstep
    exact hpassive passive_onDisconnect nofun nofun rfl
  | freeBegin => exact willBeFreed_freeBegin h hs hstep labels
  | wake cause => exact willBeFreed_wake h hs hstep labels
  | interrupted => exact willBeFreed_interrupted h hs hstep labels
  | freeNative => exact willBeFreed_freeNative h hstep labels
  | connectionSuccess => exact hpassive (passive_connectionSuccess hstep) nofun nofun rfl
  | terminal => exact willBeFreed_terminal h hstep labels
  | other i act =>
    rw [step] at hstep
    split at hstep
    · cases hstep
    · obtain rfl := some.inj hstep
      exact hpassive (passive_onOther i act) nofun nofun rfl
  | tick ms =>
    obtain rfl := some.inj hstep
    exact hpassive ⟨inl rfl, Iff.rfl, rfl⟩ nofun nofun rfl

/-- The run lemma: the judgement is right. -/
theorem frees_iff_willBeFreed {labels : List InstanceLabel} (h : s.Inv inst)
    (hrun : run (step inst) s labels = some t) (hreturned : t.freeInstance = .returned)
    (hended : t.worker = .ended) : t.frees = 1 ↔ s.WillBeFreed labels := by
  induction labels generalizing s with
  | nil =>
    obtain rfl := some.inj hrun
    rw [WillBeFreed, hreturned]
  | cons a labels ih =>
    have hs := not_hopeless_of_run h hrun hended
    obtain ⟨u, hu, hrest⟩ := run_cons_eq_some.1 hrun
    rw [ih (inv_step h hu) hrest]
    exact (willBeFreed_step h hs hu labels).symm

/-- **Freed once if and only if the worker ends early.**  The context is never freed under
its worker; where the worker ended in time, it is freed exactly once if fewer than twelve
waits had returned before the terminal callback, and none was interrupted, and not at all
otherwise. -/
theorem frees_eq_one_iff {labels : List InstanceLabel} {s : FreerdpInstance}
    (h : run (step inst) initial labels = some s) :
    (0 < s.frees → s.worker ≠ .running) ∧ (s.Due → (s.frees = 1 ↔ EndsEarly 0 labels)) := by
  refine ⟨worker_ne_running h, fun hdue => ?_⟩
  rw [frees_iff_willBeFreed inv_initial h hdue.returned hdue.ended]
  constructor
  · rintro (hended | hearly)
    · cases hended
    · exact hearly
  · exact inr

/-- Twelve notifications of another instance, then the terminal callback, all at once. -/
def crowdedRun : List InstanceLabel :=
  [.connectMark, .connectNative true, .freeBegin] ++
    (List.replicate 12 [.other 7 .connected, .wake .notified]).flatten ++ [.terminal]

/-- A wait of 250 ms, a notification of another instance, and the terminal callback. -/
def quietRun : List InstanceLabel :=
  [.connectMark, .connectNative true, .connectionSuccess, .disconnect, .freeBegin, .tick 250,
    .wake .timedOut, .other 7 .connected, .wake .notified, .terminal, .wake .notified,
    .freeNative]

theorem frees_eq_one_iff_sample :
    ∃ s, run (step 5) initial quietRun = some s ∧ s.frees = 1 ∧ s.Due := by
  obtain ⟨s, hs, hreturned, hended, hfrom, hat⟩ : ∃ s, run (step 5) initial quietRun = some s ∧
      s.freeInstance = .returned ∧ s.worker = .ended ∧ s.waitingFrom = some 0 ∧
      s.endedAt = some 250 := ⟨_, rfl, rfl, rfl, rfl, rfl⟩
  have hdue : s.Due := by
    refine ⟨hreturned, hended, ?_⟩
    intro since hsince ended hat'
    obtain rfl := some.inj (hfrom.symm.trans hsince)
    obtain rfl := some.inj (hat.symm.trans hat')
    decide
  exact ⟨s, hs, ((frees_eq_one_iff hs).2 hdue).2 (by unfold EndsEarly; decide), hdue⟩

/-- **Twelve notifications are enough**: the worker ended at the moment `freeInstance`
began to wait, and the context is never freed. -/
theorem crowded_never_freed :
    ∃ labels s, run (step 5) initial labels = some s ∧ s.Due ∧ s.frees = 0 := by
  refine ⟨crowdedRun, _, rfl, ⟨rfl, rfl, ?_⟩, rfl⟩
  intro since hsince ended hat
  obtain rfl : 0 = since := some.inj hsince
  obtain rfl : 0 = ended := some.inj hat
  decide

end FreerdpInstance
