/-
# The session loop and its wake-up

The thread of the session waits for the event object of the input queue and then runs
`android_check_handle`: it looks whether the object is signalled, resets it, and pops and
processes events until there is none.  The reset stands outside the lock of the queue, and
between any two of these steps other threads may push.

`InputLoop` is the traffic of `AndroidEventQueue.lean` together with the place the session
is at.  `ResetEvent` is the loop of reads it is in the library: a read takes the signal
away, and the loop ends when there was nothing to read.
-/
import XyDeskRemote.AndroidEventQueue

open LabelledRun InputTraffic Option

/-- Where the session is: outside `android_check_handle`, in `ResetEvent` before or after a
read that took the signal, or at the pops. -/
inductive ConsumerPc where
  | outside
  | resetting (taken : Bool)
  | draining
  deriving DecidableEq

/-- The traffic, and where the session is. -/
structure InputLoop where
  traffic : InputTraffic
  consumer : ConsumerPc := .outside
  deriving DecidableEq

/-- Who acts, and what the system answers. -/
inductive LoopLabel where
  | push (event : AndroidEvent) (allocated signalled : Bool)
  | wait (failed : Bool)
  | read
  | resetFails
  | pop
  | process (clipboard cliprdr : Bool)
  deriving DecidableEq

namespace InputLoop

/-- The signal of the queue is taken away. -/
def takeSignal (s : InputLoop) (q : AndroidEventQueue) : InputLoop :=
  { traffic := { s.traffic with queue := some { q with isSet := false } }
    consumer := .resetting true }

/-- `WaitForSingleObject(isSet, 0)`. -/
def onWait (s : InputLoop) (failed : Bool) : Option InputLoop :=
  match s.consumer, s.traffic.queue with
  | .outside, some q =>
    if q.isSet ∧ ¬ failed then some { s with consumer := .resetting false } else some s
  | .outside, none => some s
  | _, _ => none

/-- A read of `ResetEvent`. -/
def onRead (s : InputLoop) : Option InputLoop :=
  match s.consumer, s.traffic.queue with
  | .resetting _, some q =>
    if q.isSet then some (s.takeSignal q) else some { s with consumer := .draining }
  | _, _ => none

/-- `ResetEvent` fails at its first read, and `android_check_handle` returns. -/
def onResetFails (s : InputLoop) : Option InputLoop :=
  match s.consumer with
  | .resetting false => some { s with consumer := .outside }
  | _ => none

/-- `android_pop_event`; without an event the loop ends, and so does
`android_check_handle`. -/
def onPop (s : InputLoop) : Option InputLoop :=
  match s.consumer with
  | .draining =>
    s.traffic.onPop.map fun traffic =>
      { traffic := traffic
        consumer := if traffic.processing.isSome then .draining else .outside }
  | _ => none

/-- A step of the threads. -/
def step (w : WordSize) (s : InputLoop) : LoopLabel → Option InputLoop
  | .push event allocated signalled =>
    some { s with traffic := s.traffic.onPush w event allocated signalled }
  | .wait failed => s.onWait failed
  | .read => s.onRead
  | .resetFails => s.onResetFails
  | .pop => s.onPop
  | .process clipboard cliprdr =>
    (s.traffic.onProcess clipboard cliprdr).map fun traffic => { s with traffic := traffic }

/-- A new queue. -/
def initial : InputLoop := { traffic := InputTraffic.initial }

/-! ## The signal -/

/-- Whatever waits is signalled. -/
def Signalled (t : InputTraffic) : Prop :=
  ∀ q, t.queue = some q → t.waiting ≠ [] → q.isSet = true

/-- The traffic is a queue's, and outside of `android_check_handle`, or before the signal
is taken, whatever waits is signalled. -/
structure Inv (s : InputLoop) : Prop where
  traffic : s.traffic.Inv
  signalled : s.consumer = .outside ∨ s.consumer = .resetting false → Signalled s.traffic

variable {w : WordSize} {s t : InputLoop}

theorem inv_initial : initial.Inv := by
  refine ⟨InputTraffic.inv_initial, ?_⟩
  intro _ q hq hwaiting
  exact absurd (InputTraffic.waiting_of_holds rfl (RingBuffer.Holds.alloc (by decide))) hwaiting

/-- A push leaves what waits signalled: it signals, or it changes nothing. -/
theorem signalled_onPush {s : InputTraffic} (hinv : s.Inv) (h : Signalled s) (e : AndroidEvent)
    (allocated signalled : Bool) : Signalled (s.onPush w e allocated signalled) := by
  rw [onPush]
  split
  · exact h
  · rename_i q hq
    have hspec := AndroidEventQueue.androidPushEvent_spec (w := w) (e := e) (hinv.holds q hq)
      allocated signalled
    intro q' hq' hwaiting
    obtain rfl := some.inj hq'
    cases hspec with
    | success hpush hholds hset hsuccess hfreed => exact hset
    | failure hholds hset hsuccess hfreed =>
      rw [hset]
      apply h q hq
      rwa [InputTraffic.waiting_of_holds rfl hholds] at hwaiting

theorem inv_push (h : s.Inv) (e : AndroidEvent) (allocated signalled : Bool) :
    Inv { s with traffic := s.traffic.onPush w e allocated signalled } := by
  refine ⟨inv_onPush h.traffic e allocated signalled, ?_⟩
  intro hconsumer
  exact signalled_onPush h.traffic (h.signalled hconsumer) e allocated signalled

theorem inv_onWait (h : s.Inv) {failed : Bool} (hstep : s.onWait failed = some t) : t.Inv := by
  rw [onWait] at hstep
  split at hstep
  · rename_i q hconsumer hq
    split at hstep
    · obtain rfl := some.inj hstep
      exact ⟨h.traffic, fun _ => h.signalled (Or.inl hconsumer)⟩
    · obtain rfl := some.inj hstep
      exact h
  · obtain rfl := some.inj hstep
    exact h
  · cases hstep

/-- Taking the signal away does not change the row. -/
theorem inv_takeSignal (h : s.Inv) {q : AndroidEventQueue} (hq : s.traffic.queue = some q) :
    (s.takeSignal q).Inv := by
  refine ⟨?_, ?_⟩
  · have hwaiting : (s.takeSignal q).traffic.waiting = s.traffic.waiting := by
      rw [waiting, waiting, hq]
      rfl
    refine ⟨?_, ?_, ?_⟩
    · intro q' hq'
      obtain rfl := some.inj hq'
      rw [hwaiting]
      exact h.traffic.holds q hq
    · rw [hwaiting]
      exact h.traffic.fifo
    · intro c
      have hledger := h.traffic.ledger c
      rw [count_heldCalls rfl] at hledger
      rw [count_heldCalls hwaiting]
      exact hledger
  · rintro (hconsumer | hconsumer)
    · cases hconsumer
    · cases hconsumer

theorem inv_onRead (h : s.Inv) (hstep : s.onRead = some t) : t.Inv := by
  rw [onRead] at hstep
  split at hstep
  · rename_i taken q hconsumer hq
    split at hstep
    · obtain rfl := some.inj hstep
      exact inv_takeSignal h hq
    · obtain rfl := some.inj hstep
      exact ⟨h.traffic, by rintro (hpc | hpc) <;> cases hpc⟩
  · cases hstep

theorem inv_onResetFails (h : s.Inv) (hstep : s.onResetFails = some t) : t.Inv := by
  rw [onResetFails] at hstep
  split at hstep
  · rename_i hconsumer
    obtain rfl := some.inj hstep
    exact ⟨h.traffic, fun _ => h.signalled (Or.inr hconsumer)⟩
  · cases hstep

/-- The session leaves the loop only when nothing waits. -/
theorem waiting_of_onPop {s t : InputTraffic} (h : s.Inv) (hstep : s.onPop = some t)
    (hnone : t.processing = none) : t.waiting = [] := by
  rw [InputTraffic.onPop] at hstep
  split at hstep
  · rename_i q hq hprocessing
    obtain rfl := some.inj hstep
    have hholds := h.holds q hq
    cases hwaiting : s.waiting with
    | nil =>
      rw [hwaiting] at hholds
      apply InputTraffic.waiting_of_holds rfl
      rw [AndroidEventQueue.androidPopEvent_nil hholds]
      exact hholds
    | cons x xs =>
      rw [hwaiting] at hholds
      rw [AndroidEventQueue.androidPopEvent_cons hholds] at hnone
      cases hnone
  · cases hstep

theorem inv_onPop (h : s.Inv) (hstep : s.onPop = some t) : t.Inv := by
  rw [onPop] at hstep
  split at hstep
  · obtain ⟨traffic, htraffic, rfl⟩ := map_eq_some_iff.1 hstep
    refine ⟨inv_onPop h.traffic htraffic, ?_⟩
    intro hconsumer
    cases hprocessing : traffic.processing with
    | none =>
      intro q hq hwaiting
      exact absurd (waiting_of_onPop h.traffic htraffic hprocessing) hwaiting
    | some e =>
      have hdraining : (if traffic.processing.isSome = true then ConsumerPc.draining
          else .outside) = .draining := by
        rw [hprocessing]
        rfl
      rw [hdraining] at hconsumer
      rcases hconsumer with hpc | hpc <;> cases hpc
  · cases hstep

theorem inv_process (h : s.Inv) {clipboard cliprdr : Bool} {traffic : InputTraffic}
    (hstep : s.traffic.onProcess clipboard cliprdr = some traffic) :
    Inv { s with traffic := traffic } := by
  refine ⟨inv_onProcess h.traffic hstep, ?_⟩
  intro hconsumer
  have hsignalled := h.signalled hconsumer
  rw [onProcess] at hstep
  split at hstep
  · obtain rfl := some.inj hstep
    exact hsignalled
  · cases hstep

/-- **The step lemma.** -/
theorem inv_step {a : LoopLabel} (h : s.Inv) (hstep : step w s a = some t) : t.Inv := by
  cases a with
  | push event allocated signalled =>
    obtain rfl := some.inj hstep
    exact inv_push h event allocated signalled
  | wait failed => exact inv_onWait h hstep
  | read => exact inv_onRead h hstep
  | resetFails => exact inv_onResetFails h hstep
  | pop => exact inv_onPop h hstep
  | process clipboard cliprdr =>
    obtain ⟨traffic, htraffic, rfl⟩ := map_eq_some_iff.1 hstep
    exact inv_process h htraffic

theorem inv_of_run {labels : List LoopLabel} (h : run (step w) initial labels = some s) :
    s.Inv :=
  run_induct (fun _ _ _ hinv hstep => inv_step hinv hstep) inv_initial h

/-- **No event waits without a wake-up.**  Outside of `android_check_handle`, a queue that
is not empty is signalled, however the pushes fall between the steps of the session. -/
theorem waiting_isSet (w : WordSize) {labels : List LoopLabel} {s : InputLoop}
    (h : run (step w) initial labels = some s) (houtside : s.consumer = .outside)
    (hwaiting : s.traffic.waiting ≠ []) :
    ∃ q, s.traffic.queue = some q ∧ q.isSet = true := by
  have hinv := inv_of_run h
  cases hq : s.traffic.queue with
  | none =>
    refine absurd ?_ hwaiting
    rw [waiting, hq]
  | some q => exact ⟨q, rfl, hinv.signalled (Or.inl houtside) q hq hwaiting⟩

/-- A push between the last pop and the reset of the next round, and one that falls into
the reset. -/
def sampleLoop : List LoopLabel :=
  [.push ⟨1, .key 0 30⟩ true true, .wait false, .read, .push ⟨2, .key 0 31⟩ true true, .read,
    .read, .pop, .process false false, .pop, .process false false, .pop,
    .push ⟨3, .disconnect⟩ true true]

theorem waiting_isSet_sample :
    ∃ s, run (step lp64) initial sampleLoop = some s ∧ s.traffic.waiting = [⟨3, .disconnect⟩] ∧
      ∃ q, s.traffic.queue = some q ∧ q.isSet = true := by
  obtain ⟨s, hs, houtside, hwaiting⟩ : ∃ s, run (step lp64) initial sampleLoop = some s ∧
      s.consumer = .outside ∧ s.traffic.waiting = [⟨3, .disconnect⟩] := ⟨_, rfl, rfl, rfl⟩
  refine ⟨s, hs, hwaiting, waiting_isSet lp64 hs houtside ?_⟩
  rw [hwaiting]
  exact List.cons_ne_nil _ _

end InputLoop
