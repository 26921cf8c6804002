/-
# The travel of relative moves

Relative moves that are adjacent in the input queue are joined: their deltas add up, in an `INT16`
that saturates.  The comment at the code promises that the total travel is kept, even when the
queue backs up.
-/
import Mathlib.Algebra.Ring.Int.Defs
import XyDeskRemote.AndroidEventQueue

open LabelledRun AndroidEventQueue List Option

/-- The two directions of a relative move. -/
inductive Axis where
  | x
  | y
  deriving DecidableEq

/-- How far an event moves the pointer. -/
def AndroidEvent.travel (axis : Axis) (e : AndroidEvent) : ℤ :=
  match e.body, axis with
  | .cursorRel _ dx _, .x => dx.toInt
  | .cursorRel _ _ dy, .y => dy.toInt
  | _, _ => 0

/-- How far some events move it. -/
def totalTravel (axis : Axis) (es : List AndroidEvent) : ℤ :=
  (es.map (AndroidEvent.travel axis)).sum

/-- The event a log entry hands to the session. -/
def QueueEvent.poppedEvent : QueueEvent → Option AndroidEvent
  | .popped e => e
  | _ => none

/-- The events that were pushed with success. -/
def pushedEvents (log : List QueueEvent) : List AndroidEvent := log.filterMap QueueEvent.accepted

/-- The events that were popped. -/
def poppedEvents (log : List QueueEvent) : List AndroidEvent :=
  log.filterMap QueueEvent.poppedEvent

/-- What happens at the queue while a session runs. -/
inductive QueueUse where
  | push (event : AndroidEvent) (allocated signalled : Bool)
  | pop
  | process (clipboard cliprdr : Bool)
  deriving DecidableEq

/-- The step of a use. -/
def QueueUse.label : QueueUse → TrafficLabel
  | .push event allocated signalled => .push event allocated signalled
  | .pop => .pop
  | .process clipboard cliprdr => .process clipboard cliprdr

/-- A sum of two deltas that fits into an `INT16`. -/
def DeltaFits (sum : ℤ) : Prop := -32768 ≤ sum ∧ sum ≤ 32767

/-- Two events are no pure relative moves, or the sums of their deltas fit. -/
def TravelFits (last e : AndroidEvent) : Prop :=
  match last.body, e.body with
  | .cursorRel flags dx dy, .cursorRel flags' dx' dy' =>
    flags = ptrFlagsMove → flags' = ptrFlagsMove →
      DeltaFits (dx.toInt + dx'.toInt) ∧ DeltaFits (dy.toInt + dy'.toInt)
  | _, _ => True

namespace InputTraffic

/-- A use of the queue. -/
def useStep (w : WordSize) (s : InputTraffic) (a : QueueUse) : Option InputTraffic :=
  step w s a.label

/-- What was popped and what waits travels as far as what was pushed. -/
def TravelKept (s : InputTraffic) : Prop :=
  ∀ axis, totalTravel axis (poppedEvents s.log) + totalTravel axis s.waiting =
    totalTravel axis (pushedEvents s.log)

/-- A push that can be made fits to the event that waits last. -/
def FitsLast (s : InputTraffic) (a : QueueUse) (_ : InputTraffic) : Prop :=
  match a with
  | .push e _ true => ∀ last, s.waiting.getLast? = some last → TravelFits last e
  | _ => True

/-! ## Two moves -/

section Moves

variable {axis : Axis} {es fs : List AndroidEvent} {last e m : AndroidEvent}

@[simp] theorem totalTravel_append :
    totalTravel axis (es ++ fs) = totalTravel axis es + totalTravel axis fs := by
  rw [totalTravel, map_append, sum_append]
  rfl

@[simp] theorem totalTravel_singleton : totalTravel axis [e] = e.travel axis := by
  rw [totalTravel, map_singleton, sum_singleton]

/-- A sum is kept by the saturation exactly when it fits. -/
theorem toInt_saturated_iff (sum : ℤ) :
    (Int16.ofInt (max (-32768) (min 32767 sum))).toInt = sum ↔ DeltaFits sum := by
  rw [Int16.toInt_ofInt_of_le (by omega) (by omega), DeltaFits]
  omega

/-- **The travel of a joined event** is the one of its two events exactly when the sums fit. -/
theorem joined_travel_iff (h : JoinsTo last e m) :
    (∀ axis, m.travel axis = last.travel axis + e.travel axis) ↔ TravelFits last e := by
  cases h with
  | absolute a a' x y x' y' => exact iff_of_true (fun _ => rfl) trivial
  | relative a a' dx dy dx' dy' =>
    have hx := toInt_saturated_iff (dx.toInt + dx'.toInt)
    have hy := toInt_saturated_iff (dy.toInt + dy'.toInt)
    constructor
    · exact fun h _ _ => ⟨hx.1 (h .x), hy.1 (h .y)⟩
    · intro h axis
      obtain ⟨hfitX, hfitY⟩ := h rfl rfl
      cases axis with
      | x => exact hx.2 hfitX
      | y => exact hy.2 hfitY

theorem travelFits_of_not_joined (h : joinMove last e = none) : TravelFits last e := by
  obtain ⟨a, lastBody⟩ := last
  obtain ⟨a', body⟩ := e
  rw [TravelFits]
  split
  next flags dx dy flags' dx' dy' hlast hbody =>
    rintro rfl rfl
    obtain rfl : lastBody = _ := hlast
    obtain rfl : body = _ := hbody
    cases h
  next => trivial

end Moves

/-! ## One step -/

section Steps

variable {w : WordSize} {s t : InputTraffic} {q : AndroidEventQueue} {e : AndroidEvent}
  {r : PushResult}

theorem pushedEvents_pushed (log : List QueueEvent) (success : Bool) (freed : List AndroidEvent) :
    pushedEvents (log ++ (.pushed e success :: freed.map .freed)) =
      pushedEvents log ++ if success then [e] else [] := by
  have hfreed : (freed.map QueueEvent.freed).filterMap QueueEvent.accepted = [] := by
    induction freed with
    | nil => rfl
    | cons f freed ih => exact ih
  rw [pushedEvents, filterMap_append, filterMap_cons, hfreed]
  cases success <;> rfl

theorem poppedEvents_pushed (log : List QueueEvent) (success : Bool) (freed : List AndroidEvent) :
    poppedEvents (log ++ (.pushed e success :: freed.map .freed)) = poppedEvents log := by
  have hfreed : (freed.map QueueEvent.freed).filterMap QueueEvent.poppedEvent = [] := by
    induction freed with
    | nil => rfl
    | cons f freed ih => exact ih
  rw [poppedEvents, filterMap_append, filterMap_cons, hfreed]
  exact append_nil _

/-- The travel is kept by a push exactly when the events that wait gain the one that was taken. -/
theorem travelKept_pushed_iff (h : s.TravelKept)
    (hspec : AndroidEventQueue.PushSpec q s.waiting e r)
    (ht : t = { s with
      queue := some r.queue, log := s.log ++ (.pushed e r.success :: r.freed.map .freed) }) :
    t.TravelKept ↔ (r.success = true →
      ∀ axis, totalTravel axis t.waiting = totalTravel axis s.waiting + e.travel axis) := by
  subst ht
  rw [TravelKept]
  dsimp only
  rw [pushedEvents_pushed, poppedEvents_pushed]
  cases hspec with
  | success hpush hholds hset hsuccess hfreed =>
    rw [hsuccess, if_pos rfl, forall_prop_of_true rfl]
    refine forall_congr' fun axis => ?_
    have hbefore := h axis
    rw [totalTravel_append, totalTravel_singleton]
    omega
  | failure hholds hset hsuccess hfreed =>
    rw [hsuccess, if_neg Bool.false_ne_true, append_nil]
    have hwaiting : waiting { s with
        queue := some r.queue, log := s.log ++ (.pushed e false :: r.freed.map .freed) } =
          s.waiting := hholds.contents_eq
    rw [hwaiting]
    exact iff_of_true h fun h => nomatch h

/-- The travel of the events that wait after one was put behind them. -/
theorem totalTravel_pushed {xs xs' : List AndroidEvent} (hpush : Pushed e xs xs')
    (hnone : ∀ last, xs.getLast? = some last → joinMove last e = none) (axis : Axis) :
    totalTravel axis xs' = totalTravel axis xs + e.travel axis := by
  cases hpush with
  | joined hjoin =>
    have hlast := hnone _ getLast?_concat
    rw [joinMove_eq_some.2 hjoin] at hlast
    cases hlast
  | behind => rw [totalTravel_append, totalTravel_singleton]

theorem fitsLast_push (s t : InputTraffic) (e : AndroidEvent) (allocated signalled : Bool) :
    FitsLast s (.push e allocated signalled) t ↔
      (signalled = true → ∀ last, s.waiting.getLast? = some last → TravelFits last e) := by
  cases signalled with
  | false => exact iff_of_true trivial fun h => nomatch h
  | true => exact ⟨fun h _ => h, fun h => h rfl⟩

theorem androidPushEvent_joined {joined : AndroidEvent} (hholds : q.events.Holds s.waiting)
    (hjoin : (q.tail.bind fun last => joinMove last e) = some joined) (allocated : Bool) :
    q.androidPushEvent w e allocated true = q.pushJoined joined e true ∧
      ∃ front last, s.waiting = front ++ [last] ∧ JoinsTo last e joined ∧
        (q.pushJoined joined e true).queue.events.contents = front ++ [joined] := by
  have hsize : q.events.size ≠ 0 := by
    have hhead := hholds.head_lt
    omega
  obtain ⟨last, hlast, hjoins⟩ := bind_eq_some_iff.1 hjoin
  rw [tail_eq hholds] at hlast
  obtain ⟨front, hfront⟩ := getLast?_eq_some_iff.1 hlast
  refine ⟨?_, front, last, hfront, joinMove_eq_some.1 hjoins, ?_⟩
  · rw [androidPushEvent, if_neg hsize, hjoin]
  · rw [hfront] at hholds
    exact (hholds.replace (y := joined)).contents_eq

/-- **A push keeps the travel** exactly when it fits to the event that waits last. -/
theorem travelKept_push_iff (hinv : s.Inv) (hq : s.queue = some q) (h : s.TravelKept)
    {allocated signalled : Bool}
    (hstep : useStep w s (.push e allocated signalled) = some t) :
    t.TravelKept ↔ FitsLast s (.push e allocated signalled) t := by
  have hholds := hinv.holds q hq
  have ht : t = { s with
      queue := some (q.androidPushEvent w e allocated signalled).queue
      log := s.log ++ (.pushed e (q.androidPushEvent w e allocated signalled).success ::
        (q.androidPushEvent w e allocated signalled).freed.map .freed) } := by
    rw [useStep, QueueUse.label, step, onPush, hq] at hstep
    exact (some.inj hstep).symm
  have hwaiting :
      t.waiting = (q.androidPushEvent w e allocated signalled).queue.events.contents := by
    rw [ht]
    rfl
  have hspec : AndroidEventQueue.PushSpec q s.waiting e
      (q.androidPushEvent w e allocated signalled) :=
    androidPushEvent_spec hholds allocated signalled
  rw [travelKept_pushed_iff h hspec ht, fitsLast_push, hwaiting]
  cases hjoin : q.tail.bind fun last => joinMove last e with
  | none =>
    -- nothing is joined
    have hnone : ∀ last, s.waiting.getLast? = some last → joinMove last e = none := by
      intro last hlast
      rw [tail_eq hholds, hlast] at hjoin
      exact hjoin
    refine iff_of_true (fun hsuccess axis => ?_) fun _ last hlast =>
      travelFits_of_not_joined (hnone last hlast)
    cases hspec with
    | success hpush hholds' =>
      rw [hholds'.contents_eq]
      exact totalTravel_pushed hpush hnone axis
    | failure _ _ hfail =>
      rw [hfail] at hsuccess
      cases hsuccess
  | some joined =>
    cases signalled with
    | false =>
      refine iff_of_true (fun hsuccess => ?_) fun h => absurd h Bool.false_ne_true
      have hsize : q.events.size ≠ 0 := by
        have hhead := hholds.head_lt
        omega
      rw [androidPushEvent, if_neg hsize, hjoin] at hsuccess
      cases hsuccess
    | true =>
      obtain ⟨heq, front, last, hfront, hjoins, hcontents⟩ :=
        androidPushEvent_joined (w := w) hholds hjoin allocated
      rw [heq, hcontents, hfront, getLast?_concat]
      constructor
      · rintro htravel - last' hlast'
        obtain rfl := some.inj hlast'
        refine (joined_travel_iff hjoins).1 fun axis => ?_
        have haxis := htravel rfl axis
        rw [totalTravel_append, totalTravel_append, totalTravel_singleton,
          totalTravel_singleton] at haxis
        omega
      · rintro hfits - axis
        have haxis := (joined_travel_iff hjoins).2 (hfits rfl last rfl) axis
        rw [totalTravel_append, totalTravel_append, totalTravel_singleton, totalTravel_singleton,
          haxis]
        omega

theorem travelKept_iff_of_eq (hpushed : pushedEvents t.log = pushedEvents s.log)
    (hpopped : poppedEvents t.log ++ t.waiting = poppedEvents s.log ++ s.waiting) :
    t.TravelKept ↔ s.TravelKept := by
  refine forall_congr' fun axis => ?_
  rw [← totalTravel_append, ← totalTravel_append, hpushed, hpopped]

theorem popped_pop (hinv : s.Inv) (hstep : useStep w s .pop = some t) :
    pushedEvents t.log = pushedEvents s.log ∧
      poppedEvents t.log ++ t.waiting = poppedEvents s.log ++ s.waiting ∧
        t.waiting = s.waiting.tail := by
  rw [useStep, QueueUse.label, step, onPop] at hstep
  split at hstep
  next q hq hprocessing =>
    obtain rfl := some.inj hstep
    have hholds := hinv.holds q hq
    have hpushed : ∀ e, pushedEvents (s.log ++ [.popped e]) = pushedEvents s.log := fun e => by
      rw [pushedEvents, filterMap_append]
      exact append_nil _
    have hpopped : ∀ e, poppedEvents (s.log ++ [.popped e]) = poppedEvents s.log ++ e.toList := by
      intro e
      rw [poppedEvents, filterMap_append]
      cases e <;> rfl
    refine ⟨hpushed _, ?_⟩
    dsimp only
    rw [hpopped]
    cases hwaiting : s.waiting with
    | nil =>
      rw [hwaiting] at hholds
      rw [androidPopEvent_nil hholds]
      have hnil : waiting { queue := some q, processing := none, log := s.log ++ [.popped none] } =
          [] := hholds.contents_eq
      rw [hnil]
      exact ⟨append_nil _, rfl⟩
    | cons x xs =>
      rw [hwaiting] at hholds
      rw [androidPopEvent_cons hholds]
      have htail : waiting
          { queue := some { q with events := q.events.take }
            processing := some x
            log := s.log ++ [.popped (some x)] } = xs := hholds.take.contents_eq
      rw [htail]
      exact ⟨append_assoc _ _ _, rfl⟩
  next => cases hstep

theorem popped_process {clipboard cliprdr : Bool}
    (hstep : useStep w s (.process clipboard cliprdr) = some t) :
    pushedEvents t.log = pushedEvents s.log ∧ poppedEvents t.log = poppedEvents s.log ∧
      t.waiting = s.waiting ∧ t.queue = s.queue ∧ t.processing = none := by
  rw [useStep, QueueUse.label, step, onProcess] at hstep
  split at hstep
  next e hprocessing =>
    obtain rfl := some.inj hstep
    have hsent : ∀ calls : List InputCall,
        (calls.map QueueEvent.sent ++ [QueueEvent.freed e]).filterMap QueueEvent.accepted = [] ∧
          (calls.map QueueEvent.sent ++ [QueueEvent.freed e]).filterMap QueueEvent.poppedEvent =
            [] := by
      intro calls
      induction calls with
      | nil => exact ⟨rfl, rfl⟩
      | cons call calls ih => exact ih
    refine ⟨?_, ?_, rfl, rfl, rfl⟩
    · rw [pushedEvents, filterMap_append, (hsent _).1]
      exact append_nil _
    · rw [poppedEvents, filterMap_append, (hsent _).2]
      exact append_nil _
  next => cases hstep

/-- The queue stays while the session runs. -/
theorem queue_useStep {a : QueueUse} (hq : s.queue ≠ none) (hstep : useStep w s a = some t) :
    t.queue ≠ none := by
  cases a with
  | push e allocated signalled =>
    obtain rfl := some.inj hstep
    rw [onPush]
    split
    · exact hq
    · exact some_ne_none _
  | pop =>
    rw [useStep, QueueUse.label, step, onPop] at hstep
    split at hstep
    · obtain rfl := some.inj hstep
      exact some_ne_none _
    · cases hstep
  | process clipboard cliprdr =>
    rw [(popped_process hstep).2.2.2.1]
    exact hq

/-- **A step keeps the travel** exactly when a push fits to the event that waits last. -/
theorem travelKept_step_iff {a : QueueUse} (hinv : s.Inv ∧ s.queue ≠ none) (h : s.TravelKept)
    (hstep : useStep w s a = some t) : t.TravelKept ↔ FitsLast s a t := by
  cases a with
  | push e allocated signalled =>
    obtain ⟨q, hq⟩ := ne_none_iff_exists'.1 hinv.2
    exact travelKept_push_iff hinv.1 hq h hstep
  | pop =>
    obtain ⟨hpushed, hpopped, -⟩ := popped_pop hinv.1 hstep
    exact iff_of_true ((travelKept_iff_of_eq hpushed hpopped).2 h) trivial
  | process clipboard cliprdr =>
    obtain ⟨hpushed, hpopped, hwaiting, -⟩ := popped_process hstep
    exact iff_of_true ((travelKept_iff_of_eq hpushed (by rw [hpopped, hwaiting])).2 h) trivial

end Steps

/-! ## A run of a session -/

section Runs

variable {w : WordSize} {s : InputTraffic}

theorem travelKept_initial : initial.TravelKept := fun _ => rfl

/-- **The travel is kept along a run** exactly when every push fits to the event that waits last,
however many moves pile up between two pops. -/
theorem travel_kept_iff (w : WordSize) (uses : List QueueUse) :
    EveryState (useStep w) TravelKept initial uses ↔
      EveryStep (useStep w) FitsLast initial uses := by
  refine everyState_iff_everyStep (I := fun s => s.Inv ∧ s.queue ≠ none) ?_ ?_ ?_ ?_ uses
  · intro s a t hinv hstep
    exact ⟨inv_step hinv.1 hstep, queue_useStep hinv.2 hstep⟩
  · intro s a t hinv h hstep
    exact travelKept_step_iff hinv h hstep
  · exact ⟨inv_initial, some_ne_none _⟩
  · exact travelKept_initial

/-- Two moves to the right, farther than an `INT16` goes, and a pop. -/
def overflowUses : List QueueUse :=
  [.push ⟨1, .cursorRel ptrFlagsMove 32767 0⟩ true true,
    .push ⟨2, .cursorRel ptrFlagsMove 1 0⟩ true true, .pop]

/-- The second move is lost. -/
theorem overflow_not_kept : ∃ s, run (useStep lp64) initial overflowUses = some s ∧
    s.waiting = [] ∧ totalTravel .x (pushedEvents s.log) = 32768 ∧
      totalTravel .x (poppedEvents s.log) = 32767 :=
  ⟨_, rfl, by decide, by decide, by decide⟩

end Runs

end InputTraffic
