/-
# Coalesced screen updates

The thread of the connection reports every change of the remote screen to
`SessionSurfaceController`, which gathers the changes and has the main thread redraw the view
once for all of them: the first change posts `flushDirtyRunnable`, and further ones are left
to it while `flushScheduled` says that it is on its way.

`release` takes every message out of the handler's queue, but leaves that flag as it is.
-/
import XyDeskRemote.LabelledRun

open LabelledRun Option

/-! ## The controller -/

/-- The fields that have to do with redrawing, the handler's queue, and where the two threads
are. -/
structure SessionSurfaceController where
  /-- `inst` is not zero. -/
  bound : Bool := false
  /-- The current view, by the number of views before it. -/
  sessionView : Option ℕ := none
  viewTrees : ℕ := 0
  hasPendingDirty : Bool := false
  flushScheduled : Bool := false
  pendingUpdates : ℕ := 0
  /-- Calls of `onGraphicsUpdate` behind their checks and in front of the lock. -/
  entered : ℕ := 0
  /-- Calls between the lock and the post. -/
  posting : ℕ := 0
  /-- Flushes in the queue of the handler. -/
  queued : ℕ := 0
  /-- The number of updates that a flush behind its lock is about to show. -/
  flushing : Option ℕ := none
  /-- The views that were invalidated, with the number of updates, the last one first. -/
  invalidated : List (ℕ × ℕ) := []
  deriving DecidableEq

/-- A step of one of the threads. -/
inductive SurfaceLabel where
  | bind
  | update
  | lock
  | post
  | flush
  | invalidate
  | release
  | buildViewTree
  deriving DecidableEq

namespace SessionSurfaceController

/-- The locked part of `onGraphicsUpdate`. -/
def addDirty (s : SessionSurfaceController) : SessionSurfaceController :=
  let pendingUpdates := if s.hasPendingDirty then s.pendingUpdates + 1 else 1
  let shouldSchedule := !s.flushScheduled
  { s with
    hasPendingDirty := true
    pendingUpdates := pendingUpdates
    flushScheduled := true
    posting := if shouldSchedule then s.posting + 1 else s.posting }

/-- The locked part of `flushDirtyRunnable`. -/
def takeDirty (s : SessionSurfaceController) : SessionSurfaceController :=
  if s.hasPendingDirty then
    { s with
      flushScheduled := false
      hasPendingDirty := false
      pendingUpdates := 0
      flushing := some s.pendingUpdates }
  else { s with flushScheduled := false }

/-- The flush behind the lock, with the view of that moment. -/
def invalidateView (s : SessionSurfaceController) (updates : ℕ) : SessionSurfaceController :=
  match s.sessionView with
  | some view => { s with flushing := none, invalidated := (view, updates) :: s.invalidated }
  | none => { s with flushing := none }

/-- `buildViewTree`. -/
def buildView (s : SessionSurfaceController) : SessionSurfaceController :=
  match s.sessionView with
  | some _ => s
  | none => { s with sessionView := some s.viewTrees, viewTrees := s.viewTrees + 1 }

/-- An update enters when there is a session; the main thread does one thing at a time. -/
def step (s : SessionSurfaceController) : SurfaceLabel → Option SessionSurfaceController
  | .bind => some { s with bound := true }
  | .update => if s.bound then some { s with entered := s.entered + 1 } else none
  | .lock => if 0 < s.entered then some { s.addDirty with entered := s.entered - 1 } else none
  | .post =>
    if 0 < s.posting then some { s with posting := s.posting - 1, queued := s.queued + 1 }
    else none
  | .flush =>
    if s.flushing = none ∧ 0 < s.queued then some { s with queued := s.queued - 1 }.takeDirty
    else none
  | .invalidate => s.flushing.map s.invalidateView
  | .release =>
    if s.flushing = none then some { s with queued := 0, sessionView := none, bound := false }
    else none
  | .buildViewTree => if s.flushing = none then some s.buildView else none

/-! ## The flags and the queue -/

/-- **The invariant**, also when updates are lost: one flush at most is on its way, and none
when the flag is down. -/
structure Inv (s : SessionSurfaceController) : Prop where
  flags : s.hasPendingDirty = s.flushScheduled
  one : s.queued + s.posting ≤ 1
  none : s.flushScheduled = false → s.queued + s.posting = 0

variable {s t : SessionSurfaceController}

/-- A guarded step that is possible. -/
theorem eq_of_ite_eq_some {α : Type} {c : Prop} [Decidable c] {a b : α}
    (h : (if c then some a else none) = some b) : c ∧ a = b := by
  obtain ⟨hc, heq⟩ := ite_none_right_eq_some.1 h
  exact ⟨hc, some.inj heq⟩

theorem inv_initial : Inv {} := ⟨rfl, by decide, fun _ => rfl⟩

theorem inv_lock (h : Inv s) : Inv { s.addDirty with entered := s.entered - 1 } := by
  obtain ⟨hflags, hone, hnone⟩ := h
  refine ⟨rfl, ?_, nofun⟩
  change s.queued + (if (!s.flushScheduled) = true then s.posting + 1 else s.posting) ≤ 1
  cases hscheduled : s.flushScheduled with
  | true => exact hone
  | false =>
    have hzero := hnone hscheduled
    rw [if_pos (by decide)]
    omega

/-- With a flush in the queue the flag is up, so both are taken down together. -/
theorem takeDirty_of_inv (h : Inv s) (hqueued : 0 < s.queued) :
    { s with queued := s.queued - 1 }.takeDirty =
      { s with
        queued := s.queued - 1, flushScheduled := false, hasPendingDirty := false,
        pendingUpdates := 0, flushing := some s.pendingUpdates } := by
  have hscheduled : s.flushScheduled = true := by
    by_contra hfalse
    have hzero := h.none (Bool.eq_false_iff.2 hfalse)
    omega
  rw [takeDirty, if_pos (h.flags.trans hscheduled)]

theorem invalidateView_eq (s : SessionSurfaceController) (updates : ℕ) :
    ∃ shown, s.invalidateView updates = { s with flushing := none, invalidated := shown } := by
  rw [invalidateView]
  cases s.sessionView with
  | none => exact ⟨_, rfl⟩
  | some view => exact ⟨_, rfl⟩

theorem buildView_eq (s : SessionSurfaceController) :
    ∃ view viewTrees, s.buildView = { s with sessionView := view, viewTrees := viewTrees } := by
  rw [buildView]
  cases hview : s.sessionView with
  | none => exact ⟨_, _, rfl⟩
  | some view => exact ⟨s.sessionView, s.viewTrees, rfl⟩

/-- **The step lemma.** -/
theorem inv_step {a : SurfaceLabel} (h : Inv s) (hstep : step s a = some t) : Inv t := by
  obtain ⟨hflags, hone, hnone⟩ := h
  cases a with
  | bind =>
    obtain rfl := some.inj hstep
    exact ⟨hflags, hone, hnone⟩
  | update =>
    obtain ⟨-, rfl⟩ := eq_of_ite_eq_some hstep
    exact ⟨hflags, hone, hnone⟩
  | lock =>
    obtain ⟨-, rfl⟩ := eq_of_ite_eq_some hstep
    exact inv_lock ⟨hflags, hone, hnone⟩
  | post =>
    obtain ⟨hposting, rfl⟩ := eq_of_ite_eq_some hstep
    refine ⟨hflags, ?_, fun hfalse => ?_⟩
    · change s.queued + 1 + (s.posting - 1) ≤ 1
      omega
    · have hzero := hnone hfalse
      omega
  | flush =>
    obtain ⟨⟨-, hqueued⟩, rfl⟩ := eq_of_ite_eq_some hstep
    rw [takeDirty_of_inv ⟨hflags, hone, hnone⟩ hqueued]
    refine ⟨rfl, ?_, fun _ => ?_⟩
    · change s.queued - 1 + s.posting ≤ 1
      omega
    · change s.queued - 1 + s.posting = 0
      omega
  | invalidate =>
    obtain ⟨updates, -, rfl⟩ := map_eq_some_iff.1 hstep
    obtain ⟨shown, hshown⟩ := invalidateView_eq s updates
    rw [hshown]
    exact ⟨hflags, hone, hnone⟩
  | release =>
    obtain ⟨-, rfl⟩ := eq_of_ite_eq_some hstep
    refine ⟨hflags, ?_, fun hfalse => ?_⟩
    · change 0 + s.posting ≤ 1
      omega
    · have hzero := hnone hfalse
      change 0 + s.posting = 0
      omega
  | buildViewTree =>
    obtain ⟨-, rfl⟩ := eq_of_ite_eq_some hstep
    obtain ⟨view, viewTrees, hview⟩ := buildView_eq s
    rw [hview]
    exact ⟨hflags, hone, hnone⟩

/-! ## When no update is lost -/

/-- While something is to be redrawn and no update is about to post, a flush is in the queue;
and it redraws the current view, for all updates that were gathered. -/
def NoUpdateLost (s : SessionSurfaceController) : Prop :=
  s.hasPendingDirty = true → s.posting = 0 →
    0 < s.queued ∧ ∀ view, s.flushing = none → s.sessionView = some view →
      ∃ t, run step s [.flush, .invalidate] = some t ∧ t.hasPendingDirty = false ∧
        t.invalidated = (view, s.pendingUpdates) :: s.invalidated

/-- A flush in the queue redraws the current view. -/
theorem flush_invalidates (hdirty : s.hasPendingDirty = true) (hqueued : 0 < s.queued)
    (hflushing : s.flushing = none) {view : ℕ} (hview : s.sessionView = some view) :
    ∃ t, run step s [.flush, .invalidate] = some t ∧ t.hasPendingDirty = false ∧
      t.invalidated = (view, s.pendingUpdates) :: s.invalidated := by
  have hflush : step s .flush = some { s with
      queued := s.queued - 1, flushScheduled := false, hasPendingDirty := false,
      pendingUpdates := 0, flushing := some s.pendingUpdates } := by
    rw [step, if_pos ⟨hflushing, hqueued⟩, takeDirty, if_pos hdirty]
  rw [run_cons, hflush, bind_some, run_cons, step, map_some, bind_some, invalidateView, hview]
  exact ⟨_, rfl, rfl, rfl⟩

theorem noUpdateLost_iff_queued :
    NoUpdateLost s ↔ (s.hasPendingDirty = true → s.posting = 0 → 0 < s.queued) := by
  constructor
  · intro h hdirty hposting
    exact (h hdirty hposting).1
  · intro h hdirty hposting
    have hqueued := h hdirty hposting
    exact ⟨hqueued, fun view hflushing hview => flush_invalidates hdirty hqueued hflushing hview⟩

/-- `release` finds no flush in the queue. -/
def ReleasesNone (s : SessionSurfaceController) (a : SurfaceLabel)
    (_ : SessionSurfaceController) : Prop :=
  a = .release → s.queued = 0

/-- What a step does to the flush on its way. -/
theorem noUpdateLost_step {a : SurfaceLabel} (hinv : Inv s) (h : NoUpdateLost s)
    (hstep : step s a = some t) : NoUpdateLost t ↔ ReleasesNone s a t := by
  rw [noUpdateLost_iff_queued] at h ⊢
  have hother : a ≠ .release → ReleasesNone s a t := fun hne heq => absurd heq hne
  cases a with
  | bind =>
    obtain rfl := some.inj hstep
    exact iff_of_true h (hother nofun)
  | update =>
    obtain ⟨-, rfl⟩ := eq_of_ite_eq_some hstep
    exact iff_of_true h (hother nofun)
  | lock =>
    obtain ⟨-, rfl⟩ := eq_of_ite_eq_some hstep
    refine iff_of_true (fun _ hposting => ?_) (hother nofun)
    change (if (!s.flushScheduled) = true then s.posting + 1 else s.posting) = 0 at hposting
    cases hscheduled : s.flushScheduled with
    | false =>
      rw [hscheduled, if_pos (by decide)] at hposting
      omega
    | true =>
      rw [hscheduled, if_neg (by decide)] at hposting
      exact h (hinv.flags.trans hscheduled) hposting
  | post =>
    obtain ⟨-, rfl⟩ := eq_of_ite_eq_some hstep
    exact iff_of_true (fun _ _ => Nat.succ_pos _) (hother nofun)
  | flush =>
    obtain ⟨⟨-, hqueued⟩, rfl⟩ := eq_of_ite_eq_some hstep
    rw [takeDirty_of_inv hinv hqueued]
    exact iff_of_true (fun hdirty => absurd hdirty nofun) (hother nofun)
  | invalidate =>
    obtain ⟨updates, -, rfl⟩ := map_eq_some_iff.1 hstep
    obtain ⟨shown, hshown⟩ := invalidateView_eq s updates
    rw [hshown]
    exact iff_of_true h (hother nofun)
  | release =>
    obtain ⟨-, rfl⟩ := eq_of_ite_eq_some hstep
    constructor
    · intro hnext _
      -- with a flush in the queue there is something to redraw and nobody to post
      by_contra hqueued
      have hscheduled : s.flushScheduled = true := by
        by_contra hfalse
        have hzero := hinv.none (Bool.eq_false_iff.2 hfalse)
        omega
      have hone := hinv.one
      have hposting : s.posting = 0 := by omega
      exact absurd (hnext (hinv.flags.trans hscheduled) hposting) (Nat.lt_irrefl 0)
    · intro hnone hdirty hposting
      have hqueued := h hdirty hposting
      exact absurd (hnone rfl) (Nat.ne_of_gt hqueued)
  | buildViewTree =>
    obtain ⟨-, rfl⟩ := eq_of_ite_eq_some hstep
    obtain ⟨view, viewTrees, hview⟩ := buildView_eq s
    rw [hview]
    exact iff_of_true h (hother nofun)

/-- **No update is lost exactly when `release` never finds a flush in the queue**, in every
run of the two threads. -/
theorem noUpdateLost_iff (labels : List SurfaceLabel) :
    EveryState step NoUpdateLost {} labels ↔ EveryStep step ReleasesNone {} labels := by
  apply everyState_iff_everyStep (I := Inv)
  · intro s a t hinv hstep
    exact inv_step hinv hstep
  · intro s a t hinv h hstep
    exact noUpdateLost_step hinv h hstep
  · exact inv_initial
  · exact noUpdateLost_iff_queued.2 fun hdirty => absurd hdirty nofun

/-! ## After a flush was lost -/

/-- **A session that is torn down with a flush in the queue, and built again**: there is a
view, an update was accepted, and no flush is on its way. -/
theorem update_lost_after_release :
    ∃ s, run step {} [.bind, .buildViewTree, .update, .lock, .post, .release, .bind,
        .buildViewTree, .update, .lock] = some s ∧
      s.hasPendingDirty = true ∧ s.posting = 0 ∧ s.queued = 0 ∧ s.sessionView = some 1 ∧
      ¬ NoUpdateLost s := by
  refine ⟨_, rfl, rfl, rfl, rfl, rfl, fun h => ?_⟩
  exact absurd (h rfl rfl).1 (Nat.lt_irrefl 0)

end SessionSurfaceController
