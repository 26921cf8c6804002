/-
# The events of WinPR

`PubSub.c`: an event has a table of at most 32 handlers, and `PubSub_OnEvent` calls them in the
order of the table.  The lock is recursive, so a handler may subscribe, unsubscribe and raise the
event again while it is delivered.

`PubSub_Unsubscribe` closes the gap that a removal leaves, and both its own loop and a delivery
under way go on behind the index.  The entry that fell into the gap has no turn: of two copies
side by side the second stays, and a handler that removes itself hides the next one.
-/
import Mathlib.Data.List.Chain
import XyDeskRemote.LabelledRun

open LabelledRun List

namespace PubSub

variable {H : Type*} [DecidableEq H]

/-! ## The functions on one event -/

/-- `MAX_EVENT_HANDLERS`. -/
def maxEventHandlers : ℕ := 32

/-- `PubSub_Subscribe`: the status, and the table behind it.  The pointer `NULL` is `none`. -/
def subscribe (eventHandlers : List (Option H)) (h : Option H) : ℤ × List (Option H) :=
  if eventHandlers.length < maxEventHandlers then (0, eventHandlers ++ [h])
  else (-1, eventHandlers)

/-- The loop of `PubSub_Unsubscribe` from an index on. -/
def unsubscribeFrom (h : Option H) (index : ℕ) (eventHandlers : List (Option H)) (status : ℤ) :
    ℤ × List (Option H) :=
  if hindex : index < eventHandlers.length then
    if eventHandlers[index] = h then
      unsubscribeFrom h (index + 1) (eventHandlers.eraseIdx index) 1
    else unsubscribeFrom h (index + 1) eventHandlers status
  else (status, eventHandlers)
termination_by eventHandlers.length - index
decreasing_by
  · rw [length_eraseIdx_of_lt hindex]
    omega
  · omega

/-- `PubSub_Unsubscribe`. -/
def unsubscribe (eventHandlers : List (Option H)) (h : Option H) : ℤ × List (Option H) :=
  unsubscribeFrom h 0 eventHandlers 0

/-- A call of `PubSub_OnEvent` that has not returned: the entry that is next, and the calls so
far. -/
structure Delivery where
  index : ℕ := 0
  status : ℤ := 0

/-- The event: its table, and the deliveries under way, the innermost first. -/
structure Event (H : Type*) where
  eventHandlers : List (Option H) := []
  deliveries : List Delivery := []

/-- What can happen.  `turn` is one turn of the loop of the innermost delivery, up to the call of
the handler; what the handler does comes behind it. -/
inductive Act (H : Type*) where
  | subscribe (h : Option H)
  | unsubscribe (h : Option H)
  | onEvent
  | turn
  | leave

/-! ## What the subscribers may expect -/

/-- The subscriptions there are, and for each delivery those from before it that are still to be
called, in order. -/
structure Books (H : Type*) where
  subscribed : List (Option H) := []
  due : List (List (Option H)) := []

/-- One step of the event, with the books beside it. -/
def step (s : Event H × Books H) : Act H → Option (Event H × Books H)
  | .subscribe h =>
    let answer := subscribe s.1.eventHandlers h
    some ({ s.1 with eventHandlers := answer.2 },
      if answer.1 = 0 then { s.2 with subscribed := s.2.subscribed ++ [h] } else s.2)
  | .unsubscribe h =>
    some ({ s.1 with eventHandlers := (unsubscribe s.1.eventHandlers h).2 },
      { subscribed := s.2.subscribed.filter (· ≠ h)
        due := s.2.due.map fun due => due.filter (· ≠ h) })
  | .onEvent =>
    some ({ s.1 with deliveries := {} :: s.1.deliveries },
      { s.2 with due := s.2.subscribed :: s.2.due })
  | .turn =>
    match s.1.deliveries, s.2.due with
    | d :: ds, due :: dues =>
      (s.1.eventHandlers[d.index]?).map fun h =>
        let status := if h.isSome then d.status + 1 else d.status
        ({ s.1 with deliveries := ⟨d.index + 1, status⟩ :: ds },
          { s.2 with due := due.tail :: dues })
    | _, _ => none
  | .leave =>
    match s.1.deliveries, s.2.due with
    | d :: ds, _ :: dues =>
      if s.1.eventHandlers.length ≤ d.index then
        some ({ s.1 with deliveries := ds }, { s.2 with due := dues })
      else none
    | _, _ => none

/-- What a delivery does next is as expected: it calls the next one that is due, after all of them
only one that has subscribed since, and it ends when none is due.  It has at most as many turns as
the table has entries. -/
def Delivers (s : Event H × Books H) (d : Delivery) (due : List (Option H)) : Prop :=
  (∀ h, s.1.eventHandlers[d.index]? = some h →
    h ∈ s.2.subscribed ∧ (due = [] ∨ due.head? = some h)) ∧
    (s.1.eventHandlers.length ≤ d.index → due = []) ∧ d.index ≤ maxEventHandlers

/-- Every delivery under way reaches the subscribers. -/
def Reaches (s : Event H × Books H) : Prop :=
  List.Forall₂ (Delivers s) s.1.deliveries s.2.due

/-- The entries that a removal moves are not needed: no two copies stand side by side, and where a
copy stands before the next entry of a delivery, only copies come behind. -/
def Removable (s : Event H) (h : Option H) : Prop :=
  s.eventHandlers.IsChain (fun x y => ¬ (x = h ∧ y = h)) ∧
    ∀ d ∈ s.deliveries, h ∉ s.eventHandlers.take d.index ∨ ∀ g ∈ s.eventHandlers.drop d.index, g = h

/-- A step that removes only where it may. -/
def Harmless (s : Event H × Books H) (a : Act H) (_ : Event H × Books H) : Prop :=
  ∀ h, a = .unsubscribe h → Removable s.1 h

/-! ## The loop of `PubSub_Unsubscribe` -/

omit [DecidableEq H] in
theorem eraseIdx_length (before xs : List (Option H)) (x : Option H) :
    (before ++ x :: xs).eraseIdx before.length = before ++ xs := by
  rw [eraseIdx_append_of_length_le (Nat.le_refl _), Nat.sub_self]
  rfl

/-- The loop removes every copy behind its index, if no two stand side by side. -/
theorem unsubscribeFrom_append (h : Option H) (xs before : List (Option H)) (status : ℤ)
    (hxs : xs.IsChain fun x y => ¬ (x = h ∧ y = h)) :
    (unsubscribeFrom h before.length (before ++ xs) status).2 = before ++ xs.filter (· ≠ h) := by
  match xs with
  | [] =>
    rw [unsubscribeFrom, dif_neg (by simp)]
    simp
  | [x] =>
    rw [unsubscribeFrom, dif_pos (by simp)]
    by_cases hx : x = h
    · rw [if_pos (by simpa using hx), eraseIdx_length, unsubscribeFrom, dif_neg (by simp)]
      simp [hx]
    · rw [if_neg (by simpa using hx), unsubscribeFrom, dif_neg (by simp)]
      simp [hx]
  | x :: y :: xs =>
    obtain ⟨hxy, hys⟩ := isChain_cons_cons.1 hxs
    rw [unsubscribeFrom, dif_pos (by simp)]
    by_cases hx : x = h
    · have hy : y ≠ h := fun hy => hxy ⟨hx, hy⟩
      have hrest := unsubscribeFrom_append h xs (before ++ [y]) 1 hys.tail
      rw [if_pos (by simpa using hx), eraseIdx_length]
      simpa [hx, hy] using hrest
    · have hrest := unsubscribeFrom_append h (y :: xs) (before ++ [x]) status hys
      rw [if_neg (by simpa using hx)]
      simpa [hx] using hrest
termination_by xs.length

theorem unsubscribe_eq_filter {handlers : List (Option H)} {h : Option H}
    (hchain : handlers.IsChain fun x y => ¬ (x = h ∧ y = h)) :
    (unsubscribe handlers h).2 = handlers.filter (· ≠ h) :=
  unsubscribeFrom_append h handlers [] 0 hchain

/-! ## The invariant of a run -/

/-- Behind the index of a delivery are the entries that are due, and behind them the late ones. -/
def Booked (handlers : List (Option H)) (d : Delivery) (due : List (Option H)) : Prop :=
  d.index ≤ maxEventHandlers ∧ ∃ late, handlers.drop d.index = due ++ late

/-- The books are those of the table and of its deliveries. -/
structure Kept (s : Event H × Books H) : Prop where
  length_le : s.1.eventHandlers.length ≤ maxEventHandlers
  subscribed : s.2.subscribed = s.1.eventHandlers
  booked : List.Forall₂ (Booked s.1.eventHandlers) s.1.deliveries s.2.due

omit [DecidableEq H] in
/-- The books say that every delivery reaches the subscribers. -/
theorem Kept.reaches {s : Event H × Books H} (h : Kept s) : Reaches s := by
  refine h.booked.imp fun d due hb => ?_
  obtain ⟨hindex, late, hdrop⟩ := hb
  refine ⟨fun g hg => ⟨?_, ?_⟩, fun hend => ?_, hindex⟩
  · rw [h.subscribed]
    exact mem_of_getElem? hg
  · cases due with
    | nil => exact Or.inl rfl
    | cons x due =>
      refine Or.inr ?_
      rw [← hg, ← head?_drop, hdrop]
      rfl
  · rw [drop_eq_nil_of_le hend] at hdrop
    exact (append_eq_nil_iff.1 hdrop.symm).1

/-- A removal that a delivery allows takes the copies out of what is due. -/
theorem Booked.unsubscribe {handlers due : List (Option H)} {d : Delivery}
    (hb : Booked handlers d due) {h : Option H}
    (hd : h ∉ handlers.take d.index ∨ ∀ g ∈ handlers.drop d.index, g = h) :
    Booked (handlers.filter (· ≠ h)) d (due.filter (· ≠ h)) := by
  obtain ⟨hindex, late, hdrop⟩ := hb
  refine ⟨hindex, ?_⟩
  rcases hd with hbefore | honly
  · -- what stood before the index stays, and so does the index
    have htake : (handlers.take d.index).filter (· ≠ h) = handlers.take d.index :=
      filter_eq_self.2 fun x hx => decide_eq_true fun hxh => hbefore (hxh ▸ hx)
    have hsplit : handlers.filter (· ≠ h) =
        handlers.take d.index ++ (handlers.drop d.index).filter (· ≠ h) := by
      conv_lhs => rw [← take_append_drop d.index handlers, filter_append, htake]
    refine ⟨late.filter (· ≠ h), ?_⟩
    rw [← filter_append, ← hdrop]
    rcases Nat.le_total d.index handlers.length with hle | hle
    · rw [hsplit, drop_left' (length_take_of_le hle)]
    · rw [drop_eq_nil_of_le hle, drop_eq_nil_of_le]
      · rfl
      · exact (length_filter_le _ _).trans hle
  · -- only the one that goes is due
    have hdue : due.filter (· ≠ h) = [] := filter_eq_nil_iff.2 fun x hx hne =>
      of_decide_eq_true hne (honly x (hdrop ▸ mem_append_left late hx))
    exact ⟨_, by rw [hdue, nil_append]⟩

omit [DecidableEq H] in
theorem Booked.turn {handlers due : List (Option H)} {d : Delivery} (hb : Booked handlers d due)
    (hlen : handlers.length ≤ maxEventHandlers) {h : Option H}
    (hh : handlers[d.index]? = some h) (status : ℤ) :
    Booked handlers ⟨d.index + 1, status⟩ due.tail := by
  obtain ⟨-, late, hdrop⟩ := hb
  obtain ⟨hlt, -⟩ := List.getElem?_eq_some_iff.1 hh
  refine ⟨hlt.trans_le hlen, ?_⟩
  rw [← tail_drop, hdrop]
  cases due with
  | nil => exact ⟨late.tail, rfl⟩
  | cons x due => exact ⟨late, rfl⟩

theorem kept_step (s : Event H × Books H) (a : Act H) (t : Event H × Books H) (hs : Kept s)
    (hstep : step s a = some t) (hharmless : Harmless s a t) : Kept t := by
  obtain ⟨⟨handlers, ds⟩, ⟨subscribed, dues⟩⟩ := s
  obtain ⟨hlen, hsub, hbooked⟩ := hs
  obtain rfl : subscribed = handlers := hsub
  cases a with
  | subscribe h =>
    by_cases hroom : subscribed.length < maxEventHandlers
    · have hanswer : PubSub.subscribe subscribed h = (0, subscribed ++ [h]) := if_pos hroom
      simp only [step, hanswer, if_true, Option.some.injEq] at hstep
      subst hstep
      refine ⟨?_, rfl, hbooked.imp fun d due hb => ?_⟩
      · rw [length_append]
        exact hroom
      · obtain ⟨hindex, late, hdrop⟩ := hb
        refine ⟨hindex, late ++ [h].drop (d.index - subscribed.length), ?_⟩
        rw [drop_append, hdrop, append_assoc]
    · have hanswer : PubSub.subscribe subscribed h = (-1, subscribed) := if_neg hroom
      simp only [step, hanswer, Option.some.injEq] at hstep
      subst hstep
      exact ⟨hlen, rfl, hbooked⟩
  | unsubscribe h =>
    obtain rfl := Option.some.inj hstep
    obtain ⟨hchain, hds⟩ := hharmless h rfl
    have hremoved := unsubscribe_eq_filter hchain
    refine ⟨?_, hremoved.symm, ?_⟩
    · rw [hremoved]
      exact (length_filter_le _ _).trans hlen
    · rw [hremoved, forall₂_map_right_iff]
      exact ((forall₂_and_left _ _).2 ⟨hds, hbooked⟩).imp fun d due h => h.2.unsubscribe h.1
  | onEvent =>
    obtain rfl := Option.some.inj hstep
    exact ⟨hlen, rfl, List.Forall₂.cons ⟨Nat.zero_le _, [], (append_nil _).symm⟩ hbooked⟩
  | turn =>
    cases hbooked with
    | nil => cases hstep
    | cons hb hrest =>
      obtain ⟨h, hh, rfl⟩ := Option.map_eq_some_iff.1 hstep
      exact ⟨hlen, rfl, List.Forall₂.cons (hb.turn hlen hh _) hrest⟩
  | leave =>
    cases hbooked with
    | nil => cases hstep
    | cons hb hrest =>
      simp only [step] at hstep
      split at hstep
      · obtain rfl := Option.some.inj hstep
        exact ⟨hlen, rfl, hrest⟩
      · cases hstep

/-! ## Runs -/

/-- **Events reach their subscribers.**  In a run that removes only where the entries that move
are not needed, a handler is called only while it is subscribed, and every delivery calls the
handlers subscribed before it, as often as they are subscribed when their turn comes. -/
theorem onEvent_reaches (as : List (Act H)) (h : EveryStep step Harmless ({}, {}) as) :
    EveryState step Reaches ({}, {}) as :=
  everyState_of_everyStep kept_step (fun _ => Kept.reaches)
    ⟨Nat.zero_le _, rfl, List.Forall₂.nil⟩ h

theorem onEvent_reaches_later_removal :
    EveryState step Reaches (({}, {}) : Event ℕ × Books ℕ)
      [.subscribe (some 0), .subscribe (some 1), .onEvent, .turn, .unsubscribe (some 1)] := by
  refine onEvent_reaches _ (EveryStep.cons rfl nofun (EveryStep.cons rfl nofun
    (EveryStep.cons rfl nofun (EveryStep.cons rfl nofun (EveryStep.cons rfl ?_ trivial)))))
  rintro _ ⟨⟩
  exact ⟨by decide, by decide⟩

/-- Of two copies side by side one stays, and is called by the next event; and a handler that
removes itself takes the turn of the next one. -/
theorem onEvent_misses :
    (¬ EveryState step Reaches (({}, {}) : Event ℕ × Books ℕ)
      [.subscribe (some 0), .subscribe (some 0), .unsubscribe (some 0), .onEvent]) ∧
    ¬ EveryState step Reaches (({}, {}) : Event ℕ × Books ℕ)
      [.subscribe (some 0), .subscribe (some 1), .onEvent, .turn, .unsubscribe (some 0)] := by
  constructor
  · intro h
    have hstays : (unsubscribe [some 0, some 0] (some 0)).2 = [some 0] := by
      rw [unsubscribe, unsubscribeFrom, dif_pos (by decide), if_pos (by decide), unsubscribeFrom,
        dif_neg (by decide)]
      rfl
    obtain ⟨⟨hcalled, -⟩, -⟩ := forall₂_cons.1 (h.last rfl)
    exact absurd (hcalled (some 0) (congrArg (·[0]?) hstays)).1 (by decide)
  · intro h
    have hmoves : (unsubscribe [some 0, some 1] (some 0)).2 = [some 1] :=
      unsubscribe_eq_filter (by decide)
    obtain ⟨⟨-, hend, -⟩, -⟩ := forall₂_cons.1 (h.last rfl)
    exact absurd (hend (congrArg List.length hmoves).le) (by decide)

end PubSub
