/-
# Who is online

`presenceUpsert` keeps a row in D1 for everyone who sends heartbeats, and `presenceCount` counts
the rows of the last five minutes.  An isolate does not write a row again within a minute, removes
the rows of more than a day from time to time, and removes a row at once when its session ends.
-/
import Mathlib.Data.List.AList
import XyDeskRemote.LabelledRun
import XyDeskRemote.WorkerText

open LabelledRun WorkerText Option

namespace WebPresence

/-! ## The rows -/

/-- `PRESENCE_WINDOW_MS`. -/
def windowMs : ℕ := 5 * 60 * 1000

/-- `PRESENCE_WRITE_COALESCE_MS`. -/
def writeCoalesceMs : ℕ := 60 * 1000

/-- A time for each id: `web_presence`, and `presenceWrites` as well. -/
abbrev Seen : Type := AList fun _ : CodeUnits => ℕ

/-- The rows without those of more than a day before `now`. -/
def prune (now : ℕ) (rows : Seen) : Seen where
  entries := rows.entries.filter fun row => ¬ row.2 + 24 * 60 * 60 * 1000 < now
  nodupKeys := rows.nodupKeys.sublist List.filter_sublist

/-- The rows that `presenceCount` counts at a time. -/
def online (now : ℕ) (rows : Seen) : List CodeUnits :=
  (rows.entries.filter fun row => now < row.2 + windowMs).map Sigma.fst

/-- `presenceCount`. -/
def presenceCount (now : ℕ) (rows : Seen) : ℕ := (online now rows).length

/-- The table, and what an isolate remembers of it. -/
structure State where
  rows : Seen
  writes : Seen
  lastPruneAt : ℕ
  clock : ℕ

/-- An event of a session: a heartbeat, or its end. -/
structure Event where
  now : ℕ
  id : CodeUnits
  remove : Bool

/-- The isolate has written the row less than a minute ago; a time of `0` does not count. -/
def isFresh (writes : Seen) (id : CodeUnits) (now : ℕ) : Bool :=
  match writes.lookup id with
  | some last => last ≠ 0 && now < last + writeCoalesceMs
  | none => false

/-- `presenceUpsert`. -/
def presenceUpsert (s : State) (id : CodeUnits) (now : ℕ) (remove : Bool) : State :=
  if remove then { s with rows := s.rows.erase id, writes := s.writes.erase id }
  else if isFresh s.writes id now then s
  else
    let rows := s.rows.insert id now
    let writes := s.writes.insert id now
    if s.lastPruneAt + 10 * 60 * 1000 < now then
      { s with rows := prune now rows, writes, lastPruneAt := now }
    else { s with rows, writes }

/-- An event, on a clock that does not go back. -/
def step (s : State) (e : Event) : Option State :=
  if e.now < s.clock then none
  else some { presenceUpsert s e.id e.now e.remove with clock := e.now }

/-- A new isolate, with the rows that are in the table. -/
def initial (rows : Seen) : State := ⟨rows, ∅, 0, 0⟩

/-- The last event of an id. -/
def lastEvent (id : CodeUnits) (events : List Event) : Option Event :=
  events.reverse.find? fun e => e.id = id

/-- The last heartbeat of an id. -/
def lastHeartbeat (id : CodeUnits) (events : List Event) : Option Event :=
  events.reverse.find? fun e => e.id = id && !e.remove

/-! ## Looking up -/

theorem lookup_prune (now : ℕ) (rows : Seen) (id : CodeUnits) :
    (prune now rows).lookup id =
      (rows.lookup id).filter fun seenAt => ¬ seenAt + 24 * 60 * 60 * 1000 < now := by
  refine ext fun seenAt => ?_
  rw [← mem_def, ← mem_def, AList.mem_lookup_iff, mem_filter_iff,
    AList.mem_lookup_iff, prune, List.mem_filter]

theorem mem_online {now : ℕ} {rows : Seen} {id : CodeUnits} :
    id ∈ online now rows ↔ ∃ seenAt, rows.lookup id = some seenAt ∧ now < seenAt + windowMs := by
  rw [online, List.mem_map]
  constructor
  · rintro ⟨⟨id, seenAt⟩, hmem, rfl⟩
    obtain ⟨hrow, hnow⟩ := List.mem_filter.1 hmem
    exact ⟨seenAt, AList.mem_lookup_iff.2 hrow, of_decide_eq_true hnow⟩
  · rintro ⟨seenAt, hrow, hnow⟩
    exact ⟨⟨id, seenAt⟩, List.mem_filter.2 ⟨AList.mem_lookup_iff.1 hrow, decide_eq_true hnow⟩, rfl⟩

/-! ## The invariant -/

/-- What the table has of an id whose last event is a heartbeat at `now`: a time that lags behind
by less than a minute, or nothing when this time is more than a day ago. -/
structure Lags (now clock : ℕ) (row written : Option ℕ) : Prop where
  now_le : now ≤ clock
  written : ∃ seenAt, written = some seenAt ∧ seenAt ≤ now ∧ now < seenAt + writeCoalesceMs ∧
    (row = some seenAt ∨ row = none ∧ seenAt + 24 * 60 * 60 * 1000 < clock)

/-- **The invariant**, for an id and the events so far, the newest one first. -/
def Tracks (id : CodeUnits) (past : List Event) (s : State) : Prop :=
  match past.find? fun e => e.id = id with
  | none => s.writes.lookup id = none
  | some e =>
    if e.remove then s.rows.lookup id = none ∧ s.writes.lookup id = none
    else Lags e.now s.clock (s.rows.lookup id) (s.writes.lookup id)

section
variable {id : CodeUnits} {past : List Event} {s t : State} {e : Event}

/-- What an event does to the rows of another id: nothing, or they are pruned. -/
theorem lookup_presenceUpsert_ne (hne : id ≠ e.id) :
    (presenceUpsert s e.id e.now e.remove).writes.lookup id = s.writes.lookup id ∧
      ((presenceUpsert s e.id e.now e.remove).rows.lookup id = s.rows.lookup id ∨
        (presenceUpsert s e.id e.now e.remove).rows.lookup id =
          (s.rows.lookup id).filter fun seenAt => ¬ seenAt + 24 * 60 * 60 * 1000 < e.now) := by
  rw [presenceUpsert]
  split
  · exact ⟨AList.lookup_erase_ne hne, .inl (AList.lookup_erase_ne hne)⟩
  · split
    · exact ⟨rfl, .inl rfl⟩
    · split
      · refine ⟨AList.lookup_insert_ne hne, .inr ?_⟩
        rw [lookup_prune, AList.lookup_insert_ne hne]
      · exact ⟨AList.lookup_insert_ne hne, .inl (AList.lookup_insert_ne hne)⟩

theorem lookup_presenceUpsert_write (hremove : e.remove = false)
    (hfresh : isFresh s.writes e.id e.now = false) :
    (presenceUpsert s e.id e.now e.remove).writes.lookup e.id = some e.now ∧
      (presenceUpsert s e.id e.now e.remove).rows.lookup e.id = some e.now := by
  rw [presenceUpsert, hremove, if_neg Bool.false_ne_true, hfresh, if_neg Bool.false_ne_true]
  split
  · refine ⟨AList.lookup_insert _, ?_⟩
    have hkeep : ¬ e.now + 24 * 60 * 60 * 1000 < e.now := Nat.not_lt.2 (Nat.le_add_right _ _)
    rw [lookup_prune, AList.lookup_insert, filter_some, if_pos (decide_eq_true hkeep)]
  · exact ⟨AList.lookup_insert _, AList.lookup_insert _⟩

theorem Lags.later {now clock later : ℕ} {row written : Option ℕ} (h : Lags now clock row written)
    (hle : clock ≤ later) : Lags now later row written := by
  obtain ⟨seenAt, hwritten, hle', hlt, hrow⟩ := h.written
  refine ⟨Nat.le_trans h.now_le hle, seenAt, hwritten, hle', hlt, hrow.imp_right fun hnone => ?_⟩
  exact ⟨hnone.1, Nat.lt_of_lt_of_le hnone.2 hle⟩

theorem Lags.pruned {now clock : ℕ} {row written : Option ℕ} (h : Lags now clock row written) :
    Lags now clock (row.filter fun seenAt => ¬ seenAt + 24 * 60 * 60 * 1000 < clock) written := by
  obtain ⟨seenAt, hwritten, hle, hlt, hrow⟩ := h.written
  refine ⟨h.now_le, seenAt, hwritten, hle, hlt, ?_⟩
  rcases hrow with rfl | ⟨rfl, hold⟩
  · by_cases hold : seenAt + 24 * 60 * 60 * 1000 < clock
    · exact .inr ⟨by rw [filter_some, if_neg (by simpa using hold)], hold⟩
    · exact .inl (by rw [filter_some, if_pos (decide_eq_true hold)])
  · exact .inr ⟨rfl, hold⟩

/-- An event of another id. -/
theorem tracks_other (h : Tracks id past s) (hne : e.id ≠ id) (hclock : s.clock ≤ e.now) :
    Tracks id (e :: past) { presenceUpsert s e.id e.now e.remove with clock := e.now } := by
  obtain ⟨hwrites, hrows⟩ := @lookup_presenceUpsert_ne id s e (Ne.symm hne)
  rw [Tracks] at h ⊢
  rw [List.find?_cons_of_neg (by simpa using hne)]
  rcases hlast : past.find? (fun e => e.id = id) with _ | last
  · rw [hlast] at h ⊢
    exact hwrites.trans h
  · rw [hlast] at h ⊢
    dsimp only at h ⊢
    split at h
    next hremove =>
      rw [if_pos hremove]
      refine ⟨?_, hwrites.trans h.2⟩
      rcases hrows with hrows | hrows
      · exact hrows.trans h.1
      · rw [hrows, h.1]
        rfl
    next hremove =>
      rw [if_neg hremove, hwrites]
      rcases hrows with hrows | hrows
      · rw [hrows]
        exact h.later hclock
      · rw [hrows]
        exact (h.later hclock).pruned

/-- What is fresh has had a heartbeat, and no end since. -/
theorem lags_of_fresh {now : ℕ} (h : Tracks id past s) (hfresh : isFresh s.writes id now = true)
    (hclock : s.clock ≤ now) : Lags now now (s.rows.lookup id) (s.writes.lookup id) := by
  rw [isFresh] at hfresh
  rw [Tracks] at h
  rcases hlast : past.find? (fun e => e.id = id) with _ | last
  · rw [hlast] at h
    dsimp only at h
    rw [h] at hfresh
    cases hfresh
  · rw [hlast] at h
    dsimp only at h
    split at h
    · rw [h.2] at hfresh
      cases hfresh
    · have hlater := h.later hclock
      obtain ⟨seenAt, hwritten, hle, -, hrow⟩ := hlater.written
      rw [hwritten, Bool.and_eq_true, decide_eq_true_iff, decide_eq_true_iff] at hfresh
      exact ⟨Nat.le_refl _, seenAt, hwritten, Nat.le_trans hle hlater.now_le, hfresh.2, hrow⟩

theorem tracks_own (h : Tracks e.id past s) (hclock : s.clock ≤ e.now) :
    Tracks e.id (e :: past) { presenceUpsert s e.id e.now e.remove with clock := e.now } := by
  have hfind : (e :: past).find? (fun a => a.id = e.id) = some e :=
    List.find?_cons_of_pos (decide_eq_true rfl)
  rw [Tracks, hfind]
  dsimp only
  by_cases hremove : e.remove = true
  · rw [if_pos hremove, presenceUpsert, if_pos hremove]
    exact ⟨AList.lookup_erase _ _, AList.lookup_erase _ _⟩
  · rw [if_neg hremove]
    by_cases hfresh : isFresh s.writes e.id e.now = true
    · rw [presenceUpsert, if_neg hremove, if_pos hfresh]
      exact lags_of_fresh h hfresh hclock
    · obtain ⟨hwrites, hrows⟩ := lookup_presenceUpsert_write (Bool.eq_false_iff.2 hremove)
        (Bool.eq_false_iff.2 hfresh)
      rw [hwrites, hrows]
      exact ⟨Nat.le_refl _, e.now, rfl, Nat.le_refl _, Nat.lt_add_of_pos_right (by decide),
        .inl rfl⟩

theorem tracks_step (h : Tracks id past s) (hstep : step s e = some t) :
    Tracks id (e :: past) t := by
  rw [step] at hstep
  split at hstep
  · cases hstep
  next hclock =>
    obtain rfl := some.inj hstep
    by_cases hid : e.id = id
    · subst hid
      exact tracks_own h (Nat.le_of_not_lt hclock)
    · exact tracks_other h hid (Nat.le_of_not_lt hclock)

theorem tracks_of_run {rows : Seen} {events : List Event}
    (h : run step (initial rows) events = some s) : Tracks id events.reverse s := by
  refine run_induct_past (fun past s e t hs hstep => tracks_step hs hstep) ?_ h
  exact AList.lookup_empty id

/-! ## Who is online -/

theorem lastHeartbeat_eq {events : List Event} (he : lastEvent id events = some e)
    (hremove : e.remove = false) : lastHeartbeat id events = some e := by
  rw [lastEvent, List.find?_eq_some_iff_append] at he
  rw [lastHeartbeat, List.find?_eq_some_iff_append]
  obtain ⟨hid, front, back, hevents, hfront⟩ := he
  refine ⟨?_, front, back, hevents, fun a ha => ?_⟩
  · rw [hid, hremove]
    rfl
  · have hother := hfront a ha
    rw [Bool.not_eq_true'] at hother ⊢
    rw [hother, Bool.false_and]

end

/-- **Rows that are not written do not matter.**  At every time after the last event, an id is
counted if its last event is a heartbeat of the last four minutes, and it is not if its last event
is an end, or its last heartbeat is five minutes ago. -/
theorem online_of_events {rows : Seen} {events : List Event} {s : State} {t : ℕ}
    (h : run step (initial rows) events = some s) (ht : s.clock ≤ t) (id : CodeUnits) :
    (∀ e, lastEvent id events = some e → e.remove = false → t < e.now + 240 * 1000 →
      id ∈ online t s.rows) ∧
    (∀ e, lastEvent id events = some e → e.remove = true → id ∉ online t s.rows) ∧
    (∀ e, lastHeartbeat id events = some e → e.now + 300 * 1000 ≤ t → id ∉ online t s.rows) := by
  have htracks : Tracks id events.reverse s := tracks_of_run h
  have hend : ∀ e, lastEvent id events = some e → e.remove = true → id ∉ online t s.rows := by
    intro e he hremove
    rw [Tracks, ← lastEvent, he] at htracks
    dsimp only at htracks
    rw [if_pos hremove] at htracks
    rw [mem_online]
    rintro ⟨seenAt, hrow, -⟩
    exact absurd (htracks.1.symm.trans hrow) (some_ne_none _).symm
  have hbeat : ∀ e, lastEvent id events = some e → e.remove = false →
      Lags e.now t (s.rows.lookup id) (s.writes.lookup id) := by
    intro e he hremove
    rw [Tracks, ← lastEvent, he] at htracks
    dsimp only at htracks
    rw [if_neg (Bool.eq_false_iff.1 hremove)] at htracks
    exact htracks.later ht
  refine ⟨fun e he hremove hrecent => ?_, hend, fun e he hold => ?_⟩
  · obtain ⟨seenAt, -, -, hlag, hrow⟩ := (hbeat e he hremove).written
    rw [mem_online]
    rw [writeCoalesceMs] at hlag
    rcases hrow with hrow | ⟨-, hgone⟩
    · refine ⟨seenAt, hrow, ?_⟩
      rw [windowMs]
      omega
    · omega
  · rcases hlast : lastEvent id events with _ | last
    · -- there is no event without a last one
      rw [lastEvent, List.find?_eq_none] at hlast
      have hmem := List.mem_of_find?_eq_some he
      have hid := List.find?_some he
      rw [Bool.and_eq_true] at hid
      exact absurd hid.1 (hlast e hmem)
    · by_cases hremove : last.remove = true
      · exact hend last hlast hremove
      · have hremove' : last.remove = false := Bool.eq_false_iff.2 hremove
        obtain rfl := some.inj ((lastHeartbeat_eq hlast hremove').symm.trans he)
        obtain ⟨seenAt, -, hle, -, hrow⟩ := (hbeat last hlast hremove').written
        rw [mem_online]
        rintro ⟨seenAt', hrow', hcounted⟩
        rw [windowMs] at hcounted
        rcases hrow with hrow | ⟨hrow, -⟩
        · obtain rfl := some.inj (hrow.symm.trans hrow')
          omega
        · exact absurd (hrow.symm.trans hrow') (some_ne_none _).symm

/-- Two heartbeats, of which the second is not written, and the end of somebody else. -/
theorem online_of_events_two : ∃ s : State, s.rows.lookup (lit "a") = some 1000 ∧
    lit "a" ∈ online 260000 s.rows ∧ lit "b" ∉ online 260000 s.rows := by
  obtain ⟨s, hrun, hclock, hrow⟩ : ∃ s, run step (initial ∅) [⟨1000, lit "a", false⟩,
      ⟨2000, lit "b", false⟩, ⟨60000, lit "a", false⟩, ⟨61000, lit "b", true⟩] = some s ∧
      s.clock = 61000 ∧ s.rows.lookup (lit "a") = some 1000 :=
    ⟨_, rfl, rfl, by decide +kernel⟩
  have hlater : s.clock ≤ 260000 := hclock ▸ by decide
  refine ⟨s, hrow, ?_, ?_⟩
  · exact (online_of_events hrun hlater (lit "a")).1 ⟨60000, lit "a", false⟩ rfl rfl (by decide)
  · exact (online_of_events hrun hlater (lit "b")).2.1 ⟨61000, lit "b", true⟩ rfl rfl

end WebPresence
