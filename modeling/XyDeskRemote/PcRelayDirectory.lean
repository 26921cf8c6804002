/-
# What the PC directory returns

Heartbeats and requests for ids come one at a time, on a clock that does not go back,
and the store honours the 300 s that a record may be read.
-/
import XyDeskRemote.LabelledRun
import XyDeskRemote.PcRelay

open LabelledRun WorkerText Option

/-! ## Requests, one at a time -/

/-- A request of the directory. -/
inductive RelayEvent where
  | heartbeat (r : HeartbeatRequest)
  | resolve (r : ResolveRequest)
  deriving DecidableEq

/-- The response of a request for an id, once it is answered. -/
def ResolveState.response : ResolveState → Option RelayResponse
  | refused response => some response
  | served _ response => some response
  | _ => none

/-- So many steps of a request for an id, all at time `t`. -/
def settle (env : RelayEnv) (t : Nat) : Nat → RelayKv × ResolveState → RelayKv × ResolveState
  | 0, p => p
  | n + 1, p => settle env t n (resolveStep env p.1 t p.2)

/-- A request for an id from its arrival to its answer. -/
def pcRelayGet (env : RelayEnv) (kv : RelayKv) (t : Nat) (r : ResolveRequest) :
    RelayKv × ResolveState :=
  settle env t 5 (kv, .arrived r)

/-- The store and the time of the last request. -/
structure Directory where
  kv : RelayKv
  now : Nat

namespace Directory

/-- What a request makes of the store, and its response. -/
def handle (env : RelayEnv) (kv : RelayKv) (t : Nat) :
    RelayEvent → RelayKv × Option RelayResponse
  | .heartbeat r => ((pcRelayPost env kv t r).1, some (pcRelayPost env kv t r).2)
  | .resolve r => ((pcRelayGet env kv t r).1, (pcRelayGet env kv t r).2.response)

/-- A request, on a clock that does not go back. -/
def step (env : RelayEnv) (s : Directory) (a : Nat × RelayEvent) : Option Directory :=
  if s.now ≤ a.1 then some ⟨(handle env s.kv a.1 a.2).1, a.1⟩ else none

/-- The record that a heartbeat of the PC `id` reports, if the request is one. -/
def heartbeatOf (env : RelayEnv) (id : CodeUnits) (a : Nat × RelayEvent) : Option RelayRecord :=
  match a.2 with
  | .heartbeat r =>
    match checkHeartbeat env r a.1 with
    | .ok (id', rec) => if id' = id then some rec else none
    | .error _ => none
  | .resolve _ => none

/-! ## One request -/

/-- A request for an id is refused, and the store is as it was, or it is served from the
record, and only a counter is written. -/
theorem pcRelayGet_cases (env : RelayEnv) (kv : RelayKv) (t : Nat) (r : ResolveRequest) :
    (∃ response, pcRelayGet env kv t r = (kv, .refused response) ∧
      (response = .status 429 (lit "rate_limited") ∨ env.kvBound = false ∨
        isRelayId (env.toUpperCase r.id) = false)) ∨
    ∃ ipHash n key, pcRelayGet env kv t r =
      (kv.put (rlKey ipHash (t / 60000)) (.count n) (some 120) t,
        .served key (resolveAnswer env (env.toUpperCase r.id)
          (kv.get (relayKey (env.toUpperCase r.id)) t))) := by
  cases hbound : env.kvBound with
  | false =>
    have harrive : resolveStep env kv t (.arrived r) =
        (kv, .refused (.status 503 (lit "unavailable"))) := by
      rw [resolveStep, hbound]
      rfl
    refine Or.inl ⟨.status 503 (lit "unavailable"), ?_, Or.inr (Or.inl rfl)⟩
    rw [pcRelayGet, settle, harrive]
    rfl
  | true =>
    cases hid : isRelayId (env.toUpperCase r.id) with
    | false =>
      have harrive : resolveStep env kv t (.arrived r) =
          (kv, .refused (.status 400 (lit "invalid_id"))) := by
        rw [resolveStep, hbound, if_pos rfl]
        dsimp only
        rw [hid]
        rfl
      refine Or.inl ⟨.status 400 (lit "invalid_id"), ?_, Or.inr (Or.inr rfl)⟩
      rw [pcRelayGet, settle, harrive]
      rfl
    | true =>
      have harrive : resolveStep env kv t (.arrived r) =
          (kv, .digesting (env.toUpperCase r.id) (r.ip.getD (lit "unknown"))) := by
        rw [resolveStep, hbound, if_pos rfl]
        dsimp only
        rw [hid]
        rfl
      let ipHash := env.sha256Hex (lit "xydesk-pc-relay-ip:" ++ r.ip.getD (lit "unknown"))
      let key := rlKey ipHash (t / 60000)
      have hsettle : pcRelayGet env kv t r =
          settle env t 3 (kv, .counting (env.toUpperCase r.id) key) := by
        rw [pcRelayGet, settle, harrive]
        rfl
      by_cases hseen : countOf (kv.get key t) ≥ pcRelayResolveLimitPerMinute
      · have hcount : resolveStep env kv t (.counting (env.toUpperCase r.id) key) =
            (kv, .refused (.status 429 (lit "rate_limited"))) := if_pos hseen
        refine Or.inl ⟨.status 429 (lit "rate_limited"), ?_, Or.inl rfl⟩
        rw [hsettle, settle, hcount]
        rfl
      · have hcount : resolveStep env kv t (.counting (env.toUpperCase r.id) key) =
            (kv, .writing (env.toUpperCase r.id) key (countOf (kv.get key t))) :=
          if_neg hseen
        refine Or.inr ⟨ipHash, countOf (kv.get key t) + 1, key, ?_⟩
        rw [hsettle, settle, hcount]
        -- the counter is written before the record is read
        have hread : (kv.put key (.count (countOf (kv.get key t) + 1)) (some 120) t).get
            (relayKey (env.toUpperCase r.id)) t =
              kv.get (relayKey (env.toUpperCase r.id)) t :=
          ExpiringStore.get_put_of_ne _ (relayKey_ne_rlKey _ _ _) ..
        rw [← hread]
        rfl

/-- A request for an id leaves the records alone. -/
theorem pcRelayGet_entries (env : RelayEnv) (kv : RelayKv) (t : Nat) (r : ResolveRequest)
    (id : CodeUnits) :
    (pcRelayGet env kv t r).1.entries (relayKey id) = kv.entries (relayKey id) := by
  rcases pcRelayGet_cases env kv t r with ⟨response, h, -⟩ | ⟨ipHash, n, key, h⟩
  · rw [h]
  · rw [h]
    exact ExpiringStore.entries_put_of_ne _ _ _ _ (relayKey_ne_rlKey id ipHash _)

variable {env : RelayEnv} {t : Nat} {response : RelayResponse}

/-- A request for a valid id is answered from its record, unless it is refused by the
limiter. -/
theorem pcRelayGet_response {kv : RelayKv} {r : ResolveRequest} (hbound : env.kvBound = true)
    (hid : isRelayId (env.toUpperCase r.id) = true)
    (hresponse : (pcRelayGet env kv t r).2.response = some response)
    (hlimited : response ≠ .status 429 (lit "rate_limited")) :
    response = resolveAnswer env (env.toUpperCase r.id)
      (kv.get (relayKey (env.toUpperCase r.id)) t) := by
  rcases pcRelayGet_cases env kv t r with ⟨refusal, h, hrefused⟩ | ⟨ipHash, n, key, h⟩
  · rw [h] at hresponse
    obtain rfl := some.inj hresponse
    rcases hrefused with hrefused | hrefused | hrefused
    · exact absurd hrefused hlimited
    · rw [hrefused] at hbound
      cases hbound
    · rw [hrefused] at hid
      cases hid
  · rw [h] at hresponse
    exact (some.inj hresponse).symm

variable {id : CodeUnits}

/-- Keys of different PCs differ. -/
theorem relayKey_inj {id' : CodeUnits} (h : relayKey id = relayKey id') : id = id' :=
  List.append_cancel_left h

variable {r : HeartbeatRequest} {rec : RelayRecord}

/-- A heartbeat that passes the checks, by whether the record it finds throttles it. -/
theorem pcRelayPost_ok {kv : RelayKv} (hbound : env.kvBound = true)
    (hcheck : checkHeartbeat env r t = .ok (id, rec)) :
    (∃ u, throttledBy t (kv.get (relayKey id) t) = some u ∧
      pcRelayPost env kv t r = (kv, .acknowledged u true)) ∨
    (throttledBy t (kv.get (relayKey id) t) = none ∧
      pcRelayPost env kv t r =
        (kv.put (relayKey id) (.record rec) (some pcRelayTtlSeconds) t,
          .acknowledged t false)) := by
  rw [pcRelayPost, if_pos hbound, hcheck]
  cases hthrottled : throttledBy t (kv.get (relayKey id) t) with
  | some u =>
    left
    refine ⟨u, rfl, ?_⟩
    simp only [hthrottled]
  | none =>
    right
    refine ⟨rfl, ?_⟩
    simp only [hthrottled]

/-- A heartbeat that fails a check changes nothing. -/
theorem pcRelayPost_error {kv : RelayKv} (hcheck : checkHeartbeat env r t = .error response) :
    (pcRelayPost env kv t r).1 = kv := by
  unfold pcRelayPost
  rw [hcheck]
  split <;> rfl

variable {s s' : Directory} {a : Nat × RelayEvent}

/-- A step happens at its time, not before the last one. -/
theorem step_eq_some :
    step env s a = some s' ↔ s.now ≤ a.1 ∧ s' = ⟨(handle env s.kv a.1 a.2).1, a.1⟩ := by
  rw [step, ite_none_right_eq_some, some_inj, eq_comm (a := s')]

/-- **What one request does to the entry of a PC**: nothing, or it writes the record of
the PC's heartbeat, when none of the last 20 s is there. -/
theorem entry_step (hbound : env.kvBound = true) (hstep : step env s a = some s') (id : CodeUnits) :
    s'.kv.entries (relayKey id) =
      match heartbeatOf env id a with
      | none => s.kv.entries (relayKey id)
      | some rec =>
        if (throttledBy a.1 (s.kv.get (relayKey id) a.1)).isSome then
          s.kv.entries (relayKey id)
        else some (.record rec, some (a.1 + pcRelayTtlSeconds * 1000)) := by
  obtain ⟨-, rfl⟩ := step_eq_some.1 hstep
  obtain ⟨t, event⟩ := a
  cases event with
  | resolve q => exact pcRelayGet_entries env s.kv t q id
  | heartbeat r =>
    show (pcRelayPost env s.kv t r).1.entries (relayKey id) = _
    cases hcheck : checkHeartbeat env r t with
    | error response =>
      have hnone : heartbeatOf env id (t, .heartbeat r) = none := by
        simp only [heartbeatOf, hcheck]
      rw [hnone, pcRelayPost_error hcheck]
    | ok reported =>
      obtain ⟨id', rec⟩ := reported
      have hpost := @pcRelayPost_ok env t id' r rec s.kv hbound hcheck
      by_cases hid : id' = id
      · subst hid
        have hsome : heartbeatOf env id' (t, .heartbeat r) = some rec := by
          simp only [heartbeatOf, hcheck, if_pos]
        rw [hsome]
        rcases hpost with ⟨u, hthrottled, hpost⟩ | ⟨hthrottled, hpost⟩
        · rw [hpost]
          simp only [hthrottled, isSome_some, if_pos]
        · rw [hpost]
          simp only [hthrottled, isSome_none]
          exact ExpiringStore.entries_put_self ..
      · have hnone : heartbeatOf env id (t, .heartbeat r) = none := by
          simp only [heartbeatOf, hcheck, if_neg hid]
        rw [hnone]
        rcases hpost with ⟨u, -, hpost⟩ | ⟨-, hpost⟩
        · rw [hpost]
        · rw [hpost]
          exact ExpiringStore.entries_put_of_ne _ _ _ _ fun h => hid (relayKey_inj h).symm

/-! ## The record that is held -/

/-- The directory holds `rec` for the PC, stored at `t₀`. -/
def Holds (id : CodeUnits) (rec : RelayRecord) (t₀ : Nat) (s : Directory) : Prop :=
  s.kv.entries (relayKey id) = some (.record rec, some (t₀ + pcRelayTtlSeconds * 1000))

/-- A record that is held is read until it expires. -/
theorem Holds.get {t₀ : Nat} (h : Holds id rec t₀ s) (ht : t < t₀ + pcRelayTtlSeconds * 1000) :
    s.kv.get (relayKey id) t = some (.record rec) := by
  rw [ExpiringStore.get, h, bind_some]
  exact if_pos (decide_eq_true ht)

/-- **A request finds the record that is held**, unless the limiter refuses it. -/
theorem Holds.resolve {t₀ : Nat} (h : Holds id rec t₀ s) (ht : t < t₀ + pcRelayTtlSeconds * 1000)
    (hbound : env.kvBound = true) (hid : isRelayId id = true) {q : ResolveRequest}
    (hq : env.toUpperCase q.id = id)
    (hresponse : (handle env s.kv t (.resolve q)).2 = some response)
    (hlimited : response ≠ .status 429 (lit "rate_limited")) :
    response = .resolved id rec.hostname (rec.candidates env) rec.updatedAt := by
  subst hq
  rw [pcRelayGet_response hbound hid hresponse hlimited, h.get ht]
  rfl

/-- Requests that are no heartbeats of the PC leave its record alone. -/
theorem Holds.run (hbound : env.kvBound = true) {t₀ : Nat} {events : List (Nat × RelayEvent)} :
    ∀ {s s' : Directory}, Holds id rec t₀ s → run (step env) s events = some s' →
      (∀ a ∈ events, heartbeatOf env id a = none) → Holds id rec t₀ s' := by
  induction events with
  | nil =>
    intro s s' h hrun _
    obtain rfl := some.inj hrun
    exact h
  | cons a rest ih =>
    intro s s' h hrun hquiet
    obtain ⟨u, hstep, hrest⟩ := run_cons_eq_some.1 hrun
    have hentry := entry_step hbound hstep id
    rw [hquiet a List.mem_cons_self] at hentry
    exact ih (hentry.trans h) hrest fun b hb => hquiet b (List.mem_cons_of_mem a hb)

/-! ## A PC that reports regularly -/

/-- The time of the last heartbeat of the PC, after `last`. -/
def lastHeartbeat (env : RelayEnv) (id : CodeUnits) (last : Option Nat) :
    List (Nat × RelayEvent) → Option Nat
  | [] => last
  | a :: events =>
    lastHeartbeat env id (if (heartbeatOf env id a).isSome then some a.1 else last) events

/-- Every heartbeat of the PC comes within `gap` milliseconds of the one before, the
first one of which was at `last`, if that is given. -/
def GapsWithin (env : RelayEnv) (id : CodeUnits) (gap : Nat) (last : Option Nat) :
    List (Nat × RelayEvent) → Prop
  | [] => True
  | a :: events =>
    if (heartbeatOf env id a).isSome then
      (∀ l ∈ last, a.1 ≤ l + gap) ∧ GapsWithin env id gap (some a.1) events
    else GapsWithin env id gap last events

/-- A PC whose last heartbeat was at `l`: its record is at most 20 s older. -/
def Steady (id : CodeUnits) (last : Option Nat) (s : Directory) : Prop :=
  match last with
  | none => s.kv.entries (relayKey id) = none
  | some l => l ≤ s.now ∧ ∃ rec, Holds id rec rec.updatedAt s ∧ rec.updatedAt ≤ l ∧
      l < rec.updatedAt + 20000

theorem throttledBy_record (t : Nat) (rec : RelayRecord) :
    (throttledBy t (some (.record rec))).isSome = decide (t < rec.updatedAt + 20000) := by
  rw [throttledBy]
  by_cases h : (t : Int) - rec.updatedAt < 20000
  · rw [if_pos h, decide_eq_true (by omega)]
    rfl
  · rw [if_neg h, decide_eq_false (by omega)]
    rfl

/-- What a heartbeat that passes the checks reports: a valid id, at its own time. -/
theorem checkHeartbeat_ok (h : checkHeartbeat env r t = .ok (id, rec)) :
    isRelayId id = true ∧ rec.updatedAt = t := by
  unfold checkHeartbeat at h
  split at h
  · cases h
  split at h
  · cases h
  · cases h
  · cases h
  next body =>
    dsimp only at h
    split at h
    · cases h
    next hid =>
      split at h
      · cases h
      split at h
      · cases h
      split at h
      · cases h
      rw [Except.ok.injEq, Prod.mk.injEq] at h
      obtain ⟨rfl, rfl⟩ := h
      rw [Bool.not_eq_true', Bool.not_eq_false] at hid
      exact ⟨hid, rfl⟩

/-- The request behind a heartbeat of the PC. -/
theorem heartbeatOf_eq_some (h : heartbeatOf env id a = some rec) :
    isRelayId id = true ∧ rec.updatedAt = a.1 := by
  unfold heartbeatOf at h
  split at h
  · split at h
    · next id' rec' hcheck =>
        obtain ⟨hid, hrec⟩ := ite_none_right_eq_some.1 h
        subst hid
        obtain rfl := some.inj hrec
        exact checkHeartbeat_ok hcheck
    · cases h
  · cases h

/-- **One request keeps the record of a regular PC fresh**: a heartbeat within 280 s of
the last one finds the record, and is written unless the record is younger than 20 s. -/
theorem steady_step (hbound : env.kvBound = true) {last : Option Nat} (h : Steady id last s)
    (hstep : step env s a = some s')
    (hgap : (heartbeatOf env id a).isSome → ∀ l ∈ last, a.1 ≤ l + 280000) :
    Steady id (if (heartbeatOf env id a).isSome then some a.1 else last) s' := by
  have hentry := entry_step hbound hstep id
  obtain ⟨htime, hs'⟩ := step_eq_some.1 hstep
  have hnow : s'.now = a.1 := by rw [hs']
  cases hheartbeat : heartbeatOf env id a with
  | none =>
    rw [hheartbeat] at hentry
    rw [if_neg (by simp)]
    cases last with
    | none => exact hentry.trans h
    | some l =>
      obtain ⟨hl, rec, hholds, hle, hlt⟩ := h
      exact ⟨by omega, rec, hentry.trans hholds, hle, hlt⟩
  | some new =>
    obtain ⟨-, hnew⟩ := heartbeatOf_eq_some hheartbeat
    rw [hheartbeat] at hentry
    rw [if_pos (by simp)]
    refine ⟨by omega, ?_⟩
    cases last with
    | none =>
      -- the first heartbeat finds no record
      have hnone : s.kv.get (relayKey id) a.1 = none := by
        rw [ExpiringStore.get, h]
        rfl
      rw [hnone] at hentry
      refine ⟨new, ?_, by omega, by omega⟩
      rw [Holds, hnew]
      exact hentry
    | some l =>
      obtain ⟨hl, rec, hholds, hle, hlt⟩ := h
      have hwithin := hgap (by simp [hheartbeat]) l rfl
      have hget := hholds.get (show a.1 < rec.updatedAt + pcRelayTtlSeconds * 1000 by
        unfold pcRelayTtlSeconds
        omega)
      rw [hget] at hentry
      simp only [throttledBy_record, decide_eq_true_eq] at hentry
      by_cases hyoung : a.1 < rec.updatedAt + 20000
      · rw [if_pos hyoung] at hentry
        exact ⟨rec, hentry.trans hholds, by omega, hyoung⟩
      · rw [if_neg hyoung] at hentry
        refine ⟨new, ?_, by omega, by omega⟩
        rw [Holds, hnew]
        exact hentry

/-- A run of requests keeps it fresh. -/
theorem steady_run (hbound : env.kvBound = true) {events : List (Nat × RelayEvent)} :
    ∀ {last : Option Nat} {s s' : Directory}, Steady id last s →
      run (step env) s events = some s' → GapsWithin env id 280000 last events →
        Steady id (lastHeartbeat env id last events) s' := by
  induction events with
  | nil =>
    intro last s s' h hrun _
    obtain rfl := some.inj hrun
    exact h
  | cons a rest ih =>
    intro last s s' h hrun hgaps
    obtain ⟨u, hstep, hrest⟩ := run_cons_eq_some.1 hrun
    rw [GapsWithin] at hgaps
    rw [lastHeartbeat]
    by_cases hheartbeat : (heartbeatOf env id a).isSome = true
    · rw [if_pos hheartbeat] at hgaps
      have hsteady := steady_step hbound h hstep fun _ => hgaps.1
      rw [if_pos hheartbeat] at hsteady ⊢
      exact ih hsteady hrest hgaps.2
    · rw [if_neg hheartbeat] at hgaps
      have hsteady := steady_step hbound h hstep fun hsome => absurd hsome hheartbeat
      rw [if_neg hheartbeat] at hsteady ⊢
      exact ih hsteady hrest hgaps

/-- A regular PC is found. -/
theorem Steady.resolve {l : Nat} (h : Steady id (some l) s) (ht : t ≤ l + 280000)
    (hbound : env.kvBound = true) (hid : isRelayId id = true) {q : ResolveRequest}
    (hq : env.toUpperCase q.id = id)
    (hresponse : (handle env s.kv t (.resolve q)).2 = some response)
    (hlimited : response ≠ .status 429 (lit "rate_limited")) :
    ∃ hostname candidates updatedAt,
      response = .resolved id hostname candidates updatedAt := by
  obtain ⟨-, rec, hholds, hle, hlt⟩ := h
  have hfresh : t < rec.updatedAt + pcRelayTtlSeconds * 1000 := by
    unfold pcRelayTtlSeconds
    omega
  exact ⟨_, _, _, hholds.resolve hfresh hbound hid hq hresponse hlimited⟩

/-! ## The directory -/

/-- A heartbeat that is answered without being throttled is the record that is held. -/
theorem holds_of_acknowledged {u : Nat} (hcheck : checkHeartbeat env r t = .ok (id, rec))
    (hanswer : (handle env s.kv t (.heartbeat r)).2 = some (.acknowledged u false))
    (hstep : step env s (t, .heartbeat r) = some s') :
    env.kvBound = true ∧ Holds id rec t s' := by
  obtain ⟨-, rfl⟩ := step_eq_some.1 hstep
  have hresponse : (pcRelayPost env s.kv t r).2 = .acknowledged u false :=
    some.inj hanswer
  have hbound : env.kvBound = true := by
    by_contra hunbound
    rw [pcRelayPost, if_neg hunbound] at hresponse
    cases hresponse
  refine ⟨hbound, ?_⟩
  rcases @pcRelayPost_ok env t id r rec s.kv hbound hcheck with ⟨v, -, hpost⟩ | ⟨-, hpost⟩
  · rw [hpost] at hresponse
    cases hresponse
  · show (pcRelayPost env s.kv t r).1.entries (relayKey id) = _
    rw [hpost]
    exact ExpiringStore.entries_put_self ..

/-- **The directory returns what the PC reported.**  After a heartbeat that is stored, a request
within the 300 s and before the next heartbeat returns its candidates, unless the limiter refuses
it; and a PC whose heartbeats are never more than 280 s apart is always found. -/
theorem directory_returns (env : RelayEnv) :
    (∀ (s s₁ s₂ : Directory) (t₀ u t : Nat) (r : HeartbeatRequest) (id : CodeUnits)
      (rec : RelayRecord) (between : List (Nat × RelayEvent)) (q : ResolveRequest)
      (response : RelayResponse),
      step env s (t₀, .heartbeat r) = some s₁ →
      (handle env s.kv t₀ (.heartbeat r)).2 = some (.acknowledged u false) →
      checkHeartbeat env r t₀ = .ok (id, rec) →
      run (step env) s₁ between = some s₂ → (∀ a ∈ between, heartbeatOf env id a = none) →
      s₂.now ≤ t → t < t₀ + pcRelayTtlSeconds * 1000 → env.toUpperCase q.id = id →
      (handle env s₂.kv t (.resolve q)).2 = some response →
      response ≠ .status 429 (lit "rate_limited") →
        response = .resolved id rec.hostname (rec.candidates env) t₀) ∧
    ∀ (s s' : Directory) (id : CodeUnits) (events : List (Nat × RelayEvent)) (l t : Nat)
      (q : ResolveRequest) (response : RelayResponse),
      env.kvBound = true → isRelayId id = true →
      s.kv.entries (relayKey id) = none → run (step env) s events = some s' →
      GapsWithin env id 280000 none events → lastHeartbeat env id none events = some l →
      s'.now ≤ t → t ≤ l + 280000 → env.toUpperCase q.id = id →
      (handle env s'.kv t (.resolve q)).2 = some response →
      response ≠ .status 429 (lit "rate_limited") →
        ∃ hostname candidates updatedAt,
          response = .resolved id hostname candidates updatedAt := by
  constructor
  · intro s s₁ s₂ t₀ u t r id rec between q response hstep hanswer hcheck hrun hquiet _ ht hq
      hresponse hlimited
    obtain ⟨hbound, hholds⟩ := holds_of_acknowledged hcheck hanswer hstep
    obtain ⟨hid, hupdated⟩ := checkHeartbeat_ok hcheck
    have hfound := (hholds.run hbound hrun hquiet).resolve ht hbound hid hq hresponse hlimited
    rw [hupdated] at hfound
    exact hfound
  · intro s s' id events l t q response hbound hid hempty hrun hgaps hlast _ ht hq hresponse
      hlimited
    have hsteady : Steady id (lastHeartbeat env id none events) s' :=
      steady_run hbound hempty hrun hgaps
    rw [hlast] at hsteady
    exact hsteady.resolve ht hbound hid hq hresponse hlimited

/-! ### Two heartbeats ten seconds apart -/

/-- A deployment on which the platform's functions leave plain texts alone. -/
def directoryEnv : RelayEnv where
  kvBound := true
  toUpperCase s := s
  toLowerCase s := s
  numberOf s := if s = lit "203" then some 203 else some 0
  sha256Hex s := s

/-- The id of a PC. -/
def samplePc : CodeUnits := lit "XY1A2B3C4D"

/-- A heartbeat of the PC from a public address, on `port`. -/
def sampleHeartbeat (port : Int) : HeartbeatRequest where
  jsonContentType := true
  body := .json ⟨samplePc, none, some port, none, none⟩
  ip := some (lit "203.0.113.9")

/-- The record of that heartbeat. -/
def sampleRecord (port : Int) (t : Nat) : RelayRecord :=
  ⟨[], port, lit "203.0.113.9", none, none, t⟩

/-- A request for it. -/
def sampleLookup : ResolveRequest := ⟨samplePc, some (lit "198.51.100.7")⟩

/-- The second heartbeat reports another port; it is answered `ok`, and a request within
the time and before the next heartbeat returns the candidates of the first one. -/
theorem directory_throttled :
    let kv₁ := (handle directoryEnv .empty 0 (.heartbeat (sampleHeartbeat 3389))).1
    let kv₂ := (handle directoryEnv kv₁ 10000 (.heartbeat (sampleHeartbeat 3390))).1
    (handle directoryEnv kv₁ 10000 (.heartbeat (sampleHeartbeat 3390))).2 =
        some (.acknowledged 0 true) ∧
      checkHeartbeat directoryEnv (sampleHeartbeat 3390) 10000 =
        .ok (samplePc, sampleRecord 3390 10000) ∧
      (handle directoryEnv kv₂ 11000 (.resolve sampleLookup)).2 =
        some (.resolved samplePc [] ((sampleRecord 3389 0).candidates directoryEnv) 0) ∧
      (sampleRecord 3389 0).candidates directoryEnv ≠
        (sampleRecord 3390 10000).candidates directoryEnv := by
  refine ⟨by decide, by rfl, by decide, by decide⟩

/-- Two heartbeats 280 seconds apart. -/
def steadyEvents : List (Nat × RelayEvent) :=
  [(0, .heartbeat (sampleHeartbeat 3389)), (280000, .heartbeat (sampleHeartbeat 3390))]

/-- A request a minute after a heartbeat finds what it said, and one that comes 280 seconds after
the second of two heartbeats finds the PC. -/
theorem directory_returns_sample :
    (handle directoryEnv
        (handle directoryEnv .empty 0 (.heartbeat (sampleHeartbeat 3389))).1 60000
        (.resolve sampleLookup)).2 =
      some (.resolved samplePc [] ((sampleRecord 3389 0).candidates directoryEnv) 0) ∧
    ∃ s, run (step directoryEnv) ⟨.empty, 0⟩ steadyEvents = some s ∧
      ∃ hostname candidates updatedAt, (handle directoryEnv s.kv 560000 (.resolve sampleLookup)).2 =
        some (.resolved samplePc hostname candidates updatedAt) := by
  constructor
  · have hanswer : ∃ response, (handle directoryEnv
        (handle directoryEnv .empty 0 (.heartbeat (sampleHeartbeat 3389))).1 60000
        (.resolve sampleLookup)).2 = some response ∧
          response ≠ .status 429 (lit "rate_limited") :=
      ⟨_, rfl, by decide⟩
    obtain ⟨response, hresponse, hlimited⟩ := hanswer
    have hfound := (directory_returns directoryEnv).1 ⟨.empty, 0⟩ _ _ 0 0 60000
      (sampleHeartbeat 3389) samplePc (sampleRecord 3389 0) [] sampleLookup response rfl
      (by decide) (by rfl) rfl (by simp) (by decide) (by decide) rfl hresponse hlimited
    rw [hresponse, hfound]
    rfl
  · have hrun : ∃ s response, run (step directoryEnv) ⟨.empty, 0⟩ steadyEvents = some s ∧
        s.now = 280000 ∧ (handle directoryEnv s.kv 560000 (.resolve sampleLookup)).2 =
          some response ∧ response ≠ .status 429 (lit "rate_limited") :=
      ⟨_, _, rfl, rfl, rfl, by decide⟩
    obtain ⟨s, response, hrun, hnow, hresponse, hlimited⟩ := hrun
    have hgaps : GapsWithin directoryEnv samplePc 280000 none steadyEvents :=
      ⟨nofun, fun l hl => (Option.mem_some_iff.1 hl) ▸ by decide, trivial⟩
    have hfound := (directory_returns directoryEnv).2 ⟨.empty, 0⟩ s samplePc steadyEvents 280000
      560000 sampleLookup response rfl (by decide) rfl hrun hgaps rfl (by omega) (by decide) rfl
      hresponse hlimited
    obtain ⟨hostname, candidates, updatedAt, heq⟩ := hfound
    exact ⟨s, hrun, hostname, candidates, updatedAt, hresponse.trans (congrArg some heq)⟩

end Directory
