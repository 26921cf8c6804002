/-
# The resolve limit of the PC directory

Requests for ids interleave at their awaits, over a store whose calls are atomic, within
one minute of the clock.  The limiter reads its counter and writes it back one higher in
two calls, so that a request may overwrite what another one counted in between.
-/
import Mathlib.Data.List.Nodup
import XyDeskRemote.LabelledRun
import XyDeskRemote.PcRelay

open LabelledRun WorkerText List

/-! ## Interleaved requests -/

/-- The store and where every request waits. -/
structure ResolveSystem (ι : Type*) where
  kv : RelayKv
  requests : ι → ResolveState

namespace ResolveSystem

variable {ι : Type*} [DecidableEq ι]

/-- All requests arrive. -/
def initial (kv : RelayKv) (reqs : ι → ResolveRequest) : ResolveSystem ι :=
  ⟨kv, fun i => .arrived (reqs i)⟩

/-- The system after request `i` did `r`: what it left of the store and where it waits. -/
def moved (s : ResolveSystem ι) (i : ι) (r : RelayKv × ResolveState) : ResolveSystem ι :=
  ⟨r.1, Function.update s.requests i r.2⟩

/-- One request goes on to its next await, at a time of the minute. -/
def step (env : RelayEnv) (minute : Nat) (s : ResolveSystem ι) (a : ι × Nat) :
    Option (ResolveSystem ι) :=
  if a.2 / 60000 = minute then some (s.moved a.1 (resolveStep env s.kv a.2 (s.requests a.1)))
  else none

/-- The counter that a request is counted in. -/
def counterKey (env : RelayEnv) (minute : Nat) (ip : Option CodeUnits) : CodeUnits :=
  rlKey (env.sha256Hex (lit "xydesk-pc-relay-ip:" ++ ip.getD (lit "unknown"))) minute

/-- The request got past the limiter: it counted itself and reads its record, or has
read it. -/
def pastLimiter : ResolveState → Bool
  | .reading _ _ => true
  | .served _ _ => true
  | _ => false

/-- What the state of a request knows of it. -/
def Belongs (env : RelayEnv) (minute : Nat) (r : ResolveRequest) : ResolveState → Prop
  | .arrived r' => r' = r
  | .digesting _ ip => ip = r.ip.getD (lit "unknown")
  | .counting _ key => key = counterKey env minute r.ip
  | .writing _ key seen =>
    key = counterKey env minute r.ip ∧ seen < pcRelayResolveLimitPerMinute
  | .reading _ key => key = counterKey env minute r.ip
  | .refused _ => True
  | .served key _ => key = counterKey env minute r.ip

/-- A write of the counter finds it as the request read it: no other request has written
it since. -/
def CountKept (s : ResolveSystem ι) (a : ι × Nat) : Prop :=
  match s.requests a.1 with
  | .writing _ key seen => countOf (s.kv.get key a.2) = seen
  | _ => True

/-- At most 30 requests from the address `ip` got past the limiter. -/
def WithinLimit (reqs : ι → ResolveRequest) (ip : Option CodeUnits) (s : ResolveSystem ι) :
    Prop :=
  ∀ past : List ι, past.Nodup → (∀ i ∈ past, pastLimiter (s.requests i) = true ∧
    (reqs i).ip = ip) → past.length ≤ pcRelayResolveLimitPerMinute

/-- The counter `key` stands at `n` whenever it is read in this minute. -/
def CounterAt (minute : Nat) (key : CodeUnits) (n : Nat) (s : ResolveSystem ι) : Prop :=
  ∀ t, t / 60000 = minute → countOf (s.kv.get key t) = n

/-- The invariant: the counter has counted the requests that got past it, and does not
exceed the limit. -/
structure Counted (env : RelayEnv) (minute : Nat) (reqs : ι → ResolveRequest)
    (ip : Option CodeUnits) (s : ResolveSystem ι) : Prop where
  belongs : ∀ i, Belongs env minute (reqs i) (s.requests i)
  counter : ∃ n, CounterAt minute (counterKey env minute ip) n s ∧
    n ≤ pcRelayResolveLimitPerMinute ∧
    ∀ past : List ι, past.Nodup → (∀ i ∈ past, pastLimiter (s.requests i) = true ∧
      (reqs i).ip = ip) → past.length ≤ n

/-! ## One step -/

section Step

variable {env : RelayEnv} {minute : Nat} {reqs : ι → ResolveRequest} {ip : Option CodeUnits}

/-- A request stays true to what it is. -/
theorem belongs_resolveStep {kv : RelayKv} {t : Nat} (ht : t / 60000 = minute)
    {r : ResolveRequest} {st : ResolveState} (h : Belongs env minute r st) :
    Belongs env minute r (resolveStep env kv t st).2 := by
  cases st with
  | arrived r' =>
    obtain rfl : r' = r := h
    unfold resolveStep
    dsimp only
    split
    · split
      · rfl
      · trivial
    · trivial
  | digesting id ip =>
    obtain rfl : ip = r.ip.getD (lit "unknown") := h
    show rlKey _ (t / 60000) = counterKey env minute r.ip
    rw [ht]
    rfl
  | counting id key =>
    unfold resolveStep
    dsimp only
    split
    · trivial
    · next hseen => exact ⟨h, Nat.lt_of_not_ge hseen⟩
  | writing id key seen => exact h.1
  | reading id key => exact h
  | refused response => trivial
  | served key response => exact h

/-- A step that is not a write of a counter leaves the store alone, and lets a request
past the limiter only if it was past it. -/
theorem resolveStep_quiet {kv : RelayKv} {t : Nat} {st : ResolveState}
    (h : ∀ id key seen, st ≠ .writing id key seen) :
    (resolveStep env kv t st).1 = kv ∧
      pastLimiter (resolveStep env kv t st).2 = pastLimiter st := by
  cases st with
  | arrived r =>
    unfold resolveStep
    dsimp only
    split
    · split <;> exact ⟨rfl, rfl⟩
    · exact ⟨rfl, rfl⟩
  | digesting id ip => exact ⟨rfl, rfl⟩
  | counting id key =>
    unfold resolveStep
    dsimp only
    split <;> exact ⟨rfl, rfl⟩
  | writing id key seen => exact absurd rfl (h id key seen)
  | reading id key => exact ⟨rfl, rfl⟩
  | refused response => exact ⟨rfl, rfl⟩
  | served key response => exact ⟨rfl, rfl⟩

theorem get_put_counter (kv : RelayKv) (key : CodeUnits) (n : Nat) {t t' : Nat}
    (ht : t / 60000 = minute) (ht' : t' / 60000 = minute) :
    countOf ((kv.put key (.count n) (some 120) t).get key t') = n := by
  rw [ExpiringStore.get_put_of_lt kv key _ (by omega)]
  rfl

/-- Leaving one request out of a list of requests leaves one less at most. -/
theorem length_le_of_erase {past : List ι} (hnodup : past.Nodup) (i : ι) {n : Nat}
    (h : ∀ rest : List ι, rest.Nodup → (∀ j ∈ rest, j ∈ past ∧ j ≠ i) → rest.length ≤ n) :
    past.length ≤ n + 1 := by
  have hrest := h (past.erase i) (hnodup.erase i) fun j hj =>
    ⟨mem_of_mem_erase hj, fun heq => hnodup.not_mem_erase (heq ▸ hj)⟩
  rw [length_erase] at hrest
  split at hrest <;> omega

theorem step_eq_some {s t : ResolveSystem ι} {a : ι × Nat} :
    step env minute s a = some t ↔ a.2 / 60000 = minute ∧
      t = s.moved a.1 (resolveStep env s.kv a.2 (s.requests a.1)) := by
  rw [step, Option.ite_none_right_eq_some, Option.some_inj, eq_comm (a := t)]

section Moved

variable (s : ResolveSystem ι) {i j : ι} (r r' : RelayKv × ResolveState)

@[simp] theorem moved_kv : (s.moved i r).kv = r.1 := rfl

@[simp] theorem moved_requests_self : (s.moved i r).requests i = r.2 :=
  Function.update_self ..

theorem moved_requests_of_ne (h : j ≠ i) : (s.moved i r).requests j = s.requests j :=
  Function.update_of_ne h ..

@[simp] theorem moved_moved : (s.moved i r).moved i r' = s.moved i r' := by
  rw [moved, moved, moved, Function.update_idem]

end Moved

omit [DecidableEq ι] in
/-- A step that leaves the counter and lets no further request of the address past it. -/
theorem counter_of_quiet {s t : ResolveSystem ι} (h : Counted env minute reqs ip s)
    (hkv : ∀ t', t' / 60000 = minute → countOf (t.kv.get (counterKey env minute ip) t') =
      countOf (s.kv.get (counterKey env minute ip) t'))
    (hpast : ∀ j, (reqs j).ip = ip → pastLimiter (t.requests j) = true →
      pastLimiter (s.requests j) = true) :
    ∃ n, CounterAt minute (counterKey env minute ip) n t ∧
      n ≤ pcRelayResolveLimitPerMinute ∧
      ∀ past : List ι, past.Nodup → (∀ i ∈ past, pastLimiter (t.requests i) = true ∧
        (reqs i).ip = ip) → past.length ≤ n := by
  obtain ⟨n, hcounter, hlimit, hbound⟩ := h.counter
  refine ⟨n, fun t' ht' => (hkv t' ht').trans (hcounter t' ht'), hlimit, ?_⟩
  intro past hnodup hall
  refine hbound past hnodup fun j hj => ?_
  obtain ⟨hlimiter, hip⟩ := hall j hj
  exact ⟨hpast j hip hlimiter, hip⟩

/-- A write that finds the counter as it was read: the counter goes up by one, and so may
the number of requests that got past it. -/
theorem counter_of_write {s : ResolveSystem ι} {i : ι} {id : CodeUnits} {seen now : Nat}
    (h : Counted env minute reqs ip s) (htime : now / 60000 = minute)
    (hst : s.requests i = .writing id (counterKey env minute ip) seen)
    (hfound : countOf (s.kv.get (counterKey env minute ip) now) = seen)
    (hseen : seen < pcRelayResolveLimitPerMinute) :
    ∃ n, CounterAt minute (counterKey env minute ip) n
        (s.moved i (resolveStep env s.kv now (s.requests i))) ∧
      n ≤ pcRelayResolveLimitPerMinute ∧
      ∀ past : List ι, past.Nodup → (∀ j ∈ past, pastLimiter
        ((s.moved i (resolveStep env s.kv now (s.requests i))).requests j) = true ∧
        (reqs j).ip = ip) → past.length ≤ n := by
  obtain ⟨n, hcounter, -, hpast⟩ := h.counter
  have hkv : (resolveStep env s.kv now (s.requests i)).1 =
      s.kv.put (counterKey env minute ip) (.count (seen + 1)) (some 120) now := by
    rw [hst]
    rfl
  refine ⟨seen + 1, ?_, hseen, ?_⟩
  · intro t' ht'
    rw [moved_kv, hkv]
    exact get_put_counter s.kv _ (seen + 1) htime ht'
  · intro past hnodup hall
    have hn : n = seen := by rw [← hcounter now htime, hfound]
    rw [← hn]
    refine length_le_of_erase hnodup i fun rest hrest hmem => hpast rest hrest fun j hj => ?_
    obtain ⟨hjpast, hji⟩ := hmem j hj
    have hjall := hall j hjpast
    rw [moved_requests_of_ne _ _ hji] at hjall
    exact hjall

/-- **A step whose write, if it is one, finds the counter as it was read keeps the
invariant.** -/
theorem counted_step {s t : ResolveSystem ι} {a : ι × Nat} (h : Counted env minute reqs ip s)
    (hstep : step env minute s a = some t) (hkept : CountKept s a) :
    Counted env minute reqs ip t := by
  obtain ⟨htime, rfl⟩ := step_eq_some.1 hstep
  obtain ⟨i, now⟩ := a
  dsimp only at htime ⊢
  refine ⟨?_, ?_⟩
  · intro j
    by_cases hji : j = i
    · subst hji
      rw [moved_requests_self]
      exact belongs_resolveStep htime (h.belongs j)
    · rw [moved_requests_of_ne _ _ hji]
      exact h.belongs j
  by_cases hwriting : ∃ id key seen, s.requests i = .writing id key seen
  · obtain ⟨id, key, seen, hst⟩ := hwriting
    have hwrite := h.belongs i
    rw [hst] at hwrite
    obtain ⟨hkey, hseen⟩ := hwrite
    by_cases hsame : key = counterKey env minute ip
    · subst hsame
      have hfound : countOf (s.kv.get (counterKey env minute ip) now) = seen := by
        rw [CountKept, hst] at hkept
        exact hkept
      exact counter_of_write h htime hst hfound hseen
    · -- the counter of another address
      have hkv : (resolveStep env s.kv now (s.requests i)).1 =
          s.kv.put key (.count (seen + 1)) (some 120) now := by
        rw [hst]
        rfl
      refine counter_of_quiet h (fun t' _ => ?_) (fun j hip hlimiter => ?_)
      · rw [moved_kv, hkv, ExpiringStore.get_put_of_ne _ (Ne.symm hsame)]
      · have hji : j ≠ i := by
          rintro rfl
          rw [hip] at hkey
          exact hsame hkey
        rw [moved_requests_of_ne _ _ hji] at hlimiter
        exact hlimiter
  · have hquiet : (resolveStep env s.kv now (s.requests i)).1 = s.kv ∧
        pastLimiter (resolveStep env s.kv now (s.requests i)).2 = pastLimiter (s.requests i) :=
      resolveStep_quiet fun id key seen hst => hwriting ⟨id, key, seen, hst⟩
    refine counter_of_quiet h (fun t' _ => by rw [moved_kv, hquiet.1]) (fun j _ hlimiter => ?_)
    by_cases hji : j = i
    · subst hji
      rw [moved_requests_self, hquiet.2] at hlimiter
      exact hlimiter
    · rw [moved_requests_of_ne _ _ hji] at hlimiter
      exact hlimiter

end Step

omit [DecidableEq ι] in
theorem counted_initial {env : RelayEnv} {minute : Nat} {reqs : ι → ResolveRequest}
    {ip : Option CodeUnits} {kv : RelayKv}
    (hkv : kv.entries (counterKey env minute ip) = none) :
    Counted env minute reqs ip (initial kv reqs) where
  belongs _ := rfl
  counter := by
    refine ⟨0, ?_, Nat.zero_le _, ?_⟩
    · intro t _
      show countOf (kv.get _ t) = 0
      rw [ExpiringStore.get_of_entry_none hkv]
      rfl
    · intro past _ hall
      cases past with
      | nil => exact Nat.le_refl 0
      | cons i rest => exact absurd (hall i mem_cons_self).1 Bool.false_ne_true

/-- **The limit holds while no count is lost.**  In a run within one minute in which
every write of a counter finds it as its request read it, at most 30 requests from one
address get past the limiter. -/
theorem resolveLimit_of_kept {env : RelayEnv} {minute : Nat} {reqs : ι → ResolveRequest}
    {ip : Option CodeUnits} {kv : RelayKv} {labels : List (ι × Nat)}
    (hkv : kv.entries (counterKey env minute ip) = none)
    (hkept : EveryStep (step env minute) (fun s a _ => CountKept s a) (initial kv reqs) labels) :
    EveryState (step env minute) (WithinLimit reqs ip) (initial kv reqs) labels := by
  refine everyState_of_everyStep (fun s a t hs hstep hq => counted_step hs hstep hq) ?_
    (counted_initial hkv) hkept
  intro s hs past hnodup hall
  obtain ⟨n, -, hlimit, hpast⟩ := hs.counter
  exact Nat.le_trans (hpast past hnodup hall) hlimit

/-! ## Losing counts -/

section Lost

variable {env : RelayEnv} {minute : Nat} {t : Nat}

/-- A request that can be looked up. -/
def Valid (env : RelayEnv) (r : ResolveRequest) : Prop :=
  env.kvBound = true ∧ isRelayId (env.toUpperCase r.id) = true

/-- The steps of a request up to its write of the counter, and the rest. -/
def untilCounted (t : Nat) (i : ι) : List (ι × Nat) := [(i, t), (i, t), (i, t)]

/-- The steps behind the counter. -/
def afterCounted (t : Nat) (i : ι) : List (ι × Nat) := [(i, t), (i, t)]

theorem run_one {s : ResolveSystem ι} {i : ι} {st : ResolveState}
    {r : RelayKv × ResolveState} (htime : t / 60000 = minute) (hst : s.requests i = st)
    (hnext : resolveStep env s.kv t st = r) (labels : List (ι × Nat)) :
    run (step env minute) s ((i, t) :: labels) = run (step env minute) (s.moved i r) labels := by
  have hone : step env minute s (i, t) = some (s.moved i r) := by
    rw [step_eq_some]
    refine ⟨htime, ?_⟩
    rw [hst, hnext]
  rw [run_cons, hone, Option.bind_some]

/-- A request that arrives and finds the counter below the limit comes to wait for the
write of its count; nothing else changes. -/
theorem run_untilCounted {s : ResolveSystem ι} {i : ι} {r : ResolveRequest}
    (htime : t / 60000 = minute) (hst : s.requests i = .arrived r) (hvalid : Valid env r)
    (hseen : countOf (s.kv.get (counterKey env minute r.ip) t) < pcRelayResolveLimitPerMinute) :
    ∃ id key seen, run (step env minute) s (untilCounted t i) =
      some (s.moved i (s.kv, .writing id key seen)) := by
  have harrive : resolveStep env s.kv t (.arrived r) =
      (s.kv, .digesting (env.toUpperCase r.id) (r.ip.getD (lit "unknown"))) := by
    rw [resolveStep, if_pos hvalid.1]
    dsimp only
    rw [if_pos hvalid.2]
  have hdigest : resolveStep env s.kv t
      (.digesting (env.toUpperCase r.id) (r.ip.getD (lit "unknown"))) =
        (s.kv, .counting (env.toUpperCase r.id) (counterKey env minute r.ip)) := by
    rw [resolveStep, htime]
    rfl
  have hcount : resolveStep env s.kv t
      (.counting (env.toUpperCase r.id) (counterKey env minute r.ip)) =
        (s.kv, .writing (env.toUpperCase r.id) (counterKey env minute r.ip)
          (countOf (s.kv.get (counterKey env minute r.ip) t))) :=
    if_neg (Nat.not_le.2 hseen)
  refine ⟨env.toUpperCase r.id, counterKey env minute r.ip,
    countOf (s.kv.get (counterKey env minute r.ip) t), ?_⟩
  rw [untilCounted, run_one htime hst harrive,
    run_one htime (moved_requests_self s _) hdigest, moved_moved,
    run_one htime (moved_requests_self s _) hcount, moved_moved, run_nil]

/-- A request that waits for the write of its count gets past the limiter; no other one
moves. -/
theorem run_afterCounted {s : ResolveSystem ι} {i : ι} {id key : CodeUnits} {seen : Nat}
    (htime : t / 60000 = minute) (hst : s.requests i = .writing id key seen) :
    ∃ kv response, run (step env minute) s (afterCounted t i) =
      some (s.moved i (kv, .served key response)) := by
  let kv := s.kv.put key (.count (seen + 1)) (some 120) t
  have hwrite : resolveStep env s.kv t (.writing id key seen) = (kv, .reading id key) := rfl
  have hread : resolveStep env kv t (.reading id key) =
      (kv, .served key (resolveAnswer env id (kv.get (relayKey id) t))) := rfl
  refine ⟨kv, resolveAnswer env id (kv.get (relayKey id) t), ?_⟩
  rw [afterCounted, run_one htime hst hwrite, run_one htime (moved_requests_self s _) hread,
    moved_moved, run_nil]

/-- What every one of the requests does on its own, from a store in `K` and a state in
`A` to a store in `K` and a state in `B`, all of them do one after the other. -/
theorem run_all {steps : ι → List (ι × Nat)} {K : RelayKv → Prop} {A B : ResolveState → Prop}
    (hone : ∀ (s : ResolveSystem ι) (i : ι), K s.kv → A (s.requests i) →
      ∃ r, run (step env minute) s (steps i) = some (s.moved i r) ∧ K r.1 ∧ B r.2)
    {is : List ι} (hnodup : is.Nodup) :
    ∀ {s : ResolveSystem ι}, K s.kv → (∀ i ∈ is, A (s.requests i)) →
      ∃ s', run (step env minute) s (is.flatMap steps) = some s' ∧ K s'.kv ∧
        (∀ i ∈ is, B (s'.requests i)) ∧ ∀ j ∉ is, s'.requests j = s.requests j := by
  induction is with
  | nil =>
    intro s hK _
    exact ⟨s, rfl, hK, by simp, fun j _ => rfl⟩
  | cons i rest ih =>
    intro s hK hA
    obtain ⟨hi, hnodup⟩ := nodup_cons.1 hnodup
    obtain ⟨r, hfirst, hKr, hBr⟩ := hone s i hK (hA i mem_cons_self)
    have hrest : ∀ j ∈ rest, A ((s.moved i r).requests j) := by
      intro j hj
      rw [moved_requests_of_ne _ _ (ne_of_mem_of_not_mem hj hi)]
      exact hA j (mem_cons_of_mem i hj)
    obtain ⟨s', hrun, hK', hB, hother⟩ := ih hnodup hKr hrest
    refine ⟨s', ?_, hK', ?_, ?_⟩
    · rw [flatMap_cons, run_append, hfirst, Option.bind_some, hrun]
    · intro j hj
      rcases mem_cons.1 hj with rfl | hj
      · rw [hother j hi, moved_requests_self]
        exact hBr
      · exact hB j hj
    · intro j hj
      rw [mem_cons, not_or] at hj
      rw [hother j hj.2, moved_requests_of_ne _ _ hj.1]

/-- **Any number of requests gets past the limiter**: first all of them read the counter,
then each of them writes it and reads its record. -/
theorem run_allPastLimiter {r : ResolveRequest} {kv : RelayKv} (htime : t / 60000 = minute)
    (hvalid : Valid env r) (hkv : kv.entries (counterKey env minute r.ip) = none) {is : List ι}
    (hnodup : is.Nodup) :
    ∃ s, run (step env minute) (initial kv fun _ => r)
        (is.flatMap (untilCounted t) ++ is.flatMap (afterCounted t)) = some s ∧
      ∀ i ∈ is, pastLimiter (s.requests i) = true := by
  have hread : countOf (kv.get (counterKey env minute r.ip) t) < pcRelayResolveLimitPerMinute := by
    rw [ExpiringStore.get, hkv]
    exact Nat.zero_lt_succ 29
  have hcount : ∀ (s : ResolveSystem ι) (i : ι),
      countOf (s.kv.get (counterKey env minute r.ip) t) < pcRelayResolveLimitPerMinute →
      s.requests i = .arrived r →
        ∃ q, run (step env minute) s (untilCounted t i) = some (s.moved i q) ∧
          countOf (q.1.get (counterKey env minute r.ip) t) < pcRelayResolveLimitPerMinute ∧
          ∃ id key seen, q.2 = .writing id key seen := by
    intro s i hbelow hst
    obtain ⟨id, key, seen, hrun⟩ := run_untilCounted htime hst hvalid hbelow
    exact ⟨_, hrun, hbelow, id, key, seen, rfl⟩
  have hpass : ∀ (s : ResolveSystem ι) (i : ι), True →
      (∃ id key seen, s.requests i = .writing id key seen) →
        ∃ q, run (step env minute) s (afterCounted t i) = some (s.moved i q) ∧ True ∧
          pastLimiter q.2 = true := by
    rintro s i - ⟨id, key, seen, hst⟩
    obtain ⟨kv, response, hrun⟩ := run_afterCounted htime hst
    exact ⟨_, hrun, trivial, rfl⟩
  obtain ⟨s, hrun, -, hwriting, -⟩ := run_all
    (K := fun kv =>
      countOf (kv.get (counterKey env minute r.ip) t) < pcRelayResolveLimitPerMinute)
    (A := fun st => st = .arrived r) (B := fun st => ∃ id key seen, st = .writing id key seen)
    hcount hnodup (s := initial kv fun _ => r) hread (fun i _ => rfl)
  obtain ⟨s', hrun', -, hpast, -⟩ := run_all (K := fun _ => True)
    (A := fun st => ∃ id key seen, st = .writing id key seen)
    (B := fun st => pastLimiter st = true) hpass hnodup (s := s) trivial hwriting
  refine ⟨s', ?_, hpast⟩
  rw [run_append, hrun, Option.bind_some, hrun']

end Lost

/-! ### Thirty-one requests -/

/-- A deployment on which the platform's functions leave plain texts alone. -/
def plainEnv : RelayEnv where
  kvBound := true
  toUpperCase s := s
  toLowerCase s := s
  numberOf _ := none
  sha256Hex s := s

/-- A request. -/
def sampleResolve : ResolveRequest := ⟨lit "XY1A2B3C4D", some (lit "203.0.113.9")⟩

/-- Thirty-one requests of one address, all of which read the counter before the first
one writes it, get past the limiter. -/
theorem resolveLimit_exceeded :
    ∃ (labels : List (Nat × Nat)) (s : ResolveSystem Nat),
      run (step plainEnv 0) (initial .empty fun _ => sampleResolve) labels = some s ∧
      (∀ i ∈ range 31, pastLimiter (s.requests i) = true) ∧
      ¬ WithinLimit (fun _ => sampleResolve) sampleResolve.ip s := by
  have hvalid : Valid plainEnv sampleResolve := ⟨rfl, by decide⟩
  have hkv : (ExpiringStore.empty : RelayKv).entries
      (counterKey plainEnv 0 sampleResolve.ip) = none := rfl
  obtain ⟨s, hrun, hpast⟩ := run_allPastLimiter (Nat.zero_div 60000) hvalid hkv
    (nodup_range : (range 31).Nodup)
  refine ⟨_, s, hrun, hpast, ?_⟩
  intro hlimit
  have hthirtyone := hlimit (range 31) nodup_range fun i hi => ⟨hpast i hi, rfl⟩
  rw [length_range] at hthirtyone
  exact absurd hthirtyone (by decide)

/-- Two requests, one after the other: each write finds the counter as it was read. -/
theorem resolveLimit_of_kept_sequential :
    EveryState (step plainEnv 0) (WithinLimit (fun _ => sampleResolve) sampleResolve.ip)
      (initial .empty fun _ => sampleResolve)
      ([0, 1].flatMap fun i : Nat => [(i, 0), (i, 0), (i, 0), (i, 0), (i, 0)]) := by
  refine resolveLimit_of_kept rfl ?_
  repeat
    intro t ht
    obtain ⟨-, rfl⟩ := step_eq_some.1 ht
    refine ⟨by first | exact True.intro | exact Nat.eq_of_beq_eq_true rfl, ?_⟩
  trivial

end ResolveSystem
