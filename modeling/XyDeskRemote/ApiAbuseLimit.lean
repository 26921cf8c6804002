/-
# The flood limit of the worker

`apiAbuseLimit` counts the requests of an address in windows of a minute, one bucket for each
group of endpoints, and answers a refused request with the seconds of a `Retry-After`.

A window is left when *more* than a minute has passed since its start, but the seconds are rounded
up from what is left of the minute itself.
-/
import Mathlib.Data.List.AList
import XyDeskRemote.LabelledRun
import XyDeskRemote.WorkerText

open LabelledRun WorkerText Option

/-! ## The buckets -/

/-- A bucket of `apiAbuseBuckets`. -/
structure AbuseBucket where
  windowAt : ℕ
  count : ℕ

/-- `API_ABUSE_WINDOW_MS`. -/
def AbuseBucket.windowMs : ℕ := 60000

/-- The window of a bucket is over. -/
def AbuseBucket.isOver (bucket : AbuseBucket) (now : ℕ) : Bool :=
  now - bucket.windowAt > windowMs

/-- The seconds until the window of a bucket ends, one at least. -/
def AbuseBucket.retryAfter (bucket : AbuseBucket) (now : ℕ) : ℕ :=
  max 1 ((bucket.windowAt + windowMs - now + 999) / 1000)

/-- `apiAbuseBuckets`; the order of the entries does not matter. -/
abbrev AbuseBuckets : Type := AList fun _ : CodeUnits => AbuseBucket

namespace ApiAbuse

/-- `API_ABUSE_TIERS`. -/
def tiers : List (CodeUnits × ℕ) :=
  [(lit "/api/push-update", 5), (lit "/api/ui/translate", 30), (lit "/api/og", 60)]

/-- The limit of a minute outside of the tiers. -/
def defaultPerMin : ℕ := 3000

/-- The tier of a path. -/
def tier (path : CodeUnits) : Option (CodeUnits × ℕ) :=
  tiers.find? fun t => t.1.isPrefixOf path

/-- The limit of a path. -/
def limit (path : CodeUnits) : ℕ := ((tier path).map Prod.snd).getD defaultPerMin

/-- The bucket of a path and an address. -/
def bucketKey (path ip : CodeUnits) : CodeUnits :=
  ((tier path).map Prod.fst).getD (lit "/api/") ++ lit "|" ++ ip

/-- The entries whose window is not over. -/
def evict (now : ℕ) (buckets : AbuseBuckets) : AbuseBuckets where
  entries := buckets.entries.filter fun e => !e.2.isOver now
  nodupKeys := buckets.nodupKeys.sublist List.filter_sublist

/-- The bucket that a request is counted in, with the request. -/
def countedBucket (now : ℕ) (buckets : AbuseBuckets) (key : CodeUnits) : AbuseBucket :=
  match buckets.lookup key with
  | some bucket =>
    if bucket.isOver now then { windowAt := now, count := 1 }
    else { bucket with count := bucket.count + 1 }
  | none => { windowAt := now, count := 1 }

/-- `apiAbuseLimit` at time `now`: the answer, and the buckets after it. -/
def apiAbuseLimit (now : ℕ) (buckets : AbuseBuckets) (path ip : CodeUnits) :
    Option ℕ × AbuseBuckets :=
  let key := bucketKey path ip
  let bucket := countedBucket now buckets key
  let buckets := buckets.insert key bucket
  let buckets := if buckets.keys.length > 5000 then evict now buckets else buckets
  (if bucket.count > limit path then some (bucket.retryAfter now) else none, buckets)

/-- A call of `apiAbuseLimit`. -/
structure Call where
  now : ℕ
  path : CodeUnits
  ip : CodeUnits

/-- The buckets, and the time of the last call. -/
structure State where
  buckets : AbuseBuckets
  clock : ℕ

/-- A call, on a clock that does not go back. -/
def step (s : State) (a : Call) : Option State :=
  if a.now < s.clock then none
  else some ⟨(apiAbuseLimit a.now s.buckets a.path a.ip).2, a.now⟩

/-- No buckets. -/
def initial : State := ⟨∅, 0⟩

/-! ## What a call changes -/

variable {buckets : AbuseBuckets} {now : ℕ} {key : CodeUnits} {bucket : AbuseBucket}

theorem lookup_evict (hover : bucket.isOver now = false) (h : buckets.lookup key = some bucket) :
    (evict now buckets).lookup key = some bucket := by
  rw [← mem_def, AList.mem_lookup_iff] at h ⊢
  exact List.mem_filter.2 ⟨h, by rw [hover]; rfl⟩

theorem isOver_countedBucket (now : ℕ) (buckets : AbuseBuckets) (key : CodeUnits) :
    (countedBucket now buckets key).isOver now = false := by
  have hnew : AbuseBucket.isOver { windowAt := now, count := 1 } now = false := by
    rw [AbuseBucket.isOver, Nat.sub_self]
    rfl
  rw [countedBucket]
  split
  next bucket _ =>
    split
    next => exact hnew
    next hover => exact Bool.eq_false_iff.2 hover
  next => exact hnew

theorem lookup_apiAbuseLimit (now : ℕ) (buckets : AbuseBuckets) (path ip : CodeUnits) :
    (apiAbuseLimit now buckets path ip).2.lookup (bucketKey path ip) =
      some (countedBucket now buckets (bucketKey path ip)) := by
  rw [apiAbuseLimit]
  dsimp only
  split
  · exact lookup_evict (isOver_countedBucket _ _ _) (AList.lookup_insert _)
  · exact AList.lookup_insert _

/-- **Another bucket** is kept, as long as its window is not over. -/
theorem lookup_apiAbuseLimit_ne {path ip : CodeUnits} (hne : bucketKey path ip ≠ key)
    (hover : bucket.isOver now = false) (h : buckets.lookup key = some bucket) :
    (apiAbuseLimit now buckets path ip).2.lookup key = some bucket := by
  rw [apiAbuseLimit]
  dsimp only
  have hinsert : ∀ b, (buckets.insert (bucketKey path ip) b).lookup key = some bucket := fun b =>
    (AList.lookup_insert_ne hne.symm).trans h
  split
  · exact lookup_evict hover (hinsert _)
  · exact hinsert _

/-- Another bucket is kept or evicted. -/
theorem lookup_apiAbuseLimit_or {path ip : CodeUnits} (hne : bucketKey path ip ≠ key)
    (h : (apiAbuseLimit now buckets path ip).2.lookup key = some bucket) :
    buckets.lookup key = some bucket := by
  rw [apiAbuseLimit] at h
  dsimp only at h
  rw [← @AList.lookup_insert_ne _ _ _ _ _ (countedBucket now buckets (bucketKey path ip)) _
    hne.symm]
  split at h
  · rw [← mem_def, AList.mem_lookup_iff] at h ⊢
    exact (List.mem_filter.1 h).1
  · exact h

/-- The answer to a call is its bucket's. -/
theorem apiAbuseLimit_eq_none_iff {path ip : CodeUnits} :
    (apiAbuseLimit now buckets path ip).1 = none ↔
      (countedBucket now buckets (bucketKey path ip)).count ≤ limit path := by
  rw [apiAbuseLimit]
  dsimp only
  split
  next hover => exact ⟨fun h => absurd h (some_ne_none _), fun h => absurd hover (by omega)⟩
  next hle => exact ⟨fun _ => Nat.le_of_not_lt hle, fun _ => rfl⟩

/-- Every limit lets a first request in. -/
theorem one_le_limit (path : CodeUnits) : 1 ≤ limit path := by
  rw [limit]
  rcases htier : tier path with _ | t
  · decide
  · have hmem : t ∈ tiers := List.mem_of_find?_eq_some htier
    have hall : ∀ t ∈ tiers, 1 ≤ t.2 := by decide
    exact hall t hmem

/-! ## Runs -/

/-- Every run of calls that leave a bucket alone: it is as it was, or its window is over. -/
theorem run_others {s t : State} {as : List Call} (hrun : run step s as = some t)
    (hothers : ∀ a ∈ as, bucketKey a.path a.ip ≠ key)
    (hbucket : s.buckets.lookup key = some bucket) :
    (bucket.isOver t.clock = false → t.buckets.lookup key = some bucket) ∧
      ∀ b, t.buckets.lookup key = some b → b = bucket := by
  have hstep : ∀ (s : State) (a : Call) (t : State),
      ((bucket.isOver s.clock = false → s.buckets.lookup key = some bucket) ∧
        ∀ b, s.buckets.lookup key = some b → b = bucket) →
      bucketKey a.path a.ip ≠ key → step s a = some t →
      (bucket.isOver t.clock = false → t.buckets.lookup key = some bucket) ∧
        ∀ b, t.buckets.lookup key = some b → b = bucket := by
    rintro s a t ⟨hkept, hsame⟩ hne hstep
    rw [step] at hstep
    split at hstep
    · exact absurd hstep (some_ne_none _).symm
    next hclock =>
      obtain rfl := some.inj hstep
      refine ⟨fun hover => ?_, fun b hb => hsame b (lookup_apiAbuseLimit_or hne hb)⟩
      refine lookup_apiAbuseLimit_ne hne hover (hkept ?_)
      rw [AbuseBucket.isOver, decide_eq_false_iff_not] at hover ⊢
      dsimp only at hover
      omega
  refine run_induct_of_forall hstep ⟨fun _ => hbucket, fun b hb => ?_⟩ hothers hrun
  exact some.inj (hb.symm.trans hbucket)

theorem exists_of_refused {path ip : CodeUnits} {r : ℕ}
    (hr : (apiAbuseLimit now buckets path ip).1 = some r) :
    ∃ b, buckets.lookup (bucketKey path ip) = some b ∧ b.isOver now = false ∧
      countedBucket now buckets (bucketKey path ip) = { b with count := b.count + 1 } ∧
      limit path < b.count + 1 ∧ r = b.retryAfter now := by
  have hlimit := one_le_limit path
  rw [apiAbuseLimit] at hr
  dsimp only at hr
  split at hr
  next hcount =>
    rw [countedBucket] at hcount hr ⊢
    split at hcount
    next b hb =>
      split at hcount
      next hover => exact absurd hcount (by dsimp only; omega)
      next hover =>
        rw [hb] at hr ⊢
        dsimp only at hr ⊢
        rw [if_neg hover] at hr ⊢
        exact ⟨b, rfl, Bool.eq_false_iff.2 hover, rfl, hcount,
          (some.inj hr).symm⟩
    next => exact absurd hcount (by dsimp only; omega)
  next => exact absurd hr (some_ne_none _).symm

/-- A whole number of seconds is left of the bucket's window. -/
def wholeSecondsLeft (now : ℕ) (buckets : AbuseBuckets) (key : CodeUnits) : Prop :=
  ∃ b, buckets.lookup key = some b ∧ now < b.windowAt + AbuseBucket.windowMs ∧
    (b.windowAt + AbuseBucket.windowMs - now) % 1000 = 0

/-- The window is over when the seconds are, unless they are what is left of it. -/
theorem isOver_retryAfter_iff (bucket : AbuseBucket) (now : ℕ) :
    bucket.isOver (now + 1000 * bucket.retryAfter now) = true ↔
      ¬ (now < bucket.windowAt + AbuseBucket.windowMs ∧
        (bucket.windowAt + AbuseBucket.windowMs - now) % 1000 = 0) := by
  rw [AbuseBucket.isOver, decide_eq_true_iff, AbuseBucket.retryAfter, AbuseBucket.windowMs]
  omega

/-- **Waiting as told is enough, but for whole seconds.**  A call is refused with `r`, and the
calls after it, until `r` seconds later, are for other buckets. -/
theorem retryAfter_enough_iff {s t u : State} {call : Call} {others : List Call} {r : ℕ}
    (hcall : step s call = some t)
    (hr : (apiAbuseLimit call.now s.buckets call.path call.ip).1 = some r)
    (hrun : run step t others = some u)
    (hothers : ∀ a ∈ others, bucketKey a.path a.ip ≠ bucketKey call.path call.ip)
    (hclock : u.clock ≤ call.now + 1000 * r) :
    1 ≤ r ∧ ((apiAbuseLimit (call.now + 1000 * r) u.buckets call.path call.ip).1 = none ↔
      ¬ wholeSecondsLeft call.now s.buckets (bucketKey call.path call.ip)) := by
  obtain ⟨b, hb, hover, hcounted, hcount, rfl⟩ := exists_of_refused hr
  refine ⟨Nat.le_max_left _ _, ?_⟩
  have hbucket : t.buckets.lookup (bucketKey call.path call.ip) =
      some { b with count := b.count + 1 } := by
    rw [step] at hcall
    split at hcall
    · exact absurd hcall (some_ne_none _).symm
    · obtain rfl := some.inj hcall
      exact (lookup_apiAbuseLimit _ _ _ _).trans (congrArg some hcounted)
  obtain ⟨hkept, hsame⟩ := run_others hrun hothers hbucket
  have hwhole : wholeSecondsLeft call.now s.buckets (bucketKey call.path call.ip) ↔
      call.now < b.windowAt + AbuseBucket.windowMs ∧
        (b.windowAt + AbuseBucket.windowMs - call.now) % 1000 = 0 := by
    constructor
    · rintro ⟨b', hb', hleft⟩
      obtain rfl := some.inj (hb.symm.trans hb')
      exact hleft
    · intro hleft
      exact ⟨b, hb, hleft⟩
  rw [hwhole, ← isOver_retryAfter_iff, apiAbuseLimit_eq_none_iff, countedBucket]
  have hover' : AbuseBucket.isOver { b with count := b.count + 1 }
      (call.now + 1000 * b.retryAfter call.now) =
        b.isOver (call.now + 1000 * b.retryAfter call.now) := rfl
  have hlimit := one_le_limit call.path
  by_cases hend : b.isOver (call.now + 1000 * b.retryAfter call.now) = true
  · -- the bucket is begun anew, or gone
    refine ⟨fun _ => hend, fun _ => ?_⟩
    rcases hlookup : u.buckets.lookup (bucketKey call.path call.ip) with _ | b'
    · exact hlimit
    · obtain rfl := hsame b' hlookup
      dsimp only
      rw [if_pos (hover'.trans hend)]
      exact hlimit
  · -- nobody evicts it before its window is over
    have hnot : AbuseBucket.isOver { b with count := b.count + 1 } u.clock = false := by
      rw [AbuseBucket.isOver, decide_eq_true_iff] at hend
      rw [AbuseBucket.isOver, decide_eq_false_iff_not]
      dsimp only
      omega
    rw [hkept hnot]
    dsimp only
    rw [if_neg (fun h => hend (hover'.symm.trans h))]
    exact ⟨fun h => absurd h (by dsimp only; omega), fun h => absurd h hend⟩

/-- Calls at time zero are counted. -/
theorem exists_flood (path ip : CodeUnits) (n : ℕ) :
    ∃ s, run step initial (List.replicate (n + 1) ⟨0, path, ip⟩) = some s ∧ s.clock = 0 ∧
      s.buckets.lookup (bucketKey path ip) = some ⟨0, n + 1⟩ := by
  induction n with
  | zero =>
    refine ⟨_, rfl, rfl, ?_⟩
    exact (lookup_apiAbuseLimit _ _ _ _).trans (congrArg some rfl)
  | succ n ih =>
    obtain ⟨s, hs, hclock, hlookup⟩ := ih
    refine ⟨⟨(apiAbuseLimit 0 s.buckets path ip).2, 0⟩, ?_, rfl, ?_⟩
    · rw [List.replicate_succ', run_append, hs, bind_some, run_cons, step, hclock,
        if_neg (Nat.lt_irrefl 0)]
      rfl
    · rw [lookup_apiAbuseLimit, countedBucket, hlookup]
      rfl

theorem limit_pushUpdate : limit (lit "/api/push-update") = 5 := by decide +kernel

/-- The answer that a bucket gives. -/
theorem apiAbuseLimit_of_lookup {path ip : CodeUnits}
    (h : buckets.lookup (bucketKey path ip) = some bucket) (hover : bucket.isOver now = false)
    (hcount : limit path ≤ bucket.count) :
    (apiAbuseLimit now buckets path ip).1 = some (bucket.retryAfter now) := by
  have hcounted : countedBucket now buckets (bucketKey path ip) =
      { bucket with count := bucket.count + 1 } := by
    rw [countedBucket, h]
    exact if_neg (Bool.eq_false_iff.1 hover)
  rw [apiAbuseLimit]
  dsimp only
  rw [hcounted]
  exact if_pos (Nat.lt_succ_of_le hcount)

/-- Refused half a second into the window, and let in a minute later. -/
theorem retryAfter_enough_half : ∃ t : State, 1 ≤ 60 ∧
    ((apiAbuseLimit (500 + 1000 * 60) t.buckets (lit "/api/push-update") []).1 = none ↔
      ¬ wholeSecondsLeft 500
        (AList.insert (bucketKey (lit "/api/push-update") []) ⟨0, 5⟩ ∅ : AbuseBuckets)
        (bucketKey (lit "/api/push-update") [])) := by
  have hcall : step ⟨AList.insert (bucketKey (lit "/api/push-update") []) ⟨0, 5⟩ ∅, 0⟩
      ⟨500, lit "/api/push-update", []⟩ = some _ := rfl
  have hrun : run step ⟨(apiAbuseLimit 500
      (AList.insert (bucketKey (lit "/api/push-update") []) ⟨0, 5⟩ ∅)
      (lit "/api/push-update") []).2, 500⟩ [] = some _ := rfl
  refine ⟨_, retryAfter_enough_iff hcall ?_ hrun (fun a ha => absurd ha List.not_mem_nil) ?_⟩
  · exact apiAbuseLimit_of_lookup (AList.lookup_insert _) rfl (Nat.le_of_eq limit_pushUpdate)
  · show 500 ≤ 500 + 1000 * 60
    decide

/-- Refused at the start of the window for `60` seconds, and refused again after them. -/
theorem retryAfter_not_enough : ∃ s t : State,
    run step initial (List.replicate 5 ⟨0, lit "/api/push-update", []⟩) = some s ∧
    step s ⟨0, lit "/api/push-update", []⟩ = some t ∧
    (apiAbuseLimit 0 s.buckets (lit "/api/push-update") []).1 = some 60 ∧
    (apiAbuseLimit (0 + 1000 * 60) t.buckets (lit "/api/push-update") []).1 = some 1 := by
  obtain ⟨s, hs, hclock, hlookup⟩ := exists_flood (lit "/api/push-update") [] 4
  have hstep : step s ⟨0, lit "/api/push-update", []⟩ =
      some ⟨(apiAbuseLimit 0 s.buckets (lit "/api/push-update") []).2, 0⟩ := by
    rw [step, hclock, if_neg (Nat.lt_irrefl 0)]
  refine ⟨s, _, hs, hstep, ?_, ?_⟩
  · exact apiAbuseLimit_of_lookup hlookup rfl (Nat.le_of_eq limit_pushUpdate)
  · have hlookup' : (apiAbuseLimit 0 s.buckets (lit "/api/push-update") []).2.lookup
        (bucketKey (lit "/api/push-update") []) = some ⟨0, 6⟩ := by
      rw [lookup_apiAbuseLimit, countedBucket, hlookup]
      rfl
    refine apiAbuseLimit_of_lookup hlookup' rfl ?_
    rw [limit_pushUpdate]
    decide

end ApiAbuse
