/-
# How much the flood limit lets in

The calls that `apiAbuseLimit` lets in for one bucket, in every run of calls for any buckets.  A
call belongs to the window that its bucket counts in, and evicting a bucket never opens a second
window before the first is over.
-/
import XyDeskRemote.ApiAbuseLimit

open LabelledRun WorkerText AbuseBucket List Option

namespace ApiAbuse

/-! ## The limit of a bucket -/

/-- The part of a key in front of the address. -/
def keyPrefix (path : CodeUnits) : CodeUnits := ((tier path).map Prod.fst).getD (lit "/api/")

/-- The tiers have different prefixes, none of them the default one, and none with a bar. -/
theorem tiers_prefixes :
    (∀ t ∈ tiers, lit "/api/" ≠ t.1 ∧ 0x7C ∉ t.1 ∧ ∀ u ∈ tiers, t.1 = u.1 → t.2 = u.2) ∧
      (0x7C : UInt16) ∉ lit "/api/" := by
  decide +kernel

theorem bar_not_mem_keyPrefix (path : CodeUnits) : (0x7C : UInt16) ∉ keyPrefix path := by
  rw [keyPrefix]
  rcases htier : tier path with _ | t
  · exact tiers_prefixes.2
  · exact (tiers_prefixes.1 t (mem_of_find?_eq_some htier)).2.1

theorem limit_eq_of_keyPrefix {path other : CodeUnits} (h : keyPrefix path = keyPrefix other) :
    limit path = limit other := by
  rw [keyPrefix, keyPrefix] at h
  rw [limit, limit]
  rcases htier : tier path with _ | t
  · rcases hother : tier other with _ | u
    · rfl
    · rw [htier, hother] at h
      exact absurd h (tiers_prefixes.1 u (mem_of_find?_eq_some hother)).1
  · have ht := tiers_prefixes.1 t (mem_of_find?_eq_some htier)
    rcases hother : tier other with _ | u
    · rw [htier, hother] at h
      exact absurd h.symm ht.1
    · rw [htier, hother] at h
      exact ht.2.2 u (mem_of_find?_eq_some hother) h

/-- **A bucket has one limit**, whatever path it is met by. -/
theorem limit_eq_of_bucketKey {path other ip ip' : CodeUnits}
    (h : bucketKey path ip = bucketKey other ip') : limit path = limit other := by
  have hsplit : ∀ path ip, bucketKey path ip = keyPrefix path ++ 0x7C :: ip := fun path ip =>
    append_assoc _ _ _
  rw [hsplit, hsplit] at h
  exact limit_eq_of_keyPrefix
    (append_cons_inj_left (bar_not_mem_keyPrefix path) (bar_not_mem_keyPrefix other) h).1

/-! ## Windows -/

/-- A call that is let in, and the start of the window it is counted in. -/
structure Admission where
  now : ℕ
  windowAt : ℕ

/-- The limiter, and the calls for one bucket that it has let in. -/
structure Watched where
  state : State
  admitted : List Admission

/-- A call, written down if it is for the bucket and let in. -/
def watch (key : CodeUnits) (s : Watched) (a : Call) : Option Watched :=
  (step s.state a).map fun t =>
    { state := t
      admitted := s.admitted ++
        if bucketKey a.path a.ip = key ∧
            (apiAbuseLimit a.now s.state.buckets a.path a.ip).1 = none then
          [⟨a.now, (countedBucket a.now s.state.buckets key).windowAt⟩]
        else [] }

/-- No calls yet. -/
def Watched.initial : Watched := ⟨ApiAbuse.initial, []⟩

/-- Two windows are the same one, or the second begins when the first is over. -/
def NoOverlap (v w : ℕ) : Prop := v = w ∨ v + windowMs < w

/-- The number of calls that were let in in a window. -/
def inWindow (w : ℕ) (admitted : List Admission) : ℕ := admitted.countP fun a => a.windowAt = w

/-- The number of calls that were let in in the minute from `t` on. -/
def inMinute (t : ℕ) (admitted : List Admission) : ℕ :=
  admitted.countP fun a => t ≤ a.now ∧ a.now ≤ t + windowMs

/-- A bucket counts what it lets in, and its window overlaps no earlier one. -/
structure Counts (bucket : AbuseBucket) (admitted : List Admission) : Prop where
  inWindow_le : inWindow bucket.windowAt admitted ≤ bucket.count
  noOverlap : ∀ a ∈ admitted, NoOverlap a.windowAt bucket.windowAt

/-- **The invariant.** -/
structure Bounded (key : CodeUnits) (limit : ℕ) (s : Watched) : Prop where
  inWindow_le : ∀ w, inWindow w s.admitted ≤ limit
  inside : ∀ a ∈ s.admitted, a.windowAt ≤ a.now ∧ a.now ≤ a.windowAt + windowMs
  noOverlap : s.admitted.Pairwise fun a b => NoOverlap a.windowAt b.windowAt
  counts : ∀ b, s.state.buckets.lookup key = some b → Counts b s.admitted ∧
    b.windowAt ≤ s.state.clock
  evicted : s.state.buckets.lookup key = none →
    ∀ a ∈ s.admitted, a.windowAt + windowMs < s.state.clock

theorem bounded_initial (key : CodeUnits) (limit : ℕ) : Bounded key limit .initial where
  inWindow_le _ := Nat.zero_le _
  inside _ h := absurd h not_mem_nil
  noOverlap := List.Pairwise.nil
  counts _ h := nomatch h
  evicted _ _ h := absurd h not_mem_nil

/-- A window that begins after all others has let nothing in. -/
theorem counts_new {admitted : List Admission} {now : ℕ}
    (h : ∀ a ∈ admitted, a.windowAt + windowMs < now) (n : ℕ) :
    Counts ⟨now, n⟩ admitted := by
  refine ⟨?_, fun a ha => .inr (h a ha)⟩
  rw [inWindow, countP_eq_zero.2 fun a ha => ?_]
  · exact Nat.zero_le n
  · have hbefore := h a ha
    rw [decide_eq_true_iff]
    show a.windowAt ≠ now
    omega

/-- The bucket that a call is counted in: it has room for the call. -/
theorem counts_countedBucket {key : CodeUnits} {limit now : ℕ} {s : Watched}
    (h : Bounded key limit s) (hclock : s.state.clock ≤ now) :
    ∃ n, (countedBucket now s.state.buckets key).count = n + 1 ∧
      Counts ⟨(countedBucket now s.state.buckets key).windowAt, n⟩ s.admitted ∧
      (countedBucket now s.state.buckets key).windowAt ≤ now := by
  rw [countedBucket]
  rcases hlookup : s.state.buckets.lookup key with _ | b
  · refine ⟨0, rfl, counts_new (fun a ha => ?_) 0, Nat.le_refl _⟩
    exact Nat.lt_of_lt_of_le (h.evicted hlookup a ha) hclock
  · obtain ⟨hcounts, hwindow⟩ := h.counts b hlookup
    dsimp only
    split
    next hover =>
      rw [isOver, decide_eq_true_iff] at hover
      refine ⟨0, rfl, counts_new (fun a ha => ?_) 0, Nat.le_refl _⟩
      -- the window of an earlier call is this one, or over before it
      have hbefore : a.windowAt ≤ b.windowAt := by
        rcases hcounts.noOverlap a ha with heq | hlt
        · exact Nat.le_of_eq heq
        · omega
      show a.windowAt + windowMs < now
      omega
    next => exact ⟨b.count, rfl, hcounts, Nat.le_trans hwindow hclock⟩

/-- Behind the calls let in, another one in a window that overlaps none of theirs. -/
theorem noOverlap_concat {admitted : List Admission} {a : Admission}
    (h : admitted.Pairwise fun a b => NoOverlap a.windowAt b.windowAt)
    (hnew : ∀ b ∈ admitted, NoOverlap b.windowAt a.windowAt) :
    (admitted ++ [a]).Pairwise fun a b => NoOverlap a.windowAt b.windowAt := by
  refine pairwise_append.2 ⟨h, pairwise_singleton _ _, fun b hb c hc => ?_⟩
  rw [mem_singleton.1 hc]
  exact hnew b hb

theorem inWindow_concat (w : ℕ) (admitted : List Admission) (a : Admission) :
    inWindow w (admitted ++ [a]) = inWindow w admitted + if a.windowAt = w then 1 else 0 := by
  rw [inWindow, countP_append, countP_singleton]
  simp only [decide_eq_true_eq]
  rfl

/-! ## Steps -/

section
variable {key : CodeUnits} {s t : Watched} {call : Call}

theorem bounded_other {limit : ℕ} (h : Bounded key limit s)
    (hne : bucketKey call.path call.ip ≠ key) (hstep : watch key s call = some t) :
    Bounded key limit t := by
  obtain ⟨u, hu, rfl⟩ := map_eq_some_iff.1 hstep
  rw [if_neg (fun hown => hne hown.1), append_nil]
  rw [step] at hu
  split at hu
  · exact absurd hu (some_ne_none _).symm
  next hclock =>
    obtain rfl := some.inj hu
    have hclock : s.state.clock ≤ call.now := Nat.le_of_not_lt hclock
    refine ⟨h.inWindow_le, h.inside, h.noOverlap, fun b hb => ?_, fun hnone a ha => ?_⟩
    · obtain ⟨hcounts, hwindow⟩ := h.counts b (lookup_apiAbuseLimit_or hne hb)
      exact ⟨hcounts, Nat.le_trans hwindow hclock⟩
    · show a.windowAt + windowMs < call.now
      rcases hlookup : s.state.buckets.lookup key with _ | b
      · exact Nat.lt_of_lt_of_le (h.evicted hlookup a ha) hclock
      · -- a bucket that is gone was evicted, so that its window is over
        have hover : b.isOver call.now = true := by
          by_contra hover
          have hkept := lookup_apiAbuseLimit_ne hne (Bool.eq_false_iff.2 hover) hlookup
          exact absurd (hkept.symm.trans hnone) (some_ne_none _)
        rw [isOver, decide_eq_true_iff] at hover
        rcases (h.counts b hlookup).1.noOverlap a ha with heq | hlt
        · omega
        · omega

theorem bounded_own (h : Bounded key (limit call.path) s)
    (hown : bucketKey call.path call.ip = key) (hstep : watch key s call = some t) :
    Bounded key (limit call.path) t := by
  obtain ⟨u, hu, rfl⟩ := map_eq_some_iff.1 hstep
  rw [step] at hu
  split at hu
  · exact absurd hu (some_ne_none _).symm
  next hclock =>
    obtain rfl := some.inj hu
    subst hown
    have hclock : s.state.clock ≤ call.now := Nat.le_of_not_lt hclock
    obtain ⟨n, hcount, hcounts, hwindow⟩ := counts_countedBucket h hclock
    have hover := isOver_countedBucket call.now s.state.buckets (bucketKey call.path call.ip)
    rw [isOver, decide_eq_false_iff_not] at hover
    have hlookup := lookup_apiAbuseLimit call.now s.state.buckets call.path call.ip
    have hadmit := @apiAbuseLimit_eq_none_iff s.state.buckets call.now call.path call.ip
    generalize hbucket : countedBucket call.now s.state.buckets (bucketKey call.path call.ip) =
      bucket at *
    have hthere : (apiAbuseLimit call.now s.state.buckets call.path call.ip).2.lookup
        (bucketKey call.path call.ip) ≠ none := fun hnone =>
      some_ne_none _ (hlookup.symm.trans hnone)
    by_cases hlet : (apiAbuseLimit call.now s.state.buckets call.path call.ip).1 = none
    · rw [if_pos ⟨rfl, hlet⟩]
      have hroom := hadmit.1 hlet
      have hnew := inWindow_concat bucket.windowAt s.admitted ⟨call.now, bucket.windowAt⟩
      rw [if_pos rfl] at hnew
      have hmine := hcounts.inWindow_le
      refine ⟨fun w => ?_, fun a ha => ?_, noOverlap_concat h.noOverlap hcounts.noOverlap,
        fun b hb => ?_,
        fun hnone => absurd hnone hthere⟩
      · rw [inWindow_concat]
        have hold := h.inWindow_le w
        split
        next hw =>
          subst hw
          dsimp only at hmine ⊢
          omega
        next => exact hold
      · rcases mem_append.1 ha with ha | ha
        · exact h.inside a ha
        · rw [mem_singleton.1 ha]
          dsimp only
          omega
      · obtain rfl := some.inj (hlookup.symm.trans hb)
        refine ⟨⟨?_, fun a ha => ?_⟩, hwindow⟩
        · dsimp only at hmine ⊢
          omega
        · rcases mem_append.1 ha with ha | ha
          · exact hcounts.noOverlap a ha
          · rw [mem_singleton.1 ha]
            exact .inl rfl
    · rw [if_neg (fun hin => hlet hin.2), append_nil]
      refine ⟨h.inWindow_le, h.inside, h.noOverlap, fun b hb => ?_,
        fun hnone => absurd hnone hthere⟩
      obtain rfl := some.inj (hlookup.symm.trans hb)
      have hmine := hcounts.inWindow_le
      refine ⟨⟨?_, hcounts.noOverlap⟩, hwindow⟩
      dsimp only at hmine ⊢
      omega

end

/-! ## Runs -/

theorem bounded_of_run {path ip : CodeUnits} {calls : List Call} {s : Watched}
    (h : run (watch (bucketKey path ip)) .initial calls = some s) :
    Bounded (bucketKey path ip) (limit path) s := by
  refine run_induct (fun s call t hs hstep => ?_) (bounded_initial _ _) h
  by_cases hown : bucketKey call.path call.ip = bucketKey path ip
  · rw [← limit_eq_of_bucketKey hown] at hs ⊢
    exact bounded_own hs hown hstep
  · exact bounded_other hs hown hstep

/-- **A minute meets two windows at most.** -/
theorem inMinute_le {admitted : List Admission} {limit t : ℕ}
    (hcount : ∀ w, inWindow w admitted ≤ limit)
    (hinside : ∀ a ∈ admitted,
      a.windowAt ≤ a.now ∧ a.now ≤ a.windowAt + windowMs)
    (hoverlap : admitted.Pairwise fun a b => NoOverlap a.windowAt b.windowAt) :
    inMinute t admitted ≤ 2 * limit := by
  rw [inMinute, countP_eq_length_filter]
  have hsub : (admitted.filter fun a => t ≤ a.now ∧ a.now ≤ t + windowMs).Sublist
      admitted := filter_sublist
  have hminute : ∀ a ∈ admitted.filter fun a => t ≤ a.now ∧ a.now ≤ t + windowMs,
      t ≤ a.now ∧ a.now ≤ t + windowMs := fun a ha =>
    of_decide_eq_true (mem_filter.1 ha).2
  generalize (admitted.filter fun a => t ≤ a.now ∧ a.now ≤ t + windowMs) = l at *
  have hwindow : ∀ w, inWindow w l ≤ limit := fun w =>
    Nat.le_trans (hsub.countP_le) (hcount w)
  cases hl : l with
  | nil => exact Nat.zero_le _
  | cons a rest =>
    have ha : a ∈ l := hl ▸ mem_cons_self
    have hpair := hoverlap.sublist hsub
    -- the windows of the minute: the first one, and a later one if there is one
    have hlater : ∀ b ∈ l, NoOverlap a.windowAt b.windowAt := by
      intro b hb
      rw [hl] at hb hpair
      rcases mem_cons.1 hb with rfl | hb
      · exact .inl rfl
      · exact (pairwise_cons.1 hpair).1 b hb
    have hapart : ∀ b ∈ l, ∀ c ∈ l,
        NoOverlap b.windowAt c.windowAt ∨ NoOverlap c.windowAt b.windowAt := by
      have hpair : l.Pairwise fun b c =>
          NoOverlap b.windowAt c.windowAt ∨ NoOverlap c.windowAt b.windowAt :=
        (hoverlap.sublist hsub).imp Or.inl
      exact List.Pairwise.forall_of_forall_of_flip (fun b _ => .inl (.inl rfl)) hpair
        (hpair.imp Or.symm)
    rw [← hl, length_eq_countP_add_countP (fun b => b.windowAt = a.windowAt)]
    have hfirst := hwindow a.windowAt
    rw [inWindow] at hfirst
    by_cases hmore : ∃ b ∈ l, b.windowAt ≠ a.windowAt
    · obtain ⟨b, hb, hne⟩ := hmore
      have hsecond := hwindow b.windowAt
      have hrest : l.countP (fun c => ¬ decide (c.windowAt = a.windowAt) = true) ≤
          l.countP fun c => c.windowAt = b.windowAt := by
        refine countP_mono_left fun c hc hca => ?_
        have hc' : c.windowAt ≠ a.windowAt := by simpa using hca
        rw [decide_eq_true_iff]
        have htimes := hminute a ha
        have hlast := hminute c hc
        have hlast' := hminute b hb
        have hstart := hinside a (hsub.subset ha)
        have hend := hinside c (hsub.subset hc)
        have hend' := hinside b (hsub.subset hb)
        have hab := (hlater b hb).resolve_left (fun heq => hne heq.symm)
        have hac := (hlater c hc).resolve_left (fun heq => hc' heq.symm)
        rcases hapart b hb c hc with (heq | hlt) | (heq | hlt)
        · exact heq.symm
        · omega
        · exact heq
        · omega
      rw [inWindow] at hsecond
      omega
    · have hrest : l.countP (fun c => ¬ decide (c.windowAt = a.windowAt) = true) = 0 := by
        refine countP_eq_zero.2 fun c hc hca => hmore ⟨c, hc, ?_⟩
        simpa using hca
      omega

/-- **The limiter bounds every minute.**  In every run of calls, for any buckets, a bucket lets in
no more than its limit in one of its windows, and no more than twice the limit in a minute. -/
theorem admitted_bounded {path ip : CodeUnits} {calls : List Call} {s : Watched}
    (h : run (watch (bucketKey path ip)) .initial calls = some s) :
    (∀ w, inWindow w s.admitted ≤ limit path) ∧ ∀ t, inMinute t s.admitted ≤ 2 * limit path := by
  have hbounded := bounded_of_run h
  exact ⟨hbounded.inWindow_le,
    fun t => inMinute_le hbounded.inWindow_le hbounded.inside hbounded.noOverlap⟩

/-- Two calls in different windows. -/
theorem admitted_bounded_two : ∃ s : Watched, s.admitted.length = 2 ∧
    (∀ w, inWindow w s.admitted ≤ limit (lit "/api/og")) ∧
      ∀ t, inMinute t s.admitted ≤ 2 * limit (lit "/api/og") := by
  have hrun : run (watch (bucketKey (lit "/api/og") [])) .initial
      [⟨7, lit "/api/og", []⟩, ⟨60008, lit "/api/og", []⟩] = some _ := rfl
  exact ⟨_, by decide +kernel, admitted_bounded hrun⟩

end ApiAbuse
