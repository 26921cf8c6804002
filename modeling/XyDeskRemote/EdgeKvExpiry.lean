/-
# The wrapped KV: read your writes, and expiry

What a `get` should return is decided by the last `put` or `delete` of its key
(`KvWrite.expected`): nothing after a delete or once the `expirationTtl` of the put has
elapsed, the value that was put otherwise.

`AfterPut` and `AfterDelete` are what a run keeps about the layers after the last write.
-/
import XyDeskRemote.EdgeKv

open LabelledRun EdgeKv Function Option Or

/-! ## What a get should return -/

/-- A put or a delete of one key. -/
inductive KvWrite where
  | put (v : KvValue) (expirationTtl : Option Nat) (time : Nat)
  | delete

/-- The write of key `k` that a label is, if it is one. -/
def writeOf (k : String) (a : Nat × KvLabel) : Option KvWrite :=
  match a.2 with
  | .put k' v expirationTtl => if k' = k then some (.put v expirationTtl a.1) else none
  | .delete k' => if k' = k then some .delete else none
  | _ => none

/-- The last write of key `k` in a run. -/
def lastWrite (k : String) : List (Nat × KvLabel) → Option KvWrite
  | [] => none
  | a :: as => (lastWrite k as).or (writeOf k a)

/-- The `expirationTtl`, raised to at least 60 s, has elapsed at `t` since `t₀`.  Zero is
no `expirationTtl`. -/
def TtlElapsed (expirationTtl : Option Nat) (t₀ t : Nat) : Prop :=
  ∃ ttl, expirationTtl = some ttl ∧ ttl ≠ 0 ∧ t₀ + max 60 ttl * 1000 ≤ t

/-- What a `get` of type text should return at `t` after the write. -/
def KvWrite.IsExpected (w : KvWrite) (t : Nat) (result : Option KvValue) : Prop :=
  match w with
  | put v expirationTtl time =>
    (TtlElapsed expirationTtl time t → result = none) ∧
    (¬ TtlElapsed expirationTtl time t → result = some (.text v.string))
  | delete => result = none

/-- A text that begins like an encoded buffer. -/
def KvValue.isMarkedText : KvValue → Bool
  | text s => d1Marker.isPrefixOf s
  | bytes _ => false

/-- D1 keeps the key, and the row of the value decodes. -/
def d1Answers (k : String) (v : KvValue) : Bool :=
  !isDownloadKey k && (decodeD1Value (d1Text v)).isSome

/-- When a `get` of `k` at `t` returns what it should after the write, in terms of the
write and of what the layers hold just before. -/
def GetIsRight (env : KvEnv) (s : EdgeKv) (k : String) (t : Nat) : KvWrite → Prop
  | .put v expirationTtl time =>
    if d1Answers k v then ¬ TtlElapsed expirationTtl time t ∧ v.isMarkedText = false
    else
      (TtlElapsed expirationTtl time t →
        s.mem k = some ⟨v, putExpiresAt expirationTtl time⟩ ∧ s.rawMatch k t = none) ∧
      (¬ TtlElapsed expirationTtl time t →
        s.cacheMatch env k t = none ∨ Utf8.decodeText v.body = v.string)
  | .delete => True

variable {expirationTtl : Option Nat} {t₀ t : Nat}

theorem TtlElapsed.mono {t' : Nat} (htt' : t ≤ t') (h : TtlElapsed expirationTtl t₀ t) :
    TtlElapsed expirationTtl t₀ t' := by
  obtain ⟨ttl, rfl, hne, hle⟩ := h
  exact ⟨ttl, rfl, hne, Nat.le_trans hle htt'⟩

variable {v : KvValue}

theorem live_put (h : ¬ TtlElapsed expirationTtl t₀ t) :
    (StoredValue.mk v (putExpiresAt expirationTtl t₀)).live t = some v := by
  apply if_pos
  match expirationTtl with
  | none => exact inl rfl
  | some 0 => exact inl rfl
  | some (n + 1) =>
    refine inr ?_
    show t < t₀ + max 60 (n + 1) * 1000
    rw [← Nat.not_le]
    exact fun hle => h ⟨n + 1, rfl, Nat.succ_ne_zero n, hle⟩

theorem TtlElapsed.expiresAt (h : TtlElapsed expirationTtl t₀ t) :
    putExpiresAt expirationTtl t₀ ≠ 0 ∧ putExpiresAt expirationTtl t₀ ≤ t ∧
      t₀ + maxAge expirationTtl * 1000 ≤ t := by
  obtain ⟨ttl, rfl, hne, hle⟩ := h
  obtain ⟨n, rfl⟩ := Nat.exists_eq_succ_of_ne_zero hne
  refine ⟨?_, hle, hle⟩
  show t₀ + max 60 (n + 1) * 1000 ≠ 0
  omega

/-! ## What the calls change -/

namespace EdgeKv

section Frame

variable (env : KvEnv) (s : EdgeKv) (k : String) (v : KvValue) (u : Nat)

@[simp] theorem cachePut_d1 : (s.cachePut env k v u).d1 = s.d1 := by
  unfold cachePut
  split <;> rfl

@[simp] theorem cachePut_mem : (s.cachePut env k v u).mem = s.mem := by
  unfold cachePut
  split <;> rfl

@[simp] theorem cachePut_raw : (s.cachePut env k v u).raw = s.raw := by
  unfold cachePut
  split <;> rfl

theorem cachePut_cache_of_ne {k' : String} (h : k' ≠ k) :
    (s.cachePut env k v u).cache k' = s.cache k' := by
  unfold cachePut
  split
  · exact update_of_ne h _ _
  · rfl

theorem cachePut_cache_self (h : env.cacheBound = true) :
    (s.cachePut env k v u).cache k = some ⟨v.body, u⟩ := by
  unfold cachePut
  rw [if_pos h]
  exact update_self _ _ _

variable (expirationTtl : Option Nat) (t : Nat)

@[simp] theorem rawPut_d1 : (s.rawPut k v expirationTtl t).d1 = s.d1 := by
  unfold rawPut
  split
  · rfl
  · split <;> rfl

@[simp] theorem rawPut_mem : (s.rawPut k v expirationTtl t).mem = s.mem := by
  unfold rawPut
  split
  · rfl
  · split <;> rfl

@[simp] theorem rawPut_cache : (s.rawPut k v expirationTtl t).cache = s.cache := by
  unfold rawPut
  split
  · rfl
  · split <;> rfl

theorem rawPut_raw_of_ne {k' : String} (h : k' ≠ k) :
    (s.rawPut k v expirationTtl t).raw k' = s.raw k' := by
  unfold rawPut
  split
  · exact update_of_ne h _ _
  · split
    · rfl
    · exact update_of_ne h _ _

/-- The raw part of a put touches the raw KV and the throttle only. -/
theorem putRaw_layers : (s.putRaw k v expirationTtl t).d1 = s.d1 ∧
    (s.putRaw k v expirationTtl t).mem = s.mem ∧
    (s.putRaw k v expirationTtl t).cache = s.cache := by
  unfold putRaw
  split
  · exact ⟨rfl, rfl, rfl⟩
  · split
    · split
      · exact ⟨rfl, rfl, rfl⟩
      · simp
    · simp

theorem putRaw_raw_of_ne {k' : String} (h : k' ≠ k) :
    (s.putRaw k v expirationTtl t).raw k' = s.raw k' := by
  unfold putRaw
  split
  · rfl
  · split
    · split
      · rfl
      · rw [rawPut_raw_of_ne _ _ _ _ _ h]
    · exact rawPut_raw_of_ne _ _ _ _ _ h

end Frame

/-- Two states hold the same about key `k`, except that the cache may have lost it. -/
structure SameAt (k : String) (s t : EdgeKv) : Prop where
  d1 : t.d1 k = s.d1 k
  mem : t.mem k = s.mem k
  raw : t.raw k = s.raw k
  cache : t.cache k = s.cache k ∨ t.cache k = none

theorem SameAt.refl (k : String) (s : EdgeKv) : SameAt k s s := ⟨rfl, rfl, rfl, inl rfl⟩

/-- A put of another key. -/
theorem sameAt_put (env : KvEnv) (s : EdgeKv) {k k' : String} (h : k ≠ k') (v : KvValue)
    (expirationTtl : Option Nat) (t : Nat) : SameAt k s (s.put env k' v expirationTtl t) := by
  unfold EdgeKv.put
  obtain ⟨hd1, hmem, hcache⟩ :=
    putRaw_layers (s.putLayers env k' v expirationTtl t) k' v expirationTtl t
  refine ⟨?_, ?_, ?_, ?_⟩
  · rw [hd1, putLayers, cachePut_d1]
    show (if isDownloadKey k' = true then s.d1 else _) k = s.d1 k
    split
    · rfl
    · exact update_of_ne h _ _
  · rw [hmem, putLayers, cachePut_mem]
    exact update_of_ne h _ _
  · rw [putRaw_raw_of_ne _ _ _ _ _ h, putLayers, cachePut_raw]
  · rw [hcache, putLayers, cachePut_cache_of_ne _ _ _ _ _ h]
    exact inl rfl

/-- A delete of another key. -/
theorem sameAt_delete (env : KvEnv) (s : EdgeKv) {k k' : String} (h : k ≠ k') :
    SameAt k s (s.delete env k') := by
  refine ⟨?_, update_of_ne h _ _, update_of_ne h _ _, inl ?_⟩
  · show (if isDownloadKey k' = true then s.d1 else _) k = s.d1 k
    split
    · rfl
    · exact update_of_ne h _ _
  · show (if env.cacheBound = true then _ else s.cache) k = s.cache k
    split
    · exact update_of_ne h _ _
    · rfl

/-- A get changes nothing, or it reads through: then only its own key changes, and
neither D1 nor memory had a value for it. -/
theorem get_state (env : KvEnv) (s : EdgeKv) (k : String) (type : KvType) (t : Nat) :
    (s.get env k type t).1 = s ∨
    ∃ val, (s.get env k type t).1 = s.readThrough env k val t ∧ s.memMatch k t = none ∧
      (s.rawMatch k t).isSome = true := by
  unfold EdgeKv.get
  split
  · exact inl rfl
  · split
    · exact inl rfl
    · split
      · exact inl rfl
      · next hmem =>
          split
          · next val hraw =>
              obtain ⟨v, hv, -⟩ := bind_eq_some_iff.1 hraw
              exact inr ⟨val, rfl, hmem, by rw [hv]; rfl⟩
          · exact inl rfl

/-- A get of another key. -/
theorem sameAt_get (env : KvEnv) (s : EdgeKv) {k k' : String} (h : k ≠ k') (type : KvType)
    (t : Nat) : SameAt k s (s.get env k' type t).1 := by
  rcases get_state env s k' type t with hsame | ⟨val, hread, -⟩
  · rw [hsame]
    exact SameAt.refl k s
  · rw [hread, readThrough]
    refine ⟨?_, ?_, ?_, inl (cachePut_cache_of_ne _ _ _ _ _ h)⟩
    · rw [cachePut_d1]
    · rw [cachePut_mem]
      exact update_of_ne h _ _
    · rw [cachePut_raw]

end EdgeKv

/-! ## What the layers hold after the last write -/

/-- Memory and edge cache as a put has left them. -/
structure PutEntries (env : KvEnv) (k : String) (v : KvValue) (expirationTtl : Option Nat)
    (t₀ : Nat) (s : EdgeKv) : Prop where
  mem : s.mem k = some ⟨v, putExpiresAt expirationTtl t₀⟩
  cache : env.cacheBound = true → ∀ e, s.cache k = some e →
    e = ⟨v.body, t₀ + maxAge expirationTtl * 1000⟩

/-- After a put: D1 has the value for good, and the entries of the put are there until,
with the value expired, a get has read a value of the raw KV through. -/
structure AfterPut (env : KvEnv) (k : String) (v : KvValue) (expirationTtl : Option Nat)
    (t₀ : Nat) (s : EdgeKv) : Prop where
  d1 : isDownloadKey k = false → s.d1 k = some (d1Text v)
  entries : PutEntries env k v expirationTtl t₀ s ∨
    TtlElapsed expirationTtl t₀ s.now ∧ ∃ val, s.mem k = some ⟨val, 0⟩

variable {env : KvEnv} {k : String} {s : EdgeKv}

theorem AfterPut.live (h : AfterPut env k v expirationTtl t₀ s) (ht : s.now ≤ t)
    (hlive : ¬ TtlElapsed expirationTtl t₀ t) : PutEntries env k v expirationTtl t₀ s := by
  rcases h.entries with hput | ⟨helapsed, -⟩
  · exact hput
  · exact absurd (helapsed.mono ht) hlive

/-- After a delete: no layer has anything. -/
structure AfterDelete (env : KvEnv) (k : String) (s : EdgeKv) : Prop where
  d1 : isDownloadKey k = false → s.d1 k = none
  mem : s.mem k = none
  cache : env.cacheBound = true → s.cache k = none
  raw : s.raw k = none

/-- What the layers hold after a write of key `k`. -/
def KvWrite.After (env : KvEnv) (k : String) : KvWrite → EdgeKv → Prop
  | put v expirationTtl time => AfterPut env k v expirationTtl time
  | delete => AfterDelete env k

/-- Labels that change nothing at `k` keep what is known about it. -/
theorem KvWrite.After.frame {w : KvWrite} {t : EdgeKv} (h : w.After env k s) (hsame : SameAt k s t)
    (hnow : s.now ≤ t.now) : w.After env k t := by
  cases w with
  | put v expirationTtl time =>
    have hp : AfterPut env k v expirationTtl time s := h
    refine AfterPut.mk (fun hk => by rw [hsame.d1, hp.d1 hk]) ?_
    rcases hp.entries with hput | ⟨helapsed, val, hval⟩
    · refine inl ⟨by rw [hsame.mem, hput.mem], fun hbound e he => ?_⟩
      rcases hsame.cache with hc | hc
      · exact hput.cache hbound e (hc ▸ he)
      · rw [hc] at he
        cases he
    · exact inr ⟨helapsed.mono hnow, val, by rw [hsame.mem, hval]⟩
  | delete =>
    have hd : AfterDelete env k s := h
    refine AfterDelete.mk (fun hk => ?_) ?_ (fun hbound => ?_) ?_
    · rw [hsame.d1, hd.d1 hk]
    · rw [hsame.mem, hd.mem]
    · rcases hsame.cache with hc | hc
      · rw [hc, hd.cache hbound]
      · exact hc
    · rw [hsame.raw, hd.raw]

/-- The write itself. -/
theorem after_put (env : KvEnv) (s : EdgeKv) (k : String) (v : KvValue)
    (expirationTtl : Option Nat) (t : Nat) :
    AfterPut env k v expirationTtl t { s.put env k v expirationTtl t with now := t } := by
  obtain ⟨hd1, hmem, hcache⟩ :=
    putRaw_layers (s.putLayers env k v expirationTtl t) k v expirationTtl t
  refine ⟨fun hk => ?_, inl ⟨?_, fun hbound e he => ?_⟩⟩
  · show (s.put env k v expirationTtl t).d1 k = _
    rw [EdgeKv.put, hd1, putLayers, cachePut_d1]
    show (if isDownloadKey k = true then s.d1 else _) k = _
    rw [hk]
    exact update_self _ _ _
  · show (s.put env k v expirationTtl t).mem k = _
    rw [EdgeKv.put, hmem, putLayers, cachePut_mem]
    exact update_self _ _ _
  · have hget : (s.put env k v expirationTtl t).cache k = some e := he
    rw [EdgeKv.put, hcache, putLayers, cachePut_cache_self _ _ _ _ _ hbound] at hget
    exact (some.inj hget).symm

theorem after_delete (env : KvEnv) (s : EdgeKv) (k : String) (t : Nat) :
    AfterDelete env k { s.delete env k with now := t } := by
  refine ⟨fun hk => ?_, update_self _ _ _, fun hbound => ?_, update_self _ _ _⟩
  · show (if isDownloadKey k = true then s.d1 else _) k = none
    rw [hk]
    exact update_self _ _ _
  · show (if env.cacheBound = true then _ else s.cache) k = none
    rw [if_pos hbound]
    exact update_self _ _ _

/-- A get of `k` itself: it reads through only after the value has expired, and never
after a delete. -/
theorem KvWrite.After.get {w : KvWrite} (h : w.After env k s) (type : KvType) (ht : s.now ≤ t) :
    w.After env k { (s.get env k type t).1 with now := t } := by
  rcases get_state env s k type t with hsame | ⟨val, hread, hmem, hraw⟩
  · rw [hsame]
    exact h.frame (t := { s with now := t }) ⟨rfl, rfl, rfl, inl rfl⟩ ht
  · cases w with
    | put v expirationTtl time =>
      have hp : AfterPut env k v expirationTtl time s := h
      -- an unexpired value would have been found in memory
      have helapsed : TtlElapsed expirationTtl time t := by
        by_contra hlive
        rw [memMatch, (hp.live ht hlive).mem, bind_some, live_put hlive] at hmem
        cases hmem
      refine AfterPut.mk (fun hk => ?_) (inr ⟨helapsed, val, ?_⟩)
      · show (s.get env k type t).1.d1 k = _
        rw [hread, readThrough, cachePut_d1]
        exact hp.d1 hk
      · show (s.get env k type t).1.mem k = _
        rw [hread, readThrough, cachePut_mem]
        exact update_self _ _ _
    | delete =>
      have hd : AfterDelete env k s := h
      rw [rawMatch, hd.raw] at hraw
      cases hraw

/-- **A step that writes `k`** establishes what is known after that write. -/
theorem after_write {t : EdgeKv} {a : Nat × KvLabel} {w : KvWrite} (hstep : s.step env a = some t)
    (hw : writeOf k a = some w) : w.After env k t := by
  obtain ⟨u, label⟩ := a
  obtain ⟨-, hafter⟩ := ite_none_left_eq_some.1 hstep
  obtain rfl := some.inj hafter
  cases label with
  | get k' type => cases hw
  | put k' v expirationTtl =>
    obtain ⟨rfl, hput⟩ := ite_none_right_eq_some.1 hw
    obtain rfl := some.inj hput
    exact after_put env s k' v expirationTtl u
  | delete k' =>
    obtain ⟨rfl, hdelete⟩ := ite_none_right_eq_some.1 hw
    obtain rfl := some.inj hdelete
    exact after_delete env s k' u
  | forget k' => cases hw

/-- **Any other step** keeps what is known. -/
theorem after_other {t : EdgeKv} {a : Nat × KvLabel} {w : KvWrite} (hstep : s.step env a = some t)
    (hw : writeOf k a = none) (h : w.After env k s) :
    w.After env k t := by
  obtain ⟨u, label⟩ := a
  obtain ⟨hclock, hafter⟩ := ite_none_left_eq_some.1 hstep
  obtain rfl := some.inj hafter
  have hu : s.now ≤ u := Nat.not_lt.1 hclock
  cases label with
  | get k' type =>
    by_cases hk : k' = k
    · subst hk
      exact h.get type hu
    · -- a get of another key can only read through there
      have hsame := sameAt_get env s (Ne.symm hk) type u
      exact h.frame ⟨hsame.d1, hsame.mem, hsame.raw, hsame.cache⟩ hu
  | put k' v expirationTtl =>
    have hk : k ≠ k' := by
      rintro rfl
      cases (if_pos rfl).symm.trans hw
    have hsame := sameAt_put env s hk v expirationTtl u
    exact h.frame ⟨hsame.d1, hsame.mem, hsame.raw, hsame.cache⟩ hu
  | delete k' =>
    have hk : k ≠ k' := by
      rintro rfl
      cases (if_pos rfl).symm.trans hw
    have hsame := sameAt_delete env s hk
    exact h.frame ⟨hsame.d1, hsame.mem, hsame.raw, hsame.cache⟩ hu
  | forget k' =>
    refine h.frame ⟨rfl, rfl, rfl, ?_⟩ hu
    by_cases hk : k = k'
    · subst hk
      exact inr (update_self _ _ _)
    · exact inl (update_of_ne hk _ _)

theorem after_step {t : EdgeKv} {a : Nat × KvLabel} {before : Option KvWrite}
    (hstep : s.step env a = some t) (hbefore : ∀ w, before = some w → w.After env k s) :
    ∀ w, (writeOf k a).or before = some w → w.After env k t := by
  intro w hw
  rcases or_eq_some_iff.1 hw with hwrite | ⟨hother, hlast⟩
  · exact after_write hstep hwrite
  · exact after_other hstep hother (hbefore w hlast)

/-- **Every run.**  After a run the layers hold what is known after the last write, in
the run or, if it has none, before it. -/
theorem after_run {as : List (Nat × KvLabel)} :
    ∀ {s t : EdgeKv} {before : Option KvWrite}, run (EdgeKv.step env) s as = some t →
      (∀ w, before = some w → w.After env k s) →
      ∀ w, (lastWrite k as).or before = some w → w.After env k t := by
  induction as with
  | nil =>
    intro s t before hrun hbefore
    obtain rfl := some.inj hrun
    exact hbefore
  | cons a as ih =>
    intro s t before hrun hbefore w hw
    obtain ⟨u, hstep, hrest⟩ := run_cons_eq_some.1 hrun
    rw [lastWrite, Option.or_assoc] at hw
    exact ih hrest (after_step hstep hbefore) w hw

/-! ## When a get is right -/

/-- A get of type text: D1 if it answers, else the first layer that has the key. -/
theorem get_text (env : KvEnv) (s : EdgeKv) (k : String) (t : Nat) :
    (s.get env k .text t).2 =
      match s.d1Answer env k .text with
      | some result => result
      | none => (((s.cacheMatch env k t).or (s.memMatch k t)).or (s.rawMatch k t)).map
          fun v => .text v.string := by
  unfold EdgeKv.get
  cases s.d1Answer env k .text with
  | some result => rfl
  | none =>
    cases s.cacheMatch env k t with
    | some v => rfl
    | none =>
      cases s.memMatch k t with
      | some v => rfl
      | none => cases s.rawMatch k t <;> rfl

/-- A value that is put decodes to itself as text, unless it is a text that looks like an
encoded buffer; then it decodes to a shorter text. -/
theorem decode_d1Text_string {x : KvValue} (h : decodeD1Value (d1Text v) = some x) :
    x.string = v.string ↔ v.isMarkedText = false := by
  cases v with
  | bytes b =>
    rw [decode_d1Text_bytes] at h
    obtain rfl := some.inj h
    exact ⟨fun _ => rfl, fun _ => rfl⟩
  | text s =>
    rw [d1Text, decodeD1Value] at h
    split at h
    · next hmark =>
        obtain ⟨b, hb, rfl⟩ := map_eq_some_iff.1 h
        -- eight code units of marker in front of at most as many as were decoded
        have hlen := Base64.length_atob_le hb
        have htext := Utf8.length_decodeText_le b
        obtain ⟨rest, rfl⟩ := List.isPrefixOf_iff_prefix.1 hmark
        have hmarker : d1Marker.length = 8 := by decide
        rw [List.drop_left] at hlen
        constructor
        · intro heq
          have hsame : (Utf8.decodeText b).length = (d1Marker ++ rest).length :=
            congrArg List.length heq
          rw [List.length_append] at hsame
          omega
        · intro hnot
          rw [KvValue.isMarkedText, hmark] at hnot
          cases hnot
    · next hmark =>
        obtain rfl := some.inj h
        refine ⟨fun _ => ?_, fun _ => rfl⟩
        rw [KvValue.isMarkedText]
        exact Bool.eq_false_iff.2 hmark

theorem d1Answer_of_answers (h : AfterPut env k v expirationTtl t₀ s)
    (hans : d1Answers k v = true) :
    ∃ x, decodeD1Value (d1Text v) = some x ∧
      s.d1Answer env k .text = some (some (.text x.string)) := by
  obtain ⟨hk, hdec⟩ := Bool.and_eq_true_iff.1 hans
  have hkey : isDownloadKey k = false := by simpa using hk
  obtain ⟨x, hx⟩ := isSome_iff_exists.1 hdec
  refine ⟨x, hx, ?_⟩
  unfold d1Answer
  rw [if_neg (Bool.eq_false_iff.1 hkey), h.d1 hkey]
  show (decodeD1Value (d1Text v)).map _ = _
  rw [hx]
  rfl

/-- Where it does not, the other layers are asked. -/
theorem d1Answer_of_not_answers (h : AfterPut env k v expirationTtl t₀ s)
    (hnot : d1Answers k v = false) :
    s.d1Answer env k .text = none := by
  unfold d1Answer
  by_cases hkey : isDownloadKey k = true
  · exact if_pos hkey
  · have hdec : decodeD1Value (d1Text v) = none := by
      rw [d1Answers, Bool.eq_false_iff.2 hkey] at hnot
      exact isSome_eq_false_iff.1 hnot |> isNone_iff_eq_none.1
    rw [if_neg hkey, h.d1 (Bool.eq_false_iff.2 hkey)]
    show (decodeD1Value (d1Text v)).map _ = none
    rw [hdec]
    rfl

/-- While a value has not expired, memory has it and the cache has nothing else. -/
theorem lower_afterPut (h : AfterPut env k v expirationTtl t₀ s) (ht : s.now ≤ t)
    (hlive : ¬ TtlElapsed expirationTtl t₀ t) :
    s.memMatch k t = some v ∧
      (s.cacheMatch env k t = none ∨ s.cacheMatch env k t = some (.bytes v.body)) := by
  have hput := h.live ht hlive
  constructor
  · rw [memMatch, hput.mem, bind_some, live_put hlive]
  · unfold cacheMatch
    split
    · next hbound =>
        cases hc : s.cache k with
        | none => exact inl rfl
        | some e =>
          -- whatever is left in the cache is the entry of the put, fresh or not
          rw [bind_some, hput.cache hbound e hc]
          split
          · exact inr rfl
          · exact inl rfl
    · exact inl rfl

/-- Once the value has expired, cache and memory have nothing, unless a get has read a
value of the raw KV through. -/
theorem lower_expired_iff (h : AfterPut env k v expirationTtl t₀ s)
    (helapsed : TtlElapsed expirationTtl t₀ t) :
    s.cacheMatch env k t = none ∧ s.memMatch k t = none ↔
      s.mem k = some ⟨v, putExpiresAt expirationTtl t₀⟩ := by
  obtain ⟨hne, hexp, hage⟩ := helapsed.expiresAt
  rcases h.entries with hput | ⟨-, val, hval⟩
  · refine ⟨fun _ => hput.mem, fun _ => ⟨?_, ?_⟩⟩
    · unfold cacheMatch
      split
      · next hbound =>
          cases hc : s.cache k with
          | none => rfl
          | some e =>
            rw [bind_some, hput.cache hbound e hc]
            exact if_neg (Nat.not_lt.2 hage)
      · rfl
    · rw [memMatch, hput.mem, bind_some]
      exact if_neg (not_or.2 ⟨hne, Nat.not_lt.2 hexp⟩)
  · constructor
    · rintro ⟨-, hmem⟩
      rw [memMatch, hval, bind_some] at hmem
      cases (if_pos (inl rfl)).symm.trans hmem
    · intro hput
      rw [hval] at hput
      -- what is read through has no expiry, the put had one
      exact absurd (congrArg StoredValue.expiresAt (some.inj hput)).symm hne

theorem get_afterPut_iff (h : AfterPut env k v expirationTtl t₀ s) (ht : s.now ≤ t) :
    (KvWrite.put v expirationTtl t₀).IsExpected t (s.get env k .text t).2 ↔
      GetIsRight env s k t (.put v expirationTtl t₀) := by
  rw [get_text]
  unfold KvWrite.IsExpected GetIsRight
  dsimp only
  cases hd : d1Answers k v with
  | true =>
    -- D1 answers the decoded row, whatever the time
    obtain ⟨x, hx, hresult⟩ := d1Answer_of_answers h hd
    rw [hresult, if_pos rfl, ← decode_d1Text_string hx]
    by_cases hel : TtlElapsed expirationTtl t₀ t
    · simp [hel]
    · simp [hel]
  | false =>
    rw [d1Answer_of_not_answers h hd, if_neg Bool.false_ne_true]
    by_cases hel : TtlElapsed expirationTtl t₀ t
    · rw [← lower_expired_iff h hel]
      simp [hel]
    · -- the cache answers with the bytes of the value, or memory with the value
      obtain ⟨hmem, hcache⟩ := lower_afterPut h ht hel
      rw [hmem]
      rcases hcache with hcache | hcache
      · simp [hel, hcache]
      · rw [hcache]
        simp [hel, KvValue.string]

theorem get_afterDelete (h : AfterDelete env k s) (t : Nat) : (s.get env k .text t).2 = none := by
  have hcache : s.cacheMatch env k t = none := by
    unfold cacheMatch
    split
    · next hbound =>
        rw [h.cache hbound]
        rfl
    · rfl
  have hmem : s.memMatch k t = none := by rw [memMatch, h.mem]; rfl
  have hraw : s.rawMatch k t = none := by rw [rawMatch, h.raw]; rfl
  rw [get_text, hcache, hmem, hraw]
  unfold d1Answer
  split
  · next result hresult =>
      split at hresult
      · cases hresult
      · next hk =>
          -- without a row D1 answers for the keys that live there only: with nothing
          rw [h.d1 (Bool.eq_false_iff.2 hk)] at hresult
          dsimp only at hresult
          split at hresult
          · exact (some.inj hresult).symm
          · cases hresult
  · rfl

/-- **When a get is right.**  After any run of calls, from any state of the layers, a `get` of type
text returns what the last write of its key says, if and only if `GetIsRight` holds of the state
just before. -/
theorem get_expected_iff (env : KvEnv) (s t : EdgeKv) (as : List (Nat × KvLabel))
    (hrun : run (EdgeKv.step env) s as = some t) (k : String) (w : KvWrite)
    (hlast : lastWrite k as = some w) (time : Nat) (htime : t.now ≤ time) :
    w.IsExpected time (t.get env k .text time).2 ↔ GetIsRight env t k time w := by
  have hnone : ∀ w : KvWrite, none = some w → w.After env k s := fun _ h => nomatch h
  have hafter : w.After env k t := after_run hrun hnone w (by rw [hlast]; rfl)
  cases w with
  | put v expirationTtl t₀ => exact get_afterPut_iff hafter htime
  | delete => exact ⟨fun _ => trivial, fun _ => get_afterDelete hafter time⟩

/-- No entry in any layer. -/
def EdgeKv.empty : EdgeKv where
  d1 := fun _ => none
  cache := fun _ => none
  mem := fun _ => none
  lastRawPut := fun _ => 0
  raw := fun _ => none
  now := 0

/-- An isolate with an edge cache; nothing it holds is JSON. -/
def tokenEnv : KvEnv where
  cacheBound := true
  jsonReprint := fun _ => none

/-- The text `tok`. -/
def tokenText : KvValue := .text [0x74, 0x6F, 0x6B]

/-- A token of ten minutes is put at time zero. -/
def tokenPut : List (Nat × KvLabel) := [(0, .put "oauth:sid" tokenText (some 600))]

/-- The state after it. -/
def tokenKv : EdgeKv :=
  { EdgeKv.empty.put tokenEnv "oauth:sid" tokenText (some 600) 0 with now := 0 }

/-- A second before it expires, the token is read. -/
theorem get_expected_iff_inTime :
    (KvWrite.put tokenText (some 600) 0).IsExpected 599000
      (tokenKv.get tokenEnv "oauth:sid" .text 599000).2 := by
  refine (get_expected_iff tokenEnv EdgeKv.empty tokenKv tokenPut rfl "oauth:sid"
    (.put tokenText (some 600) 0) rfl 599000 (Nat.zero_le _)).2 ?_
  have hanswers : d1Answers "oauth:sid" tokenText = true := by decide
  unfold GetIsRight
  dsimp only
  rw [if_pos hanswers]
  refine ⟨?_, by decide⟩
  rintro ⟨ttl, httl, -, hle⟩
  obtain rfl := some.inj httl
  omega

/-- **The row outlives the token.**  A hundred seconds after it has expired, the token is
still read. -/
theorem expired_token_read :
    run (EdgeKv.step tokenEnv) EdgeKv.empty tokenPut = some tokenKv ∧
      (tokenKv.get tokenEnv "oauth:sid" .text 700000).2 = some tokenText ∧
      ¬ (KvWrite.put tokenText (some 600) 0).IsExpected 700000
        (tokenKv.get tokenEnv "oauth:sid" .text 700000).2 := by
  have hread : (tokenKv.get tokenEnv "oauth:sid" .text 700000).2 = some tokenText := by decide
  refine ⟨rfl, hread, fun hexpected => ?_⟩
  have hnone := hexpected.1 ⟨600, rfl, by decide, by decide⟩
  rw [hread] at hnone
  cases hnone
