/-
# Polling for a GitHub login

A session that the callback stored is in the memory of the isolate that served it and in
the store; a poll takes the token out of one of them.  Out of the memory that is one step.
Out of the store it is a read, awaited, and then a delete, awaited too: in between other
polls run.

Polls interleave at their awaits in any way.  A call of the store takes effect at one
moment between the handler's await and its resumption (`PollLabel.answer`): the sessions
are kept in D1, where a read is one query and a delete is one statement.  `expire` is the
store dropping an entry by itself.
-/
import XyDeskRemote.LabelledRun
import XyDeskRemote.OauthSession

open LabelledRun WorkerText Function Option Or

/-! ## The handler -/

/-- How long a session is kept. -/
def oauthSessionTtlMs : Nat := 15 * 60 * 1000

/-- Where a poll waits. -/
inductive PollPhase where
  /-- for `get` -/
  | reading
  /-- `get` has answered -/
  | read (kvRaw : Option SessionPayload)
  /-- for `delete` -/
  | deleting (payload : SessionPayload)
  /-- the entry is deleted -/
  | deleted (payload : SessionPayload)
  | responded (response : OauthResponse)

/-- A poll, and where it stands. -/
structure Poll where
  sid : CodeUnits
  phase : PollPhase

/-- `EDGE_OAUTH_SESSIONS`. -/
abbrev EdgeSessions := CodeUnits → Option SessionPayload

/-- The entry of a session, when it has a token and is not too old. -/
def edgeHit (sessions : EdgeSessions) (now : Nat) (sid : CodeUnits) : Option SessionPayload :=
  (sessions sid).filter fun p => !p.token.isEmpty && now - p.issuedAt < oauthSessionTtlMs

/-- The handler of `/api/github/oauth/poll` up to its first await: what it leaves of the
sessions in memory, and where it waits. -/
def pollArrive (kvBound : Bool) (sessions : EdgeSessions) (now : Nat) (r : OauthRequest) :
    EdgeSessions × PollPhase :=
  if r.method = lit "OPTIONS" then (sessions, .responded (.preflight (lit "GET, OPTIONS")))
  else if r.method ≠ lit "GET" then
    (sessions, .responded (.methodNotAllowed (lit "GET, OPTIONS")))
  else if r.sid.isEmpty then (sessions, .responded .notReady)
  else
    match edgeHit sessions now r.sid with
    | some p =>
      (update sessions r.sid none,
        if kvBound then .deleting p else .responded (.ready p))
    | none => (sessions, if kvBound then .reading else .responded .notReady)

/-- The call of the store that a poll waits for takes effect. -/
def pollAnswer (store : CodeUnits → Option SessionPayload) (q : Poll) :
    Option ((CodeUnits → Option SessionPayload) × PollPhase) :=
  match q.phase with
  | .reading => some (store, .read (store (oauthKey q.sid)))
  | .deleting p => some (update store (oauthKey q.sid) none, .deleted p)
  | _ => none

/-- The handler goes on after an answer. -/
def pollResume : PollPhase → Option PollPhase
  | .read (some p) => some (if p.token.isEmpty then .responded .notReady else .deleting p)
  | .read none => some (.responded .notReady)
  | .deleted p => some (.responded (.ready p))
  | _ => none

/-! ## Interleaved polls -/

/-- The isolate, the store and the polls. -/
structure PollSystem (ι : Type*) where
  sessions : EdgeSessions
  store : CodeUnits → Option SessionPayload
  now : Nat
  polls : ι → Option Poll

/-- What can happen. -/
inductive PollLabel (ι : Type*) where
  | arrive (i : ι) (r : OauthRequest)
  | answer (i : ι)
  | resume (i : ι)
  | expire (key : CodeUnits)
  | tick

namespace PollSystem

variable {ι : Type*}

/-- A step of the polls. -/
def step [DecidableEq ι] (kvBound : Bool) (s : PollSystem ι) : PollLabel ι → Option (PollSystem ι)
  | .arrive i r =>
    let (sessions, phase) := pollArrive kvBound s.sessions s.now r
    if (s.polls i).isSome then none
    else
      some
        { s with
          sessions := sessions
          polls := update s.polls i (some ⟨r.sid, phase⟩) }
  | .answer i =>
    (s.polls i).bind fun q => (pollAnswer s.store q).map fun (store, phase) =>
      { s with store := store, polls := update s.polls i (some ⟨q.sid, phase⟩) }
  | .resume i =>
    (s.polls i).bind fun q => (pollResume q.phase).map fun phase =>
      { s with polls := update s.polls i (some ⟨q.sid, phase⟩) }
  | .expire key => some { s with store := update s.store key none }
  | .tick => some { s with now := s.now + 1 }

/-! ## Who has the token -/

/-- The poll has the token, and its delete is still to be carried out. -/
def holds : PollPhase → Bool
  | .read (some p) => !p.token.isEmpty
  | .deleting _ => true
  | _ => false

/-- The poll has the token, and the stored copy is deleted. -/
def hasDeleted : PollPhase → Bool
  | .deleted _ => true
  | .responded (.ready _) => true
  | _ => false

/-- Poll `i` is for the session and where `f` says. -/
def At (f : PollPhase → Bool) (s : PollSystem ι) (sid : CodeUnits) (i : ι) : Prop :=
  ∃ q, s.polls i = some q ∧ q.sid = sid ∧ f q.phase = true

/-- Poll `i` has taken the token of the session. -/
def Taken (s : PollSystem ι) (sid : CodeUnits) (i : ι) : Prop :=
  s.At (fun phase => holds phase || hasDeleted phase) sid i

/-- At most one poll has taken the token. -/
def TakenOnce (sid : CodeUnits) (s : PollSystem ι) : Prop :=
  ∀ i j, s.Taken sid i → s.Taken sid j → i = j

/-- At most one response carries the token. -/
def DeliveredOnce (sid : CodeUnits) (s : PollSystem ι) : Prop :=
  ∀ i j p p', s.polls i = some ⟨sid, .responded (.ready p)⟩ →
    s.polls j = some ⟨sid, .responded (.ready p')⟩ → i = j

/-- A step that does not read the stored copy while another poll for the session has the
token and its delete is still to be carried out. -/
def ReadsInOrder (sid : CodeUnits) (s : PollSystem ι) (a : PollLabel ι) : Prop :=
  ∀ i, a = .answer i → s.polls i = some ⟨sid, .reading⟩ →
    ∀ p, s.store (oauthKey sid) = some p → p.token ≠ [] → ∀ j, ¬ s.At holds sid j

/-- A session is stored, in the memory of the isolate or of another one, and no poll has
arrived. -/
structure Stored (kvBound : Bool) (sid : CodeUnits) (p : SessionPayload) (s : PollSystem ι) :
    Prop where
  memory : s.sessions sid = some p ∨ s.sessions sid = none
  store : s.store (oauthKey sid) = if kvBound then some p else none
  polls : ∀ i, s.polls i = none

/-! ## What one step does -/

/-- The poll got past the sessions in memory: it waits, or has the token. -/
def pastMemory : PollPhase → Bool
  | .responded (.ready _) => true
  | .responded _ => false
  | _ => true

theorem pastMemory_of_taken {phase : PollPhase} (h : (holds phase || hasDeleted phase) = true) :
    pastMemory phase = true := by
  cases phase with
  | responded response => cases response <;> first | rfl | cases h
  | reading => rfl
  | read kvRaw => rfl
  | deleting p => rfl
  | deleted p => rfl

/-- A session that is not in memory stays out of it. -/
theorem edgeHit_none_mono {sessions sessions' : EdgeSessions} {now now' : Nat} {sid : CodeUnits}
    (h : edgeHit sessions now sid = none)
    (hsessions : sessions' sid = sessions sid ∨ sessions' sid = none) (hnow : now ≤ now') :
    edgeHit sessions' now' sid = none := by
  rw [edgeHit, filter_eq_none_iff] at h ⊢
  intro p hp
  rcases hsessions with hsame | hnone
  · rw [hsame] at hp
    have hold := h p hp
    simp only [Bool.and_eq_true, decide_eq_true_eq, not_and] at hold ⊢
    intro htoken
    have hlate := hold htoken
    omega
  · rw [hnone] at hp
    cases hp

/-- A handler that arrives finds the session in memory and takes it out, or leaves the
memory alone. -/
theorem pollArrive_cases (kvBound : Bool) (sessions : EdgeSessions) (now : Nat)
    (r : OauthRequest) :
    (∃ p, edgeHit sessions now r.sid = some p ∧
        pollArrive kvBound sessions now r =
          (update sessions r.sid none,
            if kvBound then .deleting p else .responded (.ready p))) ∨
      ∃ phase, pollArrive kvBound sessions now r = (sessions, phase) ∧
        (pastMemory phase = false ∨
          (phase = .reading ∧ edgeHit sessions now r.sid = none)) := by
  unfold pollArrive
  by_cases hoptions : r.method = lit "OPTIONS"
  · rw [if_pos hoptions]
    exact inr ⟨_, rfl, inl rfl⟩
  rw [if_neg hoptions]
  by_cases hget : r.method ≠ lit "GET"
  · rw [if_pos hget]
    exact inr ⟨_, rfl, inl rfl⟩
  rw [if_neg hget]
  by_cases hempty : r.sid.isEmpty = true
  · rw [if_pos hempty]
    exact inr ⟨_, rfl, inl rfl⟩
  rw [if_neg hempty]
  cases hhit : edgeHit sessions now r.sid with
  | some p => exact inl ⟨p, rfl, rfl⟩
  | none =>
    refine inr ⟨_, rfl, ?_⟩
    cases kvBound with
    | false => exact inl rfl
    | true => exact inr ⟨rfl, rfl⟩

section At

variable {s t : PollSystem ι} {sid : CodeUnits} {i j : ι} {q : Poll} {f : PollPhase → Bool}

/-- The polls after one of them went on. -/
theorem at_update [DecidableEq ι] (h : t.polls = update s.polls i (some q)) :
    t.At f sid j ↔ (j = i ∧ q.sid = sid ∧ f q.phase = true) ∨ (j ≠ i ∧ s.At f sid j) := by
  by_cases hij : j = i
  · subst hij
    constructor
    · rintro ⟨q', hq', hrest⟩
      rw [h, update_self, some.injEq] at hq'
      subst hq'
      exact inl ⟨rfl, hrest⟩
    · rintro (⟨-, hrest⟩ | ⟨hne, -⟩)
      · refine ⟨q, ?_, hrest⟩
        rw [h, update_self]
      · exact absurd rfl hne
  · have hsame : t.polls j = s.polls j := by rw [h, update_of_ne hij]
    constructor
    · rintro ⟨q', hq', hrest⟩
      exact inr ⟨hij, q', hsame ▸ hq', hrest⟩
    · rintro (⟨heq, -⟩ | ⟨-, q', hq', hrest⟩)
      · exact absurd heq hij
      · exact ⟨q', hsame.trans hq', hrest⟩

/-- A poll that does not come to have the token leaves it where it was. -/
theorem TakenOnce.of_subset (h : TakenOnce sid s) (hsub : ∀ j, t.Taken sid j → s.Taken sid j) :
    TakenOnce sid t :=
  fun j k hj hk => h j k (hsub j hj) (hsub k hk)

/-- A poll that is the first one to have the token. -/
theorem TakenOnce.of_first (hnone : ∀ j, ¬ s.Taken sid j)
    (h : ∀ j, t.Taken sid j → j = i ∨ s.Taken sid j) : TakenOnce sid t := by
  intro j k hj hk
  rcases h j hj with rfl | hj
  · rcases h k hk with rfl | hk
    · rfl
    · exact absurd hk (hnone k)
  · exact absurd hj (hnone j)

end At

/-! ## The invariant -/

/-- A session whose token a poll took or looks for is not in memory any more, and the
stored copy is gone once a poll has deleted it. -/
structure Inv (kvBound : Bool) (sid : CodeUnits) (s : PollSystem ι) : Prop where
  cold : ∀ i, s.At pastMemory sid i → edgeHit s.sessions s.now sid = none
  deleted : ∀ i, s.At hasDeleted sid i → s.store (oauthKey sid) = none
  unbound : kvBound = false → s.store (oauthKey sid) = none

section Step

variable {kvBound : Bool} {s t : PollSystem ι} {sid : CodeUnits} {a : PollLabel ι}

/-- An entry of the store that is gone stays away when another one is deleted. -/
theorem update_none {store : CodeUnits → Option SessionPayload} {key key' : CodeUnits}
    (h : store key = none) : update store key' none key = none := by
  by_cases hkey : key = key'
  · rw [hkey, update_self]
  · rw [update_of_ne hkey, h]

theorem Stored.inv {p : SessionPayload} (h : Stored kvBound sid p s) : Inv kvBound sid s := by
  have hnone : ∀ {f : PollPhase → Bool} {i : ι}, ¬ s.At f sid i := by
    rintro f i ⟨q, hq, -⟩
    rw [h.polls i] at hq
    cases hq
  refine ⟨fun i hi => absurd hi hnone, fun i hi => absurd hi hnone, fun hbound => ?_⟩
  rw [h.store, hbound]
  rfl

/-- An entry that is dropped from the store leaves the invariant. -/
theorem Inv.drop_stored (h : Inv kvBound sid s) (key : CodeUnits) :
    Inv kvBound sid { s with store := update s.store key none } :=
  ⟨h.cold, fun j hj => update_none (h.deleted j hj), fun hbound => update_none (h.unbound hbound)⟩

/-- A session that is taken out of the memory leaves it, too. -/
theorem Inv.drop_session (h : Inv kvBound sid s) (sid' : CodeUnits) :
    Inv kvBound sid { s with sessions := update s.sessions sid' none } := by
  refine ⟨fun j hj => edgeHit_none_mono (h.cold j hj) ?_ (Nat.le_refl _), h.deleted, h.unbound⟩
  by_cases hsid : sid = sid'
  · right
    rw [hsid]
    exact update_self ..
  · left
    exact update_of_ne hsid ..

variable [DecidableEq ι]

/-! ### The steps by their labels -/

theorem step_arrive {i : ι} {r : OauthRequest} (h : step kvBound s (.arrive i r) = some t) :
    t = { s with
      sessions := (pollArrive kvBound s.sessions s.now r).1
      polls := update s.polls i
        (some ⟨r.sid, (pollArrive kvBound s.sessions s.now r).2⟩) } := by
  by_cases harrived : (s.polls i).isSome
  · simp only [step, harrived, if_true] at h
    cases h
  · simp only [step, harrived, if_false, some.injEq, Bool.false_eq_true] at h
    exact h.symm

/-- The store answers a read or carries out a delete. -/
theorem step_answer {i : ι} (h : step kvBound s (.answer i) = some t) :
    (∃ sid, s.polls i = some ⟨sid, .reading⟩ ∧
        t = { s with
          polls := update s.polls i (some ⟨sid, .read (s.store (oauthKey sid))⟩) }) ∨
      ∃ sid p, s.polls i = some ⟨sid, .deleting p⟩ ∧
        t = { s with
          store := update s.store (oauthKey sid) none
          polls := update s.polls i (some ⟨sid, .deleted p⟩) } := by
  obtain ⟨⟨sid, phase⟩, hq, h⟩ := bind_eq_some_iff.1 h
  obtain ⟨⟨store, phase'⟩, hanswer, rfl⟩ := map_eq_some_iff.1 h
  cases phase with
  | reading =>
    cases hanswer
    exact inl ⟨sid, hq, rfl⟩
  | deleting p =>
    cases hanswer
    exact inr ⟨sid, p, hq, rfl⟩
  | read kvRaw => cases hanswer
  | deleted p => cases hanswer
  | responded response => cases hanswer

theorem step_resume {i : ι} (h : step kvBound s (.resume i) = some t) :
    ∃ q phase, s.polls i = some q ∧ pollResume q.phase = some phase ∧
      t = { s with polls := update s.polls i (some ⟨q.sid, phase⟩) } := by
  obtain ⟨q, hq, h⟩ := bind_eq_some_iff.1 h
  obtain ⟨phase, hphase, rfl⟩ := map_eq_some_iff.1 h
  exact ⟨q, phase, hq, hphase, rfl⟩

/-- A poll that goes on was past the memory before, has the token only if it had it
before, and has deleted only if it had before. -/
theorem pollResume_spec {phase phase' : PollPhase} (h : pollResume phase = some phase') :
    pastMemory phase = true ∧ (hasDeleted phase' = true → hasDeleted phase = true) ∧
      ((holds phase' || hasDeleted phase') = true →
        (holds phase || hasDeleted phase) = true) := by
  cases phase with
  | reading => cases h
  | deleting p => cases h
  | responded response => cases h
  | deleted p =>
    cases h
    exact ⟨rfl, fun _ => rfl, fun _ => rfl⟩
  | read kvRaw =>
    cases kvRaw with
    | none =>
      cases h
      exact ⟨rfl, fun hdone => absurd hdone Bool.false_ne_true,
        fun htaken => absurd htaken Bool.false_ne_true⟩
    | some p =>
      obtain rfl := some.inj h
      by_cases htoken : p.token.isEmpty = true
      · rw [if_pos htoken]
        exact ⟨rfl, fun hdone => absurd hdone Bool.false_ne_true,
          fun htaken => absurd htaken Bool.false_ne_true⟩
      · rw [if_neg htoken]
        refine ⟨rfl, fun hdone => absurd hdone Bool.false_ne_true, fun _ => ?_⟩
        simp [holds, htoken]

/-- A poll of the session that goes on may have to find that the session is out of the
memory, and the stored copy gone. -/
theorem Inv.put_poll (h : Inv kvBound sid s) {i : ι} {q : Poll}
    (hcold : q.sid = sid → pastMemory q.phase = true → edgeHit s.sessions s.now sid = none)
    (hdeleted : q.sid = sid → hasDeleted q.phase = true → s.store (oauthKey sid) = none) :
    Inv kvBound sid { s with polls := update s.polls i (some q) } := by
  refine ⟨fun j hj => ?_, fun j hj => ?_, h.unbound⟩
  · rcases (at_update rfl).1 hj with ⟨-, hsid, hpast⟩ | ⟨-, hold⟩
    · exact hcold hsid hpast
    · exact h.cold j hold
  · rcases (at_update rfl).1 hj with ⟨-, hsid, hdone⟩ | ⟨-, hold⟩
    · exact hdeleted hsid hdone
    · exact h.deleted j hold

/-- A poll arrives, and takes its session out of the memory or leaves that alone. -/
theorem inv_arrive (h : Inv kvBound sid s) (i : ι) (r : OauthRequest) :
    Inv kvBound sid { s with
      sessions := (pollArrive kvBound s.sessions s.now r).1
      polls := update s.polls i
        (some ⟨r.sid, (pollArrive kvBound s.sessions s.now r).2⟩) } := by
  rcases pollArrive_cases kvBound s.sessions s.now r with ⟨p, -, harrive⟩ |
    ⟨phase, harrive, hphase⟩
  · rw [harrive]
    refine (h.drop_session r.sid).put_poll (fun hsid _ => ?_) (fun _ hdone => ?_)
    · show edgeHit (update s.sessions r.sid none) s.now sid = none
      have hgone : update s.sessions r.sid none sid = none := by
        rw [← hsid]
        exact update_self ..
      rw [edgeHit, hgone]
      rfl
    · cases kvBound with
      | false => exact h.unbound rfl
      | true => cases hdone
  · rw [harrive]
    refine h.put_poll (fun hsid hpast => ?_) (fun _ hdone => ?_)
    · rcases hphase with hout | ⟨-, hcold⟩
      · exact absurd hpast (by rw [hout]; exact Bool.false_ne_true)
      · rw [← hsid]
        exact hcold
    · rcases hphase with hout | ⟨hreading, -⟩
      · have htaken : pastMemory phase = true :=
          pastMemory_of_taken (by rw [show hasDeleted phase = true from hdone, Bool.or_true])
        rw [hout] at htaken
        cases htaken
      · rw [hreading] at hdone
        cases hdone

/-- **Every step keeps the invariant.** -/
theorem inv_step (h : Inv kvBound sid s) (hstep : step kvBound s a = some t) :
    Inv kvBound sid t := by
  cases a with
  | arrive i r =>
    obtain rfl := step_arrive hstep
    exact inv_arrive h i r
  | answer i =>
    rcases step_answer hstep with ⟨sid', hq, rfl⟩ | ⟨sid', p, hq, rfl⟩
    · refine h.put_poll (fun hsid _ => ?_) (fun _ hdone => ?_)
      · exact h.cold i ⟨_, hq, hsid, rfl⟩
      · cases hdone
    · -- the delete: the entry goes, and the poll has seen to it
      refine (h.drop_stored (oauthKey sid')).put_poll (fun hsid _ => ?_) (fun hsid _ => ?_)
      · exact h.cold i ⟨_, hq, hsid, rfl⟩
      · show update s.store (oauthKey sid') none (oauthKey sid) = none
        rw [← hsid]
        exact update_self ..
  | resume i =>
    obtain ⟨q, phase, hq, hphase, rfl⟩ := step_resume hstep
    obtain ⟨hpast, hdone, -⟩ := pollResume_spec hphase
    refine h.put_poll (fun hsid _ => ?_) (fun hsid hdeleted => ?_)
    · exact h.cold i ⟨q, hq, hsid, hpast⟩
    · exact h.deleted i ⟨q, hq, hsid, hdone hdeleted⟩
  | expire key =>
    obtain rfl := some.inj hstep
    exact h.drop_stored key
  | tick =>
    obtain rfl := some.inj hstep
    exact ⟨fun j hj => edgeHit_none_mono (h.cold j hj) (inl rfl) (Nat.le_succ _),
      h.deleted, h.unbound⟩

/-- An answered read leaves the token with one poll exactly if it is in order. -/
theorem takenOnce_read {i : ι} {sid' : CodeUnits} (h : Inv kvBound sid s)
    (honce : TakenOnce sid s) (hq : s.polls i = some ⟨sid', .reading⟩) :
    TakenOnce sid { s with
        polls := update s.polls i (some ⟨sid', .read (s.store (oauthKey sid'))⟩) } ↔
      ReadsInOrder sid s (.answer i) := by
  have hlabel : ∀ {i'}, PollLabel.answer i = .answer i' → i' = i := fun ha =>
    (PollLabel.answer.inj ha).symm
  -- a read that does not give the poll the token of the session
  have hquiet : (sid' = sid → holds (.read (s.store (oauthKey sid'))) = false) →
      TakenOnce sid { s with
        polls := update s.polls i (some ⟨sid', .read (s.store (oauthKey sid'))⟩) } := by
    intro hnothing
    refine honce.of_subset fun j hj => ?_
    rcases (at_update rfl).1 hj with ⟨-, hsid, htaken⟩ | ⟨-, hold⟩
    · rw [hnothing hsid] at htaken
      cases htaken
    · exact hold
  by_cases hsid : sid' = sid
  · subst hsid
    cases hstore : s.store (oauthKey sid') with
    | none =>
      rw [hstore] at hquiet
      refine iff_of_true (hquiet fun _ => rfl) ?_
      intro i' _ _ p hp
      rw [hstore] at hp
      cases hp
    | some p =>
      rw [hstore] at hquiet
      by_cases htoken : p.token = []
      · refine iff_of_true (hquiet fun _ => by simp [holds, htoken]) ?_
        intro i' _ _ p' hp' hne
        rw [hstore, some.injEq] at hp'
        exact absurd (hp' ▸ htoken) hne
      · have hholds : holds (.read (some p)) = true := by simp [holds, htoken]
        constructor
        · rintro htaken i' ha - p' - - j ⟨q, hqj, hsidj, hholdsj⟩
          have hji : j ≠ i := by
            rintro rfl
            rw [hq] at hqj
            cases hqj
            cases hholdsj
          refine hji (htaken j i ((at_update rfl).2 (inr ⟨hji, q, hqj, hsidj, ?_⟩))
            ((at_update rfl).2 (inl ⟨rfl, rfl, ?_⟩)))
          · exact Bool.or_eq_true_iff.2 (inl hholdsj)
          · exact Bool.or_eq_true_iff.2 (inl hholds)
        · intro horder
          have hnone : ∀ j, ¬ s.Taken sid' j := by
            rintro j ⟨q, hqj, hsidj, htaken⟩
            rcases Bool.or_eq_true_iff.1 htaken with hhold | hdone
            · exact horder i rfl hq p hstore htoken j ⟨q, hqj, hsidj, hhold⟩
            · rw [h.deleted j ⟨q, hqj, hsidj, hdone⟩] at hstore
              cases hstore
          refine TakenOnce.of_first (i := i) hnone fun j hj => ?_
          rcases (at_update rfl).1 hj with ⟨heq, -⟩ | ⟨-, hold⟩
          · exact inl heq
          · exact inr hold
  · refine iff_of_true (hquiet fun heq => absurd heq hsid) ?_
    intro i' ha hreading
    rw [hlabel ha, hq] at hreading
    cases hreading
    exact absurd rfl hsid

/-- **A step leaves the token with one poll exactly if it reads in order.** -/
theorem takenOnce_step (h : Inv kvBound sid s) (honce : TakenOnce sid s)
    (hstep : step kvBound s a = some t) : TakenOnce sid t ↔ ReadsInOrder sid s a := by
  have hother : (∀ i, a ≠ .answer i) → ReadsInOrder sid s a :=
    fun hne i ha => absurd ha (hne i)
  cases a with
  | arrive i r =>
    refine iff_of_true ?_ (hother fun i => by simp)
    obtain rfl := step_arrive hstep
    rcases pollArrive_cases kvBound s.sessions s.now r with ⟨p, hhit, harrive⟩ |
      ⟨phase, harrive, hphase⟩
    · rw [harrive]
      by_cases hsid : r.sid = sid
      · -- the session was in memory, so no poll has its token yet
        have hnone : ∀ j, ¬ s.Taken sid j := by
          rintro j ⟨q, hq, hqsid, htaken⟩
          have hcold := h.cold j ⟨q, hq, hqsid, pastMemory_of_taken htaken⟩
          rw [hsid, hcold] at hhit
          cases hhit
        refine TakenOnce.of_first (i := i) hnone fun j hj => ?_
        rcases (at_update rfl).1 hj with ⟨heq, -⟩ | ⟨-, hold⟩
        · exact inl heq
        · exact inr hold
      · refine honce.of_subset fun j hj => ?_
        rcases (at_update rfl).1 hj with ⟨-, heq, -⟩ | ⟨-, hold⟩
        · exact absurd heq hsid
        · exact hold
    · rw [harrive]
      refine honce.of_subset fun j hj => ?_
      rcases (at_update rfl).1 hj with ⟨-, -, htaken⟩ | ⟨-, hold⟩
      · rcases hphase with hout | ⟨hreading, -⟩
        · rw [pastMemory_of_taken htaken] at hout
          cases hout
        · rw [hreading] at htaken
          cases htaken
      · exact hold
  | answer i =>
    rcases step_answer hstep with ⟨sid', hq, rfl⟩ | ⟨sid', p, hq, rfl⟩
    · exact takenOnce_read h honce hq
    · -- a delete: the poll had the token before
      refine iff_of_true (honce.of_subset fun j hj => ?_) ?_
      · rcases (at_update rfl).1 hj with ⟨rfl, hsid, -⟩ | ⟨-, hold⟩
        · exact ⟨_, hq, hsid, rfl⟩
        · exact hold
      · rintro i' ha hreading
        cases ha
        rw [hq] at hreading
        cases hreading
  | resume i =>
    refine iff_of_true ?_ (hother fun i => by simp)
    obtain ⟨q, phase, hq, hphase, rfl⟩ := step_resume hstep
    refine honce.of_subset fun j hj => ?_
    rcases (at_update rfl).1 hj with ⟨rfl, hsid, htaken⟩ | ⟨-, hold⟩
    · exact ⟨q, hq, hsid, (pollResume_spec hphase).2.2 htaken⟩
    · exact hold
  | expire key =>
    obtain rfl := some.inj hstep
    exact iff_of_true honce (hother fun i => by simp)
  | tick =>
    obtain rfl := some.inj hstep
    exact iff_of_true honce (hother fun i => by simp)

end Step

/-! ## Whole runs -/

section Run

variable {kvBound : Bool} {sid : CodeUnits} {p : SessionPayload} {s : PollSystem ι}

/-- Before any poll has arrived none has taken the token. -/
theorem Stored.takenOnce (h : Stored kvBound sid p s) : TakenOnce sid s := by
  rintro i j ⟨q, hq, -⟩
  rw [h.polls i] at hq
  cases hq

/-- A poll that has responded with the token has taken it. -/
theorem TakenOnce.delivered (h : TakenOnce sid s) : DeliveredOnce sid s := by
  intro i j p p' hi hj
  exact h i j ⟨_, hi, rfl, rfl⟩ ⟨_, hj, rfl, rfl⟩

variable [DecidableEq ι]

/-- **The token of a stored session is taken once, along any run, exactly if the polls
read in order.** -/
theorem takenOnce_iff (h : Stored kvBound sid p s) (labels : List (PollLabel ι)) :
    EveryState (step kvBound) (TakenOnce sid) s labels ↔
      EveryStep (step kvBound) (fun s a _ => ReadsInOrder sid s a) s labels :=
  everyState_iff_everyStep (fun _ _ _ hinv hstep => inv_step hinv hstep)
    (fun _ _ _ hinv honce hstep => takenOnce_step hinv honce hstep) h.inv h.takenOnce labels

/-- **At most one response carries the token**, in every state of every run in which no
poll reads the stored copy while another one has the token and its delete is still to be
carried out. -/
theorem oauthPoll_once (h : Stored kvBound sid p s) (labels : List (PollLabel ι))
    (horder : EveryStep (step kvBound) (fun s a _ => ReadsInOrder sid s a) s labels) :
    EveryState (step kvBound) (DeliveredOnce sid) s labels := by
  refine everyState_of_everyStep (I := fun s => Inv kvBound sid s ∧ TakenOnce sid s) ?_
    (fun s hs => hs.2.delivered) ⟨h.inv, h.takenOnce⟩ horder
  rintro s a t ⟨hinv, honce⟩ hstep hQ
  exact ⟨inv_step hinv hstep, (takenOnce_step hinv honce hstep).2 hQ⟩

end Run

/-! ## Two deliveries -/

/-- A session. -/
def samplePayload : SessionPayload := ⟨lit "gho_token", lit "alice", lit "Alice", [], 0⟩

/-- A poll for it. -/
def samplePoll : OauthRequest :=
  ⟨lit "GET", lit "/api/github/oauth/poll", [(lit "session_id", lit "session-1")]⟩

/-- The session `session-1`, in memory and in the store. -/
def sampleSystem : PollSystem Nat where
  sessions sid := if sid = lit "session-1" then some samplePayload else none
  store key := if key = oauthKey (lit "session-1") then some samplePayload else none
  now := 0
  polls _ := none

theorem stored_sampleSystem : Stored true (lit "session-1") samplePayload sampleSystem :=
  ⟨inl rfl, rfl, fun _ => rfl⟩

theorem takenOnce_iff_sample :
    EveryState (step true) (TakenOnce (lit "session-1")) sampleSystem [.arrive 0 samplePoll] ↔
      EveryStep (step true) (fun s a _ => ReadsInOrder (lit "session-1") s a) sampleSystem
        [.arrive 0 samplePoll] :=
  takenOnce_iff stored_sampleSystem _

/-- Poll 0 takes the session out of the memory; poll 1 misses it there and reads the
stored copy before poll 0's delete is carried out. -/
theorem oauthPoll_twice :
    Stored true (lit "session-1") samplePayload sampleSystem ∧
      ∃ t, run (step true) sampleSystem [.arrive 0 samplePoll, .arrive 1 samplePoll, .answer 1,
          .answer 0, .resume 0, .resume 1, .answer 1, .resume 1] = some t ∧
        t.polls 0 = some ⟨lit "session-1", .responded (.ready samplePayload)⟩ ∧
        t.polls 1 = some ⟨lit "session-1", .responded (.ready samplePayload)⟩ ∧
        ¬ DeliveredOnce (lit "session-1") t := by
  refine ⟨stored_sampleSystem, _, rfl, rfl, rfl, fun h => ?_⟩
  exact absurd (h 0 1 samplePayload samplePayload rfl rfl) (by decide)

/-- Poll 1 arrives after poll 0's delete. -/
theorem oauthPoll_once_sequential :
    EveryState (step true) (DeliveredOnce (lit "session-1")) sampleSystem
      [.arrive 0 samplePoll, .answer 0, .resume 0, .arrive 1 samplePoll, .answer 1,
        .resume 1] := by
  have hno : ∀ {s : PollSystem Nat} {a : PollLabel Nat}, (∀ i, a ≠ .answer i) →
      ReadsInOrder (lit "session-1") s a := fun hne i ha => absurd ha (hne i)
  refine oauthPoll_once stored_sampleSystem _ (.cons rfl (hno (by simp)) (.cons rfl ?_
    (.cons rfl (hno (by simp)) (.cons rfl (hno (by simp)) (.cons rfl ?_
      (.cons rfl (hno (by simp)) trivial))))))
  · rintro i ⟨⟩ hreading
    cases hreading
  · rintro i ⟨⟩ - p hp
    cases hp

end PollSystem
