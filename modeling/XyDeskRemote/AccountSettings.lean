/-
# The settings of an account

`accountSettingsResponse` keeps an application's settings under the account's id: a `PUT`
stores the blob under one key and then the time under another, a `GET` reads the blob and
then the time.  Every one of these calls of the store is awaited, so that requests
interleave between them; a call takes effect at one moment between the await and the
handler's resumption, which are two steps here.
-/
import Mathlib.Data.Fintype.Basic
import XyDeskRemote.LabelledRun
import XyDeskRemote.WorkerText

open LabelledRun WorkerText Function Option

namespace AccountSettings

/-! ## Keys and checks -/

/-- The texts of the store `UNIQUE_DOWNLOADS`. -/
abbrev SettingsKv := CodeUnits → Option CodeUnits

/-- `xy-settings:${id}`. -/
def settingsKey (id : CodeUnits) : CodeUnits := lit "xy-settings:" ++ id

/-- `xy-settings-meta:${id}`. -/
def metaKey (id : CodeUnits) : CodeUnits := lit "xy-settings-meta:" ++ id

theorem settingsKey_inj {id id' : CodeUnits} : settingsKey id = settingsKey id' ↔ id = id' :=
  List.append_right_inj _

theorem metaKey_inj {id id' : CodeUnits} : metaKey id = metaKey id' ↔ id = id' :=
  List.append_right_inj _

/-- A blob is never stored where a time is. -/
theorem settingsKey_ne_metaKey (id id' : CodeUnits) : settingsKey id ≠ metaKey id' := by
  intro h
  have hat := congrArg (fun s : CodeUnits => s[11]?) h
  revert hat
  simp [settingsKey, metaKey, lit]

/-- The largest request. -/
def accountSettingsMaxBytes : ℕ := 262144

/-- A hexadecimal digit. -/
def isHexDigit (u : UInt16) : Bool :=
  (0x30 ≤ u && u ≤ 0x39) || (0x41 ≤ u && u ≤ 0x46) || (0x61 ≤ u && u ≤ 0x66)

/-- `COMMUNITY_CLIENT_ID_RE`: a UUID of version 4, in letters of either case. -/
def isClientId (s : CodeUnits) : Bool :=
  match s.splitOn 0x2D with
  | [a, b, c, d, e] =>
    [a, b, c, d, e].map List.length = [8, 4, 4, 4, 12] &&
      [a, b, c, d, e].all (fun part => part.all isHexDigit) &&
      c.head? = some 0x34 && d.head?.any fun u => u ∈ lit "89abAB"
  | _ => false

/-- What the handler needs of the platform: whether the store is bound, and the text of a
time. -/
structure SettingsEnv where
  kvBound : Bool
  toISOString : ℕ → CodeUnits

/-- The body of a `PUT`, as `readRequestTextLimited` and `JSON.parse` leave it: `id` is
`String(body?.id || "")`, and `blob` is there when it is a string. -/
inductive SettingsBody where
  | tooLarge
  | invalid
  | notJson
  | json (id : CodeUnits) (blob : Option CodeUnits)

/-- A request by its method: `GET` or `HEAD`, `PUT` or `POST`, or another one. -/
inductive SettingsRequest where
  | get (id : CodeUnits)
  | put (jsonContentType : Bool) (contentLength : Option ℕ) (body : SettingsBody)
  | other

/-- A response without settings. -/
inductive Refusal where
  | status (code : ℕ) (status : CodeUnits)
  | methodNotAllowed (allowed : CodeUnits)

/-- What a `PUT` stores. -/
structure Draft where
  id : CodeUnits
  blob : CodeUnits
  updatedAt : CodeUnits
  deriving DecidableEq

/-- The id and the blob of a body, or the refusal. -/
def checkBody : SettingsBody → Except Refusal (CodeUnits × CodeUnits)
  | .tooLarge => .error (.status 413 (lit "payload_too_large"))
  | .invalid => .error (.status 400 (lit "invalid_request"))
  | .notJson => .error (.status 400 (lit "invalid_json"))
  | .json id blob =>
    if !isClientId id then .error (.status 400 (lit "invalid_id"))
    else
      match blob with
      | none => .error (.status 400 (lit "invalid_blob"))
      | some blob =>
        if blob.length = 0 ∨ accountSettingsMaxBytes < blob.length then
          .error (.status 400 (lit "invalid_blob"))
        else .ok (id, blob)

/-! ## The handler -/

/-- Where a request waits, or how it was answered. -/
inductive Phase where
  /-- a `GET` waits for the blob -/
  | readingBlob (id : CodeUnits)
  /-- the store has answered -/
  | readBlob (id : CodeUnits) (blob : Option CodeUnits)
  /-- it waits for the time -/
  | readingMeta (id blob : CodeUnits)
  /-- the store has answered -/
  | readMeta (id blob : CodeUnits) (updatedAt : Option CodeUnits)
  /-- 200 with the settings -/
  | returned (id blob updatedAt : CodeUnits)
  /-- 404 -/
  | notFound (id : CodeUnits)
  /-- a `PUT` waits for its body -/
  | receiving (body : SettingsBody)
  /-- it waits for the first write -/
  | writingBlob (d : Draft)
  /-- the store has the blob -/
  | wroteBlob (d : Draft)
  /-- it waits for the second write -/
  | writingMeta (d : Draft)
  /-- the store has the time -/
  | wroteMeta (d : Draft)
  /-- 200 with the time -/
  | stored (d : Draft)
  | refused (response : Refusal)

variable (env : SettingsEnv)

/-- A request up to its first await. -/
def arrive : SettingsRequest → Phase
  | .get id =>
    if !env.kvBound then .refused (.status 503 (lit "unavailable"))
    else if isClientId id then .readingBlob id
    else .refused (.status 400 (lit "invalid_id"))
  | .put jsonContentType contentLength body =>
    if !env.kvBound then .refused (.status 503 (lit "unavailable"))
    else if !jsonContentType then .refused (.status 415 (lit "invalid_content_type"))
    else if accountSettingsMaxBytes < contentLength.getD 0 then
      .refused (.status 413 (lit "payload_too_large"))
    else .receiving body
  | .other =>
    if !env.kvBound then .refused (.status 503 (lit "unavailable"))
    else .refused (.methodNotAllowed (lit "GET, PUT, POST"))

/-- What a request waits for happens, or it goes on to where it waits next. -/
def proceed (now : ℕ) (kv : SettingsKv) : Phase → Option (SettingsKv × Phase)
  | .readingBlob id => some (kv, .readBlob id (kv (settingsKey id)))
  | .readBlob id (some blob) => some (kv, .readingMeta id blob)
  | .readBlob id none => some (kv, .notFound id)
  | .readingMeta id blob => some (kv, .readMeta id blob (kv (metaKey id)))
  | .readMeta id blob updatedAt => some (kv, .returned id blob (updatedAt.getD []))
  | .receiving body =>
    match checkBody body with
    | .error response => some (kv, .refused response)
    | .ok (id, blob) => some (kv, .writingBlob ⟨id, blob, env.toISOString now⟩)
  | .writingBlob d =>
    some (update kv (settingsKey d.id) (some d.blob), .wroteBlob d)
  | .wroteBlob d => some (kv, .writingMeta d)
  | .writingMeta d =>
    some (update kv (metaKey d.id) (some d.updatedAt), .wroteMeta d)
  | .wroteMeta d => some (kv, .stored d)
  | .returned _ _ _ => none
  | .notFound _ => none
  | .stored _ => none
  | .refused _ => none

/-- The store and the requests. -/
structure System (ι : Type*) where
  kv : SettingsKv
  requests : ι → Option Phase

/-- What can happen. -/
inductive Label (ι : Type*) where
  | arrive (i : ι) (r : SettingsRequest)
  | proceed (i : ι) (now : ℕ)

variable {ι : Type*}

/-- Nothing stored and no requests yet. -/
def init : System ι := ⟨fun _ => none, fun _ => none⟩

/-- A step of the requests. -/
def step [DecidableEq ι] (s : System ι) : Label ι → Option (System ι)
  | .arrive i r =>
    if (s.requests i).isSome then none
    else some { s with requests := update s.requests i (some (arrive env r)) }
  | .proceed i now =>
    (s.requests i).bind fun phase =>
      (proceed env now s.kv phase).map fun next =>
        { kv := next.1
          requests := update s.requests i (some next.2) }

/-! ## What requests have in hand -/

namespace Phase

/-- A `PUT` between its two writes. -/
def between : Phase → Option Draft
  | .wroteBlob d => some d
  | .writingMeta d => some d
  | _ => none

/-- A `PUT` between its first write and its answer. -/
def active : Phase → Option Draft
  | .wroteBlob d => some d
  | .writingMeta d => some d
  | .wroteMeta d => some d
  | _ => none

/-- A `PUT` that has made both writes. -/
def completed : Phase → Option Draft
  | .wroteMeta d => some d
  | .stored d => some d
  | _ => none

/-- The account and the blob of a `GET` between its two reads. -/
def held : Phase → Option (CodeUnits × CodeUnits)
  | .readBlob id (some blob) => some (id, blob)
  | .readingMeta id blob => some (id, blob)
  | _ => none

/-- What a `GET` answers, from the moment it has read both. -/
def answer : Phase → Option Draft
  | .readMeta id blob updatedAt => some ⟨id, blob, updatedAt.getD []⟩
  | .returned id blob updatedAt => some ⟨id, blob, updatedAt⟩
  | _ => none

/-- A request that writes. -/
def isPut : Phase → Bool
  | .receiving _ => true
  | .writingBlob _ => true
  | .wroteBlob _ => true
  | .writingMeta _ => true
  | .wroteMeta _ => true
  | .stored _ => true
  | _ => false

end Phase

/-- Some `PUT` has stored this. -/
def Stored (s : System ι) (d : Draft) : Prop := ∃ i, (s.requests i).bind Phase.completed = some d

/-- **Every answer is what one `PUT` stored.** -/
def Consistent (s : System ι) : Prop :=
  ∀ i id blob updatedAt, s.requests i = some (.returned id blob updatedAt) →
    Stored s ⟨id, blob, updatedAt⟩

/-! ## Requests that keep out of each other's way -/

/-- A `PUT` makes its first write only while no other one of the account is between its
first write and its answer; it makes its second write only while each `GET` between its two
reads has this very blob; and a `GET` reads the time only while no `PUT` of the blob it has
is between its two writes. -/
def MayProceed (s : System ι) : Phase → Prop
  | .writingBlob d => ∀ j, ∀ d' ∈ (s.requests j).bind Phase.active, d'.id ≠ d.id
  | .writingMeta d => ∀ j, ∀ h ∈ (s.requests j).bind Phase.held, h.1 = d.id → h.2 = d.blob
  | .readingMeta id blob => ∀ j, ∀ d ∈ (s.requests j).bind Phase.between, d.id = id → d.blob ≠ blob
  | _ => True

/-- The step keeps out of the way of the other requests. -/
def Undisturbed (s : System ι) : Label ι → Prop
  | .arrive _ _ => True
  | .proceed i _ => ∀ phase ∈ s.requests i, MayProceed s phase

/-- The step is not one of a `PUT`. -/
def NoPut (s : System ι) : Label ι → Prop
  | .arrive _ _ => True
  | .proceed i _ => ∀ phase ∈ s.requests i, phase.isPut = false

/-! ## The invariant -/

/-- The blob and the time of the account are those of one `PUT`. -/
def Recorded (s : System ι) (id blob : CodeUnits) : Prop :=
  ∃ updatedAt, s.kv (metaKey id) = some updatedAt ∧ Stored s ⟨id, blob, updatedAt⟩

/-- The blob belongs to a `PUT` between its writes, or its time is the one in the store. -/
def Accounted (s : System ι) (id blob : CodeUnits) : Prop :=
  (∃ j d, (s.requests j).bind Phase.between = some d ∧ d.id = id ∧ d.blob = blob) ∨
    Recorded s id blob

/-- **The invariant** of a run. -/
structure Inv (s : System ι) : Prop where
  exclusive : ∀ i j d d', (s.requests i).bind Phase.active = some d →
    (s.requests j).bind Phase.active = some d' → d.id = d'.id → i = j
  blob : ∀ i d, (s.requests i).bind Phase.active = some d →
    s.kv (settingsKey d.id) = some d.blob
  stored : ∀ id blob, s.kv (settingsKey id) = some blob → Accounted s id blob
  held : ∀ i id blob, (s.requests i).bind Phase.held = some (id, blob) → Accounted s id blob
  answer : ∀ i d, (s.requests i).bind Phase.answer = some d → Stored s d

variable {env} {s t : System ι} {i : ι} {phase : Phase}

theorem inv_init : Inv (init : System ι) := by
  constructor
  · intro i j d d' hi
    cases hi
  · intro i d hi
    cases hi
  · intro id blob hkv
    cases hkv
  · intro i id blob hi
    cases hi
  · intro i d hi
    cases hi

theorem Inv.consistent (h : Inv s) : Consistent s := by
  intro i id blob updatedAt hi
  apply h.answer i
  rw [hi]
  rfl

/-- A step without a write: the request keeps what it has done, and what it has in hand is
accounted for. -/
structure Silent (s : System ι) (i : ι) (phase : Phase) : Prop where
  between : ∀ d, (s.requests i).bind Phase.between = some d → phase.between = some d
  active : ∀ d, phase.active = some d → (s.requests i).bind Phase.active = some d
  completed : ∀ d, (s.requests i).bind Phase.completed = some d → phase.completed = some d
  held : ∀ id blob, phase.held = some (id, blob) → Accounted s id blob
  answer : ∀ d, phase.answer = some d → Stored s d

/-- A request that has just arrived has done nothing and has nothing in hand. -/
theorem arrive_fresh (r : SettingsRequest) :
    (arrive env r).active = none ∧ (arrive env r).held = none ∧ (arrive env r).answer = none := by
  cases r with
  | get id =>
    rw [arrive]
    split
    · exact ⟨rfl, rfl, rfl⟩
    · split
      · exact ⟨rfl, rfl, rfl⟩
      · exact ⟨rfl, rfl, rfl⟩
  | put jsonContentType contentLength body =>
    rw [arrive]
    split
    · exact ⟨rfl, rfl, rfl⟩
    · split
      · exact ⟨rfl, rfl, rfl⟩
      · split
        · exact ⟨rfl, rfl, rfl⟩
        · exact ⟨rfl, rfl, rfl⟩
  | other =>
    rw [arrive]
    split
    · exact ⟨rfl, rfl, rfl⟩
    · exact ⟨rfl, rfl, rfl⟩

theorem silent_arrive (hi : s.requests i = none) (r : SettingsRequest) :
    Silent s i (arrive env r) := by
  obtain ⟨hactive, hheld, hanswer⟩ := arrive_fresh r
  constructor
  · intro d hd
    rw [hi] at hd
    cases hd
  · intro d hd
    rw [hactive] at hd
    cases hd
  · intro d hd
    rw [hi] at hd
    cases hd
  · intro id blob hd
    rw [hheld] at hd
    cases hd
  · intro d hd
    rw [hanswer] at hd
    cases hd

variable {old : Phase}

/-- A step that changes nothing that counts: from a phase without writes to one with nothing
in hand. -/
theorem silent_of_idle (hi : s.requests i = some old) (hactive : phase.active = none)
    (hbetween : old.between = none) (hcompleted : old.completed = none)
    (hheld : ∀ id blob, phase.held = some (id, blob) → Accounted s id blob)
    (hanswer : ∀ d, phase.answer = some d → Stored s d) : Silent s i phase := by
  constructor
  · intro d hd
    rw [hi, bind_some, hbetween] at hd
    cases hd
  · intro d hd
    rw [hactive] at hd
    cases hd
  · intro d hd
    rw [hi, bind_some, hcompleted] at hd
    cases hd
  · exact hheld
  · exact hanswer

variable [DecidableEq ι]

/-- The system with one request in another phase. -/
def System.set (s : System ι) (kv : SettingsKv) (i : ι) (phase : Phase) : System ι :=
  ⟨kv, update s.requests i (some phase)⟩

@[simp] theorem requests_set_self (kv : SettingsKv) :
    (s.set kv i phase).requests i = some phase := update_self ..

theorem requests_set_of_ne (kv : SettingsKv) {j : ι} (hj : j ≠ i) :
    (s.set kv i phase).requests j = s.requests j := update_of_ne hj ..

theorem bind_set {α : Type*} (kv : SettingsKv) (g : Phase → Option α) {j : ι} {x : α} :
    ((s.set kv i phase).requests j).bind g = some x ↔
      (j = i ∧ g phase = some x) ∨ (j ≠ i ∧ (s.requests j).bind g = some x) := by
  by_cases hj : j = i
  · subst hj
    rw [requests_set_self, bind_some]
    simp
  · rw [requests_set_of_ne kv hj]
    simp [hj]

variable {d : Draft}

/-- What is stored stays so while the request's own writes count on. -/
theorem Stored.set (h : Stored s d) (kv : SettingsKv)
    (hi : ∀ d, (s.requests i).bind Phase.completed = some d → phase.completed = some d) :
    Stored (s.set kv i phase) d := by
  obtain ⟨j, hj⟩ := h
  refine ⟨j, (bind_set kv _).2 ?_⟩
  by_cases hji : j = i
  · subst hji
    exact Or.inl ⟨rfl, hi d hj⟩
  · exact Or.inr ⟨hji, hj⟩

variable {kv : SettingsKv}

/-- A blob stays accounted for while the request keeps its first write and its account keeps
its time. -/
theorem Accounted.set {id blob : CodeUnits} (h : Accounted s id blob)
    (hmeta : kv (metaKey id) = s.kv (metaKey id))
    (hbetween : ∀ d, (s.requests i).bind Phase.between = some d → phase.between = some d)
    (hcompleted : ∀ d, (s.requests i).bind Phase.completed = some d →
      phase.completed = some d) :
    Accounted (s.set kv i phase) id blob := by
  rcases h with ⟨j, d, hj, hid, hblob⟩ | ⟨updatedAt, hkv, hstored⟩
  · refine Or.inl ⟨j, d, (bind_set kv _).2 ?_, hid, hblob⟩
    by_cases hji : j = i
    · subst hji
      exact Or.inl ⟨rfl, hbetween d hj⟩
    · exact Or.inr ⟨hji, hj⟩
  · exact Or.inr ⟨updatedAt, hmeta.trans hkv, hstored.set kv hcompleted⟩

/-- Steps without a write keep the invariant. -/
theorem Inv.silent (h : Inv s) (hi : Silent s i phase) : Inv (s.set s.kv i phase) := by
  have hactive : ∀ j d, ((s.set s.kv i phase).requests j).bind Phase.active = some d →
      (s.requests j).bind Phase.active = some d := by
    intro j d hj
    rcases (bind_set s.kv _).1 hj with ⟨rfl, hnew⟩ | ⟨-, hold⟩
    · exact hi.active d hnew
    · exact hold
  have haccounted : ∀ {id blob}, Accounted s id blob → Accounted (s.set s.kv i phase) id blob :=
    fun ha => ha.set rfl hi.between hi.completed
  constructor
  · intro j k d d' hj hk
    exact h.exclusive j k d d' (hactive j d hj) (hactive k d' hk)
  · intro j d hj
    exact h.blob j d (hactive j d hj)
  · intro id blob hkv
    exact haccounted (h.stored id blob hkv)
  · intro j id blob hj
    rcases (bind_set s.kv _).1 hj with ⟨-, hj⟩ | ⟨-, hj⟩
    · exact haccounted (hi.held id blob hj)
    · exact haccounted (h.held j id blob hj)
  · intro j d hj
    rcases (bind_set s.kv _).1 hj with ⟨-, hj⟩ | ⟨-, hj⟩
    · exact (hi.answer d hj).set s.kv hi.completed
    · exact (h.answer j d hj).set s.kv hi.completed

/-- **The first write of a `PUT`**, while no other one is active, keeps it. -/
theorem Inv.writeBlob (h : Inv s) (hi : s.requests i = some (.writingBlob d))
    (hmay : MayProceed s (.writingBlob d)) :
    Inv (s.set (update s.kv (settingsKey d.id) (some d.blob)) i (.wroteBlob d)) := by
  set kv := update s.kv (settingsKey d.id) (some d.blob) with hkv
  have hother : ∀ id, id ≠ d.id → kv (settingsKey id) = s.kv (settingsKey id) := by
    intro id hid
    exact update_of_ne (mt settingsKey_inj.1 hid) _ _
  have hmeta : ∀ id, kv (metaKey id) = s.kv (metaKey id) := by
    intro id
    exact update_of_ne (settingsKey_ne_metaKey d.id id).symm _ _
  have hnone : ∀ {α : Type} (g : Phase → Option α), g (.writingBlob d) = none → ∀ x,
      (s.requests i).bind g = some x → False := by
    intro α g hg x hx
    rw [hi, bind_some, hg] at hx
    cases hx
  have haccounted : ∀ {id blob}, Accounted s id blob →
      Accounted (s.set kv i (.wroteBlob d)) id blob :=
    fun ha => ha.set (hmeta _) (fun x hx => (hnone _ rfl x hx).elim)
      (fun x hx => (hnone _ rfl x hx).elim)
  -- the other active requests are of other accounts
  have hactive : ∀ j x, ((s.set kv i (.wroteBlob d)).requests j).bind Phase.active = some x →
      (j = i ∧ x = d) ∨ ((s.requests j).bind Phase.active = some x ∧ x.id ≠ d.id) := by
    intro j x hj
    rcases (bind_set kv _).1 hj with ⟨rfl, hnew⟩ | ⟨-, hold⟩
    · exact Or.inl ⟨rfl, (some.inj hnew).symm⟩
    · exact Or.inr ⟨hold, hmay j x hold⟩
  constructor
  · intro j k x y hj hk hid
    rcases hactive j x hj with ⟨rfl, rfl⟩ | ⟨hj, hx⟩
    · rcases hactive k y hk with ⟨rfl, -⟩ | ⟨-, hy⟩
      · rfl
      · exact absurd hid.symm hy
    · rcases hactive k y hk with ⟨rfl, rfl⟩ | ⟨hk, -⟩
      · exact absurd hid hx
      · exact h.exclusive j k x y hj hk hid
  · intro j x hj
    rcases hactive j x hj with ⟨-, rfl⟩ | ⟨hj, hx⟩
    · exact update_self ..
    · exact (hother x.id hx).trans (h.blob j x hj)
  · intro id blob hblob
    by_cases hid : id = d.id
    · subst hid
      have hself : kv (settingsKey d.id) = some d.blob := update_self ..
      have heq : some d.blob = some blob := hself.symm.trans hblob
      exact Or.inl ⟨i, d, (bind_set kv _).2 (Or.inl ⟨rfl, rfl⟩), rfl, some.inj heq⟩
    · exact haccounted (h.stored id blob ((hother id hid).symm.trans hblob))
  · intro j id blob hj
    rcases (bind_set kv _).1 hj with ⟨-, hj⟩ | ⟨-, hj⟩
    · cases hj
    · exact haccounted (h.held j id blob hj)
  · intro j x hj
    rcases (bind_set kv _).1 hj with ⟨-, hj⟩ | ⟨-, hj⟩
    · cases hj
    · exact (h.answer j x hj).set kv fun y hy => (hnone _ rfl y hy).elim

/-- **The second write of a `PUT`**, while no `GET` has another blob, keeps it. -/
theorem Inv.writeMeta (h : Inv s) (hi : s.requests i = some (.writingMeta d))
    (hmay : MayProceed s (.writingMeta d)) :
    Inv (s.set (update s.kv (metaKey d.id) (some d.updatedAt)) i (.wroteMeta d)) := by
  set kv := update s.kv (metaKey d.id) (some d.updatedAt) with hkv
  have hother : ∀ id, id ≠ d.id → kv (metaKey id) = s.kv (metaKey id) := by
    intro id hid
    exact update_of_ne (mt metaKey_inj.1 hid) _ _
  have hsettings : ∀ id, kv (settingsKey id) = s.kv (settingsKey id) := by
    intro id
    exact update_of_ne (settingsKey_ne_metaKey id d.id) _ _
  have hwriting : (s.requests i).bind Phase.active = some d := by
    rw [hi]
    rfl
  have hcompleted : ∀ x, (s.requests i).bind Phase.completed = some x →
      Phase.completed (.wroteMeta d) = some x := by
    intro x hx
    rw [hi] at hx
    cases hx
  -- the account's blob is now recorded
  have hrecorded : Accounted (s.set kv i (.wroteMeta d)) d.id d.blob :=
    Or.inr ⟨d.updatedAt, update_self .., i, (bind_set kv _).2 (Or.inl ⟨rfl, rfl⟩)⟩
  have haccounted : ∀ {id blob}, Accounted s id blob → (id = d.id → blob = d.blob) →
      Accounted (s.set kv i (.wroteMeta d)) id blob := by
    intro id blob ha hsame
    by_cases hid : id = d.id
    · rw [hsame hid, hid]
      exact hrecorded
    · rcases ha with ⟨j, x, hj, hxid, hxblob⟩ | ⟨updatedAt, hmeta, hstored⟩
      · refine Or.inl ⟨j, x, (bind_set kv _).2 (Or.inr ⟨?_, hj⟩), hxid, hxblob⟩
        rintro rfl
        rw [hi] at hj
        cases hj
        exact hid hxid.symm
      · exact Or.inr ⟨updatedAt, (hother id hid).trans hmeta, hstored.set kv hcompleted⟩
  have hactive : ∀ j x, ((s.set kv i (.wroteMeta d)).requests j).bind Phase.active = some x →
      (s.requests j).bind Phase.active = some x := by
    intro j x hj
    rcases (bind_set kv _).1 hj with ⟨rfl, hnew⟩ | ⟨-, hold⟩
    · cases hnew
      exact hwriting
    · exact hold
  constructor
  · intro j k x y hj hk
    exact h.exclusive j k x y (hactive j x hj) (hactive k y hk)
  · intro j x hj
    exact (hsettings x.id).trans (h.blob j x (hactive j x hj))
  · intro id blob hblob
    have hblob : s.kv (settingsKey id) = some blob := (hsettings id).symm.trans hblob
    apply haccounted (h.stored id blob hblob)
    rintro rfl
    exact some.inj (hblob.symm.trans (h.blob i d hwriting))
  · intro j id blob hj
    rcases (bind_set kv _).1 hj with ⟨-, hj⟩ | ⟨-, hj⟩
    · cases hj
    · exact haccounted (h.held j id blob hj) (hmay j (id, blob) hj)
  · intro j x hj
    rcases (bind_set kv _).1 hj with ⟨-, hj⟩ | ⟨-, hj⟩
    · cases hj
    · exact (h.answer j x hj).set kv hcompleted

/-! ## Steps and runs -/

theorem step_arrive {r : SettingsRequest} (h : step env s (.arrive i r) = some t) :
    s.requests i = none ∧ t = s.set s.kv i (arrive env r) := by
  rw [step] at h
  split at h
  · cases h
  · next hnone =>
      exact ⟨not_isSome_iff_eq_none.1 hnone, (some.inj h).symm⟩

theorem step_proceed {now : ℕ} (h : step env s (.proceed i now) = some t) :
    ∃ phase kv next, s.requests i = some phase ∧ proceed env now s.kv phase = some (kv, next) ∧
      t = s.set kv i next := by
  rw [step] at h
  obtain ⟨phase, hphase, h⟩ := bind_eq_some_iff.1 h
  obtain ⟨⟨kv, next⟩, hnext, rfl⟩ := map_eq_some_iff.1 h
  exact ⟨phase, kv, next, hphase, hnext, rfl⟩

/-- **An undisturbed step keeps the invariant.** -/
theorem Inv.proceed (h : Inv s) (hi : s.requests i = some old) (hmay : MayProceed s old) {now : ℕ}
    (hnext : AccountSettings.proceed env now s.kv old = some (kv, phase)) :
    Inv (s.set kv i phase) := by
  have hheld : ∀ id blob, old.held = some (id, blob) → Accounted s id blob := by
    intro id blob hold
    apply h.held i id blob
    rw [hi]
    exact hold
  have hanswer : ∀ d, old.answer = some d → Stored s d := by
    intro d hold
    apply h.answer i d
    rw [hi]
    exact hold
  cases old with
  | readingBlob id =>
    cases hnext
    apply h.silent
    apply silent_of_idle hi rfl rfl rfl
    · intro id' blob hblob
      cases hread : s.kv (settingsKey id) with
      | none =>
        rw [hread] at hblob
        cases hblob
      | some blob' =>
        rw [hread] at hblob
        cases hblob
        exact h.stored id blob hread
    · nofun
  | readBlob id blob =>
    cases blob with
    | none =>
      cases hnext
      apply h.silent
      apply silent_of_idle hi rfl rfl rfl
      · nofun
      · nofun
    | some blob =>
      cases hnext
      apply h.silent
      apply silent_of_idle hi rfl rfl rfl
      · exact hheld
      · nofun
  | readingMeta id blob =>
    cases hnext
    apply h.silent
    apply silent_of_idle hi rfl rfl rfl
    · nofun
    · intro d hd
      have hd : some (⟨id, blob, (s.kv (metaKey id)).getD []⟩ : Draft) = some d := hd
      -- no `PUT` of this blob is between its writes, so the time is that of the blob's `PUT`
      rcases hheld id blob rfl with ⟨j, x, hj, hid, hblob⟩ | ⟨updatedAt, hmeta, hstored⟩
      · exact absurd hblob (hmay j x hj hid)
      · rw [hmeta] at hd
        cases hd
        exact hstored
  | readMeta id blob updatedAt =>
    cases hnext
    apply h.silent
    apply silent_of_idle hi rfl rfl rfl
    · nofun
    · exact hanswer
  | returned id blob updatedAt => cases hnext
  | notFound id => cases hnext
  | receiving body =>
    unfold AccountSettings.proceed at hnext
    dsimp only at hnext
    split at hnext
    · cases hnext
      apply h.silent
      apply silent_of_idle hi rfl rfl rfl
      · nofun
      · nofun
    · cases hnext
      apply h.silent
      apply silent_of_idle hi rfl rfl rfl
      · nofun
      · nofun
  | writingBlob d =>
    cases hnext
    exact h.writeBlob hi hmay
  | wroteBlob d =>
    cases hnext
    apply h.silent
    constructor
    · intro x hx
      rwa [hi] at hx
    · intro x hx
      rwa [hi]
    · intro x hx
      rw [hi] at hx
      cases hx
    · nofun
    · nofun
  | writingMeta d =>
    cases hnext
    exact h.writeMeta hi hmay
  | wroteMeta d =>
    cases hnext
    apply h.silent
    constructor
    · intro x hx
      rw [hi] at hx
      cases hx
    · nofun
    · intro x hx
      rwa [hi] at hx
    · nofun
    · nofun
  | stored d => cases hnext
  | refused response => cases hnext

theorem Inv.step {l : Label ι} (h : Inv s) (hstep : AccountSettings.step env s l = some t)
    (hl : Undisturbed s l) : Inv t := by
  cases l with
  | arrive i r =>
    obtain ⟨hi, rfl⟩ := step_arrive hstep
    exact h.silent (silent_arrive hi r)
  | proceed i now =>
    obtain ⟨old, kv, phase, hi, hnext, rfl⟩ := step_proceed hstep
    exact h.proceed hi (hl old hi) hnext

theorem inv_run {as : List (Label ι)} (hrun : run (step env) init as = some s)
    (hsteps : EveryStep (step env) (fun s l _ => Undisturbed s l) init as) : Inv s := by
  have hall : EveryState (step env) Inv init as :=
    everyState_of_everyStep (fun _ _ _ h hstep hl => h.step hstep hl) (fun _ h => h) inv_init hsteps
  exact hall.last hrun

/-! ## The answers after a `PUT` -/

/-- A `GET` of the account has the blob of this `PUT`, if it has one, and is not told that
there is none. -/
def Phase.Gives (d : Draft) : Phase → Prop
  | .readBlob id blob => id = d.id → blob = some d.blob
  | .readingMeta id blob => id = d.id → blob = d.blob
  | .readMeta id blob _ => id = d.id → blob = d.blob
  | .returned id blob _ => id = d.id → blob = d.blob
  | .notFound id => id ≠ d.id
  | _ => True

theorem gives_arrive (d : Draft) (r : SettingsRequest) : (arrive env r).Gives d := by
  cases r with
  | get id =>
    rw [arrive]
    split
    · trivial
    · split <;> trivial
  | put jsonContentType contentLength body =>
    rw [arrive]
    split
    · trivial
    · split
      · trivial
      · split <;> trivial
  | other =>
    rw [arrive]
    split <;> trivial

/-- A request that is not a `PUT` writes nothing. -/
theorem kv_of_noPut {now : ℕ} {kv' : SettingsKv} {next : Phase} (hput : old.isPut = false)
    (h : proceed env now kv old = some (kv', next)) : kv' = kv := by
  cases old with
  | readingBlob id =>
    cases h
    rfl
  | readBlob id blob =>
    cases blob with
    | none =>
      cases h
      rfl
    | some blob =>
      cases h
      rfl
  | readingMeta id blob =>
    cases h
    rfl
  | readMeta id blob updatedAt =>
    cases h
    rfl
  | returned id blob updatedAt => cases h
  | notFound id => cases h
  | refused response => cases h
  | _ => cases hput

/-- A `GET` takes the blob that is in the store. -/
theorem gives_proceed {now : ℕ} {kv' : SettingsKv} {next : Phase}
    (hkv : kv (settingsKey d.id) = some d.blob) (hold : old.Gives d) (hput : old.isPut = false)
    (h : proceed env now kv old = some (kv', next)) : next.Gives d := by
  cases old with
  | readingBlob id =>
    cases h
    rintro rfl
    exact hkv
  | readBlob id blob =>
    cases blob with
    | none =>
      cases h
      intro hid
      cases hold hid
    | some blob =>
      cases h
      intro hid
      exact some.inj (hold hid)
  | readingMeta id blob =>
    cases h
    exact hold
  | readMeta id blob updatedAt =>
    cases h
    exact hold
  | returned id blob updatedAt => cases h
  | notFound id => cases h
  | refused response => cases h
  | _ => cases hput

/-- Only the last step of a `PUT` answers it. -/
theorem proceed_stored {now : ℕ} {kv' : SettingsKv}
    (h : proceed env now kv old = some (kv', .stored d)) : old = .wroteMeta d ∧ kv' = kv := by
  cases old with
  | readBlob id blob => cases blob <;> cases h
  | receiving body =>
    unfold proceed at h
    dsimp only at h
    split at h <;> cases h
  | wroteMeta d' =>
    cases h
    exact ⟨rfl, rfl⟩
  | _ => cases h

/-- The store has the blob of a `PUT`, and so have the requests that were not there yet in
the state `s₁`. -/
structure GivesLater (s₁ : System ι) (d : Draft) (s : System ι) : Prop where
  kv : s.kv (settingsKey d.id) = some d.blob
  gives : ∀ j, s₁.requests j = none → ∀ phase, s.requests j = some phase → phase.Gives d

theorem GivesLater.set {s₁ : System ι} (h : GivesLater s₁ d s)
    (hphase : s₁.requests i = none → phase.Gives d) : GivesLater s₁ d (s.set s.kv i phase) := by
  constructor
  · exact h.kv
  · intro j hj next hnext
    by_cases hji : j = i
    · subst hji
      rw [requests_set_self] at hnext
      cases hnext
      exact hphase hj
    · rw [requests_set_of_ne _ hji] at hnext
      exact h.gives j hj next hnext

theorem GivesLater.step {s₁ : System ι} (h : GivesLater s₁ d s) {l : Label ι}
    (hstep : AccountSettings.step env s l = some t) (hl : NoPut s l) : GivesLater s₁ d t := by
  cases l with
  | arrive i r =>
    obtain ⟨-, rfl⟩ := step_arrive hstep
    exact h.set fun _ => gives_arrive d r
  | proceed i now =>
    obtain ⟨old, kv, next, hi, hnext, rfl⟩ := step_proceed hstep
    have hput : old.isPut = false := hl old hi
    obtain rfl := kv_of_noPut hput hnext
    exact h.set fun hnone => gives_proceed h.kv (h.gives i hnone old hi) hput hnext

/-- A request that arrives after a `PUT` was answered, with no step of a `PUT` in between,
gets its blob: it is not told that there is none, nor given another one. -/
def GetsBlob (s : System ι) (d : Draft) (j : ι) : Prop :=
  s.requests j ≠ some (.notFound d.id) ∧
    ∀ blob updatedAt, s.requests j = some (.returned d.id blob updatedAt) → blob = d.blob

/-- **Settings are read consistently** in every run whose requests keep out of each other's
way. -/
theorem settings_consistent {as : List (Label ι)} (hrun : run (step env) init as = some s)
    (hsteps : EveryStep (step env) (fun s l _ => Undisturbed s l) init as) :
    Consistent s ∧
      ∀ as₁ i now as₂ s₁ d, as = (as₁ ++ [.proceed i now]) ++ as₂ →
        run (step env) init (as₁ ++ [.proceed i now]) = some s₁ →
        s₁.requests i = some (.stored d) →
        EveryStep (step env) (fun s l _ => NoPut s l) s₁ as₂ →
        ∀ j, s₁.requests j = none → GetsBlob s d j := by
  constructor
  · exact (inv_run hrun hsteps).consistent
  · rintro as₁ i now as₂ s₁ d rfl hrun₁ hanswered hnoPut j hj
    have hrun₂ : run (step env) s₁ as₂ = some s := by
      rwa [run_append, hrun₁, bind_some] at hrun
    -- before the answer the `PUT` was active, and the store had its blob
    rw [run_append, bind_eq_some_iff] at hrun₁
    obtain ⟨s₀, hrun₀, hlast⟩ := hrun₁
    obtain ⟨s₁', hstep, hnil⟩ := run_cons_eq_some.1 hlast
    obtain rfl := some.inj hnil
    have hinv : Inv s₀ := inv_run hrun₀ hsteps.left.left
    obtain ⟨old, kv, next, hi, hnext, rfl⟩ := step_proceed hstep
    rw [requests_set_self] at hanswered
    cases hanswered
    obtain ⟨rfl, rfl⟩ := proceed_stored hnext
    have hkv : s₀.kv (settingsKey d.id) = some d.blob := hinv.blob i d (by rw [hi]; rfl)
    have hstart : GivesLater (s₀.set s₀.kv i (.stored d)) d (s₀.set s₀.kv i (.stored d)) := by
      constructor
      · exact hkv
      · intro j hj phase hphase
        rw [hj] at hphase
        cases hphase
    have hall := everyState_of_everyStep (fun _ _ _ h hstep hl => h.step hstep hl)
      (fun _ h => h) hstart hnoPut
    have hlater := hall.last hrun₂
    constructor
    · intro hmissing
      exact hlater.gives j hj _ hmissing rfl
    · intro blob updatedAt hreturned
      exact hlater.gives j hj _ hreturned rfl

/-! ## Two runs -/

instance [Fintype ι] (s : System ι) : DecidablePred (MayProceed s)
  | .writingBlob d => inferInstanceAs
      (Decidable (∀ j, ∀ d' ∈ (s.requests j).bind Phase.active, d'.id ≠ d.id))
  | .writingMeta d => inferInstanceAs
      (Decidable (∀ j, ∀ h ∈ (s.requests j).bind Phase.held, h.1 = d.id → h.2 = d.blob))
  | .readingMeta id blob => inferInstanceAs
      (Decidable (∀ j, ∀ d ∈ (s.requests j).bind Phase.between, d.id = id → d.blob ≠ blob))
  | .readingBlob _ | .readBlob _ _ | .readMeta _ _ _ | .returned _ _ _ | .notFound _
  | .receiving _ | .wroteBlob _ | .wroteMeta _ | .stored _ | .refused _ => isTrue trivial

instance [Fintype ι] (s : System ι) : DecidablePred (Undisturbed s)
  | .arrive _ _ => isTrue trivial
  | .proceed i _ => inferInstanceAs (Decidable (∀ phase ∈ s.requests i, MayProceed s phase))

instance (s : System ι) : DecidablePred (NoPut s)
  | .arrive _ _ => isTrue trivial
  | .proceed i _ => inferInstanceAs (Decidable (∀ phase ∈ s.requests i, phase.isPut = false))

/-- A store, and a clock. -/
def sampleEnv : SettingsEnv := ⟨true, fun _ => lit "2026-01-01T00:00:00.000Z"⟩

/-- The id of an account. -/
def sampleId : CodeUnits := lit "0a1b2c3d-0000-4000-8000-000000000001"

/-- The two requests: `true` is a `PUT`, `false` a `GET`. -/
def arrivePut : Label Bool :=
  .arrive true (.put true (some 60) (.json sampleId (some (lit "dark"))))

/-- A request to read. -/
def arriveGet : Label Bool := .arrive false (.get sampleId)

/-- The `PUT` is answered before the `GET` arrives. -/
def inTurn : List (Label Bool) :=
  arrivePut :: List.replicate 5 (.proceed true 0) ++
    arriveGet :: List.replicate 4 (.proceed false 0)

theorem settings_consistent_inTurn :
    ∃ s, run (step sampleEnv) init inTurn = some s ∧ Consistent s ∧
      GetsBlob s ⟨sampleId, lit "dark", lit "2026-01-01T00:00:00.000Z"⟩ false := by
  obtain ⟨s, hrun⟩ : ∃ s, run (step sampleEnv) init inTurn = some s := ⟨_, rfl⟩
  obtain ⟨hconsistent, hlater⟩ := settings_consistent hrun (by decide)
  exact ⟨s, hrun, hconsistent,
    hlater (arrivePut :: List.replicate 4 (.proceed true 0)) true 0 _ _ _ rfl rfl rfl
      (by decide) false rfl⟩

/-- The `GET` arrives while the `PUT` is between its two writes. -/
def overtaken : List (Label Bool) :=
  arrivePut :: List.replicate 2 (.proceed true 0) ++
    arriveGet :: List.replicate 4 (.proceed false 0)

/-- It returns the blob without its time, which no `PUT` has stored. -/
theorem overtaken_inconsistent :
    ¬ ∀ (as : List (Label Bool)) (s : System Bool),
      run (step sampleEnv) init as = some s → Consistent s := by
  intro h
  obtain ⟨s, hrun⟩ : ∃ s, run (step sampleEnv) init overtaken = some s := ⟨_, rfl⟩
  have hconsistent := h overtaken s hrun
  obtain rfl := some.inj hrun
  obtain ⟨i, hi⟩ := hconsistent false sampleId (lit "dark") [] rfl
  cases i with
  | false => cases hi
  | true => cases hi

end AccountSettings
