/-
# The GitHub login of the worker

A client that wants to sign in names a session; the login sends it to the provider
with a `state` that carries the name between underscores, `oauthCallback` reads the name
back from that state and stores the token under it, and the client polls for it there.

The name is a text of letters, digits, dashes and underscores (`sanitize`).
-/
import Mathlib.Data.List.TakeWhile
import XyDeskRemote.WorkerText

open WorkerText List

/-! ## Requests and responses -/

/-- A request of the login, the callback or the poll. -/
structure OauthRequest where
  method : CodeUnits
  path : CodeUnits
  params : List (CodeUnits × CodeUnits)

/-- `String(url.searchParams.get(name) || "")`. -/
def OauthRequest.param (r : OauthRequest) (name : String) : CodeUnits :=
  (r.params.lookup (lit name)).getD []

/-- What is stored for a session. -/
structure SessionPayload where
  token : CodeUnits
  login : CodeUnits
  name : CodeUnits
  avatarUrl : CodeUnits
  issuedAt : Nat
  deriving DecidableEq

/-- What the worker answers. -/
inductive OauthResponse where
  | preflight (allow : CodeUnits)
  | methodNotAllowed (allow : CodeUnits)
  | error (status : Nat) (code : CodeUnits)
  | redirect (location : CodeUnits) (cookie : Option CodeUnits)
  | ready (payload : SessionPayload)
  | notReady
  | page (login deepLink intentLink : CodeUnits)
  deriving DecidableEq

/-- The characters of a session id. -/
def isSessionIdChar (u : UInt16) : Bool := isAlphanumeric u || u = 0x5F || u = 0x2D

/-- `trim().replace(/[^a-zA-Z0-9_-]/g, "").slice(0, 64)`. -/
def sanitize (sessionId : CodeUnits) : CodeUnits :=
  ((trim sessionId).filter isSessionIdChar).take 64

/-- The session a request names. -/
def OauthRequest.sid (r : OauthRequest) : CodeUnits := sanitize (r.param "session_id")

/-! ## The configuration and the provider -/

/-- How long a session is kept. -/
def oauthSessionTtlSeconds : Nat := 900

/-- The application at the provider. -/
structure OauthConfig where
  clientId : CodeUnits
  clientSecret : CodeUnits

/-- `exchangeGithubCode`: a token, or the status and code of the error. -/
inductive Exchange where
  | ok (accessToken : CodeUnits)
  | failed (status : Nat) (code : CodeUnits)

/-- What the provider says about the owner of a token; `id` is `none` unless it is a
positive safe integer, and `name` and `avatarUrl` unless they are strings. -/
structure ProviderUser where
  id : Option Nat
  login : Option CodeUnits
  name : Option CodeUnits
  avatarUrl : Option CodeUnits

/-- `/^[a-z\d](?:[a-z\d-]{0,37}[a-z\d])?$/i`. -/
def isLogin (login : CodeUnits) : Bool :=
  match login with
  | [] => false
  | [c] => isAlphanumeric c
  | c :: rest =>
    isAlphanumeric c && rest.length ≤ 38 &&
      (rest.dropLast.all fun d => isAlphanumeric d || d = 0x2D) &&
      isAlphanumeric (rest.getLastD c)

/-- Who has logged in. -/
structure Principal where
  id : Nat
  login : CodeUnits
  name : CodeUnits
  avatarUrl : CodeUnits

/-- `resolveGithubIdentity` once the provider answered 200; `none` is an answer that is
not a profile.  `plainHttps` says that a URL parses as `https:` without credentials. -/
def principalOf (plainHttps : CodeUnits → Bool) (user : ProviderUser) : Option Principal :=
  match user.id, user.login with
  | some id, some login =>
    if isLogin login then
      let name := (trim (user.name.getD [])).take 80
      let avatar := trim (user.avatarUrl.getD [])
      some
        { id := id
          login := login
          name := if name.isEmpty then login else name
          avatarUrl := if plainHttps avatar && avatar.length ≤ 300 then avatar else [] }
    else none
  | _, _ => none

/-- `resolveGithubIdentity`: a principal, or the status and code of the error. -/
inductive Identity where
  | ok (principal : Principal)
  | failed (status : Nat) (code : CodeUnits)

/-- The answer of the provider: it refused the token, it could not be asked, or it gave
a profile. -/
inductive ProviderAnswer where
  | unauthorized
  | unavailable
  | profile (user : ProviderUser)

/-- `/[\s\x00-\x1f\x7f]/`, which no token contains. -/
def isTokenBreak (u : UInt16) : Bool := isSpace u || u ≤ 0x1F || u = 0x7F

/-- `resolveGithubIdentity`. -/
def resolveGithubIdentity (plainHttps : CodeUnits → Bool) (token : CodeUnits)
    (answer : ProviderAnswer) : Identity :=
  if token.isEmpty || 4096 < token.length || token.any isTokenBreak then
    .failed 401 (lit "invalid_identity")
  else
    match answer with
    | .unauthorized => .failed 401 (lit "invalid_identity")
    | .unavailable => .failed 503 (lit "identity_provider_unavailable")
    | .profile user =>
      match principalOf plainHttps user with
      | some principal => .ok principal
      | none => .failed 503 (lit "identity_provider_unavailable")

/-! ## Login -/

/-- The `state` of a login for the sanitised session id `sid`. -/
def oauthState (isDash : Bool) (sid : CodeUnits) (uuid : Uuid) : CodeUnits :=
  (if isDash then lit "dash" else lit "apk") ++ lit "_" ++
    (if sid.isEmpty then lit "anon" else sid) ++ lit "_" ++ uuid.nonce

/-- The `state` that a request of the login generates. -/
def loginState (uuid : Uuid) (r : OauthRequest) : CodeUnits :=
  oauthState (r.param "dash" = lit "1") r.sid uuid

/-! ## Callback -/

/-- What a request of the callback did: the entry set in `EDGE_OAUTH_SESSIONS`, the entry
put in the store, with its key and its `expirationTtl`, and the response, `none` when
building it raises. -/
structure CallbackResult where
  memory : Option (CodeUnits × SessionPayload)
  persisted : Option (CodeUnits × SessionPayload × Nat)
  response : Option OauthResponse

/-- A request that stores nothing. -/
def CallbackResult.respond (response : OauthResponse) : CallbackResult :=
  ⟨none, none, some response⟩

/-- Where the callback is deployed and what the outside answers it. -/
structure CallbackEnv where
  config : Option OauthConfig
  exchange : CodeUnits → OauthConfig → Exchange
  plainHttps : CodeUnits → Bool
  provider : CodeUnits → ProviderAnswer
  kvBound : Bool
  now : Nat

/-- The login came from the app. -/
def isApkState (state : CodeUnits) : Bool := (lit "apk_").isPrefixOf state

/-- The login came from the dashboard. -/
def isDashState (state : CodeUnits) : Bool := (lit "dash_").isPrefixOf state

/-- The session a callback is for: the explicit one, else the second part of the state. -/
def callbackSession (explicitSid state : CodeUnits) : CodeUnits :=
  if explicitSid.isEmpty then
    let parts := state.splitOn 0x5F
    if (isApkState state || isDashState state) && 2 ≤ parts.length then parts.getD 1 [] else []
  else explicitSid

/-- The key of a session in the store. -/
def oauthKey (sid : CodeUnits) : CodeUnits := lit "oauth:" ++ sid

/-- The part of the links back to the app that carries the token. -/
def githubAuthQuery (p : SessionPayload) : Option CodeUnits := do
  let token ← encodeURIComponent p.token
  let login ← encodeURIComponent p.login
  let name ← encodeURIComponent p.name
  let avatar ← encodeURIComponent p.avatarUrl
  some (lit "github-auth?token=" ++ token ++ lit "&login=" ++ login ++ lit "&name=" ++ name ++
    lit "&avatar=" ++ avatar)

/-- `[<>&"']`. -/
def htmlMarks : CodeUnits := [0x3C, 0x3E, 0x26, 0x22, 0x27]

/-- The response of a callback that has a verified token. -/
def callbackResponse (r : OauthRequest) (state : CodeUnits) (p : SessionPayload) :
    Option OauthResponse :=
  if isDashState state then do
    let token ← encodeURIComponent p.token
    let state ← encodeURIComponent state
    some (.redirect (lit "https://xyrdp-dash.vercel.app/api/auth/callback?bridge_token=" ++
      token ++ lit "&state=" ++ state) none)
  else if r.path = lit "/api/github/oauth/exchange" || r.param "format" = lit "json" then
    some (.ready p)
  else
    (githubAuthQuery p).map fun query =>
      .page (p.login.filter fun u => u ∉ htmlMarks) (lit "xydesk://" ++ query)
        (lit "intent://" ++ query ++ lit "#Intent;scheme=xydesk;package=id.xydesk.remote;end")

/-- The handler of the callback. -/
def oauthCallback (env : CallbackEnv) (r : OauthRequest) : CallbackResult :=
  if r.method = lit "OPTIONS" then .respond (.preflight (lit "GET, OPTIONS"))
  else if r.method ≠ lit "GET" then .respond (.methodNotAllowed (lit "GET, OPTIONS"))
  else
    let code := trim (r.param "code")
    let state := trim (r.param "state")
    let explicitSid := r.sid
    if code.isEmpty then .respond (.error 400 (lit "invalid_oauth_code"))
    else
      match env.config with
      | none => .respond (.error 503 (lit "oauth_unconfigured"))
      | some configured =>
        match env.exchange code configured with
        | .failed status error => .respond (.error status error)
        | .ok accessToken =>
          match resolveGithubIdentity env.plainHttps accessToken
              (env.provider accessToken) with
          | .failed status error => .respond (.error status error)
          | .ok principal =>
            let sid := callbackSession explicitSid state
            let payload : SessionPayload :=
              ⟨accessToken, principal.login, principal.name, principal.avatarUrl, env.now⟩
            let stored := !sid.isEmpty && !principal.login.isEmpty
            { memory := if stored then some (sid, payload) else none
              persisted :=
                if stored && env.kvBound then
                  some (oauthKey sid, payload, oauthSessionTtlSeconds)
                else none
              response := callbackResponse r state payload }

/-! ## What a verified callback stores -/

/-- The request carries a code that the provider turns into a token, and the token's
owner is a verified user. -/
structure CallbackVerified (env : CallbackEnv) (r : OauthRequest) (configured : OauthConfig)
    (accessToken : CodeUnits) (principal : Principal) : Prop where
  method : r.method = lit "GET"
  code : trim (r.param "code") ≠ []
  config : env.config = some configured
  exchange : env.exchange (trim (r.param "code")) configured = .ok accessToken
  identity :
    resolveGithubIdentity env.plainHttps accessToken (env.provider accessToken) = .ok principal

/-- A verified user has a login. -/
theorem login_ne_nil {plainHttps : CodeUnits → Bool} {token : CodeUnits}
    {answer : ProviderAnswer} {principal : Principal}
    (h : resolveGithubIdentity plainHttps token answer = .ok principal) :
    principal.login ≠ [] := by
  unfold resolveGithubIdentity at h
  split at h
  · cases h
  · split at h
    · cases h
    · cases h
    · next user =>
        split at h
        · next p hp =>
            obtain rfl := Identity.ok.inj h
            unfold principalOf at hp
            split at hp
            · next id login hid hlogin =>
                obtain ⟨hvalid, hp⟩ := Option.ite_none_right_eq_some.1 hp
                obtain rfl := Option.some.inj hp
                intro hempty
                rw [show login = [] from hempty] at hvalid
                exact absurd hvalid (by decide)
            · cases hp
        · cases h

section Verified

variable {env : CallbackEnv} {r : OauthRequest} {configured : OauthConfig}
  {accessToken : CodeUnits} {principal : Principal}

/-- The session the request is for. -/
def OauthRequest.session (r : OauthRequest) : CodeUnits :=
  callbackSession r.sid (trim (r.param "state"))

/-- What is stored for a verified user. -/
def CallbackEnv.payload (env : CallbackEnv) (accessToken : CodeUnits) (principal : Principal) :
    SessionPayload :=
  ⟨accessToken, principal.login, principal.name, principal.avatarUrl, env.now⟩

/-- A verified callback stores the token under its session, in memory and in the store,
and stores nothing when it has no session. -/
theorem oauthCallback_verified (h : CallbackVerified env r configured accessToken principal) :
    (oauthCallback env r).memory =
        (if r.session = [] then none else some (r.session, env.payload accessToken principal)) ∧
      (oauthCallback env r).persisted =
        if r.session ≠ [] ∧ env.kvBound = true then
          some (oauthKey r.session, env.payload accessToken principal, oauthSessionTtlSeconds)
        else none := by
  have hcode : (trim (r.param "code")).isEmpty = false := by
    rw [← Bool.not_eq_true, List.isEmpty_iff]
    exact h.code
  have hlogin : principal.login.isEmpty = false := by
    rw [← Bool.not_eq_true, List.isEmpty_iff]
    exact login_ne_nil h.identity
  have hoptions : ¬ r.method = lit "OPTIONS" := by
    rw [h.method]
    decide
  have hget : ¬ r.method ≠ lit "GET" := not_not.2 h.method
  unfold oauthCallback
  rw [if_neg hoptions, if_neg hget]
  simp only [hcode, h.config, h.exchange, h.identity, hlogin]
  have hsession : callbackSession r.sid (trim (r.param "state")) = r.session := rfl
  rw [hsession]
  cases hsid : r.session with
  | nil => exact ⟨rfl, rfl⟩
  | cons u rest =>
    refine ⟨rfl, ?_⟩
    cases hkv : env.kvBound with
    | false => rfl
    | true => rfl

end Verified

theorem isSessionIdChar_of_mem {sessionId : CodeUnits} {u : UInt16}
    (h : u ∈ sanitize sessionId) : isSessionIdChar u = true :=
  (mem_filter.1 (mem_of_mem_take h)).2

/-- No character of the alphabet is white space. -/
theorem isSpace_of_sessionIdChar {u : UInt16} (h : isSessionIdChar u = true) :
    isSpace u = false := by
  revert h
  unfold isSessionIdChar isAlphanumeric isSpace
  simp only [Bool.or_eq_true, Bool.and_eq_true, decide_eq_true_iff, Bool.or_eq_false_iff,
    Bool.and_eq_false_iff, decide_eq_false_iff_not, UInt16.le_iff_toNat_le, ← UInt16.toNat_inj]
  intro h
  simp at h ⊢
  omega

theorem isSessionIdChar_oauthState (isDash : Bool) (sessionId : CodeUnits) (uuid : Uuid) :
    ∀ u ∈ oauthState isDash (sanitize sessionId) uuid, isSessionIdChar u = true := by
  intro u hu
  unfold oauthState at hu
  rw [mem_append, mem_append, mem_append, mem_append] at hu
  rcases hu with (((hstart | hbar) | hname) | hbar) | hnonce
  · revert u
    cases isDash <;> decide
  · revert u
    decide
  · split at hname
    · revert u
      decide
    · exact isSessionIdChar_of_mem hname
  · revert u
    decide
  · have hdigits : ∀ v ∈ lit "0123456789abcdef-", isSessionIdChar v = true := by decide
    exact hdigits u (uuid.digits u (mem_filter.1 (mem_of_mem_take hnonce)).1)

/-- The part of a text before its first underscore. -/
def firstPart (s : CodeUnits) : CodeUnits := s.takeWhile fun u => u ≠ 0x5F

theorem splitOn_firstPart (s rest : CodeUnits) :
    ∃ parts, (s ++ 0x5F :: rest).splitOn 0x5F = firstPart s :: parts := by
  by_cases h : (0x5F : UInt16) ∈ s
  · obtain ⟨a, b, rfl, ha⟩ := eq_append_cons_of_mem h
    have hfirst : firstPart (a ++ 0x5F :: b) = a := by
      rw [firstPart, takeWhile_append_of_pos, takeWhile_cons_of_neg, append_nil]
      · decide
      · intro u hu
        exact decide_eq_true (ne_of_mem_of_not_mem hu ha)
    rw [append_assoc, cons_append, splitOn_append_cons_self_of_not_mem ha, hfirst]
    exact ⟨_, rfl⟩
  · have hfirst : firstPart s = s := by
      rw [firstPart, takeWhile_eq_self_iff]
      intro u hu
      exact decide_eq_true (ne_of_mem_of_not_mem hu h)
    rw [splitOn_append_cons_self_of_not_mem h, hfirst]
    exact ⟨_, rfl⟩

theorem callbackSession_oauthState (isDash : Bool) (sid : CodeUnits) (uuid : Uuid) :
    callbackSession [] (oauthState isDash sid uuid) =
      firstPart (if sid.isEmpty then lit "anon" else sid) := by
  generalize hname : (if sid.isEmpty then lit "anon" else sid) = name
  obtain ⟨parts, hparts⟩ := splitOn_firstPart name uuid.nonce
  have hstate : oauthState isDash sid uuid =
      (if isDash then lit "dash" else lit "apk") ++ 0x5F :: (name ++ 0x5F :: uuid.nonce) := by
    rw [oauthState, hname]
    simp [lit]
  have hbar : (0x5F : UInt16) ∉ (if isDash then lit "dash" else lit "apk") := by
    cases isDash <;> decide
  have hstart : (isApkState (oauthState isDash sid uuid) ||
      isDashState (oauthState isDash sid uuid)) = true := by
    rw [hstate]
    cases isDash <;> rfl
  have hsplit : (oauthState isDash sid uuid).splitOn 0x5F =
      (if isDash then lit "dash" else lit "apk") :: firstPart name :: parts := by
    rw [hstate, splitOn_append_cons_self_of_not_mem hbar, hparts]
  rw [callbackSession, if_pos (by rfl)]
  simp only [hstart, hsplit]
  rfl

/-! ## Whom the token reaches -/

/-- A session id that a client can poll for. -/
def Pollable (id : CodeUnits) : Prop := id ≠ [] ∧ ∃ sessionId, sanitize sessionId = id

/-- Something is stored under the session id, in memory or in the store. -/
def CallbackResult.StoredUnder (result : CallbackResult) (id : CodeUnits) : Prop :=
  (∃ p, result.memory = some (id, p)) ∨ ∃ p ttl, result.persisted = some (oauthKey id, p, ttl)

/-- The token reaches the session `sid` that started the login and no other one: it is
stored under exactly that key, everywhere the callback stores to, and under no key that
can be polled when the login named no session. -/
def CallbackResult.BoundTo (result : CallbackResult) (sid accessToken : CodeUnits)
    (kvBound : Bool) : Prop :=
  (sid ≠ [] →
    (∃ p, result.memory = some (sid, p) ∧ p.token = accessToken ∧
      (kvBound = true → result.persisted = some (oauthKey sid, p, oauthSessionTtlSeconds))) ∧
    ∀ id, result.StoredUnder id → id = sid) ∧
  (sid = [] → ∀ id, Pollable id → ¬ result.StoredUnder id)

section Bound

variable {env : CallbackEnv} {r : OauthRequest} {configured : OauthConfig}
  {accessToken : CodeUnits} {principal : Principal}

/-- The keys of the store are as different as the sessions. -/
theorem oauthKey_inj {id id' : CodeUnits} (h : oauthKey id = oauthKey id') : id = id' :=
  append_cancel_left h

theorem storedUnder_iff (h : CallbackVerified env r configured accessToken principal)
    (id : CodeUnits) :
    (oauthCallback env r).StoredUnder id ↔ r.session ≠ [] ∧ id = r.session := by
  obtain ⟨hmemory, hpersisted⟩ := oauthCallback_verified h
  rw [CallbackResult.StoredUnder, hmemory, hpersisted]
  by_cases hsid : r.session = []
  · rw [if_pos hsid, if_neg (fun hkv => hkv.1 hsid)]
    constructor
    · rintro (⟨p, hp⟩ | ⟨p, ttl, hp⟩)
      · cases hp
      · cases hp
    · rintro ⟨hne, -⟩
      exact absurd hsid hne
  · rw [if_neg hsid]
    constructor
    · rintro (⟨p, hp⟩ | ⟨p, ttl, hp⟩)
      · rw [Option.some_inj, Prod.mk.injEq] at hp
        exact ⟨hsid, hp.1.symm⟩
      · obtain ⟨-, hp⟩ := Option.ite_none_right_eq_some.1 hp
        rw [Option.some_inj, Prod.mk.injEq] at hp
        exact ⟨hsid, (oauthKey_inj hp.1).symm⟩
    · rintro ⟨-, rfl⟩
      exact Or.inl ⟨_, rfl⟩

/-- The session of a callback that handles the state of a login and names no session. -/
theorem session_of_state {login : OauthRequest} {uuid : Uuid}
    (hstate : r.param "state" = loginState uuid login) (hsid : r.param "session_id" = []) :
    r.session = firstPart (if login.sid.isEmpty then lit "anon" else login.sid) := by
  have htrim : trim (loginState uuid login) = loginState uuid login := by
    apply trim_eq_self
    intro u hu
    exact isSpace_of_sessionIdChar (isSessionIdChar_oauthState _ _ uuid u hu)
  rw [OauthRequest.session, OauthRequest.sid, hsid, hstate, htrim]
  exact callbackSession_oauthState _ login.sid uuid

/-- **The token reaches the session that started the login exactly when the session id
is not empty and has no underscore.** -/
theorem oauthCallback_bound_iff {login : OauthRequest} {uuid : Uuid}
    (hstate : r.param "state" = loginState uuid login) (hsid : r.param "session_id" = [])
    (h : CallbackVerified env r configured accessToken principal) :
    (oauthCallback env r).BoundTo login.sid accessToken env.kvBound ↔
      login.sid ≠ [] ∧ (0x5F : UInt16) ∉ login.sid := by
  have hsession := session_of_state hstate hsid
  have hstored := storedUnder_iff h
  generalize hgen : login.sid = sid at hsession
  cases sid with
  | nil =>
    -- a login without a name stores under `anon`, for which anybody may poll
    have hanon : r.session = lit "anon" := hsession
    constructor
    · rintro ⟨-, hempty⟩
      have hpollable : Pollable (lit "anon") := ⟨by decide, lit "anon", by decide⟩
      refine absurd ?_ (hempty rfl (lit "anon") hpollable)
      rw [hstored, hanon]
      exact ⟨by decide, rfl⟩
    · rintro ⟨hne, -⟩
      exact absurd rfl hne
  | cons u rest =>
    have hfirst : r.session = firstPart (u :: rest) := hsession
    constructor
    · rintro ⟨hbound, -⟩
      refine ⟨by simp, ?_⟩
      obtain ⟨⟨p, hp, -⟩, -⟩ := hbound (by simp)
      have hsame : (u :: rest) = r.session :=
        ((hstored (u :: rest)).1 (Or.inl ⟨p, hp⟩)).2
      rw [hfirst] at hsame
      intro hbar
      rw [hsame] at hbar
      have hnotbar := mem_takeWhile_imp hbar
      exact absurd hnotbar (by decide)
    · rintro ⟨-, hbar⟩
      have hself : firstPart (u :: rest) = u :: rest := by
        rw [firstPart, takeWhile_eq_self_iff]
        intro v hv
        exact decide_eq_true (ne_of_mem_of_not_mem hv hbar)
      rw [hself] at hfirst
      obtain ⟨hmemory, hpersisted⟩ := oauthCallback_verified h
      have hne : r.session ≠ [] := by
        rw [hfirst]
        exact cons_ne_nil u rest
      constructor
      · intro _
        refine ⟨⟨env.payload accessToken principal, ?_, rfl, ?_⟩, ?_⟩
        · rw [hmemory, if_neg hne, hfirst]
        · intro hkv
          rw [hpersisted, if_pos ⟨hne, hkv⟩, hfirst]
        · intro id hid
          rw [((hstored id).1 hid).2, hfirst]
      · intro hempty
        exact absurd hempty (cons_ne_nil u rest)

end Bound

/-! ### A login with an underscore -/

/-- A deployment whose provider takes every code for a token of `alice`. -/
def aliceEnv : CallbackEnv where
  config := some ⟨lit "client12", lit "secret"⟩
  exchange _ _ := .ok (lit "gho_1")
  plainHttps _ := false
  provider _ := .profile ⟨some 1, some (lit "alice"), none, none⟩
  kvBound := true
  now := 0

/-- The login of a session. -/
def loginRequest (sessionId : CodeUnits) : OauthRequest where
  method := lit "GET"
  path := lit "/api/github/oauth/login"
  params := [(lit "session_id", sessionId)]

/-- A nonce. -/
def sampleUuid : Uuid := ⟨lit "0a1b2c3d-4e5f-6071", by decide⟩

/-- The callback of that login. -/
def callbackRequest (sessionId : CodeUnits) : OauthRequest where
  method := lit "GET"
  path := lit "/api/github/oauth/callback"
  params :=
    [(lit "code", lit "c0de"), (lit "state", loginState sampleUuid (loginRequest sessionId))]

/-- A user. -/
def alice : Principal := ⟨1, lit "alice", lit "alice", []⟩

theorem callbackVerified_alice (sessionId : CodeUnits) :
    CallbackVerified aliceEnv (callbackRequest sessionId) ⟨lit "client12", lit "secret"⟩
      (lit "gho_1") alice where
  method := rfl
  code := by
    show trim (lit "c0de") ≠ []
    decide
  config := rfl
  exchange := rfl
  identity := by rfl

/-- A session id with a dash: the token reaches it. -/
theorem oauthCallback_bound_dash :
    (oauthCallback aliceEnv (callbackRequest (lit "session-1"))).BoundTo (lit "session-1")
      (lit "gho_1") true := by
  have hsid : (loginRequest (lit "session-1")).sid = lit "session-1" := by decide
  have hbound := (oauthCallback_bound_iff
    (show (callbackRequest (lit "session-1")).param "state" =
      loginState sampleUuid (loginRequest (lit "session-1")) from rfl) rfl
    (callbackVerified_alice (lit "session-1"))).2 ⟨by decide, by decide⟩
  rw [hsid] at hbound
  exact hbound

/-- The session id `session_1` is one that the app may choose; its token is stored under
`session`, where another client can poll for it, and not under `session_1`. -/
theorem oauthCallback_underscore :
    let result := oauthCallback aliceEnv (callbackRequest (lit "session_1"))
    (loginRequest (lit "session_1")).sid = lit "session_1" ∧ Pollable (lit "session") ∧
      result.StoredUnder (lit "session") ∧ ¬ result.StoredUnder (lit "session_1") ∧
      ¬ result.BoundTo (loginRequest (lit "session_1")).sid (lit "gho_1") true := by
  intro result
  have hsid : (loginRequest (lit "session_1")).sid = lit "session_1" := by decide
  have hstate : (callbackRequest (lit "session_1")).param "state" =
      loginState sampleUuid (loginRequest (lit "session_1")) := rfl
  have hsession : (callbackRequest (lit "session_1")).session = lit "session" := by
    rw [session_of_state hstate rfl]
    decide
  have hstored := storedUnder_iff (callbackVerified_alice (lit "session_1"))
  rw [hsession] at hstored
  have hother : ¬ result.StoredUnder (lit "session_1") := by
    rw [hstored]
    decide
  refine ⟨hsid, ⟨by decide, lit "session", by decide⟩, ?_, hother, ?_⟩
  · rw [hstored]
    decide
  · intro hbound
    rw [hsid] at hbound
    obtain ⟨⟨p, hp, -⟩, -⟩ := hbound.1 (by decide)
    exact hother (Or.inl ⟨p, hp⟩)
