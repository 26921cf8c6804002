/-
# The PC directory of the worker

`pcRelayResponse` keeps the addresses of a PC under its id: the PC's agent sends
heartbeats (`POST`), a client asks for the candidates of an id (`GET` or `HEAD`).  The
store keeps a record for 300 s; a heartbeat within 20 s of the stored one is acknowledged
without being written, and one address may ask for 30 ids a minute.

A request for an id stops at every `await`, so that requests may interleave:
`ResolveState` says where it waits, `resolveStep` is what it does until it waits again.
The texts of a request are code units; what the language's own functions make of them
(`toUpperCase`, `Number`, the digest) is a parameter, `RelayEnv`.
-/
import XyDeskRemote.ExpiringStore
import XyDeskRemote.WorkerText

open WorkerText

/-! ## Records, keys and the store -/

/-- The record of a PC; `updatedAt` is the time its text stands for. -/
structure RelayRecord where
  hostname : CodeUnits
  rdpPort : Int
  publicIp : CodeUnits
  tailnet : Option CodeUnits
  lanIp : Option CodeUnits
  updatedAt : Nat
  deriving DecidableEq

/-- What a text of the store stands for: a number, a record, or neither. -/
inductive RelayValue where
  | count (n : Nat)
  | record (rec : RelayRecord)
  | other
  deriving DecidableEq

/-- The store of the relay. -/
abbrev RelayKv := ExpiringStore CodeUnits RelayValue

/-- `xy-pc-relay-rl:${ipHash}:${minute}`. -/
def rlKey (ipHash : CodeUnits) (minute : Nat) : CodeUnits :=
  lit "xy-pc-relay-rl:" ++ ipHash ++ lit ":" ++ lit (toString minute)

/-- `xy-pc-relay:${id}`. -/
def relayKey (id : CodeUnits) : CodeUnits := lit "xy-pc-relay:" ++ id

/-- How long a record is kept. -/
def pcRelayTtlSeconds : Nat := 300

/-- The limit of an address. -/
def pcRelayResolveLimitPerMinute : Nat := 30

/-- A record is never stored where a counter is. -/
theorem relayKey_ne_rlKey (id ipHash : CodeUnits) (minute : Nat) :
    relayKey id ≠ rlKey ipHash minute := by
  intro h
  have hat := congrArg (fun s : CodeUnits => s[11]?) h
  revert hat
  simp [relayKey, rlKey, lit]

/-! ## The platform -/

/-- The functions of the platform that the handler uses: `numberOf` is `Number(s)` where
that is an integer, `sha256Hex` the digest of a text in hexadecimal digits. -/
structure RelayEnv where
  kvBound : Bool
  toUpperCase : CodeUnits → CodeUnits
  toLowerCase : CodeUnits → CodeUnits
  numberOf : CodeUnits → Option Int
  sha256Hex : CodeUnits → CodeUnits

/-- `[0-9A-F]`. -/
def isUpperHex (u : UInt16) : Bool := (0x30 ≤ u && u ≤ 0x39) || (0x41 ≤ u && u ≤ 0x46)

/-- `PC_RELAY_ID_RE`: `/^XY[0-9A-F]{8}$/`. -/
def isRelayId (id : CodeUnits) : Bool :=
  (lit "XY").isPrefixOf id && id.length = 10 && (id.drop 2).all isUpperHex

/-- A private address, or one of a carrier. -/
def isPrivateAddress (env : RelayEnv) (ip : CodeUnits) : Bool :=
  if ip.contains 0x3A then false
  else
    match (ip.splitOn 0x2E).map env.numberOf with
    | [some a, some b, some c, some d] =>
      if [a, b, c, d].any fun p => p < 0 || 255 < p then true
      else a = 10 || a = 127 || (a = 192 && b = 168) || (a = 172 && 16 ≤ b && b ≤ 31) ||
        (a = 169 && b = 254) || (a = 100 && 64 ≤ b && b ≤ 127)
    | _ => true

/-- The kinds of candidates. -/
inductive CandidateKind where
  | publicIp
  | tailnet
  | lan
  deriving DecidableEq

/-- An address to try. -/
structure RelayCandidate where
  host : CodeUnits
  port : Int
  kind : CandidateKind
  deriving DecidableEq

/-- The candidates of a record. -/
def RelayRecord.candidates (env : RelayEnv) (rec : RelayRecord) : List RelayCandidate :=
  (if !rec.publicIp.isEmpty && !isPrivateAddress env rec.publicIp then
    [⟨rec.publicIp, rec.rdpPort, .publicIp⟩] else []) ++
  (match rec.tailnet with
    | some tailnet => if tailnet.isEmpty then [] else [⟨tailnet, rec.rdpPort, .tailnet⟩]
    | none => []) ++
  (match rec.lanIp with
    | some lanIp => if lanIp.isEmpty then [] else [⟨lanIp, rec.rdpPort, .lan⟩]
    | none => [])

/-- What the relay answers. -/
inductive RelayResponse where
  | status (code : Nat) (status : CodeUnits)
  | resolved (id hostname : CodeUnits) (candidates : List RelayCandidate) (updatedAt : Nat)
  | acknowledged (updatedAt : Nat) (throttled : Bool)
  deriving DecidableEq

/-! ## Resolving an id -/

/-- A `GET` or `HEAD`: the `id` parameter and the address it comes from. -/
structure ResolveRequest where
  id : CodeUnits
  ip : Option CodeUnits
  deriving DecidableEq

/-- Where a request for an id waits: it has not begun, or it waits for the digest, for
the counter, for the counter's write, for the record; or it is answered, with the key of
the counter when it got past the limiter. -/
inductive ResolveState where
  | arrived (r : ResolveRequest)
  | digesting (id ip : CodeUnits)
  | counting (id rlKey : CodeUnits)
  | writing (id rlKey : CodeUnits) (seen : Nat)
  | reading (id rlKey : CodeUnits)
  | refused (response : RelayResponse)
  | served (rlKey : CodeUnits) (response : RelayResponse)
  deriving DecidableEq

/-- `Number(raw) || 0`. -/
def countOf : Option RelayValue → Nat
  | some (.count n) => n
  | _ => 0

/-- The answer to a request that reads the record `raw`. -/
def resolveAnswer (env : RelayEnv) (id : CodeUnits) : Option RelayValue → RelayResponse
  | some (.record rec) => .resolved id rec.hostname (rec.candidates env) rec.updatedAt
  | _ => .status 404 (lit "not_found")

/-- What a request does at time `t`, until it waits again. -/
def resolveStep (env : RelayEnv) (kv : RelayKv) (t : Nat) : ResolveState → RelayKv × ResolveState
  | .arrived r =>
    if env.kvBound then
      let id := env.toUpperCase r.id
      if isRelayId id then (kv, .digesting id (r.ip.getD (lit "unknown")))
      else (kv, .refused (.status 400 (lit "invalid_id")))
    else (kv, .refused (.status 503 (lit "unavailable")))
  | .digesting id ip =>
    (kv, .counting id (rlKey (env.sha256Hex (lit "xydesk-pc-relay-ip:" ++ ip)) (t / 60000)))
  | .counting id key =>
    let seen := countOf (kv.get key t)
    if seen ≥ pcRelayResolveLimitPerMinute then
      (kv, .refused (.status 429 (lit "rate_limited")))
    else (kv, .writing id key seen)
  | .writing id key seen => (kv.put key (.count (seen + 1)) (some 120) t, .reading id key)
  | .reading id key => (kv, .served key (resolveAnswer env id (kv.get (relayKey id) t)))
  | .refused response => (kv, .refused response)
  | .served key response => (kv, .served key response)

/-! ## Heartbeats -/

/-- The fields of a heartbeat, as far as the handler takes them: `id` is
`String(body?.id || "")`, `port` is `Number(body?.rdp_port ?? body?.port)` where that is
an integer, the others are there when they are strings. -/
structure HeartbeatBody where
  id : CodeUnits
  hostname : Option CodeUnits
  port : Option Int
  tailnet : Option CodeUnits
  lanIp : Option CodeUnits
  deriving DecidableEq

/-- The body of a `POST`: longer than 1024 bytes, not readable, not JSON, or JSON. -/
inductive RelayBody where
  | tooLarge
  | invalid
  | notJson
  | json (body : HeartbeatBody)
  deriving DecidableEq

/-- A heartbeat. -/
structure HeartbeatRequest where
  jsonContentType : Bool
  body : RelayBody
  ip : Option CodeUnits
  deriving DecidableEq

/-- `/^[a-z0-9.-]*$/`. -/
def isTailnetName (s : CodeUnits) : Bool :=
  s.all fun u => (0x61 ≤ u && u ≤ 0x7A) || (0x30 ≤ u && u ≤ 0x39) || u = 0x2E || u = 0x2D

/-- `/^[0-9.]{7,15}$/`. -/
def isLanIp (s : CodeUnits) : Bool :=
  7 ≤ s.length && s.length ≤ 15 && s.all fun u => (0x30 ≤ u && u ≤ 0x39) || u = 0x2E

/-- The checks of a heartbeat: the id and the record it reports at time `t`, or the
refusal. -/
def checkHeartbeat (env : RelayEnv) (r : HeartbeatRequest) (t : Nat) :
    Except RelayResponse (CodeUnits × RelayRecord) :=
  if !r.jsonContentType then .error (.status 415 (lit "invalid_content_type"))
  else
    match r.body with
    | .tooLarge => .error (.status 413 (lit "payload_too_large"))
    | .invalid => .error (.status 400 (lit "invalid_request"))
    | .notJson => .error (.status 400 (lit "invalid_json"))
    | .json body =>
      let id := env.toUpperCase body.id
      if !isRelayId id then .error (.status 400 (lit "invalid_id"))
      else
        match body.port with
        | none => .error (.status 400 (lit "invalid_port"))
        | some rdpPort =>
          if rdpPort < 1 ∨ 65535 < rdpPort then .error (.status 400 (lit "invalid_port"))
          else
            let tailnet := env.toLowerCase (trim (body.tailnet.getD []))
            if 253 < tailnet.length || !isTailnetName tailnet then
              .error (.status 400 (lit "invalid_tailnet"))
            else
              let lanIp := (body.lanIp.map trim).filter isLanIp
              .ok (id,
                { hostname := (body.hostname.getD []).take 128
                  rdpPort := rdpPort
                  publicIp := r.ip.getD []
                  tailnet := if tailnet.isEmpty then none else some tailnet
                  lanIp := lanIp
                  updatedAt := t })

/-- The record of the id is so recent at `t` that a heartbeat is not written. -/
def throttledBy (t : Nat) : Option RelayValue → Option Nat
  | some (.record prev) =>
    if (t : Int) - prev.updatedAt < 20000 then some prev.updatedAt else none
  | _ => none

/-- A `POST` at time `t`. -/
def pcRelayPost (env : RelayEnv) (kv : RelayKv) (t : Nat) (r : HeartbeatRequest) :
    RelayKv × RelayResponse :=
  if env.kvBound then
    match checkHeartbeat env r t with
    | .error response => (kv, response)
    | .ok (id, rec) =>
      match throttledBy t (kv.get (relayKey id) t) with
      | some updatedAt => (kv, .acknowledged updatedAt true)
      | none =>
        (kv.put (relayKey id) (.record rec) (some pcRelayTtlSeconds) t,
          .acknowledged t false)
  else (kv, .status 503 (lit "unavailable"))
