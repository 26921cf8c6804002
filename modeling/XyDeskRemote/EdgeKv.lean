/-
# The wrapped KV of the worker

`wrapKvWithEdgeCache` puts three layers in front of the raw KV namespace: a D1 table,
the edge cache and a map in the memory of the isolate.  A `get` asks them in the order
D1, cache, memory, raw KV and stops at the first answer; a `put` and a `delete` go
through all of them, with exceptions by key.  This file models the object it returns
when there is a D1 binding.

* Times are in milliseconds and each call happens at one instant; the backends answer
  every call.  The raw KV honours `expirationTtl` and refuses one below 60 s.
* D1 and the raw KV give back what they were given; a response keeps a string as bytes.
* The edge cache keeps an entry for its `max-age` at most: `KvLabel.forget` is the
  cache losing an entry before that.
* `JSON.parse` only matters for what a `get` of type `json` writes back, so it is the
  parameter `jsonReprint` (parse and print again, nothing for `null` or no JSON).
-/
import XyDeskRemote.LabelledRun
import XyDeskRemote.WebText

open Function

/-! ## Keys and values -/

/-- A key of the download statistics. -/
def isDownloadKey (k : String) : Bool := "dl:".toList.isPrefixOf k.toList

/-- A key of the fallback. -/
def isFallbackKey (k : String) : Bool := "do_fallback:".toList.isPrefixOf k.toList

/-- The keys that are looked for in D1 only. -/
def isD1OnlyKey (k : String) : Bool :=
  isFallbackKey k || "oauth:".toList.isPrefixOf k.toList || k == "chat:prod_backup_v1"

/-- What the caller wants a value as. -/
inductive KvType where
  | text
  | arrayBuffer
  | json
  deriving DecidableEq

/-- A value that is put. -/
inductive KvValue where
  | text (s : CodeUnits)
  | bytes (b : List UInt8)
  deriving DecidableEq

/-- The value as a string. -/
def KvValue.string : KvValue → CodeUnits
  | text s => s
  | bytes b => Utf8.decodeText b

/-- The value as the body of a response. -/
def KvValue.body : KvValue → List UInt8
  | text s => Utf8.encode s
  | bytes b => b

/-- What surrounds the layers: whether there is an edge cache, and the JSON library. -/
structure KvEnv where
  cacheBound : Bool
  jsonReprint : CodeUnits → Option CodeUnits

/-- The value as the caller wants it; JSON is represented by its text. -/
def KvValue.asType (env : KvEnv) (v : KvValue) : KvType → Option KvValue
  | .text => some (.text v.string)
  | .arrayBuffer => some (.bytes v.body)
  | .json => (env.jsonReprint v.string).map .text

/-- `__b64__:`, in front of a base64 text in D1. -/
def d1Marker : CodeUnits := "__b64__:".toList.map fun c => UInt16.ofNat c.toNat

/-- The loop of `bytesToBase64Fast`: the binary string, by its bytes, in chunks of `0x8000`. -/
def binaryString (u8 : List UInt8) : List UInt8 :=
  if _hmore : u8 ≠ [] then u8.take 0x8000 ++ binaryString (u8.drop 0x8000) else []
termination_by u8.length
decreasing_by
  have hpos := List.length_pos_of_ne_nil _hmore
  rw [List.length_drop]
  omega

/-- `bytesToBase64Fast`. -/
def bytesToBase64Fast (u8 : List UInt8) : CodeUnits := Base64.btoa (binaryString u8)

/-- The chunks are the whole string. -/
theorem binaryString_eq (u8 : List UInt8) : binaryString u8 = u8 := by
  rw [binaryString]
  split
  next => rw [binaryString_eq (u8.drop 0x8000), List.take_append_drop]
  next hnil => exact (not_not.1 hnil).symm
termination_by u8.length
decreasing_by
  next hmore =>
    have hpos := List.length_pos_of_ne_nil hmore
    rw [List.length_drop]
    omega

/-- **A buffer comes back from the text that its chunks are encoded to.** -/
theorem atob_bytesToBase64Fast (u8 : List UInt8) :
    Base64.atob (bytesToBase64Fast u8) = some u8 := by
  rw [bytesToBase64Fast, binaryString_eq]
  exact Base64.atob_btoa u8

/-- The text a value is stored as in D1. -/
def d1Text : KvValue → CodeUnits
  | .text s => s
  | .bytes b => d1Marker ++ bytesToBase64Fast b

/-- `decodeD1Value` before the conversion to the wanted type; `none` where it throws. -/
def decodeD1Value (rawStr : CodeUnits) : Option KvValue :=
  if d1Marker.isPrefixOf rawStr then (Base64.atob (rawStr.drop d1Marker.length)).map .bytes
  else some (.text rawStr)

/-- A buffer is decoded from the text it is stored as. -/
theorem decode_d1Text_bytes (b : List UInt8) :
    decodeD1Value (d1Text (.bytes b)) = some (.bytes b) := by
  have hmark : d1Marker.isPrefixOf (d1Marker ++ bytesToBase64Fast b) = true :=
    List.isPrefixOf_iff_prefix.2 (List.prefix_append _ _)
  rw [d1Text, decodeD1Value, if_pos hmark, List.drop_left, atob_bytesToBase64Fast]
  rfl

/-! ## The layers -/

/-- An entry of the edge cache. -/
structure CacheEntry where
  body : List UInt8
  freshUntil : Nat

/-- An entry of `EDGE_KV_MEMORY_FALLBACK`, or of the raw KV; zero means no expiry. -/
structure StoredValue where
  value : KvValue
  expiresAt : Nat

/-- Everything the wrapped object reads and writes, and the time of the last call. -/
structure EdgeKv where
  d1 : String → Option CodeUnits
  cache : String → Option CacheEntry
  mem : String → Option StoredValue
  lastRawPut : String → Nat
  raw : String → Option StoredValue
  now : Nat

/-- The value, unless it has expired. -/
def StoredValue.live (e : StoredValue) (t : Nat) : Option KvValue :=
  if e.expiresAt = 0 ∨ t < e.expiresAt then some e.value else none

/-- The seconds of `max-age`: `Math.max(60, Number(options?.expirationTtl) || 604800)`. -/
def maxAge (expirationTtl : Option Nat) : Nat :=
  match expirationTtl with
  | some 0 => max 60 604800
  | some ttl => max 60 ttl
  | none => max 60 604800

/-- `expiresAt` of a put at time `t`; an `expirationTtl` of zero is none. -/
def putExpiresAt (expirationTtl : Option Nat) (t : Nat) : Nat :=
  match expirationTtl with
  | some 0 => 0
  | some ttl => t + max 60 ttl * 1000
  | none => 0

namespace EdgeKv

/-- A fresh entry of the edge cache. -/
def cacheMatch (env : KvEnv) (s : EdgeKv) (k : String) (t : Nat) : Option KvValue :=
  if env.cacheBound then
    (s.cache k).bind fun e => if t < e.freshUntil then some (.bytes e.body) else none
  else none

/-- A live entry of the memory of the isolate. -/
def memMatch (s : EdgeKv) (k : String) (t : Nat) : Option KvValue :=
  (s.mem k).bind fun e => e.live t

/-- A live entry of the raw KV. -/
def rawMatch (s : EdgeKv) (k : String) (t : Nat) : Option KvValue :=
  (s.raw k).bind fun e => e.live t

/-- An entry for the edge cache. -/
def cachePut (env : KvEnv) (s : EdgeKv) (k : String) (v : KvValue) (freshUntil : Nat) : EdgeKv :=
  if env.cacheBound then
    { s with cache := Function.update s.cache k (some ⟨v.body, freshUntil⟩) }
  else s

/-! ## Calls -/

/-- The D1 part of `get`: what it returns, if it returns. -/
def d1Answer (env : KvEnv) (s : EdgeKv) (k : String) (type : KvType) : Option (Option KvValue) :=
  if isDownloadKey k then none
  else
    match s.d1 k with
    | some rawStr => (decodeD1Value rawStr).map fun v => v.asType env type
    | none => if isD1OnlyKey k then some none else none

/-- What the raw KV answers is kept in memory, without expiry, and in the cache. -/
def readThrough (env : KvEnv) (s : EdgeKv) (k : String) (val : KvValue) (t : Nat) : EdgeKv :=
  cachePut env { s with mem := Function.update s.mem k (some ⟨val, 0⟩) } k val
    (t + 604800 * 1000)

/-- `get(key, type)`. -/
def get (env : KvEnv) (s : EdgeKv) (k : String) (type : KvType) (t : Nat) :
    EdgeKv × Option KvValue :=
  match s.d1Answer env k type with
  | some result => (s, result)
  | none =>
    match s.cacheMatch env k t with
    | some v => (s, v.asType env type)
    | none =>
      match s.memMatch k t with
      | some v => (s, v.asType env type)
      | none =>
        match (s.rawMatch k t).bind fun v => v.asType env type with
        | some val => (s.readThrough env k val t, some val)
        | none => (s, none)

/-- `rawKv.put`, which refuses an `expirationTtl` below 60 s. -/
def rawPut (s : EdgeKv) (k : String) (v : KvValue) (expirationTtl : Option Nat) (t : Nat) :
    EdgeKv :=
  match expirationTtl with
  | none => { s with raw := Function.update s.raw k (some ⟨v, 0⟩) }
  | some ttl =>
    if ttl < 60 then s
    else { s with raw := Function.update s.raw k (some ⟨v, t + ttl * 1000⟩) }

/-- The last part of `put`: the raw KV gets no download counters, and the keys of the
fallback at most once a minute. -/
def putRaw (s : EdgeKv) (k : String) (v : KvValue) (expirationTtl : Option Nat) (t : Nat) :
    EdgeKv :=
  if isDownloadKey k then s
  else if isFallbackKey k then
    if t - s.lastRawPut k < 60000 then s
    else
      { s with lastRawPut := Function.update s.lastRawPut k t }.rawPut k v expirationTtl t
  else s.rawPut k v expirationTtl t

/-- The first part of `put`: memory, D1, edge cache. -/
def putLayers (env : KvEnv) (s : EdgeKv) (k : String) (v : KvValue)
    (expirationTtl : Option Nat) (t : Nat) : EdgeKv :=
  cachePut env
    { s with
      mem := Function.update s.mem k (some ⟨v, putExpiresAt expirationTtl t⟩)
      d1 := if isDownloadKey k then s.d1 else Function.update s.d1 k (some (d1Text v)) }
    k v (t + maxAge expirationTtl * 1000)

/-- `put(key, value, { expirationTtl })`. -/
def put (env : KvEnv) (s : EdgeKv) (k : String) (v : KvValue) (expirationTtl : Option Nat)
    (t : Nat) : EdgeKv :=
  (s.putLayers env k v expirationTtl t).putRaw k v expirationTtl t

/-- `delete(key)`. -/
def delete (env : KvEnv) (s : EdgeKv) (k : String) : EdgeKv :=
  { s with
    mem := Function.update s.mem k none
    d1 := if isDownloadKey k then s.d1 else Function.update s.d1 k none
    cache := if env.cacheBound then Function.update s.cache k none else s.cache
    raw := Function.update s.raw k none }

end EdgeKv

/-- A call, or the edge cache losing an entry. -/
inductive KvLabel where
  | get (k : String) (type : KvType)
  | put (k : String) (v : KvValue) (expirationTtl : Option Nat)
  | delete (k : String)
  | forget (k : String)

/-- What a label does at time `t`. -/
def EdgeKv.apply (env : KvEnv) (s : EdgeKv) (t : Nat) : KvLabel → EdgeKv
  | .get k type => (s.get env k type t).1
  | .put k v expirationTtl => s.put env k v expirationTtl t
  | .delete k => s.delete env k
  | .forget k => { s with cache := Function.update s.cache k none }

/-- One call at a time, on a clock that does not go back. -/
def EdgeKv.step (env : KvEnv) (s : EdgeKv) (a : Nat × KvLabel) : Option EdgeKv :=
  if a.1 < s.now then none else some { s.apply env a.1 a.2 with now := a.1 }
