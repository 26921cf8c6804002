/-
# The wrapped KV: what D1 gives back

D1 has one column of text for strings and for buffers.  A buffer is stored as base64 behind a
marker, a string as it is, and the marker alone tells them apart: `d1_roundTrip_iff` says that
every buffer comes back, and every string but those that `decodeD1Value` takes for a buffer.
-/
import XyDeskRemote.EdgeKvExpiry

open EdgeKv List Option

/-- The type that gives a value back as it was put. -/
def KvValue.ownType : KvValue → KvType
  | text _ => .text
  | bytes _ => .arrayBuffer

/-- A text that `decodeD1Value` takes for a buffer: the marker, and base64 behind it. -/
def KvValue.LooksEncoded (v : KvValue) : Prop :=
  ∃ rest b, v = .text (d1Marker ++ rest) ∧ Base64.atob rest = some b

theorem d1_put (env : KvEnv) (s : EdgeKv) {k : String} (hkey : isDownloadKey k = false)
    (v : KvValue) (expirationTtl : Option ℕ) (t : ℕ) :
    (s.put env k v expirationTtl t).d1 k = some (d1Text v) :=
  (after_put env s k v expirationTtl t).d1 hkey

/-- What the row decodes to: the value itself, unless it looks encoded. -/
theorem decode_d1Text_iff (v : KvValue) :
    (∀ x, decodeD1Value (d1Text v) = some x → x = v) ↔ ¬ v.LooksEncoded := by
  constructor
  · rintro hall ⟨rest, b, rfl, hb⟩
    have hmark : d1Marker.isPrefixOf (d1Marker ++ rest) = true :=
      isPrefixOf_iff_prefix.2 (prefix_append _ _)
    have hdecode : decodeD1Value (d1Text (.text (d1Marker ++ rest))) = some (.bytes b) := by
      rw [d1Text, decodeD1Value, if_pos hmark, drop_left, hb, map_some]
    exact KvValue.noConfusion (hall _ hdecode)
  · intro hnot x hx
    cases v with
    | bytes b =>
      rw [decode_d1Text_bytes] at hx
      exact (some.inj hx).symm
    | text str =>
      rw [d1Text, decodeD1Value] at hx
      split at hx
      next hmark =>
        obtain ⟨b, hb, -⟩ := map_eq_some_iff.1 hx
        obtain ⟨rest, rfl⟩ := isPrefixOf_iff_prefix.1 hmark
        rw [drop_left] at hb
        exact absurd ⟨rest, b, rfl, hb⟩ hnot
      next => exact (some.inj hx).symm

theorem asType_ownType (env : KvEnv) (v : KvValue) : v.asType env v.ownType = some v := by
  cases v with
  | text str => rfl
  | bytes b => rfl

theorem get_of_d1Answer {env : KvEnv} {s : EdgeKv} {k : String} {type : KvType}
    {result : Option KvValue} (h : s.d1Answer env k type = some result) (t : ℕ) :
    (s.get env k type t).2 = result := by
  rw [EdgeKv.get, h]

theorem d1Answer_put (env : KvEnv) (s : EdgeKv) {k : String} (hkey : isDownloadKey k = false)
    (v : KvValue) (expirationTtl : Option ℕ) (t : ℕ) (type : KvType) :
    (s.put env k v expirationTtl t).d1Answer env k type =
      (decodeD1Value (d1Text v)).map fun x => x.asType env type := by
  rw [EdgeKv.d1Answer, if_neg (Bool.eq_false_iff.1 hkey), d1_put env s hkey]

/-- **What is put is what D1 gives back**, but for a text that looks encoded. -/
theorem d1_roundTrip_iff (env : KvEnv) (s : EdgeKv) {k : String} (hkey : isDownloadKey k = false)
    (v : KvValue) (expirationTtl : Option ℕ) (t₀ t : ℕ) :
    (((s.put env k v expirationTtl t₀).d1Answer env k v.ownType).isSome = true →
        ((s.put env k v expirationTtl t₀).get env k v.ownType t).2 = some v) ↔
      ¬ v.LooksEncoded := by
  rw [← decode_d1Text_iff]
  have hanswer := d1Answer_put env s hkey v expirationTtl t₀ v.ownType
  constructor
  · intro hget x hx
    rw [hx, map_some] at hanswer
    have hread := hget (by rw [hanswer]; rfl)
    rw [get_of_d1Answer hanswer] at hread
    cases v with
    | bytes b =>
      -- a buffer is decoded as one
      rw [decode_d1Text_bytes] at hx
      exact (some.inj hx).symm
    | text str =>
      have hplain : d1Marker.isPrefixOf str = false :=
        (decode_d1Text_string hx).1 (by injection some.inj hread)
      rw [d1Text, decodeD1Value, if_neg (Bool.eq_false_iff.1 hplain)] at hx
      exact (some.inj hx).symm
  · intro hdecode hanswered
    obtain ⟨result, hresult⟩ := isSome_iff_exists.1 hanswered
    rw [get_of_d1Answer hresult]
    rw [hanswer] at hresult
    obtain ⟨x, hx, rfl⟩ := map_eq_some_iff.1 hresult
    rw [hdecode x hx, asType_ownType]

/-- A buffer of two bytes. -/
theorem d1_roundTrip_bytes :
    (((EdgeKv.empty.put tokenEnv "k" (.bytes [0, 255]) none 0).get tokenEnv "k" .arrayBuffer 0).2 =
      some (.bytes [0, 255])) :=
  (d1_roundTrip_iff tokenEnv EdgeKv.empty (by decide) (.bytes [0, 255]) none 0 0).2
    (fun ⟨_, _, h, _⟩ => KvValue.noConfusion h)
    (by rw [d1Answer_put _ _ (by decide), decode_d1Text_bytes]; rfl)

/-- The text `__b64__:aGk=` comes back as `hi`. -/
theorem d1_text_decoded :
    ((EdgeKv.empty.put tokenEnv "k" (.text (d1Marker ++ [0x61, 0x47, 0x6B, 0x3D])) none 0).d1Answer
      tokenEnv "k" .text).isSome = true ∧
    ((EdgeKv.empty.put tokenEnv "k" (.text (d1Marker ++ [0x61, 0x47, 0x6B, 0x3D])) none 0).get
      tokenEnv "k" .text 0).2 = some (.text [0x68, 0x69]) := by
  decide
