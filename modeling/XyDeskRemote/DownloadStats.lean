/-
# Unique downloaders

`recordUniqueDownload` counts every (IP, user agent, file) once: D1 keeps the digest of
the triple as a primary key, and when D1 fails the KV keeps the digest under a key of its
own, for five years, and a total.  `readUniqueDownloadTotal` adds the two.

The two stores do not know of each other.
The calls come one at a time, from empty stores on; the KV keeps what it is given until it
expires, and a failing D1 keeps nothing.
-/
import Mathlib.Data.Finset.Card
import Mathlib.Data.List.Pairwise
import XyDeskRemote.ExpiringStore
import XyDeskRemote.WorkerText

open WorkerText ExpiringStore List

/-! ## Calls and stores -/

/-- What D1 does during a call: it is not bound, it fails (when the table is created or
when the row is inserted), or it works. -/
inductive D1State where
  | unbound
  | failing
  | working
  deriving DecidableEq

/-- A download: the two headers, the file, the time, and how D1 fares. -/
structure DownloadCall where
  ip : Option CodeUnits
  userAgent : Option CodeUnits
  fileName : CodeUnits
  now : Nat
  d1 : D1State
  deriving DecidableEq

/-- SHA-256 of a text, in hexadecimal digits. -/
structure Sha256 where
  hex : CodeUnits → CodeUnits
  digits : ∀ s, ∀ u ∈ hex s, u ∈ lit "0123456789abcdef"

/-- The platform: whether the KV is bound, `toLowerCase` and the digest. -/
structure DownloadEnv where
  kvBound : Bool
  toLowerCase : CodeUnits → CodeUnits
  sha256 : Sha256

/-- A row of `download_hits`. -/
structure DownloadHit where
  hash : CodeUnits
  fileName : CodeUnits
  firstSeen : Nat
  deriving DecidableEq

/-- The table of D1, and the KV, whose texts are kept as the numbers they stand for. -/
structure DownloadStats where
  hits : List DownloadHit
  kv : ExpiringStore CodeUnits Nat

/-- `String(header || "unknown")`. -/
def headerOrUnknown (header : Option CodeUnits) : CodeUnits :=
  match header with
  | some (u :: text) => u :: text
  | _ => lit "unknown"

/-- What a downloader is: IP, user agent and file, as the code takes them. -/
def DownloadCall.triple (env : DownloadEnv) (c : DownloadCall) :
    CodeUnits × CodeUnits × CodeUnits :=
  (env.toLowerCase (headerOrUnknown c.ip), env.toLowerCase (headerOrUnknown c.userAgent),
    c.fileName)

/-- `${ip}|${ua}|${fileName}`. -/
def DownloadCall.text (env : DownloadEnv) (c : DownloadCall) : CodeUnits :=
  let (ip, ua, fileName) := c.triple env
  ip ++ lit "|" ++ ua ++ lit "|" ++ fileName

/-- The digest of the downloader. -/
def DownloadCall.hash (env : DownloadEnv) (c : DownloadCall) : CodeUnits :=
  env.sha256.hex (c.text env)

/-- `dl:${fileName}:${hex}`. -/
def downloadKey (fileName hex : CodeUnits) : CodeUnits :=
  lit "dl:" ++ fileName ++ lit ":" ++ hex

/-- Where the total is kept. -/
def totalKey : CodeUnits := lit "dl:total"

/-- Five years. -/
def downloadTtlSeconds : Nat := 60 * 60 * 24 * 365 * 5

namespace DownloadStats

/-- Nothing is recorded. -/
def empty : DownloadStats := ⟨[], .empty⟩

/-- `INSERT OR IGNORE INTO download_hits`. -/
def insertHit (hits : List DownloadHit) (hit : DownloadHit) : List DownloadHit :=
  if hit.hash ∈ hits.map DownloadHit.hash then hits else hits ++ [hit]

/-- The counter of the KV. -/
def kvTotal (s : DownloadStats) (t : Nat) : Option Nat := s.kv.get totalKey t

/-- `recordUniqueDownload`. -/
def recordUniqueDownload (env : DownloadEnv) (s : DownloadStats) (c : DownloadCall) :
    DownloadStats :=
  let hex := c.hash env
  if c.d1 = .working then
    { s with hits := insertHit s.hits ⟨hex, c.fileName.take 160, c.now⟩ }
  else if env.kvBound then
    let key := downloadKey c.fileName hex
    if (s.kv.get key c.now).isSome then s
    else
      let kv := s.kv.put key c.now (some downloadTtlSeconds) c.now
      let current := (kv.get totalKey c.now).getD 0
      { s with kv := kv.put totalKey (current + 1) none c.now }
  else s

/-- `readUniqueDownloadTotal` at time `t`. -/
def readUniqueDownloadTotal (env : DownloadEnv) (s : DownloadStats) (d1 : D1State) (t : Nat) :
    Option Nat :=
  let d1Total := if d1 = .working then some s.hits.length else none
  let kvTotal := if env.kvBound then s.kvTotal t else none
  if d1Total.isNone && kvTotal.isNone then none
  else some (d1Total.getD 0 + kvTotal.getD 0)

/-- The stores after the calls, one at a time, from empty stores on. -/
def recordAll (env : DownloadEnv) (calls : List DownloadCall) : DownloadStats :=
  calls.foldl (recordUniqueDownload env) empty

end DownloadStats

/-! ## The number of downloaders -/

/-- The path a call is recorded through, if it is. -/
inductive DownloadPath where
  | d1
  | kv
  deriving DecidableEq

/-- Which store records a call. -/
def DownloadCall.path (env : DownloadEnv) (c : DownloadCall) : Option DownloadPath :=
  if c.d1 = .working then some .d1 else if env.kvBound then some .kv else none

/-- The triples that were recorded through some path. -/
def recordedTriples (env : DownloadEnv) (calls : List DownloadCall) :
    Finset (CodeUnits × CodeUnits × CodeUnits) :=
  ((calls.filter fun c => (c.path env).isSome).map (DownloadCall.triple env)).toFinset

/-- Two calls, one after the other, that do not count one triple twice: not through
different paths, and not through the KV after the first key has expired. -/
def CountedOnce (env : DownloadEnv) (b c : DownloadCall) : Prop :=
  b.triple env = c.triple env → ∀ p ∈ b.path env, ∀ q ∈ c.path env,
    p = q ∧ (p = .kv → c.now < b.now + downloadTtlSeconds * 1000)

/-- Different triples of the calls have different digests. -/
def NoCollision (env : DownloadEnv) (calls : List DownloadCall) : Prop :=
  ∀ b ∈ calls, ∀ c ∈ calls, b.hash env = c.hash env → b.triple env = c.triple env

/-! ## Digests and keys -/

/-- Addresses and file names have no bar, so the text of a triple is its own. -/
theorem triple_of_text {env : DownloadEnv} {b c : DownloadCall}
    (hb : (0x7C : UInt16) ∉ (b.triple env).1 ∧ (0x7C : UInt16) ∉ b.fileName)
    (hc : (0x7C : UInt16) ∉ (c.triple env).1 ∧ (0x7C : UInt16) ∉ c.fileName)
    (h : b.text env = c.text env) : b.triple env = c.triple env := by
  have hbar : ∀ ip ua fileName : CodeUnits, ip ++ lit "|" ++ ua ++ lit "|" ++ fileName =
      ip ++ 0x7C :: (ua ++ 0x7C :: fileName) := by
    intro ip ua fileName
    rw [append_assoc, append_assoc, append_assoc]
    rfl
  unfold DownloadCall.text at h
  dsimp only at h
  rw [hbar, hbar] at h
  obtain ⟨hip, hrest⟩ := append_cons_inj_left hb.1 hc.1 h
  obtain ⟨hua, hfile⟩ := append_cons_inj_right hb.2 hc.2 hrest
  exact Prod.ext hip (Prod.ext hua hfile)

/-- Digests that tell the texts apart tell the triples apart. -/
theorem noCollision_of_digest {env : DownloadEnv} {calls : List DownloadCall}
    (hdigest : ∀ b ∈ calls, ∀ c ∈ calls, b.hash env = c.hash env → b.text env = c.text env)
    (hbar : ∀ c ∈ calls, (0x7C : UInt16) ∉ (c.triple env).1 ∧ (0x7C : UInt16) ∉ c.fileName) :
    NoCollision env calls :=
  fun b hb c hc hhash => triple_of_text (hbar b hb) (hbar c hc) (hdigest b hb c hc hhash)

theorem colon_not_mem_hash (env : DownloadEnv) (c : DownloadCall) :
    (0x3A : UInt16) ∉ c.hash env := by
  intro h
  exact absurd (env.sha256.digits _ _ h) (by decide)

/-- Different files or different digests have different keys. -/
theorem downloadKey_inj {env : DownloadEnv} {b c : DownloadCall}
    (h : downloadKey b.fileName (b.hash env) = downloadKey c.fileName (c.hash env)) :
    b.fileName = c.fileName ∧ b.hash env = c.hash env := by
  unfold downloadKey at h
  rw [append_assoc, append_assoc, append_assoc, append_assoc] at h
  exact append_cons_inj_right (colon_not_mem_hash env b) (colon_not_mem_hash env c)
    (append_cancel_left h)

theorem downloadKey_ne_totalKey (fileName hex : CodeUnits) :
    downloadKey fileName hex ≠ totalKey := by
  intro h
  unfold downloadKey at h
  rw [append_assoc, append_assoc] at h
  have hrest : fileName ++ (lit ":" ++ hex) = lit "total" :=
    append_cancel_left (h.trans (show totalKey = lit "dl:" ++ lit "total" by decide))
  have hcolon : (0x3A : UInt16) ∈ lit "total" := by
    rw [← hrest]
    exact mem_append_right _ mem_cons_self
  exact absurd hcolon (by decide)

/-! ## What one call does -/

namespace DownloadStats

section Step

variable {env : DownloadEnv} {s : DownloadStats} {c : DownloadCall}

/-- The key of a call in the KV. -/
def keyOf (env : DownloadEnv) (c : DownloadCall) : CodeUnits :=
  downloadKey c.fileName (c.hash env)

/-- The call is counted by the store it is recorded in. -/
def Counts (env : DownloadEnv) (s : DownloadStats) (c : DownloadCall) : Prop :=
  (c.path env = some .d1 ∧ c.hash env ∉ s.hits.map DownloadHit.hash) ∨
    (c.path env = some .kv ∧ s.kv.get (keyOf env c) c.now = none)

/-- The total of both stores at time `t`. -/
def total (s : DownloadStats) (t : Nat) : Nat := s.hits.length + (s.kvTotal t).getD 0

theorem path_eq_d1 : c.path env = some .d1 ↔ c.d1 = .working := by
  unfold DownloadCall.path
  by_cases hworking : c.d1 = .working
  · rw [if_pos hworking]
    exact ⟨fun _ => hworking, fun _ => rfl⟩
  · rw [if_neg hworking]
    refine ⟨fun hpath => ?_, fun hd1 => absurd hd1 hworking⟩
    split at hpath <;> cases hpath

theorem path_eq_kv : c.path env = some .kv ↔ c.d1 ≠ .working ∧ env.kvBound = true := by
  unfold DownloadCall.path
  by_cases hworking : c.d1 = .working
  · rw [if_pos hworking]
    refine ⟨fun hpath => ?_, fun hkv => absurd hworking hkv.1⟩
    cases hpath
  · rw [if_neg hworking]
    by_cases hbound : env.kvBound = true
    · rw [if_pos hbound]
      exact ⟨fun _ => ⟨hworking, hbound⟩, fun _ => rfl⟩
    · rw [if_neg hbound]
      refine ⟨fun hpath => ?_, fun hkv => absurd hkv.2 hbound⟩
      cases hpath

/-- A call through D1 inserts its row, unless it is there. -/
theorem record_d1 (h : c.path env = some .d1) :
    recordUniqueDownload env s c =
      { s with hits := insertHit s.hits ⟨c.hash env, c.fileName.take 160, c.now⟩ } := by
  rw [recordUniqueDownload]
  exact if_pos (path_eq_d1.1 h)

/-- A call through the KV that finds its key is over. -/
theorem record_kv_found (h : c.path env = some .kv)
    (hkey : s.kv.get (keyOf env c) c.now ≠ none) : recordUniqueDownload env s c = s := by
  obtain ⟨hd1, hbound⟩ := path_eq_kv.1 h
  rw [recordUniqueDownload]
  dsimp only
  rw [if_neg hd1, if_pos hbound]
  exact if_pos (Option.isSome_iff_ne_none.2 hkey)

/-- A call through the KV that does not find its key puts it, and adds one to the total. -/
theorem record_kv_new (h : c.path env = some .kv)
    (hkey : s.kv.get (keyOf env c) c.now = none) :
    recordUniqueDownload env s c =
      { s with
        kv := (s.kv.put (keyOf env c) c.now (some downloadTtlSeconds) c.now).put totalKey
          ((s.kvTotal c.now).getD 0 + 1) none c.now } := by
  obtain ⟨hd1, hbound⟩ := path_eq_kv.1 h
  have hnew : ¬ (s.kv.get (downloadKey c.fileName (c.hash env)) c.now).isSome = true := by
    rw [show s.kv.get (downloadKey c.fileName (c.hash env)) c.now = none from hkey]
    exact Bool.false_ne_true
  have hcurrent : (s.kv.put (keyOf env c) c.now (some downloadTtlSeconds) c.now).get totalKey
      c.now = s.kvTotal c.now :=
    get_put_of_ne _ (downloadKey_ne_totalKey _ _).symm ..
  rw [recordUniqueDownload]
  dsimp only
  rw [if_neg hd1, if_pos hbound, if_neg hnew, ← hcurrent]
  rfl

/-- A call that no path records changes nothing. -/
theorem record_none (h : c.path env = none) : recordUniqueDownload env s c = s := by
  have hd1 : c.d1 ≠ .working := by
    intro hworking
    rw [path_eq_d1.2 hworking] at h
    cases h
  have hbound : ¬ env.kvBound = true := by
    intro hbound
    rw [path_eq_kv.2 ⟨hd1, hbound⟩] at h
    cases h
  rw [recordUniqueDownload]
  dsimp only
  rw [if_neg hd1, if_neg hbound]

/-- **What a call does**: nothing, when it is not counted, and else a row more in D1, or
its key and one more in the total of the KV. -/
theorem record_cases (env : DownloadEnv) (s : DownloadStats) (c : DownloadCall) :
    (¬ Counts env s c ∧ recordUniqueDownload env s c = s) ∨
      (c.path env = some .d1 ∧ c.hash env ∉ s.hits.map DownloadHit.hash ∧
        recordUniqueDownload env s c =
          { s with hits := s.hits ++ [⟨c.hash env, c.fileName.take 160, c.now⟩] }) ∨
      (c.path env = some .kv ∧ s.kv.get (keyOf env c) c.now = none ∧
        recordUniqueDownload env s c =
          { s with
            kv := (s.kv.put (keyOf env c) c.now (some downloadTtlSeconds) c.now).put totalKey
              ((s.kvTotal c.now).getD 0 + 1) none c.now }) := by
  cases hpath : c.path env with
  | none =>
    refine Or.inl ⟨?_, record_none hpath⟩
    rintro (⟨hd1, -⟩ | ⟨hkv, -⟩)
    · rw [hpath] at hd1
      cases hd1
    · rw [hpath] at hkv
      cases hkv
  | some p =>
    cases p with
    | d1 =>
      have hrecord := record_d1 (s := s) hpath
      rw [insertHit] at hrecord
      by_cases hhit : c.hash env ∈ s.hits.map DownloadHit.hash
      · rw [if_pos hhit] at hrecord
        refine Or.inl ⟨?_, hrecord⟩
        rintro (⟨-, hnew⟩ | ⟨hkv, -⟩)
        · exact hnew hhit
        · rw [hpath] at hkv
          cases hkv
      · rw [if_neg hhit] at hrecord
        exact Or.inr (Or.inl ⟨rfl, hhit, hrecord⟩)
    | kv =>
      by_cases hkey : s.kv.get (keyOf env c) c.now = none
      · exact Or.inr (Or.inr ⟨rfl, hkey, record_kv_new hpath hkey⟩)
      · refine Or.inl ⟨?_, record_kv_found hpath hkey⟩
        rintro (⟨hd1, -⟩ | ⟨-, hnone⟩)
        · rw [hpath] at hd1
          cases hd1
        · exact hkey hnone

/-- The total that was put is read at any time. -/
theorem kvTotal_put (hits : List DownloadHit) (kv : ExpiringStore CodeUnits Nat)
    (n now t : Nat) : kvTotal ⟨hits, kv.put totalKey n none now⟩ t = some n :=
  get_put_none ..

/-- The total never expires. -/
def Stable (s : DownloadStats) : Prop := ∀ t t', s.kvTotal t = s.kvTotal t'

theorem stable_record (h : Stable s) : Stable (recordUniqueDownload env s c) := by
  rcases record_cases env s c with ⟨-, hsame⟩ | ⟨-, -, hrow⟩ | ⟨-, -, hput⟩
  · rw [hsame]
    exact h
  · rw [hrow]
    exact h
  · rw [hput]
    intro t t'
    rw [kvTotal_put, kvTotal_put]

open Classical in
/-- **A call adds one to the total when it is counted, and nothing otherwise.** -/
theorem total_record (h : Stable s) (t : Nat) :
    (recordUniqueDownload env s c).total t = s.total t + if Counts env s c then 1 else 0 := by
  rcases record_cases env s c with ⟨hcounts, hsame⟩ | ⟨hpath, hfresh, hrow⟩ | ⟨hpath, hkey, hput⟩
  · rw [hsame, if_neg hcounts, Nat.add_zero]
  · have hcounts : Counts env s c := Or.inl ⟨hpath, hfresh⟩
    rw [hrow, if_pos hcounts, total, length_append, length_singleton]
    show s.hits.length + 1 + (s.kvTotal t).getD 0 = total s t + 1
    rw [total]
    omega
  · have hcounts : Counts env s c := Or.inr ⟨hpath, hkey⟩
    rw [hput, if_pos hcounts, total, kvTotal_put, total, h t c.now]
    rfl

/-- A row is there after a call when it was there, or when the call goes through D1 and has
its digest. -/
theorem mem_hits_record (s : DownloadStats) (c : DownloadCall) (h : CodeUnits) :
    h ∈ (recordUniqueDownload env s c).hits.map DownloadHit.hash ↔
      h ∈ s.hits.map DownloadHit.hash ∨ (c.path env = some .d1 ∧ c.hash env = h) := by
  rcases record_cases env s c with ⟨hcounts, hsame⟩ | ⟨hpath, -, hrow⟩ | ⟨hpath, -, hput⟩
  · rw [hsame]
    constructor
    · exact Or.inl
    · rintro (hmem | ⟨hpath, rfl⟩)
      · exact hmem
      · by_contra hfresh
        exact hcounts (Or.inl ⟨hpath, hfresh⟩)
  · rw [hrow, map_append, mem_append, map_singleton, mem_singleton]
    exact or_congr_right ⟨fun heq => ⟨hpath, heq.symm⟩, fun hboth => hboth.2.symm⟩
  · rw [hput]
    constructor
    · exact Or.inl
    · rintro (hmem | ⟨hd1, -⟩)
      · exact hmem
      · rw [hpath] at hd1
        cases hd1

end Step

/-! ## What the stores know of the calls -/

section Run

variable {env : DownloadEnv}

theorem recordAll_concat (calls : List DownloadCall) (c : DownloadCall) :
    recordAll env (calls ++ [c]) = recordUniqueDownload env (recordAll env calls) c := by
  rw [recordAll, foldl_append]
  rfl

theorem stable_recordAll (calls : List DownloadCall) : Stable (recordAll env calls) := by
  induction calls using reverseRecOn with
  | nil => exact fun t t' => rfl
  | append_singleton calls c ih =>
    rw [recordAll_concat]
    exact stable_record ih

/-- The same triple has the same digest and the same key. -/
theorem hash_of_triple {b c : DownloadCall} (h : b.triple env = c.triple env) :
    b.hash env = c.hash env := by
  rw [DownloadCall.hash, DownloadCall.hash, DownloadCall.text, DownloadCall.text, h]

theorem keyOf_of_triple {b c : DownloadCall} (h : b.triple env = c.triple env) :
    keyOf env b = keyOf env c := by
  have hfile : b.fileName = c.fileName := congrArg (fun x => x.2.2) h
  rw [keyOf, keyOf, hash_of_triple h, hfile]

/-- D1 has the digests of the calls through D1. -/
theorem mem_hits_recordAll (calls : List DownloadCall) (h : CodeUnits) :
    h ∈ (recordAll env calls).hits.map DownloadHit.hash ↔
      ∃ b ∈ calls, b.path env = some .d1 ∧ b.hash env = h := by
  induction calls using reverseRecOn with
  | nil => simp [recordAll, empty]
  | append_singleton calls c ih =>
    rw [recordAll_concat, mem_hits_record, ih]
    simp only [mem_append, mem_singleton, or_and_right, exists_or, exists_eq_left]

/-- What a call does to the key of a downloader: it puts the key, when it is its own and
not live, and else leaves it alone. -/
theorem entries_record (s : DownloadStats) (b c : DownloadCall) :
    (recordUniqueDownload env s c).kv.entries (keyOf env b) = s.kv.entries (keyOf env b) ∨
      (c.path env = some .kv ∧ s.kv.get (keyOf env c) c.now = none ∧
        keyOf env c = keyOf env b ∧
        (recordUniqueDownload env s c).kv.entries (keyOf env b) =
          some (c.now, some (c.now + downloadTtlSeconds * 1000))) := by
  rcases record_cases env s c with ⟨-, hsame⟩ | ⟨-, -, hrow⟩ | ⟨hpath, hkey, hput⟩
  · rw [hsame]
    exact Or.inl rfl
  · rw [hrow]
    exact Or.inl rfl
  · have hentries : (recordUniqueDownload env s c).kv.entries (keyOf env b) =
        (s.kv.put (keyOf env c) c.now (some downloadTtlSeconds) c.now).entries (keyOf env b) := by
      rw [hput]
      exact entries_put_of_ne _ _ _ _ (downloadKey_ne_totalKey _ _)
    rw [hentries]
    by_cases hsame : keyOf env c = keyOf env b
    · refine Or.inr ⟨hpath, hkey, hsame, ?_⟩
      rw [hsame]
      exact entries_put_self ..
    · exact Or.inl (entries_put_of_ne _ _ _ _ (Ne.symm hsame))

/-- A key that is there was put by a call of its own digest. -/
theorem recorded_of_key {calls : List DownloadCall} {c : DownloadCall}
    (h : (recordAll env calls).kv.entries (keyOf env c) ≠ none) :
    ∃ b ∈ calls, b.path env = some .kv ∧ b.hash env = c.hash env := by
  induction calls using reverseRecOn with
  | nil => exact absurd rfl h
  | append_singleton calls b ih =>
    rw [recordAll_concat] at h
    rcases entries_record (recordAll env calls) c b with hsame | ⟨hpath, -, hkey, -⟩
    · rw [hsame] at h
      obtain ⟨b', hb', hrest⟩ := ih h
      exact ⟨b', mem_append_left _ hb', hrest⟩
    · exact ⟨b, mem_append_right _ mem_cons_self, hpath, (downloadKey_inj hkey).2⟩

/-- **The key of a downloader is the one its first call put**, as long as no triple is
counted twice. -/
theorem key_of_first {calls : List DownloadCall} (hcollision : NoCollision env calls)
    (hsorted : calls.Pairwise fun b c => b.now ≤ c.now)
    (honce : calls.Pairwise (CountedOnce env)) :
    ∀ b ∈ calls, b.path env = some .kv → ∃ b₀ ∈ calls, b₀.path env = some .kv ∧
      b₀.triple env = b.triple env ∧ b₀.now ≤ b.now ∧
      (recordAll env calls).kv.entries (keyOf env b) =
        some (b₀.now, some (b₀.now + downloadTtlSeconds * 1000)) := by
  induction calls using reverseRecOn with
  | nil => simp
  | append_singleton calls c ih =>
    have hleft : ∀ b ∈ calls, b ∈ calls ++ [c] := fun b hb => mem_append_left _ hb
    have hc : c ∈ calls ++ [c] := mem_append_right _ mem_cons_self
    obtain ⟨hsorted, -, hbefore⟩ := pairwise_append.1 hsorted
    obtain ⟨honce, -, hcounted⟩ := pairwise_append.1 honce
    have hrest := ih (fun b hb d hd => hcollision b (hleft b hb) d (hleft d hd)) hsorted honce
    intro b hb hpath
    rw [recordAll_concat]
    rcases mem_append.1 hb with hb | hb
    · -- a call before the last one: its key is live, so the last call leaves it alone
      obtain ⟨b₀, hb₀, hpath₀, htriple₀, hle₀, hentry₀⟩ := hrest b hb hpath
      refine ⟨b₀, hleft b₀ hb₀, hpath₀, htriple₀, hle₀, ?_⟩
      rcases entries_record (recordAll env calls) b c with hsame | ⟨hpathc, hdead, hkey, -⟩
      · rw [hsame, hentry₀]
      · exfalso
        have htriple : b.triple env = c.triple env :=
          hcollision b (hleft b hb) c hc (downloadKey_inj hkey).2.symm
        have hlive := (hcounted b₀ hb₀ c mem_cons_self (htriple₀.trans htriple) .kv
          hpath₀ .kv hpathc).2 rfl
        rw [hkey, get_of_entry hentry₀, if_pos hlive] at hdead
        cases hdead
    · -- the last call
      obtain rfl := mem_singleton.1 hb
      rcases entries_record (recordAll env calls) b b with hsame | ⟨-, -, -, hput⟩
      · rw [hsame]
        by_cases hentry : (recordAll env calls).kv.entries (keyOf env b) = none
        · exfalso
          have hdead := get_of_entry_none hentry b.now
          rw [record_kv_new hpath hdead, hentry] at hsame
          rw [show (((recordAll env calls).kv.put (keyOf env b) b.now
            (some downloadTtlSeconds) b.now).put totalKey
              (((recordAll env calls).kvTotal b.now).getD 0 + 1) none b.now).entries
                (keyOf env b) = _ from
              entries_put_of_ne _ _ _ _ (downloadKey_ne_totalKey _ _),
            entries_put_self] at hsame
          cases hsame
        · obtain ⟨d, hd, hpathd, hhash⟩ := recorded_of_key hentry
          have htriple : d.triple env = b.triple env :=
            hcollision d (hleft d hd) b hc hhash
          obtain ⟨b₀, hb₀, hpath₀, htriple₀, hle₀, hentry₀⟩ := hrest d hd hpathd
          rw [keyOf_of_triple htriple] at hentry₀
          exact ⟨b₀, hleft b₀ hb₀, hpath₀, htriple₀.trans htriple,
            hbefore b₀ hb₀ b mem_cons_self, hentry₀⟩
      · exact ⟨b, hc, hpath, rfl, Nat.le_refl _, hput⟩

/-! ### One call more -/

/-- A call that records a triple for the first time. -/
def New (env : DownloadEnv) (calls : List DownloadCall) (c : DownloadCall) : Prop :=
  (c.path env).isSome ∧ c.triple env ∉ recordedTriples env calls

theorem mem_recordedTriples {calls : List DownloadCall}
    {x : CodeUnits × CodeUnits × CodeUnits} :
    x ∈ recordedTriples env calls ↔
      ∃ b ∈ calls, (b.path env).isSome ∧ b.triple env = x := by
  simp only [recordedTriples, mem_toFinset, mem_map, mem_filter, and_assoc]

open Classical in
theorem card_recordedTriples_concat (calls : List DownloadCall) (c : DownloadCall) :
    (recordedTriples env (calls ++ [c])).card =
      (recordedTriples env calls).card + if New env calls c then 1 else 0 := by
  by_cases hpath : (c.path env).isSome
  · have hinsert : recordedTriples env (calls ++ [c]) =
        insert (c.triple env) (recordedTriples env calls) := by
      ext x
      simp only [mem_recordedTriples, Finset.mem_insert, mem_append, mem_singleton,
        or_and_right, exists_or, exists_eq_left, hpath, true_and]
      rw [or_comm, eq_comm]
    rw [hinsert]
    by_cases hmem : c.triple env ∈ recordedTriples env calls
    · have hold : ¬ New env calls c := fun hnew => hnew.2 hmem
      rw [Finset.card_insert_of_mem hmem, if_neg hold, Nat.add_zero]
    · have hnew : New env calls c := ⟨hpath, hmem⟩
      rw [Finset.card_insert_of_notMem hmem, if_pos hnew]
  · have hsame : recordedTriples env (calls ++ [c]) = recordedTriples env calls := by
      ext x
      simp only [mem_recordedTriples, mem_append, mem_singleton, or_and_right,
        exists_or, exists_eq_left, hpath, false_and, or_false, Bool.false_eq_true]
    have hold : ¬ New env calls c := fun hnew => hpath hnew.1
    rw [hsame, if_neg hold, Nat.add_zero]

/-- Two calls that do not record one triple through different paths. -/
def SamePath (env : DownloadEnv) (b c : DownloadCall) : Prop :=
  b.triple env = c.triple env → ∀ p ∈ b.path env, ∀ q ∈ c.path env, p = q

instance : Std.Symm (SamePath env) where
  symm _ _ h hcb p hp q hq := (h hcb.symm q hq p hp).symm

section Concat

variable {calls : List DownloadCall} {c : DownloadCall}

/-- A digest that D1 or the KV knows is the digest of a triple that was recorded. -/
theorem mem_recordedTriples_of_hash (hcollision : NoCollision env (calls ++ [c]))
    {b : DownloadCall} (hb : b ∈ calls) (hpath : (b.path env).isSome)
    (hhash : b.hash env = c.hash env) : c.triple env ∈ recordedTriples env calls :=
  mem_recordedTriples.2 ⟨b, hb, hpath, hcollision b (mem_append_left _ hb) c
    (mem_append_right _ mem_cons_self) hhash⟩

theorem counts_of_new (hcollision : NoCollision env (calls ++ [c])) (hnew : New env calls c) :
    Counts env (recordAll env calls) c := by
  obtain ⟨hsome, hfresh⟩ := hnew
  obtain ⟨p, hpath⟩ := Option.isSome_iff_exists.1 hsome
  cases p with
  | d1 =>
    refine Or.inl ⟨hpath, fun hhit => ?_⟩
    obtain ⟨b, hb, hpathb, hhash⟩ := (mem_hits_recordAll calls _).1 hhit
    have hsomeb : (b.path env).isSome := Option.isSome_iff_exists.2 ⟨_, hpathb⟩
    exact hfresh (mem_recordedTriples_of_hash hcollision hb hsomeb hhash)
  | kv =>
    refine Or.inr ⟨hpath, ?_⟩
    by_contra hfound
    have hentry : (recordAll env calls).kv.entries (keyOf env c) ≠ none := fun hnone =>
      hfound (get_of_entry_none hnone c.now)
    obtain ⟨b, hb, hpathb, hhash⟩ := recorded_of_key hentry
    have hsomeb : (b.path env).isSome := Option.isSome_iff_exists.2 ⟨_, hpathb⟩
    exact hfresh (mem_recordedTriples_of_hash hcollision hb hsomeb hhash)

theorem path_eq_of_pairwise (honce : calls.Pairwise (CountedOnce env)) {b d : DownloadCall}
    (hb : b ∈ calls) (hd : d ∈ calls) (htriple : b.triple env = d.triple env)
    {p q : DownloadPath} (hp : b.path env = some p) (hq : d.path env = some q) : p = q := by
  have hself : ∀ x ∈ calls, SamePath env x x := by
    intro x _ _ p hp q hq
    exact Option.some.inj (hp.symm.trans hq)
  have hpairs : calls.Pairwise (SamePath env) :=
    honce.imp fun hxy htriple p hp q hq => (hxy htriple p hp q hq).1
  exact hpairs.forall_of_forall hself hb hd htriple p hp q hq

/-- **A call counts new triples only, just if it is counted once with every call before
it.** -/
theorem new_of_counts_iff (hcollision : NoCollision env (calls ++ [c]))
    (hsorted : calls.Pairwise fun b d => b.now ≤ d.now)
    (honce : calls.Pairwise (CountedOnce env)) :
    (Counts env (recordAll env calls) c → New env calls c) ↔
      ∀ b ∈ calls, CountedOnce env b c := by
  have hleft : ∀ b ∈ calls, b ∈ calls ++ [c] := fun b hb => mem_append_left _ hb
  have hc : c ∈ calls ++ [c] := mem_append_right _ mem_cons_self
  have hfirst := key_of_first
    (fun b hb d hd => hcollision b (hleft b hb) d (hleft d hd)) hsorted honce
  constructor
  · -- the triple is not new, so the call is not counted: its store knows the digest
    intro himp b hb htriple p hp q hq
    have hold : ¬ New env calls c := fun hnew =>
      hnew.2 (mem_recordedTriples.2 ⟨b, hb, Option.isSome_iff_exists.2 ⟨p, hp⟩, htriple⟩)
    have hnot := mt himp hold
    cases q with
    | d1 =>
      have hhit : c.hash env ∈ (recordAll env calls).hits.map DownloadHit.hash := by
        by_contra hfresh
        exact hnot (Or.inl ⟨hq, hfresh⟩)
      obtain ⟨d, hd, hpathd, hhash⟩ := (mem_hits_recordAll calls _).1 hhit
      have htripled : d.triple env = c.triple env := hcollision d (hleft d hd) c hc hhash
      have hpq : p = .d1 :=
        path_eq_of_pairwise honce hb hd (htriple.trans htripled.symm) hp hpathd
      refine ⟨hpq, fun hkv => ?_⟩
      rw [hpq] at hkv
      cases hkv
    | kv =>
      have hlive : (recordAll env calls).kv.get (keyOf env c) c.now ≠ none := by
        intro hdead
        exact hnot (Or.inr ⟨hq, hdead⟩)
      have hentry : (recordAll env calls).kv.entries (keyOf env c) ≠ none := fun hnone =>
        hlive (get_of_entry_none hnone c.now)
      obtain ⟨d, hd, hpathd, hhash⟩ := recorded_of_key hentry
      have htripled : d.triple env = c.triple env := hcollision d (hleft d hd) c hc hhash
      have hpq : p = .kv :=
        path_eq_of_pairwise honce hb hd (htriple.trans htripled.symm) hp hpathd
      refine ⟨hpq, fun _ => ?_⟩
      rw [hpq] at hp
      obtain ⟨b₀, -, -, -, hle₀, hentry₀⟩ := hfirst b hb hp
      rw [keyOf_of_triple htriple] at hentry₀
      have hfound : c.now < b₀.now + downloadTtlSeconds * 1000 := by
        by_contra hlate
        rw [get_of_entry hentry₀, if_neg hlate] at hlive
        exact hlive rfl
      exact Nat.lt_of_lt_of_le hfound (Nat.add_le_add_right hle₀ _)
  · -- the triple is in the store of its path, as a call before it is counted once with it
    intro hpairs hcounts
    have hsome : (c.path env).isSome := by
      rcases hcounts with ⟨hpath, -⟩ | ⟨hpath, -⟩ <;> rw [hpath] <;> rfl
    refine ⟨hsome, fun hmem => ?_⟩
    obtain ⟨b, hb, hsomeb, htriple⟩ := mem_recordedTriples.1 hmem
    obtain ⟨p, hp⟩ := Option.isSome_iff_exists.1 hsomeb
    rcases hcounts with ⟨hpath, hfresh⟩ | ⟨hpath, hdead⟩
    · rw [(hpairs b hb htriple p hp .d1 hpath).1] at hp
      exact hfresh ((mem_hits_recordAll calls _).2 ⟨b, hb, hp, hash_of_triple htriple⟩)
    · rw [(hpairs b hb htriple p hp .kv hpath).1] at hp
      obtain ⟨b₀, hb₀, hpath₀, htriple₀, -, hentry₀⟩ := hfirst b hb hp
      have hlive := (hpairs b₀ hb₀ (htriple₀.trans htriple) .kv hpath₀ .kv hpath).2 rfl
      rw [keyOf_of_triple htriple] at hentry₀
      rw [get_of_entry hentry₀, if_pos hlive] at hdead
      cases hdead

end Concat

/-- **The total is at least the number of the triples, and it is that number just if no
triple is counted twice.** -/
theorem total_recordAll (calls : List DownloadCall) (hcollision : NoCollision env calls)
    (hsorted : calls.Pairwise fun b c => b.now ≤ c.now) (t : Nat) :
    (recordedTriples env calls).card ≤ (recordAll env calls).total t ∧
      ((recordAll env calls).total t = (recordedTriples env calls).card ↔
        calls.Pairwise (CountedOnce env)) := by
  classical
  induction calls using reverseRecOn with
  | nil => exact ⟨Nat.zero_le _, iff_of_true rfl List.Pairwise.nil⟩
  | append_singleton calls c ih =>
    have hfront := (pairwise_append.1 hsorted).1
    obtain ⟨hle, hiff⟩ := ih (fun b hb d hd => hcollision b (mem_append_left _ hb) d
      (mem_append_left _ hd)) hfront
    have hnew := counts_of_new hcollision
    rw [recordAll_concat, total_record (stable_recordAll calls), card_recordedTriples_concat,
      pairwise_append]
    simp only [mem_singleton, forall_eq, pairwise_singleton, true_and]
    have hstep : (recordAll env calls).total t +
        (if Counts env (recordAll env calls) c then 1 else 0) =
          (recordedTriples env calls).card + (if New env calls c then 1 else 0) ↔
        (recordAll env calls).total t = (recordedTriples env calls).card ∧
          (Counts env (recordAll env calls) c → New env calls c) := by
      by_cases hn : New env calls c
      · rw [if_pos (hnew hn), if_pos hn, Nat.add_right_cancel_iff]
        exact (and_iff_left fun _ => hn).symm
      · rw [if_neg hn]
        by_cases hcounts : Counts env (recordAll env calls) c
        · rw [if_pos hcounts]
          refine iff_of_false (fun heq => by omega) fun hboth => hn (hboth.2 hcounts)
        · rw [if_neg hcounts, Nat.add_right_cancel_iff]
          exact (and_iff_left fun hc => absurd hc hcounts).symm
    constructor
    · by_cases hn : New env calls c
      · rw [if_pos (hnew hn), if_pos hn]
        omega
      · rw [if_neg hn]
        omega
    · rw [hstep, hiff]
      exact and_congr_right fun honce => new_of_counts_iff hcollision hfront honce

theorem kvTotal_of_unbound (hbound : env.kvBound = false) (calls : List DownloadCall)
    (t : Nat) : (recordAll env calls).kvTotal t = none := by
  induction calls using reverseRecOn with
  | nil => rfl
  | append_singleton calls c ih =>
    rw [recordAll_concat]
    cases hpath : c.path env with
    | none =>
      rw [record_none hpath]
      exact ih
    | some p =>
      cases p with
      | d1 =>
        rw [record_d1 hpath]
        exact ih
      | kv =>
        rw [(path_eq_kv.1 hpath).2] at hbound
        cases hbound

/-- With D1 readable, both totals are added. -/
theorem readUniqueDownloadTotal_working (calls : List DownloadCall) (t : Nat) :
    readUniqueDownloadTotal env (recordAll env calls) .working t =
      some ((recordAll env calls).total t) := by
  cases hbound : env.kvBound with
  | false =>
    have hkv := kvTotal_of_unbound hbound calls t
    simp [readUniqueDownloadTotal, hbound, total, hkv]
  | true => simp [readUniqueDownloadTotal, hbound, total]

/-- **The total that is read is the number of the downloaders just if no downloader is
recorded through both stores, or through the KV again once its key has expired.**  Here
SHA-256 tells the texts of the calls apart, and addresses and file names have no bar. -/
theorem uniqueTotal_iff (env : DownloadEnv) (calls : List DownloadCall)
    (hsorted : calls.Pairwise fun b c => b.now ≤ c.now)
    (hdigest : ∀ b ∈ calls, ∀ c ∈ calls, b.hash env = c.hash env → b.text env = c.text env)
    (hbar : ∀ c ∈ calls, (0x7C : UInt16) ∉ (c.triple env).1 ∧ (0x7C : UInt16) ∉ c.fileName)
    (t : Nat) :
    readUniqueDownloadTotal env (recordAll env calls) .working t =
        some (recordedTriples env calls).card ↔
      calls.Pairwise (CountedOnce env) := by
  rw [readUniqueDownloadTotal_working, Option.some.injEq]
  exact (total_recordAll calls (noCollision_of_digest hdigest hbar) hsorted t).2

end Run

/-! ## A downloader in both stores -/

/-- A digest that knows two downloaders. -/
def sampleSha256 : Sha256 where
  hex s :=
    if s = lit "203.0.113.7|okhttp/4|xydesk.apk" then
      lit "9d72c2a7a99d280ef3eda9af93709ce1eaf80290a8ce768360699841380c8f95"
    else if s = lit "203.0.113.8|okhttp/4|xydesk.apk" then
      lit "df1fae3df9caf225b5dc7d50eb32cd1de7ce55085932c237018890b9e50b7673"
    else []
  digits s := by
    split
    · decide
    · split <;> decide

/-- `toLowerCase` on ASCII texts. -/
def asciiLowerCase (s : CodeUnits) : CodeUnits :=
  s.map fun u => if 0x41 ≤ u ∧ u ≤ 0x5A then u + 0x20 else u

/-- An environment. -/
def sampleDownloadEnv : DownloadEnv := ⟨true, asciiLowerCase, sampleSha256⟩

/-- A download of the client by the address that ends in the digit. -/
def sampleDownload (digit : String) (now : Nat) (d1 : D1State) : DownloadCall where
  ip := some (lit "203.0.113." ++ lit digit)
  userAgent := some (lit "OkHttp/4")
  fileName := lit "xydesk.apk"
  now := now
  d1 := d1

/-- One downloader counts twice: D1 fails at the first download, and works at the second. -/
theorem uniqueTotal_bothStores :
    let calls := [sampleDownload "7" 0 .failing, sampleDownload "7" 1000 .working]
    (recordedTriples sampleDownloadEnv calls).card = 1 ∧
      readUniqueDownloadTotal sampleDownloadEnv (recordAll sampleDownloadEnv calls) .working
        2000 = some 2 :=
  ⟨by decide, by decide⟩

theorem uniqueTotal_twoDownloaders :
    readUniqueDownloadTotal sampleDownloadEnv (recordAll sampleDownloadEnv
        [sampleDownload "7" 0 .failing, sampleDownload "8" 1000 .working]) .working 2000 =
        some (recordedTriples sampleDownloadEnv
          [sampleDownload "7" 0 .failing, sampleDownload "8" 1000 .working]).card ↔
      [sampleDownload "7" 0 .failing, sampleDownload "8" 1000 .working].Pairwise
        (CountedOnce sampleDownloadEnv) :=
  uniqueTotal_iff sampleDownloadEnv _ (by decide) (by decide) (by decide) 2000

end DownloadStats
