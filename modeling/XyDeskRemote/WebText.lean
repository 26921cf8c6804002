/-
# Text and bytes on the web platform

Strings are lists of UTF-16 code units and buffers lists of bytes.  This file has the
conversions of the platform between them, from their standards:

* `Utf8.encode` (unpaired surrogates become U+FFFD) and `Utf8.decode`, which never
  fails and replaces every ill-formed part by U+FFFD; `Utf8.decodeText` also drops a
  leading byte order mark, as `TextDecoder` and `Response.text()` do;
* `Base64.btoa` and `Base64.atob`, the forgiving decoder, with their round trip
  (`atob_btoa`).
-/
import Mathlib.Data.List.Basic

open List UInt8 Nat

/-- A string of the platform, by its UTF-16 code units. -/
abbrev CodeUnits := List UInt16

instance : LawfulBEq CodeUnits := inferInstance

/-- What holds of every unit of a text, or every byte of a buffer, is checked one by one;
trying all values of the type takes too long. -/
instance (priority := high) decidableForallMem {α : Type*} {p : α → Prop} [DecidablePred p]
    (text : List α) : Decidable (∀ u ∈ text, p u) :=
  decidableBAll p text

/-! ## UTF-8 -/

namespace Utf8

/-- U+FFFD as a code unit. -/
def replacement : UInt16 := 0xFFFD

/-- A byte of the multi-byte forms: the marker bits and six bits of payload. -/
def tailByte (n : Nat) : UInt8 := UInt8.ofNat (0x80 + n % 64)

/-- The bytes of a scalar value. -/
def encodeScalar (cp : Nat) : List UInt8 :=
  if cp < 0x80 then [UInt8.ofNat cp]
  else if cp < 0x800 then [UInt8.ofNat (0xC0 + cp / 64), tailByte cp]
  else if cp < 0x10000 then [UInt8.ofNat (0xE0 + cp / 4096), tailByte (cp / 64), tailByte cp]
  else [UInt8.ofNat (0xF0 + cp / 262144), tailByte (cp / 4096), tailByte (cp / 64), tailByte cp]

/-- The first unit of a pair. -/
def isHighSurrogate (u : UInt16) : Bool := 0xD800 ≤ u && u ≤ 0xDBFF

/-- The second unit of a pair. -/
def isLowSurrogate (u : UInt16) : Bool := 0xDC00 ≤ u && u ≤ 0xDFFF

/-- The scalar value of a surrogate pair. -/
def pairScalar (high low : UInt16) : Nat :=
  0x10000 + (high.toNat - 0xD800) * 1024 + (low.toNat - 0xDC00)

/-- The UTF-8 bytes of a string. -/
def encode : CodeUnits → List UInt8
  | [] => []
  | [u] =>
    if isHighSurrogate u || isLowSurrogate u then encodeScalar 0xFFFD
    else encodeScalar u.toNat
  | u :: v :: rest =>
    if isHighSurrogate u then
      if isLowSurrogate v then encodeScalar (pairScalar u v) ++ encode rest
      else encodeScalar 0xFFFD ++ encode (v :: rest)
    else if isLowSurrogate u then encodeScalar 0xFFFD ++ encode (v :: rest)
    else encodeScalar u.toNat ++ encode (v :: rest)

/-- Where the decoder is inside a character: nowhere, or `needed` more bytes to come,
the next one between `lower` and `upper`. -/
inductive State where
  | start
  | inside (needed lower upper codePoint : Nat)
  deriving DecidableEq

/-- The code units of a scalar value. -/
def units (cp : Nat) : CodeUnits :=
  if cp < 0x10000 then [UInt16.ofNat cp]
  else [UInt16.ofNat (0xD800 + (cp - 0x10000) / 1024),
      UInt16.ofNat (0xDC00 + (cp - 0x10000) % 1024)]

/-- The first byte of a character: what it emits and where it leads. -/
def leadByte (b : Nat) : CodeUnits × State :=
  if b < 0x80 then ([UInt16.ofNat b], .start)
  else if 0xC2 ≤ b ∧ b ≤ 0xDF then ([], .inside 1 0x80 0xBF (b - 0xC0))
  else if 0xE0 ≤ b ∧ b ≤ 0xEF then
    ([], .inside 2 (if b = 0xE0 then 0xA0 else 0x80) (if b = 0xED then 0x9F else 0xBF) (b - 0xE0))
  else if 0xF0 ≤ b ∧ b ≤ 0xF4 then
    ([], .inside 3 (if b = 0xF0 then 0x90 else 0x80) (if b = 0xF4 then 0x8F else 0xBF) (b - 0xF0))
  else ([replacement], .start)

/-- One byte of the decoder.  A byte that does not continue the character ends it with
U+FFFD and is read again as a first byte. -/
def decodeByte : State → Nat → CodeUnits × State
  | .start, b => leadByte b
  | .inside needed lower upper codePoint, b =>
    if lower ≤ b ∧ b ≤ upper then
      let codePoint := codePoint * 64 + b % 64
      if needed = 1 then (units codePoint, .start)
      else ([], .inside (needed - 1) 0x80 0xBF codePoint)
    else (replacement :: (leadByte b).1, (leadByte b).2)

/-- The decoder from a state on; a character cut short by the end is U+FFFD. -/
def decodeFrom : State → List UInt8 → CodeUnits
  | .start, [] => []
  | .inside _ _ _ _, [] => [replacement]
  | st, b :: rest => (decodeByte st b.toNat).1 ++ decodeFrom (decodeByte st b.toNat).2 rest

/-- The text of a buffer. -/
def decode (bytes : List UInt8) : CodeUnits := decodeFrom .start bytes

/-- The text of a buffer without its byte order mark. -/
def decodeText : List UInt8 → CodeUnits
  | 0xEF :: 0xBB :: 0xBF :: rest => decode rest
  | bytes => decode bytes

/-! ### A text is not longer than its bytes -/

/-- The bytes a character in progress has certainly used: only the four byte form
gets that far with so large a code point. -/
def State.used : State → Nat
  | .start => 0
  | .inside 1 _ _ codePoint => if 0x400 ≤ codePoint then 3 else 1
  | .inside 2 _ _ codePoint => if 0x10 ≤ codePoint then 2 else 1
  | .inside _ _ _ _ => 1

theorem length_units_le (cp : Nat) : (units cp).length ≤ if cp < 0x10000 then 1 else 2 := by
  unfold units
  split <;> simp

theorem leadByte_bound (b : Nat) : (leadByte b).1.length + (leadByte b).2.used ≤ 1 := by
  unfold leadByte
  split
  · exact Nat.le_refl 1
  · split
    · simp only [State.used]
      rw [if_neg (by omega)]
      exact Nat.le_refl 1
    · split
      · simp only [State.used]
        rw [if_neg (by omega)]
        exact Nat.le_refl 1
      · split
        · exact Nat.le_refl 1
        · exact Nat.le_refl 1

/-- A character in progress has used at least one byte. -/
theorem used_inside_pos (needed lower upper codePoint : Nat) :
    1 ≤ (State.inside needed lower upper codePoint).used := by
  match needed with
  | 0 => exact Nat.le_refl 1
  | 1 =>
    simp only [State.used]
    split <;> omega
  | 2 =>
    simp only [State.used]
    split <;> omega
  | n + 3 => exact Nat.le_refl 1

/-- The byte that ends a character pays for what it emits. -/
theorem units_bound (lower upper codePoint b : Nat) :
    (units (codePoint * 64 + b % 64)).length ≤
      (State.inside 1 lower upper codePoint).used + 1 := by
  have hunits := length_units_le (codePoint * 64 + b % 64)
  simp only [State.used]
  split at hunits <;> split <;> omega

/-- A byte inside a character uses one more byte. -/
theorem used_next (needed lower upper codePoint b : Nat) (hneeded : needed ≠ 1) :
    (State.inside (needed - 1) 0x80 0xBF (codePoint * 64 + b % 64)).used ≤
      (State.inside needed lower upper codePoint).used + 1 := by
  match needed with
  | 0 => exact le_succ 1
  | 1 => exact absurd rfl hneeded
  | 2 =>
    simp only [State.used]
    split <;> split <;> omega
  | 3 =>
    simp only [State.used]
    split <;> omega
  | n + 4 => exact le_succ 1

/-- A byte pays for one code unit, on top of those already paid for. -/
theorem decodeByte_bound (st : State) (b : Nat) :
    (decodeByte st b).1.length + (decodeByte st b).2.used ≤ st.used + 1 := by
  have hlead := leadByte_bound b
  cases st with
  | start =>
    show (leadByte b).1.length + (leadByte b).2.used ≤ 0 + 1
    omega
  | inside needed lower upper codePoint =>
    have hused := used_inside_pos needed lower upper codePoint
    unfold decodeByte
    dsimp only
    split
    · split
      · next hlast =>
          subst hlast
          exact units_bound lower upper codePoint b
      · next hmore =>
          rw [length_nil, Nat.zero_add]
          exact used_next needed lower upper codePoint b hmore
    · -- the broken character becomes one replacement, and the byte is read again
      show ((leadByte b).1.length + 1) + (leadByte b).2.used ≤ _
      omega

theorem length_decodeFrom_le (st : State) (bytes : List UInt8) :
    (decodeFrom st bytes).length ≤ bytes.length + st.used := by
  induction bytes generalizing st with
  | nil =>
    cases st with
    | start => exact Nat.le_refl 0
    | inside needed lower upper codePoint =>
      have hused := used_inside_pos needed lower upper codePoint
      show 1 ≤ 0 + _
      omega
  | cons b rest ih =>
    have hbyte := decodeByte_bound st b.toNat
    have hrest := ih (decodeByte st b.toNat).2
    have hunfold : decodeFrom st (b :: rest) =
        (decodeByte st b.toNat).1 ++ decodeFrom (decodeByte st b.toNat).2 rest := by
      cases st <;> rfl
    rw [hunfold, length_append, length_cons]
    omega

/-- **A text is not longer than its bytes.** -/
theorem length_decodeText_le (bytes : List UInt8) :
    (decodeText bytes).length ≤ bytes.length := by
  unfold decodeText
  split
  · next rest =>
      have h := length_decodeFrom_le .start rest
      rw [length_cons, length_cons, length_cons]
      -- a byte order mark is dropped
      show (decodeFrom .start rest).length ≤ _
      have hused : State.start.used = 0 := rfl
      omega
  · exact length_decodeFrom_le .start bytes

end Utf8

/-! ## Base64 -/

namespace Base64

/-- The code unit of six bits. -/
def digit (n : Nat) : UInt16 :=
  if n < 26 then UInt16.ofNat (0x41 + n)
  else if n < 52 then UInt16.ofNat (0x61 + (n - 26))
  else if n < 62 then UInt16.ofNat (0x30 + (n - 52))
  else if n = 62 then 0x2B else 0x2F

/-- The six bits of a code unit. -/
def value (u : UInt16) : Option Nat :=
  let n := u.toNat
  if 0x41 ≤ n ∧ n ≤ 0x5A then some (n - 0x41)
  else if 0x61 ≤ n ∧ n ≤ 0x7A then some (n - 0x61 + 26)
  else if 0x30 ≤ n ∧ n ≤ 0x39 then some (n - 0x30 + 52)
  else if n = 0x2B then some 62
  else if n = 0x2F then some 63
  else none

/-- Three bytes in four groups of six bits, the last group padded with zero bits. -/
def toSextets : List UInt8 → List Nat
  | a :: b :: c :: rest =>
    a.toNat / 4 :: (a.toNat % 4 * 16 + b.toNat / 16) ::
      (b.toNat % 16 * 4 + c.toNat / 64) :: c.toNat % 64 :: toSextets rest
  | [a, b] => [a.toNat / 4, a.toNat % 4 * 16 + b.toNat / 16, b.toNat % 16 * 4]
  | [a] => [a.toNat / 4, a.toNat % 4 * 16]
  | [] => []

/-- Four groups of six bits in three bytes; what a short last quantum leaves over is
discarded. -/
def ofSextets : List Nat → List UInt8
  | w :: x :: y :: z :: rest =>
    UInt8.ofNat (w * 4 + x / 16) :: UInt8.ofNat (x % 16 * 16 + y / 4) ::
      UInt8.ofNat (y % 4 * 64 + z) :: ofSextets rest
  | [w, x, y] => [UInt8.ofNat (w * 4 + x / 16), UInt8.ofNat (x % 16 * 16 + y / 4)]
  | [w, x] => [UInt8.ofNat (w * 4 + x / 16)]
  | _ => []

/-- The padding. -/
def equalsSign : UInt16 := 0x3D

/-- `btoa` of the string with these bytes. -/
def btoa (bytes : List UInt8) : CodeUnits :=
  (toSextets bytes).map digit ++ replicate ((3 - bytes.length % 3) % 3) equalsSign

/-- ASCII whitespace. -/
def isSpace (u : UInt16) : Bool :=
  u = 0x09 || u = 0x0A || u = 0x0C || u = 0x0D || u = 0x20

/-- Remove one or two equals signs from the end of a string of whole quanta. -/
def dropPadding (s : CodeUnits) : CodeUnits :=
  if s.length % 4 ≠ 0 then s
  else
    match s.reverse with
    | last :: before :: rest =>
      if last ≠ equalsSign then s
      else if before ≠ equalsSign then (before :: rest).reverse
      else rest.reverse
    | _ => s

/-- The groups of six bits of a string of digits. -/
def values : CodeUnits → Option (List Nat)
  | [] => some []
  | u :: us => (value u).bind fun n => (values us).map (n :: ·)

/-- The bytes of the string `atob` returns, `none` where it throws. -/
def atob (s : CodeUnits) : Option (List UInt8) :=
  let s := dropPadding (s.filter fun u => !isSpace u)
  if s.length % 4 = 1 then none else (values s).map ofSextets

/-! ### The round trip -/

theorem toSextets_lt : ∀ (bytes : List UInt8), ∀ n ∈ toSextets bytes, n < 64
  | a :: b :: c :: rest => by
    have ha := a.toNat_lt
    have hb := b.toNat_lt
    have hc := c.toNat_lt
    intro n hn
    rw [toSextets, mem_cons, mem_cons, mem_cons, mem_cons] at hn
    rcases hn with rfl | rfl | rfl | rfl | hn
    · omega
    · omega
    · omega
    · omega
    · exact toSextets_lt rest n hn
  | [a, b] => by
    have ha := a.toNat_lt
    have hb := b.toNat_lt
    intro n hn
    rw [toSextets, mem_cons, mem_cons, mem_singleton] at hn
    rcases hn with rfl | rfl | rfl <;> omega
  | [a] => by
    have ha := a.toNat_lt
    intro n hn
    rw [toSextets, mem_cons, mem_singleton] at hn
    rcases hn with rfl | rfl <;> omega
  | [] => by
    intro n hn
    cases hn

/-- The groups carry the bytes. -/
theorem ofSextets_toSextets : ∀ bytes : List UInt8, ofSextets (toSextets bytes) = bytes
  | a :: b :: c :: rest => by
    have ha := a.toNat_lt
    have hb := b.toNat_lt
    have hc := c.toNat_lt
    rw [toSextets, ofSextets, ofSextets_toSextets rest]
    have h1 : a.toNat / 4 * 4 + (a.toNat % 4 * 16 + b.toNat / 16) / 16 = a.toNat := by omega
    have h2 : (a.toNat % 4 * 16 + b.toNat / 16) % 16 * 16 +
        (b.toNat % 16 * 4 + c.toNat / 64) / 4 = b.toNat := by omega
    have h3 : (b.toNat % 16 * 4 + c.toNat / 64) % 4 * 64 + c.toNat % 64 = c.toNat := by omega
    rw [h1, h2, h3, UInt8.ofNat_toNat, UInt8.ofNat_toNat, UInt8.ofNat_toNat]
  | [a, b] => by
    have ha := a.toNat_lt
    have hb := b.toNat_lt
    have h1 : a.toNat / 4 * 4 + (a.toNat % 4 * 16 + b.toNat / 16) / 16 = a.toNat := by omega
    have h2 : (a.toNat % 4 * 16 + b.toNat / 16) % 16 * 16 + b.toNat % 16 * 4 / 4 = b.toNat := by
      omega
    rw [toSextets, ofSextets, h1, h2, UInt8.ofNat_toNat, UInt8.ofNat_toNat]
  | [a] => by
    have ha := a.toNat_lt
    have h1 : a.toNat / 4 * 4 + a.toNat % 4 * 16 / 16 = a.toNat := by omega
    rw [toSextets, ofSextets, h1, UInt8.ofNat_toNat]
  | [] => rfl

/-- Two digits stand for one byte left over, three for two. -/
theorem length_toSextets : ∀ bytes : List UInt8,
    (toSextets bytes).length = bytes.length / 3 * 4 +
      (if bytes.length % 3 = 0 then 0 else bytes.length % 3 + 1)
  | a :: b :: c :: rest => by
    have ih := length_toSextets rest
    rw [toSextets, length_cons, length_cons, length_cons, length_cons, ih]
    simp only [length_cons]
    have hdiv : (rest.length + 1 + 1 + 1) / 3 = rest.length / 3 + 1 := by omega
    have hmod : (rest.length + 1 + 1 + 1) % 3 = rest.length % 3 := by omega
    rw [hdiv, hmod]
    omega
  | [a, b] => by simp [toSextets]
  | [a] => by simp [toSextets]
  | [] => rfl

/-- A digit is read back; it is neither white space nor padding. -/
theorem value_digit : ∀ n < 64, value (digit n) = some n := by decide

theorem digit_plain : ∀ n < 64, isSpace (digit n) = false ∧ digit n ≠ equalsSign := by decide

theorem values_map_digit {ns : List Nat} (h : ∀ n ∈ ns, n < 64) :
    values (ns.map digit) = some ns := by
  induction ns with
  | nil => rfl
  | cons n ns ih =>
    rw [map_cons, values, value_digit n (h n mem_cons_self), Option.bind_some,
      ih fun m hm => h m (mem_cons_of_mem n hm), Option.map_some]

/-- Padding after whole digits is removed. -/
theorem dropPadding_padded {s : CodeUnits} {pad : Nat} (hpad : pad ≤ 2)
    (hlen : (s.length + pad) % 4 = 0) (hs : ∀ u ∈ s, u ≠ equalsSign) :
    dropPadding (s ++ replicate pad equalsSign) = s := by
  unfold dropPadding
  rw [if_neg (by rw [length_append, length_replicate]; omega), reverse_append, reverse_replicate]
  match pad with
  | 0 =>
    -- nothing to remove: the last character is a digit
    rw [replicate_zero, nil_append, append_nil]
    split
    · next last before rest hrev =>
        have hlast : last ∈ s := by
          rw [← mem_reverse, hrev]
          exact mem_cons_self
        rw [if_pos (hs last hlast)]
    · rfl
  | 1 =>
    cases hrev : s.reverse with
    | nil =>
      rw [reverse_eq_nil_iff.1 hrev] at hlen
      cases hlen
    | cons before rest =>
      have hbefore : before ∈ s := by
        rw [← mem_reverse, hrev]
        exact mem_cons_self
      show (if equalsSign ≠ equalsSign then _ else
        if before ≠ equalsSign then (before :: rest).reverse else _) = s
      rw [if_neg (by simp), if_pos (hs before hbefore), ← hrev, reverse_reverse]
  | 2 =>
    show (if equalsSign ≠ equalsSign then _ else
      if equalsSign ≠ equalsSign then _ else s.reverse.reverse) = s
    rw [if_neg (by simp), if_neg (by simp), reverse_reverse]
  | n + 3 => omega

/-- **The round trip of a buffer.** -/
theorem atob_btoa (bytes : List UInt8) : atob (btoa bytes) = some bytes := by
  have hlt := toSextets_lt bytes
  have hlen := length_toSextets bytes
  have hdigits : ∀ u ∈ (toSextets bytes).map digit, isSpace u = false ∧ u ≠ equalsSign := by
    intro u hu
    obtain ⟨n, hn, rfl⟩ := mem_map.1 hu
    exact digit_plain n (hlt n hn)
  have hfilter : (btoa bytes).filter (fun u => !isSpace u) = btoa bytes := by
    rw [filter_eq_self]
    intro u hu
    rcases mem_append.1 hu with hu | hu
    · rw [(hdigits u hu).1]
      rfl
    · rw [(mem_replicate.1 hu).2]
      rfl
  -- the padding fills the last quantum up
  have hquanta : (((toSextets bytes).map digit).length + (3 - bytes.length % 3) % 3) % 4 = 0 := by
    rw [length_map, hlen]
    split <;> omega
  have hdrop : dropPadding (btoa bytes) = (toSextets bytes).map digit :=
    dropPadding_padded (by omega) hquanta fun u hu => (hdigits u hu).2
  unfold atob
  dsimp only
  rw [hfilter, hdrop, values_map_digit hlt, Option.map_some, ofSextets_toSextets, if_neg]
  rw [length_map, hlen]
  split <;> omega

/-! ### A decoded buffer is not longer than its base64 text -/

theorem length_ofSextets_le : ∀ ns : List Nat, (ofSextets ns).length ≤ ns.length
  | w :: x :: y :: z :: rest => by
    have ih := length_ofSextets_le rest
    rw [ofSextets]
    simp only [length_cons]
    omega
  | [w, x, y] => le_succ 2
  | [w, x] => le_succ 1
  | [w] => zero_le 1
  | [] => Nat.le_refl 0

theorem length_values {s : CodeUnits} : ∀ {ns : List Nat}, values s = some ns →
    ns.length = s.length := by
  induction s with
  | nil =>
    intro ns h
    obtain rfl := Option.some.inj h
    rfl
  | cons u us ih =>
    intro ns h
    rw [values, Option.bind_eq_some_iff] at h
    obtain ⟨n, -, h⟩ := h
    obtain ⟨ms, hms, rfl⟩ := Option.map_eq_some_iff.1 h
    rw [length_cons, length_cons, ih hms]

theorem length_dropPadding_le (s : CodeUnits) : (dropPadding s).length ≤ s.length := by
  unfold dropPadding
  split
  · exact Nat.le_refl _
  · split
    · next last before rest hrev =>
        have hlen : s.length = rest.length + 2 := by
          rw [← length_reverse, hrev]
          rfl
        split
        · exact Nat.le_refl _
        · split
          · rw [length_reverse, length_cons]
            omega
          · rw [length_reverse]
            omega
    · exact Nat.le_refl _

/-- **A decoded buffer is not longer than its text.** -/
theorem length_atob_le {s : CodeUnits} {bytes : List UInt8} (h : atob s = some bytes) :
    bytes.length ≤ s.length := by
  unfold atob at h
  dsimp only at h
  split at h
  · cases h
  · obtain ⟨ns, hns, rfl⟩ := Option.map_eq_some_iff.1 h
    calc (ofSextets ns).length ≤ ns.length := length_ofSextets_le ns
      _ = (dropPadding (s.filter fun u => !isSpace u)).length := length_values hns
      _ ≤ (s.filter fun u => !isSpace u).length := length_dropPadding_le _
      _ ≤ s.length := length_filter_le _ s

end Base64
