/-
# The UTF-8 round trip

A text is well formed when its surrogates come in pairs.  On such a text the JVM's
`toByteArray(UTF_8)` (`Utf8.javaEncode`, which writes `?` for a lone surrogate) and its
decoder undo each other (`decode_javaEncode`).

The proof follows the encoder: one scalar value at a time, by the number of its bytes
(`decode_encodeScalar`).
-/
import XyDeskRemote.WebText

open List UInt16

namespace Utf8

/-! ## Well-formed texts -/

/-- Every high surrogate is followed by a low one, and no low one stands alone. -/
def WellFormed : CodeUnits → Prop
  | [] => True
  | [u] => isHighSurrogate u = false ∧ isLowSurrogate u = false
  | u :: v :: rest =>
    if isHighSurrogate u then isLowSurrogate v = true ∧ WellFormed rest
    else isLowSurrogate u = false ∧ WellFormed (v :: rest)

/-- `toByteArray(Charsets.UTF_8)`: like `encode`, with `?` for a lone surrogate. -/
def javaEncode : CodeUnits → List UInt8
  | [] => []
  | [u] =>
    if isHighSurrogate u || isLowSurrogate u then [0x3F]
    else encodeScalar u.toNat
  | u :: v :: rest =>
    if isHighSurrogate u then
      if isLowSurrogate v then encodeScalar (pairScalar u v) ++ javaEncode rest
      else 0x3F :: javaEncode (v :: rest)
    else if isLowSurrogate u then 0x3F :: javaEncode (v :: rest)
    else encodeScalar u.toNat ++ javaEncode (v :: rest)

/-! ## Decoding one scalar value -/

/-- Unicode scalar values: code points that are not surrogates. -/
def IsScalar (cp : Nat) : Prop := cp < 0xD800 ∨ (0xE000 ≤ cp ∧ cp < 0x110000)

theorem decodeFrom_cons (st : State) (b : UInt8) (rest : List UInt8) :
    decodeFrom st (b :: rest) =
      (decodeByte st b.toNat).1 ++ decodeFrom (decodeByte st b.toNat).2 rest := by
  cases st <;> rfl

theorem toNat_tailByte (n : Nat) : (tailByte n).toNat = 0x80 + n % 64 := by
  rw [tailByte, UInt8.toNat_ofNat', Nat.mod_eq_of_lt]
  omega

/-- The byte that ends a character. -/
theorem decodeFrom_last {lower upper codePoint n : Nat} (hlower : lower ≤ 0x80 + n % 64)
    (hupper : 0x80 + n % 64 ≤ upper) (rest : List UInt8) :
    decodeFrom (.inside 1 lower upper codePoint) (tailByte n :: rest) =
      units (codePoint * 64 + n % 64) ++ decodeFrom .start rest := by
  have hmod : (0x80 + n % 64) % 64 = n % 64 := by omega
  rw [decodeFrom_cons, toNat_tailByte, decodeByte, if_pos ⟨hlower, hupper⟩, if_pos rfl, hmod]

/-- A byte in the middle of a character. -/
theorem decodeFrom_more {needed lower upper codePoint n : Nat} (hlower : lower ≤ 0x80 + n % 64)
    (hupper : 0x80 + n % 64 ≤ upper) (rest : List UInt8) :
    decodeFrom (.inside (needed + 2) lower upper codePoint) (tailByte n :: rest) =
      decodeFrom (.inside (needed + 1) 0x80 0xBF (codePoint * 64 + n % 64)) rest := by
  have hmod : (0x80 + n % 64) % 64 = n % 64 := by omega
  rw [decodeFrom_cons, toNat_tailByte, decodeByte, if_pos ⟨hlower, hupper⟩, if_neg (by omega), hmod]
  rfl

/-- The first byte of a character decides the state. -/
theorem decodeFrom_lead {b : Nat} (hb : b < 256) (rest : List UInt8) :
    decodeFrom .start (UInt8.ofNat b :: rest) =
      (leadByte b).1 ++ decodeFrom (leadByte b).2 rest := by
  rw [decodeFrom_cons, UInt8.toNat_ofNat', Nat.mod_eq_of_lt hb]
  rfl

theorem leadByte_two {b : Nat} (hlo : 0xC2 ≤ b) (hhi : b ≤ 0xDF) :
    leadByte b = ([], .inside 1 0x80 0xBF (b - 0xC0)) := by
  rw [leadByte, if_neg (by omega), if_pos ⟨hlo, hhi⟩]

theorem leadByte_three {b : Nat} (hlo : 0xE0 ≤ b) (hhi : b ≤ 0xEF) :
    leadByte b = ([], .inside 2 (if b = 0xE0 then 0xA0 else 0x80)
      (if b = 0xED then 0x9F else 0xBF) (b - 0xE0)) := by
  rw [leadByte, if_neg (by omega), if_neg (by omega), if_pos ⟨hlo, hhi⟩]

theorem leadByte_four {b : Nat} (hlo : 0xF0 ≤ b) (hhi : b ≤ 0xF4) :
    leadByte b = ([], .inside 3 (if b = 0xF0 then 0x90 else 0x80)
      (if b = 0xF4 then 0x8F else 0xBF) (b - 0xF0)) := by
  rw [leadByte, if_neg (by omega), if_neg (by omega), if_neg (by omega), if_pos ⟨hlo, hhi⟩]

/-- **The decoder reads a scalar value from its bytes.** -/
theorem decode_encodeScalar {cp : Nat} (h : IsScalar cp) (rest : List UInt8) :
    decodeFrom .start (encodeScalar cp ++ rest) = units cp ++ decodeFrom .start rest := by
  unfold IsScalar at h
  unfold encodeScalar
  split
  · next hone =>
      rw [singleton_append, decodeFrom_lead (by omega), leadByte, if_pos hone, units,
        if_pos (by omega)]
  · split
    · next htwo =>
        have hcp : cp / 64 * 64 + cp % 64 = cp := by omega
        rw [cons_append, singleton_append, decodeFrom_lead (by omega),
          leadByte_two (by omega) (by omega), nil_append,
          decodeFrom_last (by omega) (by omega), Nat.add_sub_cancel_left, hcp]
    · split
      · next hthree =>
          have hcp : (cp / 4096 * 64 + cp / 64 % 64) * 64 + cp % 64 = cp := by omega
          have hlower : (if 0xE0 + cp / 4096 = 0xE0 then 0xA0 else 0x80) ≤
              0x80 + cp / 64 % 64 := by
            split <;> omega
          have hupper : 0x80 + cp / 64 % 64 ≤
              (if 0xE0 + cp / 4096 = 0xED then 0x9F else 0xBF) := by
            split <;> omega
          rw [cons_append, cons_append, singleton_append,
            decodeFrom_lead (by omega), leadByte_three (by omega) (by omega), nil_append,
            decodeFrom_more hlower hupper, decodeFrom_last (by omega) (by omega),
            Nat.add_sub_cancel_left, hcp]
      · next hfour =>
          have hcp : ((cp / 262144 * 64 + cp / 4096 % 64) * 64 + cp / 64 % 64) * 64 +
              cp % 64 = cp := by omega
          have hlower : (if 0xF0 + cp / 262144 = 0xF0 then 0x90 else 0x80) ≤
              0x80 + cp / 4096 % 64 := by
            split <;> omega
          have hupper : 0x80 + cp / 4096 % 64 ≤
              (if 0xF0 + cp / 262144 = 0xF4 then 0x8F else 0xBF) := by
            split <;> omega
          rw [cons_append, cons_append, cons_append, singleton_append,
            decodeFrom_lead (by omega), leadByte_four (by omega) (by omega), nil_append,
            decodeFrom_more hlower hupper, decodeFrom_more (by omega) (by omega),
            decodeFrom_last (by omega) (by omega), Nat.add_sub_cancel_left, hcp]

/-! ## Code units and scalar values -/

theorem isHighSurrogate_iff {u : UInt16} :
    isHighSurrogate u = true ↔ 0xD800 ≤ u.toNat ∧ u.toNat ≤ 0xDBFF := by
  rw [isHighSurrogate, Bool.and_eq_true, decide_eq_true_iff, decide_eq_true_iff]
  rfl

theorem isLowSurrogate_iff {u : UInt16} :
    isLowSurrogate u = true ↔ 0xDC00 ≤ u.toNat ∧ u.toNat ≤ 0xDFFF := by
  rw [isLowSurrogate, Bool.and_eq_true, decide_eq_true_iff, decide_eq_true_iff]
  rfl

theorem units_single {u : UInt16} (hhigh : ¬ isHighSurrogate u = true)
    (hlow : ¬ isLowSurrogate u = true) : IsScalar u.toNat ∧ units u.toNat = [u] := by
  rw [isHighSurrogate_iff] at hhigh
  rw [isLowSurrogate_iff] at hlow
  have hu : u.toNat < 65536 := u.toNat_lt
  constructor
  · unfold IsScalar
    omega
  · rw [units, if_pos hu, UInt16.ofNat_toNat]

theorem units_pair {u v : UInt16} (hhigh : isHighSurrogate u = true)
    (hlow : isLowSurrogate v = true) :
    IsScalar (pairScalar u v) ∧ units (pairScalar u v) = [u, v] := by
  rw [isHighSurrogate_iff] at hhigh
  rw [isLowSurrogate_iff] at hlow
  have hu : 0xD800 + (pairScalar u v - 0x10000) / 1024 = u.toNat := by
    unfold pairScalar
    omega
  have hv : 0xDC00 + (pairScalar u v - 0x10000) % 1024 = v.toNat := by
    unfold pairScalar
    omega
  constructor
  · unfold IsScalar pairScalar
    omega
  · rw [units, if_neg (by unfold pairScalar; omega), hu, hv, UInt16.ofNat_toNat, UInt16.ofNat_toNat]

/-! ## The round trip -/

/-- A well-formed text is made of units that are no surrogates and of pairs of surrogates. -/
@[elab_as_elim]
theorem wellFormed_induct {motive : CodeUnits → Prop} (hnil : motive [])
    (hsingle : ∀ {u rest}, ¬ isHighSurrogate u = true → ¬ isLowSurrogate u = true →
      motive rest → motive (u :: rest))
    (hpair : ∀ {u v rest}, isHighSurrogate u = true → isLowSurrogate v = true →
      motive rest → motive (u :: v :: rest)) {s : CodeUnits} (h : WellFormed s) : motive s := by
  induction s using javaEncode.induct with
  | case1 => exact hnil
  | case2 u hsurrogate =>
    rw [WellFormed] at h
    rw [h.1, h.2] at hsurrogate
    exact absurd hsurrogate (by decide)
  | case3 u hplain =>
    rw [WellFormed] at h
    exact hsingle (by rw [h.1]; decide) (by rw [h.2]; decide) hnil
  | case4 u v rest hhigh hlow ih =>
    rw [WellFormed, if_pos hhigh] at h
    exact hpair hhigh hlow (ih h.2)
  | case5 u v rest hhigh hlow ih =>
    rw [WellFormed, if_pos hhigh] at h
    exact absurd h.1 hlow
  | case6 u v rest hhigh hlow ih =>
    rw [WellFormed, if_neg hhigh, hlow] at h
    exact absurd h.1 (by decide)
  | case7 u v rest hhigh hlow ih =>
    rw [WellFormed, if_neg hhigh] at h
    exact hsingle hhigh hlow (ih h.2)

/-- A unit that is no surrogate is encoded by itself. -/
theorem javaEncode_single {u : UInt16} (hhigh : ¬ isHighSurrogate u = true)
    (hlow : ¬ isLowSurrogate u = true) (rest : CodeUnits) :
    javaEncode (u :: rest) = encodeScalar u.toNat ++ javaEncode rest := by
  cases rest <;> simp [javaEncode, hhigh, hlow]

/-- **A well-formed text survives the trip through its bytes.** -/
theorem decode_javaEncode {s : CodeUnits} (h : WellFormed s) : decode (javaEncode s) = s := by
  unfold decode
  refine wellFormed_induct rfl (fun {u rest} hhigh hlow ih => ?_)
    (fun {u v rest} hhigh hlow ih => ?_) h
  · have hu := units_single hhigh hlow
    rw [javaEncode_single hhigh hlow, decode_encodeScalar hu.1, hu.2, ih]
    rfl
  · have hpair := units_pair hhigh hlow
    rw [javaEncode, if_pos hhigh, if_pos hlow, decode_encodeScalar hpair.1, hpair.2, ih]
    rfl

/-! ## Any text through `encode` -/

/-- A text with U+FFFD for every surrogate that stands alone. -/
def toWellFormed : CodeUnits → CodeUnits
  | [] => []
  | [u] => if isHighSurrogate u || isLowSurrogate u then [replacement] else [u]
  | u :: v :: rest =>
    if isHighSurrogate u then
      if isLowSurrogate v then u :: v :: toWellFormed rest
      else replacement :: toWellFormed (v :: rest)
    else if isLowSurrogate u then replacement :: toWellFormed (v :: rest)
    else u :: toWellFormed (v :: rest)

theorem decode_replacement (rest : List UInt8) :
    decodeFrom .start (encodeScalar 0xFFFD ++ rest) = replacement :: decodeFrom .start rest :=
  decode_encodeScalar (Or.inr ⟨by decide, by decide⟩) rest

/-- **What `encode` writes is read back as the text without its lone surrogates.** -/
theorem decode_encode (s : CodeUnits) : decode (encode s) = toWellFormed s := by
  unfold decode
  induction s using encode.induct with
  | case1 => rfl
  | case2 u hsurrogate =>
    rw [encode, if_pos hsurrogate, toWellFormed, if_pos hsurrogate]
    exact decode_replacement []
  | case3 u hplain =>
    rw [Bool.or_eq_true, not_or] at hplain
    have hu := units_single hplain.1 hplain.2
    rw [encode, toWellFormed, if_neg (by simpa using hplain), if_neg (by simpa using hplain),
      ← append_nil (encodeScalar u.toNat), decode_encodeScalar hu.1, hu.2]
    rfl
  | case4 u v rest hhigh hlow ih =>
    have hpair := units_pair hhigh hlow
    rw [encode, if_pos hhigh, if_pos hlow, toWellFormed, if_pos hhigh, if_pos hlow,
      decode_encodeScalar hpair.1, hpair.2, ih]
    rfl
  | case5 u v rest hhigh hlow ih =>
    rw [encode, if_pos hhigh, if_neg hlow, toWellFormed, if_pos hhigh, if_neg hlow,
      decode_replacement, ih]
  | case6 u v rest hhigh hlow ih =>
    rw [encode, if_neg hhigh, if_pos hlow, toWellFormed, if_neg hhigh, if_pos hlow,
      decode_replacement, ih]
  | case7 u v rest hhigh hlow ih =>
    have hu := units_single hhigh hlow
    rw [encode, if_neg hhigh, if_neg hlow, toWellFormed, if_neg hhigh, if_neg hlow,
      decode_encodeScalar hu.1, hu.2, ih]
    rfl

/-- The bytes do not tell a lone surrogate from U+FFFD. -/
theorem encode_toWellFormed (s : CodeUnits) : encode (toWellFormed s) = encode s := by
  have hreplacement : ∀ rest, encode (replacement :: rest) =
      encodeScalar 0xFFFD ++ encode rest := by
    intro rest
    cases rest with
    | nil => rfl
    | cons v rest => rfl
  induction s using encode.induct with
  | case1 => rfl
  | case2 u hlone =>
    rw [toWellFormed, if_pos hlone, hreplacement, encode.eq_2, if_pos hlone]
    rfl
  | case3 u hplain => rw [toWellFormed, if_neg hplain]
  | case4 u v rest hhigh hlow ih =>
    rw [toWellFormed, if_pos hhigh, if_pos hlow, encode, if_pos hhigh, if_pos hlow, ih, encode,
      if_pos hhigh, if_pos hlow]
  | case5 u v rest hhigh hlow ih =>
    rw [toWellFormed, if_pos hhigh, if_neg hlow, hreplacement, ih, encode, if_pos hhigh,
      if_neg hlow]
  | case6 u v rest hhigh hlow ih =>
    rw [toWellFormed, if_neg hhigh, if_pos hlow, hreplacement, ih, encode, if_neg hhigh,
      if_pos hlow]
  | case7 u v rest hhigh hlow ih =>
    have hcons : ∀ t, encode (u :: t) = encodeScalar u.toNat ++ encode t := by
      intro t
      cases t with
      | nil =>
        have hplain : ¬ (isHighSurrogate u || isLowSurrogate u) = true := by
          rw [Bool.or_eq_true, not_or]
          exact ⟨hhigh, hlow⟩
        rw [encode.eq_2, if_neg hplain]
        exact (append_nil _).symm
      | cons w t => rw [encode, if_neg hhigh, if_neg hlow]
    rw [toWellFormed, if_neg hhigh, if_neg hlow, hcons, hcons, ih]

/-- A property of code units that U+FFFD and the surrogates do not have is counted alike
before and after. -/
theorem countP_toWellFormed {p : UInt16 → Bool} (hreplacement : p replacement = false)
    (hsurrogate : ∀ u, isHighSurrogate u = true ∨ isLowSurrogate u = true → p u = false)
    (s : CodeUnits) : (toWellFormed s).countP p = s.countP p := by
  induction s using toWellFormed.induct with
  | case1 => rfl
  | case2 u hlone =>
    rw [Bool.or_eq_true] at hlone
    rw [toWellFormed, if_pos (by simpa using hlone), countP_singleton,
      countP_singleton, hreplacement, hsurrogate u hlone]
  | case3 u hplain => rw [toWellFormed, if_neg hplain]
  | case4 u v rest hhigh hlow ih =>
    rw [toWellFormed, if_pos hhigh, if_pos hlow, countP_cons, countP_cons,
      countP_cons, countP_cons, ih]
  | case5 u v rest hhigh hlow ih =>
    have hu := hsurrogate u (Or.inl hhigh)
    rw [toWellFormed, if_pos hhigh, if_neg hlow, countP_cons, ih, hreplacement,
      countP_cons (a := u), hu]
  | case6 u v rest hhigh hlow ih =>
    have hu := hsurrogate u (Or.inr hlow)
    rw [toWellFormed, if_neg hhigh, if_pos hlow, countP_cons, ih, hreplacement,
      countP_cons (a := u), hu]
  | case7 u v rest hhigh hlow ih =>
    rw [toWellFormed, if_neg hhigh, if_neg hlow, countP_cons, ih, countP_cons (a := u)]

theorem length_toWellFormed (s : CodeUnits) : (toWellFormed s).length = s.length := by
  induction s using toWellFormed.induct with
  | case1 => rfl
  | case2 u hlone => rw [toWellFormed, if_pos hlone, length_singleton, length_singleton]
  | case3 u hplain => rw [toWellFormed, if_neg hplain]
  | case4 u v rest hhigh hlow ih =>
    rw [toWellFormed, if_pos hhigh, if_pos hlow, length_cons, length_cons, ih]
    rfl
  | case5 u v rest hhigh hlow ih =>
    rw [toWellFormed, if_pos hhigh, if_neg hlow, length_cons, ih]
    rfl
  | case6 u v rest hhigh hlow ih =>
    rw [toWellFormed, if_neg hhigh, if_pos hlow, length_cons, ih]
    rfl
  | case7 u v rest hhigh hlow ih =>
    rw [toWellFormed, if_neg hhigh, if_neg hlow, length_cons, ih]
    rfl

/-! ## ASCII between other bytes -/

/-- Inside a character the decoder waits for a byte that is not ASCII. -/
def State.HighOnly : State → Prop
  | .start => True
  | .inside _ lower _ _ => 0x80 ≤ lower

theorem highOnly_start : State.start.HighOnly := trivial

theorem highOnly_leadByte (b : Nat) : (leadByte b).2.HighOnly := by
  unfold leadByte
  split
  · trivial
  · split
    · exact Nat.le_refl 0x80
    · split
      · show 0x80 ≤ if b = 0xE0 then 0xA0 else 0x80
        split <;> omega
      · split
        · show 0x80 ≤ if b = 0xF0 then 0x90 else 0x80
          split <;> omega
        · trivial

theorem highOnly_decodeByte (st : State) (b : Nat) : (decodeByte st b).2.HighOnly := by
  cases st with
  | start => exact highOnly_leadByte b
  | inside needed lower upper codePoint =>
    rw [decodeByte]
    split
    · by_cases hlast : needed = 1
      · rw [if_pos hlast]
        trivial
      · rw [if_neg hlast]
        exact Nat.le_refl 0x80
    · exact highOnly_leadByte b

/-- An ASCII byte ends what was there and stands for itself. -/
theorem decodeFrom_ascii_cons {st : State} (hst : st.HighOnly) {b : UInt8} (hb : b.toNat < 0x80)
    (rest : List UInt8) :
    decodeFrom st (b :: rest) =
      decodeFrom st [] ++ UInt16.ofNat b.toNat :: decodeFrom .start rest := by
  rw [decodeFrom_cons]
  have hlead : leadByte b.toNat = ([UInt16.ofNat b.toNat], .start) := if_pos hb
  cases st with
  | start =>
    rw [decodeByte, hlead]
    rfl
  | inside needed lower upper codePoint =>
    have hlower : 0x80 ≤ lower := hst
    rw [decodeByte, if_neg (by omega), hlead]
    rfl

theorem decodeFrom_append_cons {st : State} (hst : st.HighOnly) (x : List UInt8) {b : UInt8}
    (hb : b.toNat < 0x80) (y : List UInt8) :
    decodeFrom st (x ++ b :: y) =
      decodeFrom st x ++ UInt16.ofNat b.toNat :: decodeFrom .start y := by
  induction x generalizing st with
  | nil => exact decodeFrom_ascii_cons hst hb y
  | cons a x ih =>
    rw [cons_append, decodeFrom_cons, decodeFrom_cons, ih (highOnly_decodeByte ..), append_assoc]

/-- The code units of ASCII bytes. -/
def asciiUnits (s : List UInt8) : CodeUnits := s.map fun b => UInt16.ofNat b.toNat

theorem decode_ascii_append {s : List UInt8} (hs : ∀ b ∈ s, b.toNat < 0x80) (y : List UInt8) :
    decode (s ++ y) = asciiUnits s ++ decode y := by
  induction s with
  | nil => rfl
  | cons b s ih =>
    have hrest := ih fun b' hb' => hs b' (mem_cons_of_mem b hb')
    have hfirst : decodeFrom .start (b :: (s ++ y)) =
        [] ++ UInt16.ofNat b.toNat :: decodeFrom .start (s ++ y) :=
      decodeFrom_ascii_cons highOnly_start (hs b mem_cons_self) (s ++ y)
    rw [decode] at hrest
    rw [decode, cons_append, hfirst, hrest]
    rfl

/-- **ASCII text keeps its surroundings apart**: what stands before it is decoded as if it
stood alone, however ill-formed it is. -/
theorem decode_append_ascii (x : List UInt8) {s : List UInt8} (hne : s ≠ [])
    (hs : ∀ b ∈ s, b.toNat < 0x80) (y : List UInt8) :
    decode (x ++ (s ++ y)) = decode x ++ (asciiUnits s ++ decode y) := by
  cases s with
  | nil => exact absurd rfl hne
  | cons b s =>
    have hrest := decode_ascii_append (fun b' hb' => hs b' (mem_cons_of_mem b hb')) y
    have hfirst : decodeFrom .start (x ++ b :: (s ++ y)) =
        decodeFrom .start x ++ UInt16.ofNat b.toNat :: decodeFrom .start (s ++ y) :=
      decodeFrom_append_cons highOnly_start x (hs b mem_cons_self) (s ++ y)
    rw [decode] at hrest
    rw [decode, cons_append, hfirst, hrest]
    rfl

theorem length_units_pos (cp : Nat) : 1 ≤ (units cp).length := by
  unfold units
  split
  · exact Nat.le_refl 1
  · exact Nat.le_succ 1

theorem length_decodeFrom_inside_pos (needed lower upper codePoint : Nat) (y : List UInt8) :
    1 ≤ (decodeFrom (.inside needed lower upper codePoint) y).length := by
  induction y generalizing needed lower upper codePoint with
  | nil => exact Nat.le_refl 1
  | cons b y ih =>
    rw [decodeFrom_cons, length_append, decodeByte]
    split
    · by_cases hlast : needed = 1
      · rw [if_pos hlast]
        exact Nat.le_add_right_of_le (length_units_pos _)
      · rw [if_neg hlast]
        exact Nat.le_add_left_of_le (ih ..)
    · exact Nat.le_add_right_of_le (Nat.le_add_left 1 _)

/-- A prefix is decoded to no more than the whole. -/
theorem length_decodeFrom_append (st : State) (x y : List UInt8) :
    (decodeFrom st x).length ≤ (decodeFrom st (x ++ y)).length := by
  induction x generalizing st with
  | nil =>
    cases st with
    | start => exact Nat.zero_le _
    | inside needed lower upper codePoint =>
      exact length_decodeFrom_inside_pos needed lower upper codePoint y
  | cons b x ih =>
    rw [cons_append, decodeFrom_cons, decodeFrom_cons, length_append, length_append]
    exact Nat.add_le_add_left (ih _) _

/-- A text that loses the ASCII character at its end loses it in the decoded text, too. -/
theorem length_decode_take_lt {x : List UInt8} {b : UInt8} (hb : b.toNat < 0x80) {k : Nat}
    (hk : k ≤ x.length) : (decode ((x ++ [b]).take k)).length < (decode (x ++ [b])).length := by
  have htake : (x ++ [b]).take k = x.take k := take_append_of_le_length hk
  have hprefix := length_decodeFrom_append .start (x.take k) (x.drop k)
  rw [take_append_drop] at hprefix
  have hwhole : decodeFrom .start (x ++ [b]) =
      decodeFrom .start x ++ UInt16.ofNat b.toNat :: [] :=
    decodeFrom_append_cons highOnly_start x hb []
  rw [htake, decode, decode, hwhole, length_append]
  simp only [length_cons]
  omega

end Utf8
