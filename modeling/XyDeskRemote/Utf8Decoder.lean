/-
# The UTF-8 decoder of WinPR

`winpr_ConvertUTF8toUTF16_Internal`, from `unicode_builtin.c`.  `isLegalUTF8` looks at a sequence
from its end.  At the second byte it leaves the bounds to the cases of the first byte, and those
of 0xED and 0xF4 only check the upper one: behind these two a byte below 0x80 passes, and the
sequence is decoded.
-/
import XyDeskRemote.ChunkedConversion
import XyDeskRemote.Utf8RoundTrip
import Mathlib.Algebra.Group.Nat.Defs

open ChunkedConversion Utf8 List

namespace Utf8Decoder

/-! ## The loop -/

/-- `ConversionResult`. -/
inductive ConversionResult where
  | conversionOK
  | sourceExhausted
  | targetExhausted
  | sourceIllegal

/-- `ConversionFlags`. -/
inductive ConversionFlags where
  | strictConversion
  | lenientConversion
  deriving DecidableEq

open ConversionResult ConversionFlags

/-- A byte of the source. -/
def byteAt (source : List UInt8) (i : ℕ) : ℕ := (source.getD i 0).toNat

/-- `trailingBytesForUTF8`, by the rows of the table and the last one by its runs. -/
def trailingBytesForUTF8 (b : ℕ) : ℕ :=
  if b < 0xC0 then 0
  else if b < 0xE0 then 1
  else if b < 0xF0 then 2
  else if b < 0xF8 then 3
  else if b < 0xFC then 4
  else 5

/-- The bytes behind the first. -/
def extraBytesToRead (source : List UInt8) : ℕ := trailingBytesForUTF8 (byteAt source 0)

/-- `offsetsFromUTF8`. -/
def offsetsFromUTF8 : List ℕ := [0, 0x3080, 0xE2080, 0x3C82080, 0xFA082080, 0x82082080]

/-- `isLegalUTF8` returns true.  The cases fall through from the length down to 1, and the cases
inside the second one are by the first byte. -/
def IsLegalUTF8 (source : List UInt8) (length : ℕ) : Prop :=
  let lead := byteAt source 0
  let a := byteAt source 1
  (1 ≤ length ∧ length ≤ 4) ∧
    (4 ≤ length → 0x80 ≤ byteAt source 3 ∧ byteAt source 3 ≤ 0xBF) ∧
    (3 ≤ length → 0x80 ≤ byteAt source 2 ∧ byteAt source 2 ≤ 0xBF) ∧
    (2 ≤ length → a ≤ 0xBF ∧ (lead = 0xE0 → 0xA0 ≤ a) ∧ (lead = 0xED → a ≤ 0x9F) ∧
      (lead = 0xF0 → 0x90 ≤ a) ∧ (lead = 0xF4 → a ≤ 0x8F) ∧
      (lead ≠ 0xE0 ∧ lead ≠ 0xED ∧ lead ≠ 0xF0 ∧ lead ≠ 0xF4 → 0x80 ≤ a)) ∧
    ¬ (0x80 ≤ lead ∧ lead < 0xC2) ∧ lead ≤ 0xF4

instance (source : List UInt8) (length : ℕ) : Decidable (IsLegalUTF8 source length) := by
  unfold IsLegalUTF8
  infer_instance

/-- `ch` behind the bytes of a sequence, in 32 bits. -/
def sequenceValue (source : List UInt8) : ℕ :=
  let ch := (range (extraBytesToRead source + 1)).foldl
    (fun ch i => (ch * 64 + byteAt source i) % 2 ^ 32) 0
  (ch + 2 ^ 32 - offsetsFromUTF8.getD (extraBytesToRead source) 0) % 2 ^ 32

/-- The body of the loop of `winpr_ConvertUTF8toUTF16_Internal`. -/
def utf8Turn (flags : ConversionFlags) : Turn UInt8 UInt16 ConversionResult := fun room source =>
  let extra := extraBytesToRead source
  if source.length ≤ extra then .error sourceExhausted
  else if ¬ IsLegalUTF8 source (extra + 1) then .error sourceIllegal
  else
    let ch := sequenceValue source
    let replaced := if flags = strictConversion then .error sourceIllegal
      else .ok ([replacement], extra)
    if room.any (· < 1) then .error targetExhausted
    else if ch ≤ 0xFFFF then
      if 0xD800 ≤ ch ∧ ch ≤ 0xDFFF then replaced else .ok ([UInt16.ofNat ch], extra)
    else if 0x10FFFF < ch then replaced
    else if room.any (· < 2) then .error targetExhausted
    else
      let ch := ch - 0x10000
      .ok ([UInt16.ofNat ((ch >>> 10) + 0xD800), UInt16.ofNat ((ch &&& 0x3FF) + 0xDC00)], extra)

/-- `winpr_ConvertUTF8toUTF16_Internal`; `targetEnd` is `none` to compute the length. -/
def convertUTF8toUTF16Internal (flags : ConversionFlags) (targetEnd : Option ℕ)
    (source : List UInt8) (target : CodeUnits) : Conversion UInt8 UInt16 ConversionResult :=
  convert conversionOK (utf8Turn flags) targetEnd source target

/-! ## Well-formed sequences -/

/-- Table 3-7, row by row: the first byte, the second one, and the third and fourth, of a sequence
with `n` bytes behind the first. -/
def TableRow (n a b c d : ℕ) : Prop :=
  let tail x := 0x80 ≤ x ∧ x ≤ 0xBF
  n = 0 ∧ a ≤ 0x7F ∨
  n = 1 ∧ (0xC2 ≤ a ∧ a ≤ 0xDF) ∧ tail b ∨
  n = 2 ∧ a = 0xE0 ∧ (0xA0 ≤ b ∧ b ≤ 0xBF) ∧ tail c ∨
  n = 2 ∧ (0xE1 ≤ a ∧ a ≤ 0xEC) ∧ tail b ∧ tail c ∨
  n = 2 ∧ a = 0xED ∧ (0x80 ≤ b ∧ b ≤ 0x9F) ∧ tail c ∨
  n = 2 ∧ (0xEE ≤ a ∧ a ≤ 0xEF) ∧ tail b ∧ tail c ∨
  n = 3 ∧ a = 0xF0 ∧ (0x90 ≤ b ∧ b ≤ 0xBF) ∧ tail c ∧ tail d ∨
  n = 3 ∧ (0xF1 ≤ a ∧ a ≤ 0xF3) ∧ tail b ∧ tail c ∧ tail d ∨
  n = 3 ∧ a = 0xF4 ∧ (0x80 ≤ b ∧ b ≤ 0x8F) ∧ tail c ∧ tail d

/-- The scalar value of a sequence, from the bits that its bytes carry. -/
def scalarValue : (n a b c d : ℕ) → ℕ
  | 0, a, _, _, _ => a
  | 1, a, b, _, _ => a % 32 * 64 + b % 64
  | 2, a, b, c, _ => a % 16 * 4096 + b % 64 * 64 + c % 64
  | _, a, b, c, d => a % 8 * 262144 + b % 64 * 4096 + c % 64 * 64 + d % 64

/-- A sequence of the table stands in front, of `n` bytes behind the first and with this value. -/
def Sequence (source : List UInt8) (n value : ℕ) : Prop :=
  let at' := byteAt source
  n < source.length ∧ TableRow n (at' 0) (at' 1) (at' 2) (at' 3) ∧
    value = scalarValue n (at' 0) (at' 1) (at' 2) (at' 3)

/-- The scalar values of the sequences in front, up to where none stands in front. -/
inductive Decodes : List UInt8 → List ℕ → List UInt8 → Prop
  | stop {rest : List UInt8} : (∀ n value, ¬ Sequence rest n value) → Decodes rest [] rest
  | sequence {source rest : List UInt8} {scalars : List ℕ} {n value : ℕ} :
    Sequence source n value → Decodes (source.drop (n + 1)) scalars rest →
    Decodes source (value :: scalars) rest

/-- What `isLegalUTF8` accepts beside the table: a byte below 0x80 behind 0xED or 0xF4. -/
def Overlooked (source : List UInt8) : Prop :=
  let tail i := 0x80 ≤ byteAt source i ∧ byteAt source i ≤ 0xBF
  byteAt source 1 < 0x80 ∧
    (byteAt source 0 = 0xED ∧ 2 < source.length ∧ tail 2 ∨
      byteAt source 0 = 0xF4 ∧ 3 < source.length ∧ tail 2 ∧ tail 3)

/-! ## One turn -/

variable {source rest : List UInt8} {scalars : List ℕ} {n value : ℕ} {flags : ConversionFlags}
  {target : CodeUnits}

/-- The sequence that the first byte announces is there, and legal. -/
def Accepted (source : List UInt8) : Prop :=
  extraBytesToRead source < source.length ∧ IsLegalUTF8 source (extraBytesToRead source + 1)

theorem extraBytes_cases (source : List UInt8) :
    let n := extraBytesToRead source
    let a := byteAt source 0
    n = 0 ∧ a < 0xC0 ∨ n = 1 ∧ 0xC0 ≤ a ∧ a < 0xE0 ∨ n = 2 ∧ 0xE0 ≤ a ∧ a < 0xF0 ∨
      n = 3 ∧ 0xF0 ≤ a ∧ a < 0xF8 ∨ 4 ≤ n ∧ 0xF8 ≤ a := by
  unfold extraBytesToRead trailingBytesForUTF8
  split_ifs <;> omega

theorem Sequence.extraBytes (h : Sequence source n value) : extraBytesToRead source = n := by
  obtain ⟨-, hrow, -⟩ := h
  simp only [TableRow] at hrow
  have hcases := extraBytes_cases source
  omega

theorem Sequence.accepted (h : Sequence source n value) : Accepted source := by
  obtain ⟨hlen, hrow, -⟩ := id h
  rw [Accepted, h.extraBytes]
  simp only [TableRow] at hrow
  simp only [IsLegalUTF8]
  omega

theorem Overlooked.accepted (h : Overlooked source) : Accepted source := by
  simp only [Overlooked] at h
  simp only [Accepted, IsLegalUTF8]
  obtain ⟨ha, ⟨hlead, h⟩ | ⟨hlead, h⟩⟩ := h <;>
    obtain hn | hn | hn | hn | hn := extraBytes_cases source <;> omega

/-- What is accepted is a sequence of the table, or overlooked. -/
theorem Accepted.sequence (h : Accepted source) :
    (∃ n value, Sequence source n value) ∨ Overlooked source := by
  obtain ⟨hlen, hlegal⟩ := h
  have hrow : TableRow (extraBytesToRead source) (byteAt source 0) (byteAt source 1)
      (byteAt source 2) (byteAt source 3) ∨ Overlooked source := by
    obtain ⟨hn, ha⟩ | ⟨hn, ha⟩ | ⟨hn, ha⟩ | ⟨hn, ha⟩ | hn := extraBytes_cases source
    · simp [IsLegalUTF8, TableRow, Overlooked, hn] at *
      omega
    · simp [IsLegalUTF8, TableRow, Overlooked, hn] at *
      omega
    · simp [IsLegalUTF8, TableRow, Overlooked, hn] at *
      omega
    · simp [IsLegalUTF8, TableRow, Overlooked, hn] at *
      omega
    · simp only [IsLegalUTF8] at hlegal
      omega
  exact hrow.imp_left fun hrow => ⟨_, _, hlen, hrow, rfl⟩

/-- The offsets take away what the bytes carry beside the bits of the value. -/
theorem Sequence.value_eq (h : Sequence source n value) : sequenceValue source = value := by
  have hn := h.extraBytes
  obtain ⟨-, hrow, rfl⟩ := h
  simp only [TableRow] at hrow
  obtain rfl | rfl | rfl | rfl : n = 0 ∨ n = 1 ∨ n = 2 ∨ n = 3 := by omega
  all_goals
    simp [sequenceValue, hn, offsetsFromUTF8, scalarValue, range_succ] at *
    omega

/-- A sequence that is accepted has no surrogate for its value. -/
theorem Accepted.isScalar (h : Accepted source) : IsScalar (sequenceValue source) := by
  obtain ⟨n, value, h⟩ | h := h.sequence
  · rw [h.value_eq]
    obtain ⟨-, hrow, rfl⟩ := h
    simp only [TableRow] at hrow
    obtain rfl | rfl | rfl | rfl : n = 0 ∨ n = 1 ∨ n = 2 ∨ n = 3 := by omega
    all_goals
      simp [IsScalar, scalarValue] at *
      omega
  · simp only [Overlooked] at h
    obtain ⟨ha, ⟨hlead, h⟩ | ⟨hlead, h⟩⟩ := h <;>
      simp [extraBytesToRead, hlead, trailingBytesForUTF8, IsScalar, sequenceValue,
        offsetsFromUTF8, range_succ] <;> omega

/-- What is accepted is written as its units, where there is room for them. -/
theorem utf8Turn_of_accepted (h : Accepted source) (room : Option ℕ) :
    let chunk := units (sequenceValue source)
    utf8Turn flags room source = if room.any (· < chunk.length) then .error targetExhausted
      else .ok (chunk, extraBytesToRead source) := by
  have hscalar := h.isScalar
  have hlen := Nat.not_le.mpr h.1
  simp only [utf8Turn, if_neg hlen, if_neg (fun hlegal => hlegal h.2 : ¬ ¬ _)]
  generalize sequenceValue source = ch at *
  simp only [IsScalar] at hscalar
  rw [if_neg (by omega : ¬ (0xD800 ≤ ch ∧ ch ≤ 0xDFFF)), if_neg (by omega : ¬ 0x10FFFF < ch)]
  have hshift : (ch - 0x10000) >>> 10 = (ch - 0x10000) / 1024 := Nat.shiftRight_eq_div_pow _ 10
  have hmask : (ch - 0x10000) &&& 0x3FF = (ch - 0x10000) % 1024 :=
    Nat.and_two_pow_sub_one_eq_mod _ 10
  by_cases hbmp : ch ≤ 0xFFFF
  · have hunits : units ch = [UInt16.ofNat ch] := if_pos (by omega)
    simp only [if_pos hbmp, hunits, length_singleton]
  · have hunits : units ch = [UInt16.ofNat ((ch - 0x10000) / 1024 + 0xD800),
        UInt16.ofNat ((ch - 0x10000) % 1024 + 0xDC00)] := by
      rw [units, if_neg (by omega), Nat.add_comm 0xD800, Nat.add_comm 0xDC00]
    simp only [if_neg hbmp, hunits, hshift, hmask, length_cons, length_nil]
    cases room with
    | none => rfl
    | some room =>
      simp only [Option.any_some, decide_eq_true_eq]
      split_ifs <;> first | rfl | omega

/-- What is not accepted ends the loop. -/
theorem utf8Turn_of_not_accepted (h : ¬ Accepted source) :
    ∃ result, (result = sourceExhausted ∨ result = sourceIllegal) ∧
      ∀ room, utf8Turn flags room source = .error result := by
  by_cases hlen : source.length ≤ extraBytesToRead source
  · exact ⟨_, .inl rfl, fun room => if_pos hlen⟩
  · have hlegal : ¬ IsLegalUTF8 source (extraBytesToRead source + 1) :=
      fun hlegal => h ⟨Nat.not_le.mp hlen, hlegal⟩
    exact ⟨_, .inr rfl, fun room => by simp only [utf8Turn, if_neg hlen, if_pos hlegal]⟩

theorem bounded_utf8Turn (flags : ConversionFlags) : Bounded targetExhausted (utf8Turn flags) := by
  intro source
  by_cases h : Accepted source
  · exact .inr ⟨_, _, utf8Turn_of_accepted h⟩
  · obtain ⟨result, -, hturn⟩ := utf8Turn_of_not_accepted h
    exact .inl ⟨result, hturn⟩

/-! ## Whole strings -/

theorem Accepted.ne_nil (h : Accepted source) : source ≠ [] :=
  ne_nil_of_length_pos (Nat.zero_lt_of_lt h.1)

theorem convert_of_accepted (h : Accepted source) :
    convert conversionOK (utf8Turn flags) none source target =
      convert conversionOK (utf8Turn flags) none (source.drop (extraBytesToRead source + 1))
        (target ++ units (sequenceValue source)) :=
  convert_ok h.ne_nil (by rw [utf8Turn_of_accepted h]; rfl)

/-- The sequences in front are converted one by one. -/
theorem convert_of_decodes (h : Decodes source scalars rest) :
    convert conversionOK (utf8Turn flags) none source target =
      convert conversionOK (utf8Turn flags) none rest (target ++ scalars.flatMap units) := by
  induction h generalizing target with
  | stop _ => rw [flatMap_nil, append_nil]
  | sequence hseq _ ih =>
    rw [convert_of_accepted hseq.accepted, hseq.extraBytes, hseq.value_eq, ih,
      flatMap_cons, append_assoc]

/-- Every string has the sequences that stand in front of it. -/
theorem exists_decodes (source : List UInt8) :
    ∃ scalars rest, Decodes source scalars rest := by
  induction hn : source.length using Nat.strongRecOn generalizing source with
  | ind length ih =>
    by_cases h : ∃ n value, Sequence source n value
    · obtain ⟨n, value, hseq⟩ := h
      have hlen := hseq.1
      obtain ⟨scalars, rest, hrest⟩ := ih _ (by rw [length_drop]; omega)
        (source.drop (n + 1)) rfl
      exact ⟨value :: scalars, rest, .sequence hseq hrest⟩
    · exact ⟨[], source, .stop fun n value hseq => h ⟨n, value, hseq⟩⟩

theorem Decodes.not_sequence (h : Decodes source scalars rest) : ¬ Sequence rest n value := by
  induction h with
  | stop hstop => exact hstop n value
  | sequence _ _ ih => exact ih

/-- **Strict decoding.**  With room for what is counted first, `conversionOK` tells the well-formed
strings, a well-formed one is decoded to the units of its scalar values, and the others are left
where the first ill-formed sequence starts, just when that one is not overlooked. -/
theorem decodes_iff (h : Decodes source scalars rest) {targetEnd : ℕ}
    (hroom : (convertUTF8toUTF16Internal strictConversion none source []).target.length ≤
      targetEnd) :
    (let conversion := convertUTF8toUTF16Internal strictConversion (some targetEnd) source []
    (conversion.result = conversionOK ↔ rest = []) ∧
      (rest = [] → conversion.target = scalars.flatMap units) ∧
      (rest ≠ [] → conversion.source = rest)) ↔ ¬ Overlooked rest := by
  dsimp only [convertUTF8toUTF16Internal] at hroom ⊢
  rw [(convert_room (bounded_utf8Turn strictConversion) (Nat.zero_le targetEnd)).2.1 hroom,
    convert_of_decodes h, nil_append]
  by_cases hrest : rest = []
  · subst hrest
    rw [convert]
    simp [Overlooked, byteAt]
  by_cases haccepted : Accepted rest
  · have hover : Overlooked rest := haccepted.sequence.resolve_left <| by
      rintro ⟨_, _, hseq⟩
      exact h.not_sequence hseq
    -- the loop goes on behind the overlooked sequence, and never comes back to it
    refine iff_of_false (fun hright => ?_) (not_not_intro hover)
    have hlen := congrArg List.length (hright.2.2 hrest)
    have hspan := (convert_span conversionOK (utf8Turn strictConversion) none
      (rest.drop (extraBytesToRead rest + 1))
      (scalars.flatMap units ++ units (sequenceValue rest))).1
    have hpos := length_pos_of_ne_nil hrest
    rw [convert_of_accepted haccepted] at hlen
    rw [length_drop] at hspan
    omega
  · obtain ⟨result, hresult, hturn⟩ := utf8Turn_of_not_accepted haccepted
    have hfailed : result ≠ conversionOK := by
      rintro rfl
      simp at hresult
    rw [convert_error hrest (hturn _)]
    exact iff_of_true ⟨iff_of_false hfailed hrest, fun h => absurd h hrest, fun _ => rfl⟩
      fun hover => haccepted hover.accepted

theorem decodes_iff_euro :
    (let conversion :=
      convertUTF8toUTF16Internal strictConversion (some 1) [0xE2, 0x82, 0xAC] []
    (conversion.result = conversionOK ↔ ([] : List UInt8) = []) ∧
      (([] : List UInt8) = [] → conversion.target = [0x20AC].flatMap units) ∧
      (([] : List UInt8) ≠ [] → conversion.source = [])) ↔ ¬ Overlooked [] := by
  have hsequence : Sequence [0xE2, 0x82, 0xAC] 2 0x20AC :=
    ⟨by decide, by simp [TableRow, byteAt], rfl⟩
  have hdecodes : Decodes [0xE2, 0x82, 0xAC] [0x20AC] [] :=
    .sequence hsequence (.stop fun n value h => by simpa using h.1)
  refine decodes_iff hdecodes ?_
  rw [convertUTF8toUTF16Internal, convert_of_decodes hdecodes, convert]
  simp [units]

/-- A byte below 0x80 behind 0xED. -/
theorem decodes_overlooked :
    ¬ ∀ source scalars rest, Decodes source scalars rest →
      ((convertUTF8toUTF16Internal strictConversion (some source.length) source []).result =
        conversionOK ↔ rest = []) := by
  intro h
  have hstop : ∀ n value, ¬ Sequence [0xED, 0x41, 0x80] n value := fun n value h => by
    obtain ⟨-, hrow, -⟩ := h
    simp [TableRow, byteAt] at hrow
  have hover : Overlooked [0xED, 0x41, 0x80] := by simp [Overlooked, byteAt]
  have hconvert : (convertUTF8toUTF16Internal strictConversion (some 3) [0xED, 0x41, 0x80]
      []).result = conversionOK := by
    rw [convertUTF8toUTF16Internal, convert, utf8Turn_of_accepted hover.accepted]
    simp [extraBytesToRead, byteAt, trailingBytesForUTF8, sequenceValue, offsetsFromUTF8,
      range_succ, units, convert]
  simpa [hconvert] using h _ _ _ (.stop hstop)

end Utf8Decoder
