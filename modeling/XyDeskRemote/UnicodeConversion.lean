/-
# The Unicode conversions of WinPR

`winpr_ConvertUTF8toUTF16` and `winpr_ConvertUTF16toUTF8`, from `unicode_builtin.c`.  Each runs its
loop once, without a target if its size is zero, and answers 0 when the loop has not come to the
end of the source.
-/
import XyDeskRemote.Utf8Decoder
import Mathlib.Data.UInt

open ChunkedConversion Utf8 Utf8Decoder Nat

namespace UnicodeConversion

open ConversionResult ConversionFlags

/-! ## The loop to UTF-8 -/

/-- `firstByteMark`. -/
def firstByteMark : List ℕ := [0x00, 0x00, 0xC0, 0xE0, 0xF0, 0xF8, 0xFC]

/-- The character in front, as `ch`, and how many units are read beside the first. -/
def readChar (flags : ConversionFlags) (source : CodeUnits) : Except ConversionResult (ℕ × ℕ) :=
  let ch := source.headD 0
  if isHighSurrogate ch then
    match source.tail with
    | [] => .error sourceExhausted
    | ch2 :: _ =>
      if isLowSurrogate ch2 then
        .ok (((ch.toNat - 0xD800) <<< 10) + (ch2.toNat - 0xDC00) + 0x10000, 1)
      else if flags = strictConversion then .error sourceIllegal
      else .ok (ch.toNat, 0)
  else if flags = strictConversion ∧ isLowSurrogate ch then .error sourceIllegal
  else .ok (ch.toNat, 0)

/-- The bytes of `ch` in front of `bytes`, from the last one down. -/
def bytesDown (mark : ℕ) : ℕ → ℕ → List UInt8 → List UInt8
  | 0, _, bytes => bytes
  | 1, ch, bytes => UInt8.ofNat (ch ||| mark) :: bytes
  | n + 2, ch, bytes =>
    bytesDown mark (n + 1) (ch >>> 6) (UInt8.ofNat ((ch ||| 0x80) &&& 0xBF) :: bytes)

/-- The bytes of a character, if there is room. -/
def writeChar (room : Option ℕ) (ch extra : ℕ) : Except ConversionResult (List UInt8 × ℕ) :=
  let (bytesToWrite, ch) :=
    if ch < 0x80 then (1, ch)
    else if ch < 0x800 then (2, ch)
    else if ch < 0x10000 then (3, ch)
    else if ch < 0x110000 then (4, ch)
    else (3, 0xFFFD)
  if room.any (· < bytesToWrite) then .error targetExhausted
  else .ok (bytesDown (firstByteMark.getD bytesToWrite 0) bytesToWrite ch [], extra)

/-- The body of the loop of `winpr_ConvertUTF16toUTF8_Internal`. -/
def utf16Turn (flags : ConversionFlags) : Turn UInt16 UInt8 ConversionResult := fun room source =>
  (readChar flags source).bind fun x => writeChar room x.1 x.2

/-! ## The calls -/

/-- What a call returns, `none` when its assertion aborts, whether it sets
`ERROR_INSUFFICIENT_BUFFER`, and what it has written to the target. -/
structure Answer (β : Type) where
  length : Option ℕ
  insufficientBuffer : Bool
  dst : List β

/-- The source: as many elements as `cchSrc` says, or up to the first zero and with it. -/
def sourceOf {α : Type} [BEq α] [Zero α] (src : List α) (cchSrc : Int) : List α :=
  if cchSrc = -1 then src.take (min (src.takeWhile (· != 0)).length (2 ^ 31 - 2) + 1)
  else src.take cchSrc.toNat

/-- What both calls do with their loop. -/
def call {α β : Type} (turn : Turn α β ConversionResult) (source : List α) (cchDst : ℕ) :
    Answer β :=
  let conversion :=
    convert conversionOK turn (if cchDst = 0 then none else some cchDst) source []
  let length := conversion.target.length
  let dst := if cchDst = 0 then [] else conversion.target
  match conversion.result with
  | targetExhausted => ⟨some 0, true, dst⟩
  | conversionOK => ⟨if length < 2 ^ 31 then some length else none, false, dst⟩
  | _ => ⟨some 0, false, dst⟩

/-- `winpr_ConvertUTF8toUTF16`. -/
def winprConvertUTF8toUTF16 (src : List UInt8) (cchSrc : Int) (cchDst : ℕ) : Answer UInt16 :=
  call (utf8Turn strictConversion) (sourceOf src cchSrc) cchDst

/-- `winpr_ConvertUTF16toUTF8`. -/
def winprConvertUTF16toUTF8 (src : CodeUnits) (cchSrc : Int) (cchDst : ℕ) : Answer UInt8 :=
  call (utf16Turn strictConversion) (sourceOf src cchSrc) cchDst

/-! ## One scalar value -/

variable {cp : ℕ} {scalars : List ℕ} {s : CodeUnits}

theorem markedByte (ch : ℕ) : UInt8.ofNat ((ch ||| 0x80) &&& 0xBF) = tailByte ch := by
  have hlow : ∀ low < 2 ^ 8, (low ||| 0x80 % 2 ^ 8) &&& 0xBF = 0x80 + low % 64 := by
    decide +kernel
  have hbyte : (ch ||| 0x80) &&& 0xBF = ((ch ||| 0x80) % 2 ^ 8) &&& 0xBF := by
    rw [← Nat.and_two_pow_sub_one_eq_mod, Nat.and_assoc]
    rfl
  rw [tailByte, hbyte, or_mod_two_pow, hlow _ (mod_lt _ (by decide)), mod_mod_of_dvd _ (by decide)]

theorem bytesDown_eq (h : cp < 0x110000) :
    bytesDown (firstByteMark.getD (encodeScalar cp).length 0) (encodeScalar cp).length cp [] =
      encodeScalar cp := by
  have hshift (n : ℕ) : n >>> 6 = n / 64 := shiftRight_eq_div_pow n 6
  have htwelve : cp / 64 / 64 = cp / 4096 := Nat.div_div_eq_div_mul cp 64 64
  have heighteen : cp / 4096 / 64 = cp / 262144 := Nat.div_div_eq_div_mul cp 4096 64
  have hlead : (∀ n < 0x20, n ||| 0xC0 = 0xC0 + n) ∧ (∀ n < 0x10, n ||| 0xE0 = 0xE0 + n) ∧
      ∀ n < 8, n ||| 0xF0 = 0xF0 + n := by decide
  unfold encodeScalar
  split_ifs
  · show [UInt8.ofNat (cp ||| 0)] = _
    rw [or_zero]
  · show bytesDown 0xC0 2 cp [] = _
    rw [bytesDown, bytesDown, markedByte, hshift, hlead.1 _ (by omega)]
  · show bytesDown 0xE0 3 cp [] = _
    rw [bytesDown, bytesDown, bytesDown, markedByte, markedByte, hshift, hshift, htwelve,
      hlead.2.1 _ (by omega)]
  · show bytesDown 0xF0 4 cp [] = _
    rw [bytesDown, bytesDown, bytesDown, bytesDown, markedByte, markedByte, markedByte, hshift,
      hshift, hshift, htwelve, heighteen, hlead.2.2 _ (by omega)]

/-- What is written fits, or there is no room for it. -/
theorem writeChar_eq (h : cp < 0x110000) (extra : ℕ) (room : Option ℕ) :
    writeChar room cp extra = if room.any (· < (encodeScalar cp).length) then
      .error targetExhausted else .ok (encodeScalar cp, extra) := by
  have hbytes : writeChar room cp extra = if room.any (· < (encodeScalar cp).length) then
      .error targetExhausted else .ok (bytesDown (firstByteMark.getD (encodeScalar cp).length 0)
        (encodeScalar cp).length cp [], extra) := by
    unfold writeChar encodeScalar
    by_cases hone : cp < 0x80
    · rw [if_pos hone, if_pos hone]
      rfl
    by_cases htwo : cp < 0x800
    · rw [if_neg hone, if_pos htwo, if_neg hone, if_pos htwo]
      rfl
    by_cases hthree : cp < 0x10000
    · rw [if_neg hone, if_neg htwo, if_pos hthree, if_neg hone, if_neg htwo, if_pos hthree]
      rfl
    · rw [if_neg hone, if_neg htwo, if_neg hthree, if_pos h, if_neg hone, if_neg htwo,
        if_neg hthree]
      rfl
  rw [hbytes, bytesDown_eq h]

theorem readChar_lt {flags : ConversionFlags} {x : ℕ × ℕ} (h : readChar flags s = .ok x) :
    x.1 < 0x110000 := by
  have hu (u : UInt16) : u.toNat < 0x110000 := lt_of_lt_of_le u.toNat_lt (by decide)
  simp only [readChar] at h
  split at h
  · next hhigh =>
    split at h
    · cases h
    · split at h
      · next hlow =>
        cases h
        rw [isHighSurrogate_iff] at hhigh
        rw [isLowSurrogate_iff] at hlow
        omega
      · split at h <;> cases h
        exact hu _
  · split at h <;> cases h
    exact hu _

theorem readChar_isScalar {x : ℕ × ℕ} (h : readChar strictConversion s = .ok x) :
    IsScalar x.1 := by
  have hlt := readChar_lt h
  have hcases : x.1 < 0xD800 ∨ 0xE000 ≤ x.1 := by
    simp only [readChar, isHighSurrogate_iff, isLowSurrogate_iff, true_and] at h
    split_ifs at h
    · split at h
      · cases h
      · split_ifs at h
        cases h
        omega
    · cases h
      omega
  exact hcases.imp_right fun hle => ⟨hle, hlt⟩

theorem bounded_utf16Turn (flags : ConversionFlags) :
    Bounded targetExhausted (utf16Turn flags) := by
  intro source
  cases hread : readChar flags source with
  | error result => exact .inl ⟨result, fun room => by rw [utf16Turn, hread]; rfl⟩
  | ok x =>
    refine .inr ⟨encodeScalar x.1, x.2, fun room => ?_⟩
    rw [← writeChar_eq (readChar_lt hread), utf16Turn, hread]
    rfl

/-! ## Well-formed texts -/

variable {u v : UInt16} {flags : ConversionFlags} {rest : CodeUnits}

theorem readChar_single (hhigh : ¬ isHighSurrogate u = true) (hlow : ¬ isLowSurrogate u = true) :
    readChar flags (u :: rest) = .ok (u.toNat, 0) :=
  (if_neg hhigh).trans (if_neg fun h => hlow h.2)

theorem readChar_pair (hhigh : isHighSurrogate u = true) (hlow : isLowSurrogate v = true) :
    readChar flags (u :: v :: rest) = .ok (pairScalar u v, 1) := by
  have hvalue : ((u.toNat - 0xD800) <<< 10) + (v.toNat - 0xDC00) + 0x10000 = pairScalar u v := by
    unfold pairScalar
    omega
  rw [← hvalue]
  exact (if_pos hhigh).trans (if_pos hlow)

theorem sequence_encodeScalar (h : IsScalar cp) (rest : List UInt8) :
    Sequence (encodeScalar cp ++ rest) ((encodeScalar cp).length - 1) cp := by
  simp only [IsScalar] at h
  unfold encodeScalar
  split_ifs <;>
    simp [Sequence, TableRow, scalarValue, byteAt, tailByte] <;> omega

/-- A text is converted to its bytes, and these are decoded to the units of the text. -/
structure Converts (s : CodeUnits) (scalars : List ℕ) : Prop where
  encode : ∀ back target, convert conversionOK (utf16Turn strictConversion) none (s ++ back) target =
    convert conversionOK (utf16Turn strictConversion) none back (target ++ javaEncode s)
  decode : Decodes (javaEncode s) scalars []
  units : scalars.flatMap units = s

theorem converts_nil : Converts [] [] where
  encode back target := by rw [javaEncode, List.append_nil, List.nil_append]
  decode := .stop fun _ _ h => absurd h.1 (not_lt_zero _)
  units := rfl

theorem Converts.cons {front : CodeUnits} (hcp : IsScalar cp ∧ Utf8.units cp = front)
    (hread : ∀ rest, readChar strictConversion (front ++ rest) = .ok (cp, front.length - 1))
    (hbytes : javaEncode (front ++ s) = encodeScalar cp ++ javaEncode s)
    (h : Converts s scalars) : Converts (front ++ s) (cp :: scalars) := by
  obtain ⟨hcp, rfl⟩ := hcp
  have hlen := length_units_pos cp
  refine ⟨fun back target => ?_, ?_, by rw [List.flatMap_cons, h.units]⟩
  · have hturn : utf16Turn strictConversion none (Utf8.units cp ++ (s ++ back)) =
        .ok (encodeScalar cp, (Utf8.units cp).length - 1) := by
      rw [utf16Turn, hread]
      exact writeChar_eq (readChar_lt (hread [])) _ none
    rw [List.append_assoc, convert_ok (by simp [List.ne_nil_of_length_pos hlen]) hturn,
      Nat.sub_add_cancel hlen, List.drop_left, h.encode, hbytes, List.append_assoc]
  · have hpred : (encodeScalar cp).length - 1 + 1 = (encodeScalar cp).length := by
      unfold encodeScalar
      split_ifs <;> rfl
    rw [hbytes]
    refine .sequence (sequence_encodeScalar hcp _) ?_
    rw [hpred, List.drop_left]
    exact h.decode

theorem Converts.whole (h : Converts s scalars) :
    convert conversionOK (utf16Turn strictConversion) none s [] =
      ⟨conversionOK, [], javaEncode s⟩ := by
  have hencode := h.encode [] []
  rwa [List.append_nil, List.nil_append, convert] at hencode

theorem exists_converts (h : WellFormed s) : ∃ scalars, Converts s scalars := by
  refine wellFormed_induct ⟨[], converts_nil⟩ (fun {u rest} hhigh hlow hrest => ?_)
    (fun {u v rest} hhigh hlow hrest => ?_) h
  · obtain ⟨scalars, hscalars⟩ := hrest
    exact ⟨_, hscalars.cons (units_single hhigh hlow) (fun _ => readChar_single hhigh hlow)
      (javaEncode_single hhigh hlow rest)⟩
  · obtain ⟨scalars, hscalars⟩ := hrest
    exact ⟨_, hscalars.cons (units_pair hhigh hlow) (fun _ => readChar_pair hhigh hlow)
      (by simp [javaEncode, hhigh, hlow])⟩

/-! ## Ill-formed texts -/

/-- A surrogate without its other half stands in front. -/
def Unpaired : CodeUnits → Prop
  | [] => False
  | [u] => isHighSurrogate u = true ∨ isLowSurrogate u = true
  | u :: v :: _ =>
    isLowSurrogate u = true ∨ isHighSurrogate u = true ∧ ¬ isLowSurrogate v = true

/-- An ill-formed text is well formed up to a surrogate without its other half. -/
theorem exists_unpaired (h : ¬ WellFormed s) :
    ∃ front back, WellFormed front ∧ Unpaired back ∧ front ++ back = s := by
  have hnil : WellFormed [] := by simp [WellFormed]
  have hsingle {u : UInt16} {front : CodeUnits} (hhigh : ¬ isHighSurrogate u = true)
      (hlow : ¬ isLowSurrogate u = true) (hfront : WellFormed front) :
      WellFormed (u :: front) := by
    cases front <;> simp [WellFormed, hhigh, hlow, hfront]
  induction s using javaEncode.induct with
  | case1 => exact absurd hnil h
  | case2 u hsurrogate => exact ⟨[], [u], hnil, by simpa [Unpaired] using hsurrogate, rfl⟩
  | case3 u hplain => exact absurd (by simpa [WellFormed] using hplain) h
  | case4 u v rest hhigh hlow ih =>
    obtain ⟨front, back, hfront, hback, rfl⟩ := ih fun hrest => h (by
      rw [WellFormed, if_pos hhigh]
      exact ⟨hlow, hrest⟩)
    refine ⟨u :: v :: front, back, ?_, hback, rfl⟩
    rw [WellFormed, if_pos hhigh]
    exact ⟨hlow, hfront⟩
  | case5 u v rest hhigh hlow ih => exact ⟨[], u :: v :: rest, hnil, Or.inr ⟨hhigh, hlow⟩, rfl⟩
  | case6 u v rest hhigh hlow ih => exact ⟨[], u :: v :: rest, hnil, Or.inl hlow, rfl⟩
  | case7 u v rest hhigh hlow ih =>
    obtain ⟨front, back, hfront, hback, hsplit⟩ := ih fun hrest => h (hsingle hhigh hlow hrest)
    exact ⟨u :: front, back, hsingle hhigh hlow hfront, hback, by rw [List.cons_append, hsplit]⟩

theorem readChar_of_unpaired (h : Unpaired s) : ∃ result,
    (result = sourceExhausted ∨ result = sourceIllegal) ∧
      readChar strictConversion s = .error result := by
  match s with
  | [u] =>
    by_cases hhigh : isHighSurrogate u = true
    · exact ⟨_, .inl rfl, if_pos hhigh⟩
    · exact ⟨_, .inr rfl, (if_neg hhigh).trans (if_pos ⟨rfl, h.resolve_left hhigh⟩)⟩
  | u :: v :: rest =>
    by_cases hhigh : isHighSurrogate u = true
    · have hlow : ¬ isLowSurrogate v = true := by
        rcases h with hu | h
        · rw [isHighSurrogate_iff] at hhigh
          rw [isLowSurrogate_iff] at hu
          omega
        · exact h.2
      exact ⟨_, .inr rfl, (if_pos hhigh).trans ((if_neg hlow).trans (if_pos rfl))⟩
    · exact ⟨_, .inr rfl, (if_neg hhigh).trans
        (if_pos ⟨rfl, h.resolve_right fun h => hhigh h.1⟩)⟩

/-! ## The two passes -/

/-- A call with a target: nothing is written behind its end, and it returns what the call without
one has returned, which is what it has written unless it is 0, or 0 if that does not fit. -/
def PassesAgree {β : Type} (call : ℕ → Answer β) : Prop :=
  ∀ cchDst, 0 < cchDst → cchDst < 2 ^ 31 →
    (call cchDst).dst.length ≤ cchDst ∧
      (∀ n, (call 0).length = some n → n ≤ cchDst → (call cchDst).length = some n ∧
        (n ≠ 0 → (call cchDst).dst.length = n)) ∧
      ((∀ n, (call 0).length = some n → cchDst < n) → (call cchDst).length = some 0)

/-- The call answers 0 with and without a target, and writes what stands in front all the same. -/
def StopsBehind {β : Type} (front : List β) (call : ℕ → Answer β) : Prop :=
  ∀ cchDst, cchDst = 0 ∨ front.length ≤ cchDst → call cchDst = ⟨some 0, false, front.take cchDst⟩

theorem sourceOf_length {α : Type} [BEq α] [Zero α] (src : List α) :
    sourceOf src src.length = src := by
  rw [sourceOf, if_neg (by omega), Int.toNat_natCast, List.take_length]

section Calls

variable {α β : Type} {turn : Turn α β ConversionResult} (hturn : Bounded targetExhausted turn)
include hturn

theorem passesAgree_call (source : List α) : PassesAgree (call turn source) := by
  intro cchDst hpos hint
  have hroom := @convert_room _ _ _ conversionOK _ turn source [] hturn cchDst (zero_le _)
  simp only [call, if_true, if_neg (ne_of_gt hpos)]
  generalize convert conversionOK turn none source [] = c at *
  generalize convert conversionOK turn (some cchDst) source [] = d at *
  obtain ⟨result, _, target⟩ := c
  dsimp only at hroom
  by_cases hfits : target.length ≤ cchDst
  · cases hroom.2.1 hfits
    cases result <;> simp <;> omega
  · have hresult := hroom.2.2 (not_le.mp hfits)
    cases result <;> simp [hresult] <;> omega

theorem call_of_whole {source : List α} {out : List β} {cchDst : ℕ}
    (hwhole : convert conversionOK turn none source [] = ⟨conversionOK, [], out⟩)
    (hfits : out.length ≤ cchDst) (hint : cchDst < 2 ^ 31) :
    call turn source cchDst = ⟨some out.length, false, out⟩ := by
  have hroom := @convert_room _ _ _ conversionOK _ turn source [] hturn cchDst (zero_le _)
  rw [hwhole] at hroom
  by_cases hzero : cchDst = 0
  · subst hzero
    cases List.length_eq_zero_iff.mp (le_zero.mp hfits)
    simp [call, hwhole]
  · simp only [call, if_neg hzero, hroom.2.1 hfits, if_pos (lt_of_le_of_lt hfits hint)]

theorem stopsBehind_call {source rest : List α} {front : List β} {result : ConversionResult}
    (hresult : result = sourceExhausted ∨ result = sourceIllegal)
    (hstop : convert conversionOK turn none source [] = ⟨result, rest, front⟩) :
    StopsBehind front (call turn source) := by
  intro cchDst hfits
  have hroom := @convert_room _ _ _ conversionOK _ turn source [] hturn cchDst (zero_le _)
  rw [hstop] at hroom
  by_cases hzero : cchDst = 0
  · subst hzero
    rcases hresult with rfl | rfl <;> simp [call, hstop]
  · have hle := hfits.resolve_left hzero
    rw [List.take_of_length_le hle]
    rcases hresult with rfl | rfl <;> simp only [call, if_neg hzero, hroom.2.1 hle]

end Calls

/-- The first unpaired surrogate stops the call. -/
theorem stopsBehind_unpaired {front back : CodeUnits} (hfront : WellFormed front)
    (hback : Unpaired back) : StopsBehind (javaEncode front)
      (call (utf16Turn strictConversion) (front ++ back)) := by
  obtain ⟨scalars, hconverts⟩ := exists_converts hfront
  obtain ⟨result, hresult, hread⟩ := readChar_of_unpaired hback
  have hne : back ≠ [] := by
    rintro rfl
    exact hback
  refine stopsBehind_call (bounded_utf16Turn _) hresult
    ((hconverts.encode back []).trans (convert_error hne ?_))
  rw [utf16Turn, hread]
  rfl

/-- The first ill-formed sequence stops the call, unless it is overlooked. -/
theorem stopsBehind_sequence {src rest : List UInt8} (h : Decodes src scalars rest)
    (hrest : rest ≠ []) (hover : ¬ Overlooked rest) : StopsBehind (scalars.flatMap units)
      (call (utf8Turn strictConversion) src) := by
  have haccepted : ¬ Accepted rest := fun haccepted => by
    obtain ⟨_, _, hseq⟩ := haccepted.sequence.resolve_right hover
    exact h.not_sequence hseq
  obtain ⟨result, hresult, hturn⟩ := utf8Turn_of_not_accepted haccepted
  exact stopsBehind_call (bounded_utf8Turn _) hresult
    ((convert_of_decodes h).trans (convert_error hrest (hturn _)))

/-- **Both ways.**  A well-formed text comes back from its UTF-8 bytes, when the targets have room,
and the two passes of both calls agree.  The call without a target counts the bytes of a well-formed
text; an ill-formed source counts as 0, and what stands in front of the fault is written. -/
theorem conversions_agree :
    (∀ s : CodeUnits, WellFormed s → ∀ n n8 n16 : ℕ,
      (winprConvertUTF16toUTF8 s s.length 0).length = some n → n ≤ n8 → n8 < 2 ^ 31 →
      s.length ≤ n16 → n16 < 2 ^ 31 →
      let utf8 := winprConvertUTF16toUTF8 s s.length n8
      utf8.length = some n ∧ winprConvertUTF8toUTF16 utf8.dst n n16 = ⟨some s.length, false, s⟩) ∧
    (∀ src cchSrc, PassesAgree (winprConvertUTF8toUTF16 src cchSrc)) ∧
    (∀ src cchSrc, PassesAgree (winprConvertUTF16toUTF8 src cchSrc)) ∧
    (∀ s : CodeUnits, WellFormed s → (javaEncode s).length < 2 ^ 31 →
      (winprConvertUTF16toUTF8 s s.length 0).length = some (javaEncode s).length) ∧
    (∀ s : CodeUnits, ¬ WellFormed s → ∃ front back, WellFormed front ∧ Unpaired back ∧
      front ++ back = s ∧ StopsBehind (javaEncode front) (winprConvertUTF16toUTF8 s s.length)) ∧
    ∀ src scalars rest, Decodes src scalars rest → rest ≠ [] → ¬ Overlooked rest →
      StopsBehind (scalars.flatMap units) (winprConvertUTF8toUTF16 src src.length) := by
  refine ⟨fun s h n n8 n16 hcounted hn hn8 hs hn16 => ?_,
    fun src cchSrc => passesAgree_call (bounded_utf8Turn _) _,
    fun src cchSrc => passesAgree_call (bounded_utf16Turn _) _, fun s h hlen => ?_,
    fun s h => ?_, fun src scalars rest h hrest hover => ?_⟩
  · obtain ⟨scalars, hconverts⟩ := exists_converts h
    have hback : convert conversionOK (utf8Turn strictConversion) none (javaEncode s) [] =
        ⟨conversionOK, [], s⟩ := by
      rw [convert_of_decodes hconverts.decode, hconverts.units, convert, List.nil_append]
    simp only [winprConvertUTF16toUTF8, winprConvertUTF8toUTF16, sourceOf_length] at hcounted ⊢
    simp only [call, if_true, hconverts.whole] at hcounted
    split at hcounted
    · cases hcounted
      rw [call_of_whole (bounded_utf16Turn _) hconverts.whole hn hn8]
      dsimp only
      rw [sourceOf_length, call_of_whole (bounded_utf8Turn _) hback hs hn16]
      exact ⟨rfl, rfl⟩
    · cases hcounted
  · obtain ⟨scalars, hconverts⟩ := exists_converts h
    simp only [winprConvertUTF16toUTF8, sourceOf_length, call, if_true, hconverts.whole,
      if_pos hlen]
  · obtain ⟨front, back, hfront, hback, rfl⟩ := exists_unpaired h
    refine ⟨front, back, hfront, hback, rfl, ?_⟩
    unfold winprConvertUTF16toUTF8
    rw [sourceOf_length]
    exact stopsBehind_unpaired hfront hback
  · unfold winprConvertUTF8toUTF16
    rw [sourceOf_length]
    exact stopsBehind_sequence h hrest hover

theorem conversions_agree_euro :
    let utf8 := winprConvertUTF16toUTF8 [0x20AC] 1 3
    utf8.length = some 3 ∧ winprConvertUTF8toUTF16 utf8.dst 3 1 = ⟨some 1, false, [0x20AC]⟩ :=
  conversions_agree.1 [0x20AC] (by simp [WellFormed, isHighSurrogate, isLowSurrogate]) 3 3 1
    (by
      have hturn : utf16Turn strictConversion none [0x20AC] = .ok ([0xE2, 0x82, 0xAC], 0) := rfl
      simp [winprConvertUTF16toUTF8, sourceOf, call, convert, hturn])
    (by decide) (by decide) (by decide) (by decide)

/-- Behind an ill-formed sequence the passes part: nothing is counted, and one unit is written. -/
theorem count_ne_written :
    ¬ ∀ (src : List UInt8) (cchSrc : Int) (n cchDst : ℕ),
      (winprConvertUTF8toUTF16 src cchSrc 0).length = some n → n ≤ cchDst → cchDst < 2 ^ 31 →
      (winprConvertUTF8toUTF16 src cchSrc cchDst).dst.length = n := by
  intro h
  have hfirst (room : Option ℕ) (hroom : room.any (· = 0) = false) :
      utf8Turn strictConversion room [0x41, 0xFF] = .ok ([0x41], 0) := by
    simp [utf8Turn, hroom, extraBytesToRead, byteAt, trailingBytesForUTF8, IsLegalUTF8,
      sequenceValue, offsetsFromUTF8, List.range_succ]
  have hlast (room : Option ℕ) : utf8Turn strictConversion room [0xFF] = .error sourceExhausted := by
    simp [utf8Turn, extraBytesToRead, byteAt, trailingBytesForUTF8]
  have hwritten := h [0x41, 0xFF] 2 0 1
  simp [winprConvertUTF8toUTF16, sourceOf, call, convert, hfirst, hlast] at hwritten

theorem exists_dst {α β γ : Type} {turn : Turn α β ConversionResult} {p : γ → Prop}
    {f : γ → List β} (hturn : ∀ room source chunk extra, turn room source = .ok (chunk, extra) →
      ∃ c, p c ∧ f c = chunk) (source : List α) (cchDst : ℕ) :
    ∃ cs : List γ, (∀ c ∈ cs, p c) ∧ (call turn source cchDst).dst = cs.flatMap f := by
  obtain ⟨cs, hcs, htarget⟩ := exists_flatMap hturn
  have hdst : (call turn source cchDst).dst = if cchDst = 0 then [] else
      (convert conversionOK turn (if cchDst = 0 then none else some cchDst) source []).target := by
    unfold call
    dsimp only
    split <;> rfl
  rw [hdst]
  split
  · exact ⟨[], by simp⟩
  · exact ⟨cs, hcs, htarget⟩

/-- **What is written is well formed**, whatever the source and however short the target: no half
of a pair, and no part of a sequence. -/
theorem dst_wellFormed (cchSrc : Int) (cchDst : ℕ) :
    (∀ src, ∃ scalars : List ℕ, (∀ cp ∈ scalars, IsScalar cp) ∧
      (winprConvertUTF8toUTF16 src cchSrc cchDst).dst = scalars.flatMap units) ∧
    ∀ src, ∃ scalars : List ℕ, (∀ cp ∈ scalars, IsScalar cp) ∧
      (winprConvertUTF16toUTF8 src cchSrc cchDst).dst = scalars.flatMap encodeScalar := by
  refine ⟨fun src => exists_dst ?_ _ _, fun src => exists_dst ?_ _ _⟩
  · intro room source chunk extra h
    by_cases haccepted : Accepted source
    · rw [utf8Turn_of_accepted haccepted] at h
      split at h <;> cases h
      exact ⟨_, haccepted.isScalar, rfl⟩
    · obtain ⟨result, -, hturn⟩ := utf8Turn_of_not_accepted haccepted
      cases (hturn room).symm.trans h
  · intro room source chunk extra h
    cases hread : readChar strictConversion source with
    | error result =>
      rw [utf16Turn, hread] at h
      cases h
    | ok x =>
      rw [utf16Turn, hread] at h
      replace h := (writeChar_eq (readChar_lt hread) _ room).symm.trans h
      split at h <;> cases h
      exact ⟨_, readChar_isScalar hread, rfl⟩

end UnicodeConversion
