/-
# Lengths and times in DER

The length fields of `asn1.c`, with `asn1WriteLen` and `readLen`, and its two digit UTC times.
-/
import XyDeskRemote.SizedWriter
import Mathlib.Data.List.Induction

open BigEndian List Option UInt8

namespace Asn1

/-! ## Length fields -/

/-- `asn1WriteLen`; `none` is the assertion. -/
def asn1WriteLen (len : ℕ) : Option (List UInt8) :=
  if len < 128 then some [UInt8.ofNat len]
  else if len < 2 ^ 8 then some (0x81 :: encode 1 len)
  else if len < 2 ^ 16 then some (0x82 :: encode 2 len)
  else if len < 2 ^ 24 then some (0x83 :: encode 3 len)
  else if len ≤ 2 ^ 32 - 1 then some (0x84 :: encode 4 len)
  else none

/-- `retLen = (retLen << 8) + tmp` over the length bytes, in a `size_t` of `w` bits. -/
def accumulate (w : ℕ) (tmps : List UInt8) : ℕ :=
  tmps.foldl (fun retLen tmp => (retLen * 256 % 2 ^ w + tmp.toNat) % 2 ^ w) 0

/-- `readLen`: the number of bytes read, the length, and the rest of the source. -/
def readLen (w : ℕ) (derCheck : Bool) : List UInt8 → Option (ℕ × ℕ × List UInt8)
  | [] => none
  | first :: s =>
    if 0x80 ≤ first.toNat then
      let nBytes := first.toNat % 128
      if s.length < nBytes then none
      else
        let ret := 1 + nBytes
        let retLen := accumulate w (s.take nBytes)
        -- the only test of the DER rule
        if derCheck ∧ ret > 1 ∧ retLen < 128 then none
        else some (ret, retLen, s.drop nBytes)
    else some (1, first.toNat, s)

/-- What a length field stands for; nothing when its end is missing or it is indefinite. -/
def lengthValue : List UInt8 → Option ℕ
  | [] => none
  | first :: s =>
    if first.toNat < 0x80 then some first.toNat
    else if first.toNat % 128 = 0 ∨ s.length < first.toNat % 128 then none
    else some (decode (s.take (first.toNat % 128)))

/-- A length that is read is the one that the field stands for, and in DER the field is the one
that is written for it. -/
def ReadRight (w : ℕ) (derCheck : Bool) (s : List UInt8) : Prop :=
  ∀ ret len rest, readLen w derCheck s = some (ret, len, rest) →
    lengthValue s = some len ∧ (derCheck → asn1WriteLen len = some (s.take ret))

/-- The long forms that are read wrongly: the indefinite one, numbers that do not fit the word,
and in DER, where a number below 128 is refused, forms longer than needed or than five bytes. -/
def Misread (w : ℕ) (derCheck : Bool) : List UInt8 → Prop
  | [] => False
  | first :: s =>
    let nBytes := first.toNat % 128
    let v := decode (s.take nBytes)
    0x80 ≤ first.toNat ∧ nBytes ≤ s.length ∧
      (nBytes = 0 ∨
        if derCheck then 128 ≤ v % 2 ^ w ∧ (4 < nBytes ∨ v < 256 ^ (nBytes - 1)) else 2 ^ w ≤ v)

/-! ### What is written -/

theorem decode_concat (bs : List UInt8) (b : UInt8) :
    decode (bs ++ [b]) = decode bs * 256 + b.toNat := by
  rw [decode, reverse_append, reverse_singleton, singleton_append, LittleEndian.decode, decode]
  omega

theorem decode_lt (bs : List UInt8) : decode bs < 256 ^ bs.length := by
  rw [← length_reverse]
  exact LittleEndian.decode_lt bs.reverse

theorem encode_decode (bs : List UInt8) :
    encode bs.length (decode bs) = bs := by
  rw [← length_reverse, encode, decode, LittleEndian.encode_decode, reverse_reverse]

/-- The loop computes the number modulo the word. -/
theorem accumulate_eq (w : ℕ) (tmps : List UInt8) :
    accumulate w tmps = decode tmps % 2 ^ w := by
  induction tmps using reverseRecOn with
  | nil => exact (Nat.zero_mod _).symm
  | append_singleton tmps tmp ih =>
    rw [accumulate, foldl_concat, ← accumulate, ih, decode_concat, Nat.mod_mul_mod, Nat.mod_add_mod]

/-- The long form of a length that has `n` bytes and no fewer. -/
theorem asn1WriteLen_long {n v : ℕ} (hn : 1 ≤ n) (hfour : n ≤ 4) (hv : 128 ≤ v)
    (hlow : 256 ^ (n - 1) ≤ v) (hhigh : v < 256 ^ n) :
    asn1WriteLen v = some (UInt8.ofNat (0x80 + n) :: encode n v) := by
  unfold asn1WriteLen
  rw [if_neg (by omega)]
  obtain rfl | rfl | rfl | rfl : n = 1 ∨ n = 2 ∨ n = 3 ∨ n = 4 := by omega
  · exact if_pos (by omega)
  · rw [if_neg (by omega)]
    exact if_pos (by omega)
  · rw [if_neg (by omega), if_neg (by omega)]
    exact if_pos (by omega)
  · rw [if_neg (by omega), if_neg (by omega), if_neg (by omega)]
    exact if_pos (by omega)

/-- No long form that is written has more bytes than needed. -/
theorem length_asn1WriteLen {v : ℕ} {bs : List UInt8} (h : asn1WriteLen v = some bs)
    (hv : 128 ≤ v) : ∃ n ≤ 4, bs.length = 1 + n ∧ 256 ^ (n - 1) ≤ v := by
  unfold asn1WriteLen at h
  rw [if_neg (by omega)] at h
  split at h
  · cases h
    exact ⟨1, by decide, rfl, by omega⟩
  split at h
  · cases h
    exact ⟨2, by decide, rfl, by omega⟩
  split at h
  · cases h
    exact ⟨3, by decide, rfl, by omega⟩
  split at h
  · cases h
    exact ⟨4, by decide, rfl, by omega⟩
  · cases h

/-! ### What is read -/

/-- A long form whose bytes are all there. -/
theorem readRight_long_iff {w : ℕ} (hw : 32 ≤ w) (derCheck : Bool) {first : UInt8}
    {s : List UInt8} (hlong : 0x80 ≤ first.toNat) (hthere : first.toNat % 128 ≤ s.length) :
    ReadRight w derCheck (first :: s) ↔ ¬ Misread w derCheck (first :: s) := by
  have hfirst : first = UInt8.ofNat (0x80 + first.toNat % 128) := by
    have hbyte := first.toNat_lt
    rw [show 0x80 + first.toNat % 128 = first.toNat by omega, UInt8.ofNat_toNat]
  unfold ReadRight Misread readLen lengthValue
  dsimp only
  rw [if_pos hlong, if_neg (show ¬ first.toNat < 0x80 by omega)]
  generalize first.toNat % 128 = n at hfirst hthere ⊢
  have htaken : (s.take n).length = n := by
    rw [length_take]
    omega
  have hlt := decode_lt (s.take n)
  have hencode := encode_decode (s.take n)
  rw [htaken] at hlt hencode
  have hused : (first :: s).take (1 + n) = first :: s.take n := by
    rw [Nat.add_comm, take_succ_cons]
  rw [if_neg (by omega), accumulate_eq]
  generalize decode (s.take n) = v at hlt hencode ⊢
  constructor
  · rintro h ⟨-, -, hwrong⟩
    rcases hwrong with rfl | hwrong
    · -- the indefinite form
      have hread := h 1 (v % 2 ^ w) (s.drop 0) (if_neg (by omega))
      exact absurd hread.1 (by simp)
    · cases derCheck with
      | false =>
        have hread := h (1 + n) (v % 2 ^ w) (s.drop n) (if_neg (by simp))
        obtain ⟨-, hv⟩ := ite_none_left_eq_some.1 hread.1
        have hmod := Nat.mod_lt v (Nat.two_pow_pos w)
        rw [← some.inj hv] at hmod
        exact absurd hmod (Nat.not_lt.2 hwrong)
      | true =>
        obtain ⟨hlarge, hwrong⟩ := hwrong
        have hread := h (1 + n) (v % 2 ^ w) (s.drop n) (if_neg (by omega))
        obtain ⟨-, hv⟩ := ite_none_left_eq_some.1 hread.1
        have hwritten := hread.2 rfl
        rw [← some.inj hv] at hlarge hwritten
        obtain ⟨m, hm, hlength, hleast⟩ := length_asn1WriteLen hwritten hlarge
        rw [hused, length_cons, htaken] at hlength
        obtain rfl : m = n := by omega
        omega
  · intro hright ret len rest h
    obtain ⟨haccepted, heq⟩ := ite_none_left_eq_some.1 h
    cases heq
    have hn : n ≠ 0 := fun hzero => hright ⟨hlong, hthere, Or.inl hzero⟩
    have hnot : ¬ (if derCheck = true then 128 ≤ v % 2 ^ w ∧ (4 < n ∨ v < 256 ^ (n - 1))
        else 2 ^ w ≤ v) := fun hwrong => hright ⟨hlong, hthere, Or.inr hwrong⟩
    rw [if_neg (by omega), hused]
    cases derCheck with
    | false =>
      rw [if_neg (by decide)] at hnot
      rw [Nat.mod_eq_of_lt (by omega)]
      exact ⟨rfl, nofun⟩
    | true =>
      rw [if_pos rfl] at hnot
      have hlarge : 128 ≤ v % 2 ^ w := by
        by_contra hsmall
        exact haccepted ⟨rfl, by omega, by omega⟩
      have hfour : n ≤ 4 ∧ 256 ^ (n - 1) ≤ v := by
        by_contra hless
        exact hnot ⟨hlarge, by omega⟩
      have hword : v < 2 ^ w := by
        calc v < 256 ^ n := hlt
          _ ≤ 256 ^ 4 := Nat.pow_le_pow_right (by decide) hfour.1
          _ = 2 ^ 32 := by decide
          _ ≤ 2 ^ w := Nat.pow_le_pow_right (by decide) hw
      rw [Nat.mod_eq_of_lt hword] at hlarge ⊢
      refine ⟨rfl, fun _ => ?_⟩
      rw [asn1WriteLen_long (by omega) hfour.1 hlarge hfour.2 hlt, hencode, ← hfirst]

/-- **A length field is read rightly** unless it is one of the forms that are not. -/
theorem readLen_right_iff {w : ℕ} (hw : 32 ≤ w) (derCheck : Bool) (s : List UInt8) :
    ReadRight w derCheck s ↔ ¬ Misread w derCheck s := by
  cases s with
  | nil => exact iff_of_true (fun _ _ _ h => nomatch h) id
  | cons first s =>
    by_cases hshort : first.toNat < 0x80
    · refine iff_of_true ?_ fun h => absurd h.1 (by omega)
      intro ret len rest h
      rw [readLen, if_neg (by omega)] at h
      cases h
      rw [lengthValue, if_pos hshort, asn1WriteLen, if_pos hshort, UInt8.ofNat_toNat]
      exact ⟨rfl, fun _ => rfl⟩
    · by_cases hmissing : s.length < first.toNat % 128
      · refine iff_of_true ?_ fun h => absurd h.2.1 (by omega)
        intro ret len rest h
        rw [readLen, if_pos (by omega)] at h
        cases (if_pos hmissing).symm.trans h
      · exact readRight_long_iff hw derCheck (by omega) (by omega)

/-- The length 300 in three bytes. -/
theorem readLen_right_iff_three : ReadRight 64 true [0x82, 1, 44, 7] :=
  (readLen_right_iff (by decide) true _).2 (by unfold Misread; decide)

/-- **Length fields that are read wrongly**: 128 with a zero in front, also in DER, an
indefinite length that is taken for zero, and a number of nine bytes that loses the first. -/
theorem readLen_misread :
    readLen 64 true [0x82, 0, 128] = some (3, 128, []) ∧ asn1WriteLen 128 = some [0x81, 128] ∧
      readLen 64 true [0x80] = some (1, 0, []) ∧
      readLen 64 false [0x89, 1, 0, 0, 0, 0, 0, 0, 0, 5] = some (10, 5, []) ∧
      ¬ ∀ derCheck s, ReadRight 64 derCheck s := by
  refine ⟨by decide, by decide, by decide, by decide, fun h => ?_⟩
  exact absurd (h true [0x80] 1 0 [] (by decide)).1 (by decide)

/-! ## UTC times -/

/-- `WinPrAsn1_UTCTIME`. -/
structure UtcTime where
  year : UInt16
  month : UInt8
  day : UInt8
  hour : UInt8
  minute : UInt8
  second : UInt8
  tz : UInt8
  deriving DecidableEq

/-- A calendar time with a year of two digits. -/
structure UtcTime.Calendar (utc : UtcTime) : Prop where
  year : 2000 ≤ utc.year.toNat ∧ utc.year.toNat ≤ 2099
  month : 1 ≤ utc.month.toNat ∧ utc.month.toNat ≤ 12
  day : 1 ≤ utc.day.toNat ∧ utc.day.toNat ≤ 31
  hour : utc.hour.toNat ≤ 23
  minute : utc.minute.toNat ≤ 59
  second : utc.second.toNat ≤ 59

/-- `write2digit`. -/
def write2digit (v : UInt8) : List UInt8 := [0x30 + v / 10, 0x30 + v % 10]

/-- The fields behind the tag and the length. -/
def utcFields (utc : UtcTime) : List UInt8 :=
  write2digit (UInt16.toUInt8 (utc.year - 2000)) ++ write2digit utc.month ++
    write2digit utc.day ++ write2digit utc.hour ++ write2digit utc.minute ++
    write2digit utc.second ++ [utc.tz]

/-- `WinPrAsn1EncUtcTime`; `none` is the assertion. -/
def encUtcTime (utc : UtcTime) : Option (List UInt8) :=
  if 2000 ≤ utc.year.toNat then some ([0x17, 13] ++ utcFields utc) else none

/-- `WinPrAsn1EncContextualUtcTime`; `none` is one of the assertions. -/
def encContextualUtcTime (tagId : UInt8) (utc : UtcTime) : Option (List UInt8) :=
  if tagId < 64 ∧ 2000 ≤ utc.year.toNat ∧ utc.year.toNat < 2256 then
    some ([0xA0 ||| tagId, 15] ++ ([0x17, 13] ++ utcFields utc))
  else none

/-- The value of a digit. -/
def digitValue (c : UInt8) : Option ℕ :=
  if c < 0x30 ∨ c > 0x39 then none else some (c.toNat - 0x30)

/-- `read2digits`, with its answer -1. -/
def read2digits : List UInt8 → Option (ℤ × List UInt8)
  | c :: d :: s =>
    match digitValue c, digitValue d with
    | some tens, some ones => some (tens * 10 + ones, s)
    | _, _ => some (-1, s)
  | _ => none

/-- A field of a time: what is no two digits, zero, or too large, is refused. -/
def readField (bound : ℤ) (s : List UInt8) : Option (ℕ × List UInt8) :=
  (read2digits s).bind fun v => if v.1 ≤ 0 ∨ v.1 > bound then none else some (v.1.toNat, v.2)

/-- `readTagAndLen`. -/
def readTagAndLen (w : ℕ) (derCheck : Bool) : List UInt8 → Option (ℕ × UInt8 × ℕ × List UInt8)
  | [] => none
  | tag :: s => (readLen w derCheck s).map fun r => (1 + r.1, tag, r.2)

/-- `WinPrAsn1DecReadUtcTime`: the number of bytes read, the time, and the rest of the source.  A
time zone that is missing is the one in `target`. -/
def decReadUtcTime (w : ℕ) (derCheck : Bool) (target : UtcTime) (source : List UInt8) :
    Option (ℕ × UtcTime × List UInt8) := do
  let (ret, tag, len, source) ← readTagAndLen w derCheck source
  if tag ≠ 0x17 ∨ source.length < len ∨ len < 12 then none
  else
    let (year, s) ← readField (0xFFFF - 2000 - 1) (source.take len)
    let (month, s) ← readField 0xFF s
    let (day, s) ← readField 0xFF s
    let (hour, s) ← readField 0xFF s
    let (minute, s) ← readField 0xFF s
    let (second, s) ← readField 0xFF s
    some (ret + len,
      { year := UInt16.ofNat (2000 + year)
        month := UInt8.ofNat month
        day := UInt8.ofNat day
        hour := UInt8.ofNat hour
        minute := UInt8.ofNat minute
        second := UInt8.ofNat second
        tz := s.headD target.tz },
      source.drop len)

/-- A time is read back from what is written for it, alone or inside of another value. -/
def RoundTrips (utc : UtcTime) : Prop :=
  ∀ w derCheck target,
    (∃ bytes, encUtcTime utc = some bytes ∧
      decReadUtcTime w derCheck target bytes = some (bytes.length, utc, [])) ∧
    ∀ tagId < 64, ∃ bytes, encContextualUtcTime tagId utc = some bytes ∧
      decReadUtcTime w derCheck target (bytes.drop 2) = some (bytes.length - 2, utc, [])

/-! ### Two digits -/

theorem digitValue_write2digit : ∀ n < 100,
    digitValue (0x30 + UInt8.ofNat n / 10) = some (n / 10) ∧
      digitValue (0x30 + UInt8.ofNat n % 10) = some (n % 10) := by
  decide

theorem read2digits_write2digit {v : UInt8} (h : v.toNat < 100) (s : List UInt8) :
    read2digits (write2digit v ++ s) = some ((v.toNat : ℤ), s) := by
  obtain ⟨htens, hones⟩ := digitValue_write2digit v.toNat h
  rw [UInt8.ofNat_toNat] at htens hones
  rw [write2digit, cons_append, singleton_append, read2digits, htens, hones]
  dsimp only
  congr 2
  omega

/-- **A field is read back** unless it is zero. -/
theorem readField_write2digit {v : UInt8} (h : v.toNat < 100) {bound : ℤ} (hbound : 99 ≤ bound)
    (s : List UInt8) :
    readField bound (write2digit v ++ s) = if v.toNat = 0 then none else some (v.toNat, s) := by
  rw [readField, read2digits_write2digit h, bind_some]
  dsimp only
  by_cases hv : v.toNat = 0
  · rw [if_pos hv, if_pos (by omega)]
  · rw [if_neg hv, if_neg (by omega), Int.toNat_natCast]

/-! ### Reading back -/

theorem decReadUtcTime_utcFields {utc : UtcTime} (h : utc.Calendar) (w : ℕ) (derCheck : Bool)
    (target : UtcTime) :
    decReadUtcTime w derCheck target ([0x17, 13] ++ utcFields utc) =
      if utc.year.toNat = 2000 ∨ utc.hour.toNat = 0 ∨ utc.minute.toNat = 0 ∨ utc.second.toNat = 0
        then none
      else some (15, utc, []) := by
  obtain ⟨⟨hlow, hhigh⟩, ⟨hmonth, hmonth'⟩, ⟨hday, hday'⟩, hhour, hminute, hsecond⟩ := h
  have hyear : (UInt16.toUInt8 (utc.year - 2000)).toNat = utc.year.toNat - 2000 := by
    have hle : (2000 : UInt16) ≤ utc.year := UInt16.le_iff_toNat_le.2 hlow
    rw [UInt16.toNat_toUInt8, UInt16.toNat_sub_of_le _ _ hle]
    show (utc.year.toNat - 2000) % 256 = utc.year.toNat - 2000
    omega
  have hlength : (utcFields utc).length = 13 := rfl
  have htag : readTagAndLen w derCheck ([0x17, 13] ++ utcFields utc) =
      some (2, 0x17, 13, utcFields utc) := rfl
  unfold decReadUtcTime
  rw [htag, bind_eq_bind, bind_some]
  dsimp only
  rw [if_neg (by rw [hlength]; decide), take_of_length_le hlength.le, drop_of_length_le hlength.le]
  unfold utcFields
  simp only [append_assoc, bind_eq_bind]
  rw [readField_write2digit (by omega) (by decide), hyear]
  by_cases hyear₀ : utc.year.toNat = 2000
  · rw [if_pos (by omega), if_pos (Or.inl hyear₀), bind_none]
  rw [if_neg (by omega), bind_some, readField_write2digit (by omega) (by decide),
    if_neg (by omega), bind_some, readField_write2digit (by omega) (by decide),
    if_neg (by omega), bind_some, readField_write2digit (by omega) (by decide)]
  by_cases hhour₀ : utc.hour.toNat = 0
  · rw [if_pos hhour₀, if_pos (by omega), bind_none]
  rw [if_neg hhour₀, bind_some, readField_write2digit (by omega) (by decide)]
  by_cases hminute₀ : utc.minute.toNat = 0
  · rw [if_pos hminute₀, if_pos (by omega), bind_none]
  rw [if_neg hminute₀, bind_some, readField_write2digit (by omega) (by decide)]
  by_cases hsecond₀ : utc.second.toNat = 0
  · rw [if_pos hsecond₀, if_pos (by omega), bind_none]
  have hback : 2000 + (utc.year.toNat - 2000) = utc.year.toNat := by omega
  rw [if_neg hsecond₀, if_neg (by omega), bind_some, hback]
  simp only [UInt16.ofNat_toNat, UInt8.ofNat_toNat]
  rfl

/-- **A calendar time is read back** unless its year is 2000, or its hour, its minute or its
second is zero. -/
theorem utcTime_roundTrips_iff {utc : UtcTime} (h : utc.Calendar) :
    RoundTrips utc ↔ utc.year.toNat ≠ 2000 ∧ utc.hour.toNat ≠ 0 ∧ utc.minute.toNat ≠ 0 ∧
      utc.second.toNat ≠ 0 := by
  have hlow := h.year.1
  have hhigh := h.year.2
  have hwritten : encUtcTime utc = some ([0x17, 13] ++ utcFields utc) := if_pos hlow
  constructor
  · intro hback
    obtain ⟨⟨bytes, hbytes, hread⟩, -⟩ := hback 64 true utc
    obtain rfl := some.inj (hwritten.symm.trans hbytes)
    rw [decReadUtcTime_utcFields h] at hread
    obtain ⟨hnone, -⟩ := ite_none_left_eq_some.1 hread
    omega
  · intro hnone w derCheck target
    have hread := decReadUtcTime_utcFields h w derCheck target
    rw [if_neg (by omega)] at hread
    refine ⟨⟨_, hwritten, hread⟩, fun tagId htag => ⟨_, if_pos ⟨htag, hlow, by omega⟩, hread⟩⟩

/-- The last second of the last year. -/
theorem utcTime_roundTrips_iff_last : RoundTrips ⟨2099, 12, 31, 23, 59, 59, 0x5A⟩ :=
  (utcTime_roundTrips_iff ⟨by decide, by decide, by decide, by decide, by decide, by decide⟩).2
    (by decide)

/-- **Midnight is not read back.** -/
theorem utcTime_midnight : ¬ ∀ utc : UtcTime, utc.Calendar → RoundTrips utc := by
  intro h
  obtain ⟨⟨bytes, hbytes, hread⟩, -⟩ := h ⟨2024, 5, 17, 0, 30, 30, 0x5A⟩
    ⟨by decide, by decide, by decide, by decide, by decide, by decide⟩ 64 true
    ⟨2024, 5, 17, 0, 30, 30, 0x5A⟩
  obtain rfl := some.inj hbytes
  exact absurd hread (by decide)

end Asn1
