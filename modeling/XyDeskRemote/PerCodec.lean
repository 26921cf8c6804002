/-
# Packed encoding rules

The fields of the connection sequence that `per.c` writes and reads: lengths in one or two bytes,
integers behind their own length, numbers that are counted from a minimum, strings that the
receiver knows and compares, and digits in half bytes.
-/
import Mathlib.Data.Nat.Bitwise
import XyDeskRemote.SizedWriter

open SizedWriter ByteReader BigEndian List Nat

/-! ## Lengths -/

/-- `per_read_length`. -/
def perReadLength : ByteReader ℕ := do
  require 1
  let byte ← uint8
  if byte &&& 0x80 ≠ 0 then do
    require 1
    let low ← uint8
    return ((byte &&& 0x7F) <<< 8) + low
  else return byte

/-- `per_write_length`. -/
def perWriteLength (length : ℕ) : SizedWriter Unit :=
  if length > 0x7F then do
    ensureRemainingCapacity 2
    uint16BE (length ||| 0x8000)
  else do
    ensureRemainingCapacity 1
    uint8 length

/-! ## Numbers -/

/-- `per_read_integer`. -/
def perReadInteger : ByteReader ℕ := do
  let length ← perReadLength
  require length
  if length = 0 then return 0
  else if length = 1 then uint8
  else if length = 2 then uint16BE
  else failure

/-- `per_write_integer`. -/
def perWriteInteger (integer : ℕ) : SizedWriter Unit :=
  if integer ≤ 0xFF then do
    perWriteLength 1
    ensureRemainingCapacity 1
    uint8 integer
  else if integer ≤ 0xFFFF then do
    perWriteLength 2
    ensureRemainingCapacity 2
    uint16BE integer
  else if integer ≤ 0xFFFFFFFF then do
    perWriteLength 4
    ensureRemainingCapacity 4
    uint32BE integer
  else return ()

/-- `per_read_integer16`. -/
def perReadInteger16 (min : ℕ) : ByteReader ℕ := do
  require 2
  let integer ← uint16BE
  ensure (integer ≤ 0xFFFF - min)
  return integer + min

/-- `per_write_integer16`. -/
def perWriteInteger16 (integer min : ℕ) : SizedWriter Unit := do
  check (min ≤ integer)
  ensureRemainingCapacity 2
  uint16BE (integer - min)

/-- `per_read_enumerated`. -/
def perReadEnumerated (count : ℕ) : ByteReader ℕ := do
  require 1
  let enumerated ← uint8
  ensure (enumerated + 1 ≤ count)
  return enumerated

/-- `per_write_enumerated`. -/
def perWriteEnumerated (enumerated : ℕ) : SizedWriter Unit := do
  ensureRemainingCapacity 1
  uint8 enumerated

/-! ## Strings -/

/-- The length that is written for a string of `length` characters, `min` of which are not
counted. -/
def perStringLength (length min : ℕ) : ℕ := if length ≥ min then length - min else min

/-- `per_read_octet_string`, which expects `octStr`. -/
def perReadOctetString (octStr : List UInt8) (min : ℕ) : ByteReader Unit := do
  let mlength ← perReadLength
  ensure (mlength + min = octStr.length)
  require octStr.length
  let aOctStr ← ByteReader.bytes octStr.length
  ensure (aOctStr = octStr)

/-- `per_write_octet_string`. -/
def perWriteOctetString (octStr : List UInt8) (min : ℕ) : SizedWriter Unit := do
  perWriteLength (perStringLength octStr.length min)
  ensureRemainingCapacity octStr.length
  octStr.forM fun b => uint8 b.toNat

/-- `per_read_numeric_string`: the digits are skipped. -/
def perReadNumericString (min : ℕ) : ByteReader Unit := do
  let mlength ← perReadLength
  let length := (mlength + min + 1) / 2
  require length
  let _ ← ByteReader.bytes length

/-- Two digits in a byte. -/
def digitPair (c₁ c₂ : ℕ) : ℕ := (((c₁ - 0x30) % 10) <<< 4) ||| ((c₂ - 0x30) % 10)

/-- The loop of `per_write_numeric_string`, whose index is a `UINT16`, for `rounds` rounds at
most. -/
def perWriteDigits (numStr : List UInt8) : ℕ → ℕ → SizedWriter Unit
  | rounds, i =>
    if i < numStr.length then
      match rounds with
      | 0 => assert False
      | rounds + 1 => do
        let c₁ := (numStr.getD i 0).toNat
        let c₂ := if i + 1 < numStr.length then (numStr.getD (i + 1) 0).toNat else 0x30
        check (0x30 ≤ c₁ ∧ 0x30 ≤ c₂)
        uint8 (digitPair c₁ c₂)
        perWriteDigits numStr rounds ((i + 2) % 0x10000)
    else return ()

/-- `per_write_numeric_string`.  Each round of its loop takes a byte of the stream, so that there
are not more rounds than these. -/
def perWriteNumericString (numStr : List UInt8) (min : ℕ) : SizedWriter Unit := do
  perWriteLength (perStringLength numStr.length min)
  ensureRemainingCapacity numStr.length
  let room ← getRemainingCapacity
  perWriteDigits numStr (room + 1) 0

/-! ## What is written for a length -/

/-- The bytes of a length. -/
def perLength (length : ℕ) : List UInt8 :=
  if length > 0x7F then encode 2 (length ||| 0x8000) else [UInt8.ofNat length]

theorem or_topBit {length : ℕ} (h : length < 0x10000) :
    length ||| 0x8000 = length % 0x8000 + 0x8000 := by
  have hlow : length % 0x8000 < 2 ^ 15 := mod_lt _ (by decide)
  have hadd := two_pow_add_eq_or_of_lt hlow 1
  rw [mul_one] at hadd
  rcases lt_or_ge length 0x8000 with hsmall | hlarge
  · rw [mod_eq_of_lt hsmall] at hadd ⊢
    rw [Nat.or_comm, Nat.add_comm]
    exact hadd.symm
  · -- the bit is set already
    have hlength : length = 0x8000 ||| length % 0x8000 := by
      refine Eq.trans ?_ hadd
      omega
    rw [hlength, Nat.or_comm, ← Nat.or_assoc, Nat.or_self, ← hlength]
    omega

theorem byte_topBit {byte : ℕ} (h : byte < 0x100) :
    (byte &&& 0x80 ≠ 0 ↔ 0x80 ≤ byte) ∧ byte &&& 0x7F = byte % 0x80 := by
  have hbit : byte &&& 0x80 = (byte.testBit 7).toNat * 2 ^ 7 := and_two_pow byte 7
  rw [toNat_testBit] at hbit
  refine ⟨?_, and_two_pow_sub_one_eq_mod byte 7⟩
  rw [hbit]
  omega

theorem appends_perWriteLength {length : ℕ} (h : length < 0x10000) :
    Appends 0 (perWriteLength length) (perLength length) () 0 := by
  unfold perWriteLength perLength
  split
  next hlong =>
    have htop := or_topBit h
    exact (appends_ensureRemainingCapacity 2).after (appends_uint16BE (by omega) le_rfl)
  next hshort =>
    exact (appends_ensureRemainingCapacity 1).after (appends_uint8 (by omega) le_rfl)

/-- Two bytes, the high one first. -/
theorem encode_two (v : ℕ) :
    encode 2 v = [UInt8.ofNat (v / 256)] ++ [UInt8.ofNat v] := rfl

/-- **A length is read** without its bits above the fifteenth. -/
theorem takes_perReadLength {length : ℕ} (h : length < 0x10000) :
    ByteReader.Takes perReadLength (perLength length) (some (length % 0x8000)) := by
  unfold perReadLength perLength
  split
  next hlong =>
    have htop := or_topBit h
    have hhigh : (length ||| 0x8000) / 256 < 0x100 := by omega
    obtain ⟨htag, hkeep⟩ := byte_topBit hhigh
    rw [encode_two]
    refine ByteReader.Takes.require one_le_two ((takes_uint8 hhigh).bind ?_)
    rw [if_pos (htag.2 (by omega)), hkeep]
    have hlow : UInt8.ofNat (length ||| 0x8000) = UInt8.ofNat ((length ||| 0x8000) % 256) := by
      apply UInt8.toNat_inj.1
      rw [UInt8.toNat_ofNat', UInt8.toNat_ofNat', mod_mod]
    have hsum : (((length ||| 0x8000) / 256 % 0x80) <<< 8) + (length ||| 0x8000) % 256 =
        length % 0x8000 := by
      rw [shiftLeft_eq]
      omega
    rw [hlow, ← hsum]
    exact ByteReader.Takes.require le_rfl
      ((takes_uint8 (mod_lt _ (by decide))).bind (takes_pure _))
  next hshort =>
    obtain ⟨htag, -⟩ := byte_topBit (show length < 0x100 by omega)
    refine ByteReader.Takes.require le_rfl
      ((takes_uint8 (by omega)).bind ?_)
    rw [if_neg (by rw [htag]; omega), mod_eq_of_lt (by omega)]
    exact takes_pure length

/-! ## What is written for digits -/

/-- The bytes of digits; the last one stands alone when their number is odd. -/
def digitBytes : List UInt8 → List UInt8
  | [] => []
  | [c] => [UInt8.ofNat (digitPair c.toNat 0x30)]
  | c₁ :: c₂ :: numStr => UInt8.ofNat (digitPair c₁.toNat c₂.toNat) :: digitBytes numStr

/-- The characters from `0` to `9`. -/
def IsDigit (c : UInt8) : Prop := 0x30 ≤ c.toNat ∧ c.toNat ≤ 0x39

theorem length_digitBytes (numStr : List UInt8) :
    (digitBytes numStr).length = (numStr.length + 1) / 2 := by
  induction numStr using digitBytes.induct with
  | case1 => rfl
  | case2 c => rw [digitBytes, length_singleton, length_singleton]
  | case3 c₁ c₂ numStr ih =>
    rw [digitBytes, length_cons, ih, length_cons, length_cons]
    omega

theorem digitPair_le (c₁ c₂ : ℕ) : digitPair c₁ c₂ ≤ 0xFF := by
  have hhigh : ((c₁ - 0x30) % 10) <<< 4 < 2 ^ 8 := by
    rw [shiftLeft_eq]
    omega
  have hlow : (c₂ - 0x30) % 10 < 2 ^ 8 := by omega
  exact le_of_lt_succ (or_lt_two_pow hhigh hlow)

/-- **The loop over the digits** ends with all of them written, when its index can pass the last
one. -/
theorem appends_perWriteDigits {numStr : List UInt8} (hdigits : ∀ c ∈ numStr, IsDigit c)
    (hlength : numStr.length ≤ 0xFFFE) {rounds i n : ℕ} (hrounds : numStr.length < i + rounds)
    (hn : (digitBytes (numStr.drop i)).length ≤ n) :
    Appends n (perWriteDigits numStr rounds i) (digitBytes (numStr.drop i)) ()
      (n - (digitBytes (numStr.drop i)).length) := by
  induction rounds generalizing i n with
  | zero =>
    rw [perWriteDigits, if_neg (by omega), drop_eq_nil_of_le (by omega)]
    exact appends_pure () n
  | succ rounds ih =>
    rw [perWriteDigits]
    split
    next hi =>
      have hnext : (i + 2) % 0x10000 = i + 2 := mod_eq_of_lt (by omega)
      have hdigit (j : ℕ) (hj : j < numStr.length) : 0x30 ≤ (numStr.getD j 0).toNat := by
        rw [getD_eq_getElem _ _ hj]
        exact (hdigits _ (getElem_mem hj)).1
      -- the pair in front, and the digits behind it
      have hpair : digitBytes (numStr.drop i) =
          UInt8.ofNat (digitPair (numStr.getD i 0).toNat
            (if i + 1 < numStr.length then (numStr.getD (i + 1) 0).toNat else 0x30)) ::
          digitBytes (numStr.drop (i + 2)) := by
        rw [drop_eq_getElem_cons hi, getD_eq_getElem _ _ hi]
        split
        next hj =>
          rw [drop_eq_getElem_cons hj, getD_eq_getElem _ _ hj]
          rfl
        next hj =>
          rw [drop_eq_nil_of_le (by omega : numStr.length ≤ i + 1),
            drop_eq_nil_of_le (by omega : numStr.length ≤ i + 2)]
          rfl
      have hsecond : 0x30 ≤ if i + 1 < numStr.length then (numStr.getD (i + 1) 0).toNat
          else 0x30 := by
        split
        next hj => exact hdigit _ hj
        next => exact le_rfl
      rw [hpair, length_cons] at hn ⊢
      have hroom : n - ((digitBytes (numStr.drop (i + 2))).length + 1) =
          n - 1 - (digitBytes (numStr.drop (i + 2))).length := by omega
      rw [hroom]
      refine (appends_check ⟨hdigit i hi, hsecond⟩ n).after ?_
      refine (appends_uint8 (digitPair_le _ _) (by omega)).bind ?_
      rw [hnext]
      exact ih (by omega) (by omega)
    next hi =>
      rw [drop_eq_nil_of_le (by omega)]
      exact appends_pure () n

/-- The loop over 65535 digits does not end but with the stream. -/
theorem perWriteDigits_fails {numStr : List UInt8} (hlength : numStr.length = 0xFFFF)
    (rounds : ℕ) {i : ℕ} (hi : i < 0xFFFF) (heven : i % 2 = 0) (s : WStream) :
    ∃ fault, perWriteDigits numStr rounds i s = .error fault := by
  induction rounds generalizing i s with
  | zero =>
    rw [perWriteDigits, if_pos (by omega)]
    exact ⟨_, rfl⟩
  | succ rounds ih =>
    rw [perWriteDigits, if_pos (by omega)]
    refine bind_fails (fun _ checked => bind_fails (fun _ put => ?_) checked) s
    exact ih (by omega) (by omega) put

/-! ## What is read back -/

/-- Something that is written and read in packed encoding. -/
inductive PerItem where
  | length (n : ℕ)
  | integer (n : ℕ)
  | integer16 (n min : ℕ)
  | enumerated (n count : ℕ)
  | octetString (octStr : List UInt8) (min : ℕ)
  | numericString (numStr : List UInt8) (min : ℕ)

namespace PerItem

/-- The values that the types of the arguments have, within what the field is for. -/
def WellFormed : PerItem → Prop
  | .length n => n ≤ 0x7FFF
  | .integer n => n < 2 ^ 32
  | .integer16 n min => min ≤ n ∧ n < 0x10000
  | .enumerated n m => n < m ∧ m < 0x100
  | .octetString octStr min => min ≤ octStr.length ∧ octStr.length < 0x10000
  | .numericString numStr min =>
    (∀ c ∈ numStr, IsDigit c) ∧ numStr.length < 0x10000 ∧ min < 0x10000

/-- The writer of a field. -/
def write : PerItem → SizedWriter Unit
  | .length n => perWriteLength n
  | .integer n => perWriteInteger n
  | .integer16 n min => perWriteInteger16 n min
  | .enumerated n _ => perWriteEnumerated n
  | .octetString octStr min => perWriteOctetString octStr min
  | .numericString numStr min => perWriteNumericString numStr min

/-- The matching reader takes all of `bs`, and has the value; the strings are known to it, or
passed over. -/
def ReadBack (bs : List UInt8) : PerItem → Prop
  | .length n => perReadLength bs = some (n, [])
  | .integer n => perReadInteger bs = some (n, [])
  | .integer16 n min => perReadInteger16 min bs = some (n, [])
  | .enumerated n m => perReadEnumerated m bs = some (n, [])
  | .octetString octStr min => perReadOctetString octStr min bs = some ((), [])
  | .numericString _ min => perReadNumericString min bs = some ((), [])

/-- Where the reader knows what the writer has written: an integer has at most two bytes, the
length of a string at most 15 bits.  Digits are not fewer than their minimum, apart from one
case in which the top bit of the minimum is lost on the way and makes up for it; and a `UINT16`
index gets past the last of them. -/
def Sound : PerItem → Prop
  | .integer n => n ≤ 0xFFFF
  | .octetString octStr min => octStr.length - min ≤ 0x7FFF
  | .numericString numStr min =>
    (min ≤ numStr.length ∧ numStr.length - min ≤ 0x7FFF ∧ numStr.length ≠ 0xFFFF) ∨
      (min = 0x8000 ∧ numStr.length = 0x7FFF)
  | _ => True

/-- The item is written, and what has been appended is read back. -/
def RoundTrips (item : PerItem) (s : WStream) (before : List UInt8) : Prop :=
  ∃ t bs, item.write s = .ok ((), t) ∧ t.written = before ++ bs ∧ item.ReadBack bs

end PerItem

section

variable {s : WStream} {before bs : List UInt8}

/-- What comes of an item whose bytes are known. -/
theorem PerItem.roundTrips_iff {m : ℕ} (item : PerItem) (hw : Appends 0 item.write bs () m)
    (hs : s.Written before 0) : item.RoundTrips s before ↔ item.ReadBack bs := by
  obtain ⟨t, ht, hwritten⟩ := hw s before hs
  constructor
  · rintro ⟨t', bs', ht', hbytes, hread⟩
    rw [ht] at ht'
    obtain ⟨-, rfl⟩ := Prod.mk.inj (Except.ok.inj ht')
    rw [hwritten.written_eq] at hbytes
    rwa [append_cancel_left hbytes]
  · exact fun hread => ⟨t, bs, ht, hwritten.written_eq, hread⟩

end

section

open ByteReader (Takes)

/-- The bytes of an integer, behind its length. -/
def perInteger (integer : ℕ) : List UInt8 :=
  if integer ≤ 0xFF then perLength 1 ++ [UInt8.ofNat integer]
  else if integer ≤ 0xFFFF then perLength 2 ++ encode 2 integer
  else perLength 4 ++ encode 4 integer

theorem appends_perWriteInteger {integer : ℕ} (h : integer < 2 ^ 32) :
    Appends 0 (perWriteInteger integer) (perInteger integer) () 0 := by
  unfold perWriteInteger perInteger
  split
  next hone =>
    refine (appends_perWriteLength (by decide)).bind ?_
    exact (appends_ensureRemainingCapacity 1).after (appends_uint8 hone le_rfl)
  next hone =>
    split
    next htwo =>
      refine (appends_perWriteLength (by decide)).bind ?_
      exact (appends_ensureRemainingCapacity 2).after (appends_uint16BE htwo le_rfl)
    next htwo =>
      rw [if_pos (by omega)]
      refine (appends_perWriteLength (by decide)).bind ?_
      exact (appends_ensureRemainingCapacity 4).after (appends_uint32BE _ le_rfl)

/-- **An integer of at most two bytes is read**, and a larger one is refused. -/
theorem takes_perReadInteger {integer : ℕ} :
    Takes perReadInteger (perInteger integer)
      (if integer ≤ 0xFFFF then some integer else none) := by
  unfold perReadInteger perInteger
  split
  next hone =>
    rw [if_pos (le_trans hone (by decide))]
    refine (takes_perReadLength (by decide)).bind (Takes.require le_rfl ?_)
    exact takes_uint8 (lt_succ_of_le hone)
  next hone =>
    split
    next htwo =>
      refine (takes_perReadLength (by decide)).bind (Takes.require ?_ ?_)
      · rw [length_encode]
      · exact @takes_numberBE 2 integer (lt_succ_of_le htwo)
    next htwo =>
      refine (takes_perReadLength (by decide)).bind (Takes.require ?_ ?_)
      · rw [length_encode]
      · exact takes_failure _

theorem perStringLength_lt {length min : ℕ} (hlength : length < 0x10000) (hmin : min < 0x10000) :
    perStringLength length min < 0x10000 := by
  unfold perStringLength
  split <;> omega

theorem appends_perWriteOctetString {octStr : List UInt8} {min : ℕ}
    (hmin : min ≤ octStr.length) (hlength : octStr.length < 0x10000) :
    Appends 0 (perWriteOctetString octStr min)
      (perLength (perStringLength octStr.length min) ++ octStr) () 0 := by
  have hstring := appends_forM_uint8 octStr le_rfl
  rw [Nat.sub_self] at hstring
  refine (appends_perWriteLength (perStringLength_lt hlength (by omega))).bind ?_
  exact (appends_ensureRemainingCapacity octStr.length).after hstring

/-- **A string is recognised** when its length is; otherwise it is refused. -/
theorem takes_perReadOctetString {octStr : List UInt8} {min : ℕ} (hmin : min ≤ octStr.length)
    (hlength : octStr.length < 0x10000) :
    Takes (perReadOctetString octStr min)
      (perLength (perStringLength octStr.length min) ++ octStr)
      (if octStr.length - min ≤ 0x7FFF then some () else none) := by
  have hcounted : perStringLength octStr.length min = octStr.length - min := if_pos hmin
  unfold perReadOctetString
  refine (takes_perReadLength (perStringLength_lt hlength (by omega))).bind ?_
  rw [hcounted]
  split
  next hshort =>
    refine Takes.passes (by omega) (Takes.require le_rfl ?_)
    have hrest : Takes (ensure (octStr = octStr)) [] (some ()) := by
      intro rest
      rw [ensure, if_pos rfl]
      rfl
    have hbytes := (takes_bytes octStr).bind
      (f := fun aOctStr => ensure (aOctStr = octStr)) hrest
    rwa [append_nil] at hbytes
  next hlong => exact Takes.stops _ (by omega)

theorem appends_perWriteNumericString {numStr : List UInt8} {min : ℕ}
    (hdigits : ∀ c ∈ numStr, IsDigit c) (hlength : numStr.length ≤ 0xFFFE)
    (hmin : min < 0x10000) :
    Appends 0 (perWriteNumericString numStr min)
      (perLength (perStringLength numStr.length min) ++ digitBytes numStr) () 0 := by
  refine (appends_perWriteLength (perStringLength_lt (by omega) hmin)).bind ?_
  refine (appends_ensureRemainingCapacity numStr.length).after (Appends.room fun room hroom => ?_)
  have hfits : (digitBytes numStr).length ≤ numStr.length := by
    rw [length_digitBytes]
    omega
  have hloop := @appends_perWriteDigits numStr hdigits hlength (room + 1) 0 numStr.length
    (by omega) hfits
  exact hloop.mono le_rfl (zero_le _)

theorem perWriteNumericString_fails {numStr : List UInt8} (hlength : numStr.length = 0xFFFF)
    (min : ℕ) (s : WStream) : ∃ fault, perWriteNumericString numStr min s = .error fault := by
  refine bind_fails (fun _ t => bind_fails (fun _ u => bind_fails (fun room v => ?_) u) t) s
  exact perWriteDigits_fails hlength (room + 1) (by decide) rfl v

/-- Digits are passed over when the reader expects as many bytes as there are. -/
theorem perReadNumericString_iff {numStr : List UInt8} {min : ℕ}
    (hlength : numStr.length < 0x10000) (hmin : min < 0x10000) :
    perReadNumericString min (perLength (perStringLength numStr.length min) ++ digitBytes numStr) =
        some ((), []) ↔
      (perStringLength numStr.length min % 0x8000 + min + 1) / 2 = (numStr.length + 1) / 2 := by
  have hmlength := takes_perReadLength (perStringLength_lt hlength hmin)
  unfold perReadNumericString
  rw [ByteReader.bind_apply, hmlength, Option.map_some, Option.bind_some]
  dsimp only
  generalize (perStringLength numStr.length min % 0x8000 + min + 1) / 2 = length
  rw [ByteReader.bind_apply, require, length_digitBytes]
  split
  next hfits =>
    rw [Option.bind_some]
    dsimp only
    rw [ByteReader.bind_apply, ByteReader.bytes, length_digitBytes, if_pos hfits, Option.bind_some]
    show some ((), (digitBytes numStr).drop length) = _ ↔ _
    rw [Option.some_inj, Prod.mk.injEq, and_iff_right rfl, drop_eq_nil_iff, length_digitBytes]
    omega
  next hshort => exact iff_of_false (fun h => Option.some_ne_none _ h.symm) (by omega)

/-- The byte counts agree for these lengths and minima only. -/
theorem digitCount_iff {length min : ℕ} (hlength : length < 0x10000) (hmin : min < 0x10000) :
    (perStringLength length min % 0x8000 + min + 1) / 2 = (length + 1) / 2 ↔
      (min ≤ length ∧ length - min ≤ 0x7FFF) ∨ (min = 0x8000 ∧ length = 0x7FFF) := by
  unfold perStringLength
  split <;> omega

end

open ByteReader (Takes) in
/-- **Which fields are read back.** A well-formed field is written, and the matching reader takes
what has been appended to its end and has the value, exactly when the field is one of the sound
ones. -/
theorem PerItem.roundTrips_iff_sound {s : WStream} {before : List UInt8} {item : PerItem}
    (hwf : item.WellFormed) (hs : s.Written before 0) :
    item.RoundTrips s before ↔ item.Sound := by
  cases item with
  | length length =>
    have hlength : length ≤ 0x7FFF := hwf
    have hlt : length < 0x10000 := by omega
    rw [roundTrips_iff (.length length) (appends_perWriteLength hlt) hs]
    refine iff_of_true ?_ trivial
    have hread := (takes_perReadLength hlt).eq
    rwa [mod_eq_of_lt (lt_succ_of_le hlength)] at hread
  | integer integer =>
    rw [roundTrips_iff (.integer integer) (appends_perWriteInteger hwf) hs]
    have hread := (@takes_perReadInteger integer).eq
    show perReadInteger (perInteger integer) = some (integer, []) ↔ integer ≤ 0xFFFF
    rw [hread]
    split
    next hsmall => exact iff_of_true rfl hsmall
    next hlarge => exact iff_of_false nofun hlarge
  | integer16 integer min =>
    have hwrite : Appends 0 (perWriteInteger16 integer min)
        (encode 2 (integer - min)) () 0 :=
      (appends_check hwf.1 0).after
        ((appends_ensureRemainingCapacity 2).after
          (appends_uint16BE (le_trans (sub_le _ _) (le_of_lt_succ hwf.2)) le_rfl))
    rw [roundTrips_iff (.integer16 integer min) hwrite hs]
    refine iff_of_true ?_ trivial
    obtain ⟨hmin, hlt⟩ := hwf
    have hread : Takes (perReadInteger16 min) (encode 2 (integer - min))
        (some (integer - min + min)) := by
      refine Takes.require (by rw [length_encode]) ?_
      have hnumber := @takes_numberBE 2 (integer - min) (by omega)
      have hrest : Takes (ensure (integer - min ≤ 0xFFFF - min) >>= fun _ =>
          pure (integer - min + min)) [] (some (integer - min + min)) :=
        Takes.passes (by omega) (takes_pure _)
      have hall := hnumber.bind (f := fun integer =>
        ensure (integer ≤ 0xFFFF - min) >>= fun _ => pure (integer + min)) hrest
      rwa [append_nil] at hall
    rw [Nat.sub_add_cancel hmin] at hread
    exact hread.eq
  | enumerated enumerated count =>
    obtain ⟨hlt, hcount⟩ := hwf
    have hwrite : Appends 0 (perWriteEnumerated enumerated) [UInt8.ofNat enumerated] () 0 :=
      (appends_ensureRemainingCapacity 1).after (appends_uint8 (by omega) le_rfl)
    rw [roundTrips_iff (.enumerated enumerated count) hwrite hs]
    refine iff_of_true ?_ trivial
    have hread : Takes (perReadEnumerated count) ([UInt8.ofNat enumerated] ++ [])
        (some enumerated) :=
      Takes.require le_rfl ((takes_uint8 (by omega)).bind
        (Takes.passes hlt (takes_pure _)))
    exact hread.eq
  | octetString octStr min =>
    rw [roundTrips_iff (.octetString octStr min)
      (appends_perWriteOctetString hwf.1 hwf.2) hs]
    have hread := (takes_perReadOctetString hwf.1 hwf.2).eq
    show perReadOctetString octStr min _ = some ((), []) ↔ octStr.length - min ≤ 0x7FFF
    rw [hread]
    split
    next hshort => exact iff_of_true rfl hshort
    next hlong => exact iff_of_false nofun hlong
  | numericString numStr min =>
    obtain ⟨hdigits, hlength, hmin⟩ := hwf
    by_cases hall : numStr.length = 0xFFFF
    · -- the loop does not end
      refine iff_of_false ?_ ?_
      · rintro ⟨t, bs, ht, -⟩
        obtain ⟨fault, hfault⟩ := perWriteNumericString_fails hall min s
        cases ht.symm.trans hfault
      · show ¬(_ ∨ _)
        omega
    · rw [roundTrips_iff (.numericString numStr min)
        (appends_perWriteNumericString hdigits (by omega) hmin) hs]
      refine (perReadNumericString_iff hlength hmin).trans ((digitCount_iff hlength hmin).trans ?_)
      show _ ↔ (_ ∧ _ ∧ _) ∨ _
      omega

/-- Twelve digits behind a minimum of one, to an empty stream. -/
theorem PerItem.roundTrips_iff_sound_digits :
    (numericString (replicate 12 0x31) 1).RoundTrips (WStream.new 0) [] ↔
      (numericString (replicate 12 0x31) 1).Sound := by
  refine roundTrips_iff_sound ⟨fun c hc => ?_, by decide, by decide⟩ (WStream.written_new 0)
  rw [eq_of_mem_replicate hc]
  unfold IsDigit
  decide

/-- An integer of three bytes is written with four, which the reader refuses. -/
theorem PerItem.largeInteger_not_roundTrips :
    (integer 0x10000).WellFormed ∧ ¬(integer 0x10000).RoundTrips (WStream.new 0) [] := by
  have hwf : (integer 0x10000).WellFormed := by
    show 0x10000 < 2 ^ 32
    decide
  refine ⟨hwf, fun h => ?_⟩
  obtain ⟨t, ht, hwritten⟩ := appends_perWriteInteger hwf _ _ (WStream.written_new 0)
  obtain ⟨t', bs, ht', hbytes, hread⟩ := h
  rw [show (integer 0x10000).write (WStream.new 0) = _ from ht] at ht'
  obtain ⟨-, rfl⟩ := Prod.mk.inj (Except.ok.inj ht')
  rw [hwritten.written_eq] at hbytes
  have hnone := (@takes_perReadInteger 0x10000).eq
  rw [append_cancel_left hbytes] at hnone
  cases hread.symm.trans hnone
