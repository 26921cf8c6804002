/-
# The integers of drawing orders

Drawing orders write small numbers in few bytes: one or two for numbers below 2^15 and for signed
numbers below 2^14, one to four for numbers below 2^30.  The top bits of the first byte tell how
many follow.
-/
import XyDeskRemote.StreamCodec

open StreamWriter ByteReader Mirrors Nat

/-! ## One or two bytes -/

/-- `update_read_2byte_unsigned`. -/
def updateRead2byteUnsigned : ByteReader ℕ := do
  require 1
  let byte ← ByteReader.uint8
  if byte &&& 0x80 ≠ 0 then do
    require 1
    let low ← ByteReader.uint8
    return (((byte &&& 0x7F) <<< 8) &&& 0xFFFF) ||| low
  else return byte &&& 0x7F

/-- `update_write_2byte_unsigned`. -/
def updateWrite2byteUnsigned (value : ℕ) : StreamWriter :=
  seq
    [check (value ≤ 0x7FFF),
     if value ≥ 0x7F then
       seq [StreamWriter.uint8 (((value &&& 0x7F00) >>> 8) ||| 0x80),
         StreamWriter.uint8 (value &&& 0xFF)]
     else seq [StreamWriter.uint8 (value &&& 0x7F)]]

/-- `update_read_2byte_signed`. -/
def updateRead2byteSigned : ByteReader ℤ := do
  require 1
  let byte ← ByteReader.uint8
  let negative := byte &&& 0x40 ≠ 0
  let value ←
    if byte &&& 0x80 ≠ 0 then do
      require 1
      let low ← ByteReader.uint8
      pure (((byte &&& 0x3F) <<< 8) ||| low)
    else pure (byte &&& 0x3F)
  return if negative then -(value : ℤ) else value

/-- `update_write_2byte_signed`. -/
def updateWrite2byteSigned (value : ℤ) : StreamWriter :=
  let sign := if value < 0 then 0x40 else 0
  let value := value.natAbs
  seq
    [check (value ≤ 0x3FFF),
     if value ≥ 0x3F then
       seq [StreamWriter.uint8 ((((value &&& 0x3F00) >>> 8) ||| sign) ||| 0x80),
         StreamWriter.uint8 (value &&& 0xFF)]
     else seq [StreamWriter.uint8 ((value &&& 0x3F) ||| sign)]]

/-! ## One to four bytes -/

/-- `update_read_4byte_unsigned`. -/
def updateRead4byteUnsigned : ByteReader ℕ := do
  require 1
  let byte ← ByteReader.uint8
  let count := (byte &&& 0xC0) >>> 6
  require count
  match count with
  | 0 => return byte &&& 0x3F
  | 1 => do
    let b₀ ← ByteReader.uint8
    return (((byte &&& 0x3F) <<< 8) &&& 0xFFFF) ||| b₀
  | 2 => do
    let b₁ ← ByteReader.uint8
    let b₀ ← ByteReader.uint8
    return ((((byte &&& 0x3F) <<< 16) &&& 0xFFFFFF) ||| ((b₁ <<< 8) &&& 0xFFFF)) ||| b₀
  | 3 => do
    let b₂ ← ByteReader.uint8
    let b₁ ← ByteReader.uint8
    let b₀ ← ByteReader.uint8
    return (((((byte &&& 0x3F) <<< 24) &&& 0xFF000000) ||| ((b₂ <<< 16) &&& 0xFF0000)) |||
      ((b₁ <<< 8) &&& 0xFF00)) ||| b₀
  | _ => return 0

/-- `update_write_4byte_unsigned`. -/
def updateWrite4byteUnsigned (value : ℕ) : StreamWriter :=
  if value ≤ 0x3F then seq [StreamWriter.uint8 value]
  else if value ≤ 0x3FFF then
    seq [StreamWriter.uint8 (((value >>> 8) &&& 0x3F) ||| 0x40),
      StreamWriter.uint8 (value &&& 0xFF)]
  else if value ≤ 0x3FFFFF then
    seq [StreamWriter.uint8 (((value >>> 16) &&& 0x3F) ||| 0x80),
      StreamWriter.uint8 ((value >>> 8) &&& 0xFF), StreamWriter.uint8 (value &&& 0xFF)]
  else if value ≤ 0x3FFFFFFF then
    seq [StreamWriter.uint8 (((value >>> 24) &&& 0x3F) ||| 0xC0),
      StreamWriter.uint8 ((value >>> 16) &&& 0xFF), StreamWriter.uint8 ((value >>> 8) &&& 0xFF),
      StreamWriter.uint8 (value &&& 0xFF)]
  else seq [check False]

/-! ## Bits and bytes of a number -/

/-- Some bits of a number, as a quotient and a remainder. -/
theorem shiftRight_and_ones (v i k : ℕ) : (v >>> i) &&& (2 ^ k - 1) = v / 2 ^ i % 2 ^ k := by
  rw [and_two_pow_sub_one_eq_mod, shiftRight_eq_div_pow]

/-- A part below the lowest bit of another. -/
theorem or_eq_add_of_dvd {x l k : ℕ} (hx : 2 ^ k ∣ x) (hl : l < 2 ^ k) : x ||| l = x + l := by
  obtain ⟨a, rfl⟩ := hx
  rw [Nat.mul_comm, ← shiftLeft_eq, ← shiftLeft_add_eq_or_of_lt hl]

/-- A mask that keeps all of a number that is moved up. -/
theorem shiftLeft_and_ones {b i m : ℕ} (hb : b * 2 ^ i < 2 ^ m) :
    (b <<< i) &&& (2 ^ m - 1) = b * 2 ^ i := by
  rw [and_two_pow_sub_one_eq_mod, shiftLeft_eq, mod_eq_of_lt hb]

/-- A mask that keeps the byte it is over. -/
theorem shiftLeft_and_byte {b : ℕ} (hb : b < 0x100) (i : ℕ) :
    (b <<< i) &&& (0xFF <<< i) = b * 2 ^ i := by
  have hbyte : b &&& (2 ^ 8 - 1) = b := by
    rw [and_two_pow_sub_one_eq_mod, mod_eq_of_lt hb]
  rw [show (0xFF : ℕ) = 2 ^ 8 - 1 from rfl, ← shiftLeft_and_distrib, hbyte, shiftLeft_eq]

theorem twoByteTag {h : ℕ} (hh : h < 0x80) :
    (h ||| 0x80) &&& 0x80 ≠ 0 ∧ (h ||| 0x80) &&& 0x7F = h := by
  revert h
  decide

theorem signedTag {h sign : ℕ} (hh : h < 0x40) (hsign : sign = 0x40 ∨ sign = 0) :
    (h ||| sign ||| 0x80) &&& 0x80 ≠ 0 ∧ (h ||| sign ||| 0x80) &&& 0x3F = h ∧
      ((h ||| sign ||| 0x80) &&& 0x40 ≠ 0 ↔ sign = 0x40) := by
  revert h
  rcases hsign with rfl | rfl <;> decide

theorem signedByte {h sign : ℕ} (hh : h < 0x40) (hsign : sign = 0x40 ∨ sign = 0) :
    (h ||| sign) &&& 0x80 = 0 ∧ (h ||| sign) &&& 0x3F = h ∧
      ((h ||| sign) &&& 0x40 ≠ 0 ↔ sign = 0x40) := by
  revert h
  rcases hsign with rfl | rfl <;> decide

/-- The count of a number of one to four bytes. -/
theorem countTag {h tag count : ℕ} (hh : h < 0x40) (hcount : count < 4)
    (htag : count <<< 6 = tag) :
    ((h ||| tag) &&& 0xC0) >>> 6 = count ∧ (h ||| tag) &&& 0x3F = h := by
  subst htag
  have hall : ∀ h < 0x40, ∀ count < 4, ((h ||| count <<< 6) &&& 0xC0) >>> 6 = count ∧
      (h ||| count <<< 6) &&& 0x3F = h := by decide
  exact hall h hh count hcount

/-- The bits above the low byte, under a mask of `k` bits that holds them. -/
theorem high_bits {v k m : ℕ} (hm : m >>> 8 = 2 ^ k - 1) (hv : v < 2 ^ (8 + k)) :
    (v &&& m) >>> 8 = v / 2 ^ 8 := by
  rw [shiftRight_and_distrib, hm, shiftRight_and_ones]
  refine mod_eq_of_lt ((Nat.div_lt_iff_lt_mul (by decide)).2 ?_)
  rwa [Nat.mul_comm, ← pow_add]

/-- A byte of a number goes back in below the bytes above it. -/
theorem or_byte (v i : ℕ) :
    v / 2 ^ (i + 8) * 2 ^ (i + 8) ||| v / 2 ^ i % 0x100 * 2 ^ i = v / 2 ^ i * 2 ^ i := by
  have hbyte : v / 2 ^ i % 0x100 < 0x100 := mod_lt _ (by omega)
  have hlow : v / 2 ^ i % 0x100 * 2 ^ i < 2 ^ (i + 8) := by
    rw [pow_add, Nat.mul_comm (2 ^ i)]
    exact Nat.mul_lt_mul_of_pos_right hbyte (Nat.two_pow_pos i)
  rw [or_eq_add_of_dvd (Nat.dvd_mul_left _ _) hlow, pow_add, ← Nat.div_div_eq_div_mul,
    Nat.mul_comm (2 ^ i), ← mul_assoc, ← add_mul]
  congr 1
  omega

/-- The two bytes of a number, put together. -/
theorem or_low_byte (v : ℕ) : v / 2 ^ 8 * 2 ^ 8 ||| v % 0x100 = v := by
  have hbyte := or_byte v 0
  rwa [pow_zero, Nat.div_one, Nat.mul_one, Nat.mul_one] at hbyte

/-- **A number below 2^15 is read as it was written.** -/
theorem reads_2byteUnsigned (value : ℕ) :
    Mirrors 1 (updateWrite2byteUnsigned value) updateRead2byteUnsigned (some value) := by
  have hlow : value &&& 0xFF = value % 0x100 := and_two_pow_sub_one_eq_mod value 8
  refine .check fun hvalue => .last ?_
  split
  next hlarge =>
    have hhigh : (value &&& 0x7F00) >>> 8 = value / 2 ^ 8 :=
      high_bits (k := 7) rfl (by omega)
    obtain ⟨htag, hkeep⟩ := twoByteTag (show value / 2 ^ 8 < 0x80 by omega)
    have hwhole : (((value / 2 ^ 8) <<< 8) &&& 0xFFFF) ||| value % 0x100 = value := by
      rw [show (0xFFFF : ℕ) = 2 ^ 16 - 1 from rfl, shiftLeft_and_ones (by omega), or_low_byte]
    rw [hhigh, hlow]
    refine ((cons (.uint8 _) (m := 1) ?_).require (by omega)).mono (by omega)
    rw [if_pos htag, hkeep]
    refine (cons (.uint8 _) (m := 0) ?_).require (by omega)
    rw [hwhole]
    exact .done value
  next hsmall =>
    have hbyte : value &&& 0x7F = value := by
      rw [show (0x7F : ℕ) = 2 ^ 7 - 1 from rfl, and_two_pow_sub_one_eq_mod]
      omega
    have hclear : value &&& 0x80 = 0 := by
      have hmask : (value &&& 0x7F) &&& 0x80 = 0 := by
        rw [Nat.and_assoc]
        exact and_zero value
      rwa [hbyte] at hmask
    rw [hbyte]
    refine (cons (.uint8 _) (m := 0) ?_).require (by omega)
    rw [if_neg (by omega), hbyte]
    exact .done value

/-- **A signed number below 2^14 is read as it was written.** -/
theorem reads_2byteSigned (value : ℤ) :
    Mirrors 1 (updateWrite2byteSigned value) updateRead2byteSigned (some value) := by
  obtain ⟨sign, hsign, hnegative⟩ : ∃ sign, (if value < 0 then 0x40 else 0) = sign ∧
      (sign = 0x40 ↔ value < 0) := ⟨_, rfl, by split <;> omega⟩
  have hcases : sign = 0x40 ∨ sign = 0 := by
    rw [← hsign]
    split <;> omega
  have hresult : (if sign = 0x40 then -(value.natAbs : ℤ) else value.natAbs) = value := by
    split <;> omega
  have hlow : value.natAbs &&& 0xFF = value.natAbs % 0x100 :=
    and_two_pow_sub_one_eq_mod value.natAbs 8
  rw [updateWrite2byteSigned]
  simp only [hsign]
  refine .check fun hvalue => .last ?_
  split
  next hlarge =>
    have hhigh : (value.natAbs &&& 0x3F00) >>> 8 = value.natAbs / 2 ^ 8 :=
      high_bits (k := 6) rfl (by omega)
    obtain ⟨htag, hkeep, hbit⟩ :=
      signedTag (show value.natAbs / 2 ^ 8 < 0x40 by omega) hcases
    rw [hhigh, hlow]
    refine ((cons (.uint8 _) (m := 1) ?_).require (by omega)).mono (by omega)
    rw [if_pos htag, hkeep]
    refine require (n := 1) ?_ le_rfl
    refine cons (.uint8 _) (m := 0) ?_
    have hwhole : ((value.natAbs / 2 ^ 8) <<< 8) ||| value.natAbs % 0x100 = value.natAbs := by
      rw [shiftLeft_eq, or_low_byte]
    simp only [pure_bind, hbit, hwhole, hresult]
    exact .done value
  next hsmall =>
    have hkept : value.natAbs &&& 0x3F = value.natAbs := by
      rw [show (0x3F : ℕ) = 2 ^ 6 - 1 from rfl, and_two_pow_sub_one_eq_mod]
      omega
    obtain ⟨htag, hkeep, hbit⟩ := signedByte (show value.natAbs < 0x40 by omega) hcases
    rw [hkept]
    refine (cons (.uint8 _) (m := 0) ?_).require (by omega)
    rw [if_neg (by omega), hkeep]
    simp only [pure_bind, hbit, hresult]
    exact .done value

/-- **A number below 2^30 is read as it was written.** -/
theorem reads_4byteUnsigned (value : ℕ) :
    Mirrors 1 (updateWrite4byteUnsigned value) updateRead4byteUnsigned (some value) := by
  have hbyte : ∀ i, (value >>> i) &&& 0xFF = value / 2 ^ i % 0x100 := fun i =>
    shiftRight_and_ones value i 8
  have hlow : value &&& 0xFF = value % 0x100 := and_two_pow_sub_one_eq_mod value 8
  have htop : ∀ i, value < 2 ^ (i + 6) → (value >>> i) &&& 0x3F = value / 2 ^ i := by
    intro i hi
    rw [show (0x3F : ℕ) = 2 ^ 6 - 1 from rfl, shiftRight_and_ones, mod_eq_of_lt]
    rwa [Nat.div_lt_iff_lt_mul (Nat.two_pow_pos i), Nat.mul_comm, ← pow_add]
  rw [updateWrite4byteUnsigned]
  split
  next hone =>
    obtain ⟨hcount, hkeep⟩ := countTag (show value < 0x40 by omega) (show 0 < 4 by omega) rfl
    rw [zero_shiftLeft, or_zero] at hcount hkeep
    refine (cons (.uint8 _) (m := 0) ?_).require (by omega)
    rw [hcount, hkeep]
    exact (done value).require (le_refl 0)
  next =>
  split
  next htwo =>
    obtain ⟨hcount, hkeep⟩ :=
      countTag (show value / 2 ^ 8 < 0x40 by omega) (show 1 < 4 by omega)
        (show 1 <<< 6 = 0x40 from rfl)
    have hwhole : (((value / 2 ^ 8) <<< 8) &&& 0xFFFF) ||| value % 0x100 = value := by
      rw [show (0xFFFF : ℕ) = 2 ^ 16 - 1 from rfl, shiftLeft_and_ones (by omega), or_low_byte]
    rw [htop 8 (by omega), hlow]
    refine ((cons (.uint8 _) (m := 1) ?_).require (by omega)).mono (by omega)
    rw [hcount, hkeep]
    refine (cons (.uint8 _) (m := 0) ?_).require (by omega)
    rw [hwhole]
    exact .done value
  next =>
  split
  next hthree =>
    obtain ⟨hcount, hkeep⟩ :=
      countTag (show value / 2 ^ 16 < 0x40 by omega) (show 2 < 4 by omega)
        (show 2 <<< 6 = 0x80 from rfl)
    have hwhole : ((((value / 2 ^ 16) <<< 16) &&& 0xFFFFFF) |||
        (((value / 2 ^ 8 % 0x100) <<< 8) &&& 0xFFFF)) ||| value % 0x100 = value := by
      rw [show (0xFFFF : ℕ) = 2 ^ 16 - 1 from rfl, show (0xFFFFFF : ℕ) = 2 ^ 24 - 1 from rfl,
        shiftLeft_and_ones (by omega), shiftLeft_and_ones (by omega), or_byte value 8, or_low_byte]
    rw [htop 16 (by omega), hbyte, hlow]
    refine ((cons (.uint8 _) (m := 2) ?_).require (by omega)).mono (by omega)
    rw [hcount, hkeep]
    refine require (cons (.uint8 _) (m := 1) ?_) (by omega)
    refine cons (.uint8 _) (m := 0) ?_
    rw [hwhole]
    exact .done value
  next =>
  split
  next hfour =>
    obtain ⟨hcount, hkeep⟩ :=
      countTag (show value / 2 ^ 24 < 0x40 by omega) (show 3 < 4 by omega)
        (show 3 <<< 6 = 0xC0 from rfl)
    have hwhole : (((((value / 2 ^ 24) <<< 24) &&& 0xFF000000) |||
        (((value / 2 ^ 16 % 0x100) <<< 16) &&& 0xFF0000)) |||
        (((value / 2 ^ 8 % 0x100) <<< 8) &&& 0xFF00)) ||| value % 0x100 = value := by
      rw [show (0xFF000000 : ℕ) = 0xFF <<< 24 from rfl, show (0xFF0000 : ℕ) = 0xFF <<< 16 from rfl,
        show (0xFF00 : ℕ) = 0xFF <<< 8 from rfl, shiftLeft_and_byte (by omega),
        shiftLeft_and_byte (by omega), shiftLeft_and_byte (by omega), or_byte value 16,
        or_byte value 8, or_low_byte]
    rw [htop 24 (by omega), hbyte, hbyte, hlow]
    refine ((cons (.uint8 _) (m := 3) ?_).require (by omega)).mono (by omega)
    rw [hcount, hkeep]
    refine require (cons (.uint8 _) (m := 2) ?_) (by omega)
    refine cons (.uint8 _) (m := 1) ?_
    refine cons (.uint8 _) (m := 0) ?_
    rw [hwhole]
    exact .done value
  next => exact .check fun hno => hno.elim
