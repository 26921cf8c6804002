/-
# Basic encoding rules

The fields that `ber.c` writes and reads: a tag, a length in one to three bytes, and the content;
a field may stand in another one behind a contextual tag.  The writers do not make room for what
they write; the callers do, from the sizes that other functions compute.

* `agrees_iff_sound`: for which fields the size, the writer and the reader agree.
-/
import Mathlib.Data.List.TakeWhile
import Mathlib.Data.Nat.Bitwise
import XyDeskRemote.SizedWriter

open SizedWriter ByteReader LittleEndian List Option Nat UInt8

/-! ## Lengths -/

/-- `ber_read_length`. -/
def berReadLength : ByteReader ℕ := do
  require 1
  let byte ← ByteReader.uint8
  if byte &&& 0x80 ≠ 0 then do
    require (byte &&& 0x7F)
    if byte &&& 0x7F = 1 then ByteReader.uint8
    else if byte &&& 0x7F = 2 then uint16BE
    else failure
  else return byte

/-- `ber_write_length`: how many bytes were written. -/
def berWriteLength (length : ℕ) : SizedWriter ℕ :=
  if length > 0xFF then do
    assert (length ≤ 0xFFFF)
    let room ← getRemainingCapacity
    assert (room ≥ 3)
    uint8 (0x80 ^^^ 2)
    uint16BE length
    return 3
  else do
    assert (length ≤ 0xFF)
    if length > 0x7F then do
      let room ← getRemainingCapacity
      assert (room ≥ 2)
      uint8 (0x80 ^^^ 1)
      uint8 length
      return 2
    else do
      let room ← getRemainingCapacity
      assert (room ≥ 1)
      uint8 length
      return 1

/-- `_ber_sizeof_length`. -/
def berSizeofLength (length : ℕ) : ℕ :=
  if length > 0xFF then 3 else if length > 0x7F then 2 else 1

/-! ## Tags -/

/-- `BER_CLASS_UNIV`. -/
def berClassUniv : ℕ := 0x00

/-- `BER_CLASS_CTXT`. -/
def berClassCtxt : ℕ := 0x80

/-- `BER_TAG_MASK`. -/
def berTagMask : ℕ := 0x1F

/-- `BER_TAG_BOOLEAN`. -/
def berTagBoolean : ℕ := 0x01

/-- `BER_TAG_INTEGER`. -/
def berTagInteger : ℕ := 0x02

/-- `BER_TAG_OCTET_STRING`. -/
def berTagOctetString : ℕ := 0x04

/-- `BER_TAG_ENUMERATED`. -/
def berTagEnumerated : ℕ := 0x0A

/-- `BER_PC`: primitive or constructed. -/
def berPc (pc : Bool) : ℕ := if pc then 0x20 else 0x00

/-- The byte of a tag. -/
def berTag (cls tag : ℕ) (pc : Bool) : ℕ := (cls ||| berPc pc) ||| (berTagMask &&& tag)

/-- `ber_read_universal_tag`. -/
def berReadUniversalTag (tag : ℕ) (pc : Bool) : ByteReader Unit := do
  require 1
  let byte ← ByteReader.uint8
  ensure (byte = berTag berClassUniv tag pc)

/-- `ber_write_universal_tag`. -/
def berWriteUniversalTag (tag : ℕ) (pc : Bool) : SizedWriter ℕ := do
  uint8 (berTag berClassUniv tag pc)
  return 1

/-- `ber_read_contextual_tag`: the length behind the tag. -/
def berReadContextualTag (tag : ℕ) (pc : Bool) : ByteReader ℕ := do
  require 1
  let byte ← ByteReader.uint8
  ensure (byte = berTag berClassCtxt tag pc)
  berReadLength

/-- `ber_write_contextual_tag`. -/
def berWriteContextualTag (tag length : ℕ) (pc : Bool) : SizedWriter ℕ := do
  let room ← getRemainingCapacity
  assert (room ≥ 1)
  uint8 (berTag berClassCtxt tag pc)
  let size ← berWriteLength length
  return 1 + size

/-- `ber_sizeof_contextual_tag`. -/
def berSizeofContextualTag (length : ℕ) : ℕ := 1 + berSizeofLength length

/-! ## Integers -/

/-- `ber_read_integer`. -/
def berReadInteger : ByteReader ℕ := do
  berReadUniversalTag berTagInteger false
  let length ← berReadLength
  require length
  if length = 1 then ByteReader.uint8
  else if length = 2 then uint16BE
  else if length = 3 then do
    let byte ← ByteReader.uint8
    let value ← uint16BE
    return value + ((byte <<< 16) &&& 0xFF0000)
  else if length = 4 then uint32BE
  else failure

/-- The tag and the length that every branch of `ber_write_integer` begins with; neither of the
functions returns 0. -/
def berWriteIntegerHeader (length : ℕ) : SizedWriter Unit := do
  let _ ← berWriteUniversalTag berTagInteger false
  let _ ← berWriteLength length

/-- `ber_write_integer`. -/
def berWriteInteger (value : ℕ) : SizedWriter ℕ :=
  if value < 0x80 then do
    berWriteIntegerHeader 1
    assert (value ≤ 0xFF)
    uint8 value
    return 3
  else if value < 0x8000 then do
    berWriteIntegerHeader 2
    assert (value ≤ 0xFFFF)
    uint16BE value
    return 4
  else if value < 0x800000 then do
    berWriteIntegerHeader 3
    assert (value >>> 16 ≤ 0xFF)
    uint8 (value >>> 16)
    assert (value ≤ 0xFFFF)
    uint16BE value
    return 5
  else do
    berWriteIntegerHeader 4
    uint32BE value
    return 6

/-- `ber_sizeof_integer`. -/
def berSizeofInteger (value : ℕ) : ℕ :=
  if value < 0x80 then 3 else if value < 0x8000 then 4 else if value < 0x800000 then 5 else 6

/-- `ber_write_contextual_integer`. -/
def berWriteContextualInteger (tag value : ℕ) : SizedWriter ℕ := do
  let len := berSizeofInteger value
  ensureRemainingCapacity (len + 5)
  let size ← berWriteContextualTag tag len true
  let written ← berWriteInteger value
  if written = 0 then return 0 else return len + size

/-- `ber_sizeof_contextual_integer`. -/
def berSizeofContextualInteger (value : ℕ) : ℕ :=
  berSizeofContextualTag (berSizeofInteger value) + berSizeofInteger value

/-! ## Booleans and enumerated values -/

/-- `ber_read_BOOL`. -/
def berReadBOOL : ByteReader ℤ := do
  berReadUniversalTag berTagBoolean false
  let length ← berReadLength
  ensure (length = 1)
  require 1
  let v ← ByteReader.uint8
  return if v ≠ 0 then 1 else 0

/-- `ber_write_BOOL`. -/
def berWriteBOOL (value : ℤ) : SizedWriter Unit := do
  let _ ← berWriteUniversalTag berTagBoolean false
  let _ ← berWriteLength 1
  uint8 (if value = 1 then 0xFF else 0)

/-- `ber_read_enumerated`. -/
def berReadEnumerated (count : ℕ) : ByteReader ℕ := do
  berReadUniversalTag berTagEnumerated false
  let length ← berReadLength
  ensure (length = 1)
  require 1
  let enumerated ← ByteReader.uint8
  ensure (enumerated + 1 ≤ count)
  return enumerated

/-- `ber_write_enumerated`. -/
def berWriteEnumerated (enumerated : ℕ) : SizedWriter Unit := do
  let _ ← berWriteUniversalTag berTagEnumerated false
  let _ ← berWriteLength 1
  uint8 enumerated

/-! ## Octet strings -/

/-- `ber_sizeof_octet_string`. -/
def berSizeofOctetString (length : ℕ) : ℕ := 1 + berSizeofLength length + length

/-- `ber_sizeof_contextual_octet_string`. -/
def berSizeofContextualOctetString (length : ℕ) : ℕ :=
  berSizeofContextualTag (berSizeofOctetString length) + berSizeofOctetString length

/-- `ber_write_octet_string`. -/
def berWriteOctetString (octStr : List UInt8) : SizedWriter ℕ := do
  let tagSize ← berWriteUniversalTag berTagOctetString false
  let lengthSize ← berWriteLength octStr.length
  bytes octStr
  return tagSize + lengthSize + octStr.length

/-- `ber_write_contextual_octet_string`. -/
def berWriteContextualOctetString (tag : ℕ) (octStr : List UInt8) : SizedWriter ℕ := do
  let ret ← berWriteContextualTag tag (berSizeofOctetString octStr.length) true
  if ret = 0 then return 0
  else
    let r ← berWriteOctetString octStr
    if r = 0 then return 0 else return ret + r

/-- `ber_read_octet_string_tag`: the length of the string. -/
def berReadOctetStringTag : ByteReader ℕ := do
  berReadUniversalTag berTagOctetString false
  berReadLength

/-- `ber_read_octet_string`, when its allocation succeeds. -/
def berReadOctetString : ByteReader (List UInt8) := do
  let length ← berReadOctetStringTag
  require length
  bytes length

/-! ## Texts -/

/-- `MultiByteToWideChar` and `WideCharToMultiByte` for UTF-8, which a library of the platform
provides, on texts without a NUL. -/
structure WideConversion where
  multiByteToWideChar : List UInt8 → Option (List UInt16)
  wideCharToMultiByte : List UInt16 → Option (List UInt8)

namespace WideConversion

/-- The characters of `ConvertUtf8ToWChar`. -/
def convertUtf8ToWChar (conv : WideConversion) (str : List UInt8) : Option (List UInt16) :=
  if str = [] then some [] else conv.multiByteToWideChar str

/-- `ConvertWCharNToUtf8Alloc`, which ends at a NUL. -/
def convertWCharNToUtf8 (conv : WideConversion) (wstr : List UInt16) : Option (List UInt8) :=
  let wstr := wstr.takeWhile (· ≠ 0)
  if wstr = [] then some [] else conv.wideCharToMultiByte wstr

/-- A text that is converted to the wide characters `wstr`, and back to itself. -/
structure Converts (conv : WideConversion) (str : List UInt8) (wstr : List UInt16) : Prop where
  toWide : conv.convertUtf8ToWChar str = some wstr
  toUtf8 : conv.convertWCharNToUtf8 wstr = some str
  no_nul : 0 ∉ wstr

end WideConversion

/-- Wide characters in memory. -/
def wideBytes (wstr : List UInt16) : List UInt8 :=
  wstr.flatMap fun c => encode 2 c.toNat

/-- The wide characters in memory, without half of one at the end. -/
def wideChars : List UInt8 → List UInt16
  | lo :: hi :: bs => UInt16.ofNat (decode [lo, hi]) :: wideChars bs
  | _ => []

/-- `Stream_Write_UTF16_String_From_UTF8`: the characters of the text that are written, `none`
for -1. -/
def streamWriteUtf16StringFromUtf8 (conv : WideConversion) (wcharLength : ℕ) (src : List UInt8)
    (fill : Bool) : SizedWriter (Option ℕ) := do
  let room ← getRemainingCapacity
  if room / 2 < wcharLength then return none
  else
    match conv.convertUtf8ToWChar src with
    | none => return none
    | some wstr =>
      let wstr := wstr.take wcharLength
      bytes (wideBytes wstr)
      if fill then bytes (replicate ((wcharLength - wstr.length) * 2) 0)
      return some wstr.length

/-- `ber_write_char_to_unicode_octet_string`. -/
def berWriteCharToUnicodeOctetString (conv : WideConversion) (str : List UInt8) :
    SizedWriter ℕ :=
  match conv.convertUtf8ToWChar str with
  | none => return 0
  | some wstr => do
    let length := wstr.length + 1
    let tagSize ← berWriteUniversalTag berTagOctetString false
    let lengthSize ← berWriteLength (length * 2)
    let written ← streamWriteUtf16StringFromUtf8 conv length str true
    match written with
    | none => return 0
    | some _ => return tagSize + lengthSize + length * 2

/-- `ber_read_char_from_unicode_octet_string`. -/
def berReadCharFromUnicodeOctetString (conv : WideConversion) : ByteReader (List UInt8) := do
  let length ← berReadOctetStringTag
  require (length / 2 * 2)
  let bs ← bytes (length / 2 * 2)
  match conv.convertWCharNToUtf8 (wideChars bs) with
  | none => failure
  | some str => return str

/-- `ber_write_contextual_unicode_octet_string` of the characters in front of the NUL. -/
def berWriteContextualUnicodeOctetString (tag : ℕ) (str : List UInt16) : SizedWriter ℕ := do
  let len := str.length * 2
  let ret ← berWriteContextualTag tag (berSizeofOctetString len) true
  let size ← berWriteOctetString (wideBytes str)
  return ret + size

/-- `ber_read_unicode_octet_string`, when its allocation succeeds: the characters in front of the
NUL that it puts behind them. -/
def berReadUnicodeOctetString : ByteReader (List UInt16) := do
  let length ← berReadOctetStringTag
  require length
  let bs ← bytes length
  return (wideChars bs).takeWhile (· ≠ 0)

/-- `ber_write_contextual_char_to_unicode_octet_string`: it asserts that there is *less* room than
what it writes, and counts characters for bytes in what it returns. -/
def berWriteContextualCharToUnicodeOctetString (conv : WideConversion) (tag : ℕ)
    (str : List UInt8) : SizedWriter ℕ :=
  match conv.convertUtf8ToWChar str with
  | none => return 0
  | some wstr => do
    let len := wstr.length
    let innerLen := berSizeofOctetString (len * 2)
    let room ← getRemainingCapacity
    assert (room < berSizeofContextualTag innerLen + innerLen)
    let ret ← berWriteContextualTag tag innerLen true
    let tagSize ← berWriteUniversalTag berTagOctetString false
    let lengthSize ← berWriteLength (len * 2)
    let written ← streamWriteUtf16StringFromUtf8 conv len str true
    match written with
    | none => return 0
    | some _ => return ret + tagSize + lengthSize + len

/-! ## What is written for tags and lengths -/

section

variable {n : ℕ}

/-- The bytes of a length. -/
def berLength (length : ℕ) : List UInt8 :=
  if length > 0xFF then [UInt8.ofNat (0x80 ^^^ 2)] ++ BigEndian.encode 2 length
  else if length > 0x7F then [UInt8.ofNat (0x80 ^^^ 1)] ++ [UInt8.ofNat length]
  else [UInt8.ofNat length]

@[simp] theorem length_berLength (length : ℕ) :
    (berLength length).length = berSizeofLength length := by
  unfold berLength berSizeofLength
  split
  · rfl
  · split
    · rfl
    · rfl

theorem reports_berWriteLength {length : ℕ} (h : length ≤ 0xFFFF) :
    Reports (berWriteLength length) (berLength length) := by
  intro n hn
  unfold berWriteLength
  unfold berLength at hn ⊢
  split
  next hlong =>
    rw [if_pos hlong] at hn
    refine (appends_assert h n).after (Appends.room fun room hroom => ?_)
    refine (appends_assert (le_trans hn hroom) n).after ?_
    have hthree : 3 ≤ n := hn
    refine (appends_uint8 (by decide) (by omega)).bind ?_
    have hlast := (appends_uint16BE (n := n - 1) h (by omega)).bind
      (f := fun _ => (pure 3 : SizedWriter ℕ)) (appends_pure _ _)
    rwa [append_nil, Nat.sub_sub] at hlast
  next hshort =>
    rw [if_neg hshort] at hn
    refine (appends_assert (Nat.le_of_not_lt hshort) n).after ?_
    split
    next hmedium =>
      rw [if_pos hmedium] at hn
      have htwo : 2 ≤ n := hn
      refine Appends.room fun room hroom => ?_
      refine (appends_assert (le_trans hn hroom) n).after ?_
      refine (appends_uint8 (by decide) (by omega)).bind ?_
      have hlast := (appends_uint8 (n := n - 1) (Nat.le_of_not_lt hshort) (by omega)).bind
        (f := fun _ => (pure 2 : SizedWriter ℕ)) (appends_pure _ _)
      rwa [append_nil, Nat.sub_sub] at hlast
    next hmedium =>
      rw [if_neg hmedium] at hn
      refine Appends.room fun room hroom => ?_
      refine (appends_assert (le_trans hn hroom) n).after ?_
      have hlast := (appends_uint8 (n := n) (Nat.le_of_not_lt hshort) hn).bind
        (f := fun _ => (pure 1 : SizedWriter ℕ)) (appends_pure _ _)
      rwa [append_nil] at hlast

theorem byte_lengthForm {byte : ℕ} (h : byte < 0x80) : ¬byte &&& 0x80 ≠ 0 := by
  have hbit : byte &&& 0x80 = (byte.testBit 7).toNat * 2 ^ 7 := and_two_pow byte 7
  rw [toNat_testBit] at hbit
  omega

/-- **A length is read** as it was written. -/
theorem takes_berReadLength {length : ℕ} (h : length ≤ 0xFFFF) :
    Takes berReadLength (berLength length) (some length) := by
  unfold berReadLength berLength
  split
  next hlong =>
    refine Takes.require (by simp) ((@ByteReader.takes_uint8 (0x80 ^^^ 2) (by decide)).bind ?_)
    rw [if_pos (by decide)]
    refine Takes.require (by rw [BigEndian.length_encode]; decide) ?_
    rw [if_neg (by decide), if_pos (by decide)]
    exact @ByteReader.takes_numberBE 2 length (lt_succ_of_le h)
  next hshort =>
    split
    next hmedium =>
      refine Takes.require (by simp)
        ((@ByteReader.takes_uint8 (0x80 ^^^ 1) (by decide)).bind ?_)
      rw [if_pos (by decide)]
      refine Takes.require le_rfl ?_
      rw [if_pos (by decide)]
      exact ByteReader.takes_uint8 (by omega)
    next hmedium =>
      have hread : Takes berReadLength ([UInt8.ofNat length] ++ []) (some length) := by
        refine Takes.require (by simp) ((ByteReader.takes_uint8 (by omega)).bind ?_)
        rw [if_neg (byte_lengthForm (by omega))]
        exact takes_pure length
      exact hread

theorem berTag_le {cls : ℕ} (hcls : cls < 2 ^ 8) (tag : ℕ) (pc : Bool) :
    berTag cls tag pc ≤ 0xFF := by
  have hpc : berPc pc < 2 ^ 8 := by
    cases pc <;> decide
  have hmask : berTagMask &&& tag < 2 ^ 8 :=
    lt_of_le_of_lt and_le_left (by decide)
  exact le_of_lt_succ (or_lt_two_pow (or_lt_two_pow hcls hpc) hmask)

theorem reports_berWriteUniversalTag (tag : ℕ) (pc : Bool) :
    Reports (berWriteUniversalTag tag pc) [UInt8.ofNat (berTag berClassUniv tag pc)] := by
  intro n hn
  have htag := (appends_uint8 (n := n) (@berTag_le berClassUniv (by decide) tag pc) hn).bind
    (f := fun _ => (pure 1 : SizedWriter ℕ)) (appends_pure _ _)
  rwa [append_nil] at htag

theorem takes_berReadUniversalTag (tag : ℕ) (pc : Bool) :
    Takes (berReadUniversalTag tag pc) [UInt8.ofNat (berTag berClassUniv tag pc)] (some ()) := by
  have hrest : Takes (ensure (berTag berClassUniv tag pc = berTag berClassUniv tag pc))
      [] (some ()) := by
    intro rest
    rw [ensure, if_pos rfl]
    rfl
  have hread : Takes (berReadUniversalTag tag pc)
      ([UInt8.ofNat (berTag berClassUniv tag pc)] ++ []) (some ()) :=
    Takes.require (by rw [append_nil]; exact le_rfl)
      ((ByteReader.takes_uint8
        (lt_succ_of_le (@berTag_le berClassUniv (by decide) tag pc))).bind hrest)
  exact hread

/-- The bytes in front of a field of `length` bytes in another one. -/
def berContextualTag (tag length : ℕ) : List UInt8 :=
  [UInt8.ofNat (berTag berClassCtxt tag true)] ++ berLength length

theorem length_berContextualTag (tag length : ℕ) :
    (berContextualTag tag length).length = berSizeofContextualTag length := by
  rw [berContextualTag, length_append, length_berLength]
  rfl

theorem reports_berWriteContextualTag (tag : ℕ) {length : ℕ} (h : length ≤ 0xFFFF) :
    Reports (berWriteContextualTag tag length true) (berContextualTag tag length) := by
  intro n hn
  rw [berContextualTag, length_append, length_singleton] at hn ⊢
  rw [sub_add_eq]
  refine Appends.room fun room hroom => ?_
  refine (appends_assert (le_trans (by omega) hroom) n).after ?_
  refine (appends_uint8 (@berTag_le berClassCtxt (by decide) tag true) (by omega)).bind ?_
  exact (reports_berWriteLength h).plus (by omega) 1

theorem takes_berReadContextualTag (tag : ℕ) {length : ℕ} (h : length ≤ 0xFFFF) :
    Takes (berReadContextualTag tag true) (berContextualTag tag length) (some length) := by
  unfold berReadContextualTag berContextualTag
  refine Takes.require ?_ ((ByteReader.takes_uint8
    (lt_succ_of_le (@berTag_le berClassCtxt (by decide) tag true))).bind
      (Takes.passes rfl (takes_berReadLength h)))
  rw [length_append]
  exact le_add_right 1 _

end

/-! ## What is written for integers -/

section

variable {n value : ℕ}

/-- The bytes of an integer that `ber_write_integer` can write. -/
def berInteger (value : ℕ) : List UInt8 :=
  [UInt8.ofNat (berTag berClassUniv berTagInteger false)] ++
    (if value < 0x80 then berLength 1 ++ [UInt8.ofNat value]
    else if value < 0x8000 then berLength 2 ++ BigEndian.encode 2 value
    else if value < 0x800000 then
      berLength 3 ++ ([UInt8.ofNat (value >>> 16)] ++ BigEndian.encode 2 value)
    else berLength 4 ++ BigEndian.encode 4 value)

theorem length_berInteger (value : ℕ) : (berInteger value).length = berSizeofInteger value := by
  unfold berInteger berSizeofInteger
  split
  · rfl
  · split
    · rfl
    · split
      · rfl
      · rfl

/-- The header in front of the content `w`, which leaves what it appends to be returned. -/
theorem appends_berWriteIntegerHeader {length : ℕ} (h : length ≤ 0xFFFF)
    (hn : 1 + berSizeofLength length ≤ n) :
    Appends n (berWriteIntegerHeader length)
      ([UInt8.ofNat (berTag berClassUniv berTagInteger false)] ++ berLength length) ()
      (n - (1 + berSizeofLength length)) := by
  have htag := reports_berWriteUniversalTag berTagInteger false n
    (le_trans (le_add_right 1 _) hn)
  have hlength := reports_berWriteLength h (n - 1) (by rw [length_berLength]; omega)
  have hlast := hlength.bind (f := fun _ => (pure () : SizedWriter Unit)) (appends_pure _ _)
  rw [append_nil, length_berLength, Nat.sub_sub] at hlast
  exact htag.bind hlast

/-- The integers whose bytes below the third one are not asserted to be all of them. -/
def BerWritable (value : ℕ) : Prop := value < 0x10000 ∨ 0x800000 ≤ value

theorem reports_berWriteInteger (h : BerWritable value) :
    Reports (berWriteInteger value) (berInteger value) := by
  intro n hn
  rw [length_berInteger] at hn ⊢
  have hpure {k m : ℕ} {bs : List UInt8} {w : SizedWriter Unit} (hw : Appends k w bs () m)
      (size : ℕ) : Appends k (do w; return size) bs size m := by
    have hall := hw.bind (f := fun _ => (pure size : SizedWriter ℕ)) (appends_pure _ _)
    rwa [append_nil] at hall
  unfold berWriteInteger
  unfold berInteger berSizeofInteger at *
  obtain h | h := h
  · split
    next hone =>
      rw [if_pos hone] at hn
      rw [← append_assoc]
      refine (appends_berWriteIntegerHeader (by decide) (le_trans (by decide) hn)).bind ?_
      refine (appends_assert (by omega) _).after ?_
      exact hpure (appends_uint8 (n := n - 2) (by omega) (by omega)) 3
    next hone =>
      rw [if_neg hone] at hn
      split
      next htwo =>
        rw [if_pos htwo] at hn
        rw [← append_assoc]
        refine (appends_berWriteIntegerHeader (by decide) (le_trans (by decide) hn)).bind ?_
        refine (appends_assert (by omega) _).after ?_
        exact hpure (appends_uint16BE (n := n - 2) (by omega) (by omega)) 4
      next htwo =>
        have hthree : value < 0x800000 := by omega
        rw [if_neg htwo, if_pos hthree] at hn
        rw [if_pos hthree, if_pos hthree, if_pos hthree, ← append_assoc]
        have hhigh : value >>> 16 ≤ 0xFF := by
          rw [shiftRight_eq_div_pow]
          omega
        refine (appends_berWriteIntegerHeader (by decide) (le_trans (by decide) hn)).bind ?_
        refine (appends_assert hhigh _).after ?_
        refine (appends_uint8 (n := n - 2) hhigh (by omega)).bind ?_
        refine (appends_assert (by omega) _).after ?_
        exact hpure (appends_uint16BE (n := n - 2 - 1) (by omega) (by omega)) 5
  · rw [if_neg (by omega), if_neg (by omega), if_neg (by omega)] at hn ⊢
    rw [if_neg (by omega), if_neg (by omega), if_neg (by omega), if_neg (by omega),
      if_neg (by omega), if_neg (by omega), ← append_assoc]
    refine (appends_berWriteIntegerHeader (by decide) (le_trans (by decide) hn)).bind ?_
    exact hpure (appends_uint32BE (n := n - 2) value (by omega)) 6

/-- The assertion on the low bytes of an integer of three bytes. -/
theorem berWriteInteger_fails (h : ¬BerWritable value) (s : WStream) :
    ∃ fault, berWriteInteger value s = .error fault := by
  unfold BerWritable at h
  rw [berWriteInteger, if_neg (by omega), if_neg (by omega), if_pos (by omega)]
  refine bind_fails (fun _ t => bind_fails (fun _ u => bind_fails (fun _ v => ?_) u) t) s
  refine ⟨.assertion, ?_⟩
  rw [SizedWriter.bind_apply, assert, lift, StreamWriter.assert, if_neg (by omega)]
  rfl

/-- The bytes of an integer under their header. -/
theorem takes_berReadInteger_of {length : ℕ} (hlength : length ≤ 0xFFFF) {content : List UInt8}
    {r : ByteReader ℕ} (hr : Takes r content (some value)) (hlength' : content.length = length)
    (hread : (if length = 1 then ByteReader.uint8
      else if length = 2 then uint16BE
      else if length = 3 then do
        let byte ← ByteReader.uint8
        let value ← uint16BE
        return value + ((byte <<< 16) &&& 0xFF0000)
      else if length = 4 then uint32BE
      else failure) = r) :
    Takes berReadInteger ([UInt8.ofNat (berTag berClassUniv berTagInteger false)] ++
      (berLength length ++ content)) (some value) := by
  unfold berReadInteger
  refine (takes_berReadUniversalTag berTagInteger false).bind ?_
  refine (takes_berReadLength hlength).bind (Takes.require hlength'.ge ?_)
  rw [hread]
  exact hr

/-- **An integer is read** from the bytes that stand for it. -/
theorem takes_berReadInteger (h : value < 2 ^ 32) (hwritable : BerWritable value) :
    Takes berReadInteger (berInteger value) (some value) := by
  unfold BerWritable at hwritable
  unfold berInteger
  split
  next hone =>
    exact takes_berReadInteger_of (by decide) (ByteReader.takes_uint8 (by omega)) rfl rfl
  next hone =>
    split
    next htwo =>
      exact takes_berReadInteger_of (by decide) (@ByteReader.takes_numberBE 2 value (by omega)) rfl
        rfl
    next htwo =>
      split
      next hthree =>
        -- the first of the three bytes is a zero that keeps the sign
        have hhigh : value >>> 16 = 0 := by
          rw [shiftRight_eq_div_pow]
          omega
        refine takes_berReadInteger_of (by decide) ?_ rfl rfl
        rw [hhigh]
        exact (@ByteReader.takes_uint8 0 (by decide)).bind
          ((@ByteReader.takes_numberBE 2 value (by omega)).map fun low =>
            low + ((0 <<< 16) &&& 0xFF0000))
      next hthree =>
        exact takes_berReadInteger_of (by decide) (@ByteReader.takes_numberBE 4 value h) rfl rfl

end

/-! ## What is written for strings -/

section

variable {n : ℕ} {octStr : List UInt8} {wstr : List UInt16}

/-- The bytes of an octet string. -/
def berOctetString (octStr : List UInt8) : List UInt8 :=
  [UInt8.ofNat (berTag berClassUniv berTagOctetString false)] ++
    (berLength octStr.length ++ octStr)

theorem length_berOctetString (octStr : List UInt8) :
    (berOctetString octStr).length = berSizeofOctetString octStr.length := by
  rw [berOctetString, length_append, length_append, length_berLength,
    berSizeofOctetString, length_singleton, add_assoc]

theorem appends_octetStringHeader {length : ℕ} {β : Type} {f : ℕ → ℕ → SizedWriter β} {b : β}
    {cs : List UInt8} {m : ℕ} (h : length ≤ 0xFFFF)
    (hn : 1 + berSizeofLength length ≤ n)
    (hf : Appends (n - (1 + berSizeofLength length)) (f 1 (berSizeofLength length)) cs b m) :
    Appends n
      (do
        let tagSize ← berWriteUniversalTag berTagOctetString false
        let lengthSize ← berWriteLength length
        f tagSize lengthSize)
      ([UInt8.ofNat (berTag berClassUniv berTagOctetString false)] ++ (berLength length ++ cs)) b
      m := by
  have htag := reports_berWriteUniversalTag berTagOctetString false n
    (le_trans (le_add_right 1 _) hn)
  have hlength := reports_berWriteLength h (n - 1) (by rw [length_berLength]; omega)
  rw [length_berLength, Nat.sub_sub] at hlength
  exact htag.bind (hlength.bind hf)

theorem reports_berWriteOctetString (h : octStr.length ≤ 0xFFFF) :
    Reports (berWriteOctetString octStr) (berOctetString octStr) := by
  intro n hn
  rw [length_berOctetString, berSizeofOctetString] at hn ⊢
  refine appends_octetStringHeader h (by omega) ?_
  have hstring := (@appends_bytes (n - (1 + berSizeofLength octStr.length)) octStr (by omega)).bind
      (f := fun _ => (pure (1 + berSizeofLength octStr.length + octStr.length) : SizedWriter ℕ))
      (appends_pure _ _)
  rwa [append_nil, Nat.sub_sub] at hstring

/-- What stands in front of the content of a string. -/
theorem takes_octetStringHeader {length : ℕ} {β : Type} {f : ℕ → ByteReader β} {b : Option β}
    {cs : List UInt8} (h : length ≤ 0xFFFF) (hf : Takes (f length) cs b) :
    Takes (berReadOctetStringTag >>= f)
      ([UInt8.ofNat (berTag berClassUniv berTagOctetString false)] ++ (berLength length ++ cs))
      b := by
  have hheader : Takes berReadOctetStringTag
      ([UInt8.ofNat (berTag berClassUniv berTagOctetString false)] ++ berLength length)
      (some length) :=
    (takes_berReadUniversalTag berTagOctetString false).bind (takes_berReadLength h)
  rw [← append_assoc]
  exact hheader.bind hf

/-- **An octet string is read** from the bytes that stand for it. -/
theorem takes_berReadOctetString (h : octStr.length ≤ 0xFFFF) :
    Takes berReadOctetString (berOctetString octStr) (some octStr) :=
  takes_octetStringHeader h (Takes.require le_rfl (takes_bytes octStr))

/-! ## What is written for texts -/

theorem length_wideBytes (wstr : List UInt16) : (wideBytes wstr).length = wstr.length * 2 := by
  induction wstr with
  | nil => rfl
  | cons c wstr ih =>
    rw [wideBytes, flatMap_cons, length_append, length_encode, ← wideBytes, ih, length_cons]
    omega

theorem wideBytes_append (wstr others : List UInt16) :
    wideBytes (wstr ++ others) = wideBytes wstr ++ wideBytes others := flatMap_append

theorem wideChars_wideBytes (wstr : List UInt16) : wideChars (wideBytes wstr) = wstr := by
  induction wstr with
  | nil => rfl
  | cons c wstr ih =>
    have hfirst : decode (encode 2 c.toNat) = c.toNat :=
      decode_encode_of_lt c.toNat_lt
    show UInt16.ofNat (decode (encode 2 c.toNat)) ::
      wideChars (wideBytes wstr) = _
    rw [hfirst, UInt16.ofNat_toNat, ih]

theorem decide_of_no_nul (h : 0 ∉ wstr) : ∀ c ∈ wstr, decide (c ≠ 0) = true :=
  fun _ hc => decide_eq_true fun hzero => h (hzero ▸ hc)

theorem takeWhile_of_no_nul (h : 0 ∉ wstr) : wstr.takeWhile (· ≠ 0) = wstr :=
  takeWhile_eq_self_iff.2 (decide_of_no_nul h)

theorem takeWhile_nul (h : 0 ∉ wstr) : (wstr ++ [0]).takeWhile (· ≠ 0) = wstr := by
  rw [takeWhile_append_of_pos (decide_of_no_nul h)]
  simp

variable {conv : WideConversion} {str : List UInt8}

/-- A NUL behind a text changes nothing. -/
theorem WideConversion.Converts.toUtf8_nul (h : conv.Converts str wstr) :
    conv.convertWCharNToUtf8 (wstr ++ [0]) = some str := by
  have hback := h.toUtf8
  unfold convertWCharNToUtf8 at hback ⊢
  rwa [takeWhile_nul h.no_nul, ← takeWhile_of_no_nul h.no_nul]

/-- The characters of a text, and a NUL for the character that is left to fill. -/
theorem appends_streamWriteUtf16 (h : conv.Converts str wstr) (hn : (wstr.length + 1) * 2 ≤ n) :
    Appends n (streamWriteUtf16StringFromUtf8 conv (wstr.length + 1) str true)
      (wideBytes (wstr ++ [0])) (some wstr.length) (n - (wstr.length + 1) * 2) := by
  refine Appends.room fun room hroom => ?_
  rw [if_neg (by omega), h.toWide]
  dsimp only
  have htake : wstr.take (wstr.length + 1) = wstr := take_of_length_le (le_succ _)
  have hfill : wideBytes [0] = replicate ((wstr.length + 1 - wstr.length) * 2) 0 := by
    rw [Nat.add_sub_cancel_left]
    rfl
  rw [htake, if_pos rfl, wideBytes_append]
  have hchars := @appends_bytes n (wideBytes wstr) (by
    rw [length_wideBytes]
    omega)
  rw [length_wideBytes] at hchars
  refine hchars.bind ?_
  have hzero := (@appends_bytes (n - wstr.length * 2) (wideBytes [0]) (by
    show 2 ≤ n - wstr.length * 2
    omega)).bind (f := fun _ => (pure (some wstr.length) : SizedWriter (Option ℕ)))
      (appends_pure _ _)
  rw [append_nil, Nat.sub_sub] at hzero
  have hroom' : wstr.length * 2 + (wideBytes [0]).length = (wstr.length + 1) * 2 := by
    show wstr.length * 2 + 2 = _
    omega
  rw [hroom'] at hzero
  rw [← hfill]
  exact hzero

theorem reports_berWriteCharToUnicodeOctetString (h : conv.Converts str wstr)
    (hlength : (wstr.length + 1) * 2 ≤ 0xFFFF) :
    Reports (berWriteCharToUnicodeOctetString conv str)
      (berOctetString (wideBytes (wstr ++ [0]))) := by
  have hbytes : (wideBytes (wstr ++ [0])).length = (wstr.length + 1) * 2 := by
    rw [length_wideBytes, length_append, length_singleton]
  intro n hn
  rw [length_berOctetString, hbytes, berSizeofOctetString] at hn ⊢
  unfold berWriteCharToUnicodeOctetString berOctetString
  rw [h.toWide, hbytes]
  refine appends_octetStringHeader hlength (by omega) ?_
  have htext := (appends_streamWriteUtf16 (n := n - (1 + berSizeofLength ((wstr.length + 1) * 2))) h
    (by omega)).bind (f := fun written => match written with
      | none => (pure 0 : SizedWriter ℕ)
      | some _ => pure (1 + berSizeofLength ((wstr.length + 1) * 2) + (wstr.length + 1) * 2))
      (appends_pure _ _)
  rwa [append_nil, Nat.sub_sub] at htext

/-- **A text is read** from the bytes that stand for it. -/
theorem takes_berReadCharFromUnicodeOctetString (h : conv.Converts str wstr)
    (hlength : (wstr.length + 1) * 2 ≤ 0xFFFF) :
    Takes (berReadCharFromUnicodeOctetString conv)
      (berOctetString (wideBytes (wstr ++ [0]))) (some str) := by
  have hbytes : (wideBytes (wstr ++ [0])).length = (wstr.length + 1) * 2 := by
    rw [length_wideBytes, length_append, length_singleton]
  have heven : (wideBytes (wstr ++ [0])).length / 2 * 2 = (wideBytes (wstr ++ [0])).length := by
    omega
  refine takes_octetStringHeader (by omega) ?_
  rw [heven]
  refine Takes.require le_rfl ?_
  have hconvert : Takes (match conv.convertWCharNToUtf8 (wideChars (wideBytes (wstr ++ [0]))) with
      | none => (failure : ByteReader (List UInt8))
      | some str => pure str) [] (some str) := by
    rw [wideChars_wideBytes, h.toUtf8_nul]
    exact takes_pure str
  have hread := (takes_bytes (wideBytes (wstr ++ [0]))).bind
    (f := fun bs => match conv.convertWCharNToUtf8 (wideChars bs) with
      | none => (failure : ByteReader (List UInt8))
      | some str => pure str) hconvert
  rwa [append_nil] at hread

/-- **Wide characters are read** from the bytes that stand for them. -/
theorem takes_berReadUnicodeOctetString (h : 0 ∉ wstr) (hlength : wstr.length * 2 ≤ 0xFFFF) :
    Takes berReadUnicodeOctetString (berOctetString (wideBytes wstr)) (some wstr) := by
  refine takes_octetStringHeader (by rwa [length_wideBytes]) (Takes.require le_rfl ?_)
  have hread := (takes_bytes (wideBytes wstr)).map
    fun bs => (wideChars bs).takeWhile (· ≠ 0)
  rwa [wideChars_wideBytes, takeWhile_of_no_nul h] at hread

end

/-! ## Sizes, writers and readers -/

/-- Something that is written and read in basic encoding, plain or behind a contextual tag. -/
inductive BerItem where
  | integer (value : ℕ)
  | contextualInteger (tag value : ℕ)
  | bool (value : ℤ)
  | enumerated (value count : ℕ)
  | octetString (octStr : List UInt8)
  | contextualOctetString (tag : ℕ) (octStr : List UInt8)
  | charString (str : List UInt8)
  | contextualUnicodeString (tag : ℕ) (str : List UInt16)
  | contextualCharString (tag : ℕ) (str : List UInt8)

namespace BerItem

/-- The values that the types of the arguments have, and strings whose encoding has at most 65535
bytes.  A `BOOL` is any `int`. -/
def WellFormed (conv : WideConversion) : BerItem → Prop
  | .integer value => value < 2 ^ 32
  | .contextualInteger tag value => tag < 2 ^ 8 ∧ value < 2 ^ 32
  | .bool value => -2 ^ 31 ≤ value ∧ value < 2 ^ 31
  | .enumerated value n => value < n ∧ n < 2 ^ 8
  | .octetString octStr => berSizeofOctetString octStr.length ≤ 65535
  | .contextualOctetString tag octStr =>
    tag < 2 ^ 8 ∧ berSizeofContextualOctetString octStr.length ≤ 65535
  | .charString str =>
    ∃ wstr, conv.Converts str wstr ∧ berSizeofOctetString ((wstr.length + 1) * 2) ≤ 65535
  | .contextualUnicodeString tag str =>
    tag < 2 ^ 8 ∧ 0 ∉ str ∧ berSizeofContextualOctetString (str.length * 2) ≤ 65535
  | .contextualCharString tag str =>
    tag < 2 ^ 8 ∧ ∃ wstr, conv.Converts str wstr ∧
      berSizeofContextualOctetString (wstr.length * 2) ≤ 65535

/-- The writer, with what it returns unless it is `void`. -/
def write (conv : WideConversion) : BerItem → SizedWriter (Option ℕ)
  | .integer value => some <$> berWriteInteger value
  | .contextualInteger tag value => some <$> berWriteContextualInteger tag value
  | .bool value => (fun _ => none) <$> berWriteBOOL value
  | .enumerated value _ => (fun _ => none) <$> berWriteEnumerated value
  | .octetString octStr => some <$> berWriteOctetString octStr
  | .contextualOctetString tag octStr => some <$> berWriteContextualOctetString tag octStr
  | .charString str => some <$> berWriteCharToUnicodeOctetString conv str
  | .contextualUnicodeString tag str => some <$> berWriteContextualUnicodeOctetString tag str
  | .contextualCharString tag str =>
    some <$> berWriteContextualCharToUnicodeOctetString conv tag str

/-- The matching size, where there is a function for it. -/
def sizeof (conv : WideConversion) : BerItem → Option ℕ
  | .integer value => some (berSizeofInteger value)
  | .contextualInteger _ value => some (berSizeofContextualInteger value)
  | .bool _ => none
  | .enumerated _ _ => none
  | .octetString octStr => some (berSizeofOctetString octStr.length)
  | .contextualOctetString _ octStr => some (berSizeofContextualOctetString octStr.length)
  | .charString str =>
    (conv.convertUtf8ToWChar str).map fun wstr => berSizeofOctetString ((wstr.length + 1) * 2)
  | .contextualUnicodeString _ str => some (berSizeofContextualOctetString (str.length * 2))
  | .contextualCharString _ str =>
    (conv.convertUtf8ToWChar str).map fun wstr => berSizeofContextualOctetString (wstr.length * 2)

/-- The tag is read with the length of what follows it, and `r` takes that to its end. -/
def ReadInside {α : Type} (tag : ℕ) (r : ByteReader α) (x : α) (bs : List UInt8) : Prop :=
  ∃ rest, berReadContextualTag tag true bs = some (rest.length, rest) ∧ r rest = some (x, [])

/-- The matching reader takes all of `bs`, and has the value. -/
def ReadBack (conv : WideConversion) (bs : List UInt8) : BerItem → Prop
  | .integer value => berReadInteger bs = some (value, [])
  | .contextualInteger tag value => ReadInside tag berReadInteger value bs
  | .bool value => berReadBOOL bs = some (value, [])
  | .enumerated value n => berReadEnumerated n bs = some (value, [])
  | .octetString octStr => berReadOctetString bs = some (octStr, [])
  | .contextualOctetString tag octStr => ReadInside tag berReadOctetString octStr bs
  | .charString str => berReadCharFromUnicodeOctetString conv bs = some (str, [])
  | .contextualUnicodeString tag str => ReadInside tag berReadUnicodeOctetString str bs
  | .contextualCharString tag str =>
    ReadInside tag (berReadCharFromUnicodeOctetString conv) str bs

/-- There is a number of bytes that is the matching size and what the writer returns, and with
room for so many the writer's assertions hold, it appends so many, and they are read back. -/
def Agrees (conv : WideConversion) (item : BerItem) : Prop :=
  ∃ n, (∀ z ∈ item.sizeof conv, z = n) ∧ ∀ s before, s.Written before n →
    ∃ r t bs, item.write conv s = .ok (r, t) ∧ t.written = before ++ bs ∧ bs.length = n ∧
      (∀ z ∈ r, z = n) ∧ item.ReadBack conv bs

/-- Where all of them agree: an integer of three bytes has only two, a `BOOL` is `TRUE` or
`FALSE`, and a text is not converted behind a contextual tag. -/
def Sound : BerItem → Prop
  | .integer value => BerWritable value
  | .contextualInteger _ value => BerWritable value
  | .bool value => value = 0 ∨ value = 1
  | .contextualCharString _ _ => False
  | _ => True

variable {conv : WideConversion} {bs : List UInt8}

/-- What comes of an item whose bytes are known. -/
theorem agrees_iff (item : BerItem) {r : Option ℕ}
    (hw : Appends bs.length (item.write conv) bs r 0)
    (hsize : ∀ z ∈ item.sizeof conv, z = bs.length) (hr : ∀ z ∈ r, z = bs.length) :
    item.Agrees conv ↔ item.ReadBack conv bs := by
  constructor
  · rintro ⟨n, -, hall⟩
    -- a stream with enough room for both
    have hroom := WStream.written_new (n + bs.length)
    obtain ⟨r', t', bs', ht', hbytes', -, -, hread⟩ :=
      hall _ _ (hroom.mono (le_add_right n _))
    obtain ⟨t, ht, hwritten⟩ := hw _ _ (hroom.mono (le_add_left _ n))
    rw [ht'] at ht
    obtain ⟨-, rfl⟩ := Prod.mk.inj (Except.ok.inj ht)
    rw [hwritten.written_eq] at hbytes'
    rwa [append_cancel_left hbytes']
  · intro hread
    refine ⟨bs.length, hsize, fun s before hs => ?_⟩
    obtain ⟨t, ht, hwritten⟩ := hw s before hs
    exact ⟨r, t, bs, ht, hwritten.written_eq, rfl, hr, hread⟩

/-- A writer that fails where there is room. -/
theorem not_agrees (item : BerItem) (k : ℕ)
    (hfails : ∀ s before, s.Written before k → ∃ fault, item.write conv s = .error fault) :
    ¬item.Agrees conv := by
  rintro ⟨n, -, hall⟩
  have hroom := WStream.written_new (n + k)
  obtain ⟨r, t, bs, ht, -⟩ := hall _ _ (hroom.mono (le_add_right n k))
  obtain ⟨fault, hfault⟩ := hfails _ _ (hroom.mono (le_add_left k n))
  cases ht.symm.trans hfault

/-- A writer that returns what the size function computes. -/
theorem agrees_of_reports (item : BerItem) {w : SizedWriter ℕ}
    (hitem : item.write conv = some <$> w) (hw : Reports w bs)
    (hsize : ∀ z ∈ item.sizeof conv, z = bs.length)
    (hread : item.ReadBack conv bs) : item.Agrees conv := by
  have hall : Appends bs.length (item.write conv) bs (some bs.length) 0 := by
    rw [hitem]
    exact ((hw _ le_rfl).map some).mono le_rfl (zero_le _)
  refine (agrees_iff item hall hsize ?_).2 hread
  intro z hz
  exact (some.inj hz).symm

theorem readInside {α : Type} {r : ByteReader α} {x : α} (tag : ℕ) (h : bs.length ≤ 0xFFFF)
    (hr : ByteReader.Takes r bs (some x)) :
    ReadInside tag r x (berContextualTag tag bs.length ++ bs) :=
  ⟨bs, takes_berReadContextualTag tag h bs, hr.eq⟩

theorem length_contextual (tag : ℕ) (bs : List UInt8) :
    (berContextualTag tag bs.length ++ bs).length =
      berSizeofContextualTag bs.length + bs.length := by
  rw [length_append, length_berContextualTag]

/-- The bytes of a field with one byte of content. -/
def oneByte (tag v : ℕ) : List UInt8 :=
  [UInt8.ofNat (berTag berClassUniv tag false)] ++ (berLength 1 ++ [UInt8.ofNat v])

/-- A field with one byte of content, whose writer returns nothing. -/
theorem appends_oneByte (tag : ℕ) {v : ℕ} (hv : v ≤ 0xFF) :
    Appends (oneByte tag v).length
      (do
        let _ ← berWriteUniversalTag tag false
        let _ ← berWriteLength 1
        uint8 v)
      (oneByte tag v) () 0 := by
  refine (reports_berWriteUniversalTag tag false 3 (by simp)).bind ?_
  exact (reports_berWriteLength (by decide) 2 (by decide)).bind (appends_uint8 hv le_rfl)

/-- The assertion that there is less room than what is written. -/
theorem berWriteContextualChar_fails {tag : ℕ} {str : List UInt8} {wstr : List UInt16}
    (h : conv.Converts str wstr) {s : WStream} {before : List UInt8}
    (hs : s.Written before (berSizeofContextualOctetString (wstr.length * 2))) :
    ∃ fault, berWriteContextualCharToUnicodeOctetString conv tag str s = .error fault := by
  obtain ⟨hposition, rest, hbuffer, hroom⟩ := hs
  have hcapacity : s.capacity = before.length + rest.length := by
    rw [WStream.capacity, hbuffer, length_append]
  have hlarge : ¬s.capacity - s.position < berSizeofContextualTag
      (berSizeofOctetString (wstr.length * 2)) + berSizeofOctetString (wstr.length * 2) := by
    rw [berSizeofContextualOctetString] at hroom
    omega
  rw [berWriteContextualCharToUnicodeOctetString, h.toWide]
  refine ⟨.assertion, ?_⟩
  show Except.bind (assert (s.capacity - s.position < _) s) _ = _
  rw [assert, lift, StreamWriter.assert, if_neg hlarge]
  rfl

/-- The number of bytes of a contextual field is not 0, and nor is that of an integer. -/
theorem appends_berWriteContextualInteger {value : ℕ} (tag : ℕ) (h : BerWritable value) :
    Appends 0 (berWriteContextualInteger tag value)
      (berContextualTag tag (berInteger value).length ++ berInteger value)
      (berSizeofContextualInteger value) 0 := by
  have hsmall : berSizeofInteger value ≤ 6 := by
    unfold berSizeofInteger
    split <;> [decide; (split <;> [decide; (split <;> decide)])]
  have hthree : 3 ≤ berSizeofInteger value := by
    unfold berSizeofInteger
    split <;> [decide; (split <;> [decide; (split <;> decide)])]
  have htag : berSizeofContextualTag (berSizeofInteger value) = 2 := by
    rw [berSizeofContextualTag, berSizeofLength, if_neg (by omega), if_neg (by omega)]
  have hheader := reports_berWriteContextualTag tag (show berSizeofInteger value ≤ 0xFFFF by omega)
    (berSizeofInteger value + 5) (by rw [length_berContextualTag]; omega)
  have hvalue := reports_berWriteInteger h (berSizeofInteger value + 3)
    (by rw [length_berInteger]; omega)
  rw [length_berContextualTag, htag] at hheader
  rw [length_berInteger] at hvalue ⊢
  refine (appends_ensureRemainingCapacity _).after (hheader.bind ?_)
  have hlast := hvalue.bind (f := fun written =>
    if written = 0 then (pure 0 : SizedWriter ℕ) else pure (berSizeofInteger value + 2))
    (by rw [if_neg (by omega)]; exact appends_pure _ _)
  rw [append_nil] at hlast
  rw [berSizeofContextualInteger, htag, add_comm 2]
  exact hlast.mono le_rfl (zero_le _)

theorem reports_berWriteContextualOctetString {octStr : List UInt8} (tag : ℕ)
    (h : berSizeofOctetString octStr.length ≤ 0xFFFF) :
    Reports (berWriteContextualOctetString tag octStr)
      (berContextualTag tag (berOctetString octStr).length ++ berOctetString octStr) := by
  have hstring : octStr.length ≤ 0xFFFF := by
    unfold berSizeofOctetString at h
    omega
  intro n hn
  rw [length_contextual, length_berOctetString] at hn ⊢
  have hheader := reports_berWriteContextualTag tag h n (by rw [length_berContextualTag]; omega)
  have hvalue := reports_berWriteOctetString hstring
    (n - berSizeofContextualTag (berSizeofOctetString octStr.length))
    (by rw [length_berOctetString]; omega)
  rw [length_berContextualTag] at hheader
  rw [length_berOctetString] at hvalue
  refine hheader.bind ?_
  have hpos : 0 < berSizeofContextualTag (berSizeofOctetString octStr.length) := by
    unfold berSizeofContextualTag
    omega
  have hpos' : 0 < berSizeofOctetString octStr.length := by
    unfold berSizeofOctetString
    omega
  rw [if_neg hpos.ne']
  have hlast := hvalue.bind (f := fun r => if r = 0 then (pure 0 : SizedWriter ℕ)
    else pure (berSizeofContextualTag (berSizeofOctetString octStr.length) + r))
    (by rw [if_neg hpos'.ne']; exact appends_pure _ _)
  rwa [append_nil, Nat.sub_sub] at hlast

/-- **For which fields sizes, writers and readers agree.** -/
theorem agrees_iff_sound {item : BerItem} (hwf : item.WellFormed conv) :
    item.Agrees conv ↔ item.Sound := by
  cases item with
  | integer value =>
    by_cases h : BerWritable value
    · refine iff_of_true (agrees_of_reports _ rfl (reports_berWriteInteger h) ?_ ?_) h
      · intro z hz
        rw [length_berInteger]
        exact (some.inj hz).symm
      · exact (takes_berReadInteger hwf h).eq
    · refine iff_of_false (not_agrees _ 0 fun s before _ => ?_) h
      exact map_fails (berWriteInteger_fails h s) some
  | contextualInteger tag value =>
    by_cases h : BerWritable value
    · refine iff_of_true ?_ h
      have hbytes : (berContextualTag tag (berInteger value).length ++ berInteger value).length =
          berSizeofContextualInteger value := by
        rw [length_contextual, length_berInteger]
        rfl
      have hsmall : (berInteger value).length ≤ 0xFFFF := by
        rw [length_berInteger]
        unfold berSizeofInteger
        split <;> [decide; (split <;> [decide; (split <;> decide)])]
      refine (agrees_iff (.contextualInteger tag value)
        (((appends_berWriteContextualInteger tag h).map some).mono (zero_le _) le_rfl)
        ?_ ?_).2 (readInside tag hsmall (takes_berReadInteger hwf.2 h))
      · intro z hz
        rw [hbytes]
        exact (some.inj hz).symm
      · intro z hz
        rw [hbytes]
        exact (some.inj hz).symm
    · refine iff_of_false (not_agrees _ 0 fun s before _ => map_fails ?_ some) h
      refine bind_fails (fun _ t => bind_fails (fun size u => ?_) t) s
      obtain ⟨fault, hfault⟩ := berWriteInteger_fails h u
      refine ⟨fault, ?_⟩
      rw [SizedWriter.bind_apply, hfault]
      rfl
  | bool value =>
    have hv : (if value = 1 then 0xFF else 0 : ℕ) ≤ 0xFF := by
      split <;> decide
    have hwrite := (appends_oneByte berTagBoolean hv).map fun _ => (none : Option ℕ)
    refine (@agrees_iff conv _ (.bool value) none hwrite nofun nofun).trans ?_
    have hread : ByteReader.Takes berReadBOOL
        (oneByte berTagBoolean (if value = 1 then 0xFF else 0))
        (some (if value = 1 then 1 else 0)) := by
      refine (takes_berReadUniversalTag _ _).bind ((takes_berReadLength (by decide)).bind ?_)
      refine ByteReader.Takes.passes rfl (ByteReader.Takes.require le_rfl ?_)
      by_cases htrue : value = 1
      · rw [if_pos htrue, if_pos htrue]
        exact (@ByteReader.takes_uint8 0xFF (by decide)).map
          fun v => if v ≠ 0 then (1 : ℤ) else 0
      · rw [if_neg htrue, if_neg htrue]
        exact (@ByteReader.takes_uint8 0 (by decide)).map
          fun v => if v ≠ 0 then (1 : ℤ) else 0
    show berReadBOOL _ = some (value, []) ↔ value = 0 ∨ value = 1
    rw [hread.eq, map_some, some_inj, Prod.mk.injEq, and_iff_left rfl]
    split <;> omega
  | enumerated value count =>
    obtain ⟨hlt, hcount⟩ := hwf
    have hv : value ≤ 0xFF := by omega
    have hwrite := (appends_oneByte berTagEnumerated hv).map fun _ => (none : Option ℕ)
    refine iff_of_true
      ((@agrees_iff conv _ (.enumerated value count) none hwrite nofun nofun).2 ?_) trivial
    have hread : ByteReader.Takes (berReadEnumerated count)
        ([UInt8.ofNat (berTag berClassUniv berTagEnumerated false)] ++
          (berLength 1 ++ ([UInt8.ofNat value] ++ []))) (some value) := by
      refine (takes_berReadUniversalTag _ _).bind ((takes_berReadLength (by decide)).bind ?_)
      refine ByteReader.Takes.passes rfl (ByteReader.Takes.require le_rfl ?_)
      exact (ByteReader.takes_uint8 (by omega)).bind
        (ByteReader.Takes.passes hlt (takes_pure _))
    exact hread.eq
  | octetString octStr =>
    have hlength : octStr.length ≤ 0xFFFF :=
      le_trans (le_add_left _ _) (show berSizeofOctetString octStr.length ≤ 65535 from hwf)
    refine iff_of_true (agrees_of_reports _ rfl (reports_berWriteOctetString hlength) ?_ ?_) trivial
    · intro z hz
      rw [length_berOctetString]
      exact (some.inj hz).symm
    · exact (takes_berReadOctetString hlength).eq
  | contextualOctetString tag octStr =>
    have hinner : berSizeofOctetString octStr.length ≤ 0xFFFF :=
      le_trans (le_add_left _ _) hwf.2
    have hlength : octStr.length ≤ 0xFFFF := le_trans (le_add_left _ _) hinner
    refine iff_of_true (agrees_of_reports _ rfl
      (reports_berWriteContextualOctetString tag hinner) ?_ ?_) trivial
    · intro z hz
      rw [length_contextual, length_berOctetString]
      exact (some.inj hz).symm
    · exact readInside tag (by rwa [length_berOctetString]) (takes_berReadOctetString hlength)
  | charString str =>
    obtain ⟨wstr, hconverts, hsize⟩ := hwf
    have hlength : (wstr.length + 1) * 2 ≤ 0xFFFF := le_trans (le_add_left _ _) hsize
    refine iff_of_true (agrees_of_reports _ rfl
      (reports_berWriteCharToUnicodeOctetString hconverts hlength) ?_ ?_) trivial
    · intro z hz
      rw [length_berOctetString, length_wideBytes, length_append, length_singleton]
      rw [sizeof, hconverts.toWide] at hz
      exact (some.inj hz).symm
    · exact (takes_berReadCharFromUnicodeOctetString hconverts hlength).eq
  | contextualUnicodeString tag str =>
    obtain ⟨-, hnul, hsize⟩ := hwf
    have hinner : berSizeofOctetString (str.length * 2) ≤ 0xFFFF :=
      le_trans (le_add_left _ _) hsize
    have hlength : str.length * 2 ≤ 0xFFFF := le_trans (le_add_left _ _) hinner
    have hstring : (berOctetString (wideBytes str)).length =
        berSizeofOctetString (str.length * 2) := by
      rw [length_berOctetString, length_wideBytes]
    have hwrite : Reports (berWriteContextualUnicodeOctetString tag str)
        (berContextualTag tag (berOctetString (wideBytes str)).length ++
          berOctetString (wideBytes str)) := by
      rw [hstring]
      exact (reports_berWriteContextualTag tag hinner).add
        (reports_berWriteOctetString (by rwa [length_wideBytes]))
    refine iff_of_true (agrees_of_reports _ rfl hwrite ?_ ?_) trivial
    · intro z hz
      rw [length_contextual, hstring]
      exact (some.inj hz).symm
    · exact readInside tag (by rwa [hstring]) (takes_berReadUnicodeOctetString hnul hlength)
  | contextualCharString tag str =>
    obtain ⟨-, wstr, hconverts, hsize⟩ := hwf
    refine iff_of_false (not_agrees _ (berSizeofContextualOctetString (wstr.length * 2))
      fun s before hs => map_fails ?_ some) id
    exact berWriteContextualChar_fails hconverts hs

/-- Texts of one-byte characters. -/
def ascii : WideConversion where
  multiByteToWideChar str := some (str.map fun b => UInt16.ofNat b.toNat)
  wideCharToMultiByte wstr := some (wstr.map fun c => UInt8.ofNat c.toNat)

/-- The text `ok`. -/
theorem agrees_iff_sound_ok :
    (charString [0x6F, 0x6B]).Agrees ascii ↔ (charString [0x6F, 0x6B]).Sound := by
  refine agrees_iff_sound ⟨[0x6F, 0x6B], ⟨?_, ?_, ?_⟩, ?_⟩
  · rfl
  · rfl
  · decide
  · decide

/-- An integer of 17 bits, which has room and is not written. -/
theorem seventeenBits_not_agrees :
    (integer 0x10000).WellFormed ascii ∧
      ¬(integer 0x10000).Agrees ascii := by
  refine ⟨show 0x10000 < 2 ^ 32 by decide, not_agrees _ 0 fun s before _ => ?_⟩
  refine map_fails (berWriteInteger_fails ?_ s) some
  unfold BerWritable
  decide

end BerItem
