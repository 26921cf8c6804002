/-
# Reading the codes of NCRUSH

`BitReader.Holds` says that a reader stands in front of some fields.  Every symbol that the
compressor writes takes one round of `decodeLoop`: a literal is put behind the history, and a
match is copied, also where it overlaps what it makes (`Decodes`).
-/
import XyDeskRemote.Ncrush

open List Nat

namespace Ncrush

open LsbBits
open MatchCopy (AgreeBelow)

/-! ## The reader -/

/-- The fields are what a reader will read: it has the next sixteen bits, or all that there are. -/
structure BitReader.Holds (r : BitReader) (fields : List (ℕ × ℕ)) : Prop where
  nonneg : 0 ≤ r.nbits
  fits : r.nbits ≤ 32
  remaining : Remaining r.bits r.nbits.toNat r.src fields
  full : 16 ≤ r.nbits ∨ r.src = []
  even : 2 ∣ r.src.length

/-- A value that has its number of bits, and not too many of them. -/
def Fits (field : ℕ × ℕ) : Prop := field.1 < 2 ^ field.2 ∧ field.2 ≤ 16

namespace BitReader

variable {r : BitReader} {fields : List (ℕ × ℕ)}

theorem twoBytes (b₀ b₁ : UInt8) (src : List UInt8) :
    b₀.toNat ||| b₁.toNat <<< 8 = LittleEndian.decode ((b₀ :: b₁ :: src).take 2) := by
  have hb : b₀.toNat < 2 ^ 8 := b₀.toNat_lt
  rw [Nat.or_comm, ← Nat.shiftLeft_add_eq_or_of_lt hb, Nat.shiftLeft_eq]
  simp only [take_succ_cons, take_zero, LittleEndian.decode]
  omega

/-- Two more bytes are fetched as long as there are some. -/
theorem fetch_holds {n : ℕ} (hn : r.nbits = n) (hn32 : n ≤ 32)
    (hremaining : Remaining r.bits n r.src fields) (heven : 2 ∣ r.src.length) :
    ∃ r', r.fetch = some r' ∧ r'.Holds fields := by
  obtain ⟨src, nbits, bits⟩ := r
  dsimp only at hn hremaining heven
  subst hn
  rw [fetch]
  dsimp only
  split
  next hlow =>
    match src, hremaining, heven with
    | [], hremaining, heven =>
      rw [if_neg (by omega)]
      exact ⟨_, rfl, by dsimp only; omega, by dsimp only; omega, hremaining, .inr rfl, heven⟩
    | [_], _, heven => exact absurd heven (by simp only [length_singleton]; decide)
    | b₀ :: b₁ :: src, hremaining, heven =>
      have hfilled := hremaining.fill (k := 2) (by simp only [length_cons]; omega)
      rw [← twoBytes] at hfilled
      have hlt : bits + (b₀.toNat ||| b₁.toNat <<< 8) <<< n < 2 ^ 32 :=
        hfilled.lt.trans_le (Nat.pow_le_pow_right (by decide) (by omega))
      refine ⟨_, rfl, by dsimp only; omega, by dsimp only; omega, ?_, .inl (by dsimp only; omega),
        ?_⟩
      · dsimp only
        rw [Int.toNat_natCast, mod_eq_of_lt hlt, show ((n : ℤ) + 16).toNat = n + 8 * 2 by omega]
        exact hfilled
      · simp only [length_cons] at heven ⊢
        omega
  next hhigh =>
    exact ⟨_, rfl, by dsimp only; omega, by dsimp only; omega, hremaining,
      .inl (by dsimp only; omega), heven⟩

/-- The first field is dropped. -/
theorem drop_holds {value length : ℕ} (h : r.Holds ((value, length) :: fields))
    (hvalue : value < 2 ^ length) (hlength : length ≤ 16) :
    ∃ r', r.drop length = some r' ∧ r'.Holds fields := by
  have hle : length ≤ r.nbits.toNat := by
    have henough := h.remaining.enough
    rw [size_cons] at henough
    obtain hfull | hempty := h.full
    · omega
    · rw [hempty, length_nil] at henough
      omega
  obtain ⟨-, hrest⟩ := h.remaining.take hvalue hle
  have hfits := h.fits
  have hnonneg := h.nonneg
  apply fetch_holds (n := r.nbits.toNat - length)
  · dsimp only
    omega
  · omega
  · exact hrest
  · exact h.even

/-- A symbol with its code in front. -/
theorem symbol_holds {entry : ℕ → ℕ} {width mask s : ℕ} {field : ℕ × ℕ}
    (hmask : ∀ bits, maskedBits bits mask = bits % 2 ^ width) (hwidth : width ≤ 16)
    (hentry : ∀ rest, entry ((field.1 + 2 ^ field.2 * rest) % 2 ^ width) = field.2 * 2 ^ 12 + s)
    (hfield : field.1 < 2 ^ field.2) (hlength : field.2 ≤ 16) (hs : s < 2 ^ 12)
    (h : r.Holds (field :: fields)) :
    ∃ r', r.symbol entry mask = some (s, r') ∧ r'.Holds fields := by
  have hpeek : r.bits % 2 ^ width = pack (field :: fields) % 2 ^ width := by
    apply h.remaining.peek
    obtain hfull | hempty := h.full
    · exact .inl (by omega)
    · exact .inr hempty
  have hfound : entry (maskedBits r.bits mask) = field.2 * 2 ^ 12 + s := by
    rw [hmask, hpeek, pack]
    exact hentry (pack fields)
  have hshift : (field.2 * 2 ^ 12 + s) >>> 12 = field.2 := by
    rw [shiftRight_eq_div_pow]
    omega
  have hand : (field.2 * 2 ^ 12 + s) &&& 0xFFF = s := by
    rw [show 0xFFF = 2 ^ 12 - 1 from rfl, and_two_pow_sub_one_eq_mod]
    omega
  have hfront : r.Holds ((field.1, field.2) :: fields) := h
  obtain ⟨r', hdrop, hr'⟩ := drop_holds hfront hfield hlength
  refine ⟨r', ?_, hr'⟩
  rw [symbol]
  simp only [hfound, hshift, hand, hdrop, Option.bind_eq_bind, Option.bind_some]
  rfl

theorem symbol_lec {s : ℕ} (hs : s < 294) (h : r.Holds (lecField s :: fields)) :
    ∃ r', r.symbol huffTableLEC 29 = some (s, r') ∧ r'.Holds fields := by
  obtain ⟨hcode, -, hlength⟩ := lecField_bounds hs
  exact symbol_holds (fun _ => maskedBits_eq (n := 13) (by decide) (by decide)) (by decide)
    (huffTableLEC_code hs) hcode (by omega) (by omega) h

theorem symbol_lom {s : ℕ} (hs : s < 32) (h : r.Holds (lomField s :: fields)) :
    ∃ r', r.symbol huffTableLOM 21 = some (s, r') ∧ r'.Holds fields := by
  obtain ⟨hcode, hlength⟩ := lomField_bounds hs
  exact symbol_holds (fun _ => maskedBits_eq (n := 9) (by decide) (by decide)) (by decide)
    (huffTableLOM_code hs) hcode (by omega) (by omega) h

/-- A field without bits says nothing. -/
theorem Holds.tail {value : ℕ} (h : r.Holds ((value, 0) :: fields)) (hvalue : value < 2 ^ 0) :
    r.Holds fields := by
  obtain ⟨-, hrest⟩ := h.remaining.take hvalue (zero_le _)
  exact ⟨h.nonneg, h.fits, by simpa using hrest, h.full, h.even⟩

/-- The bits behind a symbol. -/
theorem extra_holds {value length : ℕ} (h : r.Holds ((value, length) :: fields))
    (hvalue : value < 2 ^ length) (hlength : length ≤ 16) :
    ∃ r', r.extra length = some (value, r') ∧ r'.Holds fields := by
  obtain rfl | hpos := Nat.eq_zero_or_pos length
  · refine ⟨r, ?_, h.tail hvalue⟩
    have hzero : value = 0 := by
      rw [pow_zero] at hvalue
      omega
    rw [hzero]
    rfl
  · obtain ⟨r', hdrop, hr'⟩ := drop_holds h hvalue hlength
    have hpeek : r.bits % 2 ^ length = value := by
      have hfirst : r.bits % 2 ^ length = pack ((value, length) :: fields) % 2 ^ length := by
        apply h.remaining.peek
        obtain hfull | hempty := h.full
        · exact .inl (by omega)
        · exact .inr hempty
      rw [hfirst, pack, add_mul_mod_self_left, mod_eq_of_lt hvalue]
    have hindex : 2 * length + 3 < huffTableMask.length := by
      have hcount : huffTableMask.length = 39 := rfl
      omega
    refine ⟨r', ?_, hr'⟩
    rw [extra, if_pos (pos_iff_ne_zero.1 hpos), guard, if_pos hindex, hdrop,
      maskedBits_eq hpos hlength, hpeek]
    rfl

/-- **The length of a match**, from the fields that say it. -/
theorem matchLength_holds {m : ℕ} (hm2 : 2 ≤ m) (hm16 : m ≤ 16) :
    ∃ more, lengthFields m = some more ∧ (∀ field ∈ more, Fits field) ∧
      ∀ {r : BitReader} {fields}, r.Holds (more ++ fields) →
        ∃ r', r.matchLength = some (m, r') ∧ r'.Holds fields := by
  obtain ⟨hindex, hbits, hsum⟩ := matchLength_split m hm16 hm2
  obtain ⟨hcode, hcodeLength⟩ := lomField_bounds (show matchLengthIndex m < 32 by omega)
  have hmasked : (m - 2) % 2 ^ lomBitsLUT.getD (matchLengthIndex m) 0 <
      2 ^ lomBitsLUT.getD (matchLengthIndex m) 0 := Nat.mod_lt _ (Nat.two_pow_pos _)
  have htables : matchLengthIndex m < huffLengthLOM.length ∧
      matchLengthIndex m < lomBitsLUT.length ∧ matchLengthIndex m < huffCodeLOM.length ∧
        matchLengthIndex m < lomBaseLUT.length := by
    simp only [show huffLengthLOM.length = 32 from rfl, show lomBitsLUT.length = 30 from rfl,
      show huffCodeLOM.length = 32 from rfl, show lomBaseLUT.length = 30 from rfl]
    omega
  refine ⟨[lomField (matchLengthIndex m), ((m - 2) % 2 ^ lomBitsLUT.getD (matchLengthIndex m) 0,
    lomBitsLUT.getD (matchLengthIndex m) 0)], ?_, ?_, ?_⟩
  · simp only [lengthFields, guard, if_pos htables, and_two_pow_sub_one_eq_mod, if_pos hsum]
    rfl
  · intro field hfield
    simp only [mem_cons, not_mem_nil, or_false] at hfield
    rcases hfield with rfl | rfl
    · exact ⟨hcode, by omega⟩
    · exact ⟨hmasked, by dsimp only; omega⟩
  · intro r fields hr
    obtain ⟨r₁, hsymbol, hr₁⟩ := symbol_lom (s := matchLengthIndex m) (by omega) hr
    obtain ⟨r₂, hextra, hr₂⟩ := extra_holds hr₁ hmasked (by omega)
    refine ⟨r₂, ?_, hr₂⟩
    simp only [matchLength, hsymbol, hextra, Option.bind_eq_bind, Option.bind_some, guard,
      if_pos htables.2.1]
    rw [add_comm] at hsum
    exact congrArg (fun n => some (n, r₂)) hsum

end BitReader

/-! ## Literals and matches -/

theorem lecFieldWithin_of_lt {limit s : ℕ} (hs : s < 294) (hlimit : 13 ≤ limit) :
    lecFieldWithin limit s = some (lecField s) := by
  obtain ⟨-, -, hlength⟩ := lecField_bounds hs
  rw [lecFieldWithin, length_huffLengthLEC, length_huffCodeLEC, if_pos (by omega)]

theorem fits_lecField {s : ℕ} (hs : s < 294) : Fits (lecField s) := by
  obtain ⟨hcode, -, hlength⟩ := lecField_bounds hs
  exact ⟨hcode, by omega⟩

theorem eq_of_cacheIndex {cache : Fin 4 → ℕ} {copyOffset : ℕ} {i : Fin 4}
    (h : cacheIndex cache copyOffset = some i) : cache i = copyOffset := by
  unfold cacheIndex at h
  split_ifs at h <;> cases h <;> exact Eq.symm ‹_›

/-- **The offset and the length of a match**, from the fields that say them, and the cache that
both sides have then. -/
theorem copy_holds (cache : Fin 4 → ℕ) {copyOffset m : ℕ} (hoffset : copyOffset < 65536)
    (hm2 : 2 ≤ m) (hm16 : m ≤ 16) :
    ∃ s fs more, s < 36 ∧ (offsetFields cache copyOffset).2 = some (lecField (257 + s) :: fs) ∧
      lengthFields m = some more ∧ (∀ field ∈ lecField (257 + s) :: fs ++ more, Fits field) ∧
      ∀ {r : BitReader} {fields}, r.Holds (fs ++ more ++ fields) →
        ∃ r', r.copy cache s = some (copyOffset, m, (offsetFields cache copyOffset).1, r') ∧
          r'.Holds fields := by
  obtain ⟨more, hmore, hfits, hread⟩ := BitReader.matchLength_holds hm2 hm16
  cases hcached : cacheIndex cache copyOffset with
  | some i =>
    have hi := i.isLt
    refine ⟨32 + i, [], more, by omega, ?_, hmore, ?_, ?_⟩
    · rw [offsetFields, hcached]
      dsimp only
      rw [lecFieldWithin_of_lt (by omega) (by decide), ← add_assoc]
      rfl
    · intro field hfield
      rcases mem_cons.1 hfield with rfl | hfield
      · exact fits_lecField (by omega)
      · exact hfits field hfield
    · intro r fields hr
      obtain ⟨r', hlength, hr'⟩ := hread hr
      have hplace : 32 + (i : ℕ) - 32 < 4 := by omega
      have hfin : (⟨32 + (i : ℕ) - 32, hplace⟩ : Fin 4) = i := Fin.ext (by dsimp only; omega)
      refine ⟨r', ?_, hr'⟩
      rw [BitReader.copy, if_pos (by omega), dif_pos hplace, hlength, hfin, offsetFields, hcached,
        eq_of_cacheIndex hcached]
      rfl
  | none =>
    obtain ⟨hindex, hbits, hsum⟩ := copyOffset_split hoffset
    have hlow : copyOffset % 2 ^ copyOffsetBitsLUT.getD (copyOffsetIndex copyOffset) 0 <
        2 ^ copyOffsetBitsLUT.getD (copyOffsetIndex copyOffset) 0 :=
      Nat.mod_lt _ (Nat.two_pow_pos _)
    refine ⟨copyOffsetIndex copyOffset,
      [(copyOffset % 2 ^ copyOffsetBitsLUT.getD (copyOffsetIndex copyOffset) 0,
        copyOffsetBitsLUT.getD (copyOffsetIndex copyOffset) 0)], more, by omega, ?_, hmore, ?_, ?_⟩
    · have hcount : copyOffsetBitsLUT.length = 32 := rfl
      rw [offsetFields, hcached]
      dsimp only
      rw [lecFieldWithin_of_lt (by omega) (by decide), and_two_pow_sub_one_eq_mod, hcount]
      simp only [guard, if_pos hindex, if_pos (le_trans hbits (by decide : 14 ≤ 18))]
      rfl
    · intro field hfield
      rcases mem_cons.1 hfield with rfl | hfield
      · exact fits_lecField (by omega)
      · rcases mem_cons.1 hfield with rfl | hfield
        · exact ⟨hlow, by dsimp only; omega⟩
        · exact hfits field hfield
    · intro r fields hr
      obtain ⟨r₁, hextra, hr₁⟩ := BitReader.extra_holds hr hlow (by omega)
      obtain ⟨r', hlength, hr'⟩ := hread hr₁
      refine ⟨r', ?_, hr'⟩
      rw [BitReader.copy, if_neg (by omega), hextra]
      simp only [Option.bind_eq_bind, Option.bind_some, hlength, hsum, offsetFields, hcached]
      rfl

/-! ## Rounds of the decompressor -/

/-- From some fields the decompressor goes from one state to another, in a number of rounds. -/
def Decodes (fields : List (ℕ × ℕ)) (rounds : ℕ) (d d' : Decoder) : Prop :=
  ∀ (r : BitReader) (more : List (ℕ × ℕ)) (fuel : ℕ), r.Holds (fields ++ more) →
    ∃ r', r'.Holds more ∧ decodeLoop (fuel + rounds) r d = decodeLoop fuel r' d'

variable {d d' d'' : Decoder} {fields more : List (ℕ × ℕ)}

theorem decodes_nil : Decodes [] 0 d d := fun _ _ _ hr => ⟨_, hr, rfl⟩

theorem Decodes.append {m n : ℕ} (h : Decodes fields m d d') (h' : Decodes more n d' d'') :
    Decodes (fields ++ more) (m + n) d d'' := by
  intro r rest fuel hr
  rw [append_assoc] at hr
  obtain ⟨r₁, hr₁, hfirst⟩ := h r (more ++ rest) (fuel + n) hr
  obtain ⟨r₂, hr₂, hsecond⟩ := h' r₁ rest fuel hr₁
  refine ⟨r₂, hr₂, ?_⟩
  rw [add_comm m, ← add_assoc, hfirst, hsecond]

theorem decodes_literal (b : UInt8) (hptr : d.ptr < 65535) :
    Decodes [lecField b.toNat] 1 d
      { d with buffer := Function.update d.buffer d.ptr b, ptr := d.ptr + 1 } := by
  intro r rest fuel hr
  have hb : b.toNat < 2 ^ 8 := b.toNat_lt
  obtain ⟨r', hsymbol, hr'⟩ := BitReader.symbol_lec (s := b.toNat) (by omega) hr
  refine ⟨r', hr', ?_⟩
  rw [decodeLoop]
  simp only [hsymbol, Option.bind_eq_bind, Option.bind_some]
  rw [if_pos (by omega), if_neg (by omega), UInt8.ofNat_toNat]

theorem decodeLoop_end {r : BitReader} (hr : r.Holds (lecField 256 :: fields)) (fuel : ℕ) :
    decodeLoop (fuel + 1) r d = some d := by
  obtain ⟨r', hsymbol, -⟩ := BitReader.symbol_lec (s := 256) (by decide) hr
  rw [decodeLoop]
  simp only [hsymbol, Option.bind_eq_bind, Option.bind_some]
  rfl

/-- A match is copied as it is in a history that agrees with the decompressor's. -/
theorem copyMatch_agree {copyOffset m : ℕ} (hoffset : 0 < copyOffset) (hle : copyOffset ≤ d.ptr)
    (hm : 2 ≤ m) (hptr : d.ptr + m < 65535) :
    ∃ d', d.copyMatch copyOffset m = some d' ∧ d'.ptr = d.ptr + m ∧ d'.cache = d.cache ∧
      ∀ {E : ℕ → UInt8}, AgreeBelow d.ptr d.buffer E →
        (∀ i < m, E (d.ptr + i) = E (d.ptr - copyOffset + i)) →
          AgreeBelow (d.ptr + m) d'.buffer E := by
  have hlength : (if m > copyOffset then copyOffset else m) = min m copyOffset := by
    split
    · rw [Nat.min_eq_right (by omega)]
    · rw [min_eq_left (by omega)]
  rw [Decoder.copyMatch, if_neg (by omega), if_neg (by omega)]
  simp only [hlength, if_pos hle]
  refine ⟨_, rfl, by dsimp only; omega, rfl, fun hagree hmatch => ?_⟩
  have hcopied := MatchCopy.agree_copyMatch hagree hoffset hle hmatch
  obtain hshort | hlong := le_total m copyOffset
  · rw [Nat.sub_eq_zero_of_le hshort] at hcopied ⊢
    exact hcopied
  · rw [Nat.min_eq_right hlong, Nat.sub_add_cancel hle]
    rwa [Nat.min_eq_right hlong] at hcopied

/-- **A match**, from what the compressor writes for it. -/
theorem decodes_match {copyOffset m : ℕ} (hoffset : 0 < copyOffset) (hle : copyOffset ≤ d.ptr)
    (hm2 : 2 ≤ m) (hm16 : m ≤ 16) (hptr : d.ptr + m < 65535) :
    ∃ fields more d', (offsetFields d.cache copyOffset).2 = some fields ∧
      lengthFields m = some more ∧ (∀ field ∈ fields ++ more, Fits field) ∧
      5 ≤ size (fields ++ more) ∧ Decodes (fields ++ more) 1 d d' ∧
      d'.ptr = d.ptr + m ∧ d'.cache = (offsetFields d.cache copyOffset).1 ∧
      ∀ {E : ℕ → UInt8}, AgreeBelow d.ptr d.buffer E →
        (∀ i < m, E (d.ptr + i) = E (d.ptr - copyOffset + i)) →
          AgreeBelow (d.ptr + m) d'.buffer E := by
  obtain ⟨s, fs, more, hs, hfields, hmore, hfits, hread⟩ :=
    copy_holds d.cache (show copyOffset < 65536 by omega) hm2 hm16
  obtain ⟨d', hcopied, hptr', hcache, hagree⟩ :=
    copyMatch_agree (d := { d with cache := (offsetFields d.cache copyOffset).1 }) hoffset hle hm2
      hptr
  refine ⟨_, more, d', hfields, hmore, hfits, ?_, ?_, hptr', hcache, hagree⟩
  · obtain ⟨-, hlength, -⟩ := lecField_bounds (show 257 + s < 294 by omega)
    rw [cons_append, size_cons]
    omega
  · intro r rest fuel hr
    rw [cons_append, cons_append] at hr
    obtain ⟨r₁, hsymbol, hr₁⟩ := BitReader.symbol_lec (s := 257 + s) (by omega) hr
    obtain ⟨r', hcopy, hr'⟩ := hread hr₁
    refine ⟨r', hr', ?_⟩
    rw [decodeLoop]
    simp only [hsymbol, Option.bind_eq_bind, Option.bind_some]
    rw [if_neg (by omega), if_neg (by omega), Nat.add_sub_cancel_left, hcopy]
    simp only [Option.bind_some, hcopied]

end Ncrush
