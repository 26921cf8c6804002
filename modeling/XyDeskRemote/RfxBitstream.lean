/-
# RFX_BITSTREAM

`rfx_bitstream.h`, as the encoder writes it: bits are put into a buffer of zeros, byte by byte.
`Wrote.putBits` says which bits the buffer has then.
-/
import XyDeskRemote.MsbBits

open MsbBits Nat

/-- `RFX_BITSTREAM`; `nbytes` is the length of the buffer. -/
structure RfxBitstream where
  buffer : List UInt8
  bytePos : ℕ := 0
  bitsLeft : ℕ := 8

namespace RfxBitstream

/-- The loop of `rfx_bitstream_put_bits`.  A byte always has a bit left. -/
def putLoop (bs : RfxBitstream) (bits nbits : ℕ) : RfxBitstream :=
  if _hgo : bs.bytePos < bs.buffer.length ∧ 0 < nbits ∧ 0 < bs.bitsLeft then
    let b := min nbits bs.bitsLeft
    let byte := (bs.buffer.getD bs.bytePos 0).toNat |||
      (bits >>> (nbits - b) &&& (2 ^ b - 1)) <<< (bs.bitsLeft - b)
    let bs := { bs with
      buffer := bs.buffer.set bs.bytePos (UInt8.ofNat byte)
      bitsLeft := bs.bitsLeft - b }
    let bs := if bs.bitsLeft = 0 then { bs with bitsLeft := 8, bytePos := bs.bytePos + 1 } else bs
    putLoop bs bits (nbits - b)
  else bs
termination_by nbits

/-- `rfx_bitstream_put_bits`, which asserts that the pattern has 16 bits. -/
def putBits (bs : RfxBitstream) (bits nbits : ℕ) : Option RfxBitstream :=
  if bits < 2 ^ 16 then some (bs.putLoop bits nbits) else none

/-- `rfx_bitstream_flush`. -/
def flush (bs : RfxBitstream) : Option RfxBitstream :=
  if bs.bitsLeft ≠ 8 then bs.putBits 0 (8 - bs.bitsLeft) else some bs

/-- `rfx_bitstream_get_processed_bytes`. -/
def processedBytes (bs : RfxBitstream) : ℕ :=
  if bs.bitsLeft < 8 then bs.bytePos + 1 else bs.bytePos

/-! ## What is written -/

/-- The bits that were put into a buffer of zeros. -/
structure Wrote (bs : RfxBitstream) (bits : List Bool) : Prop where
  left_pos : 0 < bs.bitsLeft
  left_le : bs.bitsLeft ≤ 8
  position_eq : 8 * bs.bytePos + (8 - bs.bitsLeft) = bits.length
  buffer_eq : ∀ j, (bytesBits bs.buffer).getD j false = bits.getD j false

variable {bs : RfxBitstream} {bits : List Bool}

theorem testBit_put (byte v left b i : ℕ) (hleft : b ≤ left) (hi : i < 8) (hleft8 : left ≤ 8) :
    (byte ||| (v &&& (2 ^ b - 1)) <<< (left - b)).testBit (7 - i) =
      (byte.testBit (7 - i) ||
        (decide (8 - left ≤ i) && (bitsOf b v).getD (i - (8 - left)) false)) := by
  rw [testBit_or, testBit_shiftLeft, testBit_and, testBit_two_pow_sub_one, getD_bitsOf]
  congr 1
  by_cases hnew : 8 - left ≤ i
  · rw [decide_eq_true hnew, Bool.true_and]
    by_cases hin : i - (8 - left) < b
    · have hindex : 7 - i - (left - b) = b - 1 - (i - (8 - left)) := by omega
      rw [decide_eq_true hin, hindex, decide_eq_true (by omega : 7 - i ≥ left - b),
        decide_eq_true (by omega : b - 1 - (i - (8 - left)) < b), Bool.true_and, Bool.true_and,
        Bool.and_true]
    · rw [decide_eq_false hin, decide_eq_false (by omega : ¬ 7 - i ≥ left - b), Bool.false_and,
        Bool.false_and]
  · rw [decide_eq_false hnew, decide_eq_false (by omega : ¬ 7 - i - (left - b) < b),
      Bool.and_false, Bool.and_false, Bool.false_and]

theorem Wrote.round (h : Wrote bs bits) {v b : ℕ} (hb : b ≤ bs.bitsLeft)
    (hroom : bs.bytePos < bs.buffer.length) {bs' : RfxBitstream}
    (hbuffer : bs'.buffer = bs.buffer.set bs.bytePos (UInt8.ofNat
      ((bs.buffer.getD bs.bytePos 0).toNat ||| (v &&& (2 ^ b - 1)) <<< (bs.bitsLeft - b))))
    (hleft_pos : 0 < bs'.bitsLeft) (hleft_le : bs'.bitsLeft ≤ 8)
    (hposition : 8 * bs'.bytePos + (8 - bs'.bitsLeft) = bits.length + b) :
    Wrote bs' (bits ++ bitsOf b v) := by
  have hold := h.position_eq
  have hpos := h.left_pos
  have hle := h.left_le
  refine ⟨hleft_pos, hleft_le, ?_, fun j => ?_⟩
  · rw [hposition, List.length_append, length_bitsOf]
  · rw [hbuffer, getD_bytesBits, getD_append]
    have hbefore := h.buffer_eq j
    rw [getD_bytesBits] at hbefore
    by_cases hbyte : j / 8 = bs.bytePos
    · -- the byte that is changed
      rw [hbyte] at hbefore ⊢
      have hbyteLt : (bs.buffer.getD bs.bytePos 0).toNat |||
          (v &&& (2 ^ b - 1)) <<< (bs.bitsLeft - b) < 256 := by
        refine or_lt_two_pow (UInt8.toNat_lt _) ?_
        have hlow : v &&& (2 ^ b - 1) < 2 ^ b := by
          rw [and_two_pow_sub_one_eq_mod]
          exact Nat.mod_lt _ (Nat.two_pow_pos b)
        rw [shiftLeft_eq]
        calc (v &&& (2 ^ b - 1)) * 2 ^ (bs.bitsLeft - b)
            < 2 ^ b * 2 ^ (bs.bitsLeft - b) := Nat.mul_lt_mul_of_pos_right hlow (Nat.two_pow_pos _)
          _ = 2 ^ bs.bitsLeft := by rw [← pow_add, Nat.add_sub_cancel' hb]
          _ ≤ 2 ^ 8 := Nat.pow_le_pow_right Nat.two_pos hle
      have hget : (bs.buffer.set bs.bytePos (UInt8.ofNat
          ((bs.buffer.getD bs.bytePos 0).toNat |||
            (v &&& (2 ^ b - 1)) <<< (bs.bitsLeft - b)))).getD bs.bytePos 0 = UInt8.ofNat
          ((bs.buffer.getD bs.bytePos 0).toNat |||
            (v &&& (2 ^ b - 1)) <<< (bs.bitsLeft - b)) := by
        rw [List.getD_eq_getElem?_getD, List.getElem?_set_self hroom, Option.getD_some]
      rw [hget, UInt8.toNat_ofNat_of_lt' hbyteLt,
        testBit_put _ _ _ _ _ hb (Nat.mod_lt _ (by decide)) hle, hbefore]
      by_cases hwritten : j < bits.length
      · rw [if_pos hwritten, decide_eq_false (by omega : ¬ 8 - bs.bitsLeft ≤ j % 8),
          Bool.false_and, Bool.or_false]
      · have hindex : j % 8 - (8 - bs.bitsLeft) = j - bits.length := by omega
        rw [if_neg hwritten, getD_of_le (Nat.le_of_not_lt hwritten), Bool.false_or, hindex,
          decide_eq_true (by omega : 8 - bs.bitsLeft ≤ j % 8), Bool.true_and]
    · have hget : ∀ x : UInt8, (bs.buffer.set bs.bytePos x).getD (j / 8) 0 =
          bs.buffer.getD (j / 8) 0 := by
        intro x
        rw [List.getD_eq_getElem?_getD, List.getElem?_set_ne (Ne.symm hbyte),
          List.getD_eq_getElem?_getD]
      rw [hget, hbefore]
      split
      next => rfl
      next hwritten =>
        rw [getD_of_le (Nat.le_of_not_lt hwritten), getD_of_le]
        rw [length_bitsOf]
        omega

/-- **The bits are put behind those that were**, as far as there is room. -/
theorem Wrote.putLoop (h : Wrote bs bits) (hlength : bits.length ≤ 8 * bs.buffer.length)
    (v n : ℕ) : Wrote (bs.putLoop v n) ((bits ++ bitsOf n v).take (8 * bs.buffer.length)) ∧
      (bs.putLoop v n).buffer.length = bs.buffer.length := by
  induction n using Nat.strong_induction_on generalizing bs bits with
  | h n ih =>
    have hposition := h.position_eq
    have hpos := h.left_pos
    have hle := h.left_le
    rw [RfxBitstream.putLoop]
    by_cases hstop : ¬ (bs.bytePos < bs.buffer.length ∧ 0 < n ∧ 0 < bs.bitsLeft)
    · -- no bits, or no room
      have hall : (bits ++ bitsOf n v).take (8 * bs.buffer.length) = bits := by
        rcases Nat.eq_zero_or_pos n with rfl | hn
        · rw [bitsOf, List.append_nil]
          exact List.take_of_length_le hlength
        · exact List.take_left' (by omega)
      rw [dif_neg hstop, hall]
      exact ⟨h, rfl⟩
    · obtain ⟨hbyte, hn, -⟩ := not_not.1 hstop
      rw [dif_pos ⟨hbyte, hn, hpos⟩]
      have hb : min n bs.bitsLeft ≤ bs.bitsLeft := min_le_right _ _
      have hbn : min n bs.bitsLeft ≤ n := min_le_left _ _
      have hbpos : 0 < min n bs.bitsLeft := Nat.lt_min.2 ⟨hn, hpos⟩
      generalize min n bs.bitsLeft = b at hb hbn hbpos ⊢
      have hround : ∀ bs', bs' = (if bs.bitsLeft - b = 0 then
          { buffer := bs.buffer.set bs.bytePos (UInt8.ofNat
              ((bs.buffer.getD bs.bytePos 0).toNat |||
                (v >>> (n - b) &&& (2 ^ b - 1)) <<< (bs.bitsLeft - b)))
            bytePos := bs.bytePos + 1, bitsLeft := 8 }
        else
          { bs with
            buffer := bs.buffer.set bs.bytePos (UInt8.ofNat
              ((bs.buffer.getD bs.bytePos 0).toNat |||
                (v >>> (n - b) &&& (2 ^ b - 1)) <<< (bs.bitsLeft - b)))
            bitsLeft := bs.bitsLeft - b }) →
          Wrote bs' (bits ++ bitsOf b (v >>> (n - b))) ∧
            bs'.buffer.length = bs.buffer.length := by
        rintro bs' rfl
        split
        · refine ⟨h.round hb hbyte rfl (succ_pos 7) (le_refl 8) ?_, List.length_set⟩
          dsimp only
          omega
        · refine ⟨h.round hb hbyte rfl ?_ ?_ ?_, List.length_set⟩
          all_goals
            dsimp only
            omega
      obtain ⟨hwrote, hsame⟩ := hround _ rfl
      obtain ⟨hrest, hsame'⟩ := ih (n - b) (by omega) hwrote (by
        rw [hsame, List.length_append, length_bitsOf]
        omega)
      have hsplit : bitsOf n v = bitsOf b (v >>> (n - b)) ++ bitsOf (n - b) v := by
        rw [← bitsOf_add, Nat.add_sub_cancel' hbn]
      rw [hsame, List.append_assoc, ← hsplit] at hrest
      exact ⟨hrest, hsame'.trans hsame⟩

/-- `rfx_bitstream_put_bits` for a pattern of 16 bits at most, when there is room. -/
theorem Wrote.putBits (h : Wrote bs bits) {v : ℕ} (hv : v < 2 ^ 16) (n : ℕ)
    (hroom : bits.length + n ≤ 8 * bs.buffer.length) :
    ∃ t, bs.putBits v n = some t ∧ Wrote t (bits ++ bitsOf n v) ∧
      t.buffer.length = bs.buffer.length := by
  obtain ⟨hwrote, hlength⟩ := h.putLoop (by omega) v n
  rw [List.take_of_length_le (by rw [List.length_append, length_bitsOf]; exact hroom)] at hwrote
  exact ⟨bs.putLoop v n, if_pos hv, hwrote, hlength⟩

theorem wrote_attach (n : ℕ) : Wrote { buffer := List.replicate n 0 } [] := by
  refine ⟨(succ_pos 7), le_refl 8, rfl, fun j => ?_⟩
  rw [getD_bytesBits, List.getD_eq_getElem?_getD, List.getElem?_replicate]
  split
  · simp
  · simp

/-- How many bytes are begun. -/
theorem Wrote.processedBytes_eq (h : Wrote bs bits) :
    bs.processedBytes = (bits.length + 7) / 8 := by
  have hposition := h.position_eq
  have hpos := h.left_pos
  have hle := h.left_le
  rw [processedBytes]
  split
  · omega
  · omega

/-- Bytes that have room for the bits have them, and zeros behind them. -/
theorem Wrote.bytesBits_take (h : Wrote bs bits) {n : ℕ} (hn : bits.length ≤ 8 * n)
    (hle : n ≤ bs.buffer.length) :
    bytesBits (bs.buffer.take n) = bits ++ List.replicate (8 * n - bits.length) false := by
  have hlength : (bytesBits (bs.buffer.take n)).length = 8 * n := by
    rw [length_bytesBits, List.length_take, min_eq_left hle]
  refine eq_of_getD ?_ fun i hi => ?_
  · rw [hlength, List.length_append, List.length_replicate]
    omega
  · have hbyte : i / 8 < n := by omega
    have hget : (bs.buffer.take n).getD (i / 8) 0 = bs.buffer.getD (i / 8) 0 := by
      rw [List.getD_eq_getElem?_getD, List.getElem?_take_of_lt hbyte, List.getD_eq_getElem?_getD]
    have hbit := h.buffer_eq i
    rw [getD_bytesBits] at hbit
    rw [getD_bytesBits, hget, hbit, getD_append]
    split
    next => rfl
    next hbehind =>
      rw [getD_of_le (Nat.le_of_not_lt hbehind), List.getD_eq_getElem?_getD,
        List.getElem?_replicate]
      split
      · rfl
      · rfl

/-- **What is left when the stream is flushed**: the bits, and some zeros behind them.  As many
are put out as the last byte has bits already, so that they may begin a byte of their own. -/
theorem Wrote.flushed (h : Wrote bs bits)
    (hroom : bits.length + bits.length % 8 ≤ 8 * bs.buffer.length) :
    ∃ t k, bs.flush = some t ∧ t.processedBytes = (bits.length + bits.length % 8 + 7) / 8 ∧
      8 * t.processedBytes = bits.length + k ∧
      bytesBits (t.buffer.take t.processedBytes) = bits ++ List.replicate k false := by
  have hposition := h.position_eq
  have hpos := h.left_pos
  have hle := h.left_le
  have hused : 8 - bs.bitsLeft = bits.length % 8 := by omega
  rw [flush]
  split
  next =>
    obtain ⟨t, ht, hwrote, hlength⟩ := h.putBits (Nat.two_pow_pos 16) (8 - bs.bitsLeft)
      (by omega)
    rw [hused, bitsOf_zero] at hwrote
    have hcount := hwrote.processedBytes_eq
    rw [List.length_append, List.length_replicate] at hcount
    refine ⟨t, 8 * t.processedBytes - bits.length, ht, hcount, by omega, ?_⟩
    rw [hwrote.bytesBits_take (by rw [List.length_append, List.length_replicate]; omega)
      (by omega), List.length_append, List.length_replicate, List.append_assoc,
      List.replicate_append_replicate]
    congr 2
    omega
  next hfull =>
    have hcount : bs.processedBytes = bs.bytePos := if_neg (by omega)
    refine ⟨bs, 0, rfl, by omega, by omega, ?_⟩
    rw [h.bytesBits_take (by omega) (by omega), hcount]
    congr 2
    omega

end RfxBitstream
