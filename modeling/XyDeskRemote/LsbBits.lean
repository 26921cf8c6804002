/-
# Fields of bits, the lowest first

A codec that fills its bytes from the lowest bit up makes one number of all that it writes: every
field goes on top of those before it.  A writer holds the last bits of this number in an
accumulator, and a reader the next ones.
-/
import XyDeskRemote.ByteBuffer

open LittleEndian Nat

namespace LsbBits

/-- The number that fields make up, the first at the bottom; a field is a value and a number of
bits. -/
def pack : List (ℕ × ℕ) → ℕ
  | [] => 0
  | (value, length) :: fields => value + 2 ^ length * pack fields

/-- The number of bits of fields. -/
def size (fields : List (ℕ × ℕ)) : ℕ := (fields.map Prod.snd).sum

@[simp] theorem size_nil : size [] = 0 := rfl

@[simp] theorem size_cons (f : ℕ × ℕ) (fields : List (ℕ × ℕ)) :
    size (f :: fields) = f.2 + size fields := by
  rw [size, List.map_cons, List.sum_cons, ← size]

@[simp] theorem size_append (fields more : List (ℕ × ℕ)) :
    size (fields ++ more) = size fields + size more := by
  rw [size, List.map_append, List.sum_append, ← size, ← size]

theorem pack_append (fields more : List (ℕ × ℕ)) :
    pack (fields ++ more) = pack fields + 2 ^ size fields * pack more := by
  induction fields with
  | nil => simp [pack]
  | cons f fields ih =>
    rw [List.cons_append, pack, ih, pack, size_cons, pow_add, mul_add, ← mul_assoc, add_assoc]

/-- `256` to a power. -/
theorem pow_256 (n : ℕ) : 256 ^ n = 2 ^ (8 * n) :=
  (pow_mul 2 8 n).symm

theorem decode_append (bs cs : List UInt8) :
    decode (bs ++ cs) =
      decode bs + 2 ^ (8 * bs.length) * decode cs := by
  induction bs with
  | nil => simp [decode]
  | cons b bs ih =>
    have hpow : 2 ^ (8 * (bs.length + 1)) = 256 * 2 ^ (8 * bs.length) := by
      rw [mul_succ, pow_add, Nat.mul_comm]
      rfl
    rw [List.cons_append, decode, ih, decode, List.length_cons, hpow, mul_add, mul_assoc, add_assoc]

/-! ## Writing -/

/-- The bytes written and `offset` bits of an accumulator hold the fields. -/
structure Written (bytes : List UInt8) (accumulator offset : ℕ) (fields : List (ℕ × ℕ)) : Prop where
  value : decode bytes + 2 ^ (8 * bytes.length) * accumulator = pack fields
  bits : 8 * bytes.length + offset = size fields
  lt : accumulator < 2 ^ offset

theorem written_start : Written [] 0 0 [] := ⟨rfl, rfl, one_pos⟩

section
variable {bytes : List UInt8} {accumulator offset value length : ℕ} {fields : List (ℕ × ℕ)}

theorem Written.put (h : Written bytes accumulator offset fields) (hvalue : value < 2 ^ length) :
    Written bytes (accumulator ||| (value <<< offset)) (offset + length)
      (fields ++ [(value, length)]) := by
  have hor : accumulator ||| (value <<< offset) = accumulator + 2 ^ offset * value := by
    rw [Nat.or_comm, ← Nat.shiftLeft_add_eq_or_of_lt h.lt, Nat.shiftLeft_eq, Nat.mul_comm, add_comm]
  refine ⟨?_, ?_, ?_⟩
  · rw [hor, pack_append, ← h.value, ← h.bits]
    simp only [pack, pow_add]
    ring
  · rw [size_append, ← h.bits, size_cons, size_nil]
    omega
  · have hlt := h.lt
    rw [hor, pow_add]
    have hle : 2 ^ offset * (value + 1) ≤ 2 ^ offset * 2 ^ length := mul_le_mul_left _ hvalue
    rw [mul_succ] at hle
    omega

theorem Written.emit {k : ℕ} (h : Written bytes accumulator offset fields) (hk : 8 * k ≤ offset) :
    Written (bytes ++ encode k accumulator) (accumulator >>> (8 * k))
      (offset - 8 * k) fields := by
  refine ⟨?_, ?_, ?_⟩
  · have hparts := mod_add_div accumulator (2 ^ (8 * k))
    rw [decode_append, decode_encode, List.length_append,
      length_encode, Nat.shiftRight_eq_div_pow, pow_256, ← h.value, mul_add,
      pow_add]
    nth_rewrite 3 [← hparts]
    ring
  · rw [List.length_append, length_encode, ← h.bits]
    omega
  · rw [Nat.shiftRight_eq_div_pow, Nat.div_lt_iff_lt_mul (Nat.two_pow_pos _), ← pow_add,
      Nat.sub_add_cancel hk]
    exact h.lt

/-- With the whole accumulator written out, the bytes are the number of the fields. -/
theorem Written.finish {k : ℕ} (h : Written bytes accumulator offset fields)
    (hk : offset ≤ 8 * k) :
    decode (bytes ++ encode k accumulator) = pack fields := by
  have hlt : accumulator < 256 ^ k := by
    rw [pow_256]
    exact h.lt.trans_le (Nat.pow_le_pow_right (by decide) hk)
  rw [decode_append, decode_encode_of_lt hlt, h.value]

end

/-! ## Reading -/

/-- The `nbits` bits at hand and the bytes behind them are the fields to come. -/
structure Remaining (bits nbits : ℕ) (src : List UInt8) (fields : List (ℕ × ℕ)) : Prop where
  lt : bits < 2 ^ nbits
  value : bits + 2 ^ nbits * decode src = pack fields
  enough : size fields ≤ nbits + 8 * src.length

section
variable {bits nbits value length : ℕ} {src : List UInt8} {fields : List (ℕ × ℕ)}

theorem Remaining.start (hvalue : decode src = pack fields)
    (henough : size fields ≤ 8 * src.length) : Remaining 0 0 src fields :=
  ⟨one_pos, by rw [hvalue, pow_zero, one_mul, zero_add], by omega⟩

/-- Bits at hand are the lowest ones to come; all of them, when there is nothing behind. -/
theorem Remaining.peek {k : ℕ} (h : Remaining bits nbits src fields) (hk : k ≤ nbits ∨ src = []) :
    bits % 2 ^ k = pack fields % 2 ^ k := by
  obtain hk | rfl := hk
  · have hdvd : 2 ^ k ∣ 2 ^ nbits * decode src :=
      (pow_dvd_pow 2 hk).mul_right _
    rw [← h.value, add_mod, mod_eq_zero_of_dvd hdvd, add_zero, mod_mod]
  · rw [← h.value, decode, mul_zero, add_zero]

theorem Remaining.take (h : Remaining bits nbits src ((value, length) :: fields))
    (hvalue : value < 2 ^ length) (hlength : length ≤ nbits) :
    bits % 2 ^ length = value ∧ Remaining (bits >>> length) (nbits - length) src fields := by
  have hfirst : bits % 2 ^ length = value := by
    rw [h.peek (.inl hlength), pack, add_mul_mod_self_left, mod_eq_of_lt hvalue]
  refine ⟨hfirst, ?_, ?_, ?_⟩
  · rw [Nat.shiftRight_eq_div_pow, Nat.div_lt_iff_lt_mul (Nat.two_pow_pos _), ← pow_add,
      Nat.sub_add_cancel hlength]
    exact h.lt
  · have hparts := mod_add_div bits (2 ^ length)
    have htotal := h.value
    have hpow : 2 ^ nbits = 2 ^ length * 2 ^ (nbits - length) := by
      rw [← pow_add, Nat.add_sub_cancel' hlength]
    rw [pack, ← hparts, hfirst, hpow, mul_assoc, add_assoc, ← mul_add] at htotal
    rw [Nat.shiftRight_eq_div_pow]
    exact Nat.eq_of_mul_eq_mul_left (Nat.two_pow_pos _) (Nat.add_left_cancel htotal)
  · have henough := h.enough
    rw [size_cons] at henough
    dsimp only at henough
    omega

/-- More bytes are put on top of the bits at hand. -/
theorem Remaining.fill {k : ℕ} (h : Remaining bits nbits src fields) (hk : k ≤ src.length) :
    Remaining (bits + (decode (src.take k)) <<< nbits) (nbits + 8 * k) (src.drop k)
      fields := by
  have hlength : (src.take k).length = k := by rw [List.length_take, min_eq_left hk]
  refine ⟨?_, ?_, ?_⟩
  · have hlt := decode_lt (src.take k)
    rw [hlength, pow_256] at hlt
    have hle := mul_le_mul_right (2 ^ nbits) (succ_le_of_lt hlt)
    have hbits := h.lt
    rw [succ_mul, ← pow_add] at hle
    rw [Nat.shiftLeft_eq, add_comm nbits]
    omega
  · have hparts := decode_append (src.take k) (src.drop k)
    rw [List.take_append_drop, hlength] at hparts
    rw [← h.value, hparts, Nat.shiftLeft_eq, pow_add]
    ring
  · have henough := h.enough
    rw [List.length_drop]
    omega

end

end LsbBits
