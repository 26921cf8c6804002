/-
# Fields of fixed widths

A packet of little-endian fields, each of its own number of bytes: numbers are written modulo the
range of their field, and read back without a sign.

* `getAll_putAll`: what is read is what was written, modulo the ranges;
* `putAll_getAll`: bytes that fill the fields are written again as they were read.
-/
import XyDeskRemote.ByteBuffer

open LittleEndian List

namespace ByteFields

/-- A number in a field of `width` bytes. -/
def put (width : ℕ) (x : ℤ) : List UInt8 := encode width (x % 256 ^ width).toNat

/-- Fields one behind the other; a field is its width and its number. -/
def putAll (fields : List (ℕ × ℤ)) : List UInt8 := fields.flatMap fun f => put f.1 f.2

/-- The numbers in fields of given widths. -/
def getAll : List ℕ → List UInt8 → List ℕ
  | [], _ => []
  | width :: widths, bytes =>
    decode (bytes.take width) :: getAll widths (bytes.drop width)

theorem length_put (width : ℕ) (x : ℤ) : (put width x).length = width :=
  length_encode _ _

theorem length_putAll (fields : List (ℕ × ℤ)) :
    (putAll fields).length = (fields.map Prod.fst).sum := by
  induction fields with
  | nil => rfl
  | cons f fields ih =>
    rw [putAll, flatMap_cons, length_append, length_put, map_cons, sum_cons, ← ih, putAll]

/-- Numbers that are the same in the range of a field. -/
theorem put_congr {width : ℕ} {x y : ℤ} (h : x % 256 ^ width = y % 256 ^ width) :
    put width x = put width y := by
  rw [put, put, h]

theorem decode_put (width : ℕ) (x : ℤ) :
    decode (put width x) = (x % 256 ^ width).toNat := by
  have hpos : (0 : ℤ) < 256 ^ width := Int.pow_pos (by decide)
  have hlt := Int.emod_lt_of_pos x hpos
  have hnonneg := Int.emod_nonneg x hpos.ne'
  rw [put, decode_encode_of_lt]
  rw [← Int.ofNat_lt, Int.toNat_of_nonneg hnonneg]
  exact_mod_cast hlt

/-- **What is read** is what was written. -/
theorem getAll_putAll (fields : List (ℕ × ℤ)) :
    getAll (fields.map Prod.fst) (putAll fields) =
      fields.map fun f => (f.2 % 256 ^ f.1).toNat := by
  induction fields with
  | nil => rfl
  | cons f fields ih =>
    rw [map_cons, getAll, putAll, flatMap_cons, take_left' (length_put _ _),
      drop_left' (length_put _ _), decode_put, ← putAll, ih, map_cons]

/-- **What is written again** is what was read. -/
theorem putAll_getAll {widths : List ℕ} {bytes : List UInt8} (h : bytes.length = widths.sum) :
    putAll (widths.zip ((getAll widths bytes).map fun n : ℕ => (n : ℤ))) = bytes := by
  induction widths generalizing bytes with
  | nil => exact (eq_nil_of_length_eq_zero h).symm
  | cons width widths ih =>
    rw [sum_cons] at h
    have hlength : (bytes.take width).length = width := by
      rw [length_take]
      omega
    have hlt : decode (bytes.take width) < 256 ^ width := by
      have hlt := decode_lt (bytes.take width)
      rwa [hlength] at hlt
    have hmod : ((decode (bytes.take width) : ℤ) % 256 ^ width).toNat =
        decode (bytes.take width) := by
      have hlt' : (decode (bytes.take width) : ℤ) < 256 ^ width := by
        exact_mod_cast hlt
      rw [Int.emod_eq_of_lt (Int.natCast_nonneg _) hlt']
      rfl
    have hfirst : put width (decode (bytes.take width)) =
        bytes.take width := by
      have hencode := encode_decode (bytes.take width)
      rw [hlength] at hencode
      rw [put, hmod, hencode]
    rw [getAll, map_cons, zip_cons_cons, putAll, flatMap_cons, ← putAll, hfirst,
      ih (by rw [length_drop]; omega), take_append_drop]

theorem getAll_lt {widths : List ℕ} {bytes : List UInt8} :
    ∀ f ∈ widths.zip (getAll widths bytes), f.2 < 256 ^ f.1 := by
  induction widths generalizing bytes with
  | nil => exact fun f hf => absurd hf not_mem_nil
  | cons width widths ih =>
    intro f hf
    rw [getAll, zip_cons_cons] at hf
    rcases mem_cons.1 hf with rfl | hf
    · refine Nat.lt_of_lt_of_le (decode_lt _) (Nat.pow_le_pow_right (by decide) ?_)
      rw [length_take]
      exact Nat.min_le_left _ _
    · exact ih f hf

end ByteFields
