import Mathlib.Data.List.Basic
import Mathlib.Tactic.Ring
/-
# Byte buffers

What wire formats and buffers need, over lists of bytes:

* `LittleEndian.encode` / `LittleEndian.decode`: fixed-width little-endian numbers
  and their round trip (`decode_encode`), also for signed 16-bit ones;
* `ByteBuffer.arraycopy`: a bounds-checked copy into a buffer of fixed size;
* `ByteBuffer.cut`: a list cut into windows of `k` elements, the last one shorter,
  which flatten to the list (`flatten_cut`).
-/

open List Nat

/-! ## Little-endian numbers -/

namespace LittleEndian

/-- The low `width` bytes of `n`, least significant first. -/
def encode : Nat → Nat → List UInt8
  | 0, _ => []
  | width + 1, n => UInt8.ofNat n :: encode width (n / 256)

/-- The number whose bytes are given, least significant first. -/
def decode : List UInt8 → Nat
  | [] => 0
  | b :: bs => b.toNat + 256 * decode bs

@[simp] theorem length_encode (width n : Nat) : (encode width n).length = width := by
  induction width generalizing n with
  | zero => rfl
  | succ width ih => rw [encode, length_cons, ih]

theorem decode_lt (bs : List UInt8) : decode bs < 256 ^ bs.length := by
  induction bs with
  | nil => exact one_pos
  | cons b bs ih =>
    have hb : b.toNat < 256 := b.toNat_lt
    rw [decode, length_cons, pow_succ']
    omega

/-- Reading back what was written, up to the bytes that did not fit. -/
theorem decode_encode (width n : Nat) : decode (encode width n) = n % 256 ^ width := by
  induction width generalizing n with
  | zero => rw [encode, decode, pow_zero, mod_one]
  | succ width ih =>
    have hbyte : (UInt8.ofNat n).toNat = n % 256 := UInt8.toNat_ofNat'
    rw [encode, decode, ih, hbyte, pow_succ', mod_mul]

/-- Reading back a number that fits. -/
theorem decode_encode_of_lt {width n : Nat} (h : n < 256 ^ width) :
    decode (encode width n) = n := by
  rw [decode_encode, mod_eq_of_lt h]

/-- Writing back what was read. -/
theorem encode_decode (bs : List UInt8) : encode bs.length (decode bs) = bs := by
  induction bs with
  | nil => rfl
  | cons b bs ih =>
    have hb : b.toNat < 256 := b.toNat_lt
    have hlow : UInt8.ofNat (b.toNat + 256 * decode bs) = b := by
      refine UInt8.toNat_inj.1 ?_
      rw [UInt8.toNat_ofNat']
      omega
    have hhigh : (b.toNat + 256 * decode bs) / 256 = decode bs := by omega
    rw [length_cons, decode, encode, hlow, hhigh, ih]

/-- The two bytes of a signed 16-bit number. -/
def encodeInt16 (x : Int16) : List UInt8 := encode 2 x.toUInt16.toNat

/-- The signed 16-bit number at `offset` (bytes past the end read as zero). -/
def int16At (buf : List UInt8) (offset : Nat) : Int16 :=
  (UInt16.ofNat (decode [buf.getD offset 0, buf.getD (offset + 1) 0])).toInt16

/-- Reading back a signed number whose two bytes are there, the low one first. -/
theorem int16At_of_bytes {buf : List UInt8} {offset : Nat} {x : Int16}
    (hlo : buf.getD offset 0 = UInt8.ofNat x.toUInt16.toNat)
    (hhi : buf.getD (offset + 1) 0 = UInt8.ofNat (x.toUInt16.toNat / 256)) :
    int16At buf offset = x := by
  have hlt : x.toUInt16.toNat < 256 ^ 2 := UInt16.toNat_lt _
  have hdecode := decode_encode_of_lt hlt
  rw [int16At, hlo, hhi]
  show (UInt16.ofNat (decode (encode 2 x.toUInt16.toNat))).toInt16 = x
  rw [hdecode, UInt16.ofNat_toNat, Int16.toInt16_toUInt16]

end LittleEndian

/-! ## Copies into a buffer of fixed size -/

namespace ByteBuffer

variable {α : Type*}

/-- Copy `len` elements of `src` from `srcPos` on over those of `dst` from `dstPos`
on; `none` (an exception) when either range is out of bounds. -/
def arraycopy (src : List α) (srcPos : Nat) (dst : List α) (dstPos len : Nat) :
    Option (List α) :=
  if srcPos + len ≤ src.length ∧ dstPos + len ≤ dst.length then
    some (dst.take dstPos ++ (src.drop srcPos).take len ++ dst.drop (dstPos + len))
  else none

/-- A copy in bounds, with what it does to the buffer. -/
theorem arraycopy_eq_some {src dst : List α} {srcPos dstPos len : Nat}
    (hsrc : srcPos + len ≤ src.length) (hdst : dstPos + len ≤ dst.length) :
    arraycopy src srcPos dst dstPos len =
      some (dst.take dstPos ++ (src.drop srcPos).take len ++ dst.drop (dstPos + len)) :=
  if_pos ⟨hsrc, hdst⟩

/-- A copy to the front of a buffer: the buffer then starts with the source. -/
theorem arraycopy_front {src dst : List α} (h : src.length ≤ dst.length) :
    arraycopy src 0 dst 0 src.length = some (src ++ dst.drop src.length) := by
  rw [arraycopy_eq_some (by omega) (by omega), take_zero, nil_append, drop_zero,
    take_length, zero_add]

/-- `src` written over the elements of `dst` from `pos` on. -/
def overwrite (dst : List α) (pos : Nat) (src : List α) : List α :=
  dst.take pos ++ src ++ dst.drop (pos + src.length)

theorem length_overwrite {dst src : List α} {pos : Nat} (h : pos + src.length ≤ dst.length) :
    (overwrite dst pos src).length = dst.length := by
  rw [overwrite, length_append, length_append, length_take, length_drop]
  omega

/-- What is written behind `front`, over as many elements. -/
theorem overwrite_append {front mid rest src : List α} (h : src.length = mid.length) :
    overwrite (front ++ (mid ++ rest)) front.length src = front ++ (src ++ rest) := by
  rw [overwrite, take_left, h, ← drop_drop, drop_left, drop_left, append_assoc]

/-! ## Windows of a list -/

/-- The windows of `k` elements of `l`, in order, the last one possibly shorter. -/
def cut (k : Nat) (l : List α) : List (List α) :=
  (range ((l.length + k - 1) / k)).map fun c => (l.drop (c * k)).take k

/-- The first `n` windows are the first `n * k` elements. -/
theorem flatten_windows (k : Nat) (l : List α) (n : Nat) :
    ((range n).map fun c => (l.drop (c * k)).take k).flatten = l.take (n * k) := by
  induction n with
  | zero => rw [range_zero, map_nil, flatten_nil, zero_mul, take_zero]
  | succ n ih =>
    rw [range_succ, map_append, flatten_append, ih, map_singleton,
      flatten_singleton, succ_mul, take_add]

/-- **The windows of a list flatten to it.** -/
theorem flatten_cut {k : Nat} (hk : 0 < k) (l : List α) : (cut k l).flatten = l := by
  have hceil : l.length ≤ (l.length + k - 1) / k * k := by
    have hdiv := div_add_mod (l.length + k - 1) k
    have hmod := mod_lt (l.length + k - 1) hk
    rw [mul_comm] at hdiv
    omega
  rw [cut, flatten_windows, take_of_length_le hceil]

theorem cut_nil {k : Nat} (hk : 0 < k) : cut k ([] : List α) = [] := by
  have hcount : (0 + k - 1) / k = 0 := Nat.div_eq_of_lt (by omega)
  rw [cut, length_nil, hcount, range_zero, map_nil]

/-- The first window, and those of the rest. -/
theorem cut_of_ne_nil {k : Nat} (hk : 0 < k) {l : List α} (hl : l ≠ []) :
    cut k l = l.take k :: cut k (l.drop k) := by
  have hpos := length_pos_of_ne_nil hl
  have hcount : (l.length + k - 1) / k = ((l.drop k).length + k - 1) / k + 1 := by
    rw [length_drop]
    rcases le_total l.length k with hle | hge
    · rw [Nat.sub_eq_zero_of_le hle, Nat.div_eq_of_lt (show 0 + k - 1 < k by omega)]
      exact Nat.div_eq_of_lt_le (by omega) (by omega)
    · rw [show l.length + k - 1 = (l.length - k + k - 1) + k by omega, add_div_right _ hk]
  rw [cut, hcount, range_succ_eq_map, map_cons, map_map, zero_mul, drop_zero, cut]
  congr 1
  refine map_congr_left fun c _ => ?_
  show (l.drop ((c + 1) * k)).take k = ((l.drop k).drop (c * k)).take k
  rw [drop_drop, succ_mul, add_comm]

@[simp] theorem length_cut (k : Nat) (l : List α) :
    (cut k l).length = (l.length + k - 1) / k := by
  rw [cut, length_map, length_range]

/-- The `c`-th window. -/
theorem getElem?_cut {k : Nat} {l : List α} {c : Nat} (hc : c < (l.length + k - 1) / k) :
    (cut k l)[c]? = some ((l.drop (c * k)).take k) := by
  rw [cut, getElem?_map, getElem?_range hc, Option.map_some]

/-- A window that is counted is not empty. -/
theorem window_length_pos {k : Nat} {l : List α} {c : Nat}
    (hc : c < (l.length + k - 1) / k) : 0 < ((l.drop (c * k)).take k).length := by
  have hk : 0 < k := by
    rcases Nat.eq_zero_or_pos k with hk | hk
    · rw [hk, Nat.div_zero] at hc
      omega
    · exact hk
  have hstart : (c + 1) * k ≤ l.length + k - 1 := (le_div_iff_mul_le hk).1 hc
  rw [succ_mul] at hstart
  rw [length_take, length_drop]
  omega

end ByteBuffer
