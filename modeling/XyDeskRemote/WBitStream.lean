/-
# wBitStream

`bitstream.h`, as it is read: the next 32 bits are in `accumulator`, the 32 behind them in
`prefetch`, and `BitStream_Shift` moves both on.

`Reads` says which bits are still to come; `Reads.shift` and `Reads.value` are what a decoder
needs.  The length is a number of bits in 32 bits: of a buffer with more of them the stream has
only a part.
-/
import XyDeskRemote.MsbBits
import Mathlib.Data.Nat.Size

open MsbBits Bool Nat

/-- `wBitStream`, without the field `mask`, which is for scratch; the capacity is the length of
the buffer, and the pointer counts from its start. -/
structure WBitStream where
  buffer : List UInt8
  pointer : ℕ := 0
  position : ℕ := 0
  length : ℕ
  offset : ℕ := 0
  prefetch : BitVec 32 := 0
  accumulator : BitVec 32 := 0

namespace WBitStream

/-- A byte of the buffer, or zero behind its end. -/
def byteAt (bs : WBitStream) (i : ℕ) : BitVec 32 :=
  ((bs.buffer.getD (bs.pointer + i) 0).toBitVec).setWidth 32

/-- Four bytes from `pointer[i]` on. -/
def wordAt (bs : WBitStream) (i : ℕ) : BitVec 32 :=
  bs.byteAt i <<< 24 ||| bs.byteAt (i + 1) <<< 16 ||| bs.byteAt (i + 2) <<< 8 ||| bs.byteAt (i + 3)

/-- `BitStream_Attach`. -/
def attach (buffer : List UInt8) : WBitStream where
  buffer
  length := buffer.length * 8 % 2 ^ 32

/-- `BitStream_Prefetch`. -/
def fetchNext (bs : WBitStream) : WBitStream := { bs with prefetch := bs.wordAt 4 }

/-- `BitStream_Fetch`. -/
def fetch (bs : WBitStream) : WBitStream :=
  { bs with accumulator := bs.wordAt 0 }.fetchNext

/-- The lowest `n` bits of a word. -/
def mask (n : ℕ) : BitVec 32 := BitVec.ofNat 32 (2 ^ n - 1)

/-- `BitStream_Shift`. -/
def shift (bs : WBitStream) (nbits : ℕ) : WBitStream :=
  if nbits = 0 ∨ 32 ≤ nbits then bs
  else
    let offset := bs.offset + nbits
    let bs := { bs with
      accumulator := bs.accumulator <<< nbits ||| (bs.prefetch >>> (32 - nbits) &&& mask nbits)
      position := (bs.position + nbits) % 2 ^ 32
      prefetch := bs.prefetch <<< nbits
      offset }
    if offset < 32 then bs
    else
      let offset := offset - 32
      let bs := { bs with offset, pointer := bs.pointer + 4 }.fetchNext
      if offset = 0 then bs
      else
        { bs with
          accumulator := bs.accumulator ||| (bs.prefetch >>> (32 - offset) &&& mask offset)
          prefetch := bs.prefetch <<< offset }

/-- `BitStream_Shift32`. -/
def shift32 (bs : WBitStream) : WBitStream := (bs.shift 16).shift 16

/-- `BitStream_GetRemainingLength`. -/
def getRemainingLength (bs : WBitStream) : ℕ := (bs.length + 2 ^ 32 - bs.position) % 2 ^ 32

/-- The next `nbits` bits, as they are read everywhere. -/
def peek (bs : WBitStream) (nbits : ℕ) : ℕ :=
  (bs.accumulator >>> (32 - nbits) &&& mask nbits).toNat

/-! ## Words -/

theorem getLsbD_mask {n : ℕ} (hn : n ≤ 32) (i : ℕ) : (mask n).getLsbD i = decide (i < n) := by
  rw [mask, BitVec.getLsbD_ofNat, testBit_two_pow_sub_one]
  by_cases hi : i < n
  · rw [decide_eq_true hi, decide_eq_true (hi.trans_le hn), Bool.true_and]
  · rw [decide_eq_false hi, Bool.and_false]

theorem getLsbD_byteAt (bs : WBitStream) (i j : ℕ) :
    (bs.byteAt i).getLsbD j =
      (decide (j < 8) && (bs.buffer.getD (bs.pointer + i) 0).toNat.testBit j) := by
  have hbyte : ∀ b : UInt8, (b.toBitVec.setWidth 32).getLsbD j =
      (decide (j < 8) && b.toNat.testBit j) := by
    intro b
    rw [BitVec.getLsbD_setWidth]
    by_cases hj : j < 8
    · rw [decide_eq_true hj, decide_eq_true (by omega)]
      rfl
    · rw [decide_eq_false hj, BitVec.getLsbD_of_ge _ _ (by omega), Bool.and_false, Bool.false_and]
  exact hbyte _

theorem getLsbD_byteAt_shiftLeft (bs : WBitStream) (i m : ℕ) {j : ℕ} (hj : j < 32)
    (hm : m < 4) : (bs.byteAt i <<< (24 - 8 * m)).getLsbD (31 - j) =
      (decide (j / 8 = m) && (bs.buffer.getD (bs.pointer + i) 0).toNat.testBit (7 - j % 8)) := by
  rw [BitVec.getLsbD_shiftLeft, getLsbD_byteAt, decide_eq_true (by omega : 31 - j < 32),
    Bool.true_and]
  by_cases hplace : j / 8 = m
  · have hbit : 31 - j - (24 - 8 * m) = 7 - j % 8 := by omega
    rw [hbit, decide_eq_true hplace, decide_eq_false (by omega : ¬ 31 - j < 24 - 8 * m),
      decide_eq_true (by omega : 7 - j % 8 < 8)]
    rfl
  · rw [decide_eq_false hplace, Bool.false_and]
    by_cases hlow : 31 - j < 24 - 8 * m
    · rw [decide_eq_true hlow]
      rfl
    · rw [decide_eq_false (by omega : ¬ 31 - j - (24 - 8 * m) < 8), Bool.false_and, Bool.and_false]

theorem getLsbD_wordAt (bs : WBitStream) (i : ℕ) {j : ℕ} (hj : j < 32) :
    (bs.wordAt i).getLsbD (31 - j) =
      (bytesBits bs.buffer).getD (8 * (bs.pointer + i) + j) false := by
  have hmod : (8 * (bs.pointer + i) + j) % 8 = j % 8 := mul_add_mod _ _ _
  have hdiv : (8 * (bs.pointer + i) + j) / 8 = bs.pointer + (i + j / 8) := by omega
  have hlast : bs.byteAt (i + 3) = bs.byteAt (i + 3) <<< (24 - 8 * 3) :=
    (BitVec.shiftLeft_zero _).symm
  rw [getD_bytesBits, hmod, hdiv, wordAt, hlast]
  simp only [BitVec.getLsbD_or]
  rw [getLsbD_byteAt_shiftLeft bs i 0 hj (by decide),
    getLsbD_byteAt_shiftLeft bs (i + 1) 1 hj (by decide),
    getLsbD_byteAt_shiftLeft bs (i + 2) 2 hj (by decide),
    getLsbD_byteAt_shiftLeft bs (i + 3) 3 hj (by decide)]
  have hplace : j / 8 < 4 := by omega
  generalize j / 8 = m at hplace ⊢
  obtain rfl | rfl | rfl | rfl : m = 0 ∨ m = 1 ∨ m = 2 ∨ m = 3 := by omega
  all_goals simp

/-! ## Reading -/

/-- The bits still to come, as far as the stream's length goes.  The words may have bits of
the buffer that are behind it. -/
structure Reads (bs : WBitStream) (rest : List Bool) : Prop where
  length_lt : bs.length < 2 ^ 32
  position_add : bs.position + rest.length = bs.length
  offset_lt : bs.offset < 32
  position_eq : bs.position = 8 * bs.pointer + bs.offset
  rest_prefix : rest <+: (bytesBits bs.buffer).drop bs.position
  accumulator_eq : ∀ i < 32, bs.accumulator.getLsbD (31 - i) =
    (bytesBits bs.buffer).getD (bs.position + i) false
  prefetch_eq : ∀ i < 32, bs.prefetch.getLsbD (31 - i) =
    (decide (i + bs.offset < 32) && (bytesBits bs.buffer).getD (bs.position + 32 + i) false)

variable {bs : WBitStream} {rest : List Bool}

theorem Reads.getRemainingLength_eq (h : Reads bs rest) :
    bs.getRemainingLength = rest.length := by
  have hlt := h.length_lt
  have hadd := h.position_add
  rw [getRemainingLength]
  omega

theorem Reads.getD_rest (h : Reads bs rest) {i : ℕ} (hi : i < rest.length) :
    rest.getD i false = (bytesBits bs.buffer).getD (bs.position + i) false := by
  obtain ⟨behind, hbehind⟩ := h.rest_prefix
  rw [← getD_drop, ← hbehind, getD_append, if_pos hi]

/-- The next bits are in the accumulator. -/
theorem Reads.getLsbD_accumulator (h : Reads bs rest) {i : ℕ} (hi : i < 32)
    (hlt : i < rest.length) : bs.accumulator.getLsbD (31 - i) = rest.getD i false :=
  (h.accumulator_eq i hi).trans (h.getD_rest hlt).symm

theorem reads_attach (buffer : List UInt8) :
    Reads (attach buffer).fetch ((bytesBits buffer).take (8 * buffer.length % 2 ^ 32)) := by
  have hmod : 8 * buffer.length % 2 ^ 32 ≤ (bytesBits buffer).length := by
    rw [length_bytesBits]
    exact mod_le _ _
  refine ⟨Nat.mod_lt _ (Nat.two_pow_pos 32), ?_, Nat.two_pow_pos 5, rfl, List.take_prefix _ _,
    fun i hi => ?_, fun i hi => ?_⟩
  · rw [List.length_take, min_eq_left hmod, mul_comm 8]
    exact zero_add _
  · exact getLsbD_wordAt _ 0 hi
  · refine (getLsbD_wordAt _ 4 hi).trans ?_
    have hoffset : decide (i + (attach buffer).fetch.offset < 32) = true := decide_eq_true hi
    rw [hoffset, Bool.true_and]
    rfl

/-- The bits that a shift brings into a word from the next. -/
theorem getLsbD_ushiftRight_mask (word : BitVec 32) {n : ℕ} (hn : n ≤ 32) {i : ℕ}
    (hi : i < 32) : (word >>> (32 - n) &&& mask n).getLsbD (31 - i) =
      (decide (32 - n ≤ i) && word.getLsbD (31 - (i - (32 - n)))) := by
  rw [BitVec.getLsbD_and, getLsbD_mask hn, BitVec.getLsbD_ushiftRight]
  by_cases hlow : 32 - n ≤ i
  · rw [decide_eq_true hlow, decide_eq_true (by omega : 31 - i < n), Bool.and_true, Bool.true_and]
    congr 1
    omega
  · rw [decide_eq_false hlow, decide_eq_false (by omega : ¬ 31 - i < n), Bool.and_false,
      Bool.false_and]

theorem getLsbD_shiftLeft_top (word : BitVec 32) (n : ℕ) {i : ℕ} (hi : i < 32) :
    (word <<< n).getLsbD (31 - i) = (decide (i + n < 32) && word.getLsbD (31 - (i + n))) := by
  rw [BitVec.getLsbD_shiftLeft, decide_eq_true (by omega : 31 - i < 32), Bool.true_and]
  by_cases htop : i + n < 32
  · rw [decide_eq_true htop, decide_eq_false (by omega : ¬ 31 - i < n), Bool.true_and]
    show (true && _) = _
    rw [Bool.true_and]
    congr 1
    omega
  · rw [decide_eq_false htop, Bool.false_and]
    rcases lt_or_ge (31 - i) n with hlow | hhigh
    · rw [decide_eq_true hlow]
      rfl
    · exfalso
      omega

theorem getLsbD_fetchNext (bs : WBitStream) {i : ℕ} (hi : i < 32) :
    bs.fetchNext.prefetch.getLsbD (31 - i) =
      (bytesBits bs.buffer).getD (8 * bs.pointer + 32 + i) false := by
  refine (getLsbD_wordAt bs 4 hi).trans ?_
  rw [mul_add]

theorem position_fetchNext (bs : WBitStream) : bs.fetchNext.position = bs.position := rfl

/-- The bits that are left over after a word is fetched; there may be none. -/
theorem leftOver_eq (bs : WBitStream) (k : ℕ) :
    (if k = 0 then bs
      else { bs with
        accumulator := bs.accumulator ||| (bs.prefetch >>> (32 - k) &&& mask k)
        prefetch := bs.prefetch <<< k }) =
      { bs with
        accumulator := bs.accumulator ||| (bs.prefetch >>> (32 - k) &&& mask k)
        prefetch := bs.prefetch <<< k } := by
  split
  next hk =>
    have hmask : mask 0 = 0#32 := rfl
    rw [hk, hmask, BitVec.and_zero, BitVec.or_zero, BitVec.shiftLeft_zero]
  next => rfl

theorem Reads.getLsbD_shifted (h : Reads bs rest) {n : ℕ} (hn : n < 32) {i : ℕ} (hi : i < 32) :
    (bs.accumulator <<< n ||| (bs.prefetch >>> (32 - n) &&& mask n)).getLsbD (31 - i) =
      (decide (i + n + bs.offset < 64) &&
        (bytesBits bs.buffer).getD (bs.position + (i + n)) false) := by
  have hoffset := h.offset_lt
  rw [BitVec.getLsbD_or, getLsbD_shiftLeft_top _ _ hi, getLsbD_ushiftRight_mask _ hn.le hi]
  by_cases hsame : i + n < 32
  · rw [decide_eq_true hsame, decide_eq_false (by omega : ¬ 32 - n ≤ i), h.accumulator_eq _ hsame,
      decide_eq_true (by omega : i + n + bs.offset < 64), Bool.false_and, Bool.or_false]
  · rw [decide_eq_false hsame, decide_eq_true (by omega : 32 - n ≤ i),
      h.prefetch_eq _ (by omega : i - (32 - n) < 32), Bool.false_and, Bool.false_or, Bool.true_and]
    have hindex : bs.position + 32 + (i - (32 - n)) = bs.position + (i + n) := by omega
    rw [hindex]
    congr 1
    exact decide_eq_decide.2 (by omega)

/-- **The bits are consumed.** -/
theorem Reads.shift (h : Reads bs rest) {n : ℕ} (hn : n < 32) (hle : n ≤ rest.length) :
    Reads (bs.shift n) (rest.drop n) := by
  have hlt := h.length_lt
  have hadd := h.position_add
  have hoffset := h.offset_lt
  have hposition := h.position_eq
  rcases Nat.eq_zero_or_pos n with rfl | hpos
  · rw [WBitStream.shift, if_pos (Or.inl rfl), List.drop_zero]
    exact h
  have hmod : (bs.position + n) % 2 ^ 32 = bs.position + n := Nat.mod_eq_of_lt (by omega)
  have hrest : rest.drop n <+: (bytesBits bs.buffer).drop (bs.position + n) := by
    obtain ⟨behind, hbehind⟩ := h.rest_prefix
    refine ⟨behind, ?_⟩
    rw [← List.drop_drop, ← hbehind, List.drop_append_of_le_length hle]
  have hlength : bs.position + n + (rest.drop n).length = bs.length := by
    rw [List.length_drop]
    omega
  rw [WBitStream.shift, if_neg (by omega)]
  dsimp only
  split
  next hsame =>
    refine ⟨hlt, hmod.symm ▸ hlength, hsame, ?_, hmod.symm ▸ hrest, fun i hi => ?_, fun i hi => ?_⟩
    · dsimp only
      omega
    · rw [h.getLsbD_shifted hn hi, decide_eq_true (by omega : i + n + bs.offset < 64),
        Bool.true_and]
      dsimp only
      rw [hmod]
      congr 1
      omega
    · rw [getLsbD_shiftLeft_top _ _ hi]
      dsimp only
      rw [hmod]
      by_cases htop : i + n < 32
      · rw [decide_eq_true htop, Bool.true_and, h.prefetch_eq _ htop]
        congr 1
        · exact decide_eq_decide.2 (by omega)
        · congr 1
          omega
      · rw [decide_eq_false htop, decide_eq_false (by omega : ¬ i + (bs.offset + n) < 32),
          Bool.false_and, Bool.false_and]
  next hnext =>
    have hpointer : bs.position + n = 8 * (bs.pointer + 4) + (bs.offset + n - 32) := by omega
    have hlow : bs.offset + n - 32 < 32 := by omega
    rw [leftOver_eq]
    have hfetched : ∀ i < 32, (WBitStream.fetchNext { bs with
        accumulator := bs.accumulator <<< n ||| (bs.prefetch >>> (32 - n) &&& mask n)
        position := (bs.position + n) % 2 ^ 32
        prefetch := bs.prefetch <<< n
        offset := bs.offset + n - 32
        pointer := bs.pointer + 4 }).prefetch.getLsbD (31 - i) =
        (bytesBits bs.buffer).getD (bs.position + (64 - bs.offset + i)) false := by
      intro i hi
      rw [getLsbD_fetchNext _ hi]
      dsimp only
      congr 1
      omega
    refine ⟨hlt, hmod.symm ▸ hlength, hlow, hmod.trans hpointer, hmod.symm ▸ hrest,
      fun i hi => ?_, fun i hi => ?_⟩
    · dsimp only
      rw [BitVec.getLsbD_or, getLsbD_ushiftRight_mask _ hlow.le hi]
      refine (congrArg (· || _) (h.getLsbD_shifted hn hi)).trans ?_
      by_cases hold : i + n + bs.offset < 64
      · rw [decide_eq_true hold, Bool.true_and,
          decide_eq_false (by omega : ¬ 32 - (bs.offset + n - 32) ≤ i), Bool.false_and,
          Bool.or_false, hmod]
        congr 1
        rw [position_fetchNext]
        dsimp only
        omega
      · rw [decide_eq_false hold, Bool.false_and, Bool.false_or,
          decide_eq_true (by omega : 32 - (bs.offset + n - 32) ≤ i), Bool.true_and,
          hfetched _ (by omega), hmod]
        congr 1
        rw [position_fetchNext]
        dsimp only
        omega
    · refine (getLsbD_shiftLeft_top _ _ hi).trans ?_
      show _ = (decide (i + (bs.offset + n - 32) < 32) &&
        (bytesBits bs.buffer).getD ((bs.position + n) % 2 ^ 32 + 32 + i) false)
      by_cases htop : i + (bs.offset + n - 32) < 32
      · rw [decide_eq_true htop, Bool.true_and, Bool.true_and, hfetched _ htop, hmod]
        congr 1
        omega
      · rw [decide_eq_false htop, Bool.false_and, Bool.false_and]

/-! ## What a decoder reads -/

theorem peek_eq (bs : WBitStream) {n : ℕ} (hn : n ≤ 32) :
    bs.peek n = bs.accumulator.toNat / 2 ^ (32 - n) := by
  have hmask : (mask n).toNat = 2 ^ n - 1 := by
    rw [mask, BitVec.toNat_ofNat]
    refine Nat.mod_eq_of_lt ?_
    have hle := Nat.pow_le_pow_right Nat.two_pos hn
    have hpos := Nat.two_pow_pos n
    omega
  rw [peek, BitVec.toNat_and, BitVec.toNat_ushiftRight, hmask, and_two_pow_sub_one_eq_mod,
    shiftRight_eq_div_pow]
  refine Nat.mod_eq_of_lt (Nat.div_lt_of_lt_mul ?_)
  rw [← pow_add, Nat.sub_add_cancel hn]
  exact bs.accumulator.isLt

/-- **The next bits as a number.** -/
theorem Reads.value (h : Reads bs rest) {n : ℕ} (hn : n ≤ 32) (hle : n ≤ rest.length) :
    bs.peek n = valueOf (rest.take n) := by
  rw [peek_eq bs hn]
  induction n with
  | zero => exact div_eq_of_lt bs.accumulator.isLt
  | succ n ih =>
    have hindex : 32 - n = 32 - (n + 1) + 1 := by omega
    have hhalf : bs.accumulator.toNat / 2 ^ (32 - n) =
        bs.accumulator.toNat / 2 ^ (32 - (n + 1)) / 2 := by
      rw [hindex, pow_succ, Nat.div_div_eq_div_mul]
    have hbit : (rest.getD n false).toNat = bs.accumulator.toNat / 2 ^ (32 - (n + 1)) % 2 := by
      have hlast : 32 - (n + 1) = 31 - n := by omega
      rw [← h.getLsbD_accumulator (lt_of_succ_le hn) (lt_of_succ_le hle), ← toNat_testBit, hlast]
      rfl
    rw [valueOf_take_succ (lt_of_succ_le hle), ← ih (le_of_succ_le hn)
      (le_of_succ_le hle), hbit, hhalf]
    omega

theorem Reads.shift32 (h : Reads bs rest) (hle : 32 ≤ rest.length) :
    Reads bs.shift32 (rest.drop 32) := by
  have hfirst : Reads (bs.shift 16) (rest.drop 16) := h.shift (by decide) (by omega)
  have hsecond := hfirst.shift (n := 16) (by decide) (by rw [List.length_drop]; omega)
  rwa [List.drop_drop] at hsecond

/-! ## Codes

A way to read a code knows the end of it: it is stuck on every beginning of the code that is not
the whole of it, and takes the whole of it off a stream that goes on with anything.
-/

/-- A way to read that takes a code to `done`. -/
structure Takes {ρ : Type} (f : WBitStream → ρ) (code : List Bool) (done : WBitStream → ρ)
    (stuck : ρ) : Prop where
  whole : ∀ {bs more}, Reads bs (code ++ more) → ∃ bs', f bs = done bs' ∧ Reads bs' more
  short : ∀ {bs rest}, Reads bs rest → rest <+: code → rest ≠ code → f bs = stuck

variable {ρ σ : Type} {done : WBitStream → ρ} {stuck : ρ}

theorem takes_nil : Takes done [] done stuck :=
  ⟨fun {bs _} h => ⟨bs, rfl, h⟩, fun _ hprefix hne => absurd (List.prefix_nil.1 hprefix) hne⟩

/-- **One code after the other.** -/
theorem Takes.andThen {f : WBitStream → ρ} {code code' : List Bool} {g : ρ → σ}
    {h done' : WBitStream → σ} {stuck' : σ} (hf : Takes f code done stuck)
    (hh : Takes h code' done' stuck') (hdone : ∀ bs, g (done bs) = h bs)
    (hstuck : g stuck = stuck') :
    Takes (fun bs => g (f bs)) (code ++ code') done' stuck' := by
  refine ⟨fun {bs more} hreads => ?_, fun {bs rest} hreads hprefix hne => ?_⟩
  · rw [List.append_assoc] at hreads
    obtain ⟨bs', hbs', hmore⟩ := hf.whole hreads
    obtain ⟨bs'', hbs'', hmore'⟩ := hh.whole hmore
    exact ⟨bs'', ((congrArg g hbs').trans (hdone bs')).trans hbs'', hmore'⟩
  · rcases lt_or_ge rest.length code.length with hlt | hge
    · have hshort : rest <+: code :=
        List.prefix_of_prefix_length_le hprefix (List.prefix_append _ _) hlt.le
      have hf' := hf.short hreads hshort fun heq => hlt.ne (congrArg List.length heq)
      exact (congrArg g hf').trans hstuck
    · obtain ⟨rest', rfl⟩ :=
        List.prefix_of_prefix_length_le (List.prefix_append code code') hprefix hge
      obtain ⟨bs', hbs', hmore⟩ := hf.whole hreads
      have hh' := hh.short hmore ((List.prefix_append_right_inj code).1 hprefix)
        fun heq => hne (by rw [heq])
      exact ((congrArg g hbs').trans (hdone bs')).trans hh'

variable {α β : Type} {read : WBitStream → Option (WBitStream × α)} {code code' : List Bool} {a : α}

/-- Codes that are read to values. -/
theorem Takes.bind {g : WBitStream × α → Option β} {done' : WBitStream → Option β}
    (hread : Takes read code (fun bs => some (bs, a)) none)
    (hnext : Takes (fun bs => g (bs, a)) code' done' none) :
    Takes (fun bs => (read bs).bind g) (code ++ code') done' none :=
  hread.andThen (g := fun x => x.bind g) hnext (fun _ => Option.bind_some _ _) rfl

end WBitStream
