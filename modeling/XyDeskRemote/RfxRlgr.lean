/-
# RLGR

`rfx_rlgr.c`.  Coefficients are coded in two modes: runs of zeros, each with the coefficient that
ends it, or single coefficients (pairs of them in RLGR3) as Golomb-Rice codes.  Both sides adapt
two parameters, `kp` and `krp`; `k` and `kr` are `kp >> LSGR` and `krp >> LSGR` throughout.
-/
import XyDeskRemote.RfxBitstream
import XyDeskRemote.WBitStream

open MsbBits Nat

/-- The two modes. -/
inductive RlgrMode where
  | rlgr1
  | rlgr3
  deriving DecidableEq

namespace RfxRlgr

/-- `KPMAX`. -/
def kpmax : ℕ := 80

/-- `LSGR`. -/
def lsgr : ℕ := 3

/-- `UP_GR`. -/
def upGr : ℕ := 4

/-- `DN_GR`. -/
def dnGr : ℕ := 6

/-- `UQ_GR`. -/
def uqGr : ℕ := 3

/-- `DQ_GR`. -/
def dqGr : ℕ := 3

/-- `UpdateParam`. -/
def updateParam (param : ℕ) (deltaP : ℤ) : ℕ :=
  min kpmax (if deltaP < 0 then param - deltaP.natAbs else param + deltaP.natAbs)

/-! ## Encoding -/

/-- A call of `rfx_bitstream_put_bits`: the pattern, and how many bits of it. -/
abbrev Output : Type := ℕ × ℕ

/-- `OutputBit`. -/
def outputBit (count : ℕ) (bit : Bool) : List Output :=
  let b := if bit then 0xFFFF else 0
  List.replicate (count / 16) (b, 16) ++ if count % 16 > 0 then [(b, count % 16)] else []

/-- `Get2MagSign`. -/
def get2MagSign (input : ℤ) : ℕ :=
  if input ≥ 0 then 2 * input.natAbs else 2 * input.natAbs - 1

/-- `rfx_rlgr_code_gr`, and the parameter after it. -/
def codeGr (krp val : ℕ) : List Output × ℕ :=
  let kr := krp >>> lsgr
  let vk := val >>> kr
  (outputBit vk true ++ outputBit 1 false ++
      if kr ≠ 0 then [(val &&& (2 ^ kr - 1), kr)] else [],
    if vk = 0 then updateParam krp (-2)
    else if vk > 1 then updateParam krp vk
    else krp)

/-- The zeros at the front: their number, the input behind them and what is left.  The last
input is not counted when it is zero. -/
def collectZeros : List ℤ → ℕ × ℤ × List ℤ
  | [] => (0, 0, [])
  | input :: data =>
    if input = 0 ∧ data ≠ [] then ((collectZeros data).1 + 1, (collectZeros data).2)
    else (0, input, data)

/-- The zeros are put out in runs, with a bit for each: the output, the zeros that are left, and
the parameter. -/
def emitRuns (numZeros kp : ℕ) : List Output × ℕ × ℕ :=
  let runmax := 2 ^ (kp >>> lsgr)
  if _hgo : numZeros ≥ runmax ∧ 0 < runmax then
    let r := emitRuns (numZeros - runmax) (updateParam kp upGr)
    (outputBit 1 false ++ r.1, r.2)
  else ([], numZeros, kp)
termination_by numZeros

theorem length_collectZeros_le (data : List ℤ) :
    (collectZeros data).2.2.length ≤ data.length - 1 := by
  induction data with
  | nil => exact le_refl 0
  | cons input data ih =>
    rw [collectZeros]
    split
    · rw [List.length_cons]
      dsimp only
      omega
    · exact le_refl _

/-- The smallest number of bits for a value: `GetMinBits`. -/
def getMinBits (v : ℕ) : ℕ :=
  if v = 0 then 0 else getMinBits (v >>> 1) + 1
termination_by v
decreasing_by
  rw [shiftRight_eq_div_pow]
  omega

/-- The loop of `rfx_rlgr_encode`: all that is put out. -/
def encodeLoop (mode : RlgrMode) (kp krp : ℕ) : List ℤ → List Output
  | [] => []
  | first :: rest =>
    if kp >>> lsgr ≠ 0 then
      let collected := collectZeros (first :: rest)
      let input := collected.2.1
      let data := collected.2.2
      let (zeros, numZeros, kp) := emitRuns collected.1 kp
      let mag := input.natAbs
      let (code, krp) := codeGr krp (if mag ≠ 0 then mag - 1 else 0)
      zeros ++ outputBit 1 true ++ [(numZeros, kp >>> lsgr)] ++
        outputBit 1 (input < 0) ++ code ++
        encodeLoop mode (updateParam kp (-dnGr)) krp data
    else
      match mode with
      | .rlgr1 =>
        let twoMs := get2MagSign first
        let (code, krp) := codeGr krp twoMs
        code ++ encodeLoop mode
          (if twoMs ≠ 0 then updateParam kp (-dqGr) else updateParam kp uqGr) krp rest
      | .rlgr3 =>
        let twoMs1 := get2MagSign first
        let twoMs2 := get2MagSign (rest.headD 0)
        let sum2Ms := twoMs1 + twoMs2
        let (code, krp) := codeGr krp sum2Ms
        code ++ [(twoMs1, getMinBits sum2Ms)] ++ encodeLoop mode
          (if twoMs1 ≠ 0 ∧ twoMs2 ≠ 0 then updateParam kp (-(2 * dqGr))
            else if twoMs1 = 0 ∧ twoMs2 = 0 then updateParam kp (2 * uqGr)
            else kp) krp rest.tail
termination_by data => data.length
decreasing_by
  · have hle := length_collectZeros_le (first :: rest)
    rw [List.length_cons] at hle ⊢
    omega
  · exact lt_succ_self _
  · rw [List.length_tail, List.length_cons]
    omega

/-- `rfx_rlgr_encode` into a buffer of zeros: the bytes that it fills. -/
def encode (mode : RlgrMode) (data : List ℤ) (bufferSize : ℕ) : Option (List UInt8) := do
  let bs : RfxBitstream := { buffer := List.replicate bufferSize 0 }
  let bs ← (encodeLoop mode (1 <<< lsgr) (1 <<< lsgr) data).foldlM
    (fun bs output => bs.putBits output.1 output.2) bs
  let bs ← bs.flush
  let processedSize := bs.processedBytes
  if processedSize ≥ 2 ^ 31 then none
  return bs.buffer.take processedSize

/-! ## Decoding -/

/-- A step of `lzcnt_s`. -/
def narrow (s : ℕ) (p : ℕ × BitVec 32) : ℕ × BitVec 32 :=
  if p.2 >>> s ≠ 0 then (p.1 - s, p.2 >>> s) else p

/-- `lzcnt_s`. -/
def lzcnt (x : BitVec 32) : ℕ :=
  if x = 0 then 32
  else
    let (n, x) := narrow 2 (narrow 4 (narrow 8 (narrow 16 (32, x))))
    if x >>> 1 ≠ 0 then n - 2 else n - x.toNat

/-- How many of the bits that are to come are the same as `bit`, in the accumulator. -/
def countWord (bit : Bool) (bs : WBitStream) : ℕ :=
  min (lzcnt (if bit then ~~~bs.accumulator else bs.accumulator)) bs.getRemainingLength

/-- The loop that counts on as long as a word has no other bits, with the number of words that
are left. -/
def countLoop (bit : Bool) : ℕ → WBitStream → WBitStream × ℕ
  | 0, bs => (bs, countWord bit bs)
  | words + 1, bs =>
    if countWord bit bs = 32 then
      let r := countLoop bit words bs.shift32
      (r.1, 32 + r.2)
    else (bs, countWord bit bs)

/-- How many of the bits that are to come are the same as `bit`.  Words that have no other bits
are consumed. -/
def countRun (bit : Bool) (bs : WBitStream) : WBitStream × ℕ :=
  countLoop bit (bs.getRemainingLength / 32) bs

/-- A run of bits is consumed with the bit that ends it; the result is `none` when the stream
ends before. -/
def readRun (bit : Bool) (bs : WBitStream) : Option (WBitStream × ℕ) :=
  let counted := countRun bit bs
  let vk := counted.2
  let bs := counted.1.shift (vk % 32)
  if bs.getRemainingLength < 1 then none else some (bs.shift 1, vk)

/-- The next `nbits` bits are consumed. -/
def readBits (nbits : ℕ) (bs : WBitStream) : Option (WBitStream × ℕ) :=
  if bs.getRemainingLength < nbits then none
  else some (bs.shift nbits, if nbits > 0 then bs.peek nbits else 0)

/-- The parameter after a code whose run has `vk` bits. -/
def nextKrp (krp vk : ℕ) : ℕ :=
  if vk = 0 then (if krp > 2 then krp - 2 else 0)
  else if vk ≠ 1 then min kpmax ((krp + vk) % 2 ^ 32)
  else krp

/-- A Golomb-Rice code, and the parameter after it. -/
def readCode (bs : WBitStream) (krp : ℕ) : Option (WBitStream × ℕ × ℕ) :=
  (readRun true bs).bind fun run =>
    let kr := krp >>> lsgr
    (readBits kr run.1).bind fun code =>
      some (code.1, (code.2 ||| run.2 <<< kr) % 2 ^ 16, nextKrp krp run.2)

/-- The zeros of the runs that a bit was put out for, and the parameter. -/
def addRuns : ℕ → ℕ → ℕ → ℕ × ℕ
  | 0, run, kp => (run, kp)
  | vk + 1, run, kp => addRuns vk (run + 2 ^ (kp >>> lsgr)) (min kpmax (kp + upGr))

/-- What the decoder keeps: the output so far has `DstSize` coefficients at most. -/
structure Decoder where
  bs : WBitStream
  kp : ℕ
  krp : ℕ
  out : List ℤ

/-- `WINPR_ASSERTING_INT_CAST` to `int16_t`. -/
def int16 (n : ℕ) : Option ℤ := if n < 2 ^ 15 then some n else none

/-- A coefficient with its sign in the lowest bit of 32. -/
def signed (val : ℕ) : Option ℤ :=
  if val &&& 1 ≠ 0 then (int16 (((val + 1) % 2 ^ 32) >>> 1)).map (- ·) else int16 (val >>> 1)

/-- The output with one more coefficient, when there is room. -/
def put (dstSize : ℕ) (out : List ℤ) (mag : ℤ) : List ℤ :=
  if out.length < dstSize then out ++ [mag] else out

/-- What comes of a round: the stream ends, an assertion fails, or the loop goes on. -/
inductive Round where
  | ends
  | fails
  | next (d : Decoder)

/-- A value that is asserted. -/
def asserted {α : Type} (x : Option α) (f : α → Round) : Round :=
  match x with
  | some a => f a
  | none => .fails

/-- A value that is read, and the stream behind it. -/
def reading {α : Type} (x : Option (WBitStream × α)) (f : WBitStream → α → Round) : Round :=
  match x with
  | some a => f a.1 a.2
  | none => .ends

/-- A round in run-length mode. -/
def runLengthRound (dstSize kp krp : ℕ) (out : List ℤ) (bs : WBitStream) : Round :=
  reading (readRun false bs) fun bs vk =>
    let runs := addRuns vk 0 kp
    let kp := runs.2
    reading (readBits (kp >>> lsgr) bs) fun bs remainder =>
      let run := runs.1 + remainder
      if bs.getRemainingLength < 1 then .ends
      else
        let sign := decide (bs.accumulator &&& 0x80000000 ≠ 0)
        reading (readCode (bs.shift 1) krp) fun bs code =>
          asserted (int16 (code.1 + 1)) fun mag =>
            let size := min run (dstSize - out.length)
            .next
              { bs
                kp := if kp > dnGr then kp - dnGr else 0
                krp := code.2
                out := put dstSize (out ++ List.replicate size 0) (if sign then -mag else mag) }

/-- A difference in 32 bits. -/
def sub32 (a b : ℕ) : ℕ := (a + 2 ^ 32 - b) % 2 ^ 32

/-- A round in Golomb-Rice mode. -/
def golombRiceRound (mode : RlgrMode) (dstSize kp krp : ℕ) (out : List ℤ)
    (bs : WBitStream) : Round :=
  reading (readCode bs krp) fun bs code =>
    let krp := code.2
    let code := code.1
    match mode with
    | .rlgr1 =>
      asserted (if code = 0 then some 0 else signed code) fun mag =>
        .next
          { bs
            kp := if code = 0 then min kpmax (kp + uqGr)
              else if kp > dqGr then kp - dqGr else 0
            krp
            out := put dstSize out mag }
    | .rlgr3 =>
      asserted (int16 code) fun _ =>
        reading (readBits (32 - lzcnt (BitVec.ofNat 32 code)) bs) fun bs val1 =>
          let val2 := sub32 code val1
          asserted (signed val1) fun mag1 =>
            asserted (signed val2) fun mag2 =>
              .next
                { bs
                  kp :=
                    if val1 ≠ 0 ∧ val2 ≠ 0 then
                      if kp > 2 * dqGr then kp - 2 * dqGr else 0
                    else if val1 = 0 ∧ val2 = 0 then min kpmax (kp + 2 * uqGr)
                    else kp
                  krp
                  out := put dstSize (put dstSize out mag1) mag2 }

/-- The loop of `rfx_rlgr_decode`, cut off after `fuel` rounds. -/
def decodeLoop (mode : RlgrMode) (dstSize : ℕ) : ℕ → Decoder → Option (List ℤ)
  | fuel, d =>
    if d.bs.getRemainingLength > 0 ∧ d.out.length < dstSize then
      match fuel with
      | 0 => none
      | fuel + 1 =>
        match if d.kp >>> lsgr ≠ 0 then runLengthRound dstSize d.kp d.krp d.out d.bs
          else golombRiceRound mode dstSize d.kp d.krp d.out d.bs with
        | .ends => some d.out
        | .fails => none
        | .next d => decodeLoop mode dstSize fuel d
    else some d.out

/-- `rfx_rlgr_decode`: the output when it returns 1, and `none` when it returns -1 or an
assertion fails.  A round takes a bit at least. -/
def decode (mode : RlgrMode) (src : List UInt8) (dstSize : ℕ) : Option (List ℤ) :=
  if src = [] ∨ dstSize = 0 then none
  else
    (decodeLoop mode dstSize (8 * src.length)
        { bs := (WBitStream.attach src).fetch, kp := 1 <<< lsgr, krp := 1 <<< lsgr
          out := [] }).map
      fun out => out ++ List.replicate (dstSize - out.length) 0

/-! ## Counting leading zeros -/

/-- The highest bit of the word has a place below `bound`, and the count goes with it. -/
def Narrowed (top bound : ℕ) (p : ℕ × BitVec 32) : Prop :=
  ∃ e < bound, 2 ^ e ≤ p.2.toNat ∧ p.2.toNat < 2 ^ (e + 1) ∧ p.1 = top + e

/-- A step of `lzcnt_s` halves what is left of the word. -/
theorem Narrowed.narrow {top s : ℕ} {p : ℕ × BitVec 32} (h : Narrowed top (2 * s) p) :
    Narrowed top s (narrow s p) := by
  obtain ⟨e, hbound, hlow, hhigh, htop⟩ := h
  have hzero : p.2 >>> s = 0 ↔ p.2.toNat / 2 ^ s = 0 := by
    rw [← BitVec.toNat_inj, BitVec.toNat_ushiftRight, shiftRight_eq_div_pow]
    rfl
  rw [RfxRlgr.narrow]
  rcases lt_or_ge e s with he | he
  · have hsmall : p.2 >>> s = 0 := hzero.2 (div_eq_of_lt
      (hhigh.trans_le (Nat.pow_le_pow_right Nat.two_pos he)))
    rw [if_neg (not_not.2 hsmall)]
    exact ⟨e, he, hlow, hhigh, htop⟩
  · have hdiv : 2 ^ (e - s) ≤ p.2.toNat / 2 ^ s := by
      rw [Nat.le_div_iff_mul_le (Nat.two_pow_pos s), ← pow_add, Nat.sub_add_cancel he]
      exact hlow
    have hlt : p.2.toNat / 2 ^ s < 2 ^ (e - s + 1) := by
      have hexponent : s + (e - s + 1) = e + 1 := by omega
      refine Nat.div_lt_of_lt_mul ?_
      rw [← pow_add, hexponent]
      exact hhigh
    have hlarge : p.2 >>> s ≠ 0 := fun h =>
      (Nat.two_pow_pos (e - s)).ne' (Nat.le_zero.1 (hzero.1 h ▸ hdiv))
    rw [if_pos hlarge]
    refine ⟨e - s, by omega, ?_, ?_, by dsimp only; omega⟩
    · rw [BitVec.toNat_ushiftRight, shiftRight_eq_div_pow]
      exact hdiv
    · rw [BitVec.toNat_ushiftRight, shiftRight_eq_div_pow]
      exact hlt

/-- **`lzcnt_s` counts the zeros above the highest bit.** -/
theorem lzcnt_eq {x : BitVec 32} {e : ℕ} (he : e < 32) (hlow : 2 ^ e ≤ x.toNat)
    (hhigh : x.toNat < 2 ^ (e + 1)) : lzcnt x = 31 - e := by
  have hne : x ≠ 0 := by
    rintro rfl
    exact (Nat.two_pow_pos e).ne' (Nat.le_zero.1 hlow)
  have hstart : Narrowed (32 - e) (2 * 16) (32, x) :=
    ⟨e, he, hlow, hhigh, (Nat.sub_add_cancel he.le).symm⟩
  have hsteps : Narrowed (32 - e) 2 (narrow 2 (narrow 4 (narrow 8 (narrow 16 (32, x))))) :=
    Narrowed.narrow (s := 2) (Narrowed.narrow (s := 4) (Narrowed.narrow (s := 8) hstart.narrow))
  rw [lzcnt, if_neg hne]
  obtain ⟨e', he', hlow', hhigh', htop⟩ := hsteps
  generalize narrow 2 (narrow 4 (narrow 8 (narrow 16 (32, x)))) = p at hlow' hhigh' htop ⊢
  obtain ⟨n, y⟩ := p
  dsimp only at hlow' hhigh' htop ⊢
  have hhalf : y >>> 1 = 0 ↔ y.toNat / 2 = 0 := by
    rw [← BitVec.toNat_inj, BitVec.toNat_ushiftRight, shiftRight_eq_div_pow]
    rfl
  obtain rfl | rfl : e' = 0 ∨ e' = 1 := by omega
  · rw [if_neg (not_not.2 (hhalf.2 (by omega)))]
    omega
  · rw [if_pos (fun h => by have := hhalf.1 h; omega)]
    omega

theorem lzcnt_zero : lzcnt 0 = 32 := if_pos rfl

/-- The zeros in front of a bit that is set. -/
theorem lzcnt_of_bits {x : BitVec 32} {m : ℕ} (hm : m < 32)
    (hzeros : ∀ i < m, x.getLsbD (31 - i) = false) (hone : x.getLsbD (31 - m) = true) :
    lzcnt x = m := by
  have hlow : 2 ^ (31 - m) ≤ x.toNat := ge_two_pow_of_testBit hone
  have hhigh : x.toNat < 2 ^ (31 - m + 1) := by
    refine lt_pow_two_of_testBit _ fun i hi => ?_
    rcases lt_or_ge i 32 with hlt | hge
    · have hz := hzeros (31 - i) (by omega)
      rwa [Nat.sub_sub_self (Nat.le_of_lt_succ hlt)] at hz
    · exact BitVec.getLsbD_of_ge x i hge
  rw [lzcnt_eq (by omega) hlow hhigh]
  omega

end RfxRlgr
