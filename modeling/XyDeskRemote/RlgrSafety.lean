/-
# Safety of the RLGR decoder

`rfx_rlgr_decode` with everything checked that it takes for granted: its assertions and its
asserting casts, the counts of its shifts and the position in the stream.

`decode_safe_iff`: the decoder is safe on a stream if and only if every token that it comes to
stands for coefficients of 16 bits; where one does not, a cast is what fails.
-/
import XyDeskRemote.RlgrTokens
import Mathlib.Data.List.TakeWhile

open MsbBits WBitStream CheckedReader RlgrTokens RfxRlgr List Nat

namespace RlgrSafety

open RfxRlgr (lsgr kpmax upGr dnGr uqGr dqGr int16 signed sub32 nextKrp put)

/-- What must not happen. -/
inductive Fault where
  | cast
  | assertion
  | shift
  | position
  | spins
  deriving DecidableEq

/-- A reader with its accesses checked. -/
abbrev BitReader : Type → Type := CheckedReader WBitStream Fault

/-! ## The bit stream -/

/-- `BitStream_Shift`; the counts of all its shifts are below 32 when these two are. -/
def shift (nbits : ℕ) : BitReader Unit := do
  let bs ← get
  check .shift (nbits < 32 ∧ bs.offset < 32)
  check .position (bs.position + nbits ≤ bs.length)
  set (bs.shift nbits)

/-- The stream ends when there are less than `nbits` bits. -/
def atLeast (nbits : ℕ) : BitReader Unit := fun bs =>
  if bs.getRemainingLength < nbits then .error .ends else .ok ((), bs)

/-- `(accumulator >> (32 - nbits)) & mask`. -/
def lookAhead (nbits : ℕ) : BitReader ℕ := do
  check .shift (0 < nbits ∧ nbits ≤ 32)
  return (← get).peek nbits

/-- A step of `lzcnt_s`. -/
def narrow (s : ℕ) (p : ℕ × BitVec 32) : BitReader (ℕ × BitVec 32) :=
  if p.2 >>> s ≠ 0 then do
    check .assertion (p.1 ≥ s)
    return (p.1 - s, p.2 >>> s)
  else return p

/-- `lzcnt_s`. -/
def lzcnt (x : BitVec 32) : BitReader ℕ :=
  if x = 0 then return 32
  else do
    let (n, x) ← narrow 16 (32, x) >>= narrow 8 >>= narrow 4 >>= narrow 2
    if x >>> 1 ≠ 0 then
      check .assertion (n ≥ 2)
      return n - 2
    else
      check .assertion (n ≥ x.toNat)
      return n - x.toNat

/-- The bits in the accumulator that are the same as `bit`, as far as the stream goes. -/
def countWord (bit : Bool) : BitReader ℕ := do
  let bs ← get
  let cnt ← lzcnt (if bit then ~~~bs.accumulator else bs.accumulator)
  return min cnt bs.getRemainingLength

/-- The loop that counts on as long as a word has no other bits, cut off after `fuel` rounds. -/
def countOn (bit : Bool) : ℕ → ℕ → ℕ → BitReader ℕ
  | fuel, cnt, vk => do
    let bs ← get
    if cnt = 32 ∧ bs.getRemainingLength > 0 then
      match fuel with
      | 0 => fun _ => .error (.fault .spins)
      | fuel + 1 => do
        shift 16
        shift 16
        let cnt ← countWord bit
        check .assertion (cnt + vk < 2 ^ 32)
        check .cast (cnt < 2 ^ 32)
        countOn bit fuel cnt (vk + cnt)
    else return vk

/-- A run of bits is consumed with the bit that ends it. -/
def readRun (bit : Bool) : BitReader ℕ := do
  let cnt ← countWord bit
  check .cast (cnt < 2 ^ 32)
  let vk ← countOn bit ((← get).getRemainingLength / 32) cnt cnt
  shift (vk % 32)
  atLeast 1
  shift 1
  return vk

/-- The next `k` bits; there must be one. -/
def readRemainder (k : ℕ) : BitReader ℕ := do
  atLeast k
  check .shift (k < 32)
  let remainder ← lookAhead k
  shift k
  return remainder

/-- The next `nbits` bits, of which there may be none. -/
def readBits (nbits : ℕ) : BitReader ℕ := do
  atLeast nbits
  check .shift (nbits < 32)
  let v ← if nbits > 0 then lookAhead nbits else pure 0
  shift nbits
  return v

/-- The sign bit. -/
def readSign : BitReader Bool := do
  atLeast 1
  let sign := decide ((← get).accumulator &&& 0x80000000 ≠ 0)
  shift 1
  return sign

/-- A Golomb-Rice code, and the parameter after it. -/
def readCode (krp : ℕ) : BitReader (ℕ × ℕ) := do
  let vk ← readRun true
  let kr := krp >>> lsgr
  let code ← readBits kr
  check .shift (kr < 32)
  return ((code ||| vk <<< kr) % 2 ^ 16, nextKrp krp vk)

/-! ## The decoder -/

/-- `WINPR_ASSERTING_INT_CAST` to `int16_t`. -/
def cast (x : Option ℤ) : BitReader ℤ :=
  match x with
  | some v => return v
  | none => fun _ => .error (.fault .cast)

/-- The loop over the runs that have a bit. -/
def addRuns : ℕ → ℕ → ℕ → BitReader (ℕ × ℕ)
  | 0, run, kp => return (run, kp)
  | vk + 1, run, kp => do
    check .shift (kp >>> lsgr < 32)
    addRuns vk (run + 2 ^ (kp >>> lsgr)) (min kpmax (kp + upGr))

/-- A round in run-length mode. -/
def runLengthRound (dstSize : ℕ) (q : Params) (out : List ℤ) : BitReader (Params × List ℤ) := do
  let vk ← readRun false
  let runs ← addRuns vk 0 q.kp
  let remainder ← readRemainder (runs.2 >>> lsgr)
  let run := runs.1 + remainder
  let sign ← readSign
  let c ← readCode q.krp
  let mag ← cast (int16 (c.1 + 1))
  let size := min run (dstSize - out.length)
  return ({ kp := if runs.2 > dnGr then runs.2 - dnGr else 0, krp := c.2 },
    put dstSize (out ++ replicate size 0) (if sign then -mag else mag))

/-- `nIdx`. -/
def indexBits (code : ℕ) : BitReader ℕ :=
  if code ≠ 0 then do
    let _ ← cast (int16 code)
    let zeros ← lzcnt (BitVec.ofNat 32 code)
    return 32 - zeros
  else return 0

/-- A round in Golomb-Rice mode. -/
def golombRiceRound (mode : RlgrMode) (dstSize : ℕ) (q : Params) (out : List ℤ) :
    BitReader (Params × List ℤ) := do
  let c ← readCode q.krp
  let code := c.1
  match mode with
  | .rlgr1 =>
    let mag ← cast (if code = 0 then some 0 else signed code)
    return (
      { kp := if code = 0 then min kpmax (q.kp + uqGr)
          else if q.kp > dqGr then q.kp - dqGr else 0
        krp := c.2 }, put dstSize out mag)
  | .rlgr3 =>
    let nIdx ← indexBits code
    let val1 ← readBits nIdx
    let val2 := sub32 code val1
    let mag1 ← cast (signed val1)
    let mag2 ← cast (signed val2)
    return (
      { kp :=
          if val1 ≠ 0 ∧ val2 ≠ 0 then if q.kp > 2 * dqGr then q.kp - 2 * dqGr else 0
          else if val1 = 0 ∧ val2 = 0 then min kpmax (q.kp + 2 * uqGr)
          else q.kp
        krp := c.2 }, put dstSize (put dstSize out mag1) mag2)

/-- The loop of `rfx_rlgr_decode`, cut off after `fuel` rounds. -/
def decodeLoop (mode : RlgrMode) (dstSize : ℕ) :
    ℕ → Params → List ℤ → WBitStream → Except Fault (List ℤ)
  | fuel, q, out, bs =>
    if bs.getRemainingLength > 0 ∧ out.length < dstSize then
      match fuel with
      | 0 => .error .spins
      | fuel + 1 =>
        match (if q.kp >>> lsgr ≠ 0 then runLengthRound dstSize q out
          else golombRiceRound mode dstSize q out) bs with
        | .ok ((q, out), bs) => decodeLoop mode dstSize fuel q out bs
        | .error .ends => .ok out
        | .error (.fault f) => .error f
    else .ok out

/-- `RLGR_MODE` as a number; what is no mode is taken for `RLGR1`. -/
def modeOf (mode : ℕ) : RlgrMode := if mode = 1 then .rlgr3 else .rlgr1

/-- `rfx_rlgr_decode`: what it returns, and what it has written. -/
def decode (mode : ℕ) (src : List UInt8) (dstSize : ℕ) : Except Fault (ℤ × List ℤ) := do
  if src = [] then return (-1, [])
  if dstSize = 0 then return (-1, [])
  let bs := (WBitStream.attach src).fetch
  let out ← decodeLoop (modeOf mode) dstSize bs.getRemainingLength .start [] bs
  let out :=
    if out.length < dstSize then out ++ replicate (dstSize - out.length) 0 else out
  return (if out.length ≠ dstSize then -1 else 1, out)

/-- No check fails, and exactly `rDstSize` elements are written. -/
def Safe (mode : ℕ) (src : List UInt8) (dstSize : ℕ) : Prop :=
  ∃ ret out, decode mode src dstSize = .ok (ret, out) ∧ out.length = dstSize

/-- The bits of a source, as far as the stream has them. -/
def streamBits (src : List UInt8) : List Bool :=
  (bytesBits src).take (8 * src.length % 2 ^ 32)

/-! ## Counting leading zeros -/

theorem narrow_eq {s : ℕ} {p : ℕ × BitVec 32} (h : s ≤ p.1) :
    narrow s p = pure (RfxRlgr.narrow s p) := by
  unfold narrow RfxRlgr.narrow
  split
  · rw [check_pos h, pure_bind]
  · rfl

theorem le_narrow (s : ℕ) (p : ℕ × BitVec 32) : p.1 - s ≤ (RfxRlgr.narrow s p).1 := by
  unfold RfxRlgr.narrow
  split
  · exact le_refl _
  · exact sub_le _ _

/-- The assertions of `lzcnt_s` hold. -/
theorem lzcnt_eq (x : BitVec 32) : lzcnt x = pure (RfxRlgr.lzcnt x) := by
  have h16 := le_narrow 16 (32, x)
  have h8 := le_narrow 8 (RfxRlgr.narrow 16 (32, x))
  have h4 := le_narrow 4 (RfxRlgr.narrow 8 (RfxRlgr.narrow 16 (32, x)))
  have h2 := le_narrow 2 (RfxRlgr.narrow 4 (RfxRlgr.narrow 8 (RfxRlgr.narrow 16 (32, x))))
  dsimp only at h16
  have hnarrow : (narrow 16 (32, x) >>= narrow 8 >>= narrow 4 >>= narrow 2 : BitReader _) =
      pure (RfxRlgr.narrow 2 (RfxRlgr.narrow 4 (RfxRlgr.narrow 8
        (RfxRlgr.narrow 16 (32, x))))) := by
    rw [narrow_eq (le_add_right 16 16), pure_bind, narrow_eq (by omega), pure_bind,
      narrow_eq (by omega), pure_bind, narrow_eq (by omega)]
  unfold lzcnt RfxRlgr.lzcnt
  split
  · rfl
  · rw [hnarrow, pure_bind]
    generalize RfxRlgr.narrow 2 _ = p at h2 ⊢
    obtain ⟨n, y⟩ := p
    dsimp only at h2 ⊢
    have hn : 2 ≤ n := by omega
    split
    · rw [check_pos hn, pure_bind]
    · -- one bit is left
      next hhalf =>
        have hy : y.toNat / 2 = 0 := by
          have hzero := congrArg BitVec.toNat (not_not.1 hhalf)
          rwa [BitVec.toNat_ushiftRight, shiftRight_eq_div_pow, pow_one] at hzero
        rw [check_pos (by omega), pure_bind]

theorem countWord_apply (bit : Bool) (bs : WBitStream) :
    countWord bit bs = .ok (RfxRlgr.countWord bit bs, bs) := by
  unfold countWord
  rw [bind_ok (m := get) rfl, lzcnt_eq, pure_bind]
  rfl

/-! ## Reading what the bits say -/

variable {bs : WBitStream} {rest tail : List Bool} {b : Bool} {m n : ℕ}

theorem shift_apply (h : Reads bs rest) (hn : n < 32) (hle : n ≤ rest.length) :
    shift n bs = .ok ((), bs.shift n) := by
  have hadd := h.position_add
  unfold shift
  rw [bind_ok (m := get) rfl, check_pos ⟨hn, h.offset_lt⟩, pure_bind, check_pos (by omega),
    pure_bind]
  rfl

theorem atLeast_apply (h : Reads bs rest) (hle : n ≤ rest.length) :
    atLeast n bs = .ok ((), bs) := by
  unfold atLeast
  rw [h.getRemainingLength_eq, if_neg (by omega)]

theorem atLeast_ends (h : Reads bs rest) (hlt : rest.length < n) :
    atLeast n bs = .error .ends := by
  unfold atLeast
  rw [h.getRemainingLength_eq, if_pos hlt]

/-- **The run is counted over all its words.**  The count and the bits behind it are never more
than the stream has. -/
theorem countOn_apply (fuel acc : ℕ) (h : Reads bs (replicate m b ++ tail))
    (hend : ∀ x ∈ tail.head?, x = !b) (hfuel : m / 32 ≤ fuel)
    (hacc : acc + m + tail.length < 2 ^ 32) :
    ∃ bs', countOn b fuel (min 32 m) (acc + min 32 m) bs = .ok (acc + m, bs') ∧
      Reads bs' (replicate (m % 32) b ++ tail) := by
  induction fuel generalizing bs m acc with
  | zero =>
    have hm : m < 32 := by omega
    refine ⟨bs, ?_, ?_⟩
    · rw [countOn, bind_ok (m := get) rfl, min_eq_right hm.le, if_neg (by omega)]
      rfl
    · rwa [mod_eq_of_lt hm]
  | succ fuel ih =>
    rcases lt_or_ge m 32 with hm | hm
    · refine ⟨bs, ?_, ?_⟩
      · rw [countOn, bind_ok (m := get) rfl, min_eq_right hm.le, if_neg (by omega)]
        rfl
      · rwa [mod_eq_of_lt hm]
    · have hlength : (replicate m b ++ tail).length = m + tail.length := by
        rw [length_append, length_replicate]
      have hmiddle := h.shift (n := 16) (by decide) (by omega)
      have hnext := h.shift32 (by omega)
      have hsplit : replicate m b = replicate 32 b ++ replicate (m - 32) b := by
        rw [replicate_append_replicate, Nat.add_sub_cancel' hm]
      have hdrop : (replicate m b ++ tail).drop 32 = replicate (m - 32) b ++ tail := by
        rw [hsplit, append_assoc]
        exact drop_left' length_replicate
      rw [hdrop] at hnext
      obtain ⟨bs', hbs', hreads⟩ := ih (acc + 32) hnext (by omega) (by omega)
      refine ⟨bs', ?_, by rwa [← mod_eq_sub_mod hm] at hreads⟩
      have hsum : acc + 32 + (m - 32) = acc + m := by omega
      have hcount : RfxRlgr.countWord b ((bs.shift 16).shift 16) = min 32 (m - 32) :=
        countWord_eq hnext hend
      rw [hsum] at hbs'
      rw [countOn, bind_ok (m := get) rfl, min_eq_left hm,
        if_pos ⟨rfl, by rw [h.getRemainingLength_eq]; omega⟩,
        bind_ok (shift_apply h (by decide) (by omega)),
        bind_ok (shift_apply hmiddle (by decide) (by rw [length_drop]; omega)),
        bind_ok (countWord_apply b _), hcount, check_pos (by omega), pure_bind,
        check_pos (by omega), pure_bind]
      exact hbs'

/-- The bits in front of the first one that is different. -/
theorem eq_replicate_append (bit : Bool) (bits : List Bool) :
    bits = replicate (bits.takeWhile (· == bit)).length bit ++ bits.dropWhile (· == bit) := by
  have hrun : bits.takeWhile (· == bit) =
      replicate (bits.takeWhile (· == bit)).length bit :=
    eq_replicate_of_mem fun c hc => eq_of_beq (mem_takeWhile_imp (p := (· == bit)) hc)
  rw [← hrun, takeWhile_append_dropWhile]

theorem head?_dropWhile (bit : Bool) (bits : List Bool) :
    ∀ x ∈ (bits.dropWhile (· == bit)).head?, x = !bit := by
  intro x hx
  have hnot := head?_dropWhile_not (· == bit) bits
  rw [hx] at hnot
  cases x
  all_goals cases bit
  all_goals first | rfl | exact absurd hnot (by decide)

/-- **A run is read**, however long it is. -/
theorem follows_readRun (bit : Bool) : Follows Reads (readRun bit) (run bit) := by
  -- the bits of the run are consumed in any case
  have hcounted : ∀ {bs : WBitStream} {bits : List Bool}, Reads bs bits →
      ∃ bs', readRun bit bs = (do
        atLeast 1
        shift 1
        return (bits.takeWhile (· == bit)).length : BitReader ℕ) bs' ∧
        Reads bs' (bits.dropWhile (· == bit)) := by
    intro bs bits h
    have hend := head?_dropWhile bit bits
    rw [eq_replicate_append bit bits] at h
    generalize (bits.takeWhile (· == bit)).length = m at h ⊢
    generalize bits.dropWhile (· == bit) = tail at h hend ⊢
    have hlength := h.getRemainingLength_eq
    have hadd := h.position_add
    have hlt := h.length_lt
    rw [length_append, length_replicate] at hlength hadd
    obtain ⟨bs', hcount, hreads⟩ := countOn_apply (bs.getRemainingLength / 32) 0 h hend
      (by omega) (by omega)
    have hshift := shift_apply hreads (n := m % 32) (Nat.mod_lt _ (by decide))
      (by rw [length_append, length_replicate]; omega)
    have hshifted := hreads.shift (n := m % 32) (Nat.mod_lt _ (by decide))
      (by rw [length_append, length_replicate]; omega)
    rw [drop_left' length_replicate] at hshifted
    refine ⟨bs'.shift (m % 32), ?_, hshifted⟩
    rw [zero_add, zero_add] at hcount
    unfold readRun
    rw [bind_ok (countWord_apply bit bs), countWord_eq h hend, check_pos (by omega),
      pure_bind, bind_ok (m := get) rfl, bind_ok hcount, bind_ok hshift]
  constructor
  · intro bs bits h hnone
    obtain ⟨bs', hbs', hreads⟩ := hcounted h
    have hempty : bits.dropWhile (· == bit) = [] := by
      unfold run at hnone
      split at hnone
      next hempty => exact hempty
      next => nomatch hnone
    rw [hempty] at hreads
    rw [hbs', bind_error (atLeast_ends hreads one_pos)]
  · intro bs bits vk rest h hsome
    obtain ⟨bs', hbs', hreads⟩ := hcounted h
    unfold run at hsome
    split at hsome
    next => nomatch hsome
    next b rest' hdrop =>
      cases hsome
      rw [hdrop] at hreads
      refine ⟨bs'.shift 1, ?_, hreads.shift (n := 1) (by decide) (succ_pos _)⟩
      rw [hbs', bind_ok (atLeast_apply hreads (succ_pos _)),
        bind_ok (shift_apply hreads (by decide) (succ_pos _))]
      rfl

theorem take_apply (h : Reads bs rest) (hpos : 0 < n) (hn : n < 32) (hle : n ≤ rest.length) :
    (do
      let v ← lookAhead n
      shift n
      return v : BitReader ℕ) bs = .ok (valueOf (rest.take n), bs.shift n) := by
  have hlook : lookAhead n bs = .ok (valueOf (rest.take n), bs) := by
    unfold lookAhead
    rw [check_pos ⟨hpos, hn.le⟩, pure_bind, bind_ok (m := get) rfl, h.value hn.le hle]
    rfl
  rw [bind_ok hlook, bind_ok (shift_apply h hn hle)]
  rfl

theorem follows_of_field {r : BitReader ℕ}
    (hends : ∀ {bs rest}, Reads bs rest → rest.length < n → r bs = .error .ends)
    (hgoes : ∀ {bs rest}, Reads bs rest → n ≤ rest.length →
      r bs = .ok (valueOf (rest.take n), bs.shift n)) (hn : n < 32) :
    Follows Reads r (field n) := by
  constructor
  · intro bs bits h hnone
    unfold field at hnone
    split at hnone
    next => nomatch hnone
    next hlt => exact hends h (Nat.lt_of_not_le hlt)
  · intro bs bits v rest h hsome
    unfold field at hsome
    split at hsome
    next hle =>
      cases hsome
      exact ⟨bs.shift n, hgoes h hle, h.shift hn hle⟩
    next => nomatch hsome

/-- A remainder of a run has a bit at least. -/
theorem follows_readRemainder (hpos : 0 < n) (hn : n < 32) :
    Follows Reads (readRemainder n) (field n) := by
  refine follows_of_field (fun h hlt => ?_) (fun h hle => ?_) hn
  · unfold readRemainder
    exact bind_error (atLeast_ends h hlt)
  · unfold readRemainder
    rw [bind_ok (atLeast_apply h hle), check_pos hn, pure_bind]
    exact take_apply h hpos hn hle

/-- A number that may have no bits. -/
theorem follows_readBits (hn : n < 32) : Follows Reads (readBits n) (field n) := by
  refine follows_of_field (fun h hlt => ?_) (fun h hle => ?_) hn
  · unfold readBits
    exact bind_error (atLeast_ends h hlt)
  · unfold readBits
    rw [bind_ok (atLeast_apply h hle), check_pos hn, pure_bind]
    rcases Nat.eq_zero_or_pos n with rfl | hpos
    · rw [if_neg (lt_irrefl 0), pure_bind]
      exact bind_ok (shift_apply h hn hle)
    · rw [if_pos hpos]
      exact take_apply h hpos hn hle

theorem follows_readSign : Follows Reads readSign flag := by
  constructor
  · intro bs bits h hnone
    cases bits with
    | nil => exact bind_error (atLeast_ends h one_pos)
    | cons b bits => nomatch hnone
  · intro bs bits b rest h hsome
    cases bits with
    | nil => nomatch hsome
    | cons c bits =>
      cases hsome
      have hbit := h.getLsbD_accumulator (i := 0) (by decide) (succ_pos _)
      rw [getD_cons_zero, Nat.sub_zero] at hbit
      refine ⟨bs.shift 1, ?_, h.shift (n := 1) (by decide) (succ_pos _)⟩
      unfold readSign
      rw [bind_ok (atLeast_apply h (succ_pos _)), bind_ok (m := get) rfl,
        bind_ok (shift_apply h (by decide) (succ_pos _)), signBit_eq, hbit]
      rfl

theorem follows_readCode {krp : ℕ} (hkrp : krp ≤ kpmax) :
    Follows Reads (readCode krp) (code krp) := by
  have hkr := shiftRight_lsgr_lt hkrp
  refine (follows_readRun true).bind fun vk => (follows_readBits hkr).bind fun low => ?_
  exact (follows_pure _).check hkr

/-! ## Casts -/

/-- A value with its sign in the lowest bit is one of 16 bits; that of -1 wraps to zero. -/
theorem isSome_signed {v : ℕ} (hv : v < 2 ^ 32) :
    (signed v).isSome ↔ v < 0xFFFF ∨ v = 0xFFFFFFFF := by
  unfold signed int16
  rw [and_one_is_mod, shiftRight_eq_div_pow, shiftRight_eq_div_pow, pow_one]
  split
  next hodd =>
    split
    next hlt =>
      simp only [Option.map_some, Option.isSome_some, true_iff]
      omega
    next hge =>
      simp only [Option.map_none, Option.isSome_none, Bool.false_eq_true, false_iff]
      omega
  next heven =>
    split
    next hlt =>
      simp only [Option.isSome_some, true_iff]
      omega
    next hge =>
      simp only [Option.isSome_none, Bool.false_eq_true, false_iff]
      omega

/-- The coefficients of a token, when no cast fails. -/
def casts : Token → Option (List ℤ)
  | .run zeros negative code =>
    (int16 (code + 1)).map fun mag => replicate zeros 0 ++ [if negative then -mag else mag]
  | .single code => (if code = 0 then some 0 else signed code).map fun mag => [mag]
  | .pair sum val1 => do
    let _ ← int16 sum
    let mag1 ← signed val1
    let mag2 ← signed (sub32 sum val1)
    return [mag1, mag2]

/-- **The casts of a token fail if and only if it does not fit.** -/
theorem casts_eq {tok : Token} (h : tok.Words) :
    casts tok = if tok.Fits then some tok.values else none := by
  have hget : ∀ {v : ℕ}, (signed v).isSome → signed v = some ((signed v).getD 0) := by
    intro v hv
    obtain ⟨mag, hmag⟩ := Option.isSome_iff_exists.1 hv
    rw [hmag]
    rfl
  have hnone : ∀ {v : ℕ}, ¬(signed v).isSome → signed v = none := fun hv =>
    Option.not_isSome_iff_eq_none.1 hv
  cases tok with
  | run zeros negative code =>
    have hfits : (Token.run zeros negative code).Fits ↔ code + 1 < 2 ^ 15 := by
      rw [Token.Fits]
      omega
    rw [casts, int16]
    by_cases hcode : code + 1 < 2 ^ 15
    · rw [if_pos (hfits.2 hcode), if_pos hcode]
      rfl
    · rw [if_neg (mt hfits.1 hcode), if_neg hcode]
      rfl
  | single code =>
    have hzero : (if code = 0 then some 0 else signed code) = signed code := by
      split
      next hcode =>
        rw [hcode]
        rfl
      next => rfl
    have hlt : code < 2 ^ 16 := h
    have hfits : (Token.single code).Fits ↔ code < 0xFFFF := Iff.rfl
    rw [casts, hzero]
    by_cases hcode : code < 0xFFFF
    · rw [if_pos (hfits.2 hcode), hget ((isSome_signed (by omega)).2 (Or.inl hcode))]
      rfl
    · rw [if_neg (mt hfits.1 hcode), hnone fun hsome => ?_]
      · rfl
      · have hcases := (isSome_signed (by omega)).1 hsome
        omega
  | pair sum val1 =>
    obtain ⟨hsum, hval1⟩ := h
    have hfirst := hget ((isSome_signed (v := val1) (by omega)).2 (Or.inl (by omega)))
    have hdiff := isSome_signed (v := sub32 sum val1) (Nat.mod_lt _ (Nat.two_pow_pos 32))
    have hpair : (Token.pair sum val1).Fits ↔ sum ≤ 0x7FFF ∧ val1 ≤ sum + 1 := Iff.rfl
    rw [casts]
    by_cases hlarge : sum ≤ 0x7FFF
    · have hcast : int16 sum = some (sum : ℤ) := if_pos (by omega)
      rw [hcast, hfirst]
      by_cases hfits : val1 ≤ sum + 1
      · have hsecond := hget (hdiff.2 (by rw [sub32]; omega))
        rw [if_pos (hpair.2 ⟨hlarge, hfits⟩), hsecond]
        rfl
      · have hsecond := hnone fun hsome => by
          have hcases := hdiff.1 hsome
          rw [sub32] at hcases
          omega
        rw [if_neg fun h => hfits (hpair.1 h).2, hsecond]
        rfl
    · have hcast : int16 sum = none := if_neg (by omega)
      rw [if_neg fun h => hlarge (hpair.1 h).1, hcast]
      rfl

/-! ## Rounds -/

variable {dstSize : ℕ} {q : Params} {out : List ℤ}

theorem addRuns_eq {kp : ℕ} (hkp : kp ≤ kpmax) (vk run : ℕ) :
    addRuns vk run kp = pure (RfxRlgr.addRuns vk run kp) := by
  induction vk generalizing run kp with
  | zero => rfl
  | succ vk ih =>
    rw [addRuns, check_pos (shiftRight_lsgr_lt hkp), pure_bind,
      ih (min_le_left _ _), RfxRlgr.addRuns]

/-- What a round in run-length mode reads. -/
def readRunToken (q : Params) : BitReader (Token × Params) := do
  let vk ← readRun false
  let runs ← addRuns vk 0 q.kp
  let remainder ← readRemainder (runs.2 >>> lsgr)
  let sign ← readSign
  let c ← readCode q.krp
  return (.run (runs.1 + remainder) sign c.1, { kp := runs.2 - dnGr, krp := c.2 })

/-- What a round for one coefficient reads. -/
def readSingleToken (q : Params) : BitReader (Token × Params) := do
  let c ← readCode q.krp
  return (.single c.1,
    { kp := if c.1 = 0 then min kpmax (q.kp + uqGr) else q.kp - dqGr, krp := c.2 })

/-- What a round for a pair reads. -/
def readPairToken (q : Params) : BitReader (Token × Params) := do
  let c ← readCode q.krp
  if c.1 ≤ 0x7FFF then
    let val1 ← readBits (getMinBits c.1)
    return (.pair c.1 val1, { kp := kpAfterPair q.kp val1 (sub32 c.1 val1), krp := c.2 })
  else return (.pair c.1 0, { kp := q.kp, krp := c.2 })

theorem follows_readRunToken (hq : q.Bounded) (hk : q.kp >>> lsgr ≠ 0) :
    Follows Reads (readRunToken q) (runToken q) := by
  refine (follows_readRun false).bind fun vk => ?_
  rw [addRuns_eq hq.kp_le, pure_bind]
  obtain ⟨hge, hle⟩ := addRuns_bounds hq.kp_le vk 0
  have hpos : 0 < (RfxRlgr.addRuns vk 0 q.kp).2 >>> lsgr := by
    rw [shiftRight_eq_div_pow] at hk ⊢
    exact (Nat.pos_of_ne_zero hk).trans_le (Nat.div_le_div_right hge)
  exact (follows_readRemainder hpos (shiftRight_lsgr_lt hle)).bind fun _ =>
    follows_readSign.bind fun _ => (follows_readCode hq.krp_le).bind fun _ => follows_pure _

theorem follows_readSingleToken (hq : q.Bounded) :
    Follows Reads (readSingleToken q) (singleToken q) :=
  (follows_readCode hq.krp_le).bind fun _ => follows_pure _

theorem follows_readPairToken (hq : q.Bounded) :
    Follows Reads (readPairToken q) (pairToken q) := by
  refine (follows_readCode hq.krp_le).bind fun c => ?_
  split
  next hle =>
    have hbits := getMinBits_le hle
    exact (follows_readBits (by omega)).bind fun _ => follows_pure _
  next => exact follows_pure _

/-- What a round writes for a token. -/
def emit (dstSize : ℕ) (out : List ℤ) (r : Token × Params) : BitReader (Params × List ℤ) :=
  match casts r.1 with
  | some values => pure (r.2, (out ++ values).take dstSize)
  | none => fun _ => .error (.fault .cast)

theorem put_eq_take (hout : out.length ≤ dstSize) (mag : ℤ) :
    put dstSize out mag = (out ++ [mag]).take dstSize := by
  unfold put
  split
  next hlt => rw [take_of_length_le (by rw [length_append, length_singleton]; omega)]
  next hge => rw [take_append_of_le_length (by omega), take_of_length_le hout]

/-- A list that is cut off is cut off in the same place with more behind it. -/
theorem take_take_append (n : ℕ) (xs ys : List ℤ) :
    (xs.take n ++ ys).take n = (xs ++ ys).take n := by
  rcases lt_or_ge xs.length n with hlt | hge
  · rw [take_of_length_le hlt.le]
  · rw [take_append_of_le_length hge,
      take_append_of_le_length (by rw [length_take]; omega), take_take,
      min_self]

/-- A run that is cut off by hand. -/
theorem append_replicate_eq_take (hout : out.length ≤ dstSize) (run : ℕ) :
    out ++ replicate (min run (dstSize - out.length)) 0 =
      (out ++ replicate run 0).take dstSize := by
  rw [take_append, take_of_length_le hout, take_replicate, min_comm]

theorem length_take_le (xs : List ℤ) : (xs.take dstSize).length ≤ dstSize := by
  rw [length_take]
  exact min_le_left _ _

theorem ite_sub (a b : ℕ) : (if a > b then a - b else 0) = a - b := by
  split
  · rfl
  · omega

theorem cast_some_bind {β : Type} (v : ℤ) (f : ℤ → BitReader β) : cast (some v) >>= f = f v :=
  pure_bind v f

theorem cast_none_bind {β : Type} (f : ℤ → BitReader β) :
    cast none >>= f = fun _ => .error (.fault .cast) := rfl

theorem emit_of_some {tok : Token} {values : List ℤ} (h : casts tok = some values) :
    emit dstSize out (tok, q) = pure (q, (out ++ values).take dstSize) := by
  unfold emit
  dsimp only
  rw [h]

theorem emit_of_none {tok : Token} (h : casts tok = none) :
    emit dstSize out (tok, q) = fun _ => .error (.fault .cast) := by
  unfold emit
  dsimp only
  rw [h]

theorem runLengthRound_eq (hout : out.length ≤ dstSize) (q : Params) :
    runLengthRound dstSize q out = readRunToken q >>= emit dstSize out := by
  have hemit : ∀ (run : ℕ) (sign : Bool) (c : ℕ × ℕ) (runs : ℕ × ℕ),
      (do
        let mag ← cast (int16 (c.1 + 1))
        return ({ kp := if runs.2 > dnGr then runs.2 - dnGr else 0, krp := c.2 },
          put dstSize (out ++ replicate (min run (dstSize - out.length)) 0)
            (if sign then -mag else mag)) : BitReader (Params × List ℤ)) =
        emit dstSize out (.run run sign c.1, { kp := runs.2 - dnGr, krp := c.2 }) := by
    intro run sign c runs
    cases hmag : int16 (c.1 + 1) with
    | none =>
      rw [cast_none_bind, emit_of_none (by rw [casts, hmag]; rfl)]
    | some mag =>
      have hcasts : casts (.run run sign c.1) =
          some (replicate run 0 ++ [if sign then -mag else mag]) := by
        rw [casts, hmag]
        rfl
      rw [cast_some_bind, emit_of_some hcasts, ite_sub, append_replicate_eq_take hout,
        put_eq_take (length_take_le _), take_take_append, append_assoc]
  unfold runLengthRound readRunToken
  simp only [bind_assoc, pure_bind, hemit]

theorem golombRiceRound1_eq (hout : out.length ≤ dstSize) (q : Params) :
    golombRiceRound .rlgr1 dstSize q out = readSingleToken q >>= emit dstSize out := by
  unfold golombRiceRound readSingleToken
  rw [bind_assoc]
  refine congrArg _ (funext fun c => ?_)
  rw [pure_bind]
  dsimp only
  cases hmag : (if c.1 = 0 then some 0 else signed c.1) with
  | none =>
    rw [cast_none_bind, emit_of_none (by rw [casts, hmag]; rfl)]
  | some mag =>
    have hcasts : casts (.single c.1) = some [mag] := by
      rw [casts, hmag]
      rfl
    rw [cast_some_bind, emit_of_some hcasts, ite_sub, put_eq_take hout]

/-- The cast of the sum comes before the first value is read. -/
theorem indexBits_eq (code : ℕ) :
    indexBits code = if code ≤ 0x7FFF then pure (getMinBits code)
      else fun _ => .error (.fault .cast) := by
  unfold indexBits
  split
  next hne =>
    split
    next hle =>
      have hcast : int16 code = some (code : ℤ) := if_pos (by omega)
      rw [hcast, cast_some_bind, lzcnt_eq, pure_bind]
      exact congrArg pure (getMinBits_eq (by omega)).1
    next hlarge =>
      have hcast : int16 code = none := if_neg (by omega)
      rw [hcast, cast_none_bind]
  next hzero =>
    rw [not_not.1 hzero, if_pos (zero_le _), getMinBits, if_pos rfl]

theorem golombRiceRound3_eq (hout : out.length ≤ dstSize) (q : Params) :
    golombRiceRound .rlgr3 dstSize q out = readPairToken q >>= emit dstSize out := by
  unfold golombRiceRound readPairToken
  rw [bind_assoc]
  refine congrArg _ (funext fun c => ?_)
  dsimp only
  rw [indexBits_eq]
  split
  next hle =>
    rw [pure_bind, bind_assoc]
    refine congrArg _ (funext fun val1 => ?_)
    have hcast : int16 c.1 = some (c.1 : ℤ) := if_pos (by omega)
    rw [pure_bind]
    cases hmag1 : signed val1 with
    | none =>
      rw [cast_none_bind, emit_of_none (by rw [casts, hcast, hmag1]; rfl)]
    | some mag1 =>
      cases hmag2 : signed (sub32 c.1 val1) with
      | none =>
        rw [cast_some_bind, cast_none_bind, emit_of_none (by rw [casts, hcast, hmag1, hmag2]; rfl)]
      | some mag2 =>
        have hcasts : casts (.pair c.1 val1) = some [mag1, mag2] := by
          rw [casts, hcast, hmag1, hmag2]
          rfl
        rw [cast_some_bind, cast_some_bind, emit_of_some hcasts, ite_sub, put_eq_take hout,
          put_eq_take (length_take_le _), take_take_append, append_assoc]
        rfl
  next hlarge =>
    have hcast : int16 c.1 = none := if_neg (by omega)
    rw [pure_bind, emit_of_none (by rw [casts, hcast]; rfl)]
    rfl

/-- What a round reads. -/
def readToken (mode : RlgrMode) (q : Params) : BitReader (Token × Params) :=
  if q.kp >>> lsgr ≠ 0 then readRunToken q
  else
    match mode with
    | .rlgr1 => readSingleToken q
    | .rlgr3 => readPairToken q

theorem follows_readToken (mode : RlgrMode) (hq : q.Bounded) :
    Follows Reads (readToken mode q) (token mode q) := by
  unfold readToken token
  split
  next hk => exact follows_readRunToken hq hk
  next =>
    cases mode with
    | rlgr1 => exact follows_readSingleToken hq
    | rlgr3 => exact follows_readPairToken hq

/-- **A round reads a token and writes its coefficients.** -/
theorem round_eq (mode : RlgrMode) (hout : out.length ≤ dstSize) (q : Params) :
    (if q.kp >>> lsgr ≠ 0 then runLengthRound dstSize q out
      else golombRiceRound mode dstSize q out) = readToken mode q >>= emit dstSize out := by
  unfold readToken
  split
  · exact runLengthRound_eq hout q
  · cases mode with
    | rlgr1 => exact golombRiceRound1_eq hout q
    | rlgr3 => exact golombRiceRound3_eq hout q

/-! ## Runs -/

/-- **The loop writes the coefficients of the tokens**, until one does not fit. -/
theorem decodeLoop_eq (mode : RlgrMode) (fuel : ℕ) {bits : List Bool} (h : Reads bs bits)
    (hq : q.Bounded) (hout : out.length ≤ dstSize) (hfuel : bits.length ≤ fuel) :
    decodeLoop mode dstSize fuel q out bs =
      if ∀ tok ∈ tokensFrom mode fuel (dstSize - out.length) q bits, tok.Fits then
        .ok ((out ++ (tokensFrom mode fuel (dstSize - out.length) q bits).flatMap
          Token.values).take dstSize)
      else .error .cast := by
  -- without a token that is to come, what is written is the result
  have hdone : ∀ {out : List ℤ}, out.length ≤ dstSize →
      (if ∀ tok ∈ ([] : List Token), tok.Fits then
        Except.ok ((out ++ ([] : List Token).flatMap Token.values).take dstSize)
        else .error Fault.cast) = .ok out := by
    intro out hout
    rw [if_pos (forall_mem_nil _), flatMap_nil, append_nil, take_of_length_le hout]
  induction fuel generalizing bs bits q out with
  | zero =>
    have hempty := h.getRemainingLength_eq
    rw [decodeLoop, if_neg (by omega), tokensFrom]
    exact (hdone hout).symm
  | succ fuel ih =>
    rw [decodeLoop, tokensFrom]
    by_cases hroom : out.length < dstSize
    · rw [if_pos (by omega : 0 < dstSize - out.length)]
      have hfollows := follows_readToken mode hq
      cases htoken : token mode q bits with
      | none =>
        -- the stream ends with the tokens, or in the middle of one
        refine Eq.trans ?_ (hdone hout).symm
        by_cases hmore : bs.getRemainingLength > 0
        · rw [if_pos ⟨hmore, hroom⟩, round_eq mode hout, bind_error (hfollows.ends h htoken)]
        · rw [if_neg fun hgo => hmore hgo.1]
      | some r =>
        obtain ⟨⟨tok, q'⟩, rest⟩ := r
        have hshorter := shortens_token mode q htoken
        have hwords : tok.Words := yields_words mode q htoken
        have hq' : q'.Bounded := yields_token mode hq htoken
        obtain ⟨bs', hbs', hrest⟩ := hfollows.goes h htoken
        rw [if_pos ⟨by rw [h.getRemainingLength_eq]; omega, hroom⟩, round_eq mode hout,
          bind_ok hbs']
        dsimp only
        by_cases hfits : tok.Fits
        · have hcasts := casts_eq hwords
          rw [if_pos hfits] at hcasts
          have hroom' : dstSize - ((out ++ tok.values).take dstSize).length =
              dstSize - out.length - tok.count := by
            rw [length_take, length_append, tok.length_values]
            omega
          have hloop := ih hrest hq' (length_take_le (out ++ tok.values)) (by omega)
          rw [hroom', take_take_append, append_assoc] at hloop
          rw [emit_of_some hcasts]
          refine hloop.trans ?_
          simp only [forall_mem_cons, hfits, true_and, flatMap_cons]
        · have hcasts := casts_eq hwords
          rw [if_neg hfits] at hcasts
          rw [emit_of_none hcasts, if_neg fun hall => hfits (hall tok (mem_cons_self ..))]
    · rw [if_neg fun hgo => hroom hgo.2, if_neg (by omega : ¬0 < dstSize - out.length)]
      exact (hdone hout).symm

theorem start_bounded : Params.start.Bounded := ⟨by decide, by decide⟩

/-- The tokens of a source that the decoder comes to. -/
def sourceTokens (mode : ℕ) (src : List UInt8) (dstSize : ℕ) : List Token :=
  tokens (modeOf mode) dstSize (streamBits src)

/-- **What is decoded**: the coefficients of the tokens, cut off or filled up with zeros. -/
theorem decode_eq (mode : ℕ) {src : List UInt8} (hsrc : src ≠ []) {dstSize : ℕ}
    (hdst : dstSize ≠ 0) :
    decode mode src dstSize =
      if ∀ tok ∈ sourceTokens mode src dstSize, tok.Fits then
        let out := ((sourceTokens mode src dstSize).flatMap Token.values).take dstSize
        .ok (1, out ++ replicate (dstSize - out.length) 0)
      else .error .cast := by
  have hreads : Reads (WBitStream.attach src).fetch (streamBits src) := reads_attach src
  have hempty : ([] : List ℤ).length ≤ dstSize := zero_le _
  have hloop := decodeLoop_eq (modeOf mode) (streamBits src).length hreads start_bounded hempty
    (le_refl _)
  have hfuel : (WBitStream.attach src).fetch.getRemainingLength = (streamBits src).length :=
    hreads.getRemainingLength_eq
  have htokens : tokensFrom (modeOf mode) (streamBits src).length
      (dstSize - ([] : List ℤ).length) .start (streamBits src) =
      sourceTokens mode src dstSize := rfl
  rw [htokens, nil_append] at hloop
  unfold decode
  rw [if_neg hsrc, if_neg hdst]
  dsimp only
  rw [hfuel, hloop]
  split
  next hall =>
    generalize hvalues : ((sourceTokens mode src dstSize).flatMap Token.values).take dstSize = out
    have hle : out.length ≤ dstSize := hvalues ▸ length_take_le _
    have hfilled : (if out.length < dstSize then out ++ replicate (dstSize - out.length) 0
        else out) = out ++ replicate (dstSize - out.length) 0 := by
      split
      next => rfl
      next hge => rw [Nat.sub_eq_zero_of_le (by omega), replicate_zero, append_nil]
    have hlength : (out ++ replicate (dstSize - out.length) (0 : ℤ)).length = dstSize := by
      rw [length_append, length_replicate]
      omega
    show Except.ok _ = _
    simp only [hfilled, hlength, ne_eq, not_true_eq_false, if_false]
  next => rfl

/-- **The decoder is safe if and only if every token fits**; a cast is all that can fail. -/
theorem decode_safe_iff (mode : ℕ) (src : List UInt8) (hsrc : src ≠ []) (dstSize : ℕ) :
    (Safe mode src dstSize ↔ ∀ tok ∈ sourceTokens mode src dstSize, tok.Fits) ∧
      ∀ f, decode mode src dstSize = .error f → f = .cast := by
  by_cases hdst : dstSize = 0
  · have hdecode : decode mode src dstSize = .ok (-1, []) := by
      unfold decode
      rw [if_neg hsrc, if_pos hdst]
      rfl
    have htokens : sourceTokens mode src dstSize = [] := by
      unfold sourceTokens tokens
      rw [hdst]
      cases (streamBits src).length
      all_goals rfl
    rw [htokens]
    refine ⟨⟨fun _ => forall_mem_nil _, fun _ => ⟨-1, [], hdecode, hdst.symm⟩⟩,
      fun f hf => ?_⟩
    rw [hdecode] at hf
    nomatch hf
  · have hdecode := decode_eq mode hsrc hdst
    by_cases hall : ∀ tok ∈ sourceTokens mode src dstSize, tok.Fits
    · rw [if_pos hall] at hdecode
      refine ⟨⟨fun _ => hall, fun _ => ⟨_, _, hdecode, ?_⟩⟩, fun f hf => ?_⟩
      · rw [length_append, length_replicate]
        exact Nat.add_sub_cancel' (length_take_le _)
      · rw [hdecode] at hf
        nomatch hf
    · rw [if_neg hall] at hdecode
      refine ⟨⟨?_, fun h => absurd h hall⟩, fun f hf => ?_⟩
      · rintro ⟨ret, out, hok, -⟩
        rw [hdecode] at hok
        nomatch hok
      · rw [hdecode] at hf
        cases hf
        rfl

/-- Three tokens, and a run that the stream ends in. -/
theorem decode_safe_iff_byte : [0x80] ≠ ([] : List UInt8) ∧ Safe 0 [0x80] 64 :=
  ⟨by decide, (decode_safe_iff 0 [0x80] (by decide) 64).1.2 (by decide +kernel)⟩

/-- A pair whose first value is more than its sum by three. -/
theorem decode_unsafe : ¬Safe 1 [0x87, 0xB8] 4096 := by
  have hdecode : decode 1 [0x87, 0xB8] 4096 = .error .cast := by decide +kernel
  rintro ⟨ret, out, hok, -⟩
  rw [hdecode] at hok
  nomatch hok

end RlgrSafety
