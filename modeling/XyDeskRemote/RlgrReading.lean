/-
# Reading RLGR codes

What `rfx_rlgr_encode` puts out for a unit (a run of zeros with the coefficient behind it, a
coefficient, or a pair of them) is a code that `rfx_rlgr_decode` takes off the stream in a round.
-/
import XyDeskRemote.RfxRlgr

open MsbBits WBitStream Nat BitVec

namespace RfxRlgr

/-! ## Counting bits -/

/-- At least the zeros that are known. -/
theorem le_lzcnt {x : BitVec 32} {m : ℕ} (hm : m ≤ 32)
    (hzeros : ∀ i < m, x.getLsbD (31 - i) = false) : m ≤ lzcnt x := by
  by_cases hx : x = 0
  · rw [hx, lzcnt_zero]
    exact hm
  · have hne : x.toNat ≠ 0 := fun h => hx (eq_of_toNat_eq h)
    have hlt : x.toNat < 2 ^ (32 - m) := by
      refine lt_pow_two_of_testBit _ fun i hi => ?_
      rcases lt_or_ge i 32 with hi32 | hge
      · have hz := hzeros (31 - i) (by omega)
        rwa [Nat.sub_sub_self (Nat.le_of_lt_succ hi32)] at hz
      · exact getLsbD_of_ge x i hge
    have hlog : log2 x.toNat < 32 - m := (log2_lt hne).2 hlt
    rw [lzcnt_eq (by omega) (log2_self_le hne) lt_log2_self]
    omega

theorem lzcnt_le (x : BitVec 32) : lzcnt x ≤ 32 := by
  by_cases hx : x = 0
  · rw [hx, lzcnt_zero]
  · have hne : x.toNat ≠ 0 := fun h => hx (eq_of_toNat_eq h)
    have hlog : log2 x.toNat < 32 := (log2_lt hne).2 x.isLt
    rw [lzcnt_eq hlog (log2_self_le hne) lt_log2_self]
    omega

variable {bs : WBitStream} {b : Bool} {m : ℕ} {tail : List Bool}

theorem getLsbD_counted (word : BitVec 32) (b : Bool) {i : ℕ} (hi : i < 32) :
    (if b then ~~~word else word).getLsbD (31 - i) = (word.getLsbD (31 - i) != b) := by
  cases b
  · rw [if_neg Bool.false_ne_true, Bool.bne_false]
  · rw [if_pos rfl, getLsbD_not, decide_eq_true (by omega : 31 - i < 32), Bool.true_and,
      Bool.bne_true]

theorem Reads.getLsbD_run (h : Reads bs (List.replicate m b ++ tail)) {i : ℕ} (hi : i < 32)
    (him : i < m) : (if b then ~~~bs.accumulator else bs.accumulator).getLsbD (31 - i) = false := by
  have hlt : i < (List.replicate m b ++ tail).length := by
    rw [List.length_append, List.length_replicate]
    omega
  have hin : i < (List.replicate m b).length := by rwa [List.length_replicate]
  rw [getLsbD_counted _ _ hi, h.getLsbD_accumulator hi hlt, getD_append, if_pos hin,
    List.getD_eq_getElem _ _ hin, List.getElem_replicate]
  exact bne_self_eq_false b

theorem countWord_eq (h : Reads bs (List.replicate m b ++ tail))
    (hend : ∀ x ∈ tail.head?, x = !b) : countWord b bs = min 32 m := by
  rw [countWord, h.getRemainingLength_eq, List.length_append, List.length_replicate]
  rcases lt_or_ge m 32 with hm | hm
  · rw [min_eq_right hm.le]
    rcases tail with _ | ⟨x, tail⟩
    · -- the stream ends with the run
      have hle := le_lzcnt hm.le fun i him => Reads.getLsbD_run h (him.trans hm) him
      rw [List.length_nil, add_zero]
      exact min_eq_right hle
    · have hone : (if b then ~~~bs.accumulator else bs.accumulator).getLsbD (31 - m) = true := by
        have hlt : m < (List.replicate m b ++ x :: tail).length := by
          rw [List.length_append, List.length_replicate, List.length_cons]
          omega
        rw [getLsbD_counted _ _ hm, h.getLsbD_accumulator hm hlt, getD_append,
          List.length_replicate, if_neg (Nat.lt_irrefl m), Nat.sub_self, List.getD_cons_zero,
          hend x rfl]
        cases b
        · rfl
        · rfl
      rw [lzcnt_of_bits hm (fun i him => Reads.getLsbD_run h (him.trans hm) him) hone,
        List.length_cons]
      exact min_eq_left (by omega)
  · have hall := le_lzcnt (le_refl 32) fun i hi =>
      Reads.getLsbD_run h hi (hi.trans_le hm)
    have hle : lzcnt (if b then ~~~bs.accumulator else bs.accumulator) ≤ 32 := lzcnt_le _
    omega

/-- **The run is counted over all its words.** -/
theorem countLoop_eq {words : ℕ} (h : Reads bs (List.replicate m b ++ tail))
    (hend : ∀ x ∈ tail.head?, x = !b) (hwords : m / 32 ≤ words) :
    ∃ bs', countLoop b words bs = (bs', m) ∧ Reads bs' (List.replicate (m % 32) b ++ tail) := by
  induction words generalizing bs m with
  | zero =>
    have hm : m < 32 := by omega
    refine ⟨bs, ?_, ?_⟩
    · rw [countLoop, countWord_eq h hend, min_eq_right hm.le]
    · rwa [mod_eq_of_lt hm]
  | succ words ih =>
    rw [countLoop, countWord_eq h hend]
    rcases lt_or_ge m 32 with hm | hm
    · rw [min_eq_right hm.le, if_neg (by omega)]
      exact ⟨bs, rfl, by rwa [mod_eq_of_lt hm]⟩
    · have hsplit : List.replicate m b = List.replicate 32 b ++ List.replicate (m - 32) b := by
        rw [List.replicate_append_replicate, Nat.add_sub_cancel' hm]
      have hdrop : (List.replicate m b ++ tail).drop 32 =
          List.replicate (m - 32) b ++ tail := by
        rw [hsplit, List.append_assoc]
        exact List.drop_left' List.length_replicate
      have hnext : Reads bs.shift32 (List.replicate (m - 32) b ++ tail) := by
        rw [← hdrop]
        refine h.shift32 ?_
        rw [List.length_append, List.length_replicate]
        omega
      obtain ⟨bs', hbs', hreads⟩ := ih hnext (by omega)
      rw [min_eq_left hm, if_pos rfl, hbs']
      refine ⟨bs', ?_, ?_⟩
      · dsimp only
        rw [Nat.add_sub_cancel' hm]
      · rwa [← mod_eq_sub_mod hm] at hreads

theorem countRun_eq (h : Reads bs (List.replicate m b ++ tail))
    (hend : ∀ x ∈ tail.head?, x = !b) :
    ∃ bs', countRun b bs = (bs', m) ∧ Reads bs' (List.replicate (m % 32) b ++ tail) := by
  refine countLoop_eq h hend (Nat.div_le_div_right ?_)
  rw [h.getRemainingLength_eq, List.length_append, List.length_replicate]
  exact le_add_right _ _

/-! ## The parts of a code -/

theorem readRun_eq {bs bs' : WBitStream} {b : Bool} {vk : ℕ} (h : countRun b bs = (bs', vk)) :
    readRun b bs = if (bs'.shift (vk % 32)).getRemainingLength < 1 then none
      else some ((bs'.shift (vk % 32)).shift 1, vk) := by
  rw [readRun, h]

/-- A run, and the bit that ends it. -/
theorem takes_readRun (b : Bool) (m : ℕ) :
    Takes (readRun b) (List.replicate m b ++ [!b]) (fun bs => some (bs, m)) none := by
  have hlt : m % 32 < 32 := Nat.mod_lt _ (by decide)
  refine ⟨fun {bs more} h => ?_, fun {bs rest} h hstem hne => ?_⟩
  · rw [List.append_assoc] at h
    obtain ⟨bs', hcount, hreads⟩ := countRun_eq h fun x hx => (Option.some.inj hx).symm
    have hshifted : Reads (bs'.shift (m % 32)) ([!b] ++ more) := by
      have hdrop := hreads.shift hlt (by rw [List.length_append, List.length_replicate]; omega)
      rwa [List.drop_left' List.length_replicate] at hdrop
    have hlength := hshifted.getRemainingLength_eq
    rw [List.length_append, List.length_singleton] at hlength
    refine ⟨(bs'.shift (m % 32)).shift 1, ?_, hshifted.shift (n := 1) (by decide) ?_⟩
    · rw [readRun_eq hcount, if_neg (by omega)]
    · rw [List.length_append, List.length_singleton]
      omega
  · -- the stream ends in the run
    have hlength : rest.length ≤ m := by
      have hle := hstem.length_le
      rw [List.length_append, List.length_replicate, List.length_singleton] at hle
      refine Nat.le_of_lt_succ (lt_of_le_of_ne hle fun heq => hne ?_)
      refine hstem.eq_of_length ?_
      rw [heq, List.length_append, List.length_replicate, List.length_singleton]
    have hrest : rest = List.replicate rest.length b := by
      have hrun : rest <+: List.replicate m b :=
        List.prefix_of_prefix_length_le hstem (List.prefix_append _ _)
          (by rwa [List.length_replicate])
      exact (List.prefix_replicate_iff.1 hrun).2
    rw [hrest, ← List.append_nil (List.replicate _ b)] at h
    obtain ⟨bs', hcount, hreads⟩ := countRun_eq h fun x hx => absurd hx (by simp)
    rw [List.append_nil] at hreads
    have hshifted := hreads.shift (n := rest.length % 32) (Nat.mod_lt _ (by decide))
      (by rw [List.length_replicate])
    have hempty := hshifted.getRemainingLength_eq
    rw [List.length_drop, List.length_replicate, Nat.sub_self] at hempty
    rw [readRun_eq hcount, if_pos (by omega)]

/-- A number with a fixed number of bits. -/
theorem takes_readBits {n : ℕ} (hn : n < 32) (v : ℕ) :
    Takes (readBits n) (bitsOf n v) (fun bs => some (bs, v % 2 ^ n)) none := by
  refine ⟨fun {bs more} h => ?_, fun {bs rest} h hstem hne => ?_⟩
  · have hlength := h.getRemainingLength_eq
    rw [List.length_append, length_bitsOf] at hlength
    have hvalue : (if n > 0 then bs.peek n else 0) = v % 2 ^ n := by
      rcases Nat.eq_zero_or_pos n with rfl | hpos
      · rw [if_neg (Nat.lt_irrefl 0), pow_zero, mod_one]
      · rw [if_pos hpos, h.value hn.le (by rw [List.length_append, length_bitsOf]; omega),
          List.take_left' (length_bitsOf n v), valueOf_bitsOf]
    have hshifted := h.shift hn (by rw [List.length_append, length_bitsOf]; omega)
    rw [List.drop_left' (length_bitsOf n v)] at hshifted
    exact ⟨bs.shift n, by rw [readBits, if_neg (by omega), hvalue], hshifted⟩
  · have hlt : rest.length < n := by
      have hle := hstem.length_le
      rw [length_bitsOf] at hle
      refine lt_of_le_of_ne hle fun heq => hne (hstem.eq_of_length ?_)
      rw [heq, length_bitsOf]
    rw [readBits, h.getRemainingLength_eq, if_pos hlt]

/-! ## What is put out -/

/-- The bits of what is put out. -/
def outputBits (outputs : List Output) : List Bool :=
  outputs.flatMap fun output => bitsOf output.2 output.1

@[simp] theorem outputBits_nil : outputBits [] = [] := rfl

@[simp] theorem outputBits_append (xs ys : List Output) :
    outputBits (xs ++ ys) = outputBits xs ++ outputBits ys := List.flatMap_append

@[simp] theorem outputBits_singleton (output : Output) :
    outputBits [output] = bitsOf output.2 output.1 := List.append_nil _

@[simp] theorem outputBits_outputBit (count : ℕ) (bit : Bool) :
    outputBits (outputBit count bit) = List.replicate count bit := by
  have hword : ∀ n ≤ 16, bitsOf n (if bit then 0xFFFF else 0) = List.replicate n bit := by
    intro n hn
    cases bit
    · exact bitsOf_zero n
    · exact bitsOf_ones n hn
  have hwords : outputBits (List.replicate (count / 16) (if bit then 0xFFFF else 0, 16)) =
      List.replicate (count / 16 * 16) bit := by
    rw [outputBits, List.flatMap_replicate, hword 16 (le_refl 16), List.flatten_replicate_replicate]
  have hrest : outputBits (if count % 16 > 0 then [(if bit then 0xFFFF else 0, count % 16)]
      else []) = List.replicate (count % 16) bit := by
    split
    next => rw [outputBits_singleton, hword _ (Nat.mod_lt _ (by decide)).le]
    next hzero =>
      rw [Nat.eq_zero_of_not_pos hzero]
      rfl
  rw [outputBit, outputBits_append, hwords, hrest, List.replicate_append_replicate,
    Nat.mul_comm, div_add_mod]

/-- A Golomb-Rice code. -/
def codeBits (krp val : ℕ) : List Bool :=
  List.replicate (val >>> (krp >>> lsgr)) true ++ [!true] ++ bitsOf (krp >>> lsgr) val

theorem outputBits_codeGr (krp val : ℕ) : outputBits (codeGr krp val).1 = codeBits krp val := by
  have hrest : outputBits (if krp >>> lsgr ≠ 0 then
      [(val &&& (2 ^ (krp >>> lsgr) - 1), krp >>> lsgr)] else []) = bitsOf (krp >>> lsgr) val := by
    split
    next => rw [outputBits_singleton, and_two_pow_sub_one_eq_mod, bitsOf_mod]
    next hzero =>
      rw [not_not.1 hzero]
      rfl
  rw [codeGr, outputBits_append, hrest, outputBits_append, outputBits_outputBit,
    outputBits_outputBit]
  rfl

/-! ## The parameters -/

theorem updateParam_add (param n : ℕ) : updateParam param n = min kpmax (param + n) := by
  rw [updateParam, if_neg (by omega), Int.natAbs_natCast]

theorem updateParam_sub {param : ℕ} (hparam : param ≤ kpmax) (n : ℕ) :
    updateParam param (-n) = if param > n then param - n else 0 := by
  rw [updateParam, Int.natAbs_neg, Int.natAbs_natCast]
  rcases Nat.eq_zero_or_pos n with rfl | hn
  · rw [if_neg (by omega), add_zero, min_eq_right hparam]
    split
    · rfl
    · omega
  · rw [if_pos (by omega), min_eq_right ((sub_le _ _).trans hparam)]
    split
    · rfl
    · omega

theorem updateParam_le (param : ℕ) (deltaP : ℤ) : updateParam param deltaP ≤ kpmax :=
  min_le_left _ _

theorem codeGr_le {krp : ℕ} (hkrp : krp ≤ kpmax) (val : ℕ) : (codeGr krp val).2 ≤ kpmax := by
  rw [codeGr]
  dsimp only
  split
  · exact updateParam_le _ _
  · split
    · exact updateParam_le _ _
    · exact hkrp

theorem shiftRight_lsgr_lt {param : ℕ} (hparam : param ≤ kpmax) : param >>> lsgr < 32 := by
  have hle : param ≤ 80 := hparam
  rw [lsgr, shiftRight_eq_div_pow]
  omega

/-! ## Golomb-Rice codes -/

theorem nextKrp_eq {krp : ℕ} (hkrp : krp ≤ kpmax) {val : ℕ} (hval : val < 2 ^ 16) :
    nextKrp krp (val >>> (krp >>> lsgr)) = (codeGr krp val).2 := by
  have hsub := updateParam_sub hkrp 2
  have hvk : val >>> (krp >>> lsgr) < 2 ^ 16 := (shiftRight_le _ _).trans_lt hval
  have hmax : krp ≤ 80 := hkrp
  rw [codeGr]
  dsimp only
  rw [updateParam_add]
  generalize val >>> (krp >>> lsgr) = vk at hvk ⊢
  rw [nextKrp, mod_eq_of_lt (by omega : krp + vk < 2 ^ 32)]
  split
  next => exact hsub.symm
  next hpos =>
    split
    next hne => rw [if_pos (by omega)]
    next hone => rw [if_neg (by omega)]

/-- The two parts of a value. -/
theorem or_shiftLeft_shiftRight (val k : ℕ) : val % 2 ^ k ||| (val >>> k) <<< k = val := by
  have hlow : val % 2 ^ k < 2 ^ k := Nat.mod_lt _ (Nat.two_pow_pos _)
  rw [Nat.or_comm, Nat.shiftLeft_eq, Nat.mul_comm, ← Nat.two_pow_add_eq_or_of_lt hlow,
    shiftRight_eq_div_pow, div_add_mod]

/-- **A Golomb-Rice code is read back.** -/
theorem takes_readCode {krp val : ℕ} (hkrp : krp ≤ kpmax) (hval : val < 2 ^ 16) :
    Takes (fun bs => readCode bs krp) (codeBits krp val)
      (fun bs => some (bs, val, (codeGr krp val).2)) none := by
  have hk := shiftRight_lsgr_lt hkrp
  have hvalue : (val % 2 ^ (krp >>> lsgr) ||| (val >>> (krp >>> lsgr)) <<< (krp >>> lsgr)) %
      2 ^ 16 = val := by
    rw [or_shiftLeft_shiftRight, mod_eq_of_lt hval]
  have hbits := (takes_readBits hk val).bind (a := val % 2 ^ (krp >>> lsgr))
    (g := fun code =>
      some (code.1, (code.2 ||| (val >>> (krp >>> lsgr)) <<< (krp >>> lsgr)) % 2 ^ 16,
        nextKrp krp (val >>> (krp >>> lsgr)))) takes_nil
  dsimp only at hbits
  rw [hvalue, List.append_nil] at hbits
  rw [← nextKrp_eq hkrp hval]
  exact (takes_readRun true (val >>> (krp >>> lsgr))).bind hbits

/-! ## Signs -/

theorem get2MagSign_lt {x : ℤ} (hx : |x| < 8192) : get2MagSign x < 16384 := by
  rw [abs_lt] at hx
  rw [get2MagSign]
  split
  · omega
  · omega

theorem get2MagSign_eq_zero {x : ℤ} : get2MagSign x = 0 ↔ x = 0 := by
  rw [get2MagSign]
  split
  · omega
  · omega

theorem int16_eq {n : ℕ} (hn : n < 2 ^ 15) : int16 n = some (n : ℤ) := if_pos hn

/-- **A coefficient from its magnitude and its sign.** -/
theorem signed_get2MagSign {x : ℤ} (hx : |x| < 8192) : signed (get2MagSign x) = some x := by
  rw [abs_lt] at hx
  rw [signed, and_one_is_mod, get2MagSign, shiftRight_eq_div_pow, shiftRight_eq_div_pow, pow_one]
  split
  next hnonneg =>
    rw [if_neg (by omega), int16_eq (by omega)]
    exact congrArg some (by omega)
  next hneg =>
    have hmod : (2 * x.natAbs - 1 + 1) % 2 ^ 32 = 2 * x.natAbs := by omega
    rw [if_pos (by omega), hmod, int16_eq (by omega)]
    refine congrArg some ?_
    dsimp only
    omega

/-! ## The smallest number of bits -/

theorem lt_two_pow_getMinBits (v : ℕ) : v < 2 ^ getMinBits v := by
  induction v using Nat.strong_induction_on with
  | h v ih =>
    rw [getMinBits]
    split
    next hzero =>
      rw [hzero]
      exact one_pos
    next hpos =>
      have hhalf := ih (v >>> 1) (by rw [shiftRight_eq_div_pow]; omega)
      rw [shiftRight_eq_div_pow] at hhalf ⊢
      rw [pow_succ]
      omega

theorem two_pow_getMinBits_le {v : ℕ} (hv : v ≠ 0) : 2 ^ (getMinBits v - 1) ≤ v := by
  induction v using Nat.strong_induction_on with
  | h v ih =>
    rw [getMinBits, if_neg hv, Nat.add_sub_cancel]
    rcases lt_or_ge 1 v with hlarge | hone
    · have hhalf : v >>> 1 ≠ 0 := by
        rw [shiftRight_eq_div_pow]
        omega
      have hle := ih (v >>> 1) (by rw [shiftRight_eq_div_pow]; omega) hhalf
      have hpos : getMinBits (v >>> 1) ≠ 0 := by
        rw [getMinBits, if_neg hhalf]
        exact succ_ne_zero _
      obtain ⟨k, hk⟩ := exists_eq_succ_of_ne_zero hpos
      rw [hk, succ_sub_one, shiftRight_eq_div_pow, pow_one] at hle
      rw [hk, pow_succ]
      omega
    · have hv1 : v >>> 1 = 0 := by
        rw [shiftRight_eq_div_pow]
        omega
      rw [hv1, getMinBits, if_pos rfl, pow_zero]
      omega

/-- The decoder finds the same number of bits. -/
theorem getMinBits_eq {v : ℕ} (hv : v < 2 ^ 15) :
    32 - lzcnt (BitVec.ofNat 32 v) = getMinBits v ∧ getMinBits v < 32 := by
  have hvalue : (BitVec.ofNat 32 v).toNat = v := by
    rw [toNat_ofNat]
    exact mod_eq_of_lt (by omega)
  rcases Nat.eq_zero_or_pos v with rfl | hpos
  · rw [getMinBits, if_pos rfl]
    exact ⟨congrArg (32 - ·) lzcnt_zero, by decide⟩
  · have hlow := two_pow_getMinBits_le hpos.ne'
    have hhigh := lt_two_pow_getMinBits v
    have hbits : getMinBits v ≠ 0 := by
      rw [getMinBits, if_neg hpos.ne']
      exact succ_ne_zero _
    have hlt : getMinBits v - 1 < 15 :=
      (Nat.pow_lt_pow_iff_right (by decide : 1 < 2)).1 (hlow.trans_lt hv)
    have hcount : lzcnt (BitVec.ofNat 32 v) = 31 - (getMinBits v - 1) := by
      refine lzcnt_eq (by omega) (by rwa [hvalue]) ?_
      rwa [hvalue, Nat.sub_add_cancel (pos_of_ne_zero hbits)]
    omega

/-! ## Runs of zeros -/

/-- **The runs of a unit**: a bit for each, from which the decoder has the zeros and the
parameter. -/
theorem emitRuns_spec (numZeros : ℕ) {kp : ℕ} (hkp : kp ≤ kpmax) :
    ∃ v, outputBits (emitRuns numZeros kp).1 = List.replicate v false ∧
      (∀ run, addRuns v run kp =
        (run + (numZeros - (emitRuns numZeros kp).2.1), (emitRuns numZeros kp).2.2)) ∧
      (emitRuns numZeros kp).2.1 ≤ numZeros ∧
      (emitRuns numZeros kp).2.1 < 2 ^ ((emitRuns numZeros kp).2.2 >>> lsgr) ∧
      (emitRuns numZeros kp).2.2 ≤ kpmax := by
  induction numZeros using Nat.strong_induction_on generalizing kp with
  | h numZeros ih =>
    have hrunmax := Nat.two_pow_pos (kp >>> lsgr)
    rw [emitRuns]
    dsimp only
    split
    next hgo =>
      have hkp' : updateParam kp upGr ≤ kpmax := updateParam_le _ _
      obtain ⟨v, hbits, hadd, hle, hlt, hle'⟩ :=
        ih (numZeros - 2 ^ (kp >>> lsgr)) (by omega) hkp'
      refine ⟨v + 1, ?_, fun run => ?_, hle.trans (sub_le _ _), hlt, hle'⟩
      · rw [outputBits_append, hbits, outputBits_outputBit, List.replicate_append_replicate,
          add_comm]
      · rw [addRuns, ← updateParam_add, hadd]
        refine congrArg (·, _) ?_
        dsimp only
        omega
    next hstop =>
      have hlt : numZeros < 2 ^ (kp >>> lsgr) := by omega
      refine ⟨0, rfl, fun run => ?_, le_refl _, hlt, hkp⟩
      rw [addRuns, Nat.sub_self, add_zero]

/-! ## Rounds -/

variable {dstSize kp krp : ℕ} {out : List ℤ} {code code' : List Bool} {next : WBitStream → Decoder}

theorem takes_reading {α : Type} {read : WBitStream → Option (WBitStream × α)} {a : α}
    {f : WBitStream → α → Round} (hread : Takes read code (fun bs => some (bs, a)) none)
    (hf : Takes (fun bs => f bs a) code' (fun bs => .next (next bs)) .ends) :
    Takes (fun bs => reading (read bs) f) (code ++ code') (fun bs => .next (next bs)) .ends :=
  hread.andThen (g := fun x => reading x f) hf (fun _ => rfl) rfl

/-- An assertion that holds. -/
theorem takes_asserted {α : Type} {x : Option α} {a : α} {f : α → WBitStream → Round}
    (hx : x = some a) (hf : Takes (f a) code (fun bs => .next (next bs)) .ends) :
    Takes (fun bs => asserted x fun v => f v bs) code (fun bs => .next (next bs)) .ends := by
  subst hx
  exact hf

theorem signBit_eq (word : BitVec 32) :
    decide (word &&& 0x80000000 ≠ 0) = word.getLsbD 31 := by
  have htop : (0x80000000 : BitVec 32) = twoPow 32 31 := rfl
  rw [htop, and_twoPow]
  by_cases hbit : word.getLsbD 31 = true
  · rw [if_pos hbit, hbit]
    rfl
  · rw [if_neg hbit, Bool.eq_false_of_not_eq_true hbit]
    rfl

theorem takes_sign {b : Bool} {f : Bool → WBitStream → Round}
    (hf : Takes (f b) code (fun bs => .next (next bs)) .ends) :
    Takes (fun bs => if bs.getRemainingLength < 1 then .ends
        else f (decide (bs.accumulator &&& 0x80000000 ≠ 0)) (bs.shift 1))
      (b :: code) (fun bs => .next (next bs)) .ends := by
  have hfirst : ∀ {bs rest}, Reads bs (b :: rest) →
      (if bs.getRemainingLength < 1 then .ends
        else f (decide (bs.accumulator &&& 0x80000000 ≠ 0)) (bs.shift 1)) = f b (bs.shift 1) ∧
        Reads (bs.shift 1) rest := by
    intro bs rest h
    have hlength := h.getRemainingLength_eq
    rw [List.length_cons] at hlength
    have hbit := h.getLsbD_accumulator (i := 0) (by decide) (succ_pos _)
    rw [List.getD_cons_zero, Nat.sub_zero] at hbit
    refine ⟨?_, h.shift (n := 1) (by decide) (succ_pos _)⟩
    rw [if_neg (by omega), signBit_eq, hbit]
  refine ⟨fun h => ?_, fun {bs rest} h hstem hne => ?_⟩
  · obtain ⟨hround, hreads⟩ := hfirst h
    obtain ⟨bs', hbs', hmore⟩ := hf.whole hreads
    exact ⟨bs', hround.trans hbs', hmore⟩
  · rcases rest with _ | ⟨c, rest⟩
    · exact if_pos (by rw [h.getRemainingLength_eq]; exact one_pos)
    · obtain ⟨rfl, hrest⟩ := List.cons_prefix_cons.1 hstem
      obtain ⟨hround, hreads⟩ := hfirst h
      exact hround.trans (hf.short hreads hrest fun heq => hne (by rw [heq]))

/-- The code of a run of zeros and the coefficient behind it. -/
def runCode (kp krp numZeros : ℕ) (input : ℤ) : List Bool :=
  let runs := emitRuns numZeros kp
  outputBits runs.1 ++ [!false] ++ (bitsOf (runs.2.2 >>> lsgr) runs.2.1 ++
    (decide (input < 0) :: (codeBits krp (if input.natAbs ≠ 0 then input.natAbs - 1 else 0) ++ [])))

/-- **A round in run-length mode.**  A zero at the end is decoded as one. -/
theorem takes_runLengthRound (dstSize : ℕ) (out : List ℤ) (hkp : kp ≤ kpmax)
    (hkrp : krp ≤ kpmax) (numZeros : ℕ) {input : ℤ} (hinput : |input| < 8192) :
    Takes (runLengthRound dstSize kp krp out) (runCode kp krp numZeros input)
      (fun bs => .next
        { bs
          kp := updateParam (emitRuns numZeros kp).2.2 (-dnGr)
          krp := (codeGr krp (if input.natAbs ≠ 0 then input.natAbs - 1 else 0)).2
          out := put dstSize (out ++ List.replicate (min numZeros (dstSize - out.length)) 0)
            (if input = 0 then 1 else input) }) .ends := by
  obtain ⟨v, hbits, hadd, hle, hlt, hkp'⟩ := emitRuns_spec numZeros hkp
  have hk := shiftRight_lsgr_lt hkp'
  rw [abs_lt] at hinput
  have hval : (if input.natAbs ≠ 0 then input.natAbs - 1 else 0) < 8192 := by
    split
    · omega
    · decide
  have hmag : (if decide (input < 0) = true then
      -(((if input.natAbs ≠ 0 then input.natAbs - 1 else 0) + 1 : ℕ) : ℤ)
      else (((if input.natAbs ≠ 0 then input.natAbs - 1 else 0) + 1 : ℕ) : ℤ)) =
      if input = 0 then 1 else input := by
    simp only [decide_eq_true_eq]
    split_ifs
    all_goals omega
  rw [runCode, hbits, updateParam_sub hkp']
  unfold runLengthRound
  refine takes_reading (takes_readRun false v) ?_
  simp only [hadd, zero_add]
  have hrem := takes_readBits hk (emitRuns numZeros kp).2.1
  rw [mod_eq_of_lt hlt] at hrem
  refine takes_reading hrem ?_
  rw [Nat.sub_add_cancel hle]
  refine takes_sign (f := fun sign bs => reading (readCode bs krp) fun bs code =>
    asserted (int16 (code.1 + 1)) fun mag => .next
      { bs
        kp := if (emitRuns numZeros kp).2.2 > dnGr then (emitRuns numZeros kp).2.2 - dnGr
          else 0
        krp := code.2
        out := put dstSize (out ++ List.replicate (min numZeros (dstSize - out.length)) 0)
          (if sign then -mag else mag) }) ?_
  refine takes_reading (takes_readCode hkrp (hval.trans (by decide))) ?_
  rw [int16_eq (by omega), ← hmag]
  exact takes_nil

/-- The code of a coefficient. -/
def singleCode (krp : ℕ) (input : ℤ) : List Bool := codeBits krp (get2MagSign input) ++ []

/-- **A round for one coefficient.** -/
theorem takes_golombRiceRound1 (dstSize : ℕ) (out : List ℤ) (hkp : kp ≤ kpmax)
    (hkrp : krp ≤ kpmax) {input : ℤ} (hinput : |input| < 8192) :
    Takes (golombRiceRound .rlgr1 dstSize kp krp out) (singleCode krp input)
      (fun bs => .next
        { bs
          kp := if get2MagSign input ≠ 0 then updateParam kp (-dqGr) else updateParam kp uqGr
          krp := (codeGr krp (get2MagSign input)).2
          out := put dstSize out input }) .ends := by
  have hlt := get2MagSign_lt hinput
  have hmag : (if get2MagSign input = 0 then some 0 else signed (get2MagSign input)) =
      some input := by
    split
    next hzero => rw [get2MagSign_eq_zero.1 hzero]
    next => exact signed_get2MagSign hinput
  rw [singleCode, updateParam_sub hkp, updateParam_add]
  unfold golombRiceRound
  dsimp only
  have hread := takes_readCode hkrp (hlt.trans (by decide : 16384 < 2 ^ 16))
  refine takes_reading hread ?_
  simp only [hmag, ite_not]
  exact takes_nil

/-- The code of a pair of coefficients. -/
def pairCode (krp : ℕ) (input1 input2 : ℤ) : List Bool :=
  let sum2Ms := get2MagSign input1 + get2MagSign input2
  codeBits krp sum2Ms ++ (bitsOf (getMinBits sum2Ms) (get2MagSign input1) ++ [])

/-- **A round for a pair.** -/
theorem takes_golombRiceRound3 (dstSize : ℕ) (out : List ℤ) (hkp : kp ≤ kpmax)
    (hkrp : krp ≤ kpmax) {input1 input2 : ℤ} (hinput1 : |input1| < 8192)
    (hinput2 : |input2| < 8192) :
    Takes (golombRiceRound .rlgr3 dstSize kp krp out)
      (pairCode krp input1 input2)
      (fun bs => .next
        { bs
          kp := if get2MagSign input1 ≠ 0 ∧ get2MagSign input2 ≠ 0 then
              updateParam kp (-(2 * dqGr : ℕ))
            else if get2MagSign input1 = 0 ∧ get2MagSign input2 = 0 then
              updateParam kp (2 * uqGr : ℕ)
            else kp
          krp := (codeGr krp (get2MagSign input1 + get2MagSign input2)).2
          out := put dstSize (put dstSize out input1) input2 }) .ends := by
  have hlt1 := get2MagSign_lt hinput1
  have hlt2 := get2MagSign_lt hinput2
  have hmag1 := signed_get2MagSign hinput1
  have hmag2 := signed_get2MagSign hinput2
  rw [pairCode, updateParam_sub hkp, updateParam_add]
  unfold golombRiceRound
  dsimp only
  generalize get2MagSign input1 = twoMs1 at hlt1 hmag1 ⊢
  generalize get2MagSign input2 = twoMs2 at hlt2 hmag2 ⊢
  have hsum : twoMs1 + twoMs2 < 2 ^ 15 := by omega
  obtain ⟨hbits, hbitsLt⟩ := getMinBits_eq hsum
  have hval1 : twoMs1 % 2 ^ getMinBits (twoMs1 + twoMs2) = twoMs1 :=
    mod_eq_of_lt ((le_add_right _ _).trans_lt (lt_two_pow_getMinBits _))
  have hval2 : sub32 (twoMs1 + twoMs2) twoMs1 = twoMs2 := by
    rw [sub32]
    omega
  have hcode := takes_readCode hkrp (hsum.trans (by decide))
  refine takes_reading hcode ?_
  dsimp only
  rw [hbits]
  refine takes_asserted (int16_eq hsum) ?_
  have hread := takes_readBits hbitsLt twoMs1
  rw [hval1] at hread
  refine takes_reading hread ?_
  rw [hmag1, hval2, hmag2]
  exact takes_nil

end RfxRlgr
