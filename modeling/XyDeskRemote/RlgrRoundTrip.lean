/-
# RLGR round trip

`rfx_rlgr_encode` takes the data apart into units, and `rfx_rlgr_decode` has one unit back in
each round (`encodeLoop_step`).  Two things go wrong.

* A run of zeros that goes to the end of the data ends in a zero that is not counted.  It is coded
  as a coefficient of magnitude `1`, for want of a smaller one.
* The decoder counts bits in 32 bits, and has only a part of a longer code.

`rlgr_roundTrip` says that nothing else does.
-/
import XyDeskRemote.RlgrReading

open MsbBits WBitStream RfxBitstream List Option Nat

namespace RfxRlgr

/-- The data ends in a zero that is coded in run-length mode. -/
def endsInRun (mode : RlgrMode) (kp : ℕ) : List ℤ → Bool
  | [] => false
  | first :: rest =>
    if kp >>> lsgr ≠ 0 then
      let collected := collectZeros (first :: rest)
      if collected.2.1 = 0 then true
      else
        endsInRun mode (updateParam (emitRuns collected.1 kp).2.2 (-dnGr)) collected.2.2
    else
      match mode with
      | .rlgr1 =>
        endsInRun mode (if first ≠ 0 then updateParam kp (-dqGr) else updateParam kp uqGr) rest
      | .rlgr3 =>
        endsInRun mode
          (if first ≠ 0 ∧ rest.headD 0 ≠ 0 then updateParam kp (-(2 * dqGr : ℕ))
            else if first = 0 ∧ rest.headD 0 = 0 then updateParam kp (2 * uqGr : ℕ)
            else kp) rest.tail
termination_by data => data.length
decreasing_by
  · have hle := length_collectZeros_le (first :: rest)
    rw [length_cons] at hle ⊢
    omega
  · exact lt_succ_self _
  · rw [length_tail, length_cons]
    omega

/-- What the decoder has of the data. -/
def decoded (mode : RlgrMode) (kp : ℕ) (data : List ℤ) : List ℤ :=
  if endsInRun mode kp data then data.dropLast ++ [1] else data

/-- The bits of the data's code. -/
def codeOf (mode : RlgrMode) (kp krp : ℕ) (data : List ℤ) : List Bool :=
  outputBits (encodeLoop mode kp krp data)

/-! ## One unit -/

variable {mode : RlgrMode} {kp krp dstSize : ℕ} {data out : List ℤ}

/-- The zeros, and the input behind them. -/
theorem collectZeros_spec (hne : data ≠ []) :
    data = replicate (collectZeros data).1 0 ++
        (collectZeros data).2.1 :: (collectZeros data).2.2 ∧
      ((collectZeros data).2.1 = 0 → (collectZeros data).2.2 = []) := by
  induction data with
  | nil => exact absurd rfl hne
  | cons input data ih =>
    rw [collectZeros]
    split
    next hmore =>
      obtain ⟨hdata, hend⟩ := ih hmore.2
      refine ⟨?_, hend⟩
      dsimp only
      rw [replicate_succ, cons_append, ← hdata, hmore.1]
    next hlast =>
      refine ⟨rfl, fun hzero => ?_⟩
      by_contra hdata
      exact hlast ⟨hzero, hdata⟩

theorem eq_append_zero_of_endsInRun (h : endsInRun mode kp data = true) :
    ∃ front, data = front ++ [0] := by
  induction hn : data.length using Nat.strong_induction_on generalizing data kp with
  | h n ih =>
    rw [endsInRun.eq_def] at h
    rcases data with _ | ⟨first, rest⟩
    · exact absurd h Bool.false_ne_true
    -- the zero is behind what comes first
    have hbehind : ∀ front back : List ℤ, first :: rest = front ++ back →
        (∃ front', back = front' ++ [0]) → ∃ front', first :: rest = front' ++ [0] := by
      rintro front _ hsplit ⟨front', rfl⟩
      exact ⟨front ++ front', by rw [hsplit, append_assoc]⟩
    rw [length_cons] at hn
    dsimp only at h
    split at h
    next =>
      obtain ⟨hdata, hend⟩ := collectZeros_spec (cons_ne_nil first rest)
      have hle := length_collectZeros_le (first :: rest)
      rw [length_cons] at hle
      split at h
      next hzero =>
        rw [hend hzero, hzero] at hdata
        exact ⟨_, hdata⟩
      next =>
        refine hbehind (replicate (collectZeros (first :: rest)).1 0 ++
          [(collectZeros (first :: rest)).2.1]) _ ?_ (ih _ (by omega) h rfl)
        rwa [append_assoc]
    next =>
      cases mode
      · exact hbehind [first] rest rfl (ih rest.length (by omega) h rfl)
      · refine hbehind (first :: rest.take 1) rest.tail ?_ (ih rest.tail.length ?_ h rfl)
        · rw [cons_append, ← drop_one, take_append_drop]
        · rw [length_tail]
          omega

/-- A unit of the data: its code, and what a round makes of it. -/
structure Unit (mode : RlgrMode) (dstSize kp krp : ℕ) (data out : List ℤ) (code : List Bool)
    (kp' krp' : ℕ) (front rest shown : List ℤ) : Prop where
  code_eq : codeOf mode kp krp data = code ++ codeOf mode kp' krp' rest
  code_ne : code ≠ []
  kp_le : kp' ≤ kpmax
  krp_le : krp' ≤ kpmax
  data_eq : data = front ++ rest
  front_ne : front ≠ []
  takes : Takes (if kp >>> lsgr ≠ 0 then runLengthRound dstSize kp krp out
      else golombRiceRound mode dstSize kp krp out) code
    (fun bs => .next { bs, kp := kp', krp := krp', out := out ++ shown }) .ends
  shown_eq : shown = front ∧ endsInRun mode kp data = endsInRun mode kp' rest ∨
    shown = front.dropLast ++ [1] ∧ rest = [] ∧ endsInRun mode kp data = true

/-- There is room for a coefficient of the data. -/
theorem put_eq {mag : ℤ} (h : out.length < dstSize) : put dstSize out mag = out ++ [mag] :=
  if_pos h

theorem codeBits_ne (krp val : ℕ) : codeBits krp val ≠ [] := by
  rw [codeBits, append_assoc]
  exact append_ne_nil_of_right_ne_nil _ (cons_ne_nil _ _)

theorem codeOf_runLength (mode : RlgrMode) (krp : ℕ) (hk : kp >>> lsgr ≠ 0) (hne : data ≠ []) :
    codeOf mode kp krp data =
      runCode kp krp (collectZeros data).1 (collectZeros data).2.1 ++
        codeOf mode (updateParam (emitRuns (collectZeros data).1 kp).2.2 (-dnGr))
          (codeGr krp (if (collectZeros data).2.1.natAbs ≠ 0 then
            (collectZeros data).2.1.natAbs - 1 else 0)).2 (collectZeros data).2.2 := by
  obtain ⟨first, tail, rfl⟩ := exists_cons_of_ne_nil hne
  rw [codeOf, encodeLoop.eq_def]
  dsimp only
  rw [if_pos hk]
  rw [outputBits_append, outputBits_append, outputBits_append, outputBits_append,
    outputBits_append, outputBits_singleton, outputBits_outputBit, outputBits_outputBit,
    outputBits_codeGr, runCode]
  simp only [codeOf, append_assoc, append_nil, replicate_one, Bool.not_false,
    cons_append, nil_append]

theorem codeOf_single (krp : ℕ) (hk : kp >>> lsgr = 0) (first : ℤ) (rest : List ℤ) :
    codeOf .rlgr1 kp krp (first :: rest) = singleCode krp first ++
      codeOf .rlgr1
        (if get2MagSign first ≠ 0 then updateParam kp (-dqGr) else updateParam kp uqGr)
        (codeGr krp (get2MagSign first)).2 rest := by
  rw [codeOf, encodeLoop.eq_def]
  dsimp only
  rw [if_neg (not_not.2 hk), outputBits_append, outputBits_codeGr, singleCode, append_nil]
  rfl

theorem codeOf_pair (krp : ℕ) (hk : kp >>> lsgr = 0) (first : ℤ) (rest : List ℤ) :
    codeOf .rlgr3 kp krp (first :: rest) = pairCode krp first (rest.headD 0) ++
      codeOf .rlgr3
        (if get2MagSign first ≠ 0 ∧ get2MagSign (rest.headD 0) ≠ 0 then
            updateParam kp (-(2 * dqGr : ℕ))
          else if get2MagSign first = 0 ∧ get2MagSign (rest.headD 0) = 0 then
            updateParam kp (2 * uqGr : ℕ)
          else kp)
        (codeGr krp (get2MagSign first + get2MagSign (rest.headD 0))).2 rest.tail := by
  rw [codeOf, encodeLoop.eq_def]
  dsimp only
  rw [if_neg (not_not.2 hk), outputBits_append, outputBits_append, outputBits_codeGr,
    outputBits_singleton, pairCode, append_nil]
  rfl

theorem runLength_unit (hkp : kp ≤ kpmax) (hkrp : krp ≤ kpmax) (hk : kp >>> lsgr ≠ 0)
    (hne : data ≠ []) (hsmall : ∀ x ∈ data, |x| < 8192)
    (hroom : out.length + data.length = dstSize) :
    ∃ code kp' krp' front rest shown,
      Unit mode dstSize kp krp data out code kp' krp' front rest shown := by
  obtain ⟨hdata, hend⟩ := collectZeros_spec hne
  have hcode := codeOf_runLength mode krp hk hne
  have hendsInRun : endsInRun mode kp data = (decide ((collectZeros data).2.1 = 0) ||
      endsInRun mode (updateParam (emitRuns (collectZeros data).1 kp).2.2 (-dnGr))
        (collectZeros data).2.2) := by
    obtain ⟨first, tail, rfl⟩ := exists_cons_of_ne_nil hne
    rw [endsInRun.eq_def]
    dsimp only
    rw [if_pos hk]
    split
    next hzero => rw [decide_eq_true hzero, Bool.true_or]
    next hnonzero => rw [decide_eq_false hnonzero, Bool.false_or]
  generalize collectZeros data = collected at hdata hend hcode hendsInRun
  obtain ⟨numZeros, input, rest⟩ := collected
  dsimp only at hdata hend hcode hendsInRun
  have hlength : out.length + (numZeros + (rest.length + 1)) = dstSize := by
    rw [← hroom, hdata, length_append, length_replicate, length_cons]
  have hinput : |input| < 8192 := hsmall input (by rw [hdata]; simp)
  have hput : put dstSize (out ++ replicate (min numZeros (dstSize - out.length)) 0)
      (if input = 0 then 1 else input) =
      out ++ (replicate numZeros 0 ++ [if input = 0 then 1 else input]) := by
    rw [min_eq_left (by omega), put_eq, append_assoc]
    rw [length_append, length_replicate]
    omega
  have htakes := takes_runLengthRound dstSize out hkp hkrp numZeros hinput
  rw [hput] at htakes
  refine ⟨_, _, _, replicate numZeros 0 ++ [input], rest, _, hcode, ?_, updateParam_le _ _,
    codeGr_le hkrp _, ?_, ?_, by rw [if_pos hk]; exact htakes, ?_⟩
  · rw [runCode]
    simp
  · rw [hdata, append_assoc]
    rfl
  · simp
  · by_cases hzero : input = 0
    · refine Or.inr ⟨?_, hend hzero, ?_⟩
      · rw [if_pos hzero, dropLast_concat]
      · rw [hendsInRun, decide_eq_true hzero, Bool.true_or]
    · refine Or.inl ⟨?_, ?_⟩
      · rw [if_neg hzero]
      · rw [hendsInRun, decide_eq_false hzero, Bool.false_or]

theorem single_unit (hkp : kp ≤ kpmax) (hkrp : krp ≤ kpmax) (hk : kp >>> lsgr = 0)
    (hne : data ≠ []) (hsmall : ∀ x ∈ data, |x| < 8192)
    (hroom : out.length + data.length = dstSize) :
    ∃ code kp' krp' front rest shown,
      Unit .rlgr1 dstSize kp krp data out code kp' krp' front rest shown := by
  obtain ⟨first, rest, rfl⟩ := exists_cons_of_ne_nil hne
  have hput : put dstSize out first = out ++ [first] := by
    refine put_eq ?_
    rw [← hroom, length_cons]
    omega
  have htakes := takes_golombRiceRound1 dstSize out hkp hkrp
    (hsmall first mem_cons_self)
  rw [hput] at htakes
  refine ⟨singleCode krp first, _, _, [first], rest, [first], codeOf_single krp hk first rest, ?_,
    ?_, codeGr_le hkrp _, rfl, cons_ne_nil _ _, by rw [if_neg (not_not.2 hk)]; exact htakes,
    Or.inl ⟨rfl, ?_⟩⟩
  · rw [singleCode, append_nil]
    exact codeBits_ne _ _
  · split
    · exact updateParam_le _ _
    · exact updateParam_le _ _
  · rw [endsInRun.eq_def]
    dsimp only
    simp only [if_neg (not_not.2 hk), ne_eq, get2MagSign_eq_zero]

theorem pair_unit (hkp : kp ≤ kpmax) (hkrp : krp ≤ kpmax) (hk : kp >>> lsgr = 0)
    (hne : data ≠ []) (hsmall : ∀ x ∈ data, |x| < 8192)
    (hroom : out.length + data.length = dstSize) :
    ∃ code kp' krp' front rest shown,
      Unit .rlgr3 dstSize kp krp data out code kp' krp' front rest shown := by
  obtain ⟨first, rest, rfl⟩ := exists_cons_of_ne_nil hne
  have hsecond : |rest.headD 0| < 8192 := by
    rcases rest with _ | ⟨second, rest⟩
    · exact (abs_zero (α := ℤ)).trans_lt (by decide)
    · exact hsmall second (by simp)
  have hfirst : put dstSize out first = out ++ [first] := by
    refine put_eq ?_
    rw [← hroom, length_cons]
    omega
  have hput : put dstSize (put dstSize out first) (rest.headD 0) = out ++ first :: rest.take 1 := by
    rw [hfirst]
    rw [length_cons] at hroom
    rcases rest with _ | ⟨second, rest⟩
    · -- the second of the pair has no room
      refine if_neg ?_
      rw [← hroom, length_append, length_singleton, length_nil]
      exact lt_irrefl _
    · rw [length_cons] at hroom
      rw [put_eq, append_assoc]
      · rfl
      · rw [length_append, length_singleton]
        omega
  have htakes := takes_golombRiceRound3 dstSize out hkp hkrp
    (hsmall first mem_cons_self) hsecond
  rw [hput] at htakes
  refine ⟨pairCode krp first (rest.headD 0), _, _, first :: rest.take 1, rest.tail,
    first :: rest.take 1, codeOf_pair krp hk first rest, ?_, ?_, codeGr_le hkrp _, ?_,
    cons_ne_nil _ _, by rw [if_neg (not_not.2 hk)]; exact htakes, Or.inl ⟨rfl, ?_⟩⟩
  · rw [pairCode]
    exact append_ne_nil_of_left_ne_nil (codeBits_ne _ _) _
  · split
    · exact updateParam_le _ _
    · split
      · exact updateParam_le _ _
      · exact hkp
  · rw [cons_append, ← drop_one, take_append_drop]
  · rw [endsInRun.eq_def]
    dsimp only
    simp only [if_neg (not_not.2 hk), ne_eq, get2MagSign_eq_zero]

/-- **A unit of any kind.** -/
theorem exists_unit (mode : RlgrMode) (hkp : kp ≤ kpmax) (hkrp : krp ≤ kpmax) (hne : data ≠ [])
    (hsmall : ∀ x ∈ data, |x| < 8192) (hroom : out.length + data.length = dstSize) :
    ∃ code kp' krp' front rest shown,
      Unit mode dstSize kp krp data out code kp' krp' front rest shown := by
  by_cases hk : kp >>> lsgr = 0
  · cases mode
    · exact single_unit hkp hkrp hk hne hsmall hroom
    · exact pair_unit hkp hkrp hk hne hsmall hroom
  · exact runLength_unit hkp hkrp hk hne hsmall hroom

/-! ## Runs of the decoder -/

variable {code front rest shown : List _} {kp' krp' fuel : ℕ} {bs : WBitStream}
  {more stream : List Bool}

theorem decodeLoop_next {d : Decoder} (hlength : 0 < bs.getRemainingLength)
    (hout : out.length < dstSize)
    (hround : (if kp >>> lsgr ≠ 0 then runLengthRound dstSize kp krp out
      else golombRiceRound mode dstSize kp krp out) bs = .next d) :
    decodeLoop mode dstSize (fuel + 1) { bs, kp, krp, out } = decodeLoop mode dstSize fuel d := by
  rw [ite_apply] at hround
  rw [decodeLoop]
  dsimp only
  rw [if_pos ⟨hlength, hout⟩, hround]

theorem decodeLoop_ends
    (hround : (if kp >>> lsgr ≠ 0 then runLengthRound dstSize kp krp out
      else golombRiceRound mode dstSize kp krp out) bs = .ends) :
    decodeLoop mode dstSize (fuel + 1) { bs, kp, krp, out } = some out := by
  rw [ite_apply] at hround
  rw [decodeLoop]
  dsimp only
  rw [hround]
  exact ite_self _

theorem decodeLoop_stop {d : Decoder}
    (h : ¬ (0 < d.bs.getRemainingLength ∧ d.out.length < dstSize)) :
    decodeLoop mode dstSize fuel d = some d.out := by
  rw [decodeLoop.eq_def]
  exact if_neg h

/-- **A code that is whole is decoded to its end.** -/
theorem decodeLoop_whole (hkp : kp ≤ kpmax) (hkrp : krp ≤ kpmax)
    (hsmall : ∀ x ∈ data, |x| < 8192) (hroom : out.length + data.length = dstSize)
    (hreads : Reads bs (codeOf mode kp krp data ++ more))
    (hfuel : (codeOf mode kp krp data).length ≤ fuel) :
    decodeLoop mode dstSize fuel { bs, kp, krp, out } = some (out ++ decoded mode kp data) := by
  induction hn : data.length using Nat.strong_induction_on
    generalizing data kp krp out bs fuel with
  | h n ih =>
    by_cases hne : data = []
    · have hfull : ¬ out.length < dstSize := by
        rw [← hroom, hne, length_nil]
        exact lt_irrefl _
      rw [decodeLoop_stop fun h => hfull h.2, decoded, hne, endsInRun, if_neg Bool.false_ne_true,
        append_nil]
    · obtain ⟨code, kp', krp', front, rest, shown, hunit⟩ :=
        exists_unit mode hkp hkrp hne hsmall hroom
      have hcode : 0 < code.length := length_pos_of_ne_nil hunit.code_ne
      have hfront : 0 < front.length := length_pos_of_ne_nil hunit.front_ne
      have hdata := congrArg List.length hunit.data_eq
      rw [length_append] at hdata
      rw [hunit.code_eq, length_append] at hfuel
      rw [hunit.code_eq, append_assoc] at hreads
      have hlength := hreads.getRemainingLength_eq
      rw [length_append] at hlength
      obtain ⟨bs', hround, hrest⟩ := hunit.takes.whole hreads
      obtain ⟨fuel, rfl⟩ : ∃ k, fuel = k + 1 := ⟨fuel - 1, by omega⟩
      rw [decodeLoop_next (by omega) (by omega) hround]
      rcases hunit.shown_eq with ⟨rfl, hruns⟩ | ⟨rfl, rfl, hruns⟩
      · have hsmall' : ∀ x ∈ rest, |x| < 8192 := fun x hx =>
          hsmall x (by rw [hunit.data_eq]; exact mem_append_right _ hx)
        rw [ih rest.length (by omega) hunit.kp_le hunit.krp_le hsmall'
          (by rw [length_append]; omega) hrest (by omega) rfl, decoded, decoded, hruns,
          append_assoc]
        congr 2
        have hne' := hunit.front_ne
        rw [hunit.data_eq]
        split
        next hends =>
          have hrest_ne : rest ≠ [] := by
            rintro rfl
            rw [endsInRun] at hends
            exact Bool.false_ne_true hends
          rw [dropLast_append_of_ne_nil hrest_ne, append_assoc]
        next => rfl
      · -- the end of the data was coded as a run
        rw [decodeLoop_stop, decoded, hruns, if_pos rfl, hunit.data_eq, append_nil]
        have hshown : (front.dropLast ++ [1]).length = front.length := by
          rw [length_append, length_dropLast, length_singleton]
          omega
        rw [length_nil] at hdata
        rw [length_append, hshown]
        omega

/-- **A code of which only a part is there** is decoded up to a unit. -/
theorem decodeLoop_short (hkp : kp ≤ kpmax) (hkrp : krp ≤ kpmax)
    (hsmall : ∀ x ∈ data, |x| < 8192) (hroom : out.length + data.length = dstSize)
    (hreads : Reads bs stream) (hstem : stream <+: codeOf mode kp krp data)
    (hshort : stream ≠ codeOf mode kp krp data) (hfuel : stream.length < fuel) :
    ∃ front back kp' krp', data = front ++ back ∧ kp' ≤ kpmax ∧ krp' ≤ kpmax ∧
      (codeOf mode kp krp data).length ≤ stream.length + (codeOf mode kp' krp' back).length ∧
      decodeLoop mode dstSize fuel { bs, kp, krp, out } = some (out ++ front) := by
  induction hn : data.length using Nat.strong_induction_on
    generalizing data kp krp out bs fuel stream with
  | h n ih =>
    have hne : data ≠ [] := by
      rintro rfl
      refine hshort ?_
      rw [codeOf, encodeLoop] at hstem ⊢
      exact prefix_nil.1 hstem
    obtain ⟨code, kp', krp', front, rest, shown, hunit⟩ :=
      exists_unit mode hkp hkrp hne hsmall hroom
    have hcode : 0 < code.length := length_pos_of_ne_nil hunit.code_ne
    have hfront : 0 < front.length := length_pos_of_ne_nil hunit.front_ne
    have hdata := congrArg List.length hunit.data_eq
    rw [length_append] at hdata
    obtain ⟨fuel, rfl⟩ : ∃ k, fuel = k + 1 := ⟨fuel - 1, by omega⟩
    rw [hunit.code_eq] at hstem hshort
    rcases lt_or_ge stream.length code.length with hlt | hge
    · have hpart : stream <+: code :=
        prefix_of_prefix_length_le hstem (prefix_append _ _) hlt.le
      have hround := hunit.takes.short hreads hpart fun heq => hlt.ne (congrArg List.length heq)
      refine ⟨[], data, kp, krp, rfl, hkp, hkrp, le_add_left _ _, ?_⟩
      rw [decodeLoop_ends hround, append_nil]
    · obtain ⟨stream', rfl⟩ :=
        prefix_of_prefix_length_le (prefix_append code _) hstem hge
      have hstem' := (prefix_append_right_inj code).1 hstem
      have hshort' : stream' ≠ codeOf mode kp' krp' rest := fun heq => hshort (by rw [heq])
      have hlength := hreads.getRemainingLength_eq
      rw [length_append] at hlength hfuel
      obtain ⟨bs', hround, hrest⟩ := hunit.takes.whole hreads
      rcases hunit.shown_eq with ⟨rfl, -⟩ | ⟨-, rfl, -⟩
      · have hsmall' : ∀ x ∈ rest, |x| < 8192 := fun x hx =>
          hsmall x (by rw [hunit.data_eq]; exact mem_append_right _ hx)
        have hroom' : (out ++ shown).length + rest.length = dstSize := by
          rw [length_append]
          omega
        have hfuel' : stream'.length < fuel := by omega
        obtain ⟨front', back, kp'', krp'', hdata', hkp'', hkrp'', hle, hloop⟩ :=
          ih rest.length (by omega) hunit.kp_le hunit.krp_le hsmall' hroom' hrest hstem' hshort'
            hfuel' rfl
        refine ⟨shown ++ front', back, kp'', krp'', ?_, hkp'', hkrp'', ?_, ?_⟩
        · rw [hunit.data_eq, append_assoc, ← hdata']
        · rw [hunit.code_eq, length_append, length_append]
          omega
        · rw [decodeLoop_next (by omega) (by omega) hround, hloop, append_assoc]
      · -- nothing is missing behind the last unit
        refine absurd ?_ hshort'
        rw [codeOf, encodeLoop] at hstem' ⊢
        exact prefix_nil.1 hstem'

/-! ## Zeros have a short code -/

theorem two_mul_length_emitRuns_le (numZeros : ℕ) (hk : kp >>> lsgr ≠ 0) :
    2 * (outputBits (emitRuns numZeros kp).1).length ≤ numZeros := by
  induction numZeros using Nat.strong_induction_on generalizing kp with
  | h numZeros ih =>
    have hrunmax : 2 ^ 1 ≤ 2 ^ (kp >>> lsgr) :=
      Nat.pow_le_pow_right Nat.two_pos (one_le_iff_ne_zero.2 hk)
    rw [emitRuns]
    dsimp only
    split
    next hgo =>
      have hk' : updateParam kp upGr >>> lsgr ≠ 0 := by
        rw [shiftRight_eq_div_pow, lsgr] at hk ⊢
        rw [updateParam_add, kpmax]
        omega
      have hle := ih (numZeros - 2 ^ (kp >>> lsgr)) (by omega) hk'
      rw [outputBits_append, outputBits_outputBit, length_append, length_replicate]
      omega
    next => exact zero_le _

theorem length_codeBits_zero_le (hkrp : krp ≤ kpmax) : (codeBits krp 0).length ≤ 11 := by
  have hle : krp ≤ 80 := hkrp
  rw [codeBits, length_append, length_append, length_replicate, length_bitsOf,
    length_singleton, zero_shiftRight, lsgr, shiftRight_eq_div_pow]
  omega

theorem length_runCode_zero_le (hkp : kp ≤ kpmax) (hkrp : krp ≤ kpmax) (hk : kp >>> lsgr ≠ 0)
    (numZeros : ℕ) : (runCode kp krp numZeros 0).length ≤ numZeros / 2 + 23 := by
  obtain ⟨-, -, -, -, -, hkp'⟩ := emitRuns_spec numZeros hkp
  have hruns := two_mul_length_emitRuns_le numZeros hk
  have hcode := length_codeBits_zero_le hkrp
  have hle : (emitRuns numZeros kp).2.2 ≤ 80 := hkp'
  have hbits : (emitRuns numZeros kp).2.2 >>> lsgr ≤ 10 := by
    rw [lsgr, shiftRight_eq_div_pow]
    omega
  simp only [runCode, length_append, length_cons, length_nil, length_bitsOf,
    Int.natAbs_zero, ne_eq, not_true_eq_false, if_false]
  omega

/-- **The code of zeros is short**: after a few of them they are coded in runs. -/
theorem length_codeOf_zeros_le (mode : RlgrMode) (hkp : kp ≤ kpmax) (hkrp : krp ≤ kpmax) (n : ℕ) :
    (codeOf mode kp krp (replicate n 0)).length ≤ n / 2 + 23 + 11 * (8 - kp) := by
  induction n using Nat.strong_induction_on generalizing kp krp with
  | h n ih =>
    rcases Nat.eq_zero_or_pos n with rfl | hn
    · rw [replicate_zero, codeOf, encodeLoop]
      exact zero_le _
    · by_cases hk : kp >>> lsgr = 0
      · obtain ⟨n, rfl⟩ : ∃ m, n = m + 1 := ⟨n - 1, by omega⟩
        have hlow : kp < 8 := by
          rw [lsgr, shiftRight_eq_div_pow] at hk
          omega
        have hcode := length_codeBits_zero_le hkrp
        have hzero : get2MagSign 0 = 0 := rfl
        rw [replicate_succ]
        cases mode
        · have hrest := ih n (lt_succ_self n) (updateParam_le kp uqGr) (codeGr_le hkrp 0)
          rw [codeOf_single krp hk, length_append, singleCode, append_nil, hzero,
            if_neg (not_not.2 rfl)]
          rw [updateParam_add, uqGr, kpmax] at hrest ⊢
          omega
        · have hhead : (replicate n (0 : ℤ)).headD 0 = 0 := by
            cases n
            · rfl
            · rfl
          have hbits : getMinBits 0 = 0 := by
            rw [getMinBits]
            exact if_pos rfl
          have hrest := ih (n - 1) (by omega) (updateParam_le kp (2 * uqGr : ℕ))
            (codeGr_le hkrp 0)
          rw [codeOf_pair krp hk, length_append, pairCode, hhead, hzero, tail_replicate,
            if_neg (by simp), if_pos ⟨rfl, rfl⟩, hbits]
          rw [updateParam_add, uqGr, kpmax] at hrest ⊢
          simp only [length_append, length_bitsOf, length_nil, add_zero] at hrest ⊢
          omega
      · -- the rest is a run
        have hne : replicate n (0 : ℤ) ≠ [] := by
          rw [ne_eq, replicate_eq_nil_iff]
          omega
        obtain ⟨hdata, hend⟩ := collectZeros_spec hne
        have hinput : (collectZeros (replicate n (0 : ℤ))).2.1 = 0 := by
          have hmem : (collectZeros (replicate n (0 : ℤ))).2.1 ∈
              replicate (collectZeros (replicate n (0 : ℤ))).1 0 ++
                (collectZeros (replicate n (0 : ℤ))).2.1 ::
                  (collectZeros (replicate n (0 : ℤ))).2.2 :=
            mem_append_right _ mem_cons_self
          rw [← hdata] at hmem
          exact eq_of_mem_replicate hmem
        have hcount := congrArg List.length hdata
        rw [length_append, length_replicate, length_replicate, hend hinput,
          length_singleton] at hcount
        have hrun := length_runCode_zero_le hkp hkrp hk
          (collectZeros (replicate n (0 : ℤ))).1
        rw [codeOf_runLength mode krp hk hne, hend hinput, hinput, length_append]
        have hnil : ∀ kp' krp', (codeOf mode kp' krp' []).length = 0 := by
          intro kp' krp'
          rw [codeOf, encodeLoop]
          rfl
        rw [hnil]
        omega

/-! ## Putting out -/

/-- The patterns have 16 bits. -/
def Fits (outputs : List Output) : Prop := ∀ output ∈ outputs, output.1 < 2 ^ 16

theorem Fits.append {xs ys : List Output} (hxs : Fits xs) (hys : Fits ys) : Fits (xs ++ ys) :=
  fun output h => (mem_append.1 h).elim (hxs output) (hys output)

theorem fits_singleton {output : Output} (h : output.1 < 2 ^ 16) : Fits [output] := by
  intro x hx
  rwa [mem_singleton.1 hx]

theorem fits_outputBit (count : ℕ) (bit : Bool) : Fits (outputBit count bit) := by
  have hpattern : (if bit then 0xFFFF else 0) < 2 ^ 16 := by
    cases bit
    · decide
    · decide
  refine Fits.append (fun output h => ?_) ?_
  · rw [eq_of_mem_replicate h]
    exact hpattern
  · split
    · exact fits_singleton hpattern
    · exact fun output h => absurd h not_mem_nil

theorem fits_codeGr (hkrp : krp ≤ kpmax) (val : ℕ) : Fits (codeGr krp val).1 := by
  refine ((fits_outputBit _ _).append (fits_outputBit _ _)).append ?_
  split
  · refine fits_singleton ?_
    have hle : krp ≤ 80 := hkrp
    have hk : krp >>> lsgr ≤ 16 := by
      rw [lsgr, shiftRight_eq_div_pow]
      omega
    rw [and_two_pow_sub_one_eq_mod]
    exact (Nat.mod_lt _ (Nat.two_pow_pos _)).trans_le (Nat.pow_le_pow_right Nat.two_pos hk)
  · exact fun output h => absurd h not_mem_nil

theorem fits_emitRuns (numZeros kp : ℕ) : Fits (emitRuns numZeros kp).1 := by
  induction numZeros using Nat.strong_induction_on generalizing kp with
  | h numZeros ih =>
    have hrunmax := Nat.two_pow_pos (kp >>> lsgr)
    rw [emitRuns]
    dsimp only
    split
    next hgo => exact (fits_outputBit 1 false).append (ih _ (by omega) _)
    next => exact fun output h => absurd h not_mem_nil

theorem fits_encodeLoop (hkp : kp ≤ kpmax) (hkrp : krp ≤ kpmax) (hsmall : ∀ x ∈ data, |x| < 8192) :
    Fits (encodeLoop mode kp krp data) := by
  induction hn : data.length using Nat.strong_induction_on generalizing data kp krp with
  | h n ih =>
    rw [encodeLoop.eq_def]
    rcases data with _ | ⟨first, rest⟩
    · exact fun output h => absurd h not_mem_nil
    have htail : ∀ x ∈ rest, |x| < 8192 := fun x hx => hsmall x (mem_cons_of_mem _ hx)
    rw [length_cons] at hn
    dsimp only
    split
    next hk =>
      obtain ⟨-, -, -, -, hlt, hkp'⟩ := emitRuns_spec (collectZeros (first :: rest)).1 hkp
      obtain ⟨hdata, -⟩ := collectZeros_spec (cons_ne_nil first rest)
      have hle := length_collectZeros_le (first :: rest)
      rw [length_cons] at hle
      have hkp'' : (emitRuns (collectZeros (first :: rest)).1 kp).2.2 ≤ 80 := hkp'
      have hk' : (emitRuns (collectZeros (first :: rest)).1 kp).2.2 >>> lsgr ≤ 16 := by
        rw [lsgr, shiftRight_eq_div_pow]
        omega
      refine Fits.append (Fits.append (Fits.append (Fits.append (Fits.append ?_ ?_) ?_) ?_) ?_) ?_
      · exact fits_emitRuns _ _
      · exact fits_outputBit _ _
      · exact fits_singleton (hlt.trans_le (Nat.pow_le_pow_right Nat.two_pos hk'))
      · exact fits_outputBit _ _
      · exact fits_codeGr hkrp _
      · refine ih _ (by omega) (updateParam_le _ _) (codeGr_le hkrp _) (fun x hx => ?_) rfl
        refine hsmall x ?_
        rw [hdata]
        exact mem_append_right _ (mem_cons_of_mem _ hx)
    next =>
      cases mode
      · refine (fits_codeGr hkrp _).append
          (ih rest.length (by omega) ?_ (codeGr_le hkrp _) htail rfl)
        split
        · exact updateParam_le _ _
        · exact updateParam_le _ _
      · have hfirst := get2MagSign_lt (hsmall first mem_cons_self)
        refine ((fits_codeGr hkrp _).append (fits_singleton (hfirst.trans (by decide)))).append
          (ih rest.tail.length ?_ ?_ (codeGr_le hkrp _)
            (fun x hx => htail x (mem_of_mem_tail hx)) rfl)
        · rw [length_tail]
          omega
        · split
          · exact updateParam_le _ _
          · split
            · exact updateParam_le _ _
            · exact hkp

/-- Everything is put out when there is room. -/
theorem wrote_putAll {bs : RfxBitstream} {bits : List Bool} {outputs : List Output}
    (h : Wrote bs bits) (hfits : Fits outputs)
    (hroom : bits.length + (outputBits outputs).length ≤ 8 * bs.buffer.length) :
    ∃ t, outputs.foldlM (fun bs output => bs.putBits output.1 output.2) bs = some t ∧
      Wrote t (bits ++ outputBits outputs) ∧ t.buffer.length = bs.buffer.length := by
  induction outputs generalizing bs bits with
  | nil =>
    rw [outputBits_nil, append_nil]
    exact ⟨bs, rfl, h, rfl⟩
  | cons output outputs ih =>
    have hsplit : outputBits (output :: outputs) =
        bitsOf output.2 output.1 ++ outputBits outputs := rfl
    rw [hsplit, length_append, length_bitsOf] at hroom
    obtain ⟨t, ht, hwrote, hlength⟩ :=
      h.putBits (hfits output mem_cons_self) output.2 (by omega)
    obtain ⟨t', ht', hwrote', hlength'⟩ :=
      ih hwrote (fun x hx => hfits x (mem_cons_of_mem _ hx)) (by
        rw [hlength, length_append, length_bitsOf]
        omega)
    refine ⟨t', ?_, ?_, hlength'.trans hlength⟩
    · rw [foldlM_cons, ht]
      exact ht'
    · rwa [hsplit, ← append_assoc]

/-! ## Round trips -/

/-- How many bits are put out, with those of the flush. -/
def paddedLength (mode : RlgrMode) (data : List ℤ) : ℕ :=
  let codeLength := (codeOf mode (1 <<< lsgr) (1 <<< lsgr) data).length
  codeLength + codeLength % 8

theorem encode_spec {bufferSize : ℕ} (hsmall : ∀ x ∈ data, |x| < 8192)
    (hroom : paddedLength mode data ≤ 8 * bufferSize) :
    ∃ bytes k, bytes.length = (paddedLength mode data + 7) / 8 ∧
      bytesBits bytes = codeOf mode (1 <<< lsgr) (1 <<< lsgr) data ++ replicate k false ∧
      encode mode data bufferSize = if bytes.length ≥ 2 ^ 31 then none else some bytes := by
  rw [paddedLength] at hroom
  have hfits : Fits (encodeLoop mode (1 <<< lsgr) (1 <<< lsgr) data) :=
    fits_encodeLoop (by decide) (by decide) hsmall
  obtain ⟨t, ht, hwrote, hlength⟩ := wrote_putAll (wrote_attach bufferSize) hfits (by
    rw [length_nil, length_replicate, ← codeOf]
    omega)
  rw [nil_append, ← codeOf] at hwrote
  rw [length_replicate] at hlength
  obtain ⟨t', k, ht', hprocessed, hcount, hbits⟩ := hwrote.flushed (by rw [hlength]; exact hroom)
  have hbytes : (t'.buffer.take t'.processedBytes).length = t'.processedBytes := by
    have hboth := congrArg List.length hbits
    rw [length_bytesBits, length_append, length_replicate] at hboth
    omega
  refine ⟨t'.buffer.take t'.processedBytes, k, hbytes.trans hprocessed, hbits, ?_⟩
  rw [encode, ht, hbytes]
  simp only [bind_eq_bind, bind_some, ht']
  split
  · rfl
  · rfl

theorem decode_eq {src : List UInt8} (hsrc : src ≠ []) (hdst : dstSize ≠ 0) :
    decode mode src dstSize = (decodeLoop mode dstSize (8 * src.length)
      { bs := (WBitStream.attach src).fetch, kp := 1 <<< lsgr, krp := 1 <<< lsgr, out := [] }).map
      fun out => out ++ replicate (dstSize - out.length) 0 := by
  rw [decode, if_neg (by simp [hsrc, hdst])]

/-- **What comes of a code of less than `2 ^ 32` bits.** -/
theorem decode_whole {bytes : List UInt8} {k : ℕ} (hne : data ≠ [])
    (hsmall : ∀ x ∈ data, |x| < 8192) (hlength : 8 * bytes.length < 2 ^ 32)
    (hbits : bytesBits bytes =
      codeOf mode (1 <<< lsgr) (1 <<< lsgr) data ++ replicate k false) :
    decode mode bytes data.length = some (decoded mode (1 <<< lsgr) data) := by
  have hparam : 1 <<< lsgr ≤ kpmax := by decide
  have hroom : ([] : List ℤ).length + data.length = data.length := zero_add _
  obtain ⟨code, kp', krp', front, rest, shown, hunit⟩ :=
    exists_unit mode hparam hparam hne hsmall hroom
  have hcount := congrArg List.length hbits
  rw [length_bytesBits, length_append] at hcount
  have hbytes : bytes ≠ [] := by
    rintro rfl
    have hcode := length_pos_of_ne_nil hunit.code_ne
    rw [hunit.code_eq, length_append, length_nil] at hcount
    omega
  have hreads := reads_attach bytes
  rw [mod_eq_of_lt hlength, take_of_length_le (length_bytesBits bytes).le, hbits] at hreads
  rw [decode_eq hbytes (length_pos_of_ne_nil hne).ne',
    decodeLoop_whole hparam hparam hsmall hroom hreads (by omega)]
  have hdecoded : (decoded mode (1 <<< lsgr) data).length = data.length := by
    rw [decoded]
    split
    · have hpos := length_pos_of_ne_nil hne
      rw [length_append, length_dropLast, length_singleton]
      omega
    · rfl
  rw [map_some, nil_append, hdecoded, Nat.sub_self, replicate_zero, append_nil]

/-- **A code of `2 ^ 32` bits or more does not come back**: what the decoder leaves out has too
long a code to be zeros. -/
theorem decode_short {bytes : List UInt8} {k : ℕ} (hsize : data.length < 2 ^ 32)
    (hsmall : ∀ x ∈ data, |x| < 8192) (hlength : 2 ^ 32 ≤ 8 * bytes.length) (hk : k < 16)
    (hbits : bytesBits bytes =
      codeOf mode (1 <<< lsgr) (1 <<< lsgr) data ++ replicate k false) :
    decode mode bytes data.length ≠ some data := by
  have hcount := congrArg List.length hbits
  rw [length_bytesBits, length_append, length_replicate] at hcount
  have hmod : 8 * bytes.length % 2 ^ 32 < 2 ^ 32 := Nat.mod_lt _ (Nat.two_pow_pos 32)
  have hle : 8 * bytes.length % 2 ^ 32 + 2 ^ 32 ≤ 8 * bytes.length := by omega
  generalize hpart : 8 * bytes.length % 2 ^ 32 = part at hmod hle
  have hreads := reads_attach bytes
  rw [hpart, hbits, take_append_of_le_length (by omega)] at hreads
  have htaken : ((codeOf mode (1 <<< lsgr) (1 <<< lsgr) data).take part).length = part := by
    rw [length_take]
    exact min_eq_left (by omega)
  have hpart_ne : (codeOf mode (1 <<< lsgr) (1 <<< lsgr) data).take part ≠
      codeOf mode (1 <<< lsgr) (1 <<< lsgr) data := by
    intro heq
    rw [heq] at htaken
    omega
  have hroom : ([] : List ℤ).length + data.length = data.length := zero_add _
  obtain ⟨front, back, kp', krp', hdata, hkp', hkrp', hcode, hloop⟩ :=
    decodeLoop_short (by decide) (by decide) hsmall hroom hreads (List.take_prefix _ _) hpart_ne
      (by rw [htaken]; omega : _ < 8 * bytes.length)
  have hbytes : bytes ≠ [] := by
    rintro rfl
    rw [length_nil] at hlength
    omega
  have hdataPos : data.length ≠ 0 := by
    intro hzero
    rw [length_eq_zero_iff.1 hzero, codeOf, encodeLoop, outputBits_nil, length_nil]
      at hcount
    omega
  rw [decode_eq hbytes hdataPos, hloop, map_some, nil_append]
  intro hsame
  have hback : back = replicate (data.length - front.length) 0 := by
    have hboth := some.inj hsame
    nth_rewrite 2 [hdata] at hboth
    exact (append_cancel_left hboth).symm
  have hzeros := length_codeOf_zeros_le mode hkp' hkrp' (data.length - front.length)
  rw [← hback] at hzeros
  rw [htaken] at hcode
  omega

/-- **RLGR coding is lossless but for two kinds of data**: those that end in a zero that is coded
in run-length mode, and those with a code of `2 ^ 32` bits or more. -/
theorem rlgr_roundTrip (mode : RlgrMode) (data : List ℤ) (bufferSize : ℕ) (hne : data ≠ [])
    (hsize : data.length < 2 ^ 32) (hsmall : ∀ x ∈ data, |x| < 8192)
    (hroom : paddedLength mode data ≤ 8 * bufferSize) :
    (∃ bytes, encode mode data bufferSize = some bytes ∧
        decode mode bytes data.length = some data) ↔
      endsInRun mode (1 <<< lsgr) data = false ∧ paddedLength mode data + 8 ≤ 2 ^ 32 := by
  obtain ⟨bytes, k, hlength, hbits, hencode⟩ := encode_spec hsmall hroom
  have hcount := congrArg List.length hbits
  rw [length_bytesBits, length_append, length_replicate] at hcount
  have hk : k < 16 := by
    rw [paddedLength] at hlength
    omega
  constructor
  · rintro ⟨bytes', hbytes', hdecode⟩
    obtain rfl : bytes = bytes' := by
      rw [hencode] at hbytes'
      split at hbytes'
      · exact absurd hbytes' (some_ne_none _).symm
      · exact some.inj hbytes'
    by_cases hlong : 2 ^ 32 ≤ 8 * bytes.length
    · exact absurd hdecode (decode_short hsize hsmall hlong hk hbits)
    · rw [decode_whole hne hsmall (Nat.lt_of_not_le hlong) hbits, decoded] at hdecode
      refine ⟨Bool.eq_false_of_not_eq_true fun hends => ?_, by omega⟩
      rw [if_pos hends] at hdecode
      obtain ⟨front, rfl⟩ := eq_append_zero_of_endsInRun hends
      rw [dropLast_concat] at hdecode
      have hlast := append_cancel_left (some.inj hdecode)
      exact absurd (singleton_inj.1 hlast) (by decide)
  · rintro ⟨hends, hfits⟩
    refine ⟨bytes, ?_, ?_⟩
    · rw [hencode, if_neg (by omega)]
    · rw [decode_whole hne hsmall (by omega) hbits, decoded, hends, if_neg Bool.false_ne_true]

/-- Data that the coder leaves the run-length mode for and comes back to. -/
theorem rlgr_roundTrip_modes : ∃ bytes, encode .rlgr1 [1, 2, 0, 0, 0, 5] 8 = some bytes ∧
    decode .rlgr1 bytes [(1 : ℤ), 2, 0, 0, 0, 5].length = some [1, 2, 0, 0, 0, 5] :=
  (rlgr_roundTrip .rlgr1 [1, 2, 0, 0, 0, 5] 8 (by decide) (by decide) (by decide)
    (by decide +kernel)).2 ⟨by decide +kernel, by decide +kernel⟩

/-- A single zero comes back as one. -/
theorem zero_not_roundTrip : paddedLength .rlgr1 [0] ≤ 8 * 2 ∧
    ¬ ∃ bytes, encode .rlgr1 [0] 2 = some bytes ∧
      decode .rlgr1 bytes [(0 : ℤ)].length = some [0] := by
  have hcode : codeOf .rlgr1 (1 <<< lsgr) (1 <<< lsgr) [0] =
      [true, false, false, false, false] := by
    rw [codeOf_runLength _ _ (by decide) (by decide)]
    simp [runCode, collectZeros, emitRuns, codeOf, encodeLoop, codeBits, bitsOf, lsgr]
  have hpadded : paddedLength .rlgr1 [0] = 10 := by
    rw [paddedLength, hcode]
    rfl
  have hroom : paddedLength .rlgr1 [0] ≤ 8 * 2 := by
    rw [hpadded]
    decide
  have hsmall : ∀ x ∈ [(0 : ℤ)], |x| < 8192 := by decide
  refine ⟨hroom, ?_⟩
  rintro ⟨bytes', hbytes', hdecode⟩
  obtain ⟨bytes, k, hlength, hbits, hencode⟩ := encode_spec hsmall hroom
  rw [hpadded] at hlength
  obtain rfl : bytes = bytes' := by
    rw [hencode, if_neg (by omega)] at hbytes'
    exact some.inj hbytes'
  have hends : endsInRun .rlgr1 (1 <<< lsgr) [0] = true := by
    rw [endsInRun.eq_def]
    simp [collectZeros, lsgr]
  rw [decode_whole (by decide) hsmall (by omega) hbits, decoded, if_pos hends] at hdecode
  exact absurd hdecode (by decide)

end RfxRlgr
