/-
# What an RLGR stream says

The bits of a stream are a sequence of tokens: a run of zeros with the coefficient behind it, a
single coefficient, or a pair of them.  The parameters say which kind comes next and how it is
coded, and every token changes them.

`tokens` are the tokens that a decoder comes to; `Token.Fits` says which of them stand for
coefficients of 16 bits.
-/
import XyDeskRemote.CheckedReading
import XyDeskRemote.RlgrReading

open MsbBits RfxRlgr Nat

namespace RlgrTokens

/-- Values off the bits that are to come. -/
abbrev BitParser : Type → Type := StreamParser (List Bool)

/-- A run of a bit, with the bit that ends it. -/
def run (bit : Bool) : BitParser ℕ := fun bits =>
  match bits.dropWhile (· == bit) with
  | [] => none
  | _ :: rest => some ((bits.takeWhile (· == bit)).length, rest)

/-- A number of `n` bits. -/
def field (n : ℕ) : BitParser ℕ := fun bits =>
  if n ≤ bits.length then some (valueOf (bits.take n), bits.drop n) else none

/-- A bit. -/
def flag : BitParser Bool := fun bits =>
  match bits with
  | [] => none
  | b :: rest => some (b, rest)

/-- What the coder adapts. -/
structure Params where
  kp : ℕ
  krp : ℕ

namespace Params

/-- The parameters at first. -/
def start : Params := { kp := 1 <<< lsgr, krp := 1 <<< lsgr }

/-- Where the parameters stay. -/
structure Bounded (q : Params) : Prop where
  kp_le : q.kp ≤ kpmax
  krp_le : q.krp ≤ kpmax

end Params

/-- A Golomb-Rice code in 16 bits, and the parameter after it. -/
def code (krp : ℕ) : BitParser (ℕ × ℕ) := do
  let vk ← run true
  let low ← field (krp >>> lsgr)
  return ((low ||| vk <<< (krp >>> lsgr)) % 2 ^ 16, nextKrp krp vk)

/-- A pair has the sum of its values and the first of them. -/
inductive Token where
  | run (zeros : ℕ) (negative : Bool) (code : ℕ)
  | single (code : ℕ)
  | pair (sum val1 : ℕ)

namespace Token

/-- The token stands for coefficients of 16 bits.  The second value of a pair is a difference in
32 bits; a difference of -1 is taken for zero. -/
def Fits : Token → Prop
  | run _ _ code => code < 0x7FFF
  | single code => code < 0xFFFF
  | pair sum val1 => sum ≤ 0x7FFF ∧ val1 ≤ sum + 1

instance (tok : Token) : Decidable tok.Fits := by
  unfold Fits
  split <;> infer_instance

/-- The coefficients of a token that fits. -/
def values : Token → List ℤ
  | run zeros negative code =>
    List.replicate zeros 0 ++ [if negative then -((code : ℤ) + 1) else (code : ℤ) + 1]
  | single code => [(signed code).getD 0]
  | pair sum val1 => [(signed val1).getD 0, (signed (sub32 sum val1)).getD 0]

/-- The number of them. -/
def count : Token → ℕ
  | run zeros _ _ => zeros + 1
  | single _ => 1
  | pair _ _ => 2

/-- A token stands for so many values. -/
theorem length_values (tok : Token) : tok.values.length = tok.count := by
  cases tok with
  | run zeros negative code => simp [values, count]
  | single code => rfl
  | pair sum val1 => rfl

end Token

/-- A token in run-length mode. -/
def runToken (q : Params) : BitParser (Token × Params) := do
  let vk ← run false
  let runs := addRuns vk 0 q.kp
  let remainder ← field (runs.2 >>> lsgr)
  let negative ← flag
  let c ← code q.krp
  return (.run (runs.1 + remainder) negative c.1, { kp := runs.2 - dnGr, krp := c.2 })

/-- A coefficient in Golomb-Rice mode. -/
def singleToken (q : Params) : BitParser (Token × Params) := do
  let c ← code q.krp
  return (.single c.1,
    { kp := if c.1 = 0 then min kpmax (q.kp + uqGr) else q.kp - dqGr, krp := c.2 })

/-- The parameter after a pair. -/
def kpAfterPair (kp val1 val2 : ℕ) : ℕ :=
  if val1 ≠ 0 ∧ val2 ≠ 0 then kp - 2 * dqGr
  else if val1 = 0 ∧ val2 = 0 then min kpmax (kp + 2 * uqGr)
  else kp

/-- A pair in Golomb-Rice mode; the values of a sum that is too large are not looked at. -/
def pairToken (q : Params) : BitParser (Token × Params) := do
  let c ← code q.krp
  if c.1 ≤ 0x7FFF then
    let val1 ← field (getMinBits c.1)
    return (.pair c.1 val1, { kp := kpAfterPair q.kp val1 (sub32 c.1 val1), krp := c.2 })
  else return (.pair c.1 0, { kp := q.kp, krp := c.2 })

/-- The next token, and the parameters behind it. -/
def token (mode : RlgrMode) (q : Params) : BitParser (Token × Params) :=
  if q.kp >>> lsgr ≠ 0 then runToken q
  else
    match mode with
    | .rlgr1 => singleToken q
    | .rlgr3 => pairToken q

/-- The tokens up to the end of the bits, as long as there is room for a coefficient. -/
def tokensFrom (mode : RlgrMode) : ℕ → ℕ → Params → List Bool → List Token
  | 0, _, _, _ => []
  | fuel + 1, room, q, bits =>
    if 0 < room then
      match token mode q bits with
      | none => []
      | some ((tok, q'), rest) => tok :: tokensFrom mode fuel (room - tok.count) q' rest
    else []

/-- The tokens of a stream for `room` coefficients; each of them has a bit at least. -/
def tokens (mode : RlgrMode) (room : ℕ) (bits : List Bool) : List Token :=
  tokensFrom mode bits.length room .start bits

/-! ## Progress -/

/-- What is left is no more than what there was. -/
def Shortens {α : Type} (least : ℕ) (p : BitParser α) : Prop :=
  ∀ ⦃bits a rest⦄, p bits = some (a, rest) → rest.length + least ≤ bits.length

/-- Both take bits. -/
theorem Shortens.bind {α β : Type} {m n : ℕ} {p : BitParser α} {f : α → BitParser β}
    (hp : Shortens m p) (hf : ∀ a, Shortens n (f a)) : Shortens (m + n) (p >>= f) := by
  intro bits b rest h
  obtain ⟨⟨a, mid⟩, hmid, hrest⟩ := Option.bind_eq_some_iff.1 h
  have hfirst := hp hmid
  have hsecond := hf a hrest
  omega

/-- Nothing is taken. -/
theorem shortens_pure {α : Type} (a : α) : Shortens 0 (pure a : BitParser α) := by
  intro bits b rest h
  cases h
  exact le_refl _

/-- A run takes the bit that ends it. -/
theorem shortens_run (bit : Bool) : Shortens 1 (run bit) := by
  intro bits a rest h
  unfold run at h
  split at h
  next => nomatch h
  next b rest' hdrop =>
    cases h
    have hle := (List.dropWhile_suffix (l := bits) (· == bit)).length_le
    rw [hdrop, List.length_cons] at hle
    exact hle

/-- A field may be empty. -/
theorem shortens_field (n : ℕ) : Shortens 0 (field n) := by
  intro bits a rest h
  unfold field at h
  split at h
  next =>
    cases h
    rw [List.length_drop]
    exact sub_le _ _
  next => nomatch h

/-- A flag is one bit. -/
theorem shortens_flag : Shortens 0 flag := by
  intro bits a rest h
  cases bits with
  | nil => nomatch h
  | cons b bits =>
    cases h
    exact le_succ _

/-- A code takes a bit at least. -/
theorem shortens_code (krp : ℕ) : Shortens 1 (code krp) :=
  (shortens_run true).bind fun _ => (shortens_field _).bind fun _ => shortens_pure _

/-- **A token has a bit at least.** -/
theorem shortens_token (mode : RlgrMode) (q : Params) : Shortens 1 (token mode q) := by
  unfold token
  split
  · intro bits a rest h
    have hle := ((shortens_run false).bind fun _ => (shortens_field _).bind fun _ =>
      shortens_flag.bind fun _ => (shortens_code _).bind fun _ => shortens_pure _) h
    omega
  · cases mode with
    | rlgr1 => exact (shortens_code _).bind fun _ => shortens_pure _
    | rlgr3 =>
      show Shortens (1 + 0) (pairToken q)
      refine (shortens_code _).bind fun c => ?_
      split
      · exact (shortens_field _).bind fun _ => shortens_pure _
      · exact shortens_pure _

/-! ## Parameters -/

/-- `kp` grows up to `kpmax`. -/
theorem addRuns_bounds {kp : ℕ} (hkp : kp ≤ kpmax) (vk run : ℕ) :
    kp ≤ (addRuns vk run kp).2 ∧ (addRuns vk run kp).2 ≤ kpmax := by
  induction vk generalizing run kp with
  | zero => exact ⟨le_refl _, hkp⟩
  | succ vk ih =>
    have hnext := ih (min_le_left kpmax (kp + upGr)) (run + 2 ^ (kp >>> lsgr))
    exact ⟨(Nat.le_min.2 ⟨hkp, Nat.le_add_right _ _⟩).trans hnext.1, hnext.2⟩

/-- `krp` stays in its range. -/
theorem nextKrp_le {krp : ℕ} (hkrp : krp ≤ kpmax) (vk : ℕ) : nextKrp krp vk ≤ kpmax := by
  unfold nextKrp
  split
  · split
    · exact (sub_le _ _).trans hkrp
    · exact zero_le _
  · split
    · exact min_le_left _ _
    · exact hkrp

/-- `kp` stays in its range. -/
theorem kpAfterPair_le {kp : ℕ} (hkp : kp ≤ kpmax) (val1 val2 : ℕ) :
    kpAfterPair kp val1 val2 ≤ kpmax := by
  unfold kpAfterPair
  split
  · exact (sub_le _ _).trans hkp
  · split
    · exact min_le_left _ _
    · exact hkp

/-- Every result has a property. -/
def Yields {α : Type} (P : α → Prop) (p : BitParser α) : Prop :=
  ∀ ⦃bits a rest⦄, p bits = some (a, rest) → P a

/-- What is returned. -/
theorem yields_pure {α : Type} {P : α → Prop} {a : α} (h : P a) :
    Yields P (pure a : BitParser α) := by
  intro bits b rest hb
  cases hb
  exact h

/-- What the second one returns. -/
theorem Yields.bind {α β : Type} {P : α → Prop} {Q : β → Prop} {p : BitParser α}
    {f : α → BitParser β} (hp : Yields P p) (hf : ∀ a, P a → Yields Q (f a)) :
    Yields Q (p >>= f) := by
  intro bits b rest h
  obtain ⟨⟨a, mid⟩, hmid, hrest⟩ := Option.bind_eq_some_iff.1 h
  exact hf a (hp hmid) hrest

/-- Nothing is said. -/
theorem yields_true {α : Type} (p : BitParser α) : Yields (fun _ => True) p :=
  fun _ _ _ _ => trivial

/-- `krp` behind a code. -/
theorem yields_code {krp : ℕ} (hkrp : krp ≤ kpmax) :
    Yields (fun c => c.2 ≤ kpmax) (code krp) :=
  (yields_true _).bind fun vk _ => (yields_true _).bind fun _ _ => yields_pure (nextKrp_le hkrp vk)

/-- **The parameters stay where they are.** -/
theorem yields_token (mode : RlgrMode) {q : Params} (hq : q.Bounded) :
    Yields (fun r => r.2.Bounded) (token mode q) := by
  have hcode := yields_code hq.krp_le
  unfold token
  split
  · refine (yields_true _).bind fun vk _ => (yields_true _).bind fun _ _ =>
      (yields_true _).bind fun _ _ => hcode.bind fun c hc => yields_pure ⟨?_, hc⟩
    exact (sub_le _ _).trans (addRuns_bounds hq.kp_le vk 0).2
  · cases mode with
    | rlgr1 =>
      refine hcode.bind fun c hc => yields_pure ⟨?_, hc⟩
      dsimp only
      split
      · exact min_le_left _ _
      · exact (sub_le _ _).trans hq.kp_le
    | rlgr3 =>
      refine hcode.bind fun c hc => ?_
      split
      · exact (yields_true _).bind fun val1 _ =>
          yields_pure ⟨kpAfterPair_le hq.kp_le _ _, hc⟩
      · exact yields_pure ⟨hq.kp_le, hc⟩

/-- The numbers of a token are words of 16 bits. -/
def Token.Words : Token → Prop
  | .run _ _ code => code < 2 ^ 16
  | .single code => code < 2 ^ 16
  | .pair sum val1 => sum < 2 ^ 16 ∧ val1 < 2 ^ 15

/-- A code is a 16-bit number. -/
theorem yields_code_lt (krp : ℕ) : Yields (fun c => c.1 < 2 ^ 16) (code krp) :=
  (yields_true _).bind fun _ _ => (yields_true _).bind fun _ _ =>
    yields_pure (Nat.mod_lt _ (Nat.two_pow_pos 16))

/-- A field of `n` bits. -/
theorem yields_field (n : ℕ) : Yields (· < 2 ^ n) (field n) := by
  intro bits v rest h
  unfold field at h
  split at h
  next hle =>
    cases h
    have hlt := valueOf_lt (bits.take n)
    rwa [List.length_take, min_eq_left hle] at hlt
  next => nomatch h

/-- The bits of an index. -/
theorem getMinBits_le {v : ℕ} (hv : v ≤ 0x7FFF) : getMinBits v ≤ 15 := by
  rcases Nat.eq_zero_or_pos v with rfl | hpos
  · rw [getMinBits, if_pos rfl]
    exact zero_le _
  · have hlow := two_pow_getMinBits_le hpos.ne'
    have hlt : 2 ^ (getMinBits v - 1) < 2 ^ 15 := by omega
    have hbits := (Nat.pow_lt_pow_iff_right (by decide : 1 < 2)).1 hlt
    omega

/-- The values of a token fit 16 bits. -/
theorem yields_words (mode : RlgrMode) (q : Params) :
    Yields (fun r => r.1.Words) (token mode q) := by
  have hcode := yields_code_lt q.krp
  unfold token
  split
  · exact (yields_true _).bind fun _ _ => (yields_true _).bind fun _ _ =>
      (yields_true _).bind fun _ _ => hcode.bind fun c hc => yields_pure hc
  · cases mode with
    | rlgr1 => exact hcode.bind fun c hc => yields_pure hc
    | rlgr3 =>
      refine hcode.bind fun c hc => ?_
      split
      next hle =>
        refine (yields_field _).bind fun val1 hval1 => yields_pure ⟨hc, hval1.trans_le ?_⟩
        exact Nat.pow_le_pow_right Nat.two_pos (getMinBits_le hle)
      next => exact yields_pure ⟨hc, Nat.two_pow_pos 15⟩

end RlgrTokens
