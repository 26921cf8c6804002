/-
# Conversions in chunks

A loop reads a source from its front and writes what it makes of it to a target, a chunk a turn.
Without a target it only counts.
-/
namespace ChunkedConversion

variable {α β R : Type}

/-- A turn of the loop, from the room that is left, `none` if it only counts, and the rest of the
source: what is written and how many elements are read beside the first, or the result that ends
the loop. -/
abbrev Turn (α β R : Type) := Option Nat → List α → Except R (List β × Nat)

/-- Where a loop has ended: the result, what is left of the source, and what is written, or
counted. -/
structure Conversion (α β R : Type) where
  result : R
  source : List α
  target : List β

/-- The loop, to the end of the source or of the target. -/
def convert (ok : R) (turn : Turn α β R) (targetEnd : Option Nat) :
    List α → List β → Conversion α β R
  | [], target => ⟨ok, [], target⟩
  | a :: as, target =>
    match turn (targetEnd.map (· - target.length)) (a :: as) with
    | .error result => ⟨result, a :: as, target⟩
    | .ok (chunk, extra) => convert ok turn targetEnd (as.drop extra) (target ++ chunk)
termination_by source => source.length

/-- The room only decides whether a chunk is written. -/
def Bounded (exhausted : R) (turn : Turn α β R) : Prop :=
  ∀ source, (∃ result, ∀ room, turn room source = .error result) ∨
    ∃ chunk extra, ∀ room, turn room source =
      if room.any (· < chunk.length) then .error exhausted else .ok (chunk, extra)

variable {ok exhausted : R} {turn : Turn α β R} {targetEnd : Option Nat} {source : List α}
  {target : List β}

theorem convert_error {result : R} (hne : source ≠ [])
    (h : turn (targetEnd.map (· - target.length)) source = .error result) :
    convert ok turn targetEnd source target = ⟨result, source, target⟩ := by
  cases source with
  | nil => exact absurd rfl hne
  | cons a as => rw [convert, h]

theorem convert_ok {chunk : List β} {extra : Nat} (hne : source ≠ [])
    (h : turn (targetEnd.map (· - target.length)) source = .ok (chunk, extra)) :
    convert ok turn targetEnd source target =
      convert ok turn targetEnd (source.drop (extra + 1)) (target ++ chunk) := by
  cases source with
  | nil => exact absurd rfl hne
  | cons a as => rw [convert, h, List.drop_succ_cons]

/-- The source only gets shorter, and the target longer. -/
theorem convert_span (ok : R) (turn : Turn α β R) (targetEnd : Option Nat) (source : List α)
    (target : List β) :
    (convert ok turn targetEnd source target).source.length ≤ source.length ∧
      target.length ≤ (convert ok turn targetEnd source target).target.length := by
  fun_induction convert ok turn targetEnd source target with
  | case1 target => simp
  | case2 a as target result h => simp
  | case3 a as target chunk extra h ih =>
    rw [List.length_drop, List.length_append] at ih
    rw [List.length_cons]
    omega

/-- What is written consists of whole chunks. -/
theorem exists_flatMap {γ : Type} {p : γ → Prop} {f : γ → List β}
    (hturn : ∀ room source chunk extra, turn room source = .ok (chunk, extra) →
      ∃ c, p c ∧ f c = chunk) : ∃ cs : List γ, (∀ c ∈ cs, p c) ∧
      (convert ok turn targetEnd source target).target = target ++ cs.flatMap f := by
  fun_induction convert ok turn targetEnd source target with
  | case1 target => exact ⟨[], by simp⟩
  | case2 a as target result h => exact ⟨[], by simp⟩
  | case3 a as target chunk extra h ih =>
    obtain ⟨c, hc, rfl⟩ := hturn _ _ _ _ h
    obtain ⟨cs, hcs, htarget⟩ := ih
    refine ⟨c :: cs, List.forall_mem_cons.2 ⟨hc, hcs⟩, ?_⟩
    rw [htarget, List.flatMap_cons, List.append_assoc]

/-- **The two passes.**  Nothing is written behind the end of the target; it gets all that is
counted, or the loop stops. -/
theorem convert_room (hturn : Bounded exhausted turn) {room : Nat} (hroom : target.length ≤ room) :
    let counted := convert ok turn none source target
    let written := convert ok turn (some room) source target
    written.target.length ≤ room ∧ (counted.target.length ≤ room → written = counted) ∧
      (room < counted.target.length → written.result = exhausted) := by
  fun_induction convert ok turn none source target with
  | case1 target =>
    rw [convert]
    exact ⟨hroom, fun _ => rfl, fun hlt => absurd hroom (Nat.not_le.mpr hlt)⟩
  | case2 a as target result h =>
    obtain ⟨_, herror⟩ | ⟨_, _, hok⟩ := hturn (a :: as)
    · cases (herror none).symm.trans h
      rw [convert_error (List.cons_ne_nil a as) (herror _)]
      exact ⟨hroom, fun _ => rfl, fun hlt => absurd hroom (Nat.not_le.mpr hlt)⟩
    · cases (hok none).symm.trans h
  | case3 a as target chunk extra h ih =>
    obtain ⟨_, herror⟩ | ⟨_, _, hok⟩ := hturn (a :: as)
    · cases (herror none).symm.trans h
    · cases (hok none).symm.trans h
      have hspan := (convert_span ok turn none (as.drop extra) (target ++ chunk)).2
      rw [List.length_append] at hspan
      have hnext := hok (some (room - target.length))
      simp only [Option.any_some, decide_eq_true_eq] at hnext
      by_cases hfits : room - target.length < chunk.length
      · rw [convert_error (List.cons_ne_nil a as) (hnext.trans (if_pos hfits))]
        exact ⟨hroom, fun hle => by omega, fun _ => rfl⟩
      · rw [convert_ok (List.cons_ne_nil a as) (hnext.trans (if_neg hfits)), List.drop_succ_cons]
        refine ih ?_
        rw [List.length_append]
        omega

end ChunkedConversion
