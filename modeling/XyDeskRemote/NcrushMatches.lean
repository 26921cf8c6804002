/-
# Searching matches in NCRUSH

The table of words leads to the last position with a word, and the chain of a position to earlier
positions with the same word (`Linked`).  This holds from packet to packet: the words of a packet
are entered, and when the history moves to the front, so do the positions.  So the search finds
only bytes that the history has already (`findBestMatch_found`), and it never fails.
-/
import XyDeskRemote.Ncrush

open Function Nat

namespace Ncrush

/-- The bytes at two positions are the same. -/
theorem wordAt_eq_iff {H : ℕ → UInt8} {p q : ℕ} :
    wordAt H p = wordAt H q ↔ H p = H q ∧ H (p + 1) = H (q + 1) := by
  have hword : ∀ i, wordAt H i = (H i).toNat + 256 * (H (i + 1)).toNat := by
    intro i
    have hlt : (H i).toNat < 2 ^ 8 := (H i).toNat_lt
    rw [wordAt, Nat.or_comm, ← Nat.shiftLeft_add_eq_or_of_lt hlt, Nat.shiftLeft_eq]
    omega
  rw [hword, hword]
  constructor
  · intro h
    have hp : (H p).toNat < 256 := (H p).toNat_lt
    have hq : (H q).toNat < 256 := (H q).toNat_lt
    exact ⟨UInt8.toNat_inj.1 (by omega), UInt8.toNat_inj.1 (by omega)⟩
  · rintro ⟨hfirst, hsecond⟩
    rw [hfirst, hsecond]

/-- The tables lead to positions below a bound with the right words; `0` leads nowhere. -/
structure Linked (H : ℕ → UInt8) (hashTable matchTable : ℕ → ℕ) (bound : ℕ) : Prop where
  hash : ∀ word, hashTable word ≠ 0 →
    hashTable word + 1 < bound ∧ wordAt H (hashTable word) = word
  chain : ∀ p, matchTable p ≠ 0 →
    matchTable p < p ∧ p + 1 < bound ∧ wordAt H (matchTable p) = wordAt H p

namespace Linked

variable {H E : ℕ → UInt8} {hashTable matchTable : ℕ → ℕ} {bound : ℕ}

theorem empty (H : ℕ → UInt8) (bound : ℕ) : Linked H (fun _ => 0) (fun _ => 0) bound :=
  ⟨fun _ h => absurd rfl h, fun _ h => absurd rfl h⟩

theorem mono (h : Linked H hashTable matchTable bound) {more : ℕ} (hle : bound ≤ more) :
    Linked H hashTable matchTable more where
  hash word hword := ⟨(h.hash word hword).1.trans_le hle, (h.hash word hword).2⟩
  chain p hp := ⟨(h.chain p hp).1, (h.chain p hp).2.1.trans_le hle, (h.chain p hp).2.2⟩

/-- The bytes beyond the bound do not matter. -/
theorem congr (h : Linked H hashTable matchTable bound)
    (hagree : MatchCopy.AgreeBelow bound E H) : Linked E hashTable matchTable bound := by
  have hword : ∀ p, p + 1 < bound → wordAt E p = wordAt H p := by
    intro p hp
    rw [wordAt, wordAt, hagree p (by omega), hagree (p + 1) hp]
  constructor
  · intro word hne
    obtain ⟨hlt, hw⟩ := h.hash word hne
    exact ⟨hlt, (hword _ hlt).trans hw⟩
  · intro p hne
    obtain ⟨hback, hlt, hw⟩ := h.chain p hne
    refine ⟨hback, hlt, ?_⟩
    rw [hword _ (by omega), hword _ hlt]
    exact hw

/-- **A position is entered** in the tables. -/
theorem add {o : ℕ} (h : Linked H hashTable matchTable (o + 1)) :
    Linked H (update hashTable (wordAt H o) o)
      (update matchTable o (hashTable (wordAt H o))) (o + 2) := by
  constructor
  · intro word hne
    obtain rfl | hother := eq_or_ne word (wordAt H o)
    · rw [update_self]
      exact ⟨by omega, rfl⟩
    · rw [update_of_ne hother] at hne ⊢
      obtain ⟨hlt, hw⟩ := h.hash word hne
      exact ⟨by omega, hw⟩
  · intro p hne
    obtain rfl | hother := eq_or_ne p o
    · rw [update_self] at hne ⊢
      obtain ⟨hlt, hw⟩ := h.hash _ hne
      exact ⟨by omega, by omega, hw⟩
    · rw [update_of_ne hother] at hne ⊢
      obtain ⟨hback, hlt, hw⟩ := h.chain p hne
      exact ⟨hback, by omega, hw⟩

end Linked

/-- The tables of a context. -/
def Context.IsLinked (c : Context) (bound : ℕ) : Prop :=
  Linked c.historyBuffer c.hashTable c.matchTable bound

/-! ## A packet, and the move to the front -/

section

variable {c : Context}

theorem hashTableAdd_frame (word : ℕ → ℕ) (n : ℕ) :
    (c.hashTableAdd word n).historyOffset = c.historyOffset ∧
      (c.hashTableAdd word n).historyBuffer = c.historyBuffer ∧
      (c.hashTableAdd word n).offsetCache = c.offsetCache := by
  induction n with
  | zero => exact ⟨rfl, rfl, rfl⟩
  | succ n ih => exact ih

theorem linked_hashTableAdd {H : ℕ → UInt8} {word : ℕ → ℕ} {n : ℕ}
    (h : Linked H c.hashTable c.matchTable c.historyOffset)
    (hword : ∀ i < n, word i = wordAt H (c.historyOffset + i)) :
    Linked H (c.hashTableAdd word n).hashTable (c.hashTableAdd word n).matchTable
      (c.historyOffset + n + 1) := by
  induction n with
  | zero => exact h.mono (le_succ _)
  | succ n ih =>
    have hbefore := ih fun i hi => hword i (lt_succ_of_lt hi)
    have hadded := hbefore.add
    rw [← hword n (lt_succ_self n)] at hadded
    rw [Context.hashTableAdd]
    simp only [(hashTableAdd_frame (c := c) word n).1]
    exact hadded

/-- **A packet is taken** into the history and the tables. -/
theorem isLinked_take {src : List UInt8} (h : c.IsLinked c.historyOffset)
    (hsrc : 8 ≤ src.length) : (c.take src).IsLinked (c.historyOffset + src.length) := by
  have hagree : MatchCopy.AgreeBelow c.historyOffset
      (MatchCopy.overlay c.historyBuffer c.historyOffset src) c.historyBuffer :=
    fun i hi => MatchCopy.overlay_below hi
  have hword : ∀ i < src.length - 8, wordAt (fun i => src.getD i 0) i =
      wordAt (MatchCopy.overlay c.historyBuffer c.historyOffset src) (c.historyOffset + i) := by
    intro i hi
    rw [wordAt, wordAt, add_assoc, MatchCopy.overlay_at (i := i) (by omega),
      MatchCopy.overlay_at (i := i + 1) (by omega), List.getD_eq_getElem _ _ (by omega),
      List.getD_eq_getElem _ _ (by omega)]
  have hlinked := linked_hashTableAdd (h.congr hagree) hword
  obtain ⟨hoffset, hbuffer, -⟩ :=
    hashTableAdd_frame (c := c) (wordAt fun i => src.getD i 0) (src.length - 8)
  unfold Context.IsLinked Context.take
  dsimp only
  rw [hbuffer, hoffset]
  exact hlinked.mono (by omega)

/-- **The second half of the history moves to the front**, and the tables lead there. -/
theorem moveEncoderWindows_linked {h : ℕ} (hlinked : c.IsLinked h) (hlow : 32768 ≤ h)
    (hhigh : h < 65536) :
    ∃ c', c.moveEncoderWindows h = some c' ∧ c'.IsLinked 32768 ∧ c'.offsetCache = c.offsetCache ∧
      ∀ i < 32768, c'.historyBuffer i = c.historyBuffer (h - 32768 + i) := by
  rw [Context.moveEncoderWindows, if_neg (by omega), if_neg (by omega)]
  refine ⟨_, rfl, ?_, rfl, fun i hi => if_pos hi⟩
  have hword : ∀ i, i + 1 < 32768 → wordAt (fun i =>
      if i < 32768 then c.historyBuffer (h - 32768 + i) else c.historyBuffer i) i =
        wordAt c.historyBuffer (h - 32768 + i) := by
    intro i hi
    rw [wordAt, wordAt, if_pos (by omega), if_pos hi, add_assoc]
  constructor
  · intro word hne
    dsimp only at hne ⊢
    obtain ⟨hlt, hw⟩ := hlinked.hash word (by omega)
    refine ⟨by omega, ?_⟩
    rw [hword _ (by omega), Nat.add_sub_cancel' (by omega)]
    exact hw
  · intro p hne
    dsimp only at hne ⊢
    split_ifs at hne ⊢ with hp hend
    · omega
    · obtain ⟨hback, hlt, hw⟩ := hlinked.chain (h - 32768 + p) (by omega)
      refine ⟨by omega, by omega, ?_⟩
      rw [hword _ (by omega), hword _ (by omega), Nat.add_sub_cancel' (by omega)]
      exact hw
    · exact absurd rfl hne

end

/-! ## The search -/

/-- A length and an offset whose bytes are those at a position. -/
structure Matches (H : ℕ → UInt8) (historyPtr position : ℕ) (best : ℕ × ℕ) : Prop where
  two : 2 ≤ best.1
  sixteen : best.1 ≤ 16
  inside : position + best.1 ≤ historyPtr
  before : best.2 < position
  same : ∀ i < best.1, H (position + i) = H (best.2 + i)

theorem compareFrom_le (H : ℕ → UInt8) (left ptr other : ℕ) :
    compareFrom H left ptr other ≤ ptr + left ∧ ptr ≤ compareFrom H left ptr other := by
  induction left generalizing ptr other with
  | zero => exact ⟨le_refl _, le_refl _⟩
  | succ left ih =>
    rw [compareFrom]
    split
    · obtain ⟨hle, hge⟩ := ih (ptr + 1) (other + 1)
      omega
    · omega

/-- The first comparison is always made. -/
theorem lt_compareFrom (H : ℕ → UInt8) {left : ℕ} (hleft : 0 < left) (ptr other : ℕ) :
    ptr < compareFrom H left ptr other := by
  obtain ⟨left, rfl⟩ := exists_eq_succ_of_ne_zero (pos_iff_ne_zero.1 hleft)
  rw [compareFrom]
  split
  · exact (compareFrom_le H left (ptr + 1) (other + 1)).2
  · exact lt_succ_self ptr

/-- All but the last byte that is compared are the same. -/
theorem same_of_lt_compareFrom {H : ℕ → UInt8} {left ptr other i : ℕ}
    (hi : ptr + i + 1 < compareFrom H left ptr other) : H (ptr + i) = H (other + i) := by
  induction left generalizing ptr other i with
  | zero =>
    rw [compareFrom] at hi
    omega
  | succ left ih =>
    rw [compareFrom] at hi
    split at hi
    next hsame =>
      cases i with
      | zero => exact hsame
      | succ i =>
        have hnext := @ih (ptr + 1) (other + 1) i (by omega)
        rwa [add_right_comm, add_assoc, add_right_comm, add_assoc other] at hnext
    · omega

section

variable {H : ℕ → UInt8} {hashTable matchTable : ℕ → ℕ} {historyPtr position offset : ℕ}

/-- **What `findMatchLength` finds** behind two bytes that are the same. -/
theorem findMatchLength_spec (hin : position + 1 < historyPtr)
    (hword : wordAt H offset = wordAt H position) :
    ∃ n : ℕ, findMatchLength H (position + 2) (offset + 2) historyPtr + 2 = n ∧ 2 ≤ n ∧
      position + n ≤ historyPtr ∧ ∀ i < n, H (position + i) = H (offset + i) := by
  have hfirst := lt_compareFrom H (show 0 < historyPtr + 1 - (position + 2) by omega)
    (position + 2) (offset + 2)
  have hlast := (compareFrom_le H (historyPtr + 1 - (position + 2)) (position + 2) (offset + 2)).1
  refine ⟨compareFrom H (historyPtr + 1 - (position + 2)) (position + 2) (offset + 2) -
    (position + 1), by rw [findMatchLength]; omega, by omega, by omega, fun i hi => ?_⟩
  obtain ⟨hsame, hnext⟩ := wordAt_eq_iff.1 hword
  match i, hi with
  | 0, _ => exact hsame.symm
  | 1, _ => exact hnext.symm
  | i + 2, hi =>
    have hrest := same_of_lt_compareFrom (show position + 2 + i + 1 <
      compareFrom H (historyPtr + 1 - (position + 2)) (position + 2) (offset + 2) by omega)
    rwa [add_assoc, add_comm 2, add_assoc, add_comm 2] at hrest

/-- The positions that a search comes to. -/
def OnChain (H : ℕ → UInt8) (position offset : ℕ) : Prop :=
  offset = 0 ∨ offset = position ∨ offset < position ∧ wordAt H offset = wordAt H position

theorem OnChain.next {bound : ℕ} (hlinked : Linked H hashTable matchTable bound)
    (h : OnChain H position offset) :
    OnChain H position (update matchTable 0 position offset) := by
  by_cases hzero : offset = 0
  · rw [hzero, update_self]
    exact .inr (.inl rfl)
  · rw [update_of_ne hzero]
    by_cases hend : matchTable offset = 0
    · exact .inl hend
    · obtain ⟨hback, -, hw⟩ := hlinked.chain offset hend
      rcases h with h | rfl | ⟨hlt, hword⟩
      · exact absurd h hzero
      · exact .inr (.inr ⟨hback, hw⟩)
      · exact .inr (.inr ⟨hback.trans hlt, hw.trans hword⟩)

theorem onChain_probe {bound : ℕ} (hlinked : Linked H hashTable matchTable bound)
    (matchLength : ℕ) (x : UInt8) (n : ℕ) (h : OnChain H position offset) :
    OnChain H position
      (probe H (update matchTable 0 position) matchLength x n offset).2 := by
  induction n generalizing offset with
  | zero => exact h
  | succ n ih =>
    rw [probe]
    split
    · exact h
    · exact ih (h.next hlinked)

/-- **The search keeps a match** in hand. -/
theorem findLoop_matches {bound : ℕ} (hlinked : Linked H hashTable matchTable bound)
    (hin : position + 1 < historyPtr) (rounds : ℕ) {best : ℕ × ℕ}
    (hoffset : OnChain H position offset) (hbest : Matches H historyPtr position best) :
    ∃ found, findLoop H (update matchTable 0 position) historyPtr position rounds offset
      best = some found ∧ Matches H historyPtr position found := by
  induction rounds generalizing offset best with
  | zero => exact ⟨best, rfl, hbest⟩
  | succ rounds ih =>
    have hprobed := onChain_probe hlinked best.1 (H (position + best.1)) 6 hoffset
    rw [findLoop]
    split
    next hstep =>
      simp only [hstep] at hprobed
      exact ih hprobed hbest
    next place hstep =>
      simp only [hstep] at hprobed
      by_cases hplace : place ≠ position ∧ place ≠ 0
      · rcases hprobed with hzero | hself | ⟨hlt, hword⟩
        · exact absurd hzero hplace.2
        · exact absurd hself hplace.1
        · obtain ⟨n, hlength, hn2, hinside, hsame⟩ := findMatchLength_spec hin hword
          rw [if_pos hplace]
          simp only [hlength]
          rw [if_neg (by omega)]
          split
          · exact ⟨best, rfl, hbest⟩
          · have hlonger : Matches H historyPtr position
                (if (n : ℤ) > best.1 then ((n : ℤ).toNat, place) else best) := by
              split
              · exact ⟨hn2, by dsimp only; omega, hinside, hlt, hsame⟩
              · exact hbest
            generalize (if (n : ℤ) > best.1 then ((n : ℤ).toNat, place) else best) = longer
              at hlonger ⊢
            split
            · exact ih (OnChain.next hlinked (.inr (.inr ⟨hlt, hword⟩))) hlonger
            · exact ⟨longer, rfl, hlonger⟩
      · rw [if_neg hplace]
        exact ⟨best, rfl, hbest⟩

/-- **The best match of a position** is one, and the search leaves the context as it was. -/
theorem findBestMatch_matches {c : Context} (hlinked : c.IsLinked c.historyPtr)
    (hne : c.matchTable position ≠ 0) :
    ∃ found, c.findBestMatch position = (c, some found) ∧
      Matches c.historyBuffer c.historyPtr position found := by
  obtain ⟨hback, hin, hword⟩ := hlinked.chain position hne
  have hpos : position ≠ 0 := by omega
  have hfirst : Matches c.historyBuffer c.historyPtr position (2, c.matchTable position) := by
    obtain ⟨hsame, hnext⟩ := wordAt_eq_iff.1 hword
    refine ⟨le_refl 2, (by decide : 2 ≤ 16), hin, hback, fun i hi => ?_⟩
    match i, hi with
    | 0, _ => exact hsame.symm
    | 1, _ => exact hnext.symm
  obtain ⟨found, hfound, hmatches⟩ := findLoop_matches hlinked hin 4
    (.inr (.inr ⟨hback, hword⟩)) hfirst
  have hzero : c.matchTable 0 = 0 := by
    by_contra h
    exact not_lt_zero _ (hlinked.chain 0 h).1
  have hrestored : update c.matchTable 0 0 = c.matchTable := by
    have hself := update_eq_self 0 c.matchTable
    rwa [hzero] at hself
  refine ⟨found, ?_, hmatches⟩
  rw [Context.findBestMatch, if_neg hne]
  simp only [update_of_ne hpos, hfound, update_idem, hrestored]

end

end Ncrush
