/-
# A ring that remembers the last elements of a stream

Compressors keep the last `n` elements of what they wrote in a buffer of `n` elements that is
written round and round.  Read from the index on, and around the end, the buffer holds them from
the oldest to the newest (`oldestFirst`).
-/
import XyDeskRemote.ByteBuffer

open ByteBuffer List Nat

/-- A buffer and its index. -/
structure HistoryRing (α : Type*) where
  buffer : List α
  index : ℕ

namespace HistoryRing

variable {α : Type*} {r : HistoryRing α} {src past : List α}

/-- The size of the buffer. -/
def size (r : HistoryRing α) : ℕ := r.buffer.length

/-- One element. -/
def put (r : HistoryRing α) (x : α) : HistoryRing α where
  buffer := r.buffer.set r.index x
  index := if r.index + 1 = r.size then 0 else r.index + 1

/-- A block that is no longer than the buffer: in one piece, or in two. -/
def writeFitting (r : HistoryRing α) (src : List α) : HistoryRing α :=
  if r.index + src.length ≤ r.size then
    { buffer := overwrite r.buffer r.index src
      index := if r.index + src.length = r.size then 0 else r.index + src.length }
  else
    let front := r.size - r.index
    { buffer := overwrite
        (overwrite r.buffer r.index (src.take front)) 0 (src.drop front)
      index := src.length - front }

/-- A block; only its last part is kept when it is longer than the buffer. -/
def write (r : HistoryRing α) (src : List α) : HistoryRing α :=
  if src.length = 0 then r
  else if src.length > r.size then
    let residue := src.length - r.size
    writeFitting { r with index := (r.index + residue) % r.size } (src.drop residue)
  else writeFitting r src

/-- What the ring holds, the oldest element first. -/
def oldestFirst (r : HistoryRing α) : List α := r.buffer.drop r.index ++ r.buffer.take r.index

/-- The index is in the buffer. -/
def Valid (r : HistoryRing α) : Prop := r.index < r.size

theorem length_oldestFirst (r : HistoryRing α) : r.oldestFirst.length = r.size := by
  rw [oldestFirst, length_append, length_drop, length_take, size]
  omega

theorem writeFitting_facts (h : Valid r) (hfits : src.length ≤ r.size) :
    Valid (r.writeFitting src) ∧ (r.writeFitting src).size = r.size ∧
      (r.writeFitting src).oldestFirst = (r.oldestFirst ++ src).drop src.length := by
  have hindex : r.index < r.buffer.length := h
  have hsize : r.size = r.buffer.length := rfl
  rw [writeFitting]
  split
  next hone =>
    have hlength : (overwrite r.buffer r.index src).length = r.buffer.length :=
      length_overwrite hone
    have hpast : (r.oldestFirst ++ src).drop src.length =
        r.buffer.drop (r.index + src.length) ++ (r.buffer.take r.index ++ src) := by
      rw [oldestFirst, append_assoc, drop_append_of_le_length
        (by rw [length_drop]; omega), drop_drop]
    have hwritten : (r.buffer.take r.index ++ src).length = r.index + src.length := by
      rw [length_append, length_take]
      omega
    refine ⟨?_, hlength, ?_⟩
    · show (if r.index + src.length = r.size then 0 else r.index + src.length) <
        (overwrite r.buffer r.index src).length
      rw [hlength]
      split <;> omega
    · rw [hpast, oldestFirst]
      dsimp only
      split
      next hend =>
        have hnone : r.buffer.drop (r.index + src.length) = [] :=
          drop_of_length_le (hend.trans hsize).ge
        rw [drop_zero, take_zero, append_nil, overwrite, hnone, append_nil, nil_append]
      next =>
        rw [overwrite, drop_left' hwritten, take_left' hwritten]
  next htwo =>
    dsimp only
    -- the two pieces of the block
    have hfront : (src.take (r.size - r.index)).length = r.size - r.index := by
      rw [length_take]
      omega
    have hback : (src.drop (r.size - r.index)).length = src.length - (r.size - r.index) :=
      length_drop
    have hfirst : overwrite r.buffer r.index (src.take (r.size - r.index)) =
        r.buffer.take r.index ++ src.take (r.size - r.index) := by
      rw [overwrite, hfront, drop_of_length_le (by omega), append_nil]
    have hlength : (r.buffer.take r.index ++ src.take (r.size - r.index)).length = r.size := by
      rw [length_append, hfront, length_take]
      omega
    have hroom : (src.drop (r.size - r.index)).length ≤ (r.buffer.take r.index).length := by
      rw [hback, length_take]
      omega
    have hsecond : overwrite (r.buffer.take r.index ++ src.take (r.size - r.index)) 0
        (src.drop (r.size - r.index)) = src.drop (r.size - r.index) ++
          ((r.buffer.take r.index).drop (src.length - (r.size - r.index)) ++
            src.take (r.size - r.index)) := by
      rw [overwrite, take_zero, nil_append, zero_add, drop_append_of_le_length hroom, hback]
    rw [hfirst]
    refine ⟨?_, ?_, ?_⟩
    · show src.length - (r.size - r.index) <
        (overwrite (r.buffer.take r.index ++ _) 0 _).length
      rw [length_overwrite (by rw [hback, hlength]; omega), hlength]
      omega
    · show (overwrite (r.buffer.take r.index ++ _) 0 _).length = r.size
      rw [length_overwrite (by rw [hback, hlength]; omega), hlength]
    · have hdrop : (r.buffer.drop r.index).length = r.size - r.index := length_drop
      have htake : (r.buffer.take r.index).length = r.index := by
        rw [length_take]
        omega
      have hpast : (r.oldestFirst ++ src).drop src.length =
          (r.buffer.take r.index).drop (src.length - (r.size - r.index)) ++ src := by
        rw [oldestFirst, append_assoc, drop_append, hdrop,
          drop_of_length_le (by omega), nil_append,
          drop_append_of_le_length (by omega)]
      rw [hpast, oldestFirst]
      dsimp only
      rw [hsecond, drop_left' hback, take_left' hback, append_assoc, take_append_drop]

/-- **A block of any length.**  The ring holds what it held, with the block behind it, as far as
there is room. -/
theorem write_facts (h : Valid r) (src : List α) :
    Valid (r.write src) ∧ (r.write src).size = r.size ∧
      (r.write src).oldestFirst = (r.oldestFirst ++ src).drop src.length := by
  rw [write]
  split
  next hnil =>
    rw [length_eq_zero_iff.1 hnil, append_nil]
    exact ⟨h, rfl, rfl⟩
  split
  next hlarge =>
    have hpos : 0 < r.size := zero_lt_of_lt h
    have hvalid : Valid { r with index := (r.index + (src.length - r.size)) % r.size } :=
      mod_lt _ hpos
    have hlength : (src.drop (src.length - r.size)).length = r.size := by
      rw [length_drop]
      omega
    obtain ⟨hvalid', hsize, hold⟩ := writeFitting_facts hvalid (le_of_eq hlength)
    have hother : { r with index := (r.index + (src.length - r.size)) % r.size }.oldestFirst.length
        = r.size := length_oldestFirst _
    have hgone : r.oldestFirst.drop src.length = [] :=
      drop_of_length_le (by rw [length_oldestFirst]; omega)
    refine ⟨hvalid', hsize, ?_⟩
    rw [hold, hlength, drop_left' hother, drop_append, hgone, length_oldestFirst, nil_append]
  next hsmall => exact writeFitting_facts h (Nat.le_of_not_lt hsmall)

theorem put_eq_write (h : Valid r) (x : α) : r.put x = r.write [x] := by
  have hindex : r.index < r.buffer.length := h
  have hsize : r.size = r.buffer.length := rfl
  have hset : r.buffer.set r.index x = overwrite r.buffer r.index [x] := by
    rw [overwrite, set_eq_take_append_cons_drop, if_pos hindex, append_assoc]
    rfl
  rw [write, if_neg (by simp), if_neg (by rw [length_singleton]; omega), writeFitting,
    if_pos (by rw [length_singleton]; omega), put, hset]
  rfl

theorem ext_of_oldestFirst {r' : HistoryRing α} (h : Valid r) (hindex : r.index = r'.index)
    (hsize : r.size = r'.size) (hold : r.oldestFirst = r'.oldestFirst) : r = r' := by
  obtain ⟨buffer, index⟩ := r
  obtain ⟨buffer', index'⟩ := r'
  obtain rfl : index = index' := hindex
  have hdrop : (buffer.drop index).length = (buffer'.drop index).length := by
    rw [length_drop, length_drop]
    exact congrArg (· - index) hsize
  obtain ⟨hback, hfront⟩ := append_inj hold hdrop
  rw [← take_append_drop index buffer, hback, hfront, take_append_drop]

theorem index_write (h : Valid r) (src : List α) :
    (r.write src).index = (r.index + src.length) % r.size := by
  have hlt : r.index < r.size := h
  have hfitting (index : ℕ) (hindex : index < r.size) (src : List α)
      (hsrc : src.length ≤ r.size) :
      (writeFitting { r with index } src).index = (index + src.length) % r.size := by
    rw [writeFitting]
    show HistoryRing.index (if index + src.length ≤ r.size then _ else _) = _
    split
    next hone =>
      show (if index + src.length = r.size then 0 else index + src.length) = _
      split
      next hend => rw [hend, mod_self]
      next hend => rw [mod_eq_of_lt (by omega)]
    next htwo =>
      show src.length - (r.size - index) = _
      rw [mod_eq_sub_mod (by omega), mod_eq_of_lt (by omega)]
      omega
  rw [write]
  split
  next hnil => rw [hnil, add_zero, mod_eq_of_lt hlt]
  split
  next hlarge =>
    have hlength : (src.drop (src.length - r.size)).length = r.size := by
      rw [length_drop]
      omega
    dsimp only
    rw [hfitting _ (mod_lt _ (by omega)) _ hlength.le, hlength, add_mod_right, mod_mod,
      ← add_mod_right (r.index + (src.length - r.size)), add_assoc,
      Nat.sub_add_cancel hlarge.le]
  next hsmall => exact hfitting r.index hlt src (Nat.le_of_not_lt hsmall)

/-- A block and one more element. -/
theorem put_write (h : Valid r) (src : List α) (x : α) :
    (r.write src).put x = r.write (src ++ [x]) := by
  obtain ⟨hvalid, hsize, hold⟩ := write_facts h src
  obtain ⟨hvalid', hsize', hold'⟩ := write_facts h (src ++ [x])
  rw [put_eq_write hvalid]
  obtain ⟨hvalid'', hsize'', hold''⟩ := write_facts hvalid [x]
  apply ext_of_oldestFirst hvalid''
  · rw [index_write hvalid, index_write h, index_write h, hsize, mod_add_mod, add_assoc,
      length_append]
  · rw [hsize'', hsize, hsize']
  · rw [hold'', hold, hold', ← append_assoc, length_append, ← drop_drop,
      @drop_append_of_le_length _ (r.oldestFirst ++ src)]
    rw [length_append]
    omega

/-- The ring has seen `past`: it holds the last of its elements, in order, behind what it held
before. -/
structure Remembers (r : HistoryRing α) (n : ℕ) (past : List α) : Prop where
  valid : Valid r
  size_eq : r.size = n
  oldestFirst_eq : ∃ old : List α, old.length = n ∧ r.oldestFirst = (old ++ past).drop past.length

theorem remembers_nil (h : Valid r) : Remembers r r.size [] :=
  ⟨h, rfl, r.oldestFirst, length_oldestFirst r, (append_nil _).symm⟩

/-- **A ring that saw `past` and then a block saw both.** -/
theorem Remembers.write {n : ℕ} (h : Remembers r n past) (src : List α) :
    Remembers (r.write src) n (past ++ src) := by
  obtain ⟨hvalid, hsize, old, hold, hfirst⟩ := h
  obtain ⟨hvalid', hsize', hfirst'⟩ := write_facts hvalid src
  refine ⟨hvalid', hsize'.trans hsize, old, hold, ?_⟩
  rw [hfirst', hfirst, ← append_assoc, length_append, ← drop_drop,
    @drop_append_of_le_length _ (old ++ past)]
  rw [length_append]
  omega

theorem Remembers.put {n : ℕ} (h : Remembers r n past) (x : α) :
    Remembers (r.put x) n (past ++ [x]) := by
  rw [put_eq_write h.valid]
  exact h.write [x]

/-- What a ring holds that saw at least as much as it can hold. -/
theorem Remembers.last {n : ℕ} (h : Remembers r n past) (hn : n ≤ past.length) :
    r.oldestFirst = past.drop (past.length - n) := by
  obtain ⟨-, -, old, hold, hfirst⟩ := h
  rw [hfirst, drop_append, drop_of_length_le (by omega), nil_append, hold]

end HistoryRing
