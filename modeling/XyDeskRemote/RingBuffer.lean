import Mathlib.Data.List.Range
/-
# Circular buffers

An array of slots that is used as a queue: `count` values stand in a row from slot `head`
on, and the row goes on in slot 0 when it passes the last slot.  A slot without a value is
`none`.

`Holds b xs` says that the row is the list `xs`.  There is one lemma for each thing a queue
does to its buffer: a value is put behind the row or taken back from there, the last value
is replaced, the first one is taken, and the row is copied to the start of a larger array.
-/

open List Nat

/-- The slots, and the two ends of the row. -/
structure RingBuffer (α : Type*) where
  slots : List (Option α)
  head : ℕ
  count : ℕ
  deriving DecidableEq

namespace RingBuffer

variable {α : Type*}

/-- The number of slots. -/
def size (b : RingBuffer α) : ℕ := b.slots.length

/-- The slot of the `i`-th value of the row. -/
def index (b : RingBuffer α) (i : ℕ) : ℕ := (b.head + i) % b.size

/-- What stands in slot `k`. -/
def read (b : RingBuffer α) (k : ℕ) : Option α := b.slots[k]?.join

/-- A slot is written. -/
def write (b : RingBuffer α) (k : ℕ) (v : Option α) : RingBuffer α :=
  { b with slots := b.slots.set k v }

/-- An array of `n` empty slots. -/
def alloc (n : ℕ) : RingBuffer α := ⟨replicate n none, 0, 0⟩

/-- A value behind the row. -/
def put (b : RingBuffer α) (x : α) : RingBuffer α :=
  { b.write (b.index b.count) (some x) with count := b.count + 1 }

/-- The last value is taken back. -/
def unput (b : RingBuffer α) : RingBuffer α :=
  { b.write (b.index (b.count - 1)) none with count := b.count - 1 }

/-- The first value is taken. -/
def take (b : RingBuffer α) : RingBuffer α :=
  { b.write b.head none with head := (b.head + 1) % b.size, count := b.count - 1 }

/-- The row at the start of an array of `n` slots. -/
def linearize (b : RingBuffer α) (n : ℕ) : RingBuffer α :=
  { slots := ((range b.count).map fun i => b.read (b.index i)) ++
      replicate (n - b.count) none
    head := 0
    count := b.count }

/-- `n` slots from `src` on are copied to the slots from `dst` on, as if all at once. -/
def copySlots (slots : List (Option α)) (dst src n : ℕ) : List (Option α) :=
  slots.mapIdx fun k v => if dst ≤ k ∧ k < dst + n then slots[src + (k - dst)]?.join else v

/-- `n` slots from `start` on are emptied. -/
def clearSlots (slots : List (Option α)) (start n : ℕ) : List (Option α) :=
  slots.mapIdx fun k v => if start ≤ k ∧ k < start + n then none else v

@[simp] theorem size_write (b : RingBuffer α) (k : ℕ) (v : Option α) :
    (b.write k v).size = b.size := length_set

@[simp] theorem size_put (b : RingBuffer α) (x : α) : (b.put x).size = b.size :=
  b.size_write _ _

@[simp] theorem size_unput (b : RingBuffer α) : b.unput.size = b.size := b.size_write _ _

@[simp] theorem size_take (b : RingBuffer α) : b.take.size = b.size := b.size_write _ _

theorem size_linearize (b : RingBuffer α) {n : ℕ} (h : b.count ≤ n) :
    (b.linearize n).size = n := by
  simp only [size, linearize, length_append, length_map, length_range, length_replicate]
  omega

theorem read_write_self (b : RingBuffer α) {k : ℕ} (h : k < b.size) (v : Option α) :
    (b.write k v).read k = v := by
  rw [read, write, getElem?_set_self h]
  rfl

theorem read_write_of_ne (b : RingBuffer α) {k k' : ℕ} (h : k ≠ k') (v : Option α) :
    (b.write k v).read k' = b.read k' := by
  rw [read, write, getElem?_set_ne h]
  rfl

@[simp] theorem length_copySlots (slots : List (Option α)) (dst src n : ℕ) :
    (copySlots slots dst src n).length = slots.length := length_mapIdx

@[simp] theorem length_clearSlots (slots : List (Option α)) (start n : ℕ) :
    (clearSlots slots start n).length = slots.length := length_mapIdx

theorem copySlots_of_mem {slots : List (Option α)} {dst src n k : ℕ} (hk : k < slots.length)
    (hdst : dst ≤ k) (hn : k < dst + n) :
    (copySlots slots dst src n)[k]?.join = slots[src + (k - dst)]?.join := by
  rw [copySlots, getElem?_mapIdx, getElem?_eq_getElem hk, Option.map_some,
    if_pos ⟨hdst, hn⟩, Option.join_some]

theorem copySlots_of_notMem {slots : List (Option α)} {dst src n k : ℕ}
    (hk : k < dst ∨ dst + n ≤ k) :
    (copySlots slots dst src n)[k]?.join = slots[k]?.join := by
  rw [copySlots, getElem?_mapIdx]
  cases slots[k]? with
  | none => rfl
  | some v => rw [Option.map_some, if_neg (by omega)]

theorem clearSlots_of_notMem {slots : List (Option α)} {start n k : ℕ}
    (hk : k < start ∨ start + n ≤ k) :
    (clearSlots slots start n)[k]?.join = slots[k]?.join := by
  rw [clearSlots, getElem?_mapIdx]
  cases slots[k]? with
  | none => rfl
  | some v => rw [Option.map_some, if_neg (by omega)]

/-! ## Positions -/

section Positions

variable {b : RingBuffer α}

/-- The row passes the last slot at most once. -/
theorem index_eq (hhead : b.head < b.size) {i : ℕ} (hi : i ≤ b.size) :
    b.index i = if b.head + i < b.size then b.head + i else b.head + i - b.size := by
  rw [index]
  by_cases h : b.head + i < b.size
  · rw [if_pos h, Nat.mod_eq_of_lt h]
  · rw [if_neg h, mod_eq_sub_mod (by omega), Nat.mod_eq_of_lt (by omega)]

theorem index_lt (hhead : b.head < b.size) (i : ℕ) : b.index i < b.size :=
  mod_lt _ (by omega)

/-- Two positions of a row have two slots. -/
theorem index_ne (hhead : b.head < b.size) {i j : ℕ} (hi : i < b.size) (hj : j < b.size)
    (hij : i ≠ j) : b.index i ≠ b.index j := by
  rw [index_eq hhead (by omega), index_eq hhead (by omega)]
  split <;> split <;> omega

/-- From the next slot on, every value is one position nearer. -/
theorem index_succ (b : RingBuffer α) (i : ℕ) :
    ((b.head + 1) % b.size + i) % b.size = b.index (i + 1) := by
  rw [index, Nat.mod_add_mod, Nat.add_assoc, Nat.add_comm 1 i]

end Positions

/-! ## The row -/

/-- The row of `b` is `xs`. -/
structure Holds (b : RingBuffer α) (xs : List α) : Prop where
  head_lt : b.head < b.size
  count_eq : b.count = xs.length
  length_le : xs.length ≤ b.size
  read_index : ∀ i < xs.length, b.read (b.index i) = xs[i]?

namespace Holds

variable {b : RingBuffer α} {xs : List α} {x y : α}

theorem alloc {n : ℕ} (h : 0 < n) : Holds (alloc n : RingBuffer α) [] := by
  have hsize : (RingBuffer.alloc n : RingBuffer α).size = n := length_replicate
  refine ⟨?_, rfl, zero_le _, fun i hi => absurd hi (not_lt_zero i)⟩
  rw [hsize]
  exact h

/-- The last value of the row. -/
theorem read_last (h : Holds b (xs ++ [x])) : b.read (b.index (b.count - 1)) = some x := by
  have hlength : (xs ++ [x]).length = xs.length + 1 := length_append
  have hcount : b.count - 1 = xs.length := by
    rw [h.count_eq]
    omega
  rw [hcount, h.read_index xs.length (by omega), getElem?_append_right (Nat.le_refl _),
    Nat.sub_self, getElem?_cons_zero]

/-- The first value of the row. -/
theorem read_head (h : Holds b (x :: xs)) : b.read b.head = some x := by
  have hindex : b.index 0 = b.head := by
    rw [index, Nat.add_zero, Nat.mod_eq_of_lt h.head_lt]
  rw [← hindex, h.read_index 0 (succ_pos _), getElem?_cons_zero]

theorem put (h : Holds b xs) (hroom : b.count < b.size) : Holds (b.put x) (xs ++ [x]) := by
  have hcount := h.count_eq
  have hlength : (xs ++ [x]).length = xs.length + 1 := length_append
  refine ⟨?_, ?_, ?_, ?_⟩
  · rw [size_put]
    exact h.head_lt
  · rw [hlength, ← hcount]
    rfl
  · rw [size_put]
    omega
  · intro i hi
    have hread : (b.put x).read ((b.put x).index i) =
        (b.write (b.index b.count) (some x)).read (b.index i) := by
      rw [index, size_put]
      rfl
    rw [hread]
    by_cases hlast : i = b.count
    · rw [hlast, read_write_self b (index_lt h.head_lt _), hcount,
        getElem?_append_right (Nat.le_refl _), Nat.sub_self, getElem?_cons_zero]
    · have hne := index_ne h.head_lt hroom (by omega : i < b.size) (Ne.symm hlast)
      rw [read_write_of_ne b hne, h.read_index i (by omega), getElem?_append_left (by omega)]

theorem unput (h : Holds b (xs ++ [x])) : Holds b.unput xs := by
  have hlength : (xs ++ [x]).length = xs.length + 1 := length_append
  have hcount := h.count_eq
  have hsize := h.length_le
  refine ⟨?_, ?_, ?_, ?_⟩
  · rw [size_unput]
    exact h.head_lt
  · show b.count - 1 = xs.length
    omega
  · rw [size_unput]
    omega
  · intro i hi
    have hread : b.unput.read (b.unput.index i) =
        (b.write (b.index (b.count - 1)) none).read (b.index i) := by
      rw [index, size_unput]
      rfl
    have hne : b.index (b.count - 1) ≠ b.index i :=
      index_ne h.head_lt (by omega) (by omega) (by omega)
    rw [hread, read_write_of_ne b hne, h.read_index i (by omega), getElem?_append_left hi]

/-- The last value is replaced. -/
theorem replace (h : Holds b (xs ++ [x])) :
    Holds (b.write (b.index (b.count - 1)) (some y)) (xs ++ [y]) := by
  have hlength : ∀ z : α, (xs ++ [z]).length = xs.length + 1 := fun z => length_append
  have hcount := h.count_eq
  have hsize := h.length_le
  rw [hlength] at hcount hsize
  refine ⟨?_, ?_, ?_, ?_⟩
  · rw [size_write]
    exact h.head_lt
  · rw [hlength]
    exact hcount
  · rw [size_write, hlength]
    exact hsize
  · intro i hi
    rw [hlength] at hi
    have hindex : (b.write (b.index (b.count - 1)) (some y)).index i = b.index i := by
      rw [index, size_write]
      rfl
    rw [hindex]
    by_cases hlast : i = xs.length
    · have hpos : b.count - 1 = i := by omega
      rw [hpos, read_write_self b (index_lt h.head_lt _), hlast,
        getElem?_append_right (Nat.le_refl _), Nat.sub_self, getElem?_cons_zero]
    · have hne : b.index (b.count - 1) ≠ b.index i :=
        index_ne h.head_lt (by omega) (by omega) (by omega)
      rw [read_write_of_ne b hne, h.read_index i (by rw [hlength]; omega),
        getElem?_append_left (by omega), getElem?_append_left (by omega)]

theorem take (h : Holds b (x :: xs)) : Holds b.take xs := by
  have hlength : (x :: xs).length = xs.length + 1 := length_cons
  have hcount := h.count_eq
  have hsize := h.length_le
  refine ⟨?_, ?_, ?_, ?_⟩
  · rw [size_take]
    exact mod_lt _ (by omega)
  · show b.count - 1 = xs.length
    omega
  · rw [size_take]
    omega
  · intro i hi
    have hread : b.take.read (b.take.index i) =
        (b.write b.head none).read (b.index (i + 1)) := by
      rw [index, size_take]
      exact congrArg (b.write b.head none).read (b.index_succ i)
    have hzero : b.index 0 = b.head := by
      rw [index, Nat.add_zero, Nat.mod_eq_of_lt h.head_lt]
    have hne : b.index 0 ≠ b.index (i + 1) :=
      index_ne h.head_lt (by omega) (by omega) (by omega)
    rw [hzero] at hne
    rw [hread, read_write_of_ne b hne, h.read_index (i + 1) (by omega), getElem?_cons_succ]

theorem linearize (h : Holds b xs) {n : ℕ} (hpos : 0 < n) (hn : b.count ≤ n) :
    Holds (b.linearize n) xs := by
  have hcount := h.count_eq
  have hsize := b.size_linearize hn
  refine ⟨?_, hcount, ?_, ?_⟩
  · rw [hsize]
    exact hpos
  · rw [hsize, ← hcount]
    exact hn
  · intro i hi
    have hindex : (b.linearize n).index i = i := by
      rw [index, hsize]
      show (0 + i) % n = i
      rw [Nat.zero_add, Nat.mod_eq_of_lt (by omega)]
    have hslot : (b.linearize n).slots[i]? = some (b.read (b.index i)) := by
      rw [RingBuffer.linearize, getElem?_append_left (by simp; omega), getElem?_map,
        getElem?_range (by omega), Option.map_some]
    rw [hindex, read, hslot, Option.join_some, h.read_index i hi]

end Holds

/-- The values of the row, in order. -/
def contents (b : RingBuffer α) : List α :=
  (range b.count).filterMap fun i => b.read (b.index i)

theorem Holds.contents_eq {b : RingBuffer α} {xs : List α} (h : Holds b xs) :
    b.contents = xs := by
  have hread : ∀ i ∈ range b.count, b.read (b.index i) = xs[i]? := by
    intro i hi
    apply h.read_index
    rw [← h.count_eq]
    exact mem_range.1 hi
  rw [contents, filterMap_congr hread, h.count_eq]
  clear hread h
  induction xs using reverseRecOn with
  | nil => rfl
  | append_singleton xs x ih =>
    rw [length_append, length_singleton, range_succ, filterMap_append]
    have hfront : ∀ i ∈ range xs.length, (xs ++ [x])[i]? = xs[i]? := by
      intro i hi
      exact getElem?_append_left (mem_range.1 hi)
    rw [filterMap_congr hfront, ih]
    simp

end RingBuffer
