/-
# Checked memory

What a program does through its pointers, over lists.  An access to what the program was not
given is a fault.

A pointer that only reads is the list of what lies from it on.  A pointer that only writes and
moves on is a `Cursor`, and `Cursor.Wrote` says what was written through it.
-/
import XyDeskRemote.ByteBuffer

open List

/-- What goes wrong with an access. -/
inductive MemoryFault where
  | read
  | write
  deriving DecidableEq

namespace CheckedMemory

variable {α : Type*} {mem xs ys : List α} {x : α} {n : ℕ}

/-- What follows an access that does not fault. -/
@[simp] theorem ok_bind {ε : Type*} {β γ : Type} (b : β) (f : β → Except ε γ) :
    (Except.ok b >>= f) = f b := rfl

/-- A result has a first step behind it. -/
theorem eq_ok_of_bind {ε : Type*} {β γ : Type} {r : Except ε β} {f : β → Except ε γ} {c : γ}
    (h : r >>= f = .ok c) : ∃ b, r = .ok b ∧ f b = .ok c := by
  cases r with
  | error e => nomatch h
  | ok b => exact ⟨b, rfl, h⟩

/-- `*in`. -/
def peek : List α → Except MemoryFault α
  | [] => .error .read
  | x :: _ => .ok x

/-- `*in++`. -/
def next : List α → Except MemoryFault (α × List α)
  | [] => .error .read
  | x :: rest => .ok (x, rest)

/-- The `n` elements from `in` on. -/
def readFirst (n : ℕ) (mem : List α) : Except MemoryFault (List α) :=
  if n ≤ mem.length then .ok (mem.take n) else .error .read

@[simp] theorem peek_cons : peek (x :: mem) = .ok x := rfl

@[simp] theorem next_cons : next (x :: mem) = .ok (x, mem) := rfl

theorem readFirst_of_le (h : n ≤ mem.length) : readFirst n mem = .ok (mem.take n) := if_pos h

theorem readFirst_append (h : xs.length = n) : readFirst n (xs ++ ys) = .ok xs := by
  rw [readFirst_of_le (by rw [length_append]; omega), take_left' h]

/-- A buffer and a pointer into it. -/
structure Cursor (α : Type*) where
  buffer : List α
  pos : ℕ

namespace Cursor

variable {c d : Cursor α}

/-- Writes `xs` and moves behind them. -/
def put (c : Cursor α) (xs : List α) : Except MemoryFault (Cursor α) :=
  if c.pos + xs.length ≤ c.buffer.length then
    .ok ⟨ByteBuffer.overwrite c.buffer c.pos xs, c.pos + xs.length⟩
  else .error .write

/-- From `c` to `d`, `xs` were written. -/
structure Wrote (c : Cursor α) (xs : List α) (d : Cursor α) : Prop where
  fits : c.pos + xs.length ≤ c.buffer.length
  buffer : d.buffer = ByteBuffer.overwrite c.buffer c.pos xs
  pos : d.pos = c.pos + xs.length

theorem wrote_nil (h : c.pos ≤ c.buffer.length) : c.Wrote [] c where
  fits := h
  buffer := by simp [ByteBuffer.overwrite]
  pos := rfl

theorem Wrote.length_eq (h : c.Wrote xs d) : d.buffer.length = c.buffer.length := by
  rw [h.buffer, ByteBuffer.length_overwrite h.fits]

/-- What is written in two steps. -/
theorem Wrote.trans {e : Cursor α} (h : c.Wrote xs d) (h' : d.Wrote ys e) :
    c.Wrote (xs ++ ys) e := by
  have hfits := h'.fits
  rw [h.length_eq, h.pos] at hfits
  have hpos : (c.buffer.take c.pos).length = c.pos := by
    rw [length_take]
    omega
  constructor
  · rw [length_append]
    omega
  · rw [h'.buffer, h.buffer, h.pos]
    -- the second write begins where the first one ends
    have hfront : (c.buffer.take c.pos ++ xs).length = c.pos + xs.length := by
      rw [length_append, hpos]
    unfold ByteBuffer.overwrite
    rw [take_left' hfront, ← drop_drop, drop_left' hfront, drop_drop,
      length_append, append_assoc, Nat.add_assoc]
    simp only [append_assoc]
  · rw [h'.pos, h.pos, length_append, Nat.add_assoc]

/-- A write with room for it. -/
theorem wrote_put (h : c.pos + xs.length ≤ c.buffer.length) :
    ∃ d, c.put xs = .ok d ∧ c.Wrote xs d :=
  ⟨_, if_pos h, h, rfl, rfl⟩

/-- What was written lies at the pointer. -/
theorem Wrote.written (h : c.Wrote xs d) : (d.buffer.drop c.pos).take xs.length = xs := by
  have hpos : (c.buffer.take c.pos).length = c.pos := by
    rw [length_take]
    have := h.fits
    omega
  rw [h.buffer, ByteBuffer.overwrite, append_assoc, drop_left' hpos, take_left]

/-- What was written from the start of a buffer on. -/
theorem Wrote.front (h : Wrote ⟨mem, 0⟩ xs d) : d.buffer.take xs.length = xs := h.written

end Cursor

end CheckedMemory
