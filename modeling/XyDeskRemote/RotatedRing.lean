/-
# Circular buffers as rotated lists

The row of a circular buffer begins at the slot `head` and goes on in slot 0 when it passes the
last slot.  Rotated by `head`, the array is the row followed by the slots that are free, and what
a queue does to its array is done to that list.
-/
import Mathlib.Data.List.Rotate
import Mathlib.Data.Nat.ModEq
import XyDeskRemote.ByteBuffer

open List

namespace RotatedRing

variable {α : Type*} {l row free front back : List α} {head k : ℕ} {x : α}

/-- The slot `k` places behind `head` is written. -/
theorem rotate_set (hhead : head < l.length) (hk : k < l.length) :
    (l.set ((head + k) % l.length) x).rotate head = (l.rotate head).set k x := by
  apply ext_getElem?
  intro i
  by_cases hi : i < l.length
  · rw [getElem?_rotate (by rwa [length_set]), length_set, getElem?_set,
      getElem?_set, length_rotate, getElem?_rotate hi]
    have hslot : (head + k) % l.length = (i + head) % l.length ↔ k = i := by
      rw [Nat.add_comm head k]
      constructor
      · intro h
        have hki : k ≡ i [MOD l.length] := Nat.ModEq.add_right_cancel' head h
        rwa [Nat.ModEq, Nat.mod_eq_of_lt hk, Nat.mod_eq_of_lt hi] at hki
      · rintro rfl
        rfl
    simp only [hslot, hk, Nat.mod_lt _ (Nat.zero_lt_of_lt hhead), if_true]
  · rw [getElem?_eq_none, getElem?_eq_none]
    · rw [length_set, length_rotate]
      omega
    · rw [length_rotate, length_set]
      omega

/-- The row begins one slot later. -/
theorem rotate_add_one (h : l.rotate head = x :: row) :
    l.rotate ((head + 1) % l.length) = row ++ [x] := by
  rw [rotate_mod, ← rotate_rotate, h, rotate_cons_succ, rotate_zero]

/-- The row and the free slots, as the array has them. -/
theorem drop_append_take (hhead : head ≤ l.length) (h : l.rotate head = row ++ free) :
    l.drop head ++ l.take head = row ++ free := by
  rw [← h, rotate_eq_drop_append_take hhead]

/-- **A full array has grown**, and all slots in front of its head were moved. -/
theorem rotate_grow (h : (front ++ back).rotate front.length = row) {slots : ℕ}
    (hslots : front.length ≤ slots) :
    (replicate front.length x ++
        (back ++ (front ++ replicate (slots - front.length) x))).rotate front.length =
      row ++ replicate slots x := by
  rw [rotate_append_length_eq] at h
  have hrotate := rotate_append_length_eq (replicate front.length x)
    (back ++ (front ++ replicate (slots - front.length) x))
  rw [length_replicate] at hrotate
  rw [hrotate, ← h, append_assoc, append_assoc, append_assoc,
    replicate_append_replicate, Nat.sub_add_cancel hslots]

/-- **A full array has grown**, but by too few slots: the first ones of `front` were moved into
them, and the others to the front. -/
theorem rotate_grow_short (h : (front ++ back).rotate front.length = row) {slots : ℕ}
    (hslots : slots ≤ front.length) :
    (front.drop slots ++ (replicate slots x ++
        (back ++ front.take slots))).rotate front.length = row ++ replicate slots x := by
  rw [rotate_append_length_eq] at h
  have hrotate := rotate_append_length_eq (front.drop slots ++ replicate slots x)
    (back ++ front.take slots)
  rw [length_append, length_drop, length_replicate, Nat.sub_add_cancel hslots] at hrotate
  rw [← append_assoc, hrotate, ← h, append_assoc, ← append_assoc (front.take slots),
    take_append_drop, ← append_assoc]

end RotatedRing
