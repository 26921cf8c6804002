/-
# Matches of RDP8 segments

A match repeats bytes of the history.  `zgfx.c` reads them from the ring in one piece or in two,
as far as the distance goes, and copies what it has got again and again, twice as much each time;
then it writes the block into the ring.
-/
import Mathlib.Data.List.GetD
import XyDeskRemote.Zgfx

open HistoryRing List Nat

namespace Zgfx

variable {seed : List UInt8}

/-! ## Bytes over and over again -/

/-- The first `n` bytes of `seed`, over and over again. -/
def cycle (seed : List UInt8) (n : ℕ) : List UInt8 :=
  (range n).map fun i => seed.getD (i % seed.length) 0

@[simp] theorem length_cycle (seed : List UInt8) (n : ℕ) : (cycle seed n).length = n := by
  rw [cycle, length_map, length_range]

theorem getElem?_cycle {n i : ℕ} (h : i < n) :
    (cycle seed n)[i]? = some (seed.getD (i % seed.length) 0) := by
  rw [cycle, getElem?_map, getElem?_range h, Option.map_some]

/-- Bytes that are not over yet. -/
theorem cycle_of_le {n : ℕ} (h : n ≤ seed.length) : cycle seed n = seed.take n := by
  apply ext_getElem?
  intro i
  by_cases hi : i < n
  · rw [getElem?_cycle hi, getElem?_take_of_lt hi, mod_eq_of_lt (by omega),
      getD_eq_getElem _ _ (by omega), getElem?_eq_getElem (by omega)]
  · rw [getElem?_eq_none (by rw [length_cycle]; omega),
      getElem?_eq_none (by rw [length_take]; omega)]

theorem cycle_succ (seed : List UInt8) (n : ℕ) :
    cycle seed (n + 1) = cycle seed n ++ [seed.getD (n % seed.length) 0] := by
  rw [cycle, range_succ, map_append]
  rfl

/-- Full turns, and a part of them once more. -/
theorem cycle_add {m bytes : ℕ} (hm : seed.length ∣ m) (hbytes : bytes ≤ m) :
    cycle seed m ++ (cycle seed m).take bytes = cycle seed (m + bytes) := by
  apply ext_getElem?
  intro i
  by_cases hi : i < m
  · rw [getElem?_append_left (by rwa [length_cycle]), getElem?_cycle hi, getElem?_cycle (by omega)]
  · rw [getElem?_append_right (by rw [length_cycle]; omega), length_cycle]
    by_cases hi' : i < m + bytes
    · obtain ⟨turns, rfl⟩ := hm
      have hback : i % seed.length = (i - seed.length * turns) % seed.length := by
        conv_lhs => rw [← Nat.sub_add_cancel (Nat.le_of_not_lt hi), Nat.add_mul_mod_self_left]
      rw [getElem?_take_of_lt (by omega), getElem?_cycle (by omega), getElem?_cycle hi', hback]
    · rw [getElem?_eq_none (by rw [length_take, length_cycle]; omega),
        getElem?_eq_none (by rw [length_cycle]; omega)]

/-- The rest of a match, copied from what there is of it. -/
theorem repeatMatch_cycle {valid bytesLeft : ℕ} (hvalid : seed.length ∣ valid)
    (hpos : 0 < valid) :
    repeatMatch (cycle seed valid) valid bytesLeft = cycle seed (valid + bytesLeft) := by
  induction bytesLeft using Nat.strong_induction_on generalizing valid with
  | _ bytesLeft ih =>
    rw [repeatMatch]
    split
    next hend =>
      rw [hend.resolve_right hpos.ne', add_zero]
    next hmore =>
      dsimp only
      rw [cycle_add hvalid (min_le_left _ _)]
      by_cases hlast : bytesLeft ≤ valid
      · rw [min_eq_right hlast, Nat.sub_self, repeatMatch, if_pos (Or.inl rfl)]
      · rw [Nat.min_eq_left (by omega), ← mul_two,
          ih (bytesLeft - valid) (by omega) (Dvd.dvd.mul_right hvalid 2) (by omega)]
        congr 1
        omega

/-! ## The byte that lies some positions back -/

variable {ring : HistoryRing UInt8} {distance : ℕ}

/-- The byte that lies `distance` positions back in the history. -/
def lookBack (ring : HistoryRing UInt8) (distance : ℕ) : UInt8 :=
  ring.buffer.getD ((ring.index + ring.size - distance) % ring.size) 0

/-- Byte after byte is appended to the history, each of them the one that lies `distance`
positions back: the history behind it, and the bytes. -/
def copyBytes (ring : HistoryRing UInt8) (distance : ℕ) : ℕ → HistoryRing UInt8 × List UInt8
  | 0 => (ring, [])
  | n + 1 =>
    let c := lookBack ring distance
    let rest := copyBytes (ring.put c) distance n
    (rest.1, c :: rest.2)

/-- The end of the history. -/
def recent (ring : HistoryRing UInt8) (distance : ℕ) : List UInt8 :=
  ring.oldestFirst.drop (ring.size - distance)

theorem length_recent (hdistance : distance ≤ ring.size) :
    (recent ring distance).length = distance := by
  rw [recent, length_drop, length_oldestFirst]
  omega

/-- The end of the history, as the buffer has it. -/
theorem recent_eq (h : ring.Valid) (hdistance : distance ≤ ring.size) :
    recent ring distance =
      if distance ≤ ring.index then (ring.buffer.take ring.index).drop (ring.index - distance)
      else ring.buffer.drop (ring.index + ring.size - distance) ++ ring.buffer.take ring.index := by
  have hlt : ring.index < ring.size := h
  have hback : (ring.buffer.drop ring.index).length = ring.size - ring.index := length_drop
  rw [recent, oldestFirst]
  split
  next hnear =>
    rw [drop_append, drop_of_length_le (by omega), nil_append, hback]
    congr 1
    omega
  next hfar =>
    rw [drop_append_of_le_length (by omega), drop_drop]
    congr 2
    omega

theorem lookBack_eq (h : ring.Valid) (hpos : 1 ≤ distance) (hdistance : distance ≤ ring.size) :
    lookBack ring distance = (recent ring distance).getD 0 0 := by
  have hlt : ring.index < ring.size := h
  rw [lookBack, recent_eq h hdistance, getD_eq_getElem?_getD, getD_eq_getElem?_getD]
  congr 1
  split
  next hnear =>
    have hindex : (ring.index + ring.size - distance) % ring.size = ring.index - distance := by
      rw [show ring.index + ring.size - distance = ring.index - distance + ring.size by omega,
        add_mod_right, mod_eq_of_lt (by omega)]
    rw [hindex, getElem?_drop, add_zero, getElem?_take_of_lt (by omega)]
  next hfar =>
    have hlength : 0 < (ring.buffer.drop (ring.index + ring.size - distance)).length := by
      rw [length_drop]
      show 0 < ring.size - _
      omega
    rw [mod_eq_of_lt (by omega), getElem?_append_left hlength, getElem?_drop, add_zero]

/-- The byte that comes behind `m` bytes of the match. -/
theorem lookBack_write (h : ring.Valid) (hpos : 1 ≤ distance) (hdistance : distance ≤ ring.size)
    (m : ℕ) :
    lookBack (ring.write (cycle (recent ring distance) m)) distance =
      (recent ring distance).getD (m % distance) 0 := by
  obtain ⟨hvalid, hsize, hold⟩ := write_facts h (cycle (recent ring distance) m)
  have hlength := length_recent hdistance
  rw [lookBack_eq hvalid hpos (by rwa [hsize]), getD_eq_getElem?_getD, getD_eq_getElem?_getD]
  congr 1
  -- the history and the bytes of the match behind it
  rw [recent, hsize, hold, drop_drop, getElem?_drop, add_zero, length_cycle]
  by_cases hm : m < distance
  · rw [getElem?_append_left (by rw [length_oldestFirst]; omega),
      mod_eq_of_lt hm, recent, getElem?_drop]
    congr 1
    omega
  · rw [getElem?_append_right (by rw [length_oldestFirst]; omega),
      length_oldestFirst, getElem?_cycle (by omega), hlength]
    have hback : (m + (ring.size - distance) - ring.size) % distance = m % distance := by
      rw [show m + (ring.size - distance) - ring.size = m - distance by omega]
      exact (Nat.mod_eq_sub_mod (Nat.le_of_not_lt hm)).symm
    have hlt : m % distance < (recent ring distance).length := by
      rw [hlength]
      exact mod_lt m hpos
    rw [hback, getD_eq_getElem _ _ hlt, getElem?_eq_getElem hlt]

/-- **Byte after byte**, behind `m` bytes of the match. -/
theorem copyBytes_write (h : ring.Valid) (hpos : 1 ≤ distance) (hdistance : distance ≤ ring.size)
    (m count : ℕ) :
    (copyBytes (ring.write (cycle (recent ring distance) m)) distance count).1 =
        ring.write (cycle (recent ring distance) (m + count)) ∧
      cycle (recent ring distance) m ++
          (copyBytes (ring.write (cycle (recent ring distance) m)) distance count).2 =
        cycle (recent ring distance) (m + count) := by
  induction count generalizing m with
  | zero => exact ⟨rfl, append_nil _⟩
  | succ count ih =>
    obtain ⟨hring, hbytes⟩ := ih (m + 1)
    have hput : (ring.write (cycle (recent ring distance) m)).put
        (lookBack (ring.write (cycle (recent ring distance) m)) distance) =
          ring.write (cycle (recent ring distance) (m + 1)) := by
      rw [put_write h, lookBack_write h hpos hdistance, cycle_succ, length_recent hdistance]
    rw [copyBytes, hput]
    dsimp only
    rw [hring, add_assoc, add_comm 1] at *
    refine ⟨rfl, ?_⟩
    rw [← hbytes, cycle_succ, append_assoc, lookBack_write h hpos hdistance,
      length_recent hdistance]
    rfl

/-- **What is read from the ring**, in one piece or in two, and repeated. -/
theorem ringRead_eq (h : ring.Valid) (hsize : ring.size ≤ 2 ^ 31) (hpos : 1 ≤ distance)
    (hdistance : distance ≤ ring.size) (count : ℕ) :
    ringRead ring distance count = cycle (recent ring distance) count := by
  have hlt : ring.index < ring.size := h
  have hlength := length_recent hdistance
  have hindex : (ring.index + ring.size + 2 ^ 32 - distance) % 2 ^ 32 % ring.size =
      (ring.index + ring.size - distance) % ring.size := by
    rw [show ring.index + ring.size + 2 ^ 32 - distance =
      ring.index + ring.size - distance + 2 ^ 32 by omega, add_mod_right,
      mod_eq_of_lt (show ring.index + ring.size - distance < 2 ^ 32 by omega)]
  -- the part that is read
  have hfirst : (if (ring.index + ring.size - distance) % ring.size + min count distance ≤ ring.size
      then (ring.buffer.drop ((ring.index + ring.size - distance) % ring.size)).take
        (min count distance)
      else ring.buffer.drop ((ring.index + ring.size - distance) % ring.size) ++
        ring.buffer.take (min count distance -
          (ring.size - (ring.index + ring.size - distance) % ring.size))) =
      (recent ring distance).take (min count distance) := by
    have hbuffer : ring.buffer.length = ring.size := rfl
    rw [recent_eq h hdistance]
    by_cases hnear : distance ≤ ring.index
    · have hback : (ring.index + ring.size - distance) % ring.size = ring.index - distance := by
        rw [show ring.index + ring.size - distance = ring.index - distance + ring.size by omega,
          add_mod_right, mod_eq_of_lt (by omega)]
      rw [hback, if_pos (by omega), if_pos hnear, drop_take, take_take]
      congr 1
      omega
    · rw [mod_eq_of_lt (by omega), if_neg hnear]
      have hback : (ring.buffer.drop (ring.index + ring.size - distance)).length =
          ring.size - (ring.index + ring.size - distance) := length_drop
      split
      next hone => rw [take_append_of_le_length (by omega)]
      next htwo =>
        have hall : (ring.buffer.drop (ring.index + ring.size - distance)).take
            (min count distance) = ring.buffer.drop (ring.index + ring.size - distance) :=
          take_of_length_le (by omega)
        rw [take_append, hall, take_take, hback]
        congr 2
        omega
  rw [ringRead]
  dsimp only
  rw [hindex, hfirst]
  by_cases hshort : count ≤ distance
  · rw [Nat.min_eq_left hshort, Nat.sub_self, repeatMatch, if_pos (Or.inl rfl),
      cycle_of_le (by omega)]
  · have hturn : (recent ring distance).take distance = cycle (recent ring distance) distance := by
      rw [cycle_of_le hlength.ge]
    rw [min_eq_right (by omega), hturn, repeatMatch_cycle (dvd_of_eq hlength) (by omega),
      Nat.add_sub_cancel' (by omega)]

/-- **A match is copied byte after byte**, as far as anyone can tell. -/
theorem ringRead_write (hsize : ring.size = historyBufferSize) (hindex : ring.index < ring.size)
    (hpos : 1 ≤ distance) (hdistance : distance ≤ historyBufferSize) (count : ℕ) :
    (ring.write (ringRead ring distance count), ringRead ring distance count) =
      copyBytes ring distance count := by
  have hread := ringRead_eq hindex (by rw [hsize]; decide) hpos (hdistance.trans hsize.ge) count
  obtain ⟨hring, hbytes⟩ := copyBytes_write hindex hpos (hdistance.trans hsize.ge) 0 count
  have hnone : ring.write (cycle (recent ring distance) 0) = ring := rfl
  rw [hnone, zero_add] at hring hbytes
  rw [hread, ← hring, ← hbytes]
  rfl

/-- A match that goes on after itself, in a ring that has three bytes. -/
theorem ringRead_write_sample : ∃ ring : HistoryRing UInt8,
    ring.Remembers historyBufferSize [1, 2, 3] ∧
      (ring.write (ringRead ring 3 7), ringRead ring 3 7) = copyBytes ring 3 7 :=
  have hring := remembers_newContext.write [1, 2, 3]
  ⟨_, hring, ringRead_write hring.size_eq hring.valid (by decide) (by decide) 7⟩

end Zgfx
