/-
# A store with expiry

A key-value store whose entries may expire: `put` says for how many seconds an entry may
be read, `get` reads it until then.  Every call is atomic and happens at a time in
milliseconds.
-/
import Mathlib.Logic.Function.Basic

/-- The entries of a store, each with the time it expires at, if it does. -/
structure ExpiringStore (K V : Type*) where
  entries : K → Option (V × Option Nat)

namespace ExpiringStore

variable {K V : Type*}

/-- No entries. -/
def empty : ExpiringStore K V := ⟨fun _ => none⟩

/-- An entry that may still be read at `t`. -/
def liveAt (t : Nat) (e : V × Option Nat) : Bool :=
  match e.2 with
  | none => true
  | some expiresAt => t < expiresAt

/-- The value of a key at time `t`. -/
def get (s : ExpiringStore K V) (k : K) (t : Nat) : Option V :=
  (s.entries k).bind fun e => if liveAt t e then some e.1 else none

theorem get_of_entry {s : ExpiringStore K V} {k : K} {v : V} {expiresAt : Nat}
    (h : s.entries k = some (v, some expiresAt)) (t : Nat) :
    s.get k t = if t < expiresAt then some v else none := by
  rw [get, h]
  show (if decide (t < expiresAt) = true then some v else none) = _
  simp only [decide_eq_true_eq]

/-- What is not there is not read. -/
theorem get_of_entry_none {s : ExpiringStore K V} {k : K} (h : s.entries k = none) (t : Nat) :
    s.get k t = none := by
  rw [get, h]
  rfl

variable [DecidableEq K]

/-- Write a value at time `t`, for `ttl` seconds when that is given. -/
def put (s : ExpiringStore K V) (k : K) (v : V) (ttl : Option Nat) (t : Nat) :
    ExpiringStore K V :=
  ⟨Function.update s.entries k (some (v, ttl.map fun seconds => t + seconds * 1000))⟩

/-! ## What the calls change -/

section Entries

variable (s : ExpiringStore K V) {k k' : K} (v : V) (ttl : Option Nat) (t : Nat)

@[simp] theorem entries_put_self :
    (s.put k v ttl t).entries k = some (v, ttl.map fun seconds => t + seconds * 1000) :=
  Function.update_self ..

theorem entries_put_of_ne (h : k' ≠ k) : (s.put k v ttl t).entries k' = s.entries k' :=
  Function.update_of_ne h ..

end Entries

/-- A value is read until its time is over. -/
theorem get_put_self (s : ExpiringStore K V) (k : K) (v : V) (ttl t t' : Nat) :
    (s.put k v (some ttl) t).get k t' = if t' < t + ttl * 1000 then some v else none :=
  get_of_entry (entries_put_self ..) t'

theorem get_put_of_lt (s : ExpiringStore K V) (k : K) (v : V) {ttl t t' : Nat}
    (h : t' < t + ttl * 1000) : (s.put k v (some ttl) t).get k t' = some v := by
  rw [get_put_self, if_pos h]

/-- The other keys keep their values. -/
theorem get_put_of_ne (s : ExpiringStore K V) {k k' : K} (h : k' ≠ k) (v : V)
    (ttl : Option Nat) (t t' : Nat) : (s.put k v ttl t).get k' t' = s.get k' t' := by
  rw [get, get, entries_put_of_ne s v ttl t h]

/-- A value without an expiry is read for good. -/
theorem get_put_none (s : ExpiringStore K V) (k : K) (v : V) (t t' : Nat) :
    (s.put k v none t).get k t' = some v := by
  rw [get, entries_put_self]
  rfl

end ExpiringStore
