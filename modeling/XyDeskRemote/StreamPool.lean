/-
# Streams from a pool

`StreamPool_Take`, `StreamPool_Return`, `Stream_AddRef` and `Stream_Release`: streams go from an
array of available ones to an array of used ones and back, and a count in the stream says when
its last user is gone.

The arrays grow and shrink with their use.  Nothing looks at whether growing them succeeded, a
returned stream may have other users, and the count has 32 bits.
-/
import Mathlib.Data.List.GetD
import Mathlib.Data.List.Range
import XyDeskRemote.LabelledRun
import XyDeskRemote.PoolBooks

open LabelledRun Function List

/-! ## The arrays -/

/-- An array of a pool: its entries, the capacity it believes in and the one that is allocated. -/
structure EntryArray where
  entries : List ℕ := []
  capacity : ℕ := 0
  allocated : ℕ := 0

/-- What a pool must not do. -/
inductive PoolFault where
  | overrun
  | invalidStream
  deriving DecidableEq

namespace EntryArray

/-- The capacity to allocate, 0 for none. -/
def newCapacity (a : EntryArray) (count : ℕ) : ℕ :=
  let size := a.entries.length
  if a.capacity = 0 then size + count
  else if a.capacity < size + count then (size + count + 2) / 2 * 3
  else if size + count < a.capacity / 3 then a.capacity / 2
  else 0

/-- `StreamPool_EnsureCapacity`, and what `realloc` answers if it is asked. -/
def ensureCapacity (a : EntryArray) (count : ℕ) (reallocated : Bool) : EntryArray × Bool :=
  if 0 < a.newCapacity count then
    if reallocated then
      ({ a with capacity := a.newCapacity count, allocated := a.newCapacity count }, true)
    else if a.capacity < a.entries.length + count then
      ({ a with capacity := a.capacity + count }, false)
    else (a, false)
  else (a, true)

/-- Writes behind the entries. -/
def append (a : EntryArray) (s : ℕ) : Except PoolFault EntryArray :=
  if a.entries.length < a.allocated then .ok { a with entries := a.entries ++ [s] }
  else .error .overrun

/-- There is no room for one more entry, and no memory for it. -/
def CannotGrow (a : EntryArray) (reallocated : Bool) : Prop :=
  a.capacity < a.entries.length + 1 ∧ reallocated = false

instance (a : EntryArray) (reallocated : Bool) : Decidable (a.CannotGrow reallocated) :=
  inferInstanceAs (Decidable (_ ∧ _))

/-- The capacity is what was allocated, and the entries fit. -/
structure Sound (a : EntryArray) : Prop where
  capacity : a.capacity = a.allocated
  pos : 0 < a.allocated
  fits : a.entries.length ≤ a.allocated

variable {a : EntryArray} {reallocated : Bool}

theorem entries_ensureCapacity (a : EntryArray) (count : ℕ) (reallocated : Bool) :
    (a.ensureCapacity count reallocated).1.entries = a.entries := by
  unfold ensureCapacity
  split_ifs <;> rfl

/-- **With the memory to grow there is room for one more.** -/
theorem Sound.ensureCapacity (h : a.Sound) (hgrow : ¬ a.CannotGrow reallocated) :
    (a.ensureCapacity 1 reallocated).1.Sound ∧
      a.entries.length < (a.ensureCapacity 1 reallocated).1.allocated := by
  have hcapacity := h.capacity
  have hpos := h.pos
  have hfits := h.fits
  unfold EntryArray.ensureCapacity
  by_cases hnew : 0 < a.newCapacity 1
  · rw [if_pos hnew]
    by_cases hdone : reallocated = true
    · -- larger or smaller, it has room
      have hroom : a.entries.length < a.newCapacity 1 := by
        revert hnew
        unfold newCapacity
        dsimp only
        split_ifs <;> omega
      rw [if_pos hdone]
      exact ⟨⟨rfl, hnew, hroom.le⟩, hroom⟩
    · have hfull : ¬ a.capacity < a.entries.length + 1 := fun hfull =>
        hgrow ⟨hfull, Bool.eq_false_iff.2 hdone⟩
      rw [if_neg hdone, if_neg hfull]
      exact ⟨h, by show a.entries.length < a.allocated; omega⟩
  · have hroom : ¬ a.capacity < a.entries.length + 1 := by
      intro hfull
      refine hnew ?_
      unfold newCapacity
      rw [if_neg (by omega), if_pos hfull]
      omega
    rw [if_neg hnew]
    exact ⟨h, by show a.entries.length < a.allocated; omega⟩

/-- One more is written behind the entries. -/
theorem Sound.append_ensureCapacity (h : a.Sound) (hgrow : ¬ a.CannotGrow reallocated) (s : ℕ) :
    ∃ b, (a.ensureCapacity 1 reallocated).1.append s = .ok b ∧ b.Sound ∧
      b.entries = a.entries ++ [s] := by
  obtain ⟨hsound, hroom⟩ := h.ensureCapacity hgrow
  have hentries := entries_ensureCapacity a 1 reallocated
  rw [← hentries] at hroom
  refine ⟨_, if_pos hroom, ⟨hsound.capacity, hsound.pos, ?_⟩, ?_⟩
  · show ((a.ensureCapacity 1 reallocated).1.entries ++ [s]).length ≤ _
    rw [length_append, length_singleton]
    exact hroom
  · show (a.ensureCapacity 1 reallocated).1.entries ++ [s] = _
    rw [hentries]

end EntryArray

/-! ## The pool -/

/-- `wStream`: how much memory it has, how much of it counts, where it is read or written, and
how many use it. -/
structure PooledStream where
  capacity : ℕ
  length : ℕ
  position : ℕ := 0
  count : ℕ := 1

/-- `Stream_EnsureValidity`. -/
def PooledStream.Valid (s : PooledStream) : Prop := s.position ≤ s.capacity ∧ s.length ≤ s.capacity

instance (s : PooledStream) : Decidable s.Valid := inferInstanceAs (Decidable (_ ∧ _))

/-- `wStreamPool`.  The streams are those that it made; a pointer to one is its index. -/
structure StreamPool where
  available : EntryArray
  used : EntryArray
  defaultSize : ℕ
  streams : List PooledStream := []

namespace StreamPool

/-- `StreamPool_New`, when its allocations succeed. -/
def new (defaultSize : ℕ) : StreamPool where
  available := (EntryArray.ensureCapacity {} 32 true).1
  used := (EntryArray.ensureCapacity {} 32 true).1
  defaultSize := defaultSize

/-- The stream behind a pointer. -/
def stream (p : StreamPool) (s : ℕ) : PooledStream := p.streams.getD s ⟨0, 0, 0, 0⟩

/-- A stream is changed. -/
def setStream (p : StreamPool) (s : ℕ) (stream : PooledStream) : StreamPool :=
  { p with streams := p.streams.set s stream }

/-- The size that is asked for. -/
def requested (p : StreamPool) (size : ℕ) : ℕ := if size = 0 then p.defaultSize else size

/-- The first available stream that is large enough. -/
def find (p : StreamPool) (size : ℕ) : Option ℕ :=
  p.available.entries.findIdx? fun s => p.requested size ≤ (p.stream s).capacity

/-- `StreamPool_AddUsed`. -/
def addUsed (p : StreamPool) (s : ℕ) (reallocated : Bool) : Except PoolFault StreamPool := do
  let used ← (p.used.ensureCapacity 1 reallocated).1.append s
  return { p with used := used }

/-- `StreamPool_Take`: the stream, if there is one. -/
def take (p : StreamPool) (size : ℕ) (streamAllocated reallocated : Bool) :
    Except PoolFault (StreamPool × Option ℕ) :=
  match p.find size with
  | none =>
    -- `Stream_New` makes no stream of no size
    if streamAllocated ∧ p.requested size ≠ 0 then do
      let s := p.streams.length
      let stream : PooledStream := { capacity := p.requested size, length := p.requested size }
      let q ← addUsed { p with streams := p.streams ++ [stream] } s reallocated
      return (q, some s)
    else .ok (p, none)
  | some index => do
    let s := p.available.entries.getD index 0
    let capacity := (p.stream s).capacity
    let shifted := { p with
      available := { p.available with entries := p.available.entries.eraseIdx index } }
    let q ← addUsed (shifted.setStream s ⟨capacity, capacity, 0, 1⟩) s reallocated
    return (q, some s)

/-- `StreamPool_Remove`: back among the available ones, unless it is there already. -/
def remove (p : StreamPool) (s : ℕ) (reallocated : Bool) : Except PoolFault StreamPool :=
  let available := (p.available.ensureCapacity 1 reallocated).1
  if ¬ (p.stream s).Valid then .error .invalidStream
  else if s ∈ available.entries then .ok { p with available := available }
  else do
    let available ← available.append s
    return { p with
      available := available
      used := { p.used with entries := p.used.entries.erase s } }

/-- `Stream_AddRef`; the count is a `DWORD`. -/
def addRef (p : StreamPool) (s : ℕ) : StreamPool :=
  p.setStream s { p.stream s with count := ((p.stream s).count + 1) % 2 ^ 32 }

/-- `Stream_Release`. -/
def release (p : StreamPool) (s : ℕ) (reallocated : Bool) : Except PoolFault StreamPool :=
  let count := (p.stream s).count - 1
  let q := p.setStream s { p.stream s with count := count }
  if count = 0 then q.remove s reallocated else .ok q

/-- `StreamPool_UsedCount`. -/
def usedCount (p : StreamPool) : ℕ := p.used.entries.length

/-! ### What the parts do -/

variable {p : StreamPool} {s t : ℕ} {x : PooledStream} {reallocated : Bool}

@[simp] theorem length_setStream : (p.setStream s x).streams.length = p.streams.length :=
  length_set

theorem stream_setStream_self (hs : s < p.streams.length) : (p.setStream s x).stream s = x := by
  unfold stream setStream
  rw [getD_eq_getElem _ _ (by simpa using hs), getElem_set_self]

theorem stream_setStream_ne (h : t ≠ s) : (p.setStream s x).stream t = p.stream t := by
  unfold stream setStream
  rw [getD_eq_getElem?_getD, getElem?_set_ne h.symm, ← getD_eq_getElem?_getD]

theorem setStream_stream (hs : s < p.streams.length) : p.setStream s (p.stream s) = p := by
  unfold setStream stream
  rw [getD_eq_getElem _ _ hs, set_getElem_self]

/-- The streams with one more behind them. -/
theorem stream_append_ne (p : StreamPool) {x : PooledStream} (h : t ≠ p.streams.length) :
    ({ p with streams := p.streams ++ [x] } : StreamPool).stream t = p.stream t := by
  unfold stream
  show (p.streams ++ [x]).getD t _ = _
  rcases Nat.lt_or_gt_of_ne h with hlt | hgt
  · rw [List.getD_append _ _ _ _ hlt]
  · rw [getD_eq_default _ _ hgt.le, getD_eq_default]
    rw [length_append, length_singleton]
    exact hgt

theorem stream_append_self (p : StreamPool) {x : PooledStream} :
    ({ p with streams := p.streams ++ [x] } : StreamPool).stream p.streams.length = x := by
  unfold stream
  show (p.streams ++ [x]).getD p.streams.length _ = x
  rw [getD_append_right _ _ _ _ le_rfl, Nat.sub_self]
  rfl

theorem valid_setStream (h : ∀ t, (p.stream t).Valid) (hx : x.Valid) (hs : s < p.streams.length)
    (t : ℕ) : ((p.setStream s x).stream t).Valid := by
  by_cases ht : t = s
  · rw [ht, stream_setStream_self hs]
    exact hx
  · rw [stream_setStream_ne ht]
    exact h t

/-- With room, or the memory for it, a stream becomes used. -/
theorem addUsed_spec (h : p.used.Sound) (hgrow : ¬ p.used.CannotGrow reallocated) (s : ℕ) :
    ∃ used, p.addUsed s reallocated = .ok { p with used := used } ∧ used.Sound ∧
      used.entries = p.used.entries ++ [s] := by
  obtain ⟨used, happend, hused⟩ := h.append_ensureCapacity hgrow s
  refine ⟨used, ?_, hused⟩
  unfold addUsed
  rw [happend]
  rfl

/-- With room, or the memory for it, a used stream becomes available. -/
theorem remove_spec (h : p.available.Sound) (hgrow : ¬ p.available.CannotGrow reallocated)
    (hvalid : (p.stream s).Valid) (hs : s ∉ p.available.entries) :
    ∃ available, p.remove s reallocated = .ok { p with
        available := available
        used := { p.used with entries := p.used.entries.erase s } } ∧ available.Sound ∧
      available.entries = p.available.entries ++ [s] := by
  obtain ⟨available, happend, havailable⟩ := h.append_ensureCapacity hgrow s
  rw [← EntryArray.entries_ensureCapacity p.available 1 reallocated] at hs
  refine ⟨available, ?_, havailable⟩
  unfold remove
  dsimp only
  rw [if_neg (not_not_intro hvalid), if_neg hs, happend]
  rfl

end StreamPool

/-! ## The pool and its users -/

/-- A pool, with the references to each of its streams that somebody holds. -/
structure PoolUse where
  pool : StreamPool
  refs : ℕ → ℕ := fun _ => 0

/-- A call, with what the allocator answers, or something that a user does to a stream. -/
inductive PoolCall where
  | take (size : ℕ) (streamAllocated reallocated : Bool)
  | addRef (s : ℕ)
  | release (s : ℕ) (reallocated : Bool)
  | giveBack (s : ℕ) (reallocated : Bool)
  | write (s capacity length position : ℕ)

namespace PoolUse

/-- A new pool. -/
def new (defaultSize : ℕ) : PoolUse := { pool := StreamPool.new defaultSize }

/-- Somebody else holds, or no longer holds, a reference to `s`. -/
def hold (u : PoolUse) (s n : ℕ) : PoolUse := { u with refs := update u.refs s n }

/-- The call is made by somebody with a reference, who then has one less if it gives one up. -/
def Allowed (u : PoolUse) : PoolCall → Prop
  | .take _ _ _ => True
  | .addRef s | .release s _ | .giveBack s _ => 0 < u.refs s
  | .write s capacity length position =>
    0 < u.refs s ∧ (u.pool.stream s).capacity ≤ capacity ∧ length ≤ capacity ∧
      position ≤ capacity

instance (u : PoolUse) : (call : PoolCall) → Decidable (u.Allowed call)
  | .take _ _ _ => inferInstanceAs (Decidable True)
  | .addRef s | .release s _ | .giveBack s _ => inferInstanceAs (Decidable (0 < u.refs s))
  | .write _ _ _ _ => inferInstanceAs (Decidable (_ ∧ _))

/-- What a call does, and the stream that it hands out. -/
def exec (u : PoolUse) : PoolCall → Except PoolFault (PoolUse × Option ℕ)
  | .take size streamAllocated reallocated => do
    let (pool, s) ← u.pool.take size streamAllocated reallocated
    return (s.elim { u with pool := pool } fun s =>
      ({ u with pool := pool } : PoolUse).hold s (u.refs s + 1), s)
  | .addRef s => .ok (({ u with pool := u.pool.addRef s } : PoolUse).hold s (u.refs s + 1), none)
  | .release s reallocated => do
    let pool ← u.pool.release s reallocated
    return (({ u with pool := pool } : PoolUse).hold s (u.refs s - 1), none)
  | .giveBack s reallocated => do
    let pool ← u.pool.remove s reallocated
    return (({ u with pool := pool } : PoolUse).hold s (u.refs s - 1), none)
  | .write s capacity length position =>
    let stream := { u.pool.stream s with
      capacity := capacity, length := length, position := position }
    .ok ({ u with pool := u.pool.setStream s stream }, none)

/-- A step of a run. -/
def step (u : PoolUse) (call : PoolCall) : Option PoolUse :=
  if u.Allowed call then (u.exec call).toOption.map Prod.fst else none

/-- The streams that somebody holds a reference to. -/
def heldStreams (u : PoolUse) : List ℕ :=
  (range u.pool.streams.length).filter fun s => 0 < u.refs s

/-- The books are in order: what is used is what is held, and nothing is there twice. -/
structure OneOwner (u : PoolUse) : Prop where
  balanced : PoolBooks.Balanced u.pool.used.entries u.pool.available.entries
  mem_used : ∀ s, s ∈ u.pool.used.entries ↔ 0 < u.refs s
  usedCount : u.pool.usedCount = u.heldStreams.length

/-- A call goes well: it writes inside of the arrays, and what it hands out nobody holds and is
as large as was asked for. -/
def GoesWell (u : PoolUse) (call : PoolCall) : Prop :=
  ∃ u' out, u.exec call = .ok (u', out) ∧ ∀ s ∈ out, u.refs s = 0 ∧
    ∀ size streamAllocated reallocated, call = .take size streamAllocated reallocated →
      u.pool.requested size ≤ (u'.pool.stream s).capacity

/-- Every call of every run goes well and leaves the books in order. -/
def OneOwnerAlways (defaultSize : ℕ) : Prop :=
  ∀ u, Reachable step (new defaultSize) u →
    u.OneOwner ∧ ∀ call, u.Allowed call → u.GoesWell call

/-- The call is spared what the pool does not look at: an array that must grow and cannot, a
stream that is returned while others use it, a count that does not fit its `DWORD`. -/
def Spared (u : PoolUse) : PoolCall → Prop
  | .take size streamAllocated reallocated =>
    (u.pool.find size).isSome ∨ streamAllocated ∧ u.pool.requested size ≠ 0 →
      ¬ u.pool.used.CannotGrow reallocated
  | .addRef s => (u.pool.stream s).count + 1 < 2 ^ 32
  | .release s reallocated =>
    (u.pool.stream s).count = 1 → ¬ u.pool.available.CannotGrow reallocated
  | .giveBack s reallocated =>
    u.refs s = 1 ∧ ¬ u.pool.available.CannotGrow reallocated
  | .write _ _ _ _ => True

/-! ### What holds of a pool that is spared -/

/-- The invariant: the books are in order, the arrays are sound, and the counts are right. -/
structure Kept (u : PoolUse) : Prop where
  balanced : PoolBooks.Balanced u.pool.used.entries u.pool.available.entries
  mem_used : ∀ s, s ∈ u.pool.used.entries ↔ 0 < u.refs s
  made : ∀ s, s ∈ u.pool.used.entries ∨ s ∈ u.pool.available.entries → s < u.pool.streams.length
  available : u.pool.available.Sound
  used : u.pool.used.Sound
  count : ∀ s, 0 < u.refs s → (u.pool.stream s).count = u.refs s
  valid : ∀ s, (u.pool.stream s).Valid

variable {u u' : PoolUse} {call : PoolCall} {out : Option ℕ}

theorem Kept.oneOwner (h : u.Kept) : u.OneOwner where
  balanced := h.balanced
  mem_used := h.mem_used
  usedCount := by
    have hmem : ∀ s, s ∈ u.pool.used.entries ↔ s ∈ u.heldStreams := by
      intro s
      rw [heldStreams, mem_filter, mem_range, decide_eq_true_eq, ← h.mem_used s]
      exact ⟨fun hs => ⟨h.made s (Or.inl hs), hs⟩, fun hs => hs.2⟩
    have hheld : u.heldStreams.Nodup := nodup_range.filter _
    exact ((perm_ext_iff_of_nodup h.balanced.nodup_held hheld).2 hmem).length_eq

/-- What is held is one of the streams that were made. -/
theorem Kept.lt_length (h : u.Kept) {s : ℕ} (hs : 0 < u.refs s) : s < u.pool.streams.length :=
  h.made s (Or.inl ((h.mem_used s).2 hs))

/-- A stream that is held and has changed, its count with the references to it. -/
theorem Kept.setStream (h : u.Kept) {s n : ℕ} {x : PooledStream} (hs : 0 < u.refs s)
    (hx : x.Valid) (hn : 0 < n) (hcount : x.count = n) :
    (PoolUse.hold { u with pool := u.pool.setStream s x } s n).Kept where
  balanced := h.balanced
  mem_used := by
    intro t
    show t ∈ u.pool.used.entries ↔ 0 < update u.refs s n t
    by_cases ht : t = s
    · subst ht
      rw [update_self, h.mem_used]
      exact ⟨fun _ => hn, fun _ => hs⟩
    · rw [update_of_ne ht, h.mem_used]
  made := by
    intro t ht
    show t < (u.pool.setStream s x).streams.length
    rw [StreamPool.length_setStream]
    exact h.made t ht
  available := h.available
  used := h.used
  count := by
    intro t
    show 0 < update u.refs s n t →
      ((u.pool.setStream s x).stream t).count = update u.refs s n t
    by_cases ht : t = s
    · subst ht
      rw [update_self, StreamPool.stream_setStream_self (h.lt_length hs)]
      exact fun _ => hcount
    · rw [update_of_ne ht, StreamPool.stream_setStream_ne ht]
      exact h.count t
  valid := StreamPool.valid_setStream h.valid hx (h.lt_length hs)

/-- The last reference is given up, and the stream is available again. -/
theorem Kept.remove (h : u.Kept) {s : ℕ} {x : PooledStream} {reallocated : Bool}
    (hs : u.refs s = 1) (hx : x.Valid) (hgrow : ¬ u.pool.available.CannotGrow reallocated) :
    ∃ pool, (u.pool.setStream s x).remove s reallocated = .ok pool ∧
      (PoolUse.hold { u with pool := pool } s (u.refs s - 1)).Kept := by
  have hpos : 0 < u.refs s := by omega
  have hused : s ∈ u.pool.used.entries := (h.mem_used s).2 hpos
  have hlt := h.lt_length hpos
  have hnot : s ∉ u.pool.available.entries := h.balanced.disjoint hused
  have hx' : ((u.pool.setStream s x).stream s).Valid := by
    rw [StreamPool.stream_setStream_self hlt]
    exact hx
  obtain ⟨available, hremove, hsound, hentries⟩ :=
    StreamPool.remove_spec (p := u.pool.setStream s x) h.available hgrow hx' hnot
  refine ⟨_, hremove, ?_⟩
  rw [hs]
  constructor
  · show PoolBooks.Balanced (u.pool.used.entries.erase s) available.entries
    rw [hentries]
    exact h.balanced.giveBack hused
  · intro t
    show t ∈ u.pool.used.entries.erase s ↔ 0 < update u.refs s 0 t
    rw [h.balanced.nodup_held.mem_erase_iff]
    by_cases ht : t = s
    · subst ht
      rw [update_self]
      exact ⟨fun hm => absurd rfl hm.1, fun hm => absurd hm (lt_irrefl 0)⟩
    · rw [update_of_ne ht, h.mem_used]
      exact ⟨fun hm => hm.2, fun hm => ⟨ht, hm⟩⟩
  · intro t ht
    show t < (u.pool.setStream s x).streams.length
    rw [StreamPool.length_setStream]
    rcases ht with ht | ht
    · exact h.made t (Or.inl (mem_of_mem_erase ht))
    · replace ht : t ∈ available.entries := ht
      rw [hentries, mem_append, mem_singleton] at ht
      rcases ht with ht | rfl
      · exact h.made t (Or.inr ht)
      · exact hlt
  · exact hsound
  · refine ⟨h.used.capacity, h.used.pos, ?_⟩
    show (u.pool.used.entries.erase s).length ≤ u.pool.used.allocated
    exact (length_erase_le).trans h.used.fits
  · intro t
    show 0 < update u.refs s 0 t →
      ((u.pool.setStream s x).stream t).count = update u.refs s 0 t
    by_cases ht : t = s
    · subst ht
      rw [update_self]
      exact fun hm => absurd hm (lt_irrefl 0)
    · rw [update_of_ne ht, StreamPool.stream_setStream_ne ht]
      exact h.count t
  · exact StreamPool.valid_setStream h.valid hx hlt

/-- What nobody holds is handed out: `p` is the pool with the stream taken out of the available
ones, or made. -/
theorem Kept.handOut (h : u.Kept) {p : StreamPool} {s : ℕ} {reallocated : Bool}
    (hbalanced : PoolBooks.Balanced (u.pool.used.entries ++ [s]) p.available.entries)
    (hused : p.used = u.pool.used) (hmade : ∀ t ∈ p.available.entries, t < p.streams.length)
    (hlength : u.pool.streams.length ≤ p.streams.length) (hs : s < p.streams.length)
    (havailable : p.available.Sound) (hsame : ∀ t, t ≠ s → p.stream t = u.pool.stream t)
    (hvalid : (p.stream s).Valid) (hcount : (p.stream s).count = 1)
    (hgrow : ¬ u.pool.used.CannotGrow reallocated) :
    ∃ pool, p.addUsed s reallocated = .ok pool ∧ pool.stream s = p.stream s ∧ u.refs s = 0 ∧
      (PoolUse.hold { u with pool := pool } s (u.refs s + 1)).Kept := by
  rw [← hused] at hgrow
  obtain ⟨used, hadd, hsound, hentries⟩ :=
    StreamPool.addUsed_spec (hused ▸ h.used) hgrow s
  rw [hused] at hentries
  have hnot : s ∉ u.pool.used.entries := by
    have hnodup := (nodup_append'.1 hbalanced.nodup_held).2.2
    exact fun hm => hnodup hm (mem_singleton_self s)
  have hfree : u.refs s = 0 := Nat.eq_zero_of_not_pos fun hpos => hnot ((h.mem_used s).2 hpos)
  refine ⟨_, hadd, rfl, hfree, ?_⟩
  rw [hfree]
  constructor
  · show PoolBooks.Balanced used.entries p.available.entries
    rw [hentries]
    exact hbalanced
  · intro t
    show t ∈ used.entries ↔ 0 < update u.refs s (0 + 1) t
    rw [hentries, mem_append, mem_singleton]
    by_cases ht : t = s
    · rw [ht, update_self]
      exact ⟨fun _ => Nat.one_pos, fun _ => Or.inr rfl⟩
    · rw [update_of_ne ht, h.mem_used, or_iff_left ht]
  · intro t ht
    show t < p.streams.length
    rcases ht with ht | ht
    · replace ht : t ∈ used.entries := ht
      rw [hentries, mem_append, mem_singleton] at ht
      rcases ht with ht | rfl
      · exact (h.made t (Or.inl ht)).trans_le hlength
      · exact hs
    · exact hmade t ht
  · exact havailable
  · exact hsound
  · intro t
    show 0 < update u.refs s (0 + 1) t →
      (p.stream t).count = update u.refs s (0 + 1) t
    by_cases ht : t = s
    · rw [ht, update_self]
      exact fun _ => hcount
    · rw [update_of_ne ht, hsame t ht]
      exact h.count t
  · intro t
    show (p.stream t).Valid
    by_cases ht : t = s
    · rw [ht]
      exact hvalid
    · rw [hsame t ht]
      exact h.valid t

/-- **Taking a stream**: it was nobody's, and it is large enough. -/
theorem Kept.take (h : u.Kept) {size : ℕ} {streamAllocated reallocated : Bool}
    (hgrow : u.Spared (.take size streamAllocated reallocated)) :
    ∃ u' out, u.exec (.take size streamAllocated reallocated) = .ok (u', out) ∧ u'.Kept ∧
      ∀ s ∈ out, u.refs s = 0 ∧ u.pool.requested size ≤ (u'.pool.stream s).capacity := by
  unfold exec StreamPool.take
  cases hfind : u.pool.find size with
  | none =>
    dsimp only
    rw [hfind]
    by_cases hmake : streamAllocated = true ∧ u.pool.requested size ≠ 0
    · -- a new stream
      have hlast : ∀ t, t ∈ u.pool.used.entries ∨ t ∈ u.pool.available.entries →
          t ≠ u.pool.streams.length := fun t ht => (h.made t ht).ne
      have hself := u.pool.stream_append_self
        (x := { capacity := u.pool.requested size, length := u.pool.requested size })
      have hlength : (u.pool.streams ++ [(⟨u.pool.requested size, u.pool.requested size, 0, 1⟩ :
          PooledStream)]).length = u.pool.streams.length + 1 := by
        rw [length_append, length_singleton]
      obtain ⟨pool, hadd, hstream, hfree, hkept⟩ := h.handOut
        (p := { u.pool with streams := u.pool.streams ++
          [{ capacity := u.pool.requested size, length := u.pool.requested size }] })
        (s := u.pool.streams.length)
        (h.balanced.adopt (fun hm => hlast _ (Or.inl hm) rfl) fun hm => hlast _ (Or.inr hm) rfl)
        rfl (fun t ht => by rw [hlength]; exact (h.made t (Or.inr ht)).trans (Nat.lt_succ_self _))
        (by rw [hlength]; exact Nat.le_succ _) (by rw [hlength]; exact Nat.lt_succ_self _)
        h.available (fun t ht => u.pool.stream_append_ne ht)
        (by rw [hself]; exact ⟨Nat.zero_le _, le_rfl⟩) (by rw [hself])
        (hgrow (Or.inr hmake))
      rw [if_pos hmake, hadd]
      refine ⟨_, _, rfl, hkept, ?_⟩
      intro s hs
      cases Option.mem_some.1 hs
      refine ⟨hfree, ?_⟩
      show u.pool.requested size ≤ (pool.stream u.pool.streams.length).capacity
      rw [hstream, hself]
    · rw [if_neg hmake]
      exact ⟨u, none, rfl, h, fun s hs => nomatch hs⟩
  | some index =>
    dsimp only
    rw [hfind]
    dsimp only
    obtain ⟨hindex, hlarge, -⟩ := findIdx?_eq_some_iff_getElem.1 hfind
    have hlarge := of_decide_eq_true hlarge
    rw [getD_eq_getElem _ _ hindex]
    have hmem : u.pool.available.entries[index] ∈ u.pool.available.entries :=
      getElem_mem hindex
    generalize hs : u.pool.available.entries[index] = s at hlarge hmem ⊢
    have hlt := h.made s (Or.inr hmem)
    have hbalanced := h.balanced.handOut hindex
    rw [hs] at hbalanced
    let x : PooledStream := ⟨(u.pool.stream s).capacity, (u.pool.stream s).capacity, 0, 1⟩
    have hself : (StreamPool.setStream { u.pool with available := { u.pool.available with
        entries := u.pool.available.entries.eraseIdx index } } s x).stream s = x :=
      StreamPool.stream_setStream_self hlt
    obtain ⟨pool, hadd, hstream, hfree, hkept⟩ := h.handOut
      (p := StreamPool.setStream { u.pool with available := { u.pool.available with
        entries := u.pool.available.entries.eraseIdx index } } s x) (s := s)
      hbalanced rfl
      (fun t ht => by
        rw [StreamPool.length_setStream]
        exact h.made t (Or.inr (mem_of_mem_eraseIdx ht)))
      (by rw [StreamPool.length_setStream]) (by rw [StreamPool.length_setStream]; exact hlt)
      ⟨h.available.capacity, h.available.pos,
        (length_eraseIdx_le _ _).trans h.available.fits⟩
      (fun t ht => StreamPool.stream_setStream_ne ht)
      (by rw [hself]; exact ⟨Nat.zero_le _, le_rfl⟩) (by rw [hself])
      (hgrow (Or.inl (by rw [hfind]; rfl)))
    rw [hadd]
    refine ⟨_, _, rfl, hkept, ?_⟩
    intro t ht
    cases Option.mem_some.1 ht
    refine ⟨hfree, ?_⟩
    show u.pool.requested size ≤ (pool.stream s).capacity
    rw [hstream, hself]
    exact hlarge

/-- **A call that is spared goes well**, and the invariant holds after it. -/
theorem Kept.exec (h : u.Kept) (hallowed : u.Allowed call) (hspared : u.Spared call) :
    ∃ u' out, u.exec call = .ok (u', out) ∧ u'.Kept ∧ ∀ s ∈ out, u.refs s = 0 ∧
      ∀ size streamAllocated reallocated, call = .take size streamAllocated reallocated →
        u.pool.requested size ≤ (u'.pool.stream s).capacity := by
  cases call with
  | take size streamAllocated reallocated =>
    obtain ⟨u', out, hexec, hkept, hout⟩ := h.take hspared
    refine ⟨u', out, hexec, hkept, fun s hs => ⟨(hout s hs).1, ?_⟩⟩
    intro size' streamAllocated' reallocated' heq
    cases heq
    exact (hout s hs).2
  | addRef s =>
    have hcount : ((u.pool.stream s).count + 1) % 2 ^ 32 = u.refs s + 1 := by
      rw [Nat.mod_eq_of_lt hspared, h.count s hallowed]
    refine ⟨_, none, rfl, ?_, fun t ht => nomatch ht⟩
    exact h.setStream (x := { u.pool.stream s with
      count := ((u.pool.stream s).count + 1) % 2 ^ 32 }) hallowed (h.valid s)
      (Nat.succ_pos _) hcount
  | release s reallocated =>
    have hcount := h.count s hallowed
    have hpos : 0 < u.refs s := hallowed
    unfold PoolUse.exec StreamPool.release
    by_cases hlast : (u.pool.stream s).count - 1 = 0
    · have hone : u.refs s = 1 := by omega
      obtain ⟨pool, hremove, hkept⟩ := h.remove (x := { u.pool.stream s with
        count := (u.pool.stream s).count - 1 }) hone (h.valid s) (hspared (by omega))
      dsimp only
      rw [if_pos hlast, hremove]
      exact ⟨_, none, rfl, hkept, fun t ht => nomatch ht⟩
    · dsimp only
      rw [if_neg hlast]
      refine ⟨_, none, rfl, ?_, fun t ht => nomatch ht⟩
      refine h.setStream hallowed (h.valid s) (by omega) ?_
      show (u.pool.stream s).count - 1 = u.refs s - 1
      rw [hcount]
  | giveBack s reallocated =>
    obtain ⟨hone, hgrow⟩ := hspared
    obtain ⟨pool, hremove, hkept⟩ := h.remove hone (h.valid s) hgrow
    rw [StreamPool.setStream_stream (h.lt_length hallowed)] at hremove
    unfold PoolUse.exec
    dsimp only
    rw [hremove]
    exact ⟨_, none, rfl, hkept, fun t ht => nomatch ht⟩
  | write s capacity length position =>
    obtain ⟨hpos, hcapacity, hlength, hposition⟩ := hallowed
    refine ⟨_, none, rfl, ?_, fun t ht => nomatch ht⟩
    have hkept := h.setStream (x := { u.pool.stream s with
      capacity := capacity, length := length, position := position }) hpos
      ⟨hposition, hlength⟩ hpos (h.count s hpos)
    unfold hold at hkept
    rw [update_eq_self] at hkept
    exact hkept

theorem kept_new (defaultSize : ℕ) : (new defaultSize).Kept where
  balanced := PoolBooks.balanced_nil
  mem_used := fun s => ⟨fun h => (nomatch h), fun h => absurd h (lt_irrefl 0)⟩
  made := fun s h => h.elim (fun h => nomatch h) fun h => nomatch h
  available := ⟨rfl, show 0 < 32 by decide, Nat.zero_le _⟩
  used := ⟨rfl, show 0 < 32 by decide, Nat.zero_le _⟩
  count := fun s h => absurd h (lt_irrefl 0)
  valid := fun s => ⟨le_rfl, le_rfl⟩

theorem Kept.step (h : u.Kept) (hstep : u.step call = some u') (hspared : u.Spared call) :
    u'.Kept := by
  unfold PoolUse.step at hstep
  split_ifs at hstep with hallowed
  obtain ⟨v, out, hexec, hkept, -⟩ := h.exec hallowed hspared
  rw [hexec] at hstep
  cases hstep
  exact hkept

/-- **A pool that is spared has one owner for each stream.**  In a run whose steps are spared
what the pool does not look at, the books are in order in every state, and every call that is
spared goes well. -/
theorem oneOwner_of_spared (defaultSize : ℕ) (calls : List PoolCall)
    (hspared : EveryStep step (fun u call _ => u.Spared call) (new defaultSize) calls) :
    EveryState step (fun u => u.OneOwner ∧
      ∀ call, u.Allowed call → u.Spared call → u.GoesWell call) (new defaultSize) calls := by
  refine everyState_of_everyStep (I := Kept) ?_ ?_ (kept_new defaultSize) hspared
  · intro u call u' hkept hstep hq
    exact hkept.step hstep hq
  · intro u hkept
    refine ⟨hkept.oneOwner, ?_⟩
    intro call hallowed hq
    obtain ⟨u', out, hexec, -, hout⟩ := hkept.exec hallowed hq
    exact ⟨u', out, hexec, hout⟩

/-- A stream is taken and returned; both calls are spared. -/
theorem oneOwner_of_spared_takeReturn :
    EveryState step (fun u => u.OneOwner ∧
      ∀ call, u.Allowed call → u.Spared call → u.GoesWell call) (new 1)
      [.take 5 true true, .giveBack 0 true] := by
  refine oneOwner_of_spared 1 _ ?_
  intro u hu
  cases hu
  refine ⟨fun _ hfull => absurd hfull.2 (by decide), ?_⟩
  intro u' hu'
  cases hu'
  exact ⟨⟨rfl, fun hfull => absurd hfull.2 (by decide)⟩, trivial⟩

/-- Nine streams are taken, and there is no memory for the array to grow: the first takes have
made it smaller, to eight entries, and the ninth is written behind them. -/
theorem nineTakes_not_oneOwnerAlways : ¬ OneOwnerAlways 1 := by
  intro h
  obtain ⟨u, hrun, hexec⟩ : ∃ u, run step (new 1) (replicate 8 (.take 1 true true)) = some u ∧
      u.exec (.take 1 true false) = .error .overrun := ⟨_, rfl, rfl⟩
  obtain ⟨u', out, hgood, -⟩ := (h u ⟨_, hrun⟩).2 (.take 1 true false) trivial
  rw [hexec] at hgood
  cases hgood

end PoolUse
