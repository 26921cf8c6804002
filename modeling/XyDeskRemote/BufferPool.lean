/-
# Buffers from a pool

`BufferPool_Take` and `BufferPool_Return`.  A pool of buffers of one size keeps those that were
returned on a stack.  A pool of buffers of any size has an array of available ones, from which
the first that is large enough is taken, or the largest made larger, and an array of used ones
with the sizes that were asked for.

An entry is taken out of an array by moving one more element than there is behind it.  The array
of available buffers always has one to spare.
-/
import Mathlib.Data.List.GetD
import XyDeskRemote.LabelledRun
import XyDeskRemote.PoolBooks

open LabelledRun Function List Or

/-- `wBufferPoolItem`; a buffer is its address. -/
structure BufferItem where
  size : ℤ
  buffer : ℕ

/-- The size of every buffer that is allocated. -/
abbrev BufferMemory := ℕ → Option ℕ

/-- `wBufferPool`.  `array` is that of a pool of one size, the other two those of a pool without,
whose `fixedSize` is 0. -/
structure BufferPool where
  fixedSize : ℕ
  array : List ℕ := []
  capacity : ℕ := 32
  available : List BufferItem := []
  aCapacity : ℕ := 32
  used : List BufferItem := []
  uCapacity : ℕ := 32

namespace BufferPool

/-- `BufferPool_New`, when its allocations succeed. -/
def new (fixedSize : ℤ) : BufferPool := { fixedSize := fixedSize.toNat }

/-- `BufferPool_ShiftAvailable` by -1: the elements from `index + 1` up to index `aSize` are moved;
`none` when one of them is not there. -/
def shiftAvailable (p : BufferPool) (index : ℕ) : Option BufferPool :=
  if p.available.length < p.aCapacity then
    some { p with available := p.available.eraseIdx index }
  else none

/-- `BufferPool_ShiftUsed` by -1. -/
def shiftUsed (p : BufferPool) (index : ℕ) : Option BufferPool :=
  if p.used.length < p.uCapacity then some { p with used := p.used.eraseIdx index } else none

/-- `BufferPool_GetBufferSize`. -/
def getBufferSize (p : BufferPool) (buffer : ℕ) : ℤ :=
  if p.fixedSize ≠ 0 then p.fixedSize
  else ((p.used.find? fun item => item.buffer = buffer).map BufferItem.size).getD (-1)

/-- The loop over the available buffers: the first that is large enough, the index of the largest
so far and its size. -/
def scan (size : ℤ) : List BufferItem → ℕ → ℕ → ℤ → Option ℕ × ℕ × ℤ
  | [], _, maxIndex, maxSize => (none, maxIndex, maxSize)
  | item :: items, index, maxIndex, maxSize =>
    let maxIndex := if maxSize < item.size then index else maxIndex
    let maxSize := if maxSize < item.size then item.size else maxSize
    if size ≤ item.size then (some index, maxIndex, maxSize)
    else scan size items (index + 1) maxIndex maxSize

/-- The buffer to use again, and `maxSize`. -/
def choose (p : BufferPool) (size : ℤ) : Option (ℕ × ℤ) :=
  match scan size p.available 0 0 0 with
  | (some index, _, maxSize) => some (index, maxSize)
  | (none, maxIndex, maxSize) => if maxSize ≠ 0 then some (maxIndex, maxSize) else none

/-- The size that is recorded. -/
def effectiveSize (p : BufferPool) (size : ℤ) : ℤ := if size < 1 then p.fixedSize else size

/-- The buffer is written behind the used ones, in a larger array if need be. -/
def addUsed (p : BufferPool) (size : ℤ) (buffer : ℕ) : Option BufferPool :=
  let uCapacity :=
    if p.uCapacity < p.used.length + 1 then p.uCapacity + (p.uCapacity + 2) / 2 else p.uCapacity
  if p.used.length < uCapacity then
    some { p with used := p.used ++ [⟨size, buffer⟩], uCapacity := uCapacity }
  else none

/-- `BufferPool_Take`, with the address of the memory that it allocates, if it does: the buffer,
or none, unless an element outside of an array is used. -/
def take (p : BufferPool) (memory : BufferMemory) (size : ℤ) (fresh : ℕ) :
    Option (BufferPool × BufferMemory × Option ℕ) :=
  if p.fixedSize ≠ 0 then
    match p.array.getLast? with
    | some buffer => some ({ p with array := p.array.dropLast }, memory, some buffer)
    | none => some (p, update memory fresh (some p.fixedSize), some fresh)
  else
    let size := p.effectiveSize size
    match p.choose size with
    | none =>
      if size = 0 then some (p, memory, none)
      else do
        let p ← p.addUsed size fresh
        return (p, update memory fresh (some size.toNat), some fresh)
    | some (index, maxSize) => do
      let item ← p.available[index]?
      let shifted ← p.shiftAvailable index
      if maxSize < size then
        let p ← shifted.addUsed size fresh
        let freed := update memory item.buffer none
        return (p, update freed fresh (some size.toNat), some fresh)
      else
        let p ← shifted.addUsed size item.buffer
        return (p, memory, some item.buffer)

/-- The capacity for one more, in the arrays of the buffers that are not used. -/
def moreCapacity (size capacity : ℕ) : ℕ :=
  if capacity ≤ size + 1 then max 2 (size + (size + 2) / 2 + 1) else capacity

/-- `BufferPool_Return`. -/
def giveBack (p : BufferPool) (buffer : ℕ) : Option BufferPool :=
  if p.fixedSize ≠ 0 then
    let capacity := moreCapacity p.array.length p.capacity
    if p.array.length < capacity then
      some { p with array := p.array ++ [buffer], capacity := capacity }
    else none
  else
    match p.used.findIdx? fun item => item.buffer = buffer with
    | none => some p
    | some index => do
      let item ← p.used[index]?
      let p ← p.shiftUsed index
      if item.size = 0 then return p
      else
        let aCapacity := moreCapacity p.available.length p.aCapacity
        if p.available.length < aCapacity then
          return { p with
            available := p.available ++ [⟨item.size, buffer⟩], aCapacity := aCapacity }
        else none

/-- The buffers that wait to be taken. -/
def waiting (p : BufferPool) : List ℕ :=
  if p.fixedSize ≠ 0 then p.array else p.available.map BufferItem.buffer

end BufferPool

/-! ## The pool and its users -/

/-- A pool with the memory, the buffers that somebody has taken and the sizes that they asked
for. -/
structure BufferUse where
  pool : BufferPool
  memory : BufferMemory := fun _ => none
  held : List ℕ := []
  asked : ℕ → ℤ := fun _ => 0

/-- A call; `fresh` is where the allocator has memory. -/
inductive BufferCall where
  | take (size : ℤ) (fresh : ℕ)
  | giveBack (buffer : ℕ)

namespace BufferUse

/-- A new pool. -/
def new (fixedSize : ℤ) : BufferUse := { pool := BufferPool.new fixedSize }

/-- The address of the buffer that a call of `BufferPool_Take` makes larger. -/
def grown (u : BufferUse) (size : ℤ) : Option ℕ :=
  if u.pool.fixedSize ≠ 0 then none
  else do
    let (index, maxSize) ← u.pool.choose (u.pool.effectiveSize size)
    let item ← u.pool.available[index]?
    if maxSize < u.pool.effectiveSize size then some item.buffer else none

/-- New memory is where there is none, and a buffer may stay where it is when it is made larger.
What is returned was taken. -/
def Allowed (u : BufferUse) : BufferCall → Prop
  | .take size fresh => u.memory fresh = none ∨ u.grown size = some fresh
  | .giveBack buffer => buffer ∈ u.held

instance (u : BufferUse) : (call : BufferCall) → Decidable (u.Allowed call)
  | .take size fresh => inferInstanceAs (Decidable (_ = none ∨ u.grown size = some fresh))
  | .giveBack buffer => inferInstanceAs (Decidable (buffer ∈ u.held))

/-- What a call does, unless it uses an element outside of an array. -/
def exec (u : BufferUse) : BufferCall → Option BufferUse
  | .take size fresh => do
    let (pool, memory, buffer) ← u.pool.take u.memory size fresh
    return {
      pool := pool
      memory := memory
      held := u.held ++ buffer.toList
      asked := buffer.elim u.asked fun b => update u.asked b size }
  | .giveBack buffer => do
    let pool ← u.pool.giveBack buffer
    return { u with pool := pool, held := u.held.erase buffer }

/-- A step of a run. -/
def step (u : BufferUse) (call : BufferCall) : Option BufferUse :=
  if u.Allowed call then u.exec call else none

/-- The books are kept: each buffer that is allocated is held by one taker or available once, and
is as large as was asked for. -/
structure BooksKept (u : BufferUse) : Prop where
  balanced : PoolBooks.Balanced u.held u.pool.waiting
  live : ∀ b, (u.memory b).isSome ↔ b ∈ u.held ∨ b ∈ u.pool.waiting
  size : ∀ b ∈ u.held, ∃ n, u.memory b = some n ∧ u.asked b ≤ n
  bufferSize : u.pool.fixedSize = 0 → ∀ b ∈ u.held, u.asked b ≤ u.pool.getBufferSize b

/-- The books are kept in every state of every run, and no call uses an element outside of an
array. -/
def BooksKeptAlways (fixedSize : ℤ) : Prop :=
  ∀ u, Reachable step (new fixedSize) u →
    u.BooksKept ∧ ∀ call, u.Allowed call → (u.exec call).isSome

/-- The call is spared what the pool gets wrong: a pool of one size is not asked for more, and
otherwise no buffer is returned while the array of the used ones is full, or one that was taken
without a size. -/
def Spared (u : BufferUse) : BufferCall → Prop
  | .take size _ => u.pool.fixedSize ≠ 0 → size ≤ u.pool.fixedSize
  | .giveBack buffer => u.pool.fixedSize = 0 →
      u.pool.used.length < u.pool.uCapacity ∧ u.pool.getBufferSize buffer ≠ 0

end BufferUse

/-! ## What the parts do -/

namespace BufferPool

variable {p : BufferPool} {size maxSize maxSize' : ℤ} {items : List BufferItem}
  {index maxIndex maxIndex' i : ℕ}

/-- The buffer that is found is large enough. -/
theorem scan_eq_some (h : scan size items index maxIndex maxSize = (some i, maxIndex', maxSize')) :
    ∃ k item, i = index + k ∧ items[k]? = some item ∧ size ≤ item.size := by
  induction items generalizing index maxIndex maxSize with
  | nil => cases h
  | cons item items ih =>
    unfold scan at h
    dsimp only at h
    by_cases hsize : size ≤ item.size
    · rw [if_pos hsize] at h
      cases h
      exact ⟨0, item, rfl, rfl, hsize⟩
    · rw [if_neg hsize] at h
      obtain ⟨k, item', hi, hk, hsize'⟩ := ih h
      exact ⟨k + 1, item', by omega, hk, hsize'⟩

theorem scan_eq_none (h : scan size items index maxIndex maxSize = (none, maxIndex', maxSize')) :
    (maxIndex' = maxIndex ∧ maxSize' = maxSize) ∨
      ∃ k item, maxIndex' = index + k ∧ items[k]? = some item ∧ maxSize' = item.size := by
  induction items generalizing index maxIndex maxSize with
  | nil =>
    cases h
    exact inl ⟨rfl, rfl⟩
  | cons item items ih =>
    unfold scan at h
    dsimp only at h
    by_cases hsize : size ≤ item.size
    · rw [if_pos hsize] at h
      cases h
    · rw [if_neg hsize] at h
      by_cases hmax : maxSize < item.size
      · rw [if_pos hmax, if_pos hmax] at h
        rcases ih h with ⟨hi, hsize'⟩ | ⟨k, item', hi, hk, hsize'⟩
        · exact inr ⟨0, item, hi, rfl, hsize'⟩
        · exact inr ⟨k + 1, item', by omega, hk, hsize'⟩
      · rw [if_neg hmax, if_neg hmax] at h
        rcases ih h with hsame | ⟨k, item', hi, hk, hsize'⟩
        · exact inl hsame
        · exact inr ⟨k + 1, item', by omega, hk, hsize'⟩

/-- **The buffer that is chosen is there**, and if `maxSize` is enough so is its size. -/
theorem choose_eq_some (h : p.choose size = some (i, maxSize)) :
    ∃ item, p.available[i]? = some item ∧ (size ≤ maxSize → size ≤ item.size) := by
  unfold choose at h
  rcases hscan : scan size p.available 0 0 0 with ⟨found, maxIndex, max⟩
  rw [hscan] at h
  cases found with
  | some index =>
    cases h
    obtain ⟨k, item, hi, hk, hsize⟩ := scan_eq_some hscan
    rw [Nat.zero_add] at hi
    exact ⟨item, hi ▸ hk, fun _ => hsize⟩
  | none =>
    dsimp only at h
    split_ifs at h with hmax
    cases h
    rcases scan_eq_none hscan with ⟨-, hzero⟩ | ⟨k, item, hi, hk, hsize⟩
    · exact absurd hzero hmax
    · rw [Nat.zero_add] at hi
      exact ⟨item, hi ▸ hk, fun hle => hle.trans hsize.le⟩

theorem addUsed_spec (p : BufferPool) (h : p.used.length ≤ p.uCapacity) (size : ℤ) (b : ℕ) :
    ∃ uCapacity, p.addUsed size b = some { p with
        used := p.used ++ [⟨size, b⟩]
        uCapacity := uCapacity } ∧ p.used.length + 1 ≤ uCapacity := by
  unfold addUsed
  dsimp only
  by_cases hfull : p.uCapacity < p.used.length + 1
  · rw [if_pos hfull]
    exact ⟨_, if_pos (by omega), by omega⟩
  · rw [if_neg hfull]
    exact ⟨_, if_pos (by omega), by omega⟩

/-- **There is room for one more waiting buffer, and one to spare.** -/
theorem lt_moreCapacity (size capacity : ℕ) : size + 1 < moreCapacity size capacity := by
  unfold moreCapacity
  split_ifs <;> omega

end BufferPool

/-! ## What holds of a pool that is spared -/

namespace BufferUse

variable {u u' : BufferUse} {call : BufferCall} {b : ℕ}

/-- The books of a pool of one size. -/
structure KeptFixed (u : BufferUse) : Prop where
  room : u.pool.array.length < u.pool.capacity
  size : ∀ b, b ∈ u.held ∨ b ∈ u.pool.array → u.memory b = some u.pool.fixedSize
  asked : ∀ b ∈ u.held, u.asked b ≤ u.pool.fixedSize

/-- The books of a pool of any size: what is used is what is held, and every recorded size is that
of memory. -/
structure KeptSized (u : BufferUse) : Prop where
  held : u.pool.used.map BufferItem.buffer = u.held
  aRoom : u.pool.available.length < u.pool.aCapacity
  uRoom : u.pool.used.length ≤ u.pool.uCapacity
  size : ∀ item, item ∈ u.pool.used ∨ item ∈ u.pool.available →
    ∃ n, u.memory item.buffer = some n ∧ item.size ≤ n
  asked : ∀ item ∈ u.pool.used, u.asked item.buffer ≤ item.size

/-- The invariant. -/
structure Kept (u : BufferUse) : Prop where
  balanced : PoolBooks.Balanced u.held u.pool.waiting
  live : ∀ b, (u.memory b).isSome ↔ b ∈ u.held ∨ b ∈ u.pool.waiting
  fixed : u.pool.fixedSize ≠ 0 → u.KeptFixed
  sized : u.pool.fixedSize = 0 → u.KeptSized

theorem waiting_of_fixed (h : u.pool.fixedSize ≠ 0) : u.pool.waiting = u.pool.array := if_pos h

theorem waiting_of_sized (h : u.pool.fixedSize = 0) :
    u.pool.waiting = u.pool.available.map BufferItem.buffer := if_neg (not_not_intro h)

/-- A held buffer is among the used ones, and the size that is found for it is enough. -/
theorem KeptSized.getBufferSize (h : u.KeptSized) (hsized : u.pool.fixedSize = 0)
    (hb : b ∈ u.held) : u.asked b ≤ u.pool.getBufferSize b := by
  rw [← h.held] at hb
  obtain ⟨item, hitem, hbuffer⟩ := mem_map.1 hb
  unfold BufferPool.getBufferSize
  rw [if_neg (not_not_intro hsized)]
  cases hfind : u.pool.used.find? fun item => item.buffer = b with
  | none =>
    have hnone := find?_eq_none.1 hfind item hitem
    exact absurd (decide_eq_true hbuffer) hnone
  | some found =>
    have hfound : found.buffer = b := by simpa using find?_some hfind
    have hasked := h.asked found (mem_of_find?_eq_some hfind)
    rw [hfound] at hasked
    exact hasked

theorem Kept.booksKept (h : u.Kept) : u.BooksKept where
  balanced := h.balanced
  live := h.live
  size := by
    intro b hb
    by_cases hmode : u.pool.fixedSize = 0
    · have hsized := h.sized hmode
      rw [← hsized.held] at hb
      obtain ⟨item, hitem, rfl⟩ := mem_map.1 hb
      obtain ⟨n, hn, hle⟩ := hsized.size item (inl hitem)
      exact ⟨n, hn, (hsized.asked item hitem).trans hle⟩
    · have hfixed := h.fixed hmode
      exact ⟨_, hfixed.size b (inl hb), hfixed.asked b hb⟩
  bufferSize := fun hmode _ hb => (h.sized hmode).getBufferSize hmode hb

/-! ### Taking a buffer -/

/-- What was asked for, with one more taker. -/
theorem asked_le_of_taken {x : ℕ} {size n : ℤ} (h : ∀ b ∈ u.held, u.asked b ≤ n)
    (hsize : size ≤ n) : ∀ b ∈ u.held ++ [x], update u.asked x size b ≤ n := by
  intro b hb
  by_cases hne : b = x
  · rw [hne, update_self]
    exact hsize
  · rw [update_of_ne hne]
    exact h b ((mem_append.1 hb).resolve_right fun hmem => hne (mem_singleton.1 hmem))

/-- A pool of one size hands out `b`, which waited or is new. -/
theorem Kept.takeFixed (h : u.Kept) {size : ℤ} {fresh : ℕ} (hmode : u.pool.fixedSize ≠ 0)
    (hfresh : u.memory fresh = none) (hsize : size ≤ u.pool.fixedSize) :
    ∃ u', u.exec (.take size fresh) = some u' ∧ u'.Kept := by
  have hfixed := h.fixed hmode
  have hbalanced := h.balanced
  have hlive := h.live
  rw [waiting_of_fixed hmode] at hbalanced hlive
  unfold exec BufferPool.take
  dsimp only
  rw [if_pos hmode]
  cases hlast : u.pool.array.getLast? with
  | none =>
    have hnot : fresh ∉ u.held ∧ fresh ∉ u.pool.array := by
      rw [← not_or, ← hlive fresh, hfresh]
      exact Bool.false_ne_true
    refine ⟨_, rfl, ?_⟩
    constructor
    · show PoolBooks.Balanced (u.held ++ [fresh]) u.pool.waiting
      rw [waiting_of_fixed hmode]
      exact hbalanced.adopt hnot.1 hnot.2
    · intro b
      show (update u.memory fresh _ b).isSome ↔
        b ∈ u.held ++ [fresh] ∨ b ∈ u.pool.waiting
      rw [waiting_of_fixed hmode, mem_append, mem_singleton]
      by_cases hb : b = fresh
      · rw [hb, update_self]
        exact ⟨fun _ => inl (inr rfl), fun _ => rfl⟩
      · rw [update_of_ne hb, hlive, or_iff_left hb]
    · intro _
      refine ⟨hfixed.room, ?_, ?_⟩
      · intro b hb
        show update u.memory fresh _ b = _
        by_cases hne : b = fresh
        · rw [hne, update_self]
        · rw [update_of_ne hne]
          refine hfixed.size b (hb.imp_left fun hmem => ?_)
          exact (mem_append.1 hmem).resolve_right fun hmem => hne (mem_singleton.1 hmem)
      · exact asked_le_of_taken hfixed.asked hsize
    · exact fun hzero => absurd hzero hmode
  | some buffer =>
    obtain ⟨front, hfront⟩ := getLast?_eq_some_iff.1 hlast
    have hdrop : u.pool.array.dropLast = front := by
      rw [hfront, dropLast_concat]
    have hperm : ((u.held ++ [buffer]) ++ front).Perm (u.held ++ u.pool.array) := by
      rw [hfront, append_assoc]
      exact List.Perm.append_left _ (perm_append_singleton buffer front).symm
    have hmem : ∀ b, b ∈ u.held ++ [buffer] ∨ b ∈ front ↔ b ∈ u.held ∨ b ∈ u.pool.array := by
      intro b
      rw [← mem_append, ← mem_append]
      exact hperm.mem_iff
    refine ⟨_, rfl, ?_⟩
    rw [hdrop]
    constructor
    · show PoolBooks.Balanced (u.held ++ [buffer])
        (BufferPool.waiting { u.pool with array := front })
      rw [BufferPool.waiting, if_pos hmode]
      exact hbalanced.of_perm hperm
    · intro b
      show (u.memory b).isSome ↔ b ∈ u.held ++ [buffer] ∨
        b ∈ BufferPool.waiting { u.pool with array := front }
      rw [BufferPool.waiting, if_pos hmode, hlive]
      exact (hmem b).symm
    · intro _
      refine ⟨?_, fun b hb => hfixed.size b ((hmem b).1 hb), ?_⟩
      · have hroom := hfixed.room
        rw [hfront, length_append, length_singleton] at hroom
        show front.length < u.pool.capacity
        omega
      · exact asked_le_of_taken hfixed.asked hsize
    · exact fun hzero => absurd hzero hmode

/-- A pool of any size hands out `b`: `available` and `memory` are what is then available and
allocated. -/
theorem Kept.taken (h : u.Kept) (hmode : u.pool.fixedSize = 0) {available : List BufferItem}
    {memory : BufferMemory} {recorded size : ℤ} {n uCapacity : ℕ}
    (hbalanced : PoolBooks.Balanced (u.held ++ [b]) (available.map BufferItem.buffer))
    (hlive : ∀ x, (memory x).isSome ↔
      x ∈ u.held ++ [b] ∨ x ∈ available.map BufferItem.buffer)
    (hsub : available.Sublist u.pool.available)
    (hsame : ∀ x, x ∈ u.held ∨ x ∈ available.map BufferItem.buffer → memory x = u.memory x)
    (hmemory : memory b = some n) (hrecorded : recorded ≤ n) (hsize : size ≤ recorded)
    (hroom : u.pool.used.length + 1 ≤ uCapacity) :
    Kept {
      pool := { u.pool with
        available := available
        used := u.pool.used ++ [BufferItem.mk recorded b]
        uCapacity := uCapacity }
      memory := memory
      held := u.held ++ [b]
      asked := update u.asked b size } := by
  have hsized := h.sized hmode
  have hnot : b ∉ u.held := by
    have hnodup := (nodup_append'.1 hbalanced.nodup_held).2.2
    exact fun hm => hnodup hm (mem_singleton_self b)
  have hmem : ∀ item ∈ u.pool.used, item.buffer ∈ u.held := by
    intro item hitem
    rw [← hsized.held]
    exact mem_map_of_mem hitem
  have hwaiting : BufferPool.waiting { u.pool with
      available := available
      used := u.pool.used ++ [BufferItem.mk recorded b]
      uCapacity := uCapacity } = available.map BufferItem.buffer :=
    if_neg (not_not_intro hmode)
  constructor
  · dsimp only
    rw [hwaiting]
    exact hbalanced
  · dsimp only
    rw [hwaiting]
    exact hlive
  · exact fun hne => absurd hmode hne
  · intro _
    constructor
    · show (u.pool.used ++ [BufferItem.mk recorded b]).map BufferItem.buffer = u.held ++ [b]
      rw [map_append, hsized.held]
      rfl
    · exact hsub.length_le.trans_lt hsized.aRoom
    · show (u.pool.used ++ [BufferItem.mk recorded b]).length ≤ uCapacity
      rw [length_append, length_singleton]
      exact hroom
    · intro item hitem
      show ∃ n, memory item.buffer = some n ∧ item.size ≤ n
      rcases hitem with hitem | hitem
      · rcases mem_append.1 hitem with hitem | hitem
        · rw [hsame _ (inl (hmem item hitem))]
          exact hsized.size item (inl hitem)
        · cases mem_singleton.1 hitem
          exact ⟨n, hmemory, hrecorded⟩
      · rw [hsame _ (inr (mem_map_of_mem hitem))]
        exact hsized.size item (inr (hsub.subset hitem))
    · intro item hitem
      show update u.asked b size item.buffer ≤ item.size
      rcases mem_append.1 hitem with hitem | hitem
      · have hne : item.buffer ≠ b := fun heq => hnot (heq ▸ hmem item hitem)
        rw [update_of_ne hne]
        exact hsized.asked item hitem
      · cases mem_singleton.1 hitem
        show update u.asked b size b ≤ recorded
        rw [update_self]
        exact hsize

theorem le_effectiveSize (hmode : u.pool.fixedSize = 0) (size : ℤ) :
    size ≤ u.pool.effectiveSize size ∧ 0 ≤ u.pool.effectiveSize size := by
  unfold BufferPool.effectiveSize
  rw [hmode]
  split_ifs <;> omega

/-- **Taking a buffer of any size**: a new one, the largest made larger, or the first that is
large enough. -/
theorem Kept.takeSized (h : u.Kept) {size : ℤ} {fresh : ℕ} (hmode : u.pool.fixedSize = 0)
    (hallowed : u.Allowed (.take size fresh)) :
    ∃ u', u.exec (.take size fresh) = some u' ∧ u'.Kept := by
  have hsized := h.sized hmode
  have hbalanced := h.balanced
  have hlive := h.live
  rw [waiting_of_sized hmode] at hbalanced hlive
  obtain ⟨hsize, hnonneg⟩ := le_effectiveSize hmode size
  have hnat : u.pool.effectiveSize size ≤ ((u.pool.effectiveSize size).toNat : ℤ) :=
    Int.self_le_toNat _
  have hgrown : u.grown size = (do
      let (index, maxSize) ← u.pool.choose (u.pool.effectiveSize size)
      let item ← u.pool.available[index]?
      if maxSize < u.pool.effectiveSize size then some item.buffer else none) :=
    if_neg (not_not_intro hmode)
  replace hallowed : u.memory fresh = none ∨ u.grown size = some fresh := hallowed
  rw [hgrown] at hallowed
  have hnew : u.memory fresh = none →
      fresh ∉ u.held ∧ fresh ∉ u.pool.available.map BufferItem.buffer := by
    intro hfresh
    rw [← not_or, ← hlive fresh, hfresh]
    exact Bool.false_ne_true
  unfold exec BufferPool.take
  dsimp only
  rw [if_neg (not_not_intro hmode)]
  cases hchoose : u.pool.choose (u.pool.effectiveSize size) with
  | none =>
    rw [hchoose] at hallowed
    have hfresh := hallowed.resolve_right fun hnone => nomatch hnone
    obtain ⟨hheld, havailable⟩ := hnew hfresh
    dsimp only
    by_cases hzero : u.pool.effectiveSize size = 0
    · rw [if_pos hzero]
      refine ⟨_, rfl, ?_⟩
      show Kept { u with held := u.held ++ [] }
      rw [append_nil]
      exact h
    · obtain ⟨uCapacity, hadd, hroom⟩ :=
        u.pool.addUsed_spec hsized.uRoom (u.pool.effectiveSize size) fresh
      rw [if_neg hzero, hadd]
      refine ⟨_, rfl, ?_⟩
      dsimp only
      refine h.taken hmode (hbalanced.adopt hheld havailable) ?_ (List.Sublist.refl _) ?_
        (update_self _ _ _) hnat hsize hroom
      · intro x
        rw [mem_append, mem_singleton]
        by_cases hx : x = fresh
        · rw [hx, update_self]
          exact ⟨fun _ => inl (inr rfl), fun _ => rfl⟩
        · rw [update_of_ne hx, hlive, or_iff_left hx]
      · intro x hx
        refine update_of_ne ?_ _ _
        rintro rfl
        exact hx.elim hheld havailable
  | some chosen =>
    obtain ⟨index, maxSize⟩ := chosen
    obtain ⟨item, hitem, henough⟩ := BufferPool.choose_eq_some hchoose
    obtain ⟨hindex, hget⟩ := List.getElem?_eq_some_iff.1 hitem
    rw [hchoose] at hallowed
    have hmap : index < (u.pool.available.map BufferItem.buffer).length := by
      rw [length_map]
      exact hindex
    have hbuffer : (u.pool.available.map BufferItem.buffer)[index] = item.buffer := by
      rw [getElem_map, hget]
    have herase : (u.pool.available.eraseIdx index).map BufferItem.buffer =
        (u.pool.available.map BufferItem.buffer).eraseIdx index :=
      (eraseIdx_map _ _ _).symm
    have hgone : ∀ x, x ∈ (u.pool.available.eraseIdx index).map BufferItem.buffer ↔
        x ≠ item.buffer ∧ x ∈ u.pool.available.map BufferItem.buffer := by
      intro x
      rw [herase, hbalanced.mem_eraseIdx hmap, hbuffer]
    have hwait : item.buffer ∈ u.pool.available.map BufferItem.buffer :=
      mem_map_of_mem (hget ▸ getElem_mem hindex)
    have hheld : item.buffer ∉ u.held := fun hm => hbalanced.disjoint hm hwait
    have hsub := eraseIdx_sublist u.pool.available index
    have hshift : u.pool.shiftAvailable index =
        some { u.pool with available := u.pool.available.eraseIdx index } :=
      if_pos hsized.aRoom
    dsimp only
    rw [hitem, hshift]
    by_cases hgrow : maxSize < u.pool.effectiveSize size
    · -- the buffer is made larger, and may move
      have hfresh : u.memory fresh = none ∨ item.buffer = fresh := by
        refine hallowed.imp_right fun hsome => ?_
        have hsome' : (if maxSize < u.pool.effectiveSize size then some item.buffer else none) =
            some fresh := by
          rw [← hsome]
          simp [hitem]
        rw [if_pos hgrow] at hsome'
        exact Option.some.inj hsome'
      have hapart : fresh ∉ u.held ∧
          fresh ∉ (u.pool.available.eraseIdx index).map BufferItem.buffer := by
        rcases hfresh with hfresh | rfl
        · obtain ⟨hnot, hnot'⟩ := hnew hfresh
          exact ⟨hnot, fun hm => hnot' ((hgone fresh).1 hm).2⟩
        · exact ⟨hheld, fun hm => ((hgone _).1 hm).1 rfl⟩
      obtain ⟨uCapacity, hadd, hroom⟩ :=
        BufferPool.addUsed_spec { u.pool with available := u.pool.available.eraseIdx index }
          hsized.uRoom (u.pool.effectiveSize size) fresh
      simp only [Option.bind_eq_bind, Option.bind_some, if_pos hgrow, hadd]
      refine ⟨_, rfl, ?_⟩
      dsimp only
      refine h.taken hmode ?_ ?_ hsub ?_ (update_self _ _ _) hnat hsize hroom
      · rw [herase]
        refine (hbalanced.shrink (eraseIdx_sublist _ index)).adopt hapart.1 ?_
        rw [← herase]
        exact hapart.2
      · intro x
        rw [mem_append, mem_singleton]
        by_cases hx : x = fresh
        · rw [hx, update_self]
          exact ⟨fun _ => inl (inr rfl), fun _ => rfl⟩
        · rw [update_of_ne hx, or_iff_left hx, hgone]
          by_cases hx' : x = item.buffer
          · rw [hx', update_self]
            refine ⟨fun hm => absurd hm Bool.false_ne_true, fun hm => ?_⟩
            exact hm.elim (fun hm => absurd hm hheld) fun hm => absurd rfl hm.1
          · rw [update_of_ne hx', hlive]
            exact or_congr_right ⟨fun hm => ⟨hx', hm⟩, fun hm => hm.2⟩
      · intro x hx
        have hne : x ≠ fresh := by
          rintro rfl
          exact hx.elim hapart.1 hapart.2
        have hne' : x ≠ item.buffer := by
          rintro rfl
          exact hx.elim hheld fun hm => ((hgone _).1 hm).1 rfl
        rw [update_of_ne hne, update_of_ne hne']
    · -- the buffer is used as it is
      obtain ⟨uCapacity, hadd, hroom⟩ :=
        BufferPool.addUsed_spec { u.pool with available := u.pool.available.eraseIdx index }
          hsized.uRoom (u.pool.effectiveSize size) item.buffer
      obtain ⟨n, hn, hle⟩ := hsized.size item (inr (hget ▸ getElem_mem hindex))
      simp only [Option.bind_eq_bind, Option.bind_some, if_neg hgrow, hadd]
      refine ⟨_, rfl, ?_⟩
      dsimp only
      refine h.taken hmode ?_ ?_ hsub (fun _ _ => rfl) hn
        ((henough (not_lt.1 hgrow)).trans hle) hsize hroom
      · have hout := hbalanced.handOut hmap
        rw [hbuffer, ← herase] at hout
        exact hout
      · intro x
        rw [hlive, mem_append, mem_singleton, hgone]
        by_cases hx : x = item.buffer
        · rw [hx]
          exact ⟨fun _ => inl (inr rfl), fun _ => inr hwait⟩
        · rw [or_iff_left hx]
          exact or_congr_right ⟨fun hm => ⟨hx, hm⟩, fun hm => hm.2⟩

/-! ### Returning a buffer -/

theorem Kept.giveBackFixed (h : u.Kept) (hmode : u.pool.fixedSize ≠ 0) (hb : b ∈ u.held) :
    ∃ u', u.exec (.giveBack b) = some u' ∧ u'.Kept := by
  have hfixed := h.fixed hmode
  have hbalanced := h.balanced
  have hlive := h.live
  rw [waiting_of_fixed hmode] at hbalanced hlive
  have hroom := BufferPool.lt_moreCapacity u.pool.array.length u.pool.capacity
  have hback := hbalanced.giveBack hb
  have hmem : ∀ x, x ∈ u.held.erase b ∨ x ∈ u.pool.array ++ [b] ↔
      x ∈ u.held ∨ x ∈ u.pool.array := by
    intro x
    rw [hbalanced.nodup_held.mem_erase_iff, mem_append, mem_singleton]
    by_cases hx : x = b
    · rw [hx]
      exact ⟨fun _ => inl hb, fun _ => inr (inr rfl)⟩
    · rw [or_iff_left hx]
      exact or_congr_left ⟨fun hm => hm.2, fun hm => ⟨hx, hm⟩⟩
  unfold exec BufferPool.giveBack
  dsimp only
  rw [if_pos hmode, if_pos (by omega)]
  refine ⟨_, rfl, ?_⟩
  constructor
  · dsimp only
    rw [BufferPool.waiting, if_pos hmode]
    exact hback
  · dsimp only
    rw [BufferPool.waiting, if_pos hmode]
    exact fun x => (hlive x).trans (hmem x).symm
  · intro _
    refine ⟨?_, fun x hx => hfixed.size x ((hmem x).1 hx), ?_⟩
    · show (u.pool.array ++ [b]).length < _
      rw [length_append, length_singleton]
      exact hroom
    · exact fun x hx => hfixed.asked x (mem_of_mem_erase hx)
  · exact fun hzero => absurd hzero hmode

theorem KeptSized.findIdx (h : u.KeptSized) (hb : b ∈ u.held) :
    ∃ index item, (u.pool.used.findIdx? fun item => item.buffer = b) = some index ∧
      u.pool.used[index]? = some item ∧ item.buffer = b := by
  rw [← h.held] at hb
  obtain ⟨item, hitem, hbuffer⟩ := mem_map.1 hb
  cases hfind : u.pool.used.findIdx? fun item => item.buffer = b with
  | none =>
    have hnone := findIdx?_eq_none_iff.1 hfind item hitem
    exact absurd hbuffer (of_decide_eq_false hnone)
  | some index =>
    obtain ⟨hindex, hfound, -⟩ := findIdx?_eq_some_iff_getElem.1 hfind
    exact ⟨index, u.pool.used[index], rfl, getElem?_eq_getElem hindex,
      of_decide_eq_true hfound⟩

/-- The size that is found for a held buffer is the one that is recorded first. -/
theorem getBufferSize_of_findIdx (hmode : u.pool.fixedSize = 0) {index : ℕ} {item : BufferItem}
    (hfind : (u.pool.used.findIdx? fun item => item.buffer = b) = some index)
    (hitem : u.pool.used[index]? = some item) : u.pool.getBufferSize b = item.size := by
  have hfirst : (u.pool.used.find? fun item => item.buffer = b) = some item := by
    rw [find?_eq_bind_findIdx?_getElem?, hfind]
    exact hitem
  unfold BufferPool.getBufferSize
  rw [if_neg (not_not_intro hmode), hfirst]
  rfl

theorem Kept.giveBackSized (h : u.Kept) (hmode : u.pool.fixedSize = 0) (hb : b ∈ u.held)
    (hroom : u.pool.used.length < u.pool.uCapacity) (hrecorded : u.pool.getBufferSize b ≠ 0) :
    ∃ u', u.exec (.giveBack b) = some u' ∧ u'.Kept := by
  have hsized := h.sized hmode
  have hbalanced := h.balanced
  have hlive := h.live
  rw [waiting_of_sized hmode] at hbalanced hlive
  obtain ⟨index, item, hfind, hitem, hbuffer⟩ := hsized.findIdx hb
  rw [getBufferSize_of_findIdx hmode hfind hitem] at hrecorded
  obtain ⟨hindex, hget⟩ := List.getElem?_eq_some_iff.1 hitem
  have hmore := BufferPool.lt_moreCapacity u.pool.available.length u.pool.aCapacity
  have herase : (u.pool.used.eraseIdx index).map BufferItem.buffer = u.held.erase b := by
    have hmap : index < (u.pool.used.map BufferItem.buffer).length := by
      rw [length_map]
      exact hindex
    have hat : (u.pool.used.map BufferItem.buffer)[index] = b := by
      rw [getElem_map, hget, hbuffer]
    have hnodup : (u.pool.used.map BufferItem.buffer).Nodup := by
      rw [hsized.held]
      exact hbalanced.nodup_held
    rw [← eraseIdx_map, ← hnodup.erase_getElem index hmap, hat, hsized.held]
  have happend : (u.pool.available ++ [BufferItem.mk item.size b]).map BufferItem.buffer =
      u.pool.available.map BufferItem.buffer ++ [b] := by
    rw [map_append]
    rfl
  have hshift : u.pool.shiftUsed index =
      some { u.pool with used := u.pool.used.eraseIdx index } := if_pos hroom
  unfold exec BufferPool.giveBack
  dsimp only
  rw [if_neg (not_not_intro hmode), hfind]
  simp only [hitem, hshift, Option.bind_eq_bind, Option.bind_some, if_neg hrecorded,
    if_pos (show u.pool.available.length <
      BufferPool.moreCapacity u.pool.available.length u.pool.aCapacity by omega)]
  refine ⟨_, rfl, ?_⟩
  constructor
  · dsimp only
    rw [BufferPool.waiting, if_neg (not_not_intro hmode), happend]
    exact hbalanced.giveBack hb
  · intro x
    dsimp only
    rw [BufferPool.waiting, if_neg (not_not_intro hmode), happend, hlive,
      hbalanced.nodup_held.mem_erase_iff, mem_append, mem_singleton]
    by_cases hx : x = b
    · rw [hx]
      exact ⟨fun _ => inr (inr rfl), fun _ => inl hb⟩
    · rw [or_iff_left hx]
      exact or_congr_left ⟨fun hm => ⟨hx, hm⟩, fun hm => hm.2⟩
  · exact fun hne => absurd hmode hne
  · intro _
    constructor
    · exact herase
    · show (u.pool.available ++ [BufferItem.mk item.size b]).length < _
      rw [length_append, length_singleton]
      exact hmore
    · exact (length_eraseIdx_le _ _).trans hsized.uRoom
    · intro other hother
      rcases hother with hother | hother
      · exact hsized.size other (inl (mem_of_mem_eraseIdx hother))
      · rcases mem_append.1 hother with hother | hother
        · exact hsized.size other (inr hother)
        · cases mem_singleton.1 hother
          rw [← hbuffer]
          exact hsized.size item (inl (hget ▸ getElem_mem hindex))
    · exact fun other hother => hsized.asked other (mem_of_mem_eraseIdx hother)

/-! ### Runs -/

/-- **A call that is spared uses no element outside of an array**, and keeps the invariant. -/
theorem Kept.exec (h : u.Kept) (hallowed : u.Allowed call) (hspared : u.Spared call) :
    ∃ u', u.exec call = some u' ∧ u'.Kept := by
  cases call with
  | take size fresh =>
    by_cases hmode : u.pool.fixedSize = 0
    · exact h.takeSized hmode hallowed
    · have hgrown : u.grown size = none := if_pos hmode
      have hfresh : u.memory fresh = none := by
        refine resolve_right hallowed ?_
        rw [hgrown]
        exact fun hnone => nomatch hnone
      exact h.takeFixed hmode hfresh (hspared hmode)
  | giveBack buffer =>
    by_cases hmode : u.pool.fixedSize = 0
    · exact h.giveBackSized hmode hallowed (hspared hmode).1 (hspared hmode).2
    · exact h.giveBackFixed hmode hallowed

theorem kept_new (fixedSize : ℤ) : (new fixedSize).Kept := by
  have hwaiting : (new fixedSize).pool.waiting = [] := by
    unfold BufferPool.waiting
    split_ifs <;> rfl
  constructor
  · rw [hwaiting]
    exact PoolBooks.balanced_nil
  · intro b
    rw [hwaiting]
    exact ⟨fun hm => absurd hm Bool.false_ne_true, fun hm => hm.elim (nomatch ·) (nomatch ·)⟩
  · exact fun _ => ⟨show 0 < 32 by decide, fun b hb => hb.elim (nomatch ·) (nomatch ·),
      fun b hb => nomatch hb⟩
  · exact fun _ => ⟨rfl, show 0 < 32 by decide, Nat.zero_le _,
      fun item hitem => hitem.elim (nomatch ·) (nomatch ·), fun item hitem => nomatch hitem⟩

/-- **A pool that is spared keeps its books.**  In a run whose steps are spared what the pool gets
wrong, the books are kept in every state, and no call that is spared uses an element outside of
an array. -/
theorem booksKept_of_spared (fixedSize : ℤ) (calls : List BufferCall)
    (hspared : EveryStep step (fun u call _ => u.Spared call) (new fixedSize) calls) :
    EveryState step (fun u => u.BooksKept ∧
      ∀ call, u.Allowed call → u.Spared call → (u.exec call).isSome) (new fixedSize) calls := by
  refine everyState_of_everyStep (I := Kept) ?_ ?_ (kept_new fixedSize) hspared
  · intro u call u' hkept hstep hq
    unfold step at hstep
    split_ifs at hstep with hallowed
    obtain ⟨v, hexec, hv⟩ := hkept.exec hallowed hq
    rw [hexec] at hstep
    cases hstep
    exact hv
  · intro u hkept
    refine ⟨hkept.booksKept, ?_⟩
    intro call hallowed hq
    obtain ⟨v, hexec, -⟩ := hkept.exec hallowed hq
    rw [hexec]
    rfl

/-- A buffer is taken and returned; both calls are spared. -/
theorem booksKept_of_spared_takeReturn :
    EveryState step (fun u => u.BooksKept ∧
      ∀ call, u.Allowed call → u.Spared call → (u.exec call).isSome) (new 0)
      [.take 5 7, .giveBack 7] := by
  refine booksKept_of_spared 0 _ ?_
  intro u hu
  cases hu
  refine ⟨fun hmode => absurd rfl hmode, ?_⟩
  intro u' hu'
  cases hu'
  exact ⟨fun _ => ⟨show 1 < 32 by decide, show (5 : ℤ) ≠ 0 by decide⟩, trivial⟩

/-- 32 buffers are taken, which is what the array of the used ones has room for, and one is
returned. -/
theorem fullReturn_not_booksKeptAlways : ¬ BooksKeptAlways 0 := by
  intro h
  obtain ⟨u, hrun, hheld, hexec⟩ : ∃ u,
      run step (new 0) ((range 32).map (.take 1)) = some u ∧ 0 ∈ u.held ∧
        u.exec (.giveBack 0) = none := ⟨_, rfl, by decide, rfl⟩
  have hsome := (h u ⟨_, hrun⟩).2 (.giveBack 0) hheld
  rw [hexec] at hsome
  cases hsome

end BufferUse
