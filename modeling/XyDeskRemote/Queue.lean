/-
# The queue of WinPR

`Queue.c`: an array of pointers that is used as a circular buffer, callbacks for the objects
behind the pointers, and an event object for those who wait for one.  Every function is one
critical section.

Three things go wrong at the edges.  `Queue_Contains` scans the array from slot 0 to the tail,
wherever the head is; `Queue_Clear` takes a full array for an empty one; and `Queue_Enqueue`
answers `TRUE` when the array could not grow.
-/
import XyDeskRemote.LabelledRun
import XyDeskRemote.RotatedRing

open LabelledRun ByteBuffer RotatedRing Option Nat

/-- `wObject`, the callbacks of a collection: whether there is one that copies objects and one
that frees them, and the one that compares them.  The pointer `NULL` is `none`. -/
structure WObject (α : Type*) where
  fnObjectNew : Bool := false
  fnObjectFree : Bool := false
  fnObjectEquals : Option α → Option α → Bool

/-- `wQueue`; a slot that was zeroed is `none`, and `event` says whether the event object is
signalled. -/
structure Queue (α : Type*) where
  growthFactor : ℕ
  head : ℕ := 0
  tail : ℕ := 0
  size : ℕ := 0
  array : List (Option α) := []
  event : Bool := false
  object : WObject α

namespace Queue

variable {α : Type*}

/-! ## The functions of the queue -/

/-- `capacity`. -/
def capacity (q : Queue α) : ℕ := q.array.length

/-- The loop of `Queue_Clear` from a slot on: the objects passed to `fnObjectFree`, and the array
behind it.  `none` says that it has not come to the tail in as many turns. -/
def clearFrom (q : Queue α) : ℕ → ℕ → List (Option α) → Option (List (Option α) × List (Option α))
  | 0, index, array => if index = q.tail then some ([], array) else none
  | turns + 1, index, array =>
    if index = q.tail then some ([], array)
    else
      (clearFrom q turns ((index + 1) % q.capacity) (array.set index none)).map fun cleared =>
        ((if q.object.fnObjectFree then [array[index]?.join] else []) ++ cleared.1, cleared.2)

/-- `Queue_Clear`: the queue behind it, and the objects passed to `fnObjectFree`. -/
def clear (q : Queue α) : Option (Queue α × List (Option α)) :=
  (q.clearFrom q.capacity q.head q.array).map fun cleared =>
    ({ q with array := cleared.2, size := 0, head := 0, tail := 0, event := false }, cleared.1)

/-- `Queue_Contains`. -/
def contains (q : Queue α) (obj : Option α) : Bool :=
  (q.array.take q.tail).any fun ptr => q.object.fnObjectEquals ptr obj

/-- The array of a queue that has grown to `newCapacity` slots, with the wrapped part of the row
moved into the new ones. -/
def rearrange (newCapacity : ℕ) (q : Queue α) : Queue α :=
  let slots := newCapacity - q.capacity
  let grown := q.array ++ List.replicate slots none
  if q.tail ≤ q.head then
    let tocopy := q.tail
    let batch := if tocopy < slots then tocopy else slots
    let copied := overwrite grown q.capacity (grown.take batch)
    if tocopy < slots then
      { q with
        array := overwrite copied 0 (List.replicate batch none)
        tail := q.tail + q.capacity }
    else
      let remain := q.tail - batch
      let moved := overwrite copied 0 ((copied.drop batch).take remain)
      { q with
        array := overwrite moved remain (List.replicate (q.tail - remain) none)
        tail := q.tail - batch }
  else { q with array := grown }

section

variable (sizeMax pointerSize : ℕ)

/-- `Queue_EnsureCapacity`, with `SIZE_MAX`, the size of a pointer, and the answer of `realloc`;
`none` is its answer `FALSE`. -/
def ensureCapacity (q : Queue α) (count : ℕ) (allocated : Bool) : Option (Queue α) :=
  if q.growthFactor > sizeMax / 32 then none
  else
    let increment := 32 * q.growthFactor
    if q.size > sizeMax - count then none
    else
      let required := q.size + count
      if required > q.capacity then
        if required > sizeMax - increment then none
        else
          let newCapacity := required + increment - required % increment
          if newCapacity > sizeMax / pointerSize then none
          else if allocated then some (q.rearrange newCapacity)
          else none
      else some q

/-- An object is put behind the others. -/
def put (q : Queue α) (ptr : Option α) : Queue α :=
  { q with
    array := q.array.set q.tail ptr
    tail := (q.tail + 1) % q.capacity
    size := q.size + 1
    event := if q.size = 0 then true else q.event }

/-- What `Queue_Enqueue` stores: the object, or the answer `copy` of `fnObjectNew` for it. -/
def stored (q : Queue α) (obj copy : Option α) : Option α :=
  if q.object.fnObjectNew then copy else obj

/-- `Queue_Enqueue`: the queue behind it, and the answer. -/
def enqueue (q : Queue α) (obj copy : Option α) (allocated : Bool) : Queue α × Bool :=
  match q.ensureCapacity sizeMax pointerSize 1 allocated with
  -- `goto out`, where `ret` is still `TRUE`
  | none => (q, true)
  | some grown => (grown.put (q.stored obj copy), true)

/-- The first object is taken, and the event reset when it was the last one. -/
def take (q : Queue α) : Queue α :=
  { q with
    array := q.array.set q.head none
    head := (q.head + 1) % q.capacity
    size := q.size - 1
    event := if q.size - 1 < 1 then false else q.event }

/-- `Queue_Dequeue`: the queue behind it, and the object. -/
def dequeue (q : Queue α) : Queue α × Option α :=
  if q.size > 0 then (q.take, q.array[q.head]?.join) else ({ q with event := false }, none)

/-- `Queue_Peek`. -/
def peek (q : Queue α) : Option α := if q.size > 0 then q.array[q.head]?.join else none

/-- `Queue_Discard`: the queue behind it, and the objects passed to `fnObjectFree`. -/
def discard (q : Queue α) : Queue α × List (Option α) :=
  (q.dequeue.1, if q.object.fnObjectFree then [q.dequeue.2] else [])

/-- `Queue_New`, by the answer of `realloc`; the other constructors have succeeded. -/
def new (object : WObject α) (capacity growthFactor : ℤ) (allocated : Bool) : Option (Queue α) :=
  ensureCapacity sizeMax pointerSize
    { growthFactor := if growthFactor > 0 then growthFactor.toNat else 2, object }
    (if capacity ≤ 0 then 32 else capacity.toNat) allocated

end

/-! ## The row of objects -/

/-- The row is `xs`, and the event is signalled while there is one.  Of the free slots, those in
front of the row in the array are zeroed. -/
structure Stores (q : Queue α) (xs : List (Option α)) : Prop where
  growthFactor_pos : 0 < q.growthFactor
  head_lt : q.head < q.capacity
  size_eq : q.size = xs.length
  tail_eq : q.tail = (q.head + q.size) % q.capacity
  event_eq : q.event = decide (0 < q.size)
  ring_eq : ∃ free, q.array.rotate q.head = xs ++ free ∧
    ∀ p ∈ free.drop (q.capacity - q.head - q.size), p = none

variable {q : Queue α} {xs : List (Option α)}

theorem Stores.size_le (h : Stores q xs) : q.size ≤ q.capacity := by
  obtain ⟨free, hfree, -⟩ := h.ring_eq
  have hlength := congrArg List.length hfree
  rw [List.length_rotate, List.length_append, ← h.size_eq] at hlength
  exact le_of_le_of_eq (le_add_right _ _) hlength.symm

theorem Stores.length_free (h : Stores q xs) {free : List (Option α)}
    (hfree : q.array.rotate q.head = xs ++ free) : q.size + free.length = q.capacity := by
  have hlength := congrArg List.length hfree
  rw [List.length_rotate, List.length_append, ← h.size_eq] at hlength
  exact hlength.symm

theorem rearrange_array {front back : List (Option α)} {slots : ℕ} (hslots : front.length < slots)
    (q : Queue α) (harray : q.array = front ++ back) (hhead : q.head = front.length)
    (htail : q.tail = q.head) :
    q.rearrange (q.capacity + slots) =
      { q with
        array := List.replicate front.length none ++
          (back ++ (front ++ List.replicate (slots - front.length) none))
        tail := q.tail + q.capacity } := by
  have htake : (front ++ back ++ List.replicate slots none).take front.length = front := by
    rw [List.append_assoc, List.take_left]
  have hcopied : overwrite (front ++ back ++ List.replicate slots none)
      (front ++ back).length front =
        front ++ (back ++ (front ++ List.replicate (slots - front.length) none)) := by
    rw [← Nat.add_sub_cancel' hslots.le, ← List.replicate_append_replicate,
      overwrite_append List.length_replicate.symm, Nat.add_sub_cancel_left,
      List.append_assoc]
  have hcleared := @overwrite_append _ [] front
    (back ++ (front ++ List.replicate (slots - front.length) none))
    (List.replicate front.length none) List.length_replicate
  rw [List.nil_append, List.length_nil, List.nil_append] at hcleared
  unfold rearrange
  dsimp only
  rw [Nat.add_sub_cancel_left, if_pos htail.le, htail, hhead, if_pos hslots, if_pos hslots,
    capacity, harray, htake, hcopied, hcleared]

/-- The array that has grown by too few slots. -/
theorem rearrange_array_short {front back : List (Option α)} {slots : ℕ}
    (hslots : slots ≤ front.length) (q : Queue α) (harray : q.array = front ++ back)
    (hhead : q.head = front.length) (htail : q.tail = q.head) :
    q.rearrange (q.capacity + slots) =
      { q with
        array := front.drop slots ++ (List.replicate slots none ++ (back ++ front.take slots))
        tail := q.tail - slots } := by
  have htake : (front ++ back ++ List.replicate slots none).take slots = front.take slots := by
    rw [List.append_assoc, List.take_append_of_le_length hslots]
  have hcopied : overwrite (front ++ back ++ List.replicate slots none)
      (front ++ back).length (front.take slots) = front ++ (back ++ front.take slots) := by
    have hover := @overwrite_append _ (front ++ back) (List.replicate slots none) []
      (front.take slots) (by rw [List.length_take, List.length_replicate]; omega)
    rwa [List.append_nil, List.append_nil, List.append_assoc front back (front.take slots)] at hover
  have hremain : front.length - (front.length - slots) = slots := by omega
  have hmove : ((front ++ (back ++ front.take slots)).drop slots).take (front.length - slots) =
      front.drop slots := by
    rw [List.drop_append_of_le_length hslots, ← List.length_drop, List.take_left]
  have hmoved : overwrite (front ++ (back ++ front.take slots)) 0 (front.drop slots) =
      front.drop slots ++ (front.drop (front.length - slots) ++ (back ++ front.take slots)) := by
    rw [overwrite, List.take_zero, List.nil_append, zero_add, List.length_drop,
      List.drop_append_of_le_length (sub_le _ _)]
  have hcleared := @overwrite_append _ (front.drop slots)
    (front.drop (front.length - slots)) (back ++ front.take slots) (List.replicate slots none)
    (by rw [List.length_replicate, List.length_drop, hremain])
  rw [List.length_drop] at hcleared
  unfold rearrange
  dsimp only
  rw [Nat.add_sub_cancel_left, if_pos htail.le, htail, hhead, if_neg hslots.not_gt,
    if_neg hslots.not_gt, capacity, harray, htake, hcopied, hmove, hmoved, hremain, hcleared]

/-- **A full array that grows** keeps its row. -/
theorem Stores.rearrange (h : Stores q xs) (hfull : q.size = q.capacity) {n : ℕ}
    (hn : q.capacity < n) : Stores (q.rearrange n) xs ∧ (q.rearrange n).capacity = n := by
  obtain ⟨slots, rfl⟩ := Nat.exists_eq_add_of_le hn.le
  have hhead := h.head_lt
  have htail : q.tail = q.head := by
    rw [h.tail_eq, hfull, add_mod_right, mod_eq_of_lt hhead]
  obtain ⟨free, hring, -⟩ := h.ring_eq
  have hfree := h.length_free hring
  obtain rfl : free = [] := List.eq_nil_of_length_eq_zero (by omega)
  obtain ⟨front, back, harray, hfront⟩ : ∃ front back, q.array = front ++ back ∧
      front.length = q.head :=
    ⟨q.array.take q.head, q.array.drop q.head, (List.take_append_drop _ _).symm,
      by rw [List.length_take]; exact min_eq_left hhead.le⟩
  rw [List.append_nil, harray, ← hfront] at hring
  have hcap : q.capacity = front.length + back.length := by
    rw [capacity, harray, List.length_append]
  -- the row begins at the same slot, and all free slots are new ones
  have hgrown {array : List (Option α)} {tail : ℕ}
      (hrotate : array.rotate front.length = xs ++ List.replicate slots none)
      (htail' : tail = (q.head + q.capacity) % (q.capacity + slots)) :
      Stores { q with array, tail } xs ∧
        ({ q with array, tail } : Queue α).capacity = q.capacity + slots := by
    have hcapacity : array.length = q.capacity + slots := by
      have hlength := congrArg List.length hrotate
      rwa [List.length_rotate, List.length_append, List.length_replicate, ← h.size_eq,
        hfull] at hlength
    refine ⟨⟨h.growthFactor_pos, ?_, h.size_eq, ?_, h.event_eq, List.replicate slots none, ?_, ?_⟩,
      hcapacity⟩
    · show q.head < array.length
      omega
    · show tail = (q.head + q.size) % array.length
      rw [htail', hfull, hcapacity]
    · show array.rotate q.head = _
      rw [← hfront, hrotate]
    · intro p hp
      exact List.eq_of_mem_replicate (List.mem_of_mem_drop hp)
  by_cases hroom : front.length < slots
  · rw [rearrange_array hroom q harray hfront.symm htail]
    apply hgrown (rotate_grow hring hroom.le)
    rw [htail, mod_eq_of_lt (by omega)]
  · rw [rearrange_array_short (Nat.le_of_not_lt hroom) q harray hfront.symm htail]
    apply hgrown (rotate_grow_short hring (Nat.le_of_not_lt hroom))
    rw [mod_eq_sub_mod (by omega), mod_eq_of_lt (by omega), htail]
    omega

/-- A larger capacity is a multiple of the increment. -/
theorem ensureCapacity_cases {sizeMax pointerSize count : ℕ} {allocated : Bool} {q' : Queue α}
    (hgrowth : 0 < q.growthFactor)
    (h : q.ensureCapacity sizeMax pointerSize count allocated = some q') :
    (q.size + count ≤ q.capacity ∧ q' = q) ∨
      (q.capacity < q.size + count ∧ ∃ n, q.size + count < n ∧ q' = q.rearrange n) := by
  have hmod : (q.size + count) % (32 * q.growthFactor) < 32 * q.growthFactor :=
    mod_lt _ (by omega)
  unfold ensureCapacity at h
  dsimp only at h
  split_ifs at h with _ _ hroom _ _ _
  · obtain rfl := some.inj h
    exact Or.inr ⟨hroom, _, by omega, rfl⟩
  · obtain rfl := some.inj h
    exact Or.inl ⟨by omega, rfl⟩

/-- What making room does: the row is the same, and there is room for one more. -/
theorem Stores.ensureCapacity {sizeMax pointerSize : ℕ} {allocated : Bool} {q' : Queue α}
    (h : Stores q xs) (hq' : q.ensureCapacity sizeMax pointerSize 1 allocated = some q') :
    Stores q' xs ∧ q'.size < q'.capacity := by
  have hle := h.size_le
  obtain ⟨hroom, rfl⟩ | ⟨hfull, n, hn, rfl⟩ := ensureCapacity_cases h.growthFactor_pos hq'
  · exact ⟨h, hroom⟩
  · obtain ⟨hstores, hcapacity⟩ := h.rearrange (n := n) (by omega) (by omega)
    refine ⟨hstores, ?_⟩
    rw [hstores.size_eq, ← h.size_eq, hcapacity]
    omega

/-- An object behind the row. -/
theorem Stores.put (h : Stores q xs) (hroom : q.size < q.capacity) (p : Option α) :
    Stores (q.put p) (xs ++ [p]) := by
  obtain ⟨free, hring, hzero⟩ := h.ring_eq
  have hlength := h.length_free hring
  have hcapacity : (q.put p).capacity = q.capacity := List.length_set
  cases free with
  | nil =>
    rw [List.length_nil] at hlength
    omega
  | cons f free =>
    refine ⟨h.growthFactor_pos, ?_, ?_, ?_, ?_, free, ?_, ?_⟩
    · rw [hcapacity]
      exact h.head_lt
    · rw [List.length_append, ← h.size_eq]
      rfl
    · rw [hcapacity]
      show (q.tail + 1) % q.capacity = (q.head + (q.size + 1)) % q.capacity
      rw [h.tail_eq, mod_add_mod, add_assoc]
    · show (if q.size = 0 then true else q.event) = decide (0 < q.size + 1)
      rw [h.event_eq]
      split
      · rfl
      · rw [decide_eq_true (by omega), decide_eq_true (by omega)]
    · show (q.array.set q.tail p).rotate q.head = _
      rw [h.tail_eq, capacity, rotate_set h.head_lt hroom, hring, h.size_eq,
        List.set_append_right _ _ (le_refl _), Nat.sub_self, List.set_cons_zero, List.append_assoc]
      rfl
    · intro f' hf'
      apply hzero
      rw [hcapacity] at hf'
      have hdrop : (q.put p).head = q.head ∧ (q.put p).size = q.size + 1 := ⟨rfl, rfl⟩
      rw [hdrop.1, hdrop.2] at hf'
      cases hplaces : q.capacity - q.head - q.size with
      | zero =>
        exact List.mem_cons_of_mem f (List.mem_of_mem_drop hf')
      | succ places =>
        rw [List.drop_succ_cons]
        rwa [show q.capacity - q.head - (q.size + 1) = places by omega] at hf'

theorem Stores.read_head {x : Option α} (h : Stores q (x :: xs)) : q.array[q.head]?.join = x := by
  obtain ⟨free, hring, -⟩ := h.ring_eq
  rw [← List.head?_rotate h.head_lt, hring]
  rfl

/-- The first object is taken. -/
theorem Stores.take {x : Option α} (h : Stores q (x :: xs)) : Stores q.take xs := by
  obtain ⟨free, hring, hzero⟩ := h.ring_eq
  have hlength := h.length_free hring
  have hsize := h.size_eq
  have hhead := h.head_lt
  rw [List.length_cons] at hsize
  have hcapacity : q.take.capacity = q.capacity := List.length_set
  have hhead' : q.take.head = (q.head + 1) % q.capacity := rfl
  have hsize' : q.take.size = q.size - 1 := rfl
  refine ⟨h.growthFactor_pos, ?_, ?_, ?_, ?_, free ++ [none], ?_, ?_⟩
  · rw [hcapacity]
    exact mod_lt _ (by omega)
  · omega
  · rw [hcapacity, hhead', hsize', mod_add_mod, add_assoc,
      Nat.add_sub_cancel' (by omega), ← h.tail_eq]
    rfl
  · show (if q.size - 1 < 1 then false else q.event) = decide (0 < q.size - 1)
    rw [h.event_eq]
    split
    · rw [decide_eq_false (by omega)]
    · rw [decide_eq_true (by omega), decide_eq_true (by omega)]
  · have hzeroth : (q.array.set q.head none).rotate q.head = none :: (xs ++ free) := by
      have hset := @rotate_set _ q.array q.head 0 none hhead (zero_lt_of_lt hhead)
      rwa [add_zero, mod_eq_of_lt (show q.head < q.array.length from hhead), hring,
        List.cons_append, List.set_cons_zero] at hset
    have hnext := rotate_add_one hzeroth
    rw [List.append_assoc, List.length_set] at hnext
    exact hnext
  · intro p hp
    rw [List.drop_append] at hp
    rcases List.mem_append.1 hp with hp | hp
    · apply hzero
      rw [hcapacity, hhead', hsize'] at hp
      by_cases hlast : q.head + 1 < q.capacity
      · have hplaces : q.capacity - (q.head + 1) - (q.size - 1) = q.capacity - q.head - q.size := by
          omega
        rwa [mod_eq_of_lt hlast, hplaces] at hp
      · rw [show q.capacity - q.head - q.size = 0 by omega]
        exact List.mem_of_mem_drop hp
    · exact List.mem_singleton.1 (List.mem_of_mem_drop hp)

/-- What `Queue_Dequeue` takes and answers. -/
theorem Stores.dequeue_cons {x : Option α} (h : Stores q (x :: xs)) :
    q.dequeue = (q.take, x) := by
  have hsize := h.size_eq
  rw [List.length_cons] at hsize
  rw [dequeue, if_pos (by omega), h.read_head]

theorem Stores.dequeue_nil (h : Stores q []) : q.dequeue = (q, none) := by
  have hsize := h.size_eq
  have hevent := h.event_eq
  rw [List.length_nil] at hsize
  rw [hsize, decide_eq_false (lt_irrefl 0)] at hevent
  rw [dequeue, if_neg (by omega), ← hevent]

theorem Stores.peek_eq (h : Stores q xs) : q.peek = xs.head?.join := by
  have hsize := h.size_eq
  cases xs with
  | nil => exact if_neg (by rw [hsize]; exact lt_irrefl 0)
  | cons x xs =>
    rw [List.length_cons] at hsize
    rw [peek, if_pos (by omega), h.read_head]
    rfl

/-- `Queue_Enqueue` puts what it stores behind the row if there is room or room can be made. -/
theorem Stores.enqueue {sizeMax pointerSize : ℕ} {allocated : Bool} (h : Stores q xs)
    (obj copy : Option α)
    (hroom : (q.ensureCapacity sizeMax pointerSize 1 allocated).isSome) :
    Stores (q.enqueue sizeMax pointerSize obj copy allocated).1 (xs ++ [q.stored obj copy]) := by
  obtain ⟨grown, hgrown⟩ := isSome_iff_exists.1 hroom
  obtain ⟨hstores, hfree⟩ := h.ensureCapacity hgrown
  rw [Queue.enqueue, hgrown]
  exact hstores.put hfree _

/-- A new queue is empty. -/
theorem stores_new {sizeMax pointerSize : ℕ} {object : WObject α} {capacity growthFactor : ℤ}
    {allocated : Bool}
    (h : new sizeMax pointerSize object capacity growthFactor allocated = some q) :
    Stores q [] := by
  rw [new] at h
  set made : Queue α :=
    { growthFactor := if growthFactor > 0 then growthFactor.toNat else 2, object } with hmade
  have hgrowth : 0 < made.growthFactor := by
    rw [hmade]
    dsimp only
    split
    · omega
    · decide
  have hcount : 0 < if capacity ≤ 0 then 32 else capacity.toNat := by
    split
    · decide
    · omega
  have hempty : made.capacity = 0 := rfl
  obtain ⟨hroom, -⟩ | ⟨-, n, hn, rfl⟩ := ensureCapacity_cases hgrowth h
  · omega
  · have harray := @rearrange_array _ [] [] n (by rw [List.length_nil]; omega) made rfl rfl rfl
    rw [hempty, zero_add] at harray
    have hcapacity : (made.rearrange n).capacity = n := by
      rw [harray]
      exact List.length_replicate
    rw [harray] at hcapacity ⊢
    refine ⟨hgrowth, ?_, rfl, ?_, rfl, List.replicate n none, ?_, ?_⟩
    · rw [hcapacity]
      exact zero_lt_of_lt hn
    · rw [hcapacity]
      exact (zero_mod n).symm
    · exact List.rotate_zero _
    · intro p hp
      exact List.eq_of_mem_replicate (List.mem_of_mem_drop hp)

/-! ## The other functions on the row -/

/-- The loop of `Queue_Clear` over the part of the row that is left, if the array is not full. -/
theorem Stores.clearFrom_eq (h : Stores q xs) (hfull : q.size < q.capacity)
    {front rest free array : List (Option α)} {turns : ℕ}
    (harray : array.rotate q.head = front ++ (rest ++ free))
    (hsize : front.length + rest.length = q.size) (hlength : array.length = q.capacity)
    (hturns : rest.length ≤ turns) :
    ∃ array', q.clearFrom turns ((q.head + front.length) % q.capacity) array =
        some (if q.object.fnObjectFree then rest else [], array') ∧
      array'.length = q.capacity := by
  induction rest generalizing front array turns with
  | nil =>
    rw [List.length_nil, add_zero] at hsize
    have htail : (q.head + front.length) % q.capacity = q.tail := by rw [hsize, h.tail_eq]
    refine ⟨array, ?_, hlength⟩
    cases turns with
    | zero => rw [clearFrom, if_pos htail, ite_self]
    | succ turns => rw [clearFrom, if_pos htail, ite_self]
  | cons x rest ih =>
    rw [List.length_cons] at hsize hturns
    obtain ⟨turns, rfl⟩ := Nat.exists_eq_add_of_le' hturns
    have hhead := h.head_lt
    have hplace : front.length < array.length := by omega
    have hnext : ((q.head + front.length) % q.capacity + 1) % q.capacity =
        (q.head + (front ++ [none]).length) % q.capacity := by
      rw [mod_add_mod, List.length_append, List.length_singleton, add_assoc]
    have htail : (q.head + front.length) % q.capacity ≠ q.tail := by
      intro heq
      rw [h.tail_eq] at heq
      have hmod : front.length ≡ q.size [MOD q.capacity] := Nat.ModEq.add_left_cancel' q.head heq
      rw [Nat.ModEq, mod_eq_of_lt (by omega), mod_eq_of_lt hfull] at hmod
      omega
    have hread : array[(q.head + front.length) % q.capacity]?.join = x := by
      rw [add_comm, ← hlength, ← List.getElem?_rotate hplace, harray,
        List.getElem?_append_right (le_refl _), Nat.sub_self]
      rfl
    have hset : (array.set ((q.head + front.length) % q.capacity) none).rotate q.head =
        (front ++ [none]) ++ (rest ++ free) := by
      rw [← hlength, rotate_set (by omega) hplace, harray,
        List.set_append_right _ _ (le_refl _), Nat.sub_self, List.cons_append, List.set_cons_zero,
        List.append_assoc]
      rfl
    have hsize' : (front ++ [none]).length + rest.length = q.size := by
      rw [List.length_append, List.length_singleton]
      omega
    obtain ⟨array', hclear, hlength'⟩ :=
      ih hset hsize' (by rw [List.length_set, hlength]) (le_add_left rest.length turns)
    refine ⟨array', ?_, hlength'⟩
    rw [← add_assoc, clearFrom, if_neg htail, hnext, hclear, map_some, hread]
    dsimp only
    split
    · rfl
    · rfl

/-- `Queue_Clear` ends, and leaves an empty row.  It passes the objects on if the array is not
full. -/
theorem Stores.clear (h : Stores q xs) :
    ∃ q', q.clear =
        some (q', if q.object.fnObjectFree ∧ q.size < q.capacity then xs else []) ∧
      Stores q' [] := by
  obtain ⟨free, hring, -⟩ := h.ring_eq
  have hhead := h.head_lt
  have hsome (array : List (Option α)) (hlength : array.length = q.capacity) :
      Stores { q with array, size := 0, head := 0, tail := 0, event := false } [] := by
    refine ⟨h.growthFactor_pos, ?_, rfl, (zero_mod _).symm, rfl, array, List.rotate_zero _, ?_⟩
    · show 0 < array.length
      omega
    · -- nothing is said about the slots of an empty row at the start of the array
      intro p hp
      change p ∈ array.drop array.length at hp
      rw [List.drop_length] at hp
      exact absurd hp List.not_mem_nil
  rcases h.size_le.lt_or_eq with hfull | hfull
  · have hsize : ([] : List (Option α)).length + xs.length = q.size := by
      rw [h.size_eq, List.length_nil, zero_add]
    obtain ⟨array, hclear, hlength⟩ :=
      @clearFrom_eq _ _ _ h hfull [] xs free q.array q.capacity hring hsize rfl (by omega)
    rw [List.length_nil, add_zero, mod_eq_of_lt hhead] at hclear
    refine ⟨_, ?_, hsome array hlength⟩
    rw [Queue.clear, hclear, map_some]
    simp only [hfull, and_true]
  · have htail : q.head = q.tail := by
      rw [h.tail_eq, hfull, add_mod_right, mod_eq_of_lt hhead]
    refine ⟨_, ?_, hsome q.array rfl⟩
    obtain ⟨turns, hturns⟩ := Nat.exists_eq_add_of_lt hhead
    rw [Queue.clear, hturns, clearFrom, if_pos htail, map_some, ← hturns, if_neg (by omega)]

/-- The objects that wait, as they stand in the array. -/
def waiting (q : Queue α) : List (Option α) :=
  (List.range q.size).map fun i => q.array[(q.head + i) % q.capacity]?.join

theorem Stores.waiting_eq (h : Stores q xs) : q.waiting = xs := by
  obtain ⟨free, hring, -⟩ := h.ring_eq
  have hlength := h.length_free hring
  have hsize := h.size_eq
  apply List.ext_getElem?
  intro i
  rw [waiting, List.getElem?_map]
  by_cases hi : i < q.size
  · have hslot : q.array[(q.head + i) % q.capacity]? = xs[i]? := by
      rw [add_comm, capacity, ← List.getElem?_rotate (show i < q.array.length by
        show i < q.capacity; omega), hring, List.getElem?_append_left (by omega)]
    rw [List.getElem?_range hi, map_some, hslot, List.getElem?_eq_getElem (by omega), join_some]
  · rw [List.getElem?_eq_none (by rw [List.length_range]; omega),
      List.getElem?_eq_none (by omega), map_none]

/-- What `Queue_Contains` scans: the part of the row at the start of the array, or the zeroed
slots in front of the row and the row. -/
theorem Stores.take_tail (h : Stores q xs) :
    q.array.take q.tail =
      if q.head + q.size < q.capacity then List.replicate q.head none ++ xs
      else xs.drop (q.capacity - q.head) := by
  obtain ⟨free, hring, hzero⟩ := h.ring_eq
  have hlength := h.length_free hring
  have hsize := h.size_eq
  have hhead := h.head_lt
  have hsplit := drop_append_take (show q.head ≤ q.array.length from hhead.le) hring
  have hdrop : (q.array.drop q.head).length = q.capacity - q.head := List.length_drop
  split
  next hbehind =>
    -- the slots in front of the head are the last ones that are free
    have hparts : q.array.drop q.head = xs ++ free.take (q.capacity - q.head - q.size) ∧
        q.array.take q.head = free.drop (q.capacity - q.head - q.size) := by
      rw [← List.take_append_drop (q.capacity - q.head - q.size) free,
        ← List.append_assoc] at hsplit
      refine List.append_inj hsplit ?_
      rw [hdrop, List.length_append, List.length_take]
      omega
    have hfront : q.array.take q.head = List.replicate q.head none := by
      rw [List.eq_replicate_iff]
      refine ⟨?_, fun p hp => hzero p (by rwa [← hparts.2])⟩
      rw [List.length_take]
      exact min_eq_left hhead.le
    rw [h.tail_eq, mod_eq_of_lt hbehind, List.take_add, hfront, hparts.1, hsize, List.take_left]
  next hwrapped =>
    have hparts : q.array.drop q.head = xs.take (q.capacity - q.head) ∧
        q.array.take q.head = xs.drop (q.capacity - q.head) ++ free := by
      rw [← List.take_append_drop (q.capacity - q.head) xs, List.append_assoc] at hsplit
      refine List.append_inj hsplit ?_
      rw [hdrop, List.length_take]
      omega
    have htail : q.tail = (xs.drop (q.capacity - q.head)).length := by
      have hle := h.size_le
      rw [h.tail_eq, mod_eq_sub_mod (by omega), mod_eq_of_lt (by omega), List.length_drop]
      omega
    have hbefore : q.tail ≤ q.head := by
      have htake := congrArg List.length hparts.2
      rw [List.length_append, ← htail, List.length_take] at htake
      omega
    rw [← min_eq_left hbefore, ← List.take_take, hparts.2, htail, List.take_left]

end Queue

/-! ## Calls -/

/-- A call of a function of the queue, with what the system and `fnObjectNew` answer. -/
inductive QueueCall (α : Type*) where
  | enqueue (obj copy : Option α) (allocated : Bool)
  | dequeue
  | peek
  | discard
  | contains (obj : Option α)
  | clear

/-- A queue, and what was given to it and taken from it since it was made or last cleared. -/
structure QueueHistory (α : Type*) where
  queue : Queue α
  enqueued : List (Option α) := []
  dequeued : List (Option α) := []

namespace QueueHistory

open Queue

variable {α : Type*}

/-- A queue without a past. -/
def start (q : Queue α) : QueueHistory α := { queue := q }

/-- `Queue_Dequeue`; the answer is an object if there is one that was not taken yet. -/
def onDequeue (s : QueueHistory α) : QueueHistory α :=
  { s with
    queue := s.queue.dequeue.1
    dequeued :=
      if s.dequeued.length < s.enqueued.length then s.dequeued ++ [s.queue.dequeue.2]
      else s.dequeued }

variable (sizeMax pointerSize : ℕ)

/-- A call. -/
def step (s : QueueHistory α) : QueueCall α → Option (QueueHistory α)
  | .enqueue obj copy allocated =>
    some
      { s with
        queue := (s.queue.enqueue sizeMax pointerSize obj copy allocated).1
        enqueued := s.enqueued ++ [s.queue.stored obj copy] }
  | .dequeue => some s.onDequeue
  | .discard => some s.onDequeue
  | .peek => some s
  | .contains _ => some s
  | .clear => s.queue.clear.map fun cleared => start cleared.1

/-- The array has room for the object of an `enqueue`, or it can grow. -/
def Grows (s : QueueHistory α) (call : QueueCall α) (_ : QueueHistory α) : Prop :=
  match call with
  | .enqueue _ _ allocated => (s.queue.ensureCapacity sizeMax pointerSize 1 allocated).isSome
  | _ => True

variable {sizeMax pointerSize} {q : Queue α} {s t : QueueHistory α} {call : QueueCall α}

/-! ## First in, first out -/

/-- Every call keeps the queue a row of objects. -/
theorem stores_step {xs : List (Option α)} (h : Stores s.queue xs)
    (hstep : step sizeMax pointerSize s call = some t) : ∃ ys, Stores t.queue ys := by
  have hdequeue : ∃ ys, Stores s.queue.dequeue.1 ys := by
    cases xs with
    | nil => exact ⟨[], by rw [h.dequeue_nil]; exact h⟩
    | cons x xs => exact ⟨xs, by rw [h.dequeue_cons]; exact h.take⟩
  cases call with
  | enqueue obj copy allocated =>
    obtain rfl := some.inj hstep
    cases hroom : s.queue.ensureCapacity sizeMax pointerSize 1 allocated with
    | none =>
      refine ⟨xs, ?_⟩
      dsimp only
      rw [enqueue, hroom]
      exact h
    | some grown => exact ⟨_, h.enqueue obj copy (isSome_iff_exists.2 ⟨grown, hroom⟩)⟩
  | dequeue =>
    obtain rfl := some.inj hstep
    exact hdequeue
  | discard =>
    obtain rfl := some.inj hstep
    exact hdequeue
  | peek =>
    obtain rfl := some.inj hstep
    exact ⟨xs, h⟩
  | contains obj =>
    obtain rfl := some.inj hstep
    exact ⟨xs, h⟩
  | clear =>
    obtain ⟨q', hclear, hempty⟩ := h.clear
    rw [step, hclear] at hstep
    obtain rfl := some.inj hstep
    exact ⟨[], hempty⟩

/-- `xs` waits: it is what was enqueued and not dequeued yet. -/
structure Waits (s : QueueHistory α) (xs : List (Option α)) : Prop where
  stores : Stores s.queue xs
  enqueued_eq : s.enqueued = s.dequeued ++ xs

theorem Waits.onDequeue {xs : List (Option α)} (h : Waits s xs) :
    Waits s.onDequeue xs.tail := by
  have hlength := congrArg List.length h.enqueued_eq
  rw [List.length_append] at hlength
  cases xs with
  | nil =>
    rw [List.length_nil] at hlength
    refine ⟨?_, ?_⟩
    · show Stores s.queue.dequeue.1 []
      rw [h.stores.dequeue_nil]
      exact h.stores
    · show s.enqueued = (if _ then _ else s.dequeued) ++ []
      rw [if_neg (by omega)]
      exact h.enqueued_eq
  | cons x xs =>
    rw [List.length_cons] at hlength
    refine ⟨?_, ?_⟩
    · show Stores s.queue.dequeue.1 xs
      rw [h.stores.dequeue_cons]
      exact h.stores.take
    · show s.enqueued = (if _ then s.dequeued ++ [s.queue.dequeue.2] else _) ++ xs
      rw [if_pos (by omega), h.stores.dequeue_cons, List.append_assoc]
      exact h.enqueued_eq

/-- Every call keeps account of the objects, if the array grows when it has to. -/
theorem Waits.step {xs : List (Option α)} (h : Waits s xs)
    (hstep : step sizeMax pointerSize s call = some t)
    (hgrows : Grows sizeMax pointerSize s call t) : ∃ ys, Waits t ys := by
  cases call with
  | enqueue obj copy allocated =>
    obtain rfl := some.inj hstep
    refine ⟨xs ++ [s.queue.stored obj copy], h.stores.enqueue obj copy hgrows, ?_⟩
    show s.enqueued ++ _ = _
    rw [h.enqueued_eq, List.append_assoc]
  | dequeue =>
    obtain rfl := some.inj hstep
    exact ⟨_, h.onDequeue⟩
  | discard =>
    obtain rfl := some.inj hstep
    exact ⟨_, h.onDequeue⟩
  | peek =>
    obtain rfl := some.inj hstep
    exact ⟨xs, h⟩
  | contains obj =>
    obtain rfl := some.inj hstep
    exact ⟨xs, h⟩
  | clear =>
    obtain ⟨q', hclear, hempty⟩ := h.stores.clear
    rw [QueueHistory.step, hclear] at hstep
    obtain rfl := some.inj hstep
    exact ⟨[], hempty, rfl⟩

/-- A new queue of 32 slots. -/
def emptyQueue : Queue ℕ where
  growthFactor := 1
  array := List.replicate 32 none
  object := { fnObjectFree := true, fnObjectEquals := fun p p' => decide (p = p') }

theorem new_emptyQueue : new (2 ^ 64 - 1) 8 emptyQueue.object 1 1 true = some emptyQueue := rfl

instance (s : QueueHistory ℕ) (call : QueueCall ℕ) (t : QueueHistory ℕ) :
    Decidable (Grows (2 ^ 64 - 1) 8 s call t) := by
  unfold Grows
  cases call <;> infer_instance

/-- A call keeps account of the objects: `Queue_Contains` finds those that wait, `Queue_Clear`
passes them on, and `Queue_Enqueue` says whether the object was appended. -/
def Accounts (sizeMax pointerSize : ℕ) (q : Queue α) : QueueCall α → Prop
  | .contains obj =>
    q.contains obj = true ↔ ∃ p ∈ q.waiting, q.object.fnObjectEquals p obj = true
  | .clear =>
    ∃ q' passed, q.clear = some (q', passed) ∧
      (q.object.fnObjectFree = true → passed.Perm q.waiting)
  | .enqueue obj copy allocated =>
    (q.enqueue sizeMax pointerSize obj copy allocated).2 = true ↔
      (q.enqueue sizeMax pointerSize obj copy allocated).1.waiting =
        q.waiting ++ [q.stored obj copy]
  | _ => True

/-- There is room for one more object, or there is memory for it. -/
def HasRoom (sizeMax pointerSize : ℕ) (q : Queue α) (allocated : Bool) : Prop :=
  q.growthFactor ≤ sizeMax / 32 ∧ q.size + 1 ≤ sizeMax ∧
    (q.size < q.capacity ∨
      (q.size + 1 + 32 * q.growthFactor ≤ sizeMax ∧
        q.size + 1 + 32 * q.growthFactor - (q.size + 1) % (32 * q.growthFactor) ≤
          sizeMax / pointerSize ∧ allocated = true))

/-- The calls that overlook an object, or find one that does not wait.  A search looks at the part
of a wrapped row at the start of the array only, and in front of another row at the zeroed slots,
too. -/
def Overlooks (sizeMax pointerSize : ℕ) (q : Queue α) : QueueCall α → Prop
  | .contains obj =>
    if q.head + q.size < q.capacity then
      0 < q.head ∧ q.object.fnObjectEquals none obj = true ∧
        ∀ p ∈ q.waiting, q.object.fnObjectEquals p obj = false
    else
      (∃ p ∈ q.waiting.take (q.capacity - q.head), q.object.fnObjectEquals p obj = true) ∧
        ∀ p ∈ q.waiting.drop (q.capacity - q.head), q.object.fnObjectEquals p obj = false
  | .clear => q.object.fnObjectFree = true ∧ q.size = q.capacity
  | .enqueue _ _ allocated => ¬ HasRoom sizeMax pointerSize q allocated
  | _ => False

theorem isSome_ensureCapacity (hgrowth : 0 < q.growthFactor) (allocated : Bool) :
    (q.ensureCapacity sizeMax pointerSize 1 allocated).isSome ↔
      HasRoom sizeMax pointerSize q allocated := by
  unfold ensureCapacity HasRoom
  dsimp only
  split_ifs with hfactor hsize hfull hincrement hcapacity hallocated
  · simp only [isSome_none, Bool.false_eq_true, false_iff]
    omega
  · simp only [isSome_none, Bool.false_eq_true, false_iff]
    omega
  · simp only [isSome_none, Bool.false_eq_true, false_iff]
    omega
  · simp only [isSome_none, Bool.false_eq_true, false_iff]
    omega
  · simp only [isSome_some, true_iff, hallocated, and_true]
    omega
  · simp only [isSome_none, Bool.false_eq_true, false_iff, hallocated, and_false, or_false]
    omega
  · simp only [isSome_some, true_iff]
    omega

/-- A search that looks at `n` times the same value, too. -/
theorem any_replicate_append (f : Option α → Bool) (n : ℕ) (p₀ : Option α) (xs : List (Option α)) :
    ((List.replicate n p₀ ++ xs).any f = true ↔ ∃ p ∈ xs, f p = true) ↔
      ¬ (0 < n ∧ f p₀ = true ∧ ∀ p ∈ xs, f p = false) := by
  have hnone : (∀ p ∈ xs, f p = false) ↔ ¬ ∃ p ∈ xs, f p = true := by simp
  rw [List.any_append, List.any_replicate, Bool.or_eq_true, List.any_eq_true, hnone]
  by_cases hwaits : ∃ p ∈ xs, f p = true
  · exact iff_of_true (iff_of_true (Or.inr hwaits) hwaits) fun h => h.2.2 hwaits
  · rw [iff_false_right hwaits, or_iff_left hwaits]
    refine not_congr ?_
    split
    next hzero => exact iff_of_false Bool.false_ne_true (by omega)
    next hzero => exact ⟨fun hequals => ⟨pos_of_ne_zero hzero, hequals, hwaits⟩, (·.2.1)⟩

/-- A search that does not look at the first `n` values. -/
theorem any_drop (f : Option α → Bool) (n : ℕ) (xs : List (Option α)) :
    ((xs.drop n).any f = true ↔ ∃ p ∈ xs, f p = true) ↔
      ¬ ((∃ p ∈ xs.take n, f p = true) ∧ ∀ p ∈ xs.drop n, f p = false) := by
  have hnone : (∀ p ∈ xs.drop n, f p = false) ↔ ¬ ∃ p ∈ xs.drop n, f p = true := by simp
  have hparts : (∃ p ∈ xs, f p = true) ↔
      (∃ p ∈ xs.take n, f p = true) ∨ ∃ p ∈ xs.drop n, f p = true := by
    conv_lhs => rw [← List.take_append_drop n xs]
    simp only [List.mem_append, or_and_right, exists_or]
  rw [List.any_eq_true, hnone, hparts, not_and_not_right]
  exact Iff.comm.trans or_iff_right_iff_imp

/-- **Every object is accounted for**, except by the calls that overlook some. -/
theorem queue_accounts_iff {object : WObject α} {capacity growthFactor : ℤ} {allocated : Bool}
    (hnew : new sizeMax pointerSize object capacity growthFactor allocated = some q)
    (hreach : Reachable (step sizeMax pointerSize) (start q) s) (call : QueueCall α) :
    Accounts sizeMax pointerSize s.queue call ↔ ¬ Overlooks sizeMax pointerSize s.queue call := by
  have hstart : ∃ xs, Stores (start q).queue xs := ⟨[], stores_new hnew⟩
  obtain ⟨xs, h⟩ := hreach.induct (P := fun s => ∃ xs, Stores s.queue xs)
    (fun s call t ⟨xs, h⟩ hstep => stores_step h hstep) hstart
  cases call with
  | enqueue obj copy allocated =>
    rw [Overlooks, not_not, ← isSome_ensureCapacity h.growthFactor_pos]
    constructor
    · intro haccounts
      by_contra hroom
      have hnone := not_isSome_iff_eq_none.1 hroom
      rw [Accounts, enqueue, hnone] at haccounts
      exact List.cons_ne_nil _ _ (List.self_eq_append_right.1 (haccounts.1 rfl))
    · intro hroom
      have hstores := h.enqueue obj copy hroom
      have hanswer : (s.queue.enqueue sizeMax pointerSize obj copy allocated).2 = true := by
        rw [enqueue]
        split <;> rfl
      rw [Accounts, hanswer, hstores.waiting_eq, h.waiting_eq]
      exact iff_of_true rfl rfl
  | contains obj =>
    rw [Accounts, Overlooks, contains, h.take_tail, h.waiting_eq]
    split
    · exact any_replicate_append _ _ _ _
    · exact any_drop _ _ _
  | clear =>
    obtain ⟨q', hclear, -⟩ := h.clear
    have hle := h.size_le
    rw [Accounts, Overlooks, hclear, h.waiting_eq]
    by_cases hfree : s.queue.object.fnObjectFree = true
    · by_cases hfull : s.queue.size < s.queue.capacity
      · rw [if_pos ⟨hfree, hfull⟩]
        refine iff_of_true ⟨q', xs, rfl, fun _ => List.Perm.refl xs⟩ ?_
        omega
      · rw [if_neg (fun h => hfull h.2)]
        refine iff_of_false ?_ (not_not_intro ⟨hfree, by omega⟩)
        rintro ⟨q'', passed, heq, hperm⟩
        obtain ⟨-, rfl⟩ := Prod.mk.inj (some.inj heq)
        have hsize := h.size_eq
        have hhead := h.head_lt
        rw [(List.nil_perm.1 (hperm hfree)), List.length_nil] at hsize
        omega
    · refine iff_of_true ⟨q', _, rfl, fun h => absurd h hfree⟩ ?_
      exact fun h => hfree h.1
  | dequeue => exact iff_of_true trivial not_false
  | peek => exact iff_of_true trivial not_false
  | discard => exact iff_of_true trivial not_false

/-- A queue of 32 slots with as many objects. -/
def fullQueue : Queue ℕ :=
  { emptyQueue with size := 32, array := List.replicate 32 (some 7), event := true }

set_option maxRecDepth 4000 in
theorem run_full :
    run (step (2 ^ 64 - 1) 8)
        (start emptyQueue)
        (List.replicate 32 (.enqueue (some 7) none true)) =
      some { queue := fullQueue, enqueued := List.replicate 32 (some 7) } := rfl

/-- None of the objects of a full queue is found or passed on, and another one is refused with the
answer `TRUE`. -/
theorem exists_overlooked :
    ∃ q s, new (2 ^ 64 - 1) 8 emptyQueue.object 1 1 true = some q ∧
      Reachable (step (2 ^ 64 - 1) 8) (start q) s ∧
      ¬ Accounts (2 ^ 64 - 1) 8 s.queue (.contains (some 7)) ∧
      ¬ Accounts (2 ^ 64 - 1) 8 s.queue .clear ∧
      ¬ Accounts (2 ^ 64 - 1) 8 s.queue (.enqueue (some 8) none false) := by
  refine ⟨_, _, new_emptyQueue, ⟨_, run_full⟩, ?_, ?_, ?_⟩
  · unfold Accounts
    decide
  · rintro ⟨q', passed, hclear, hperm⟩
    obtain ⟨-, rfl⟩ := Prod.mk.inj (some.inj hclear)
    exact absurd (hperm rfl).length_eq (by decide)
  · unfold Accounts
    decide

theorem queue_accounts_iff_fullQueue :
    Accounts (2 ^ 64 - 1) 8 fullQueue .clear ↔ ¬ Overlooks (2 ^ 64 - 1) 8 fullQueue .clear :=
  queue_accounts_iff new_emptyQueue ⟨_, run_full⟩ .clear

end QueueHistory
