/-
# The array list of WinPR

`ArrayList.c`: an array of pointers with callbacks for the objects behind them.  Every function
is one critical section.

The size is changed before an object is copied, so that a copy that fails leaves the list longer,
or with `NULL` in place of an object; an index behind the end is answered with `TRUE` by
`ArrayList_Insert` and `ArrayList_RemoveAt`; a search to the end of the list goes on for `size`
objects wherever it starts; and `ArrayList_LastIndexOf` answers the index behind the object.
-/
import Mathlib.Order.Bounds.Basic
import XyDeskRemote.Queue

open LabelledRun List Option

/-- `SSIZE_MAX`. -/
def ssizeMax : ℕ := 2 ^ 63 - 1

/-- `wArrayList`: the objects, and for how many there is room. -/
structure ArrayList (α : Type*) where
  capacity : ℕ := 0
  growthFactor : ℕ := 2
  items : List (Option α) := []
  object : WObject α

namespace ArrayList

variable {α : Type*}

/-! ## The functions of the list -/

/-- The number of objects. -/
def size (l : ArrayList α) : ℕ := l.items.length

/-- What is stored for an object: the object, or the answer `copy` of `fnObjectNew` for it. -/
def stored (l : ArrayList α) (obj copy : Option α) : Option α :=
  if l.object.fnObjectNew then copy else obj

/-- `ArrayList_SetItem`: the list behind it, and the answer. -/
def setItem (l : ArrayList α) (index : ℕ) (obj copy : Option α) : ArrayList α × Bool :=
  if index ≥ l.size then (l, false)
  else if l.object.fnObjectNew then
    ({ l with items := l.items.set index copy }, ¬ (obj.isSome ∧ copy.isNone))
  else ({ l with items := l.items.set index obj }, true)

/-- The capacity of a list that grows by `count` objects. -/
def newCapacity (l : ArrayList α) (count : ℕ) : ℕ :=
  max (l.capacity * l.growthFactor) (l.size + count)

/-- `ArrayList_EnsureCapacity`, by the answer of `realloc`, which never gives more than
`SSIZE_MAX` bytes.  `none` is the answer `FALSE`. -/
def ensureCapacity (l : ArrayList α) (count : ℕ) (allocated : Bool) : Option (ArrayList α) :=
  if l.size + count > l.capacity then
    if allocated ∧ 8 * l.newCapacity count ≤ ssizeMax then
      some { l with capacity := l.newCapacity count }
    else none
  else some l

/-- `ArrayList_Shift`; the objects in a gap are what stood there before, and are written at
once. -/
def shift (l : ArrayList α) (index : ℕ) (count : ℤ) (allocated : Bool) : Option (ArrayList α) :=
  if count > 0 then
    (l.ensureCapacity count.toNat allocated).map fun l =>
      { l with
        items := l.items.take index ++ (replicate count.toNat none ++ l.items.drop index) }
  else if count < 0 then
    let scount := (-count).toNat
    let off := index + scount
    if off < l.size then some { l with items := l.items.take index ++ l.items.drop off }
    else some { l with items := l.items.take (l.size - scount) }
  else some l

/-- `ArrayList_Clear`. -/
def clear (l : ArrayList α) : ArrayList α := { l with items := [] }

/-- `ArrayList_Append`: the list behind it, and the answer. -/
def append (l : ArrayList α) (obj copy : Option α) (allocated : Bool) : ArrayList α × Bool :=
  match l.ensureCapacity 1 allocated with
  | none => (l, false)
  | some l => setItem { l with items := l.items ++ [none] } l.size obj copy

/-- `ArrayList_Insert`: the list behind it, and the answer. -/
def insert (l : ArrayList α) (index : ℕ) (obj copy : Option α) (allocated : Bool) :
    ArrayList α × Bool :=
  if index ≤ l.size then
    match l.shift index 1 allocated with
    | none => (l, false)
    | some l => l.setItem index obj copy
  else (l, true)

/-- `ArrayList_RemoveAt`: the list behind it, and the answer. -/
def removeAt (l : ArrayList α) (index : ℕ) : ArrayList α × Bool :=
  if index < l.size then
    match l.shift index (-1) true with
    | none => (l, false)
    | some l => (l, true)
  else (l, true)

/-- `ArrayList_Remove`: the list behind it, and the answer. -/
def remove (l : ArrayList α) (obj : Option α) : ArrayList α × Bool :=
  match l.items.findIdx? (l.object.fnObjectEquals · obj) with
  | none => (l, true)
  | some index => l.removeAt index

/-- The loop of `ArrayList_IndexOf` over `turns` objects.  `none` says that it reads behind the
end of the list. -/
def scanUp (l : ArrayList α) (obj : Option α) : ℕ → ℕ → Option ℤ
  | 0, _ => some (-1)
  | turns + 1, index =>
    match l.items[index]? with
    | none => none
    | some item =>
      if l.object.fnObjectEquals item obj then some index else scanUp l obj turns (index + 1)

/-- The loop of `ArrayList_LastIndexOf` over the `turns` objects behind `sindex`. -/
def scanDown (l : ArrayList α) (obj : Option α) (sindex : ℕ) : ℕ → Option ℤ
  | 0 => some (-1)
  | turns + 1 =>
    -- the index is `sindex + turns + 1` here
    match l.items[sindex + turns]? with
    | none => none
    | some item =>
      if l.object.fnObjectEquals item obj then some ((sindex + turns + 1 : ℕ) : ℤ)
      else scanDown l obj sindex turns

/-- `ArrayList_IndexOf`. -/
def indexOf (l : ArrayList α) (obj : Option α) (startIndex count : ℤ) : Option ℤ :=
  if count < 0 then
    if l.size > ssizeMax then some (-1) else l.scanUp obj l.size startIndex.toNat
  else l.scanUp obj count.toNat startIndex.toNat

/-- `ArrayList_LastIndexOf`. -/
def lastIndexOf (l : ArrayList α) (obj : Option α) (startIndex count : ℤ) : Option ℤ :=
  if count < 0 then
    if l.size > ssizeMax then none else l.scanDown obj startIndex.toNat l.size
  else l.scanDown obj startIndex.toNat count.toNat

/-- `ArrayList_New`, by the answer of `realloc`; the other constructors have succeeded. -/
def new (object : WObject α) (allocated : Bool) : Option (ArrayList α) :=
  ensureCapacity { object } 32 allocated

/-! ## What the functions are for -/

/-- A call of a function of the list, with what the system and `fnObjectNew` answer. -/
inductive Call (α : Type*) where
  | append (obj copy : Option α) (allocated : Bool)
  | insert (index : ℕ) (obj copy : Option α) (allocated : Bool)
  | remove (obj : Option α)
  | removeAt (index : ℕ)
  | setItem (index : ℕ) (obj copy : Option α)
  | clear
  | indexOf (obj : Option α) (startIndex count : ℤ)
  | lastIndexOf (obj : Option α) (startIndex count : ℤ)

/-- The list behind a call, and its answer, if it is one that changes the list. -/
def apply (l : ArrayList α) : Call α → ArrayList α × Bool
  | .append obj copy allocated => l.append obj copy allocated
  | .insert index obj copy allocated => l.insert index obj copy allocated
  | .remove obj => l.remove obj
  | .removeAt index => l.removeAt index
  | .setItem index obj copy => l.setItem index obj copy
  | .clear => (l.clear, true)
  | .indexOf _ _ _ => (l, true)
  | .lastIndexOf _ _ _ => (l, true)

/-- A call. -/
def step (l : ArrayList α) (call : Call α) : Option (ArrayList α) := some (l.apply call).1

/-- The operation on the list of objects; there are none behind the end of it. -/
def effect (l : ArrayList α) (xs : List (Option α)) : Call α → Option (List (Option α))
  | .append obj copy _ => some (xs ++ [l.stored obj copy])
  | .insert index obj copy _ =>
    if index ≤ xs.length then some (xs.take index ++ l.stored obj copy :: xs.drop index)
    else none
  | .remove obj => some (xs.eraseP (l.object.fnObjectEquals · obj))
  | .removeAt index => if index < xs.length then some (xs.eraseIdx index) else none
  | .setItem index obj copy =>
    if index < xs.length then some (xs.set index (l.stored obj copy)) else none
  | .clear => some []
  | .indexOf _ _ _ => some xs
  | .lastIndexOf _ _ _ => some xs

/-- The end of the range that `startIndex` and `count` name. -/
def rangeEnd (l : ArrayList α) (startIndex count : ℤ) : ℕ :=
  if count < 0 then l.size else startIndex.toNat + count.toNat

/-- The range is inside the list. -/
def InList (l : ArrayList α) (startIndex count : ℤ) : Prop :=
  startIndex.toNat ≤ l.rangeEnd startIndex count ∧ l.rangeEnd startIndex count ≤ l.size

/-- The object at an index is equal to `obj`. -/
def EqualAt (l : ArrayList α) (obj : Option α) (i : ℕ) : Prop :=
  ∃ item, l.items[i]? = some item ∧ l.object.fnObjectEquals item obj = true

/-- The indexes in the range whose object is equal to `obj`. -/
def hits (l : ArrayList α) (obj : Option α) (startIndex count : ℤ) : Set ℕ :=
  {i | startIndex.toNat ≤ i ∧ i < l.rangeEnd startIndex count ∧ l.EqualAt obj i}

/-- The answer of a search, which is -1 if there is no index to answer. -/
def Answers (found : Set ℕ) (extreme : ℕ → Prop) (answer : Option ℤ) : Prop :=
  (∃ i, extreme i ∧ answer = some (i : ℤ)) ∨ (found = ∅ ∧ answer = some (-1))

/-- A call that changes the list does so as the operation on the objects, or answers `FALSE` and
leaves them as they were. -/
def Changes (l : ArrayList α) (call : Call α) : Prop :=
  if (l.apply call).2 then l.effect l.items call = some (l.apply call).1.items
  else (l.apply call).1.items = l.items

/-- A call does what it is for. -/
def Refines (l : ArrayList α) : Call α → Prop
  | .indexOf obj startIndex count =>
    l.InList startIndex count →
      Answers (l.hits obj startIndex count) (IsLeast (l.hits obj startIndex count))
        (l.indexOf obj startIndex count)
  | .lastIndexOf obj startIndex count =>
    l.InList startIndex count →
      Answers (l.hits obj startIndex count) (IsGreatest (l.hits obj startIndex count))
        (l.lastIndexOf obj startIndex count)
  | call => l.Changes call

/-- An object that has to be copied has been copied. -/
def Copied (l : ArrayList α) (obj copy : Option α) : Prop :=
  l.object.fnObjectNew = true → obj.isSome = true → copy.isSome = true

/-- There is room for one more object, or there is memory for it. -/
def HasRoom (l : ArrayList α) (allocated : Bool) : Prop :=
  l.size < l.capacity ∨ (allocated = true ∧ 8 * l.newCapacity 1 ≤ ssizeMax)

/-- The calls that do what they are for. -/
def Supported (l : ArrayList α) : Call α → Prop
  | .append obj copy allocated => l.HasRoom allocated → l.Copied obj copy
  | .insert index obj copy allocated =>
    index ≤ l.size ∧ (l.HasRoom allocated → l.Copied obj copy)
  | .removeAt index => index < l.size
  | .setItem index obj copy =>
    index < l.size → l.Copied obj copy ∨ l.items[index]? = some none
  | .indexOf obj startIndex count =>
    l.InList startIndex count →
      0 ≤ count ∨ startIndex ≤ 0 ∨ (l.hits obj startIndex count).Nonempty
  | .lastIndexOf obj startIndex count =>
    l.InList startIndex count →
      (0 ≤ count ∨ startIndex ≤ 0) ∧ l.hits obj startIndex count = ∅
  | .remove _ => True
  | .clear => True

/-! ## Searches -/

variable {l : ArrayList α} {obj copy : Option α}

theorem EqualAt.lt {i : ℕ} (h : l.EqualAt obj i) : i < l.size := by
  obtain ⟨item, hitem, -⟩ := h
  exact (List.getElem?_eq_some_iff.1 hitem).1

variable {turns index : ℕ}

/-- The search upwards finds the first index. -/
theorem scanUp_of_isLeast {k : ℕ} (h : IsLeast {i | index ≤ i ∧ l.EqualAt obj i} k)
    (hk : k < index + turns) : l.scanUp obj turns index = some (k : ℤ) := by
  induction turns generalizing index with
  | zero => exact absurd h.1.1 (not_le.2 hk)
  | succ turns ih =>
    obtain ⟨⟨hindex, hequal⟩, hleast⟩ := h
    have hlt := hequal.lt
    obtain ⟨item, hitem⟩ : ∃ item, l.items[index]? = some item :=
      ⟨_, getElem?_eq_getElem (lt_of_le_of_lt hindex hlt)⟩
    rw [scanUp, hitem]
    dsimp only
    split
    next hequals =>
      have hfirst : k ≤ index := hleast ⟨le_refl index, item, hitem, hequals⟩
      rw [le_antisymm hfirst hindex]
    next hequals =>
      have hne : k ≠ index := by
        rintro rfl
        obtain ⟨item', hitem', hequals'⟩ := hequal
        rw [hitem] at hitem'
        exact hequals (some.inj hitem' ▸ hequals')
      refine ih ⟨⟨?_, hequal⟩, fun i hi => hleast ⟨Nat.le_of_succ_le hi.1, hi.2⟩⟩ (by omega)
      omega

/-- The search upwards finds nothing, or reads on behind the end of the list. -/
theorem scanUp_of_forall (h : ∀ i, index ≤ i → i < index + turns → ¬ l.EqualAt obj i) :
    l.scanUp obj turns index =
      if turns = 0 ∨ index + turns ≤ l.size then some (-1) else none := by
  induction turns generalizing index with
  | zero => rfl
  | succ turns ih =>
    rw [scanUp]
    cases hitem : l.items[index]? with
    | none =>
      have hle := getElem?_eq_none_iff.1 hitem
      rw [if_neg (by unfold size; omega)]
    | some item =>
      have hlt : index < l.size := (List.getElem?_eq_some_iff.1 hitem).1
      have hequals : ¬ l.object.fnObjectEquals item obj = true :=
        fun hequals => h index (le_refl index) (by omega) ⟨item, hitem, hequals⟩
      dsimp only
      rw [if_neg hequals, ih fun i hi hi' => h i (by omega) (by omega)]
      exact if_congr (by omega) rfl rfl

/-- The search downwards finds the last index, and answers the one behind it. -/
theorem scanDown_of_isGreatest {sindex k : ℕ}
    (h : IsGreatest {i | sindex ≤ i ∧ i < sindex + turns ∧ l.EqualAt obj i} k)
    (hsize : sindex + turns ≤ l.size) :
    l.scanDown obj sindex turns = some ((k + 1 : ℕ) : ℤ) := by
  induction turns with
  | zero => exact absurd h.1.1 (not_le.2 h.1.2.1)
  | succ turns ih =>
    obtain ⟨⟨hindex, hk, hequal⟩, hgreatest⟩ := h
    obtain ⟨item, hitem⟩ : ∃ item, l.items[sindex + turns]? = some item :=
      ⟨_, getElem?_eq_getElem (show sindex + turns < l.size by omega)⟩
    rw [scanDown, hitem]
    dsimp only
    split
    next hequals =>
      have hlast : sindex + turns ≤ k := hgreatest ⟨by omega, by omega, item, hitem, hequals⟩
      rw [show k = sindex + turns by omega]
    next hequals =>
      have hne : k ≠ sindex + turns := by
        rintro rfl
        obtain ⟨item', hitem', hequals'⟩ := hequal
        rw [hitem] at hitem'
        exact hequals (some.inj hitem' ▸ hequals')
      refine ih ⟨⟨hindex, ?_, hequal⟩, fun i hi => ?_⟩ (by omega)
      · omega
      · exact hgreatest ⟨hi.1, Nat.lt_succ_of_lt hi.2.1, hi.2.2⟩

theorem scanDown_of_forall {sindex : ℕ}
    (h : ∀ i, sindex ≤ i → i < sindex + turns → ¬ l.EqualAt obj i)
    (hsize : sindex + turns ≤ l.size) : l.scanDown obj sindex turns = some (-1) := by
  induction turns with
  | zero => rfl
  | succ turns ih =>
    obtain ⟨item, hitem⟩ : ∃ item, l.items[sindex + turns]? = some item :=
      ⟨_, getElem?_eq_getElem (show sindex + turns < l.size by omega)⟩
    have hequals : ¬ l.object.fnObjectEquals item obj = true :=
      fun hequals => h (sindex + turns) (by omega) (by omega) ⟨item, hitem, hequals⟩
    rw [scanDown, hitem]
    dsimp only
    rw [if_neg hequals]
    exact ih (fun i hi hi' => h i hi (by omega)) (by omega)

/-- The search downwards begins behind the end of the list. -/
theorem scanDown_of_lt {sindex : ℕ} (hturns : 0 < turns) (hsize : l.size < sindex + turns) :
    l.scanDown obj sindex turns = none := by
  obtain ⟨turns, rfl⟩ := Nat.exists_eq_succ_of_ne_zero hturns.ne'
  have hitem : l.items[sindex + turns]? = none := by
    apply getElem?_eq_none
    unfold size at hsize
    omega
  rw [scanDown, hitem]

/-! ## Changes -/

/-- The objects fit into the array, and the array into memory. -/
structure Fits (l : ArrayList α) : Prop where
  size_le : l.size ≤ l.capacity
  capacity_le : 8 * l.capacity ≤ ssizeMax

variable {allocated : Bool}

theorem new_fits {object : WObject α} (h : new object allocated = some l) :
    Fits l := by
  have hempty : ({ object } : ArrayList α).size + 32 > ({ object } : ArrayList α).capacity :=
    Nat.succ_pos _
  rw [new, ensureCapacity, if_pos hempty] at h
  obtain ⟨⟨-, hbytes⟩, hl⟩ := ite_none_right_eq_some.1 h
  rw [← some.inj hl]
  exact ⟨Nat.zero_le _, hbytes⟩

/-- Room for one more object. -/
theorem ensureCapacity_of_hasRoom (h : Fits l) (hroom : l.HasRoom allocated) :
    ∃ c, l.ensureCapacity 1 allocated = some { l with capacity := c } ∧ l.size + 1 ≤ c ∧
      8 * c ≤ ssizeMax := by
  rw [ensureCapacity]
  split
  next hfull =>
    obtain hlt | hmemory := hroom
    · omega
    · exact ⟨_, if_pos hmemory, le_max_right _ _, hmemory.2⟩
  next hfree => exact ⟨l.capacity, rfl, by omega, h.capacity_le⟩

theorem ensureCapacity_of_not_hasRoom (hroom : ¬ l.HasRoom allocated) :
    l.ensureCapacity 1 allocated = none := by
  rw [HasRoom, not_or] at hroom
  rw [ensureCapacity, if_pos (by omega), if_neg hroom.2]

/-- `ArrayList_SetItem` writes what it stores, and answers whether an object was copied. -/
theorem setItem_of_lt (h : index < l.size) (obj copy : Option α) :
    (l.setItem index obj copy).1 = { l with items := l.items.set index (l.stored obj copy) } ∧
      ((l.setItem index obj copy).2 = true ↔ l.Copied obj copy) := by
  rw [setItem, if_neg (by omega), stored, Copied]
  split
  next hnew =>
    refine ⟨rfl, ?_⟩
    rw [decide_eq_true_iff, not_and, isNone_iff_eq_none, ← ne_eq, ne_none_iff_isSome]
    exact ⟨fun hcopied _ => hcopied, fun hcopied => hcopied hnew⟩
  next hnew => exact ⟨rfl, iff_of_true rfl fun h => absurd h hnew⟩

theorem append_of_hasRoom (h : Fits l) (hroom : l.HasRoom allocated) (obj copy : Option α) :
    Fits (l.append obj copy allocated).1 ∧
      (l.append obj copy allocated).1.items = l.items ++ [l.stored obj copy] ∧
      ((l.append obj copy allocated).2 = true ↔ l.Copied obj copy) := by
  obtain ⟨c, hgrown, hsize, hbytes⟩ := ensureCapacity_of_hasRoom h hroom
  have hset := @setItem_of_lt _ { l with capacity := c, items := l.items ++ [none] } l.size
    (by rw [size, size, length_append]; exact Nat.lt_succ_self _) obj copy
  have happend : l.append obj copy allocated =
      setItem { l with capacity := c, items := l.items ++ [none] } l.size obj copy := by
    rw [append, hgrown]
    rfl
  rw [happend, hset.1]
  refine ⟨⟨?_, hbytes⟩, ?_, hset.2⟩
  · rw [size, length_set, length_append]
    exact hsize
  · show (l.items ++ [none]).set l.items.length (l.stored obj copy) = _
    rw [set_append_right _ _ (le_refl _), Nat.sub_self, set_cons_zero]

theorem insert_of_hasRoom (h : Fits l) (hroom : l.HasRoom allocated) (hindex : index ≤ l.size)
    (obj copy : Option α) :
    Fits (l.insert index obj copy allocated).1 ∧
      (l.insert index obj copy allocated).1.items =
        l.items.take index ++ l.stored obj copy :: l.items.drop index ∧
      ((l.insert index obj copy allocated).2 = true ↔ l.Copied obj copy) := by
  obtain ⟨c, hgrown, hsize, hbytes⟩ := ensureCapacity_of_hasRoom h hroom
  have htake : (l.items.take index).length = index := by
    rw [length_take]
    exact Nat.min_eq_left hindex
  have hlength : (l.items.take index ++ ([none] ++ l.items.drop index)).length = l.size + 1 := by
    rw [length_append, length_append, htake, length_drop, length_singleton]
    unfold size at *
    omega
  have hshift : l.shift index 1 allocated = some
      { l with capacity := c, items := l.items.take index ++ ([none] ++ l.items.drop index) } := by
    rw [shift, if_pos Int.one_pos, Int.toNat_one, hgrown]
    rfl
  have hset := @setItem_of_lt _
    { l with capacity := c, items := l.items.take index ++ ([none] ++ l.items.drop index) } index
    (by rw [size, hlength]; omega) obj copy
  have hinsert : l.insert index obj copy allocated = setItem
      { l with capacity := c, items := l.items.take index ++ ([none] ++ l.items.drop index) }
      index obj copy := by
    rw [insert, if_pos hindex, hshift]
  rw [hinsert, hset.1]
  refine ⟨⟨?_, hbytes⟩, ?_, hset.2⟩
  · rw [size, length_set, hlength]
    exact hsize
  · show (l.items.take index ++ ([none] ++ l.items.drop index)).set index (l.stored obj copy) = _
    rw [set_append_right _ _ htake.le, htake, Nat.sub_self]
    rfl

theorem insert_of_not_hasRoom (hroom : ¬ l.HasRoom allocated) (hindex : index ≤ l.size) :
    l.insert index obj copy allocated = (l, false) := by
  rw [insert, if_pos hindex, shift, if_pos Int.one_pos, Int.toNat_one,
    ensureCapacity_of_not_hasRoom hroom]
  rfl

theorem removeAt_of_lt (hindex : index < l.size) :
    l.removeAt index = ({ l with items := l.items.eraseIdx index }, true) := by
  have hshift : l.shift index (-1) true = some { l with items := l.items.eraseIdx index } := by
    have hone : (-(-1 : ℤ)).toNat = 1 := rfl
    rw [shift, if_neg (by decide), if_pos (by decide), hone]
    dsimp only
    split
    next hmore => rw [eraseIdx_eq_take_drop_succ]
    next hlast =>
      have hend : index + 1 = l.items.length := by
        unfold size at *
        omega
      rw [eraseIdx_eq_dropLast hend, dropLast_eq_take]
      rfl
  rw [removeAt, if_pos hindex, hshift]

/-- An index behind the end of the list is answered with `TRUE`. -/
theorem removeAt_of_ge (hindex : l.size ≤ index) : l.removeAt index = (l, true) :=
  if_neg (not_lt.2 hindex)

theorem remove_eq (l : ArrayList α) (obj : Option α) :
    l.remove obj = ({ l with items := l.items.eraseP (l.object.fnObjectEquals · obj) }, true) := by
  rw [remove, eraseP_eq_eraseIdx]
  split
  next hnone => rw [hnone]
  next index hsome =>
    obtain ⟨hindex, -⟩ := findIdx?_eq_some_iff_getElem.1 hsome
    rw [hsome, removeAt_of_lt hindex]

/-- Every call keeps the objects in the array, and the array in memory. -/
theorem fits_apply (h : Fits l) (call : Call α) : Fits (l.apply call).1 := by
  have hshorter {items : List (Option α)} (hle : items.length ≤ l.size) :
      Fits { l with items } := ⟨hle.trans h.size_le, h.capacity_le⟩
  cases call with
  | append obj copy allocated =>
    by_cases hroom : l.HasRoom allocated
    · exact (append_of_hasRoom h hroom obj copy).1
    · rw [apply, append, ensureCapacity_of_not_hasRoom hroom]
      exact h
  | insert index obj copy allocated =>
    by_cases hindex : index ≤ l.size
    · by_cases hroom : l.HasRoom allocated
      · exact (insert_of_hasRoom h hroom hindex obj copy).1
      · rw [apply, insert_of_not_hasRoom hroom hindex]
        exact h
    · rw [apply, insert, if_neg hindex]
      exact h
  | remove obj =>
    rw [apply, remove_eq]
    exact hshorter eraseP_sublist.length_le
  | removeAt index =>
    by_cases hindex : index < l.size
    · rw [apply, removeAt_of_lt hindex]
      exact hshorter (eraseIdx_sublist _ _).length_le
    · rw [apply, removeAt_of_ge (not_lt.1 hindex)]
      exact h
  | setItem index obj copy =>
    by_cases hindex : index < l.size
    · rw [apply, (setItem_of_lt hindex obj copy).1]
      exact hshorter (length_set).le
    · rw [apply, setItem, if_pos (not_lt.1 hindex)]
      exact h
  | clear => exact hshorter (Nat.zero_le _)
  | indexOf obj startIndex count => exact h
  | lastIndexOf obj startIndex count => exact h

/-! ## What the calls do -/

variable {startIndex count : ℤ}

theorem exists_isLeast (h : (l.hits obj startIndex count).Nonempty) :
    ∃ k, IsLeast (l.hits obj startIndex count) k := by
  obtain ⟨k, hk, hmin⟩ := (measure id).wf.has_min _ h
  exact ⟨k, hk, fun i hi => not_lt.1 (hmin i hi)⟩

theorem exists_isGreatest (h : (l.hits obj startIndex count).Nonempty) :
    ∃ k, IsGreatest (l.hits obj startIndex count) k := by
  obtain ⟨k, hk, hmin⟩ := (measure fun i => l.size - i).wf.has_min _ h
  refine ⟨k, hk, fun i hi => ?_⟩
  have hlt : ¬ l.size - i < l.size - k := hmin i hi
  have hi' := hi.2.2.lt
  have hk' := hk.2.2.lt
  omega

theorem answers_none {found : Set ℕ} {extreme : ℕ → Prop} : ¬ Answers found extreme none := by
  rintro (⟨i, -, h⟩ | ⟨-, h⟩)
  · cases h
  · cases h

/-- `ArrayList_IndexOf` finds the first index, unless it has to read on behind the list. -/
theorem indexOf_refines (h : Fits l) :
    l.Refines (.indexOf obj startIndex count) ↔ l.Supported (.indexOf obj startIndex count) := by
  refine imp_congr_right fun hin => ?_
  have hsize : l.size ≤ ssizeMax := by
    have hle := h.size_le
    have hbytes := h.capacity_le
    omega
  obtain ⟨turns, hturns, hend⟩ : ∃ turns, l.indexOf obj startIndex count =
      l.scanUp obj turns startIndex.toNat ∧
      (turns = if count < 0 then l.size else count.toNat) := by
    rw [indexOf]
    split
    · exact ⟨l.size, if_neg (not_lt.2 hsize), rfl⟩
    · exact ⟨count.toNat, rfl, rfl⟩
  have hrange : l.rangeEnd startIndex count ≤ startIndex.toNat + turns := by
    rw [hend, rangeEnd]
    split
    · exact Nat.le_add_left _ _
    · exact le_refl _
  have hlist := hin.2
  rw [hturns]
  by_cases hhits : (l.hits obj startIndex count).Nonempty
  · obtain ⟨k, hk⟩ := exists_isLeast hhits
    have hleast : IsLeast {i | startIndex.toNat ≤ i ∧ l.EqualAt obj i} k := by
      refine ⟨⟨hk.1.1, hk.1.2.2⟩, fun i hi => ?_⟩
      by_cases hlt : i < l.rangeEnd startIndex count
      · exact hk.2 ⟨hi.1, hlt, hi.2⟩
      · exact hk.1.2.1.le.trans (not_lt.1 hlt)
    rw [scanUp_of_isLeast hleast (hk.1.2.1.trans_le hrange)]
    exact iff_of_true (Or.inl ⟨k, hk, rfl⟩) (Or.inr (Or.inr hhits))
  · have hempty : l.hits obj startIndex count = ∅ := Set.not_nonempty_iff_eq_empty.1 hhits
    have hnone : ∀ i, startIndex.toNat ≤ i → i < startIndex.toNat + turns → ¬ l.EqualAt obj i := by
      intro i hi hlt hequal
      refine hhits ⟨i, hi, ?_, hequal⟩
      have hi' := hequal.lt
      rw [rangeEnd]
      split
      · exact hi'
      next hcount => rwa [hend, if_neg hcount] at hlt
    rw [scanUp_of_forall hnone]
    by_cases hstop : turns = 0 ∨ startIndex.toNat + turns ≤ l.size
    · rw [if_pos hstop]
      refine iff_of_true (Or.inr ⟨hempty, rfl⟩) ?_
      unfold InList rangeEnd at hin
      split at hend
      next hcount =>
        rw [if_pos hcount] at hin
        omega
      next hcount => exact Or.inl (not_lt.1 hcount)
    · rw [if_neg hstop]
      refine iff_of_false answers_none ?_
      unfold InList rangeEnd at hin
      split at hend
      next hcount =>
        rw [if_pos hcount] at hin
        rintro (hpos | hzero | hsome)
        · omega
        · omega
        · exact hhits hsome
      next hcount =>
        rw [if_neg hcount] at hin
        omega

/-- `ArrayList_LastIndexOf` is right when there is nothing to find. -/
theorem lastIndexOf_refines (h : Fits l) :
    l.Refines (.lastIndexOf obj startIndex count) ↔
      l.Supported (.lastIndexOf obj startIndex count) := by
  refine imp_congr_right fun hin => ?_
  have hsize : l.size ≤ ssizeMax := by
    have hle := h.size_le
    have hbytes := h.capacity_le
    omega
  obtain ⟨turns, hturns, hend⟩ : ∃ turns, l.lastIndexOf obj startIndex count =
      l.scanDown obj startIndex.toNat turns ∧
      (turns = if count < 0 then l.size else count.toNat) := by
    rw [lastIndexOf]
    split
    · exact ⟨l.size, if_neg (not_lt.2 hsize), rfl⟩
    · exact ⟨count.toNat, rfl, rfl⟩
  rw [hturns]
  by_cases hwithin : 0 ≤ count ∨ startIndex ≤ 0
  · have hrange : l.rangeEnd startIndex count = startIndex.toNat + turns := by
      rw [hend, rangeEnd]
      split
      · omega
      · rfl
    have hlist := hin.2
    rw [hrange] at hlist
    rw [and_iff_right hwithin]
    by_cases hhits : (l.hits obj startIndex count).Nonempty
    · obtain ⟨k, hk⟩ := exists_isGreatest hhits
      have hgreatest : IsGreatest
          {i | startIndex.toNat ≤ i ∧ i < startIndex.toNat + turns ∧ l.EqualAt obj i} k := by
        rwa [← hrange]
      rw [scanDown_of_isGreatest hgreatest hlist]
      refine iff_of_false ?_ hhits.ne_empty
      rintro (⟨i, hi, heq⟩ | ⟨hempty, -⟩)
      · have hik := hi.unique hk
        have hnext := some.inj heq
        omega
      · exact hhits.ne_empty hempty
    · have hempty : l.hits obj startIndex count = ∅ := Set.not_nonempty_iff_eq_empty.1 hhits
      have hnone : ∀ i, startIndex.toNat ≤ i → i < startIndex.toNat + turns → ¬ l.EqualAt obj i :=
        fun i hi hlt hequal => hhits ⟨i, hi, hrange ▸ hlt, hequal⟩
      rw [scanDown_of_forall hnone hlist]
      exact iff_of_true (Or.inr ⟨hempty, rfl⟩) hempty
  · -- the search begins behind the list
    unfold InList rangeEnd at hin
    rw [if_pos (show count < 0 by omega)] at hin hend
    rw [scanDown_of_lt (by omega) (by omega)]
    exact iff_of_false answers_none fun h => hwithin h.1

/-- `ArrayList_SetItem` leaves a list as it was only if `NULL` stood where it stores `NULL`. -/
theorem set_none_eq (hindex : index < l.size) :
    l.items.set index none = l.items ↔ l.items[index]? = some none := by
  constructor
  · intro heq
    rw [← heq, getElem?_set_self hindex]
  · intro hnone
    apply ext_getElem?
    intro i
    rw [getElem?_set]
    split
    next heq =>
      subst heq
      rw [hnone]
      exact if_pos hindex
    next => rfl

/-- A copy that failed is `NULL`. -/
theorem stored_of_not_copied (h : ¬ l.Copied obj copy) : l.stored obj copy = none := by
  rw [Copied, Classical.not_imp, Classical.not_imp] at h
  rw [stored, if_pos h.1]
  exact not_isSome_iff_eq_none.1 h.2.2

/-- A call that answers whether an object was copied, and changes the list either way. -/
theorem changes_iff_copied {call : Call α} (hanswer : (l.apply call).2 = true ↔ l.Copied obj copy)
    (heffect : l.effect l.items call = some (l.apply call).1.items)
    (hchanged : (l.apply call).1.items ≠ l.items) : l.Changes call ↔ l.Copied obj copy := by
  rw [Changes, ← hanswer]
  split
  next htrue => exact iff_of_true heffect htrue
  next hfalse => exact iff_of_false hchanged hfalse

/-- **The calls that do what they are for**, on every list that was made. -/
theorem arrayList_refines_iff {object : WObject α} {allocated : Bool} {l₀ : ArrayList α}
    (hnew : new object allocated = some l₀) (hreach : Reachable step l₀ l) (call : Call α) :
    l.Refines call ↔ l.Supported call := by
  have h : Fits l := hreach.induct
    (fun l call l' h hstep => some.inj hstep ▸ fits_apply h call) (new_fits hnew)
  cases call with
  | append obj copy allocated =>
    by_cases hroom : l.HasRoom allocated
    · obtain ⟨-, hitems, hanswer⟩ := append_of_hasRoom h hroom obj copy
      refine Iff.trans ?_ (imp_iff_right hroom).symm
      refine changes_iff_copied hanswer (congrArg some hitems.symm) ?_
      rw [apply, hitems]
      exact fun heq => cons_ne_nil _ _ (self_eq_append_right.1 heq.symm)
    · refine iff_of_true ?_ fun h => absurd h hroom
      show l.Changes _
      rw [Changes, apply, append, ensureCapacity_of_not_hasRoom hroom]
      rfl
  | insert index obj copy allocated =>
    by_cases hindex : index ≤ l.size
    · refine Iff.trans ?_ (and_iff_right hindex).symm
      by_cases hroom : l.HasRoom allocated
      · obtain ⟨-, hitems, hanswer⟩ := insert_of_hasRoom h hroom hindex obj copy
        refine Iff.trans ?_ (imp_iff_right hroom).symm
        refine changes_iff_copied hanswer ?_ ?_
        · rw [apply, hitems]
          exact if_pos hindex
        · rw [apply, hitems]
          intro heq
          have hlength := congrArg List.length heq
          rw [length_append, length_cons, length_take, length_drop] at hlength
          omega
      · refine iff_of_true ?_ fun h => absurd h hroom
        show l.Changes _
        rw [Changes, apply, insert_of_not_hasRoom hroom hindex]
        rfl
    · refine iff_of_false ?_ fun h => hindex h.1
      show ¬ l.Changes _
      rw [Changes, apply, insert, if_neg hindex, if_pos rfl, effect,
        if_neg (show ¬ index ≤ l.items.length from hindex)]
      exact nofun
  | remove obj =>
    refine iff_of_true ?_ trivial
    show l.Changes _
    rw [Changes, apply, remove_eq, if_pos rfl]
    rfl
  | removeAt index =>
    show l.Changes _ ↔ _
    by_cases hindex : index < l.size
    · refine iff_of_true ?_ hindex
      rw [Changes, apply, removeAt_of_lt hindex, if_pos rfl]
      exact if_pos hindex
    · refine iff_of_false ?_ hindex
      rw [Changes, apply, removeAt_of_ge (not_lt.1 hindex), if_pos rfl, effect,
        if_neg (show ¬ index < l.items.length from hindex)]
      exact nofun
  | setItem index obj copy =>
    show l.Changes _ ↔ _
    by_cases hindex : index < l.size
    · obtain ⟨hset, hanswer⟩ := setItem_of_lt hindex obj copy
      refine Iff.trans ?_ (imp_iff_right hindex).symm
      rw [Changes, apply, hset]
      by_cases hcopied : l.Copied obj copy
      · rw [if_pos (hanswer.2 hcopied)]
        exact iff_of_true (if_pos hindex) (Or.inl hcopied)
      · rw [if_neg (fun h => hcopied (hanswer.1 h)), or_iff_right hcopied,
          stored_of_not_copied hcopied]
        exact set_none_eq hindex
    · refine iff_of_true ?_ fun h => absurd h hindex
      rw [Changes, apply, setItem, if_pos (not_lt.1 hindex)]
      rfl
  | clear => exact iff_of_true rfl trivial
  | indexOf obj startIndex count => exact indexOf_refines h
  | lastIndexOf obj startIndex count => exact lastIndexOf_refines h

/-- A list of the objects 7, 8 and 7, whose callbacks do not copy. -/
def threeItems : ArrayList ℕ where
  capacity := 32
  items := [some 7, some 8, some 7]
  object := { fnObjectEquals := fun p p' => decide (p = p') }

theorem reachable_threeItems :
    ∃ l, new threeItems.object true = some l ∧ Reachable step l threeItems :=
  ⟨_, rfl, [.append (some 7) none true, .append (some 8) none true, .append (some 7) none true],
    rfl⟩

/-- An object that could not be copied is in the list, one is reported as inserted that is not, the
last 7 is answered with the index behind it, and a search reads behind the end of the list. -/
theorem exists_not_refines :
    ∃ l l', new { threeItems.object with fnObjectNew := true } true = some l ∧
      ¬ l.Refines (.append (some 7) none true) ∧
      new threeItems.object true = some l' ∧ Reachable step l' threeItems ∧
      ¬ threeItems.Refines (.insert 9 (some 8) none true) ∧
      ¬ threeItems.Refines (.lastIndexOf (some 7) 0 3) ∧
      ¬ threeItems.Refines (.indexOf (some 9) 1 (-1)) := by
  obtain ⟨l', hnew, hreach⟩ := reachable_threeItems
  refine ⟨_, l', rfl, ?_, hnew, hreach, ?_, ?_, ?_⟩
  · show ¬ Changes _ _
    unfold Changes
    decide
  · show ¬ Changes _ _
    unfold Changes
    decide
  · intro h
    rcases h ⟨by decide, by decide⟩ with ⟨i, hi, hanswer⟩ | ⟨hempty, -⟩
    · have hthree : (3 : ℤ) = i := some.inj hanswer
      have hlt : i < 3 := hi.1.2.1
      omega
    · have hhit : 0 ∈ threeItems.hits (some 7) 0 3 := ⟨le_refl 0, by decide, some 7, rfl, rfl⟩
      rw [hempty] at hhit
      exact hhit
  · intro h
    exact answers_none (h ⟨by decide, by decide⟩)

theorem arrayList_refines_iff_threeItems :
    threeItems.Refines (.lastIndexOf (some 9) 0 3) ↔
      threeItems.Supported (.lastIndexOf (some 9) 0 3) := by
  obtain ⟨l, hnew, hreach⟩ := reachable_threeItems
  exact arrayList_refines_iff hnew hreach (.lastIndexOf (some 9) 0 3)

end ArrayList
