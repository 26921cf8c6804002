/-
# What a hash table frees

The keys and values of a `wHashTable` are objects that its `fnObjectNew` makes and its
`fnObjectFree` frees, and so are its pairs, with `calloc` and `free`.  The state has what was made
and freed so far, beside the table, its walks and the map that it stands for, and the calls are
`HashTable_Insert`, `HashTable_Remove`, `HashTable_Clear` and `HashTable_Foreach`.
-/
import XyDeskRemote.HashTableUse
import XyDeskRemote.OwnershipLedger

open LabelledRun Chains OwnershipLedger HashTableUse List Option HashTable Nat

/-! ## Objects -/

/-- What an object is for. -/
inductive ObjectKind where
  | key
  | value
  deriving DecidableEq

/-- Where an object is: the user has it, or the table's `fnObjectNew` made it, as the
`serial`-th object. -/
inductive Pointer where
  | null
  | user (address : ℕ)
  | created (kind : ObjectKind) (serial : ℕ)
  deriving DecidableEq

/-- An object, with what is in it. -/
structure Object (A : Type) where
  pointer : Pointer
  content : A

/-- What is made once, and freed. -/
inductive Resource where
  | object (kind : ObjectKind) (serial : ℕ)
  | pair (address : ℕ)
  deriving DecidableEq

/-- `wObject`: which of its functions are set. -/
structure ObjectMethods where
  fnObjectNew : Bool
  fnObjectFree : Bool

/-- The methods of `table->key` and `table->value`. -/
abbrev Methods := ObjectKind → ObjectMethods

/-- Hash and equality look at what is in an object. -/
def objectKey {K : Type} (o : KeyObject K) : KeyObject (Object K) where
  hash a := o.hash a.content
  equals a b := o.equals a.content b.content
  equals_refl a := o.equals_refl a.content
  equals_symm a b := o.equals_symm a.content b.content
  equals_trans a b c := o.equals_trans a.content b.content c.content
  hash_eq a b := o.hash_eq a.content b.content

/-- The pair of a table of objects. -/
abbrev ObjectPair (K V : Type) := KeyValuePair (Object K) (Object V)

/-- The calls of `fnObjectNew`, `fnObjectFree`, `calloc` and `free`, and how many objects were
made. -/
structure ObjectLog where
  events : List (OwnerEvent Resource) := []
  nextObject : ℕ := 0

namespace ObjectLog

/-- Resources are freed. -/
def free (l : ObjectLog) (rs : List Resource) : ObjectLog :=
  { l with events := l.events ++ rs.map .free }

/-- A resource is made. -/
def create (l : ObjectLog) (r : Resource) : ObjectLog :=
  { l with events := l.events ++ [.create r] }

end ObjectLog

section Dispose

variable {K V A : Type} (m : Methods)

/-- What `fnObjectFree` gets for a pointer, if `fnObjectNew` made it; a table without
`fnObjectNew` has nothing that it made. -/
def dispose (kind : ObjectKind) : Pointer → List Resource
  | .created k serial =>
    if k = kind ∧ (m kind).fnObjectNew = true ∧ (m kind).fnObjectFree = true then
      [.object kind serial]
    else []
  | _ => []

/-- The pointer to a value. -/
def valuePointer (value : Option (Object V)) : Pointer :=
  match value with
  | some value => value.pointer
  | none => .null

/-- What becomes of a key. -/
def disposeKey (pair : ObjectPair K V) : List Resource := dispose m .key pair.key.pointer

/-- What becomes of a value. -/
def disposeValue (pair : ObjectPair K V) : List Resource :=
  dispose m .value (valuePointer pair.value)

/-- What becomes of a pair. -/
def disposePair (pair : ObjectPair K V) : List Resource :=
  disposeKey m pair ++ disposeValue m pair ++ [.pair pair.address]

/-- The old object goes, and a clone of the new one is made. -/
def setObject (kind : ObjectKind) (l : ObjectLog) (old : Pointer) (object : Object A) :
    ObjectLog × Object A :=
  let l := l.free (dispose m kind old)
  if (m kind).fnObjectNew = true then
    ({ l.create (.object kind l.nextObject) with nextObject := l.nextObject + 1 },
      { object with pointer := .created kind l.nextObject })
  else (l, object)

variable {m} {kind : ObjectKind} {l : ObjectLog} {old : Pointer} {object : Object A}
  {held : List Resource} {a : ℕ}

/-- The resources there are, when `n` objects were made and `a` pairs. -/
def Made (n a : ℕ) : Resource → Prop
  | .object _ serial => serial < n
  | .pair address => address < a

theorem dispose_created (kind : ObjectKind) (serial : ℕ) :
    dispose m kind (.created kind serial) ⊆ [.object kind serial] := by
  rw [dispose]
  split
  · exact List.Subset.refl _
  · exact nil_subset _

theorem dispose_eq_nil (hnew : (m kind).fnObjectNew ≠ true) (p : Pointer) :
    dispose m kind p = [] := by
  cases p with
  | null => rfl
  | user address => rfl
  | created k serial => exact if_neg fun h => hnew h.2.1

theorem nodup_dispose (kind : ObjectKind) (p : Pointer) : (dispose m kind p).Nodup := by
  cases p with
  | null => exact nodup_nil
  | user address => exact nodup_nil
  | created k serial =>
    rw [dispose]
    split
    · exact nodup_singleton _
    · exact nodup_nil

theorem ObjectLog.freed_free (l : ObjectLog) (rs : List Resource) :
    freed (l.free rs).events = freed l.events ++ rs := by
  rw [ObjectLog.free, freed_append, freed_map_free]

theorem ObjectLog.freed_create (l : ObjectLog) (r : Resource) :
    freed (l.create r).events = freed l.events := by
  rw [ObjectLog.create, freed_append, OwnershipLedger.freed_create, append_nil]

theorem setObject_facts (kind : ObjectKind) (old : Pointer)
    (h : Holds l.events (Made l.nextObject a) (dispose m kind old ++ held))
    {r : ObjectLog × Object A} (hr : setObject m kind l old object = r) :
    Holds r.1.events (Made r.1.nextObject a) (dispose m kind r.2.pointer ++ held) ∧
      r.2.content = object.content ∧ freed l.events ⊆ freed r.1.events := by
  subst hr
  have hfreed : freed l.events ⊆ freed (l.free (dispose m kind old)).events := by
    rw [ObjectLog.freed_free]
    exact subset_append_left _ _
  rw [setObject]
  dsimp only
  split
  next hnew =>
    have hmade : ∀ x, Made l.nextObject a x → Made (l.nextObject + 1) a x := by
      intro x hx
      cases x with
      | object k serial => exact lt_succ_of_lt hx
      | pair address => exact hx
    have hcreate := h.frees.create (r := .object kind l.nextObject) (lt_irrefl _) hmade
      (lt_succ_self _)
    have hsub := dispose_created (m := m) kind l.nextObject
    refine ⟨hcreate.sub ?_ ?_, rfl, ?_⟩
    · refine nodup_append.2 ⟨nodup_dispose _ _, h.right.nodup, ?_⟩
      rintro x hx y hy rfl
      obtain rfl := mem_singleton.1 (hsub hx)
      exact (nodup_cons.1 hcreate.nodup).1 hy
    · refine append_subset.2 ⟨List.Subset.trans hsub ?_, subset_cons_self _ _⟩
      exact cons_subset_cons _ (nil_subset _)
    · dsimp only
      rw [ObjectLog.freed_create]
      exact hfreed
  next hnew =>
    refine ⟨?_, rfl, hfreed⟩
    dsimp only
    rw [dispose_eq_nil hnew object.pointer]
    exact h.frees

/-- An object is replaced, if it is another one. -/
theorem replace_facts (h : Holds l.events (Made l.nextObject a) (dispose m kind old ++ held))
    {r : ObjectLog × Object A}
    (hr : (if old ≠ object.pointer then setObject m kind l old object else (l, object)) = r) :
    Holds r.1.events (Made r.1.nextObject a) (dispose m kind r.2.pointer ++ held) ∧
      r.2.content = object.content ∧ freed l.events ⊆ freed r.1.events := by
  split at hr
  next => exact setObject_facts kind old h hr
  next hsame =>
    subst hr
    rw [← not_not.1 hsame]
    exact ⟨h, rfl, List.Subset.refl _⟩

variable (m)

/-- A key is put in place of another one. -/
def setKey (l : ObjectLog) (old : Pointer) (key : Object K) : ObjectLog × Object K :=
  setObject m .key l old key

/-- A value is put in place of another one. -/
def setValue (l : ObjectLog) (old : Pointer) (value : Object V) : ObjectLog × Object V :=
  setObject m .value l old value

end Dispose

/-! ## `HashTable_Clear` -/

namespace HashTable

variable {K V : Type}

/-- `HashTable_Rehash`. -/
def rehashTo (o : KeyObject K) (numOfBuckets : ℕ) (t : HashTable K V) : HashTable K V :=
  if numOfBuckets = t.numOfBuckets then t
  else { t with bucketArray := Chains.rehash (pairHash o) numOfBuckets t.pairs }

/-- The loop over a chain: `pair` goes on to `nextPair` when it is freed, and only then. -/
def clearChain (foreachRecursionLevel : ℕ) :
    ℕ → List (KeyValuePair K V) → ℕ × List (KeyValuePair K V) →
      Option (ℕ × List (KeyValuePair K V))
  | 0, _, _ => none
  | _ + 1, [], acc => some acc
  | fuel + 1, pair :: nextPair, (pendingRemoves, freed) =>
    if foreachRecursionLevel ≠ 0 then
      clearChain foreachRecursionLevel fuel
        ({ pair with markedForRemove := true } :: nextPair)
        ((pendingRemoves + 1) % 2 ^ 32, freed)
    else clearChain foreachRecursionLevel fuel nextPair (pendingRemoves, freed ++ [pair])

/-- `HashTable_Clear`, with the pairs that it frees, when `fuel` turns of the loop are enough for
each of the chains. -/
def clear (o : KeyObject K) (fuel : ℕ) (t : HashTable K V) :
    Option (HashTable K V × List (KeyValuePair K V)) :=
  (t.bucketArray.foldlM (fun acc chain => clearChain t.foreachRecursionLevel fuel chain acc)
    (t.pendingRemoves, [])).map fun (pendingRemoves, freed) =>
      let t := { t with
        bucketArray := t.bucketArray.map fun _ => []
        numOfElements := 0
        pendingRemoves }
      (if t.foreachRecursionLevel = 0 then rehashTo o 5 t else t, freed)

section Clear

variable {o : KeyObject K} {t : HashTable K V} {chain : List (KeyValuePair K V)}
  {acc : ℕ × List (KeyValuePair K V)} {level fuel : ℕ}

/-- In a `HashTable_Foreach` the loop stays at the first pair. -/
theorem clearChain_stuck (hlevel : level ≠ 0) (fuel : ℕ) (pair : KeyValuePair K V) :
    clearChain level fuel (pair :: chain) acc = none := by
  induction fuel generalizing pair acc with
  | zero => rfl
  | succ fuel ih =>
    rw [clearChain, if_pos hlevel]
    exact ih _

theorem clearChain_ends (h : level = 0 ∨ chain = []) (hfuel : chain.length < fuel) :
    clearChain level fuel chain acc = some (acc.1, acc.2 ++ chain) := by
  induction chain generalizing fuel acc with
  | nil =>
    obtain ⟨fuel, rfl⟩ := exists_eq_succ_of_ne_zero (ne_of_gt hfuel)
    rw [clearChain, append_nil]
  | cons pair chain ih =>
    obtain ⟨fuel, rfl⟩ := exists_eq_succ_of_ne_zero (ne_of_gt (zero_lt_of_lt hfuel))
    have hlevel : level = 0 := h.resolve_right (cons_ne_nil pair chain)
    rw [clearChain, if_neg (not_not.2 hlevel), ih (.inl hlevel) (lt_of_succ_lt_succ hfuel),
      append_assoc, singleton_append]

theorem clear_loop_stuck {chains : List (List (KeyValuePair K V))} (hlevel : level ≠ 0)
    (hpairs : chains.flatten ≠ []) (fuel : ℕ) :
    chains.foldlM (fun acc chain => clearChain level fuel chain acc) acc = none := by
  induction chains generalizing acc with
  | nil => exact absurd rfl hpairs
  | cons chain chains ih =>
    rw [foldlM_cons]
    cases chain with
    | cons pair chain =>
      rw [clearChain_stuck hlevel]
      rfl
    | nil =>
      cases fuel with
      | zero => rfl
      | succ fuel => exact ih hpairs

theorem clear_loop_ends {chains : List (List (KeyValuePair K V))}
    (h : level = 0 ∨ chains.flatten = []) (hfuel : chains.flatten.length < fuel) :
    chains.foldlM (fun acc chain => clearChain level fuel chain acc) acc =
      some (acc.1, acc.2 ++ chains.flatten) := by
  induction chains generalizing acc with
  | nil =>
    rw [foldlM_nil, flatten_nil, append_nil]
    rfl
  | cons chain chains ih =>
    rw [flatten_cons, length_append] at hfuel
    rw [flatten_cons] at h
    have hchain : level = 0 ∨ chain = [] :=
      h.imp_right fun hnil => (append_eq_nil_iff.1 hnil).1
    have hchains : level = 0 ∨ chains.flatten = [] :=
      h.imp_right fun hnil => (append_eq_nil_iff.1 hnil).2
    rw [foldlM_cons, clearChain_ends hchain (by omega), bind_eq_bind,
      bind_some, ih hchains (by omega), flatten_cons, append_assoc]

/-- **`HashTable_Clear` does not end** in a `HashTable_Foreach`, if there is a pair. -/
theorem clear_stuck (hlevel : t.foreachRecursionLevel ≠ 0) (hpairs : t.pairs ≠ []) (fuel : ℕ) :
    clear o fuel t = none := by
  rw [clear, clear_loop_stuck hlevel hpairs, map_none]

theorem flatten_map_nil (chains : List (List (KeyValuePair K V))) :
    (chains.map fun _ => ([] : List (KeyValuePair K V))).flatten = [] := by
  rw [map_const', flatten_replicate_nil]

/-- A rehash moves the pairs, and does nothing else. -/
theorem rehashTo_facts (o : KeyObject K) {n : ℕ} (hn : 0 < n) (t : HashTable K V) :
    (rehashTo o n t).pairs.Perm t.pairs ∧
      (rehashTo o n t).foreachRecursionLevel = t.foreachRecursionLevel ∧
      (rehashTo o n t).pendingRemoves = t.pendingRemoves ∧
      (rehashTo o n t).nextAddress = t.nextAddress ∧
      (Placed (pairHash o) t.bucketArray → Placed (pairHash o) (rehashTo o n t).bucketArray) := by
  rw [rehashTo]
  split
  · exact ⟨List.Perm.refl _, rfl, rfl, rfl, id⟩
  · exact ⟨rehash_perm (pairHash o) hn t.pairs, rfl, rfl, rfl, fun _ => placed_rehash _ hn _⟩

theorem placed_map_nil (h : Placed (pairHash o) t.bucketArray) :
    Placed (pairHash o) (t.bucketArray.map fun _ => ([] : List (KeyValuePair K V))) := by
  have hnil : (t.bucketArray.map fun _ => ([] : List (KeyValuePair K V))) =
      t.bucketArray.map (List.filter fun _ => false) := by
    refine map_congr_left fun chain _ => ?_
    exact (filter_eq_nil_iff.2 fun _ _ => Bool.false_ne_true).symm
  rw [hnil]
  exact h.filter _

/-- Otherwise it frees all pairs. -/
theorem clear_ends (h : t.foreachRecursionLevel = 0 ∨ t.pairs = []) :
    ∃ t', clear o (t.pairs.length + 1) t = some (t', t.pairs) ∧ t'.pairs = [] ∧
      t'.foreachRecursionLevel = t.foreachRecursionLevel ∧
      t'.pendingRemoves = t.pendingRemoves ∧ t'.nextAddress = t.nextAddress ∧
      (Placed (pairHash o) t.bucketArray → WellFormed o t') := by
  have hempty := flatten_map_nil t.bucketArray
  rw [clear, clear_loop_ends h (lt_add_one t.pairs.length), map_some, nil_append]
  refine ⟨_, rfl, ?_⟩
  split
  next hlevel =>
    obtain ⟨hperm, hsame, hpending, hnext, hplaced⟩ := rehashTo_facts o (n := 5) (by decide)
      { t with
        bucketArray := t.bucketArray.map fun _ => []
        numOfElements := 0
        pendingRemoves := t.pendingRemoves }
    have hnil := perm_nil.1 (hperm.trans (List.Perm.of_eq hempty))
    refine ⟨hnil, hsame, hpending, hnext, fun h => ⟨hplaced (placed_map_nil h), ?_⟩⟩
    rw [hnil]
    exact List.Pairwise.nil
  next =>
    refine ⟨hempty, rfl, rfl, rfl, fun h => ⟨placed_map_nil h, ?_⟩⟩
    rw [pairs, hempty]
    exact List.Pairwise.nil

end Clear

/-! ## The pairs, one by one -/

section Pairs

variable {o : KeyObject K} {f : LoadFactors} {t t' : HashTable K V} {key : K} {value : V}
  {p : KeyValuePair K V}

/-- `HashTable_Insert` changes the pair of the key, which loses its mark. -/
theorem insert_some_facts (h : WellFormed o t) (hget : get o t (some key) = some p)
    (ht : (insert o f t (some key) (some value)).1 = t') :
    ∃ rest, t.pairs.Perm (p :: rest) ∧
      t'.pairs.Perm ({ p with key, value := some value, markedForRemove := false } :: rest) ∧
      t'.nextAddress = t.nextAddress ∧
      t'.pendingRemoves = if p.markedForRemove then (t.pendingRemoves + 2 ^ 32 - 1) % 2 ^ 32
        else t.pendingRemoves := by
  obtain ⟨-, rest, hperm, hupdate, -⟩ := get_some h hget
  obtain ⟨hperm', -⟩ := hupdate
    (fun pair => { pair with key, value := some value, markedForRemove := false }) rfl
  subst ht
  refine ⟨rest, hperm, ?_⟩
  rw [insert, hget]
  dsimp only
  split
  · exact ⟨hperm', rfl, rfl⟩
  · exact ⟨hperm', rfl, rfl⟩

theorem rehash_eq_rehashTo (o : KeyObject K) (f : LoadFactors) (t : HashTable K V) :
    rehash o f t = rehashTo o (calculateIdealNumOfBuckets f t) t :=
  rfl

/-- `HashTable_Insert` makes a pair. -/
theorem insert_none_facts (h : WellFormed o t) (hget : get o t (some key) = none)
    (ht : (insert o f t (some key) (some value)).1 = t') :
    t'.pairs.Perm ({ address := t.nextAddress, key, value := some value } :: t.pairs) ∧
      t'.nextAddress = t.nextAddress + 1 ∧ t'.pendingRemoves = t.pendingRemoves := by
  obtain ⟨hperm, -⟩ := h.placed.cons { address := t.nextAddress, key, value := some value }
  subst ht
  rw [insert, hget]
  dsimp only
  split
  · rw [rehash_eq_rehashTo]
    obtain ⟨hmoved, -, hpending, hnext, -⟩ := rehashTo_facts o (nextProbablePrime_pos _) _
    exact ⟨hmoved.trans hperm, hnext, hpending⟩
  · exact ⟨hperm, rfl, rfl⟩

theorem remove_some_facts (h : WellFormed o t) (hget : get o t (some key) = some p)
    (ht : (remove o f t (some key)).1 = t') :
    ∃ rest, t.pairs.Perm (p :: rest) ∧ t'.nextAddress = t.nextAddress ∧
      (t.foreachRecursionLevel ≠ 0 → t'.pairs.Perm ({ p with markedForRemove := true } :: rest) ∧
        t'.pendingRemoves = (t.pendingRemoves + 1) % 2 ^ 32) ∧
      (t.foreachRecursionLevel = 0 → t'.pairs.Perm rest ∧
        t'.pendingRemoves = t.pendingRemoves) := by
  obtain ⟨hkey, rest, hperm, hupdate, herase, -⟩ := get_some h hget
  subst ht
  refine ⟨rest, hperm, ?_⟩
  rw [remove]
  dsimp only
  rw [hget]
  dsimp only
  split
  next hlevel =>
    obtain ⟨hperm', -⟩ := hupdate (fun pair => { pair with markedForRemove := true }) hkey
    exact ⟨rfl, fun _ => ⟨hperm', rfl⟩, fun hzero => absurd hzero hlevel⟩
  next hlevel =>
    split
    · rw [rehash_eq_rehashTo]
      obtain ⟨hmoved, -, hpending, hnext, -⟩ := rehashTo_facts o (nextProbablePrime_pos _) _
      exact ⟨hnext, fun hne => absurd hne hlevel, fun _ => ⟨hmoved.trans herase, hpending⟩⟩
    · exact ⟨rfl, fun hne => absurd hne hlevel, fun _ => ⟨herase, rfl⟩⟩

theorem endForeach_eq (t : HashTable K V) :
    (endForeach t).pendingRemoves =
        (if (t.foreachRecursionLevel + 2 ^ 32 - 1) % 2 ^ 32 = 0 ∧ t.pendingRemoves ≠ 0 then 0
          else t.pendingRemoves) ∧
      ((((t.foreachRecursionLevel + 2 ^ 32 - 1) % 2 ^ 32 = 0 ∧ t.pendingRemoves ≠ 0) →
          (endForeach t).pairs = t.pairs.filter fun pair => ! pair.markedForRemove) ∧
        (¬ ((t.foreachRecursionLevel + 2 ^ 32 - 1) % 2 ^ 32 = 0 ∧ t.pendingRemoves ≠ 0) →
          (endForeach t).pairs = t.pairs)) ∧
      (endForeach t).nextAddress = t.nextAddress := by
  rw [endForeach]
  dsimp only
  split
  next hlast =>
    exact ⟨rfl, ⟨fun _ => flatten_map_filter _ _, fun hnot => absurd hlast hnot⟩, rfl⟩
  next hlast =>
    refine ⟨rfl, ⟨fun h => absurd h hlast, fun _ => ?_⟩, rfl⟩
    rw [pairs, pairs]

theorem endForeach_level (t : HashTable K V) :
    (endForeach t).foreachRecursionLevel = (t.foreachRecursionLevel + 2 ^ 32 - 1) % 2 ^ 32 := by
  rw [endForeach]
  dsimp only
  split
  · dsimp only
  · dsimp only

end Pairs

end HashTable

/-! ## The calls -/

/-- A table in use, what was made and freed, and what belongs to the entries that were removed or
cleared, and not used again. -/
structure HashTableOwner (K V : Type) (o : KeyObject K) extends
    HashTableUse (Object K) (Object V) (objectKey o) where
  log : ObjectLog := {}
  removed : List Resource := []

/-- A call of the user.  `allocated` says whether there is memory for a new pair. -/
inductive HashTableOwnerCall (K V : Type) where
  | insert (key : Option (Object K)) (value : Option (Object V)) (allocated : Bool)
  | remove (key : Option (Object K))
  | clear
  /-- `HashTable_Foreach`; the calls up to the return of its callback are those of the
  callback -/
  | foreach
  /-- the callback returns `goOn` -/
  | callbackReturns (goOn : Bool)

namespace HashTableOwner

open HashTable

variable {K V : Type} {o : KeyObject K} (m : Methods) (f : LoadFactors)
  (z : HashTableOwner K V o)

/-- A new table. -/
def start : HashTableOwner K V o where
  toHashTableUse := HashTableUse.start

/-- The objects that a pair gets, in `HashTable_Insert`; what it has already stays. -/
def insertObjects (pair : ObjectPair K V) (key : Object K) (value : Object V) :
    ObjectLog × Object K × Object V :=
  let (log, key) :=
    if pair.key.pointer ≠ key.pointer then setKey m z.log pair.key.pointer key else (z.log, key)
  let (log, value) :=
    if valuePointer pair.value ≠ value.pointer then
      setValue m log (valuePointer pair.value) value
    else (log, value)
  (log, key, value)

/-- The objects of a new pair; `calloc` leaves null pointers in it. -/
def newObjects (key : Object K) (value : Object V) : ObjectLog × Object K × Object V :=
  let log := z.log.create (.pair z.table.nextAddress)
  let (log, key) := setKey m log .null key
  let (log, value) := setValue m log .null value
  (log, key, value)

/-- The table has the objects for the key, and the map too. -/
def withObjects (r : ObjectLog × Object K × Object V) : HashTableOwner K V o :=
  { z with
    table := (HashTable.insert (objectKey o) f z.table (some r.2.1) (some r.2.2)).1
    map := mapAfter z.map (.insert (some r.2.1) (some r.2.2))
    log := r.1 }

/-- `HashTable_Insert`. -/
def insert (key : Option (Object K)) (value : Option (Object V)) (allocated : Bool) :
    HashTableOwner K V o :=
  match key, value with
  | some key, some value =>
    match get (objectKey o) z.table (some key) with
    | some pair =>
      { withObjects f z (insertObjects m z pair key value) with
        removed :=
          if pair.markedForRemove then z.removed.filter (· ∉ disposePair m pair)
          else z.removed }
    | none => if allocated then withObjects f z (newObjects m z key value) else z
  | _, _ => z

/-- `HashTable_Remove`. -/
def remove (key : Option (Object K)) : HashTableOwner K V o :=
  let z' := { z with
    table := (HashTable.remove (objectKey o) f z.table key).1
    map := mapAfter z.map (.remove key) }
  match get (objectKey o) z.table key with
  | none => z'
  | some pair =>
    { z' with
      log := if z.table.foreachRecursionLevel ≠ 0 then z.log else z.log.free (disposePair m pair)
      removed := disposePair m pair ++ z.removed }

/-- `HashTable_Clear`. -/
def clear : Option (HashTableOwner K V o) :=
  (HashTable.clear (objectKey o) (z.table.pairs.length + 1) z.table).map fun (table, freed) =>
    { z with
      table
      map := fun _ => none
      log := z.log.free (freed.flatMap (disposePair m))
      removed := z.table.pairs.flatMap (disposePair m) ++ z.removed }

/-- The pairs that the end of a `HashTable_Foreach` frees. -/
def endFrees (t : HashTable (Object K) (Object V)) : List (ObjectPair K V) :=
  if (t.foreachRecursionLevel + 2 ^ 32 - 1) % 2 ^ 32 = 0 ∧ t.pendingRemoves ≠ 0 then
    t.pairs.filter fun pair => pair.markedForRemove
  else []

/-- A walk comes to a pair, where the callback is called, or to its end. -/
def arrive (c : Option Cursor) : HashTableOwner K V o :=
  { z with
    toHashTableUse := HashTableUse.arrive z.toHashTableUse c
    log :=
      match c with
      | some _ => z.log
      | none => z.log.free ((endFrees z.table).flatMap (disposePair m)) }

/-- `HashTable_Foreach`, up to its first callback. -/
def «foreach» : HashTableOwner K V o :=
  let level := (z.table.foreachRecursionLevel + 1) % 2 ^ 32
  arrive m { z with table := { z.table with foreachRecursionLevel := level } }
    (firstPair z.table.bucketArray 0)

/-- A callback returns.  The level does not go down when it ends the walk. -/
def callbackReturns (goOn : Bool) : Option (HashTableOwner K V o) :=
  match z.walks with
  | [] => none
  | walk :: walks =>
    if goOn then (nextPair z.table walk).map (arrive m { z with walks })
    else some { z with walks }

/-- A call. -/
def call (z : HashTableOwner K V o) : HashTableOwnerCall K V → Option (HashTableOwner K V o)
  | .insert key value allocated => some (insert m f z key value allocated)
  | .remove key => some (remove m f z key)
  | .clear => clear m z
  | .foreach => some («foreach» m z)
  | .callbackReturns goOn => callbackReturns m z goOn

section Objects

variable {m z} {pair : ObjectPair K V} {key : Object K} {value : Object V} {held : List Resource}
  {a : ℕ} {r : ObjectLog × Object K × Object V}

/-- What belongs to a pair, in another order. -/
theorem disposePair_perm (m : Methods) (pair : ObjectPair K V) (held : List Resource) :
    (disposePair m pair ++ held).Perm
      (disposeValue m pair ++ (disposeKey m pair ++ (.pair pair.address :: held))) := by
  rw [disposePair, append_assoc, append_assoc]
  exact perm_append_comm_assoc _ _ _

theorem insertObjects_facts
    (h : Holds z.log.events (Made z.log.nextObject a) (disposePair m pair ++ held))
    (hr : insertObjects m z pair key value = r) :
    Holds r.1.events (Made r.1.nextObject a) (disposePair m { pair with
        key := r.2.1
        value := some r.2.2
        markedForRemove := false } ++ held) ∧
      r.2.1.content = key.content ∧ freed z.log.events ⊆ freed r.1.events := by
  rw [insertObjects] at hr
  generalize hkey : (if pair.key.pointer ≠ key.pointer then setKey m z.log pair.key.pointer key
    else (z.log, key)) = rkey at hr
  dsimp only at hr
  generalize hvalue : (if valuePointer pair.value ≠ value.pointer then
    setValue m rkey.1 (valuePointer pair.value) value else (rkey.1, value)) = rvalue at hr
  subst hr
  dsimp only
  rw [disposePair, append_assoc, append_assoc] at h
  obtain ⟨hholds, hcontent, hfreed⟩ := replace_facts h hkey
  obtain ⟨hholds', -, hfreed'⟩ := replace_facts
    (hholds.perm (perm_append_comm_assoc (disposeValue m pair) _ _)) hvalue
  exact ⟨hholds'.perm (disposePair_perm m _ held), hcontent, List.Subset.trans hfreed hfreed'⟩

theorem newObjects_facts
    (h : Holds z.log.events (Made z.log.nextObject z.table.nextAddress) held)
    (hr : newObjects m z key value = r) :
    Holds r.1.events (Made r.1.nextObject (z.table.nextAddress + 1)) (disposePair m {
        address := z.table.nextAddress
        key := r.2.1
        value := some r.2.2 } ++ held) ∧
      r.2.1.content = key.content ∧ freed z.log.events ⊆ freed r.1.events := by
  have hmade : ∀ x, Made z.log.nextObject z.table.nextAddress x →
      Made z.log.nextObject (z.table.nextAddress + 1) x := by
    intro x hx
    cases x with
    | object k serial => exact hx
    | pair address => exact lt_succ_of_lt hx
  have hcreate := h.create (r := .pair z.table.nextAddress) (lt_irrefl _) hmade
    (lt_succ_self _)
  rw [newObjects] at hr
  dsimp only at hr
  generalize hkey : setKey m (z.log.create (.pair z.table.nextAddress)) .null key = rkey at hr
  generalize hvalue : setValue m rkey.1 .null value = rvalue at hr
  subst hr
  dsimp only
  obtain ⟨hholds, hcontent, hfreed⟩ := setObject_facts .key .null
    (l := z.log.create (.pair z.table.nextAddress)) hcreate hkey
  obtain ⟨hholds', -, hfreed'⟩ := setObject_facts .value .null hholds hvalue
  rw [ObjectLog.freed_create] at hfreed
  exact ⟨hholds'.perm (disposePair_perm m _ held), hcontent, List.Subset.trans hfreed hfreed'⟩

end Objects

/-! ## The walks -/

variable {m f z} {u : HashTableOwner K V o} {c : HashTableOwnerCall K V}

/-- The calls that release everything: no pair is removed while the level is not that of the walks
under way, or when the counter of pending removals is full, the table is not cleared in a walk,
no walk is one too many, and no callback ends a walk while a pair is marked. -/
def Careful (z : HashTableOwner K V o) : HashTableOwnerCall K V → Prop
  | .insert _ _ _ => True
  | .remove key => ∀ pair, get (objectKey o) z.table key = some pair →
      z.table.foreachRecursionLevel = z.walks.length ∧
        (z.table.foreachRecursionLevel ≠ 0 → z.table.pendingRemoves + 1 < 2 ^ 32)
  | .clear => z.table.foreachRecursionLevel = 0 ∨ z.table.pairs = []
  | .foreach => z.table.foreachRecursionLevel + 1 < 2 ^ 32
  | .callbackReturns goOn => goOn = false → ∀ p ∈ z.table.pairs, p.markedForRemove = false

/-- The table is in order, and the walks are at pairs of it. -/
structure Walking (z : HashTableOwner K V o) : Prop where
  sound : HashTableUse.Sound z.toHashTableUse
  levelled : HashTableUse.Levelled z.toHashTableUse
  atPairs : HashTableUse.WalksAtPairs z.toHashTableUse

theorem Walking.level_ne_zero (h : Walking z) (hwalks : z.walks ≠ []) :
    z.table.foreachRecursionLevel ≠ 0 :=
  ne_of_gt (lt_of_lt_of_le (length_pos_of_ne_nil hwalks) h.levelled.1)

theorem Walking.pairs_ne_nil (h : Walking z) (hwalks : z.walks ≠ []) : z.table.pairs ≠ [] := by
  obtain ⟨d, walks, heq⟩ := exists_cons_of_ne_nil hwalks
  obtain ⟨p, hp, -⟩ := h.atPairs d (heq ▸ mem_cons_self)
  intro hnil
  rw [getD_eq_getElem?_getD] at hp
  cases hbucket : z.table.bucketArray[d.index]? with
  | none =>
    rw [hbucket] at hp
    cases hp
  | some bucket =>
    rw [hbucket] at hp
    have hmem : p ∈ z.table.pairs :=
      mem_flatten.2 ⟨bucket, mem_of_getElem? hbucket, hp⟩
    rw [hnil] at hmem
    cases hmem

theorem Walking.of_use {c : HashTableCall (Object K) (Object V)} (h : Walking z)
    (hu : HashTableUse.call (objectKey o) f z.toHashTableUse c = some u.toHashTableUse)
    (hc : HashTableUse.LevelFits z.toHashTableUse c u.toHashTableUse) : Walking u := by
  obtain ⟨hlevel, hwalks⟩ := call_atPairs h.sound h.levelled h.atPairs hu hc
  exact ⟨(call_facts h.sound hu).1, hlevel, hwalks⟩

theorem Walking.withObjects (h : Walking z) (r : ObjectLog × Object K × Object V) :
    Walking (withObjects f z r) := by
  obtain ⟨hwell, hmap, -⟩ := insert_facts h.sound.1 h.sound.2 f r.2.1 r.2.2 rfl
  refine ⟨⟨hwell, hmap⟩, ?_, fun d hd => ?_⟩
  · have hlevel := (calls_level (o := objectKey o) (f := f) z.table).1
      (some r.2.1) (some r.2.2)
    refine ⟨?_, ?_⟩
    · rw [HashTableOwner.withObjects, hlevel]
      exact h.levelled.1
    · rw [HashTableOwner.withObjects, hlevel]
      exact h.levelled.2
  · exact (calls_atPair (h.atPairs d hd)
      (h.level_ne_zero (ne_nil_of_mem hd)) h.sound.1.placed.pos).1 _ _

theorem callbackReturns_use {goOn : Bool} (hu : callbackReturns m z goOn = some u) :
    HashTableUse.call (objectKey o) f z.toHashTableUse (.callbackReturns goOn) =
      some u.toHashTableUse := by
  obtain ⟨⟨table, walks, map⟩, log, removed⟩ := z
  cases walks with
  | nil => cases hu
  | cons walk walks =>
    cases goOn with
    | true =>
      obtain ⟨next, hnext, rfl⟩ := map_eq_some_iff.1 hu
      show (nextPair table walk).map (HashTableUse.arrive ⟨table, walks, map⟩) = _
      rw [hnext]
      rfl
    | false =>
      obtain rfl := some.inj hu
      rfl

/-- **Step lemma** for the walks. -/
theorem Walking.call (h : Walking z) (hc : Careful z c) (hu : call m f z c = some u) :
    Walking u := by
  cases c with
  | insert key value allocated =>
    obtain rfl := some.inj hu
    rw [insert.eq_def]
    split
    next key value =>
      split
      next pair _ =>
        have hwith := h.withObjects (f := f) (insertObjects m z pair key value)
        exact ⟨hwith.sound, hwith.levelled, hwith.atPairs⟩
      next =>
        split
        · exact h.withObjects _
        · exact h
    next => exact h
  | remove key =>
    obtain rfl := some.inj hu
    refine h.of_use (f := f) (c := .remove key) ?_ trivial
    rw [remove.eq_def]
    dsimp only
    split
    · rfl
    · rfl
  | clear =>
    obtain ⟨⟨t, freed⟩, ht, rfl⟩ := map_eq_some_iff.1 hu
    obtain ⟨t', ht', hnil, hlevel, -, -, hwell⟩ := clear_ends (o := objectKey o) hc
    obtain ⟨rfl, -⟩ := Prod.mk.inj (some.inj (ht'.symm.trans ht))
    have hnone : z.walks = [] := by
      by_contra hne
      exact hc.elim (h.level_ne_zero hne) (h.pairs_ne_nil hne)
    refine ⟨⟨hwell h.sound.1.placed, ?_⟩, ?_, ?_⟩
    · dsimp only
      rw [hnil]
      intro k v
      constructor
      · intro hv
        cases hv
      · rintro ⟨p, hp, -⟩
        cases hp
    · rw [HashTableUse.Levelled]
      dsimp only
      rw [hlevel]
      exact h.levelled
    · intro d hd
      rw [hnone] at hd
      cases hd
  | «foreach» =>
    obtain rfl := some.inj hu
    exact h.of_use (f := f) (c := .foreach) rfl hc
  | callbackReturns goOn =>
    exact h.of_use (f := f) (c := .callbackReturns goOn) (callbackReturns_use hu) trivial

/-! ## What the pairs hold -/

/-- What belongs to the pairs. -/
def held (m : Methods) (ps : List (ObjectPair K V)) : List Resource := ps.flatMap (disposePair m)

/-- How many pairs have the mark. -/
def marks (ps : List (ObjectPair K V)) : ℕ := ps.countP fun pair => pair.markedForRemove

/-- The pairs hold what was made and not freed, and what belongs to a removed entry was freed, or
its pair has the mark. -/
structure Kept (m : Methods) (z : HashTableOwner K V o) : Prop where
  pending : marks z.table.pairs ≤ z.table.pendingRemoves
  fits : z.table.pendingRemoves < 2 ^ 32
  holds : Holds z.log.events (Made z.log.nextObject z.table.nextAddress) (held m z.table.pairs)
  removed : ∀ r ∈ z.removed, r ∈ freed z.log.events ∨
    ∃ p ∈ z.table.pairs, p.markedForRemove = true ∧ r ∈ disposePair m p

/-- Only a walk under way has marked pairs, and the level is that of the walks then. -/
def Tidy (z : HashTableOwner K V o) : Prop :=
  ∀ p ∈ z.table.pairs, p.markedForRemove = true →
    z.table.foreachRecursionLevel = z.walks.length ∧ z.walks ≠ []

/-- **The invariant** of careful calls. -/
structure Owned (m : Methods) (z : HashTableOwner K V o) : Prop where
  walking : Walking z
  tidy : Tidy z
  kept : Kept m z

section Kept

variable {ps rest : List (ObjectPair K V)} {p : ObjectPair K V}

theorem held_cons (p : ObjectPair K V) (ps : List (ObjectPair K V)) :
    held m (p :: ps) = disposePair m p ++ held m ps :=
  flatMap_cons

theorem held_perm (h : ps.Perm rest) : (held m ps).Perm (held m rest) := h.flatMap_right _

theorem marks_cons (p : ObjectPair K V) (ps : List (ObjectPair K V)) :
    marks (p :: ps) = marks ps + if p.markedForRemove then 1 else 0 :=
  countP_cons

theorem marks_perm (h : ps.Perm rest) : marks ps = marks rest := h.countP_eq _

theorem mem_held (hp : p ∈ ps) {r : Resource} (hr : r ∈ disposePair m p) : r ∈ held m ps :=
  mem_flatMap.2 ⟨p, hp, hr⟩

theorem get_congr (t : HashTable (Object K) (Object V)) {key key' : Object K}
    (h : key'.content = key.content) :
    HashTable.get (objectKey o) t (some key') = HashTable.get (objectKey o) t (some key) := by
  simp only [HashTable.get, bind_some, objectKey, h]

theorem Kept.removed_of (h : Kept m z) (hfreed : freed z.log.events ⊆ freed u.log.events)
    {r : Resource} (hr : r ∈ z.removed)
    (hmark : ∀ q ∈ z.table.pairs, q.markedForRemove = true → r ∈ disposePair m q →
      q ∈ u.table.pairs) :
    r ∈ freed u.log.events ∨
      ∃ q ∈ u.table.pairs, q.markedForRemove = true ∧ r ∈ disposePair m q := by
  rcases h.removed r hr with hdone | ⟨q, hq, hmarked, hqr⟩
  · exact .inl (hfreed hdone)
  · exact .inr ⟨q, hmark q hq hmarked hqr, hmarked, hqr⟩

theorem Owned.insert_some (h : Owned m z) {key : Object K} {value : Object V}
    (hget : HashTable.get (objectKey o) z.table (some key) = some p)
    (hr : u = { HashTableOwner.withObjects f z (insertObjects m z p key value) with
      removed := if p.markedForRemove then z.removed.filter (· ∉ disposePair m p)
        else z.removed }) : Tidy u ∧ Kept m u := by
  obtain ⟨-, rest, hperm, -⟩ := get_some h.walking.sound.1 hget
  generalize hobjects : insertObjects m z p key value = r at hr
  have hheld : (disposePair m p ++ held m rest).Perm (held m z.table.pairs) := by
    rw [← held_cons]
    exact held_perm hperm.symm
  obtain ⟨hholds, hcontent, hfreed⟩ := insertObjects_facts (h.kept.holds.perm hheld) hobjects
  generalize htable : (HashTable.insert (objectKey o) f z.table (some r.2.1) (some r.2.2)).1 = t
  obtain ⟨rest', hsame, hperm', hnext, hpending⟩ := insert_some_facts h.walking.sound.1
    ((get_congr z.table hcontent).trans hget) htable
  have hrest : rest'.Perm rest := (hsame.symm.trans hperm).cons_inv
  have hpairs := hperm'.trans (hrest.cons _)
  have hlevel := (calls_level (o := objectKey o) (f := f) z.table).1
    (some r.2.1) (some r.2.2)
  rw [htable] at hlevel
  have hut : u.table = t := by rw [hr, ← htable]; rfl
  have hlog : u.log = r.1 := by rw [hr]; rfl
  have hwalks : u.walks = z.walks := by rw [hr]; rfl
  -- the pair of the key has no mark now, and the others are as they were
  have hmarked : ∀ q ∈ t.pairs, q.markedForRemove = true → q ∈ rest := by
    intro q hq hmark
    rcases mem_cons.1 (hpairs.mem_iff.1 hq) with rfl | hq
    · cases hmark
    · exact hq
  have hmarks : marks t.pairs = marks rest := by
    rw [marks_perm hpairs, marks_cons]
    rfl
  have hcount := h.kept.pending
  have hfits := h.kept.fits
  rw [marks_perm hperm, marks_cons] at hcount
  refine ⟨?_, ?_, ?_, ?_, ?_⟩
  · intro q hq hmark
    rw [hut] at hq ⊢
    rw [hlevel, hwalks]
    exact h.tidy q (hperm.mem_iff.2 (mem_cons_of_mem p (hmarked q hq hmark))) hmark
  · rw [hut, hmarks, hpending]
    split at hcount
    next hmark =>
      rw [if_pos hmark]
      omega
    next hmark =>
      rw [if_neg hmark]
      exact hcount
  · rw [hut, hpending]
    split
    · exact Nat.mod_lt _ (Nat.two_pow_pos 32)
    · exact hfits
  · rw [hut, hlog, hnext]
    refine hholds.perm ?_
    rw [← held_cons]
    exact held_perm hpairs
  · intro x hx
    have hxz : x ∈ z.removed ∧ (p.markedForRemove = true → x ∉ disposePair m p) := by
      rw [hr] at hx
      dsimp only at hx
      split at hx
      · obtain ⟨hx, hnot⟩ := mem_filter.1 hx
        exact ⟨hx, fun _ => of_decide_eq_true hnot⟩
      next hmark => exact ⟨hx, fun htrue => absurd htrue hmark⟩
    refine h.kept.removed_of (hlog ▸ hfreed) hxz.1 fun q hq hmark hqx => ?_
    rcases mem_cons.1 (hperm.mem_iff.1 hq) with rfl | hq
    · exact absurd hqx (hxz.2 hmark)
    · rw [hut]
      exact hpairs.mem_iff.2 (mem_cons_of_mem _ hq)

/-- A new pair has no mark. -/
theorem Owned.insert_none (h : Owned m z) {key : Object K} {value : Object V}
    (hget : HashTable.get (objectKey o) z.table (some key) = none)
    (hr : u = HashTableOwner.withObjects f z (newObjects m z key value)) :
    Tidy u ∧ Kept m u := by
  generalize hobjects : newObjects m z key value = r at hr
  obtain ⟨hholds, hcontent, hfreed⟩ := newObjects_facts h.kept.holds hobjects
  generalize htable : (HashTable.insert (objectKey o) f z.table (some r.2.1) (some r.2.2)).1 = t
  obtain ⟨hpairs, hnext, hpending⟩ := insert_none_facts h.walking.sound.1
    ((get_congr z.table hcontent).trans hget) htable
  have hlevel := (calls_level (o := objectKey o) (f := f) z.table).1
    (some r.2.1) (some r.2.2)
  rw [htable] at hlevel
  have hut : u.table = t := by rw [hr, ← htable]; rfl
  have hlog : u.log = r.1 := by rw [hr]; rfl
  have hwalks : u.walks = z.walks := by rw [hr]; rfl
  refine ⟨?_, ?_, ?_, ?_, ?_⟩
  · intro q hq hmark
    rw [hut] at hq ⊢
    rw [hlevel, hwalks]
    rcases mem_cons.1 (hpairs.mem_iff.1 hq) with rfl | hq
    · cases hmark
    · exact h.tidy q hq hmark
  · rw [hut, hpending, marks_perm hpairs, marks_cons]
    exact h.kept.pending
  · rw [hut, hpending]
    exact h.kept.fits
  · rw [hut, hlog, hnext]
    refine hholds.perm ?_
    rw [← held_cons]
    exact held_perm hpairs
  · intro x hx
    rw [hr] at hx
    refine h.kept.removed_of (hlog ▸ hfreed) hx fun q hq _ _ => ?_
    rw [hut]
    exact hpairs.mem_iff.2 (mem_cons_of_mem _ hq)

theorem Owned.unmarked (h : Owned m z) (hlevel : z.table.foreachRecursionLevel = 0)
    (hp : p ∈ z.table.pairs) : p.markedForRemove ≠ true := by
  intro hmark
  obtain ⟨hsame, hwalks⟩ := h.tidy p hp hmark
  exact h.walking.level_ne_zero hwalks hlevel

/-- A pair is marked in a walk, and freed outside. -/
theorem Owned.remove_some (h : Owned m z) {key : Object K}
    (hget : HashTable.get (objectKey o) z.table (some key) = some p)
    (hc : Careful z (.remove (some key)))
    (hu : u = HashTableOwner.remove m f z (some key)) : Tidy u ∧ Kept m u := by
  obtain ⟨hsame, hroom⟩ := hc p hget
  generalize htable : (HashTable.remove (objectKey o) f z.table (some key)).1 = t
  obtain ⟨rest, hperm, hnext, hin, hout⟩ := remove_some_facts h.walking.sound.1 hget htable
  have hlevel := (calls_level (o := objectKey o) (f := f) z.table).2.1 (some key)
  rw [htable] at hlevel
  rw [HashTableOwner.remove, hget] at hu
  dsimp only at hu
  have hut : u.table = t := by rw [hu, ← htable]
  have hwalks : u.walks = z.walks := by rw [hu]
  have hremoved : u.removed = disposePair m p ++ z.removed := by rw [hu]
  have hheld : (disposePair m p ++ held m rest).Perm (held m z.table.pairs) := by
    rw [← held_cons]
    exact held_perm hperm.symm
  have hcount := h.kept.pending
  rw [marks_perm hperm, marks_cons] at hcount
  by_cases hzero : z.table.foreachRecursionLevel = 0
  · obtain ⟨hpairs, hpending⟩ := hout hzero
    have hlog : u.log = z.log.free (disposePair m p) := by rw [hu, if_neg (not_not.2 hzero)]
    have hunmarked : ∀ q ∈ z.table.pairs, q.markedForRemove ≠ true :=
      fun q hq => h.unmarked hzero hq
    refine ⟨?_, ?_, ?_, ?_, ?_⟩
    · intro q hq hmark
      rw [hut] at hq
      exact absurd hmark (hunmarked q (hperm.mem_iff.2
        (mem_cons_of_mem p (hpairs.mem_iff.1 hq))))
    · rw [hut, hpending, marks_perm hpairs]
      exact (le_add_right _ _).trans hcount
    · rw [hut, hpending]
      exact h.kept.fits
    · rw [hut, hlog, hnext]
      exact (h.kept.holds.perm hheld).frees.perm (held_perm hpairs)
    · intro x hx
      rw [hremoved] at hx
      left
      rw [hlog, ObjectLog.freed_free]
      rcases mem_append.1 hx with hx | hx
      · exact mem_append_right _ hx
      · rcases h.kept.removed x hx with hdone | ⟨q, hq, hmark, -⟩
        · exact mem_append_left _ hdone
        · exact absurd hmark (hunmarked q hq)
  · obtain ⟨hpairs, hpending⟩ := hin hzero
    have hlog : u.log = z.log := by rw [hu, if_pos hzero]
    have hmod : (z.table.pendingRemoves + 1) % 2 ^ 32 = z.table.pendingRemoves + 1 :=
      mod_eq_of_lt (hroom hzero)
    refine ⟨?_, ?_, ?_, ?_, ?_⟩
    · intro q _ _
      rw [hut, hlevel, hwalks]
      refine ⟨hsame, fun hnil => hzero ?_⟩
      rw [hsame, hnil]
      rfl
    · rw [hut, hpending, hmod, marks_perm hpairs, marks_cons, if_pos rfl]
      omega
    · rw [hut, hpending, hmod]
      exact hroom hzero
    · rw [hut, hlog, hnext]
      refine h.kept.holds.perm ((held_perm hpairs).trans ?_)
      rw [held_cons]
      exact hheld
    · intro x hx
      rw [hremoved] at hx
      rcases mem_append.1 hx with hx | hx
      · refine .inr ⟨{ p with markedForRemove := true }, ?_, rfl, hx⟩
        rw [hut]
        exact hpairs.mem_iff.2 mem_cons_self
      · rcases h.kept.removed x hx with hdone | ⟨q, hq, hmark, hqx⟩
        · exact .inl (hlog ▸ hdone)
        · rcases mem_cons.1 (hperm.mem_iff.1 hq) with rfl | hq
          · refine .inr ⟨{ q with markedForRemove := true }, ?_, rfl, hqx⟩
            rw [hut]
            exact hpairs.mem_iff.2 mem_cons_self
          · refine .inr ⟨q, ?_, hmark, hqx⟩
            rw [hut]
            exact hpairs.mem_iff.2 (mem_cons_of_mem _ hq)

/-- Everything is freed. -/
theorem Owned.clear (h : Owned m z) (hc : Careful z .clear)
    (hu : HashTableOwner.clear m z = some u) : Tidy u ∧ Kept m u := by
  obtain ⟨⟨t, frees⟩, ht, rfl⟩ := map_eq_some_iff.1 hu
  obtain ⟨t', ht', hnil, -, hpending, hnext, -⟩ := clear_ends (o := objectKey o) hc
  obtain ⟨rfl, rfl⟩ := Prod.mk.inj (some.inj (ht'.symm.trans ht))
  refine ⟨?_, ?_, ?_, ?_, ?_⟩
  · intro q hq
    dsimp only at hq
    rw [hnil] at hq
    cases hq
  · dsimp only
    rw [hnil]
    exact zero_le _
  · dsimp only
    rw [hpending]
    exact h.kept.fits
  · dsimp only
    rw [hnil, hnext]
    have hall := h.kept.holds.perm (List.Perm.of_eq (append_nil (held m z.table.pairs)))
    exact hall.frees
  · intro x hx
    left
    dsimp only at hx ⊢
    rw [ObjectLog.freed_free]
    rcases mem_append.1 hx with hx | hx
    · exact mem_append_right _ hx
    · rcases h.kept.removed x hx with hdone | ⟨q, hq, -, hqx⟩
      · exact mem_append_left _ hdone
      · exact mem_append_right _ (mem_held hq hqx)

theorem arrive_none (m : Methods) (z : HashTableOwner K V o) :
    (arrive m z none).table = endForeach z.table ∧ (arrive m z none).walks = z.walks ∧
      (arrive m z none).removed = z.removed ∧
      (arrive m z none).log = z.log.free (held m (endFrees z.table)) := by
  obtain ⟨⟨table, walks, map⟩, log, removed⟩ := z
  rw [arrive, HashTableUse.arrive, held]
  dsimp only
  exact ⟨rfl, rfl, rfl, rfl⟩

/-- A walk that goes on, or ends: the last one frees the marked pairs. -/
theorem arrive_kept {d : Option Cursor} (h : Kept m z)
    (htidy : ∀ p ∈ z.table.pairs, p.markedForRemove = true →
      z.table.foreachRecursionLevel = z.walks.length + 1)
    (hpos : z.table.foreachRecursionLevel ≠ 0)
    (hfits : z.table.foreachRecursionLevel < 2 ^ 32) :
    Tidy (arrive m z d) ∧ Kept m (arrive m z d) := by
  cases d with
  | some d =>
    refine ⟨fun q hq hmark => ⟨htidy q hq hmark, cons_ne_nil _ _⟩, ?_⟩
    exact ⟨h.pending, h.fits, h.holds, h.removed⟩
  | none =>
    have hdown : (z.table.foreachRecursionLevel + 2 ^ 32 - 1) % 2 ^ 32 =
        z.table.foreachRecursionLevel - 1 := by omega
    obtain ⟨hut, hwalks, hremoved, hlog⟩ := arrive_none m z
    obtain ⟨hpending, hsame, hnext⟩ := endForeach_eq z.table
    by_cases hlast : (z.table.foreachRecursionLevel + 2 ^ 32 - 1) % 2 ^ 32 = 0 ∧
        z.table.pendingRemoves ≠ 0
    · have hpairs := hsame.1 hlast
      rw [if_pos hlast] at hpending
      have hfrees : endFrees z.table = z.table.pairs.filter fun pair => pair.markedForRemove :=
        if_pos hlast
      have hunmarked : ∀ q ∈ (arrive m z none).table.pairs, q.markedForRemove ≠ true := by
        intro q hq hmark
        rw [hut, hpairs] at hq
        have hfalse := (mem_filter.1 hq).2
        rw [hmark] at hfalse
        cases hfalse
      have hheld : (held m (endFrees z.table) ++ held m (arrive m z none).table.pairs).Perm
          (held m z.table.pairs) := by
        rw [held, held, ← flatMap_append, hfrees, hut, hpairs]
        exact held_perm (filter_append_perm _ _)
      refine ⟨fun q hq hmark => absurd hmark (hunmarked q hq), ?_, ?_, ?_, ?_⟩
      · rw [marks, countP_eq_zero.2 hunmarked]
        exact zero_le _
      · rw [hut, hpending]
        exact Nat.two_pow_pos 32
      · rw [hlog, hut, hnext, ← hut]
        exact (h.holds.perm hheld).frees
      · intro x hx
        left
        rw [hremoved] at hx
        rw [hlog, ObjectLog.freed_free]
        rcases h.removed x hx with hdone | ⟨q, hq, hmark, hqx⟩
        · exact mem_append_left _ hdone
        · rw [hfrees]
          exact mem_append_right _ (mem_held (mem_filter.2 ⟨hq, hmark⟩) hqx)
    · have hpairs := hsame.2 hlast
      rw [if_neg hlast] at hpending
      have hfrees : endFrees z.table = [] := if_neg hlast
      have hevents : (arrive m z none).log = z.log := by
        rw [hlog, hfrees, ObjectLog.free]
        exact congrArg (fun es => { z.log with events := es }) (append_nil _)
      refine ⟨fun q hq hmark => ?_, ?_, ?_, ?_, ?_⟩
      · rw [hut, hpairs] at hq
        have hlevel := htidy q hq hmark
        refine ⟨?_, fun hnone => hlast ⟨?_, ?_⟩⟩
        · rw [hut, endForeach_level, hdown, hlevel, hwalks]
          exact Nat.add_sub_cancel _ 1
        · rw [hwalks] at hnone
          rw [hdown, hlevel, hnone]
          rfl
        · have hmarks : 0 < marks z.table.pairs := countP_pos_iff.2 ⟨q, hq, hmark⟩
          exact ne_of_gt (hmarks.trans_le h.pending)
      · rw [hut, hpairs, hpending]
        exact h.pending
      · rw [hut, hpending]
        exact h.fits
      · rw [hevents, hut, hpairs, hnext]
        exact h.holds
      · intro x hx
        rw [hremoved] at hx
        rw [hevents, hut, hpairs]
        exact h.removed x hx

theorem remove_eq_of_none {key : Option (Object K)}
    (hget : HashTable.get (objectKey o) z.table key = none) :
    (HashTable.remove (objectKey o) f z.table key).1 = z.table := by
  cases key with
  | none => rfl
  | some key => rw [HashTable.remove, hget]

/-- **Step lemma.** -/
theorem Owned.call (h : Owned m z) (hc : Careful z c) (hu : call m f z c = some u) :
    Owned m u := by
  have hwalking := h.walking.call hc hu
  suffices hkept : Tidy u ∧ Kept m u from ⟨hwalking, hkept.1, hkept.2⟩
  cases c with
  | insert key value allocated =>
    obtain rfl := some.inj hu
    rw [insert.eq_def]
    split
    next key value =>
      split
      next p hget => exact h.insert_some hget rfl
      next hget =>
        split
        · exact h.insert_none hget rfl
        · exact ⟨h.tidy, h.kept⟩
    next => exact ⟨h.tidy, h.kept⟩
  | remove key =>
    have hremove := some.inj hu
    cases hget : HashTable.get (objectKey o) z.table key with
    | some p =>
      cases key with
      | none => cases hget
      | some key => exact h.remove_some hget hc hremove.symm
    | none =>
      rw [remove, hget, remove_eq_of_none hget] at hremove
      subst hremove
      exact ⟨h.tidy, ⟨h.kept.pending, h.kept.fits, h.kept.holds, h.kept.removed⟩⟩
  | clear => exact h.clear hc hu
  | «foreach» =>
    have hforeach : «foreach» m z = u := some.inj hu
    have hup : (z.table.foreachRecursionLevel + 1) % 2 ^ 32 =
        z.table.foreachRecursionLevel + 1 := mod_eq_of_lt hc
    rw [«foreach», hup] at hforeach
    subst hforeach
    refine arrive_kept ⟨h.kept.pending, h.kept.fits, h.kept.holds, h.kept.removed⟩
      (fun p hp hmark => ?_) (succ_ne_zero _) hc
    exact congrArg succ (h.tidy p hp hmark).1
  | callbackReturns goOn =>
    have hreturn : callbackReturns m z goOn = some u := hu
    rw [callbackReturns] at hreturn
    split at hreturn
    next => cases hreturn
    next walk walks hwalks =>
      have hlevel := h.walking.level_ne_zero (hwalks ▸ cons_ne_nil walk walks)
      have hall : ∀ p ∈ z.table.pairs, p.markedForRemove = true →
          z.table.foreachRecursionLevel = walks.length + 1 := by
        intro p hp hmark
        rw [(h.tidy p hp hmark).1, hwalks, length_cons]
      split at hreturn
      next hgoOn =>
        obtain ⟨next, -, rfl⟩ := map_eq_some_iff.1 hreturn
        exact arrive_kept (z := { z with walks }) ⟨h.kept.pending, h.kept.fits, h.kept.holds,
          h.kept.removed⟩ hall hlevel h.walking.levelled.2
      next hgoOn =>
        obtain rfl := some.inj hreturn
        have hnone := hc (by simpa using hgoOn)
        refine ⟨fun p hp hmark => ?_, ⟨h.kept.pending, h.kept.fits, h.kept.holds,
          h.kept.removed⟩⟩
        rw [hnone p hp] at hmark
        cases hmark

theorem owned_start (m : Methods) : Owned m (start : HashTableOwner K V o) := by
  have hnone : (start : HashTableOwner K V o).table.pairs = [] := flatten_replicate_nil
  refine ⟨⟨HashTableUse.sound_start, ⟨Nat.le_refl 0, Nat.two_pow_pos 32⟩, fun d hd => nomatch hd⟩,
    ?_, ?_, ?_, ?_, ?_⟩
  · intro p hp
    rw [hnone] at hp
    cases hp
  · rw [hnone]
    exact Nat.le_refl 0
  · exact Nat.two_pow_pos 32
  · rw [hnone]
    exact Holds.empty _
  · exact fun r hr => nomatch hr

end Kept

end HashTableOwner
