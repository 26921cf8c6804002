/-
# Hash tables that are changed while they are walked

`HashTable.c`.  While a `HashTable_Foreach` runs, pairs that are removed stay in their chain with
a mark, and the last `HashTable_Foreach` to end takes them out.

Here are the calls, each with what it does to the pairs of the table and to the map the table
stands for.
-/
import XyDeskRemote.Chains
import Mathlib.Data.Set.Card

open Chains List Function

/-! ## Keys -/

/-- A hash function and `fnObjectEquals`, with what is expected of them. -/
structure KeyObject (K : Type) where
  hash : K → UInt32
  equals : K → K → Bool
  equals_refl : ∀ a, equals a a = true
  equals_symm : ∀ a b, equals a b = true → equals b a = true
  equals_trans : ∀ a b c, equals a b = true → equals b c = true → equals a c = true
  hash_eq : ∀ a b, equals a b = true → hash a = hash b

namespace KeyObject

variable {K : Type}

/-- Keys that are equal. -/
def setoid (o : KeyObject K) : Setoid K where
  r a b := o.equals a b = true
  iseqv := ⟨o.equals_refl, @fun a b => o.equals_symm a b, @fun a b c => o.equals_trans a b c⟩

/-- Keys, up to equality. -/
abbrev Key (o : KeyObject K) : Type := Quotient o.setoid

/-- The key of an object. -/
def keyOf (o : KeyObject K) (a : K) : o.Key := Quotient.mk o.setoid a

theorem keyOf_eq (o : KeyObject K) {a b : K} : o.keyOf a = o.keyOf b ↔ o.equals a b = true :=
  Quotient.eq (r := o.setoid)

instance (o : KeyObject K) : DecidableEq o.Key :=
  @Quotient.decidableEq K o.setoid
    fun a b => decEq (o.equals a b) true

/-- `HashTable_PointerHash` and `HashTable_PointerCompare`. -/
def pointer : KeyObject UInt64 where
  hash a := a.toUInt32 >>> 4
  equals a b := a = b
  equals_refl a := decide_eq_true rfl
  equals_symm a b h := decide_eq_true (of_decide_eq_true h).symm
  equals_trans a b c h h' := decide_eq_true ((of_decide_eq_true h).trans (of_decide_eq_true h'))
  hash_eq a b h := by rw [of_decide_eq_true h]

end KeyObject

/-! ## The table -/

/-- `wKeyValuePair`, with its address; the chain it is in is the list of those behind it. -/
structure KeyValuePair (K V : Type) where
  address : ℕ
  key : K
  value : Option V
  markedForRemove : Bool := false

/-- `wHashTable`; `numOfBuckets` is the length of the array, and `nextAddress` the address of the
pair that is allocated next. -/
structure HashTable (K V : Type) where
  bucketArray : List (List (KeyValuePair K V))
  numOfElements : ℕ := 0
  foreachRecursionLevel : ℕ := 0
  pendingRemoves : ℕ := 0
  nextAddress : ℕ := 0

/-- What the comparisons of floats decide, for `numOfElements` and `numOfBuckets`, and the
quotient of `numOfElements` and `idealRatio`. -/
structure LoadFactors where
  overfull : ℕ → ℕ → Bool
  underfull : ℕ → ℕ → Bool
  quotient : ℕ → ℕ

namespace HashTable

variable {K V : Type} {o : KeyObject K} {f : LoadFactors}

/-- `numOfBuckets`. -/
def numOfBuckets (t : HashTable K V) : ℕ := t.bucketArray.length

/-- All pairs. -/
def pairs (t : HashTable K V) : List (KeyValuePair K V) := t.bucketArray.flatten

/-- A `size_t` counter that goes down. -/
def countDown (n : ℕ) : ℕ := if n = 0 then 2 ^ 64 - 1 else n - 1

/-- The loop of `HashTable_IsProbablePrime`. -/
def probablePrimeLoop (oddNumber : ℕ) : List ℕ → Bool
  | [] => true
  | i :: is =>
    if oddNumber = i then true
    else if oddNumber % i = 0 then false else probablePrimeLoop oddNumber is

/-- `HashTable_IsProbablePrime`. -/
def isProbablePrime (oddNumber : ℕ) : Bool :=
  probablePrimeLoop oddNumber ((range 24).map (2 * · + 3))

theorem probablePrimeLoop_eq_true {n : ℕ} {is : List ℕ} (h : ∀ i ∈ is, n % i ≠ 0) :
    probablePrimeLoop n is = true := by
  induction is with
  | nil => rfl
  | cons i is ih =>
    rw [probablePrimeLoop, if_neg (h i mem_cons_self),
      ih fun j hj => h j (mem_cons_of_mem i hj), ite_self]

/-- A number all the divisors that are tried divide. -/
def commonMultiple : ℕ :=
  3 ^ 3 * 5 ^ 2 * 7 ^ 2 * 11 * 13 * 17 * 19 * 23 * 29 * 31 * 37 * 41 * 43 * 47

theorem isProbablePrime_of_dvd {k : ℕ} (h : commonMultiple ∣ k) :
    isProbablePrime (2 * k + 1) = true := by
  refine probablePrimeLoop_eq_true fun i hi => ?_
  have hall : ∀ i ∈ (range 24).map (2 * · + 3), 2 ≤ i ∧ i ∣ commonMultiple := by decide
  obtain ⟨htwo, hdvd⟩ := hall i hi
  obtain ⟨c, rfl⟩ := hdvd.trans h
  rw [Nat.mul_left_comm, Nat.mul_add_mod, Nat.mod_eq_of_lt htwo]
  exact Nat.one_ne_zero

/-- The loop of `HashTable_CalculateIdealNumOfBuckets` over the odd numbers `2 * k + 1`. -/
def nextProbablePrime (k : ℕ) : ℕ :=
  if isProbablePrime (2 * k + 1) then 2 * k + 1 else nextProbablePrime (k + 1)
termination_by (commonMultiple - k % commonMultiple) % commonMultiple
decreasing_by
  have hk : k % commonMultiple ≠ 0 := fun hzero =>
    ‹¬ isProbablePrime (2 * k + 1) = true› (isProbablePrime_of_dvd (Nat.dvd_of_mod_eq_zero hzero))
  rw [commonMultiple] at hk ⊢
  omega

/-- `HashTable_CalculateIdealNumOfBuckets`; with its lowest bit set, `n` is `2 * (n / 2) + 1`. -/
def calculateIdealNumOfBuckets (f : LoadFactors) (t : HashTable K V) : ℕ :=
  let idealNumOfBuckets := f.quotient t.numOfElements
  nextProbablePrime (if idealNumOfBuckets < 5 then 2 else idealNumOfBuckets / 2)

/-- The hash of a pair. -/
def pairHash (o : KeyObject K) (pair : KeyValuePair K V) : ℕ := (o.hash pair.key).toNat

/-- `HashTable_Rehash`, to the ideal number of buckets. -/
def rehash (o : KeyObject K) (f : LoadFactors) (t : HashTable K V) : HashTable K V :=
  let numOfBuckets := calculateIdealNumOfBuckets f t
  if numOfBuckets = t.numOfBuckets then t
  else { t with bucketArray := Chains.rehash (pairHash o) numOfBuckets t.pairs }

/-- `HashTable_Get`. -/
def get (o : KeyObject K) (t : HashTable K V) (key : Option K) : Option (KeyValuePair K V) :=
  key.bind fun key =>
    (chain t.bucketArray (o.hash key).toNat).find? fun pair => o.equals key pair.key

/-- The pair of a key is changed. -/
def updatePair (o : KeyObject K) (t : HashTable K V) (key : K)
    (g : KeyValuePair K V → KeyValuePair K V) : List (List (KeyValuePair K V)) :=
  modifyChain t.bucketArray (o.hash key).toNat
    (updateFirst (fun pair => o.equals key pair.key) g)

/-- `HashTable_Count`. -/
def count (t : HashTable K V) : ℕ := t.numOfElements

/-- `HashTable_Insert`.  A pair that has the mark is used again. -/
def insert (o : KeyObject K) (f : LoadFactors) (t : HashTable K V) (key : Option K)
    (value : Option V) : HashTable K V × Bool :=
  match key, value with
  | some key, some value =>
    match get o t (some key) with
    | some pair =>
      let t := { t with
        bucketArray := updatePair o t key fun pair =>
          { pair with key, value := some value, markedForRemove := false } }
      (if pair.markedForRemove then
        { t with
          pendingRemoves := (t.pendingRemoves + 2 ^ 32 - 1) % 2 ^ 32
          numOfElements := (t.numOfElements + 1) % 2 ^ 64 }
      else t, true)
    | none =>
      let newPair := { address := t.nextAddress, key, value := some value }
      let t := { t with
        bucketArray := modifyChain t.bucketArray (o.hash key).toNat (newPair :: ·)
        numOfElements := (t.numOfElements + 1) % 2 ^ 64
        nextAddress := t.nextAddress + 1 }
      (if t.foreachRecursionLevel = 0 ∧ f.overfull t.numOfElements t.numOfBuckets then
        rehash o f t
      else t, true)
  | _, _ => (t, false)

/-- `HashTable_Remove`. -/
def remove (o : KeyObject K) (f : LoadFactors) (t : HashTable K V) (key : Option K) :
    HashTable K V × Bool :=
  match key with
  | none => (t, false)
  | some key =>
    match get o t (some key) with
    | none => (t, false)
    | some _ =>
      if t.foreachRecursionLevel ≠ 0 then
        ({ t with
            bucketArray := updatePair o t key fun pair =>
              { pair with markedForRemove := true }
            pendingRemoves := (t.pendingRemoves + 1) % 2 ^ 32
            numOfElements := countDown t.numOfElements }, true)
      else
        let t := { t with
          bucketArray := modifyChain t.bucketArray (o.hash key).toNat
            (eraseP fun pair => o.equals key pair.key)
          numOfElements := countDown t.numOfElements }
        (if f.underfull t.numOfElements t.numOfBuckets then rehash o f t else t, true)

/-- `HashTable_GetItemValue`. -/
def getItemValue (o : KeyObject K) (t : HashTable K V) (key : Option K) : Option V :=
  match get o t key with
  | some pair => if pair.markedForRemove then none else pair.value
  | none => none

/-- `HashTable_SetItemValue`. -/
def setItemValue (o : KeyObject K) (t : HashTable K V) (key : Option K) (value : Option V) :
    HashTable K V × Bool :=
  match key with
  | none => (t, false)
  | some key =>
    match get o t (some key) with
    | none => (t, false)
    | some pair =>
      if pair.markedForRemove then (t, false)
      else ({ t with bucketArray := updatePair o t key fun pair => { pair with value } }, true)

/-- `HashTable_Contains`. -/
def contains (o : KeyObject K) (t : HashTable K V) (key : Option K) : Bool :=
  match get o t key with
  | some pair => ! pair.markedForRemove
  | none => false

/-- `HashTable_GetKeys`: the array of `numOfElements` keys.  The result is `none` when more keys
are written than there is room for, and the end of the array has null pointers when it has more
room. -/
def getKeys (t : HashTable K V) : Option (List (Option K)) :=
  let keys := (t.pairs.filter fun pair => ! pair.markedForRemove).map (·.key)
  if t.numOfElements < 1 then some []
  else if keys.length > t.numOfElements then none
  else some (keys.map some ++ replicate (t.numOfElements - keys.length) none)

/-! ## The walk -/

/-- Where a `HashTable_Foreach` is. -/
structure Cursor where
  index : ℕ
  address : ℕ

/-- The first pair without the mark, in the buckets from `index` on. -/
def firstPair : List (List (KeyValuePair K V)) → ℕ → Option Cursor
  | [], _ => none
  | bucket :: buckets, index =>
    match bucket.find? fun pair => ! pair.markedForRemove with
    | some pair => some ⟨index, pair.address⟩
    | none => firstPair buckets (index + 1)

/-- The next pair, `none` when the one the walk is at was freed. -/
def nextPair (t : HashTable K V) (c : Cursor) : Option (Option Cursor) :=
  let bucket := t.bucketArray.getD c.index []
  if bucket.any (·.address = c.address) then
    let behind := (bucket.dropWhile (·.address ≠ c.address)).tail
    some (firstPair (behind :: t.bucketArray.drop (c.index + 1)) c.index)
  else none

/-- The end of `HashTable_Foreach` after its last pair. -/
def endForeach (t : HashTable K V) : HashTable K V :=
  let t := { t with foreachRecursionLevel := (t.foreachRecursionLevel + 2 ^ 32 - 1) % 2 ^ 32 }
  if t.foreachRecursionLevel = 0 ∧ t.pendingRemoves ≠ 0 then
    { t with
      bucketArray := t.bucketArray.map (List.filter fun pair => ! pair.markedForRemove)
      pendingRemoves := 0 }
  else t

/-- `HashTable_New`, with the hash and equality functions set. -/
def new : HashTable K V where
  bucketArray := replicate 64 []

/-! ## The map a list of pairs stands for -/

variable {t : HashTable K V} {p q : KeyValuePair K V} {ps rest : List (KeyValuePair K V)}
  {m : o.Key → Option (Option V)}

/-- No two pairs have the same key. -/
def Distinct (o : KeyObject K) (ps : List (KeyValuePair K V)) : Prop :=
  ps.Pairwise fun p q => o.keyOf p.key ≠ o.keyOf q.key

/-- The pairs without the mark are those of the map. -/
def Represents (o : KeyObject K) (ps : List (KeyValuePair K V))
    (m : o.Key → Option (Option V)) : Prop :=
  ∀ k v, m k = some v ↔
    ∃ p ∈ ps, p.markedForRemove = false ∧ o.keyOf p.key = k ∧ p.value = v

/-- How many pairs have no mark. -/
def live (ps : List (KeyValuePair K V)) : ℕ := ps.countP fun pair => ! pair.markedForRemove

theorem Distinct.perm (h : Distinct o ps) (hperm : ps.Perm rest) : Distinct o rest :=
  (hperm.pairwise_iff fun h => h.symm).1 h

theorem Represents.perm (h : Represents o ps m) (hperm : ps.Perm rest) : Represents o rest m :=
  fun k v => (h k v).trans (exists_congr fun _ => and_congr_left' hperm.mem_iff)

theorem live_cons (p : KeyValuePair K V) (ps : List (KeyValuePair K V)) :
    live (p :: ps) = live ps + if p.markedForRemove then 0 else 1 := by
  rw [live, countP_cons, live]
  cases p.markedForRemove with
  | false => rfl
  | true => rfl

/-- A pair is taken out. -/
theorem Represents.erase (h : Represents o (p :: rest) m) (hd : Distinct o (p :: rest)) :
    Represents o rest (Function.update m (o.keyOf p.key) none) := by
  obtain ⟨hp, -⟩ := pairwise_cons.1 hd
  intro k v
  rw [update_apply]
  split
  next hk =>
    constructor
    · intro hnone
      cases hnone
    · rintro ⟨q, hq, -, hkey, -⟩
      exact absurd (hk.symm.trans hkey.symm) (hp q hq)
  next hk =>
    rw [h k v]
    constructor
    · rintro ⟨q, hq, hlive, hkey, hvalue⟩
      rcases mem_cons.1 hq with rfl | hq
      · exact absurd hkey.symm hk
      · exact ⟨q, hq, hlive, hkey, hvalue⟩
    · rintro ⟨q, hq, hrest⟩
      exact ⟨q, mem_cons_of_mem p hq, hrest⟩

/-- A pair with the mark is not seen. -/
theorem Represents.cons_marked (h : Represents o rest m) (hq : q.markedForRemove = true) :
    Represents o (q :: rest) m := by
  intro k v
  rw [h k v]
  constructor
  · rintro ⟨p, hp, hrest⟩
    exact ⟨p, mem_cons_of_mem q hp, hrest⟩
  · rintro ⟨p, hp, hlive, hrest⟩
    rcases mem_cons.1 hp with rfl | hp
    · rw [hq] at hlive
      cases hlive
    · exact ⟨p, hp, hlive, hrest⟩

/-- A pair with a key of its own is put in. -/
theorem Represents.cons (h : Represents o rest m) (hd : Distinct o (q :: rest))
    (hq : q.markedForRemove = false) :
    Represents o (q :: rest) (Function.update m (o.keyOf q.key) (some q.value)) := by
  obtain ⟨hnew, -⟩ := pairwise_cons.1 hd
  intro k v
  rw [update_apply]
  split
  next hk =>
    constructor
    · intro hv
      exact ⟨q, mem_cons_self, hq, hk.symm, Option.some.inj hv⟩
    · rintro ⟨p, hp, -, hkey, rfl⟩
      rcases mem_cons.1 hp with rfl | hp
      · rfl
      · exact absurd (hk.symm.trans hkey.symm) (hnew p hp)
  next hk =>
    rw [h k v]
    constructor
    · rintro ⟨p, hp, hrest⟩
      exact ⟨p, mem_cons_of_mem q hp, hrest⟩
    · rintro ⟨p, hp, hlive, hkey, hvalue⟩
      rcases mem_cons.1 hp with rfl | hp
      · exact absurd hkey.symm hk
      · exact ⟨p, hp, hlive, hkey, hvalue⟩

/-- **A pair is replaced** by one of the same key. -/
theorem Represents.replace (h : Represents o (p :: rest) m) (hd : Distinct o (p :: rest))
    (hkey : o.keyOf q.key = o.keyOf p.key) :
    Distinct o (q :: rest) ∧ Represents o (q :: rest) (Function.update m (o.keyOf p.key)
      (if q.markedForRemove then none else some q.value)) := by
  obtain ⟨hp, hrest⟩ := pairwise_cons.1 hd
  have hdistinct : Distinct o (q :: rest) :=
    pairwise_cons.2 ⟨fun r hr => hkey ▸ hp r hr, hrest⟩
  have herased := h.erase hd
  refine ⟨hdistinct, ?_⟩
  cases hq : q.markedForRemove with
  | false =>
    have hcons := herased.cons hdistinct hq
    rwa [hkey, update_idem] at hcons
  | true => exact herased.cons_marked hq

/-! ## Well-formed tables -/

/-- Each pair is in the bucket of its key, and has it alone. -/
structure WellFormed (o : KeyObject K) (t : HashTable K V) : Prop where
  placed : Placed (pairHash o) t.bucketArray
  distinct : Distinct o t.pairs

theorem equals_hash {key : K} (h : o.equals key p.key = true) :
    pairHash o p = (o.hash key).toNat := by
  rw [pairHash, o.hash_eq key p.key h]

/-- What `HashTable_Get` finds can be changed or taken out. -/
theorem get_some (h : WellFormed o t) {key : K} (hget : get o t (some key) = some p) :
    o.keyOf p.key = o.keyOf key ∧ ∃ rest, t.pairs.Perm (p :: rest) ∧
      (∀ g : KeyValuePair K V → KeyValuePair K V, o.keyOf (g p).key = o.keyOf key →
        (updatePair o t key g).flatten.Perm (g p :: rest) ∧
          Placed (pairHash o) (updatePair o t key g)) ∧
      (modifyChain t.bucketArray (o.hash key).toNat
        (eraseP fun pair => o.equals key pair.key)).flatten.Perm rest ∧
      Placed (pairHash o) (modifyChain t.bucketArray (o.hash key).toNat
        (eraseP fun pair => o.equals key pair.key)) := by
  obtain ⟨hkey, rest, hperm, hupdate, herase⟩ := h.placed.found hget
  refine ⟨(o.keyOf_eq.2 hkey).symm, rest, hperm, fun g hg => hupdate g ?_, herase⟩
  exact equals_hash (o.keyOf_eq.1 hg.symm)

theorem get_none (h : WellFormed o t) {key : K} (hget : get o t (some key) = none)
    (hp : p ∈ t.pairs) : o.keyOf key ≠ o.keyOf p.key := by
  intro hkey
  have hfalse := h.placed.not_found (fun q hq => equals_hash hq) hget hp
  rw [o.keyOf_eq.1 hkey] at hfalse
  cases hfalse

theorem nextProbablePrime_pos (k : ℕ) : 0 < nextProbablePrime k := by
  induction k using nextProbablePrime.induct with
  | case1 k hk =>
    rw [nextProbablePrime, if_pos hk]
    exact Nat.succ_pos _
  | case2 k hk ih =>
    rw [nextProbablePrime, if_neg hk]
    exact ih

/-- A rehash keeps the pairs, and everything else but where they are. -/
theorem rehash_facts (h : WellFormed o t) (f : LoadFactors) :
    WellFormed o (rehash o f t) ∧ (rehash o f t).pairs.Perm t.pairs ∧
      (rehash o f t).numOfElements = t.numOfElements := by
  rw [rehash]
  split
  · exact ⟨h, List.Perm.refl _, rfl⟩
  · have hpos : 0 < calculateIdealNumOfBuckets f t := nextProbablePrime_pos _
    have hperm := rehash_perm (pairHash o) hpos t.pairs
    exact ⟨⟨placed_rehash _ hpos _, h.distinct.perm hperm.symm⟩, hperm, rfl⟩

/-! ## What the calls do -/

theorem live_perm (h : ps.Perm rest) : live ps = live rest := h.countP_eq _

theorem live_le_length (ps : List (KeyValuePair K V)) : live ps ≤ ps.length :=
  countP_le_length

theorem insert_facts (h : WellFormed o t) (hm : Represents o t.pairs m) (f : LoadFactors)
    (key : K) (value : V) {r : HashTable K V × Bool}
    (hr : insert o f t (some key) (some value) = r) :
    WellFormed o r.1 ∧
      Represents o r.1.pairs (Function.update m (o.keyOf key) (some (some value))) ∧
      (r.1.numOfElements = t.numOfElements ∧ live r.1.pairs = live t.pairs ∨
        r.1.numOfElements = (t.numOfElements + 1) % 2 ^ 64 ∧
          live r.1.pairs = live t.pairs + 1) := by
  subst hr
  rw [insert]
  split
  next p hget =>
    obtain ⟨hkey, rest, hperm, hupdate, -⟩ := get_some h hget
    obtain ⟨hperm', hplaced⟩ := hupdate
      (fun pair => { pair with key, value := some value, markedForRemove := false }) rfl
    obtain ⟨hdistinct, hrepresents⟩ := (hm.perm hperm).replace (h.distinct.perm hperm)
      (q := { p with key, value := some value, markedForRemove := false }) hkey.symm
    have hlive := live_cons p rest
    have hlive' := live_cons { p with key, value := some value, markedForRemove := false } rest
    rw [hkey] at hrepresents
    dsimp only
    split
    next hmarked =>
      rw [if_pos hmarked] at hlive
      refine ⟨⟨hplaced, hdistinct.perm hperm'.symm⟩, hrepresents.perm hperm'.symm,
        .inr ⟨rfl, ?_⟩⟩
      rw [live_perm hperm, pairs, live_perm hperm', hlive, hlive']
      rfl
    next hmarked =>
      rw [if_neg hmarked] at hlive
      refine ⟨⟨hplaced, hdistinct.perm hperm'.symm⟩, hrepresents.perm hperm'.symm,
        .inl ⟨rfl, ?_⟩⟩
      rw [live_perm hperm, pairs, live_perm hperm', hlive, hlive']
      rfl
  next hget =>
    dsimp only
    generalize hnew : ({ address := t.nextAddress, key, value := some value } :
      KeyValuePair K V) = newPair
    have hnewKey : newPair.key = key := by rw [← hnew]
    have hnewValue : newPair.value = some value := by rw [← hnew]
    have hnewMark : newPair.markedForRemove = false := by rw [← hnew]
    obtain ⟨hperm, hplaced⟩ := h.placed.cons newPair
    rw [pairHash, hnewKey] at hperm hplaced
    have hdistinct : Distinct o (newPair :: t.pairs) := by
      refine pairwise_cons.2 ⟨fun p hp => ?_, h.distinct⟩
      rw [hnewKey]
      exact get_none h hget hp
    have hrepresents := hm.cons hdistinct hnewMark
    rw [hnewKey, hnewValue] at hrepresents
    have hlive : live (newPair :: t.pairs) = live t.pairs + 1 := by
      rw [live_cons, hnewMark]
      rfl
    have hwell : WellFormed o { t with
        bucketArray := modifyChain t.bucketArray (o.hash key).toNat (newPair :: ·)
        numOfElements := (t.numOfElements + 1) % 2 ^ 64
        nextAddress := t.nextAddress + 1 } :=
      ⟨hplaced, hdistinct.perm hperm.symm⟩
    split
    · obtain ⟨hwell', hperm', hcount⟩ := rehash_facts hwell f
      refine ⟨hwell', hrepresents.perm (hperm'.trans hperm).symm, .inr ⟨hcount, ?_⟩⟩
      rw [live_perm (hperm'.trans hperm)]
      exact hlive
    · refine ⟨hwell, hrepresents.perm hperm.symm, .inr ⟨rfl, ?_⟩⟩
      rw [pairs, live_perm hperm]
      exact hlive

/-- `HashTable_Remove` takes the key out of the map.  It counts down also when the pair has the
mark already. -/
theorem remove_facts (h : WellFormed o t) (hm : Represents o t.pairs m) (f : LoadFactors)
    (key : K) {r : HashTable K V × Bool} (hr : remove o f t (some key) = r) :
    WellFormed o r.1 ∧ Represents o r.1.pairs (Function.update m (o.keyOf key) none) ∧
      match get o t (some key) with
      | none => r.1.numOfElements = t.numOfElements ∧ live r.1.pairs = live t.pairs
      | some p => r.1.numOfElements = countDown t.numOfElements ∧
          live r.1.pairs + (if p.markedForRemove then 0 else 1) = live t.pairs := by
  subst hr
  rw [remove]
  dsimp only
  cases hget : get o t (some key) with
  | none =>
    dsimp only
    have hnone : m (o.keyOf key) = none := by
      rw [Option.eq_none_iff_forall_ne_some]
      intro v hv
      obtain ⟨p, hp, -, hkey, -⟩ := (hm _ v).1 hv
      exact get_none h hget hp hkey.symm
    refine ⟨h, ?_, rfl, rfl⟩
    rwa [← hnone, update_eq_self]
  | some p =>
    obtain ⟨hkey, rest, hperm, hupdate, herase, hplaced'⟩ := get_some h hget
    obtain ⟨hperm', hplaced⟩ := hupdate (fun pair => { pair with markedForRemove := true }) hkey
    have hdistinct := h.distinct.perm hperm
    have hlive : live t.pairs = live rest + if p.markedForRemove then 0 else 1 := by
      rw [live_perm hperm, live_cons]
    dsimp only
    split
    · obtain ⟨hdistinct', hrepresents⟩ := (hm.perm hperm).replace hdistinct
        (q := { p with markedForRemove := true }) rfl
      rw [hkey, if_pos rfl] at hrepresents
      refine ⟨⟨hplaced, hdistinct'.perm hperm'.symm⟩, hrepresents.perm hperm'.symm, rfl, ?_⟩
      rw [pairs, live_perm hperm', live_cons, if_pos rfl, Nat.add_zero, hlive]
    · have hrepresents := (hm.perm hperm).erase hdistinct
      rw [hkey] at hrepresents
      have hwell : WellFormed o { t with
          bucketArray := modifyChain t.bucketArray (o.hash key).toNat
            (eraseP fun pair => o.equals key pair.key)
          numOfElements := countDown t.numOfElements } :=
        ⟨hplaced', Distinct.perm (pairwise_cons.1 hdistinct).2 herase.symm⟩
      split
      · obtain ⟨hwell', hperm'', hcount⟩ := rehash_facts hwell f
        refine ⟨hwell', hrepresents.perm (hperm''.trans herase).symm, hcount, ?_⟩
        rw [live_perm (hperm''.trans herase), hlive]
      · refine ⟨hwell, hrepresents.perm herase.symm, rfl, ?_⟩
        rw [pairs, live_perm herase, hlive]

theorem setItemValue_facts (h : WellFormed o t) (hm : Represents o t.pairs m) (key : K)
    (value : Option V) {r : HashTable K V × Bool} (hr : setItemValue o t (some key) value = r) :
    WellFormed o r.1 ∧
      Represents o r.1.pairs (if (m (o.keyOf key)).isSome then
        Function.update m (o.keyOf key) (some value) else m) ∧
      r.1.numOfElements = t.numOfElements ∧ live r.1.pairs = live t.pairs := by
  subst hr
  rw [setItemValue]
  cases hget : get o t (some key) with
  | none =>
    have hnone : ¬ (m (o.keyOf key)).isSome = true := by
      rw [Option.isSome_iff_exists]
      rintro ⟨v, hv⟩
      obtain ⟨p, hp, -, hkey, -⟩ := (hm _ v).1 hv
      exact get_none h hget hp hkey.symm
    rw [if_neg hnone]
    exact ⟨h, hm, rfl, rfl⟩
  | some p =>
    obtain ⟨hkey, rest, hperm, hupdate, -⟩ := get_some h hget
    obtain ⟨hperm', hplaced⟩ := hupdate (fun pair => { pair with value }) hkey
    have hdistinct := h.distinct.perm hperm
    have hp : p ∈ t.pairs := hperm.mem_iff.2 mem_cons_self
    dsimp only
    split
    next hmarked =>
      have hnone : ¬ (m (o.keyOf key)).isSome = true := by
        rw [Option.isSome_iff_exists]
        rintro ⟨v, hv⟩
        obtain ⟨q, hq, hlive, hqkey, -⟩ := (hm _ v).1 hv
        rcases mem_cons.1 (hperm.mem_iff.1 hq) with rfl | hq
        · rw [hmarked] at hlive
          cases hlive
        · exact (pairwise_cons.1 hdistinct).1 q hq (hkey.trans hqkey.symm)
      rw [if_neg hnone]
      exact ⟨h, hm, rfl, rfl⟩
    next hmarked =>
      have hunmarked : p.markedForRemove = false := by simpa using hmarked
      have hsome : (m (o.keyOf key)).isSome = true :=
        Option.isSome_iff_exists.2 ⟨p.value, (hm _ _).2 ⟨p, hp, hunmarked, hkey, rfl⟩⟩
      obtain ⟨hdistinct', hrepresents⟩ := (hm.perm hperm).replace hdistinct
        (q := { p with value }) rfl
      rw [hkey, if_neg hmarked] at hrepresents
      rw [if_pos hsome]
      refine ⟨⟨hplaced, hdistinct'.perm hperm'.symm⟩, hrepresents.perm hperm'.symm, rfl, ?_⟩
      rw [pairs, live_perm hperm', live_cons, live_perm hperm, live_cons]

/-- The end of a walk takes out pairs with the mark only. -/
theorem endForeach_facts (h : WellFormed o t) (hm : Represents o t.pairs m) :
    WellFormed o (endForeach t) ∧ Represents o (endForeach t).pairs m ∧
      (endForeach t).numOfElements = t.numOfElements ∧
      live (endForeach t).pairs = live t.pairs := by
  rw [endForeach]
  dsimp only
  split
  · have hpairs : (t.bucketArray.map
        (List.filter fun pair => ! pair.markedForRemove)).flatten =
        t.pairs.filter fun pair => ! pair.markedForRemove :=
      flatten_map_filter _ _
    refine ⟨⟨h.placed.filter _, ?_⟩, ?_, rfl, ?_⟩
    · rw [pairs, hpairs]
      exact h.distinct.filter _
    · rw [pairs, hpairs]
      intro k v
      rw [hm k v]
      refine exists_congr fun p => ?_
      rw [mem_filter, and_assoc]
      refine and_congr_right' ⟨fun hp => ⟨?_, hp⟩, fun hp => hp.2⟩
      rw [hp.1]
      rfl
    · rw [pairs, hpairs]
      refine (countP_filter).trans ?_
      exact congrArg (t.pairs.countP ·) (funext fun pair => Bool.and_self _)
  · refine ⟨⟨h.placed, ?_⟩, ?_, rfl, ?_⟩
    · rw [pairs]
      exact h.distinct
    · rw [pairs]
      exact hm
    · rw [pairs, pairs]

/-! ## Answers -/

/-- The table answers as the map does. -/
structure Answers (o : KeyObject K) (t : HashTable K V) (m : o.Key → Option (Option V)) :
    Prop where
  getItemValue_eq : ∀ key, getItemValue o t key = (key.bind fun k => m (o.keyOf k)).join
  contains_eq : ∀ key, contains o t key = (key.bind fun k => m (o.keyOf k)).isSome
  count_eq : count t = {k | m k ≠ none}.ncard
  getKeys_eq : ∃ keys : List K, getKeys t = some (keys.map some) ∧ (keys.map o.keyOf).Nodup ∧
    ∀ k, k ∈ keys.map o.keyOf ↔ m k ≠ none

theorem map_keyOf (h : WellFormed o t) (hm : Represents o t.pairs m) (key : K) :
    m (o.keyOf key) = match get o t (some key) with
      | some p => if p.markedForRemove then none else some p.value
      | none => none := by
  cases hget : get o t (some key) with
  | none =>
    rw [Option.eq_none_iff_forall_ne_some]
    intro v hv
    obtain ⟨p, hp, -, hkey, -⟩ := (hm _ v).1 hv
    exact get_none h hget hp hkey.symm
  | some p =>
    obtain ⟨hkey, rest, hperm, -, -⟩ := get_some h hget
    have hp : p ∈ t.pairs := hperm.mem_iff.2 mem_cons_self
    have hothers := (pairwise_cons.1 (h.distinct.perm hperm)).1
    dsimp only
    split
    next hmarked =>
      rw [Option.eq_none_iff_forall_ne_some]
      intro v hv
      obtain ⟨q, hq, hlive, hqkey, -⟩ := (hm _ v).1 hv
      rcases mem_cons.1 (hperm.mem_iff.1 hq) with rfl | hq
      · rw [hmarked] at hlive
        cases hlive
      · exact hothers q hq (hkey.trans hqkey.symm)
    next hmarked =>
      exact (hm _ _).2 ⟨p, hp, by simpa using hmarked, hkey, rfl⟩

/-- The keys that are not marked are those of the map, each once. -/
theorem keys_facts (h : WellFormed o t) (hm : Represents o t.pairs m) :
    let keys := (t.pairs.filter fun pair => ! pair.markedForRemove).map (·.key)
    keys.length = live t.pairs ∧ (keys.map o.keyOf).Nodup ∧
      ∀ k, k ∈ keys.map o.keyOf ↔ m k ≠ none := by
  dsimp only
  refine ⟨?_, ?_, fun k => ?_⟩
  · rw [length_map, live, countP_eq_length_filter]
  · rw [map_map]
    exact pairwise_map.2 (h.distinct.filter _)
  · rw [map_map, mem_map, ← Option.isSome_iff_ne_none, Option.isSome_iff_exists]
    constructor
    · rintro ⟨p, hp, hkey⟩
      obtain ⟨hp, hlive⟩ := mem_filter.1 hp
      exact ⟨p.value, (hm k _).2 ⟨p, hp, by simpa using hlive, hkey, rfl⟩⟩
    · rintro ⟨v, hv⟩
      obtain ⟨p, hp, hlive, hkey, -⟩ := (hm k v).1 hv
      exact ⟨p, mem_filter.2 ⟨hp, by simpa using hlive⟩, hkey⟩

/-- **The counter is all that can go wrong.** -/
theorem answers_iff (h : WellFormed o t) (hm : Represents o t.pairs m) :
    Answers o t m ↔ t.numOfElements = live t.pairs := by
  obtain ⟨hlength, hnodup, hmem⟩ := keys_facts h hm
  have hcard : {k | m k ≠ none}.ncard = live t.pairs := by
    have hset : {k | m k ≠ none} =
        (((t.pairs.filter fun pair => ! pair.markedForRemove).map (·.key)).map
          o.keyOf).toFinset := by
      ext k
      rw [Set.mem_ofPred_eq, Finset.mem_coe, mem_toFinset]
      exact (hmem k).symm
    rw [hset, Set.ncard_coe_finset, toFinset_card_of_nodup hnodup, length_map, hlength]
  constructor
  · intro hanswers
    exact hanswers.count_eq.trans hcard
  · intro hcount
    refine ⟨fun key => ?_, fun key => ?_, hcount.trans hcard.symm, ?_⟩
    · cases key with
      | none => rfl
      | some key =>
        rw [Option.bind_some, map_keyOf h hm, getItemValue]
        cases get o t (some key) with
        | none => rfl
        | some p =>
          dsimp only
          split
          · rfl
          · rfl
    · cases key with
      | none => rfl
      | some key =>
        rw [Option.bind_some, map_keyOf h hm, contains]
        cases get o t (some key) with
        | none => rfl
        | some p =>
          dsimp only
          cases p.markedForRemove with
          | false => rfl
          | true => rfl
    · refine ⟨_, ?_, hnodup, hmem⟩
      rw [getKeys, hlength, hcount, if_neg (Nat.lt_irrefl _), Nat.sub_self, replicate_zero,
        append_nil]
      split
      next hzero =>
        rw [eq_nil_of_length_eq_zero (hlength.trans (by omega))]
        rfl
      next => rfl

end HashTable
