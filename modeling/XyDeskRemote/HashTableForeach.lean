/-
# Every `HashTable_Foreach` ends

A walk over a hash table goes on to a smaller `position`, in the lexicographic order of the
buckets that are left and the pairs that are left in the bucket: new pairs come to the front of
their chain, and in a walk no pair leaves its bucket.  So it ends, when its callbacks return,
whatever they insert and remove (`foreach_ends`).
-/
import XyDeskRemote.HashTableRelease

open LabelledRun Chains OwnershipLedger List Option

/-- `HashTable_StringHash` and `HashTable_StringCompare`. -/
def KeyObject.string : KeyObject (List UInt8) where
  hash str := str.foldl (fun hash c => hash * 33 + c.toUInt32) 5381
  equals a b := a = b
  equals_refl a := decide_eq_true rfl
  equals_symm a b h := decide_eq_true (of_decide_eq_true h).symm
  equals_trans a b c h h' := decide_eq_true ((of_decide_eq_true h).trans (of_decide_eq_true h'))
  hash_eq a b h := by rw [of_decide_eq_true h]

namespace HashTable

variable {K V : Type} {t : HashTable K V} {bucket tail : List (KeyValuePair K V)}
  {buckets buckets' : List (List (KeyValuePair K V))} {c d : Cursor} {a : ℕ}

/-- How many pairs of a bucket are left, with the one at the address. -/
def behind (bucket : List (KeyValuePair K V)) (a : ℕ) : ℕ :=
  (bucket.dropWhile (·.address ≠ a)).length

/-- Where a walk is: the buckets that are left, and the pairs of its bucket. -/
def position (buckets : List (List (KeyValuePair K V))) (c : Cursor) : ℕ ×ₗ ℕ :=
  toLex (buckets.length - c.index, behind (buckets.getD c.index []) c.address)

/-- What the walk has passed is not seen again. -/
theorem dropWhile_of_nodup {front : List (KeyValuePair K V)} {p : KeyValuePair K V}
    (h : ((front ++ p :: tail).map (·.address)).Nodup) :
    (front ++ p :: tail).dropWhile (·.address ≠ p.address) = p :: tail := by
  induction front with
  | nil =>
    rw [nil_append, dropWhile_cons_of_neg]
    simp
  | cons q front ih =>
    rw [cons_append, map_cons, nodup_cons] at h
    have hne : q.address ≠ p.address := by
      intro heq
      refine h.1 (heq ▸ mem_map.2 ⟨p, ?_, rfl⟩)
      exact mem_append_right _ mem_cons_self
    rw [cons_append, dropWhile_cons_of_pos (by simp [hne])]
    exact ih h.2

theorem lt_of_mem_getD {i : ℕ} {p : KeyValuePair K V} (h : p ∈ buckets.getD i []) :
    i < buckets.length := by
  by_contra hge
  rw [getD_eq_getElem?_getD, getElem?_eq_none (Nat.le_of_not_lt hge)] at h
  cases h

theorem getD_mem {i : ℕ} (h : i < buckets.length) : buckets.getD i [] ∈ buckets := by
  rw [getD_eq_getElem?_getD, getElem?_eq_getElem h]
  exact getElem_mem h

/-- **The next pair is further on.** -/
theorem position_nextPair (hnodup : ∀ bucket ∈ t.bucketArray, (bucket.map (·.address)).Nodup)
    (h : nextPair t c = some (some d)) :
    position t.bucketArray d < position t.bucketArray c := by
  rw [nextPair] at h
  split at h
  next hany =>
    obtain ⟨x, hx, hat⟩ := any_eq_true.1 hany
    have hx' : x.address = c.address := of_decide_eq_true hat
    have hlt := lt_of_mem_getD hx
    have hbucket := hnodup _ (getD_mem hlt)
    obtain ⟨front, tail, hsplit⟩ := append_of_mem hx
    rw [hsplit] at hbucket
    have hdrop := dropWhile_of_nodup hbucket
    rw [hx'] at hdrop
    rw [hsplit, hdrop, tail_cons] at h
    obtain ⟨j, hindex, p, hp, haddress⟩ := HashTableUse.firstPair_facts (some.inj h)
    refine Prod.Lex.toLex_lt_toLex.2 ?_
    dsimp only
    cases j with
    | zero =>
      -- it is in the same bucket, and there are fewer behind
      right
      rw [getD_cons_zero] at hp
      obtain ⟨front', tail', rfl⟩ := append_of_mem hp
      have hsplit' : front ++ x :: (front' ++ p :: tail') =
          (front ++ x :: front') ++ p :: tail' := by
        rw [append_assoc, cons_append]
      have hdrop' := dropWhile_of_nodup (hsplit' ▸ hbucket)
      rw [hindex, Nat.add_zero, ← haddress, hsplit, behind, behind, hdrop, hsplit', hdrop']
      refine ⟨rfl, ?_⟩
      rw [length_cons, length_cons, length_append, length_cons]
      omega
    | succ j =>
      left
      rw [getD_cons_succ, getD_eq_getElem?_getD, getElem?_drop, ← getD_eq_getElem?_getD] at hp
      have hlt' := lt_of_mem_getD hp
      omega
  next => cases h

/-! ## What calls leave as it is -/

/-- The pairs behind an address are the same in each of the buckets. -/
structure SameBehind (a : ℕ) (buckets buckets' : List (List (KeyValuePair K V))) : Prop where
  length_eq : buckets'.length = buckets.length
  behind_eq : ∀ i, behind (buckets'.getD i []) a = behind (buckets.getD i []) a

theorem SameBehind.refl (a : ℕ) (buckets : List (List (KeyValuePair K V))) :
    SameBehind a buckets buckets :=
  ⟨rfl, fun _ => rfl⟩

theorem SameBehind.position_eq (h : SameBehind c.address buckets buckets') :
    position buckets' c = position buckets c := by
  rw [position, position, h.length_eq, h.behind_eq]

theorem sameBehind_modifyChain {g : List (KeyValuePair K V) → List (KeyValuePair K V)} {n : ℕ}
    (hpos : 0 < buckets.length) (hg : ∀ bucket, behind (g bucket) a = behind bucket a) :
    SameBehind a buckets (modifyChain buckets n g) := by
  refine ⟨length_modify g buckets _, fun i => ?_⟩
  rw [modifyChain, getD_modify g (Nat.mod_lt n hpos)]
  split
  next hi =>
    rw [hg, hi]
  next => rfl

theorem length_updateFirst {q : KeyValuePair K V → Bool}
    {g : KeyValuePair K V → KeyValuePair K V} (bucket : List (KeyValuePair K V)) :
    (updateFirst q g bucket).length = bucket.length := by
  induction bucket with
  | nil => rfl
  | cons p bucket ih =>
    rw [updateFirst]
    split
    · rw [length_cons, length_cons]
    · rw [length_cons, length_cons, ih]

theorem behind_updateFirst {q : KeyValuePair K V → Bool}
    {g : KeyValuePair K V → KeyValuePair K V} (hg : ∀ p, (g p).address = p.address) (a : ℕ)
    (bucket : List (KeyValuePair K V)) : behind (updateFirst q g bucket) a = behind bucket a := by
  induction bucket with
  | nil => rfl
  | cons p bucket ih =>
    rw [updateFirst]
    split
    · rw [behind, behind, dropWhile_cons, dropWhile_cons, hg]
      split
      · rfl
      · rw [length_cons, length_cons]
    · rw [behind, behind, dropWhile_cons, dropWhile_cons]
      split
      · exact ih
      · rw [length_cons, length_cons, length_updateFirst]

theorem sameBehind_updatePair {o : KeyObject K} {key : K}
    {g : KeyValuePair K V → KeyValuePair K V} (hpos : 0 < t.bucketArray.length)
    (hb : buckets' = updatePair o t key g) (hg : ∀ p, (g p).address = p.address) :
    SameBehind a t.bucketArray buckets' := by
  rw [hb]
  exact sameBehind_modifyChain hpos fun bucket => behind_updateFirst hg a bucket

/-- In a walk, a new pair comes to the front of its chain. -/
theorem insert_sameBehind {o : KeyObject K} (f : LoadFactors) (hlevel : t.foreachRecursionLevel ≠ 0)
    (hpos : 0 < t.bucketArray.length) (ha : a ≠ t.nextAddress) (key : Option K)
    (value : Option V) : SameBehind a t.bucketArray (insert o f t key value).1.bucketArray := by
  rw [insert.eq_def]
  split
  next key value =>
    split
    next pair _ =>
      dsimp only
      split
      · exact sameBehind_updatePair hpos rfl fun _ => rfl
      · exact sameBehind_updatePair hpos rfl fun _ => rfl
    next =>
      dsimp only
      rw [if_neg fun hboth => hlevel hboth.1]
      refine sameBehind_modifyChain hpos fun bucket => ?_
      rw [behind, behind, dropWhile_cons_of_pos (by simp [ha.symm])]
  next => exact SameBehind.refl a _

/-- In a walk, a pair that is removed stays. -/
theorem remove_sameBehind {o : KeyObject K} (f : LoadFactors) (hlevel : t.foreachRecursionLevel ≠ 0)
    (hpos : 0 < t.bucketArray.length) (a : ℕ) (key : Option K) :
    SameBehind a t.bucketArray (remove o f t key).1.bucketArray := by
  rw [remove.eq_def]
  split
  · exact SameBehind.refl a _
  · split
    · exact SameBehind.refl a _
    · rw [if_pos hlevel]
      exact sameBehind_updatePair hpos rfl fun _ => rfl

/-- A walk that ends in another one leaves the pairs. -/
theorem endForeach_bucketArray (h : (t.foreachRecursionLevel + 2 ^ 32 - 1) % 2 ^ 32 ≠ 0) :
    (endForeach t).bucketArray = t.bucketArray := by
  rw [endForeach]
  dsimp only
  rw [if_neg fun hboth => h hboth.1]

theorem nextPair_isSome (h : HashTableUse.AtPair t c) : (nextPair t c).isSome = true := by
  obtain ⟨p, hp, haddress⟩ := h
  rw [nextPair, if_pos (any_eq_true.2 ⟨p, hp, decide_eq_true haddress⟩)]
  rfl

end HashTable

namespace HashTableOwner

open HashTable

variable {K V : Type} {o : KeyObject K} {m : Methods} {f : LoadFactors}
  {z u : HashTableOwner K V o} {c : HashTableOwnerCall K V} {x : Cursor}
  {inner below : List Cursor}

theorem pair_mem_disposePair (m : Methods) (p : ObjectPair K V) :
    Resource.pair p.address ∈ disposePair m p :=
  mem_append_right _ mem_cons_self

theorem Owned.nodup_addresses (h : Owned m z) :
    ∀ bucket ∈ z.table.bucketArray, (bucket.map (·.address)).Nodup := by
  intro bucket hbucket
  refine List.Nodup.sublist ((sublist_flatten_of_mem hbucket).map _) ?_
  have hdisjoint := (nodup_flatMap.1 h.kept.holds.nodup).2
  refine pairwise_map.2 (hdisjoint.imp fun {p q} hpq heq => ?_)
  refine hpq (pair_mem_disposePair m p) ?_
  rw [heq]
  exact pair_mem_disposePair m q

theorem Owned.address_lt (h : Owned m z) (hx : x ∈ z.walks) : x.address < z.table.nextAddress := by
  obtain ⟨p, hp, haddress⟩ := h.walking.atPairs x hx
  have hmem : p ∈ z.table.pairs := mem_flatten.2 ⟨_, getD_mem (lt_of_mem_getD hp), hp⟩
  have hmade := h.kept.holds.used_of_mem (mem_held hmem (pair_mem_disposePair m p))
  rw [← haddress]
  exact hmade

/-- The walk is where it was, or further on. -/
def Onward (z u : HashTableOwner K V o) (below : List Cursor) (x : Cursor) : Prop :=
  ∃ inner' x', u.walks = inner' ++ x' :: below ∧
    position u.table.bucketArray x' ≤ position z.table.bucketArray x

theorem Onward.of_sameBehind (hwalks : ∃ more, u.walks = more ++ x :: below)
    (h : SameBehind x.address z.table.bucketArray u.table.bucketArray) : Onward z u below x := by
  obtain ⟨more, hmore⟩ := hwalks
  exact ⟨more, x, hmore, le_of_eq h.position_eq⟩

theorem arrive_onward {t : HashTableOwner K V o} (ht : t.walks = inner ++ x :: below)
    (hlevel : t.walks.length + 1 ≤ t.table.foreachRecursionLevel)
    (hfits : t.table.foreachRecursionLevel < 2 ^ 32)
    (hz : z.table.bucketArray = t.table.bucketArray) (d : Option Cursor) :
    Onward z (arrive m t d) below x := by
  cases d with
  | some d =>
    refine Onward.of_sameBehind ⟨d :: inner, ?_⟩ ?_
    · exact congrArg (d :: ·) ht
    · rw [hz]
      exact SameBehind.refl _ _
  | none =>
    obtain ⟨hut, hwalks, -, -⟩ := arrive_none m t
    have hlength : 0 < t.walks.length := by
      rw [ht, length_append, length_cons]
      omega
    refine Onward.of_sameBehind ⟨inner, hwalks.trans ht⟩ ?_
    rw [hut, hz, endForeach_bucketArray (by omega)]
    exact SameBehind.refl _ _

/-- **Step lemma.**  Whatever is called, a walk stays where it is or goes on, and it does go on
when its own callback returns. -/
theorem call_onward (h : Owned m z) (hc : Careful z c) (hu : call m f z c = some u)
    (hwalks : z.walks = inner ++ x :: below) (hrunning : below.length < u.walks.length) :
    Onward z u below x ∧ (inner = [] → (∃ goOn, c = .callbackReturns goOn) →
      ∃ x', u.walks = x' :: below ∧
        position u.table.bucketArray x' < position z.table.bucketArray x) := by
  have hmem : x ∈ z.walks := by
    rw [hwalks]
    exact mem_append_right _ mem_cons_self
  have hne : z.walks ≠ [] := ne_nil_of_mem hmem
  have hlevel := h.walking.level_ne_zero hne
  have hpos := h.walking.sound.1.placed.pos
  have hbuckets := h.nodup_addresses
  cases c with
  | insert key value allocated =>
    refine ⟨?_, by rintro - ⟨_, ⟨⟩⟩⟩
    obtain rfl := some.inj hu
    have haddress := Nat.ne_of_lt (h.address_lt hmem)
    rw [insert.eq_def]
    split
    next key value =>
      split
      · exact Onward.of_sameBehind ⟨inner, hwalks⟩
          (insert_sameBehind f hlevel hpos haddress _ _)
      · split
        · exact Onward.of_sameBehind ⟨inner, hwalks⟩
            (insert_sameBehind f hlevel hpos haddress _ _)
        · exact Onward.of_sameBehind ⟨inner, hwalks⟩ (SameBehind.refl _ _)
    next => exact Onward.of_sameBehind ⟨inner, hwalks⟩ (SameBehind.refl _ _)
  | remove key =>
    refine ⟨?_, by rintro - ⟨_, ⟨⟩⟩⟩
    obtain rfl := some.inj hu
    rw [remove.eq_def]
    dsimp only
    split
    · exact Onward.of_sameBehind ⟨inner, hwalks⟩ (remove_sameBehind f hlevel hpos _ _)
    · exact Onward.of_sameBehind ⟨inner, hwalks⟩ (remove_sameBehind f hlevel hpos _ _)
  | clear => exact (hc.elim hlevel (h.walking.pairs_ne_nil hne)).elim
  | «foreach» =>
    refine ⟨?_, by rintro - ⟨_, ⟨⟩⟩⟩
    have hforeach : «foreach» m z = u := some.inj hu
    have hup : (z.table.foreachRecursionLevel + 1) % 2 ^ 32 =
        z.table.foreachRecursionLevel + 1 := Nat.mod_eq_of_lt hc
    rw [«foreach», hup] at hforeach
    subst hforeach
    exact arrive_onward (t := { z with
      table := { z.table with foreachRecursionLevel := z.table.foreachRecursionLevel + 1 } })
      hwalks (Nat.succ_le_succ h.walking.levelled.1) hc rfl _
  | callbackReturns goOn =>
    have hreturn : callbackReturns m z goOn = some u := hu
    rw [callbackReturns, hwalks] at hreturn
    cases inner with
    | nil =>
      dsimp only [nil_append] at hreturn
      split at hreturn
      · obtain ⟨next, hnext, rfl⟩ := map_eq_some_iff.1 hreturn
        cases next with
        | none =>
          rw [(arrive_none m _).2.1] at hrunning
          exact absurd hrunning (Nat.lt_irrefl _)
        | some d =>
          have hnear := position_nextPair hbuckets hnext
          exact ⟨⟨[], d, rfl, le_of_lt hnear⟩, fun _ _ => ⟨d, rfl, hnear⟩⟩
      · obtain rfl := some.inj hreturn
        exact absurd hrunning (Nat.lt_irrefl _)
    | cons y inner =>
      refine ⟨?_, by rintro ⟨⟩⟩
      have hlength := h.walking.levelled.1
      rw [hwalks, cons_append, length_cons] at hlength
      dsimp only [cons_append] at hreturn
      split at hreturn
      · obtain ⟨next, -, rfl⟩ := map_eq_some_iff.1 hreturn
        exact arrive_onward (t := { z with walks := inner ++ x :: below }) rfl hlength
          h.walking.levelled.2 rfl next
      · obtain rfl := some.inj hreturn
        exact Onward.of_sameBehind ⟨inner, rfl⟩ (SameBehind.refl _ _)

/-! ## Runs -/

theorem owned_of_run {σ : ℕ → HashTableOwner K V o} {calls : ℕ → HashTableOwnerCall K V}
    (hstart : σ 0 = start) (hstep : ∀ n, call m f (σ n) (calls n) = some (σ (n + 1)))
    (hcareful : ∀ n, Careful (σ n) (calls n)) (n : ℕ) : Owned m (σ n) := by
  induction n with
  | zero =>
    rw [hstart]
    exact owned_start m
  | succ n ih => exact ih.call (hcareful n) (hstep n)

theorem exists_split {l : List Cursor} {depth : ℕ} (h : depth < l.length) :
    ∃ inner x below, below.length = depth ∧ l = inner ++ x :: below := by
  induction l with
  | nil => exact absurd h (Nat.not_lt_zero depth)
  | cons y l ih =>
    rcases Nat.lt_succ_iff_lt_or_eq.1 h with hlt | heq
    · obtain ⟨inner, x, below, hlength, hsplit⟩ := ih hlt
      exact ⟨y :: inner, x, below, hlength, congrArg (y :: ·) hsplit⟩
    · exact ⟨[], y, l, heq.symm, rfl⟩

/-- **Every `HashTable_Foreach` ends**, whatever its callbacks insert and remove, when they
return: a walk that is under way for ever, with `depth` other ones around it, has a callback that
does not return. -/
theorem foreach_ends {σ : ℕ → HashTableOwner K V o} {calls : ℕ → HashTableOwnerCall K V}
    (hstart : σ 0 = start) (hstep : ∀ n, call m f (σ n) (calls n) = some (σ (n + 1)))
    (hcareful : ∀ n, Careful (σ n) (calls n)) {since depth : ℕ}
    (hrunning : ∀ n ≥ since, depth < (σ n).walks.length) :
    ∃ last, ∀ n ≥ last, (σ n).walks.length = depth + 1 →
      ¬ ∃ goOn, calls n = .callbackReturns goOn := by
  have howned := owned_of_run hstart hstep hcareful
  obtain ⟨inner, x, below, hdepth, hsince⟩ := exists_split (hrunning since (Nat.le_refl since))
  have hlonger : ∀ n, below.length < (σ (since + n + 1)).walks.length := by
    intro n
    rw [hdepth]
    exact hrunning _ (by omega)
  -- the walks around it are the same all the time
  have hat : ∀ n, ∃ inner x, (σ (since + n)).walks = inner ++ x :: below := by
    intro n
    induction n with
    | zero => exact ⟨inner, x, hsince⟩
    | succ n ih =>
      obtain ⟨inner, x, hwalks⟩ := ih
      obtain ⟨inner', x', hnext, -⟩ :=
        (call_onward (howned _) (hcareful _) (hstep _) hwalks (hlonger n)).1
      exact ⟨inner', x', hnext⟩
  choose inner x hwalks using hat
  have hsame : ∀ n inner' x', (σ (since + n + 1)).walks = inner' ++ x' :: below →
      x' = x (n + 1) := by
    intro n inner' x' hnext
    have heq := (hwalks (n + 1)).symm.trans hnext
    exact (List.cons.inj (append_inj' heq rfl).2).1.symm
  obtain ⟨last, hlast⟩ := exists_forall_not
    (fun n => position (σ (since + n)).table.bucketArray (x n))
    (fun n => (σ (since + n)).walks.length = depth + 1 ∧
      ∃ goOn, calls (since + n) = .callbackReturns goOn)
    (by
      intro n
      obtain ⟨inner', x', hnext, hle⟩ :=
        (call_onward (howned _) (hcareful _) (hstep _) (hwalks n) (hlonger n)).1
      rw [hsame n inner' x' hnext] at hle
      exact hle)
    (by
      rintro n ⟨hlength, hreturn⟩
      have hnil : inner n = [] := by
        rw [hwalks n, length_append, length_cons, hdepth] at hlength
        exact eq_nil_of_length_eq_zero (by omega)
      obtain ⟨x', hnext, hlt⟩ :=
        (call_onward (howned _) (hcareful _) (hstep _) (hwalks n) (hlonger n)).2 hnil hreturn
      rw [hsame n [] x' hnext] at hlt
      exact hlt)
  refine ⟨since + last, fun n hn hlength hreturn => ?_⟩
  obtain ⟨k, rfl⟩ := Nat.exists_eq_add_of_le hn
  rw [Nat.add_assoc] at hlength hreturn
  exact hlast (last + k) (Nat.le_add_right _ _) ⟨hlength, hreturn⟩

/-! ## Main result -/

/-- Nothing is freed twice, and when no walk is under way, all that belongs to entries that were
removed or cleared was freed. -/
structure Released (z : HashTableOwner K V o) : Prop where
  freed_nodup : (freed z.log.events).Nodup
  removed_freed : z.walks = [] → ∀ r ∈ z.removed, r ∈ freed z.log.events

/-- Careful calls end; a callback returns if there is one. -/
def Ends (m : Methods) (f : LoadFactors) (z : HashTableOwner K V o) : Prop :=
  ∀ c, Careful z c → (z.walks = [] → ∀ goOn, c ≠ .callbackReturns goOn) →
    (call m f z c).isSome = true

theorem Owned.released (h : Owned m z) : Released z := by
  refine ⟨h.kept.holds.freed_nodup, fun hnone r hr => ?_⟩
  rcases h.kept.removed r hr with hdone | ⟨p, hp, hmark, -⟩
  · exact hdone
  · exact absurd hnone (h.tidy p hp hmark).2

theorem Owned.ends (h : Owned m z) : Ends m f z := by
  intro c hc hreturn
  cases c with
  | insert key value allocated => rfl
  | remove key => rfl
  | clear =>
    obtain ⟨t, ht, -⟩ := clear_ends (o := objectKey o) hc
    rw [HashTableOwner.call, HashTableOwner.clear, ht]
    rfl
  | «foreach» => rfl
  | callbackReturns goOn =>
    rw [HashTableOwner.call, callbackReturns]
    split
    next hnone => exact absurd rfl (hreturn hnone goOn)
    next walk walks hwalks =>
      split
      · rw [isSome_map]
        exact nextPair_isSome (h.walking.atPairs walk (hwalks ▸ mem_cons_self))
      · rfl

/-- **In runs of careful calls** every call ends, nothing is freed twice, and what was removed or
cleared is freed when the last walk is over; and every `HashTable_Foreach` ends, when its
callbacks return. -/
theorem everyCall_released (m : Methods) (f : LoadFactors) (o : KeyObject K) :
    (∀ calls : List (HashTableOwnerCall K V),
      EveryStep (call m f) (fun z c _ => Careful z c) (start : HashTableOwner K V o) calls →
      EveryState (call m f) (fun z => Released z ∧ Ends m f z) (start : HashTableOwner K V o)
        calls) ∧
    ∀ (σ : ℕ → HashTableOwner K V o) (calls : ℕ → HashTableOwnerCall K V), σ 0 = start →
      (∀ n, call m f (σ n) (calls n) = some (σ (n + 1))) → (∀ n, Careful (σ n) (calls n)) →
      ∀ since depth, (∀ n ≥ since, depth < (σ n).walks.length) →
      ∃ last, ∀ n ≥ last, (σ n).walks.length = depth + 1 →
        ¬ ∃ goOn, calls n = .callbackReturns goOn := by
  constructor
  · intro calls hcareful
    refine everyState_of_everyStep (I := Owned m) ?_ ?_ (owned_start m) hcareful
    · intro z c u hz hu hc
      exact hz.call hc hu
    · intro z hz
      exact ⟨hz.released, hz.ends⟩
  · intro σ calls hstart hstep hcareful since depth hrunning
    exact foreach_ends hstart hstep hcareful hrunning

/-! ## Runs on a table of strings -/

/-- A table of strings, as `HashTable_SetupForStringData` makes it: both objects are cloned, and
freed. -/
def cloned : Methods := fun _ => ⟨true, true⟩

/-- Nothing is rehashed. -/
def even : LoadFactors := ⟨fun _ _ => false, fun _ _ => false, id⟩

/-- The key and the value of the calls. -/
def keyName : Object (List UInt8) := ⟨.user 1, [0x6B]⟩

/-- A value. -/
def valueName : Object (List UInt8) := ⟨.user 2, [0x76]⟩

/-- A callback that removes its entry and goes on. -/
def tidyCalls : List (HashTableOwnerCall (List UInt8) (List UInt8)) :=
  [.insert (some keyName) (some valueName) true, .foreach, .remove (some keyName),
    .callbackReturns true]

/-- What belonged to the entry is freed with the end of the walk. -/
theorem everyCall_released_tidy :
    ∃ z : HashTableOwner (List UInt8) (List UInt8) KeyObject.string,
      run (call cloned even) start tidyCalls = some z ∧ z.walks = [] ∧
        z.removed = [.object .key 0, .object .value 1, .pair 0] ∧ Released z := by
  have hcareful : EveryStep (call cloned even) (fun z c _ => Careful z c)
      (start : HashTableOwner (List UInt8) (List UInt8) KeyObject.string) tidyCalls := by
    refine EveryStep.cons rfl trivial (EveryStep.cons rfl ?_ (EveryStep.cons rfl ?_
      (EveryStep.cons rfl nofun trivial)))
    · show _ + 1 < 2 ^ 32
      decide
    · exact fun _ _ => ⟨by decide, fun _ => by decide⟩
  have hreleased := (everyCall_released cloned even KeyObject.string).1 tidyCalls hcareful
  exact ⟨_, rfl, by decide, by decide, (hreleased.last rfl).1⟩

/-- A callback that clears the table, and one that removes its key and ends the walk. -/
theorem exists_unreleased :
    (∃ z : HashTableOwner (List UInt8) (List UInt8) KeyObject.string,
      run (call cloned even) start [.insert (some keyName) (some valueName) true, .foreach] =
        some z ∧ ∀ fuel, HashTable.clear (objectKey KeyObject.string) fuel z.table = none) ∧
    ∃ z : HashTableOwner (List UInt8) (List UInt8) KeyObject.string,
      run (call cloned even) start [.insert (some keyName) (some valueName) true, .foreach,
        .remove (some keyName), .callbackReturns false] = some z ∧ z.walks = [] ∧
        z.removed = [.object .key 0, .object .value 1, .pair 0] ∧ freed z.log.events = [] := by
  constructor
  · exact ⟨_, rfl, clear_stuck (by decide) (by decide)⟩
  · exact ⟨_, rfl, by decide, by decide, by decide⟩

end HashTableOwner
