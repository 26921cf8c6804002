/-
# Calls of a hash table, in callbacks and outside of them

The state has a table, the walks of `HashTable_Foreach` that are under way, and the map that the
table stands for; the steps are the calls, made by callbacks or not, and the returns of callbacks.

`everyAnswer_iff` says in which runs the table answers as the map does: in those that never
remove a key whose pair has the mark.
-/
import XyDeskRemote.HashTable
import XyDeskRemote.LabelledRun

open LabelledRun Chains List Option

/-! ## Calls, in callbacks and outside of them -/

/-- A table, the walks that are under way, the innermost first, and the map the table stands
for. -/
structure HashTableUse (K V : Type) (o : KeyObject K) where
  table : HashTable K V
  walks : List HashTable.Cursor := []
  map : o.Key → Option (Option V)

/-- A call of the user.  Looking something up changes nothing. -/
inductive HashTableCall (K V : Type) where
  | insert (key : Option K) (value : Option V)
  | remove (key : Option K)
  | setItemValue (key : Option K) (value : Option V)
  /-- `HashTable_Foreach`; the calls up to the return of its callback are those of the
  callback -/
  | foreach
  /-- the callback returns `goOn` -/
  | callbackReturns (goOn : Bool)

namespace HashTableUse

open HashTable

variable {K V : Type} {o : KeyObject K} {f : LoadFactors} {z u : HashTableUse K V o}

/-- A table is new, and the map is empty. -/
def start : HashTableUse K V o where
  table := HashTable.new
  map := fun _ => none

/-- What a call does to the map. -/
def mapAfter (m : o.Key → Option (Option V)) : HashTableCall K V → o.Key → Option (Option V)
  | .insert (some key) (some value) => Function.update m (o.keyOf key) (some (some value))
  | .remove (some key) => Function.update m (o.keyOf key) none
  | .setItemValue (some key) value =>
    if (m (o.keyOf key)).isSome then Function.update m (o.keyOf key) (some value) else m
  | _ => m

/-- A walk comes to a pair, where the callback is called, or to its end. -/
def arrive (z : HashTableUse K V o) : Option Cursor → HashTableUse K V o
  | some c => { z with walks := c :: z.walks }
  | none => { z with table := endForeach z.table }

/-- A call.  There is no memory for `2 ^ 64` pairs. -/
def call (o : KeyObject K) (f : LoadFactors) (z : HashTableUse K V o) (c : HashTableCall K V) :
    Option (HashTableUse K V o) :=
  match c with
  | .insert key value =>
    if z.table.pairs.length + 1 < 2 ^ 64 then
      some { z with table := (insert o f z.table key value).1, map := mapAfter z.map c }
    else none
  | .remove key =>
    some { z with table := (remove o f z.table key).1, map := mapAfter z.map c }
  | .setItemValue key value =>
    some { z with table := (setItemValue o z.table key value).1, map := mapAfter z.map c }
  | .foreach =>
    let level := (z.table.foreachRecursionLevel + 1) % 2 ^ 32
    some (arrive { z with table := { z.table with foreachRecursionLevel := level } }
      (firstPair z.table.bucketArray 0))
  | .callbackReturns goOn =>
    match z.walks with
    | [] => none
    | walk :: walks =>
      -- the level does not go down when the callback ends the walk
      if goOn then (nextPair z.table walk).map (arrive { z with walks })
      else some { z with walks }

/-- The table is in order and stands for the map, but for its counter. -/
def Sound (z : HashTableUse K V o) : Prop :=
  WellFormed o z.table ∧ Represents o z.table.pairs z.map

/-- The counter is right. -/
def Counted (z : HashTableUse K V o) : Prop := z.table.numOfElements = live z.table.pairs

/-- No pair is removed that has the mark already. -/
def RemovesUnmarked (z : HashTableUse K V o) (c : HashTableCall K V)
    (_ : HashTableUse K V o) : Prop :=
  match c with
  | .remove key => ∀ pair, get o z.table key = some pair → pair.markedForRemove = false
  | _ => True

theorem sound_start : Sound (start : HashTableUse K V o) := by
  have hnone : (start : HashTableUse K V o).table.pairs = [] := flatten_replicate_nil
  refine ⟨⟨placed_replicate (by decide), ?_⟩, ?_⟩
  · rw [hnone]
    exact List.Pairwise.nil
  · rw [hnone]
    intro k v
    constructor
    · intro hv
      cases hv
    · rintro ⟨p, hp, -⟩
      cases hp

theorem counted_start : Counted (start : HashTableUse K V o) := by
  have hnone : (start : HashTableUse K V o).table.pairs = [] := flatten_replicate_nil
  rw [Counted, hnone]
  rfl

theorem countDown_ne (n : ℕ) : countDown n ≠ n := by
  rw [countDown]
  split <;> omega

/-- A call that leaves the counter and the number of pairs without the mark. -/
theorem counted_iff_of_same {c : HashTableCall K V} (hz : Counted z)
    (hcount : u.table.numOfElements = z.table.numOfElements)
    (hlive : live u.table.pairs = live z.table.pairs) (hc : RemovesUnmarked z c u) :
    Counted u ↔ RemovesUnmarked z c u := by
  refine iff_of_true ?_ hc
  rw [Counted, hcount, hlive]
  exact hz

theorem arrive_facts {t : HashTable K V} (walks : List Cursor)
    {m : o.Key → Option (Option V)} (h : WellFormed o t) (hm : Represents o t.pairs m)
    (c : Option Cursor) :
    Sound (arrive ⟨t, walks, m⟩ c) ∧ (arrive ⟨t, walks, m⟩ c).table.numOfElements =
        t.numOfElements ∧
      live (arrive ⟨t, walks, m⟩ c).table.pairs = live t.pairs := by
  cases c with
  | some c => exact ⟨⟨h, hm⟩, rfl, rfl⟩
  | none =>
    obtain ⟨hwell, hrepresents, hsame⟩ := endForeach_facts h hm
    rw [arrive, Sound]
    dsimp only
    exact ⟨⟨hwell, hrepresents⟩, hsame⟩

/-- **Step lemma.**  A call keeps the table in order, and keeps the counter right exactly when
it does not remove a pair that has the mark. -/
theorem call_facts (h : Sound z) {c : HashTableCall K V} (hu : call o f z c = some u) :
    Sound u ∧ (Counted z → (Counted u ↔ RemovesUnmarked z c u)) := by
  obtain ⟨hwell, hmap⟩ := h
  cases c with
  | insert key value =>
    rw [call] at hu
    split at hu
    next hmemory =>
      obtain rfl := some.inj hu
      cases key with
      | none => exact ⟨⟨hwell, hmap⟩, fun hz => counted_iff_of_same hz rfl rfl trivial⟩
      | some key =>
        cases value with
        | none => exact ⟨⟨hwell, hmap⟩, fun hz => counted_iff_of_same hz rfl rfl trivial⟩
        | some value =>
          obtain ⟨hwell', hmap', hcount⟩ := insert_facts hwell hmap f key value rfl
          refine ⟨⟨hwell', hmap'⟩, fun hz => ?_⟩
          rcases hcount with ⟨hsame, hlive⟩ | ⟨hmore, hlive⟩
          · exact counted_iff_of_same hz hsame hlive trivial
          · refine iff_of_true ?_ trivial
            have hle := live_le_length z.table.pairs
            rw [Counted] at hz ⊢
            dsimp only
            rw [hmore, hlive, hz]
            exact Nat.mod_eq_of_lt (by omega)
    next => cases hu
  | remove key =>
    obtain rfl := some.inj hu
    cases key with
    | none =>
      exact ⟨⟨hwell, hmap⟩, fun hz => counted_iff_of_same hz rfl rfl fun _ h => nomatch h⟩
    | some key =>
      obtain ⟨hwell', hmap', hcount⟩ := remove_facts hwell hmap f key rfl
      refine ⟨⟨hwell', hmap'⟩, fun hz => ?_⟩
      rw [RemovesUnmarked]
      cases hget : get o z.table (some key) with
      | none =>
        rw [hget] at hcount
        refine iff_of_true ?_ fun _ h => nomatch h
        rw [Counted]
        dsimp only
        rw [hcount.1, hcount.2]
        exact hz
      | some p =>
        rw [hget] at hcount
        obtain ⟨hdown, hlive⟩ := hcount
        rw [Counted] at hz ⊢
        dsimp only
        rw [hdown, hz]
        cases hmarked : p.markedForRemove with
        | true =>
          rw [hmarked, if_pos rfl, Nat.add_zero] at hlive
          rw [hlive]
          refine iff_of_false (countDown_ne _) fun hall => ?_
          rw [hall p rfl] at hmarked
          cases hmarked
        | false =>
          rw [hmarked, if_neg Bool.false_ne_true] at hlive
          refine iff_of_true ?_ fun q hq => some.inj hq ▸ hmarked
          rw [countDown, ← hlive, if_neg (Nat.succ_ne_zero _)]
          exact Nat.add_sub_cancel _ 1
  | setItemValue key value =>
    obtain rfl := some.inj hu
    cases key with
    | none => exact ⟨⟨hwell, hmap⟩, fun hz => counted_iff_of_same hz rfl rfl trivial⟩
    | some key =>
      obtain ⟨hwell', hmap', hcount, hlive⟩ := setItemValue_facts hwell hmap key value rfl
      exact ⟨⟨hwell', hmap'⟩, fun hz => counted_iff_of_same hz hcount hlive trivial⟩
  | «foreach» =>
    obtain rfl := some.inj hu
    obtain ⟨hsound, hcount, hlive⟩ := arrive_facts z.walks
      (t := { z.table with
        foreachRecursionLevel := (z.table.foreachRecursionLevel + 1) % 2 ^ 32 })
      ⟨hwell.placed, hwell.distinct⟩ hmap (firstPair z.table.bucketArray 0)
    exact ⟨hsound, fun hz => counted_iff_of_same hz hcount hlive trivial⟩
  | callbackReturns goOn =>
    rw [call] at hu
    split at hu
    · cases hu
    next walk walks hwalks =>
      split at hu
      · obtain ⟨next, -, rfl⟩ := map_eq_some_iff.1 hu
        obtain ⟨hsound, hcount, hlive⟩ := arrive_facts walks hwell hmap next
        exact ⟨hsound, fun hz => counted_iff_of_same hz hcount hlive trivial⟩
      · obtain rfl := some.inj hu
        exact ⟨⟨hwell, hmap⟩, fun hz => counted_iff_of_same hz rfl rfl trivial⟩

/-! ## The pairs that the walks are at -/

/-- The pair of a walk is in its bucket. -/
def AtPair (t : HashTable K V) (c : Cursor) : Prop :=
  ∃ p ∈ t.bucketArray.getD c.index [], p.address = c.address

/-- No walk is at a pair that was freed. -/
def WalksAtPairs (z : HashTableUse K V o) : Prop := ∀ c ∈ z.walks, AtPair z.table c

/-- The level counts the walks, also some that ended. -/
def Levelled (z : HashTableUse K V o) : Prop :=
  z.walks.length ≤ z.table.foreachRecursionLevel ∧ z.table.foreachRecursionLevel < 2 ^ 32

/-- The level does not overflow. -/
def LevelFits (z : HashTableUse K V o) (c : HashTableCall K V) (_ : HashTableUse K V o) : Prop :=
  match c with
  | .foreach => z.table.foreachRecursionLevel + 1 < 2 ^ 32
  | _ => True

theorem AtPair.modifyChain {t v : HashTable K V} {c : Cursor} (h : AtPair t c) {n : ℕ}
    {g : List (KeyValuePair K V) → List (KeyValuePair K V)}
    (hpos : 0 < t.bucketArray.length)
    (hg : ∀ bucket, ∀ p ∈ bucket, ∃ q ∈ g bucket, q.address = p.address)
    (hv : v.bucketArray = modifyChain t.bucketArray n g) : AtPair v c := by
  obtain ⟨p, hp, haddress⟩ := h
  rw [AtPair, hv, Chains.modifyChain, getD_modify g (Nat.mod_lt n hpos)]
  split
  next hindex =>
    obtain ⟨q, hq, hsame⟩ := hg _ p (hindex ▸ hp)
    exact ⟨q, hq, hsame.trans haddress⟩
  next => exact ⟨p, hp, haddress⟩

theorem exists_mem_updateFirst {q : KeyValuePair K V → Bool}
    {g : KeyValuePair K V → KeyValuePair K V} (hg : ∀ p, (g p).address = p.address)
    (bucket : List (KeyValuePair K V)) :
    ∀ p ∈ bucket, ∃ r ∈ updateFirst q g bucket, r.address = p.address := by
  induction bucket with
  | nil => exact fun p hp => nomatch hp
  | cons b bucket ih =>
    intro p hp
    rw [updateFirst]
    split
    · rcases mem_cons.1 hp with rfl | hp
      · exact ⟨g p, mem_cons_self, hg p⟩
      · exact ⟨p, mem_cons_of_mem _ hp, rfl⟩
    · rcases mem_cons.1 hp with rfl | hp
      · exact ⟨p, mem_cons_self, rfl⟩
      · obtain ⟨r, hr, hsame⟩ := ih p hp
        exact ⟨r, mem_cons_of_mem b hr, hsame⟩

theorem AtPair.updatePair {t v : HashTable K V} {c : Cursor} (h : AtPair t c)
    (hpos : 0 < t.bucketArray.length) {key : K}
    {g : KeyValuePair K V → KeyValuePair K V} (hv : v.bucketArray = updatePair o t key g)
    (hg : ∀ p, (g p).address = p.address) : AtPair v c :=
  h.modifyChain hpos (exists_mem_updateFirst hg) hv

theorem firstPair_facts {buckets : List (List (KeyValuePair K V))} {index : ℕ} {c : Cursor}
    (h : firstPair buckets index = some c) :
    ∃ j, c.index = index + j ∧ ∃ p ∈ buckets.getD j [], p.address = c.address := by
  induction buckets generalizing index with
  | nil => cases h
  | cons bucket buckets ih =>
    rw [firstPair] at h
    split at h
    next p hp =>
      obtain rfl := some.inj h
      exact ⟨0, rfl, p, mem_of_find?_eq_some hp, rfl⟩
    next =>
      obtain ⟨j, hindex, hpair⟩ := ih h
      exact ⟨j + 1, by omega, hpair⟩

theorem nextPair_facts {t : HashTable K V} {c d : Cursor}
    (h : nextPair t c = some (some d)) : AtPair t d := by
  rw [nextPair] at h
  split at h
  · obtain ⟨j, hindex, p, hp, haddress⟩ := firstPair_facts (some.inj h)
    refine ⟨p, ?_, haddress⟩
    cases j with
    | zero =>
      rw [getD_cons_zero] at hp
      rw [hindex]
      exact (dropWhile_sublist _).mem (mem_of_mem_tail hp)
    | succ j =>
      rw [getD_cons_succ, getD_eq_getElem?_getD, getElem?_drop] at hp
      rwa [hindex, getD_eq_getElem?_getD, Nat.add_comm j 1, ← Nat.add_assoc]
  · cases h

/-- While a walk is under way, the calls of the callback leave the pairs where they are. -/
theorem calls_atPair {t : HashTable K V} {c : Cursor} (h : AtPair t c)
    (hlevel : t.foreachRecursionLevel ≠ 0) (hpos : 0 < t.bucketArray.length) :
    (∀ key value, AtPair (insert o f t key value).1 c) ∧
      (∀ key, AtPair (remove o f t key).1 c) ∧
      ∀ key value, AtPair (setItemValue o t key value).1 c := by
  refine ⟨fun key value => ?_, fun key => ?_, fun key value => ?_⟩
  · rw [insert.eq_def]
    split
    · split
      · dsimp only
        split
        · exact h.updatePair hpos rfl fun _ => rfl
        · exact h.updatePair hpos rfl fun _ => rfl
      · dsimp only
        rw [if_neg fun hboth => hlevel hboth.1]
        exact h.modifyChain hpos (fun _ p hp => ⟨p, mem_cons_of_mem _ hp, rfl⟩) rfl
    · exact h
  · rw [remove.eq_def]
    split
    · exact h
    · split
      · exact h
      · rw [if_pos hlevel]
        exact h.updatePair hpos rfl fun _ => rfl
  · rw [setItemValue.eq_def]
    split
    · exact h
    · split
      · exact h
      · split
        · exact h
        · exact h.updatePair hpos rfl fun _ => rfl

theorem rehash_level (t : HashTable K V) :
    (HashTable.rehash o f t).foreachRecursionLevel = t.foreachRecursionLevel := by
  rw [HashTable.rehash]
  split
  · rfl
  · rfl

theorem calls_level (t : HashTable K V) :
    (∀ key value, (insert o f t key value).1.foreachRecursionLevel = t.foreachRecursionLevel) ∧
      (∀ key, (remove o f t key).1.foreachRecursionLevel = t.foreachRecursionLevel) ∧
      ∀ key value, (setItemValue o t key value).1.foreachRecursionLevel =
        t.foreachRecursionLevel := by
  refine ⟨fun key value => ?_, fun key => ?_, fun key value => ?_⟩
  · rw [insert.eq_def]
    split
    · split
      · dsimp only
        split
        · rfl
        · rfl
      · dsimp only
        split
        · rw [rehash_level]
        · rfl
    · rfl
  · rw [remove.eq_def]
    split
    · rfl
    · split
      · rfl
      · split
        · rfl
        · dsimp only
          split
          · rw [rehash_level]
          · rfl
  · rw [setItemValue.eq_def]
    split
    · rfl
    · split
      · rfl
      · split
        · rfl
        · rfl

/-- The last walk to end finds no other under way. -/
theorem arrive_atPairs (hwalks : WalksAtPairs z)
    (hlevel : z.walks.length + 1 ≤ z.table.foreachRecursionLevel)
    (hfits : z.table.foreachRecursionLevel < 2 ^ 32) {c : Option Cursor}
    (hc : ∀ d, c = some d → AtPair z.table d) :
    Levelled (arrive z c) ∧ WalksAtPairs (arrive z c) := by
  cases c with
  | some d =>
    refine ⟨⟨hlevel, hfits⟩, fun e he => ?_⟩
    rcases mem_cons.1 he with rfl | he
    · exact hc e rfl
    · exact hwalks e he
  | none =>
    have hdown : (z.table.foreachRecursionLevel + 2 ^ 32 - 1) % 2 ^ 32 =
        z.table.foreachRecursionLevel - 1 := by omega
    rw [arrive, endForeach]
    dsimp only
    rw [hdown]
    split
    next hlast =>
      have hnone : z.walks = [] := eq_nil_of_length_eq_zero (by omega)
      refine ⟨⟨?_, ?_⟩, fun e he => ?_⟩
      · dsimp only
        omega
      · dsimp only
        omega
      · rw [hnone] at he
        cases he
    next =>
      refine ⟨⟨?_, ?_⟩, hwalks⟩
      · dsimp only
        omega
      · dsimp only
        omega

/-- **Step lemma** for the walks. -/
theorem call_atPairs (hsound : Sound z) (hlevel : Levelled z) (hwalks : WalksAtPairs z)
    {c : HashTableCall K V} (hu : call o f z c = some u) (hc : LevelFits z c u) :
    Levelled u ∧ WalksAtPairs u := by
  have hpos := hsound.1.placed.pos
  obtain ⟨hcount, hfits⟩ := hlevel
  have hwalking : ∀ d ∈ z.walks, z.table.foreachRecursionLevel ≠ 0 := by
    intro d hd
    have hlength := length_pos_of_mem hd
    omega
  obtain ⟨hinsert, hremove, hset⟩ := calls_level (o := o) (f := f) z.table
  cases c with
  | insert key value =>
    rw [call] at hu
    split at hu
    · obtain rfl := some.inj hu
      refine ⟨?_, fun d hd => (calls_atPair (hwalks d hd) (hwalking d hd) hpos).1 key value⟩
      rw [Levelled]
      dsimp only
      rw [hinsert]
      exact ⟨hcount, hfits⟩
    · cases hu
  | remove key =>
    obtain rfl := some.inj hu
    refine ⟨?_, fun d hd => (calls_atPair (hwalks d hd) (hwalking d hd) hpos).2.1 key⟩
    rw [Levelled]
    dsimp only
    rw [hremove]
    exact ⟨hcount, hfits⟩
  | setItemValue key value =>
    obtain rfl := some.inj hu
    refine ⟨?_, fun d hd =>
      (calls_atPair (f := f) (hwalks d hd) (hwalking d hd) hpos).2.2 key value⟩
    rw [Levelled]
    dsimp only
    rw [hset]
    exact ⟨hcount, hfits⟩
  | «foreach» =>
    have hup : (z.table.foreachRecursionLevel + 1) % 2 ^ 32 =
        z.table.foreachRecursionLevel + 1 := Nat.mod_eq_of_lt hc
    rw [call, hup] at hu
    obtain rfl := some.inj hu
    refine arrive_atPairs (z := { z with
      table := { z.table with foreachRecursionLevel := z.table.foreachRecursionLevel + 1 } })
      hwalks (Nat.succ_le_succ hcount) hc fun d hd => ?_
    obtain ⟨j, hindex, hpair⟩ := firstPair_facts hd
    rw [Nat.zero_add] at hindex
    rw [AtPair, hindex]
    exact hpair
  | callbackReturns goOn =>
    rw [call] at hu
    split at hu
    · cases hu
    next walk walks heq =>
      rw [heq, length_cons] at hcount
      have hothers : ∀ d ∈ walks, AtPair z.table d :=
        fun d hd => hwalks d (heq ▸ mem_cons_of_mem walk hd)
      split at hu
      · obtain ⟨next, hnext, rfl⟩ := map_eq_some_iff.1 hu
        refine arrive_atPairs (z := { z with walks }) hothers hcount hfits fun d hd => ?_
        rw [hd] at hnext
        exact nextPair_facts hnext
      · obtain rfl := some.inj hu
        exact ⟨⟨(Nat.le_succ _).trans hcount, hfits⟩, hothers⟩

/-! ## Main result -/

/-- **When the table answers as the map does**, at every moment of a run: exactly when no call
removes a pair that has the mark.  As long as the level does not overflow, no walk is at a pair
that was freed. -/
theorem everyAnswer_iff (calls : List (HashTableCall K V)) :
    (EveryState (call o f) (fun z => Answers o z.table z.map) start calls ↔
      EveryStep (call o f) RemovesUnmarked start calls) ∧
    (EveryStep (call o f) LevelFits start calls →
      EveryState (call o f) WalksAtPairs start calls) := by
  refine ⟨everyState_iff_everyStep (I := Sound) (fun s a t hs ht => (call_facts hs ht).1)
    (fun s a t hs hanswers ht => ?_) sound_start ?_ calls, ?_⟩
  · obtain ⟨hsound, hcounted⟩ := call_facts hs ht
    rw [answers_iff hs.1 hs.2] at hanswers
    rw [answers_iff hsound.1 hsound.2]
    exact hcounted hanswers
  · rw [answers_iff sound_start.1 sound_start.2]
    exact counted_start
  · refine everyState_of_everyStep (I := fun z => Sound z ∧ Levelled z ∧ WalksAtPairs z) ?_
      (fun z hz => hz.2.2)
      ⟨sound_start, ⟨Nat.le_refl 0, Nat.two_pow_pos 32⟩, fun c hc => nomatch hc⟩
    rintro s a t ⟨hsound, hlevel, hwalks⟩ ht hfits
    exact ⟨(call_facts hsound ht).1, call_atPairs hsound hlevel hwalks ht hfits⟩

/-- The calls of a walk over two keys whose callback removes the first of them twice. -/
def removeTwice : List (HashTableCall UInt64 ℕ) :=
  [.insert (some 16) (some 1), .insert (some 32) (some 2), .foreach, .remove (some 16),
    .remove (some 16)]

/-- The table has no keys then, but it has the second key. -/
theorem removeTwice_not_answers :
    ¬ EveryState (call KeyObject.pointer ⟨fun _ _ => false, fun _ _ => false, id⟩)
      (fun z => Answers KeyObject.pointer z.table z.map) start removeTwice := by
  intro hall
  obtain ⟨z, hz, hvalue, hkeys⟩ : ∃ z, run (call KeyObject.pointer
      ⟨fun _ _ => false, fun _ _ => false, id⟩) start removeTwice = some z ∧
      getItemValue KeyObject.pointer z.table (some 32) = some 2 ∧ getKeys z.table = some [] :=
    ⟨_, rfl, by decide, by decide⟩
  have hanswers := hall.last hz
  obtain ⟨keys, hsame, -, hmem⟩ := hanswers.getKeys_eq
  rw [hkeys] at hsame
  have hnone : keys = [] := map_eq_nil_iff.1 (some.inj hsame).symm
  have hmap := hanswers.getItemValue_eq (some 32)
  rw [hvalue, bind_some] at hmap
  have hmissing : z.map (KeyObject.pointer.keyOf 32) = none := by
    by_contra hpresent
    have hkey := (hmem _).2 hpresent
    rw [hnone] at hkey
    cases hkey
  rw [hmissing] at hmap
  cases hmap

end HashTableUse
