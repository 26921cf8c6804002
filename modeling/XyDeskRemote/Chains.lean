import Mathlib.Data.List.Perm.Basic
import Mathlib.Data.List.Flatten
/-
# Chains

A table of chains: an element stands in the chain of its hash modulo the number of chains
(`Placed`).  What the operations do is stated about the elements of all chains together, up to
their order:

* `Placed.found`: an element that is found in the chain of its hash can be replaced or erased;
* `Placed.not_found`: one that is not in its chain is nowhere;
* `rehash_perm` and `placed_rehash`: another number of chains.
-/

open List

namespace Chains

variable {α : Type*} {hash : α → ℕ} {chains : List (List α)} {p : α → Bool} {x : α} {i v : ℕ}

/-- The chain of a hash value. -/
def chain (chains : List (List α)) (v : ℕ) : List α := chains.getD (v % chains.length) []

/-- The chain of a hash value is changed. -/
def modifyChain (chains : List (List α)) (v : ℕ) (f : List α → List α) : List (List α) :=
  chains.modify (v % chains.length) f

/-- The first element that satisfies `p` is replaced. -/
def updateFirst (p : α → Bool) (f : α → α) : List α → List α
  | [] => []
  | x :: xs => if p x then f x :: xs else x :: updateFirst p f xs

/-- The elements are put one after the other at the front of `n` chains. -/
def rehash (hash : α → ℕ) (n : ℕ) (xs : List α) : List (List α) :=
  xs.foldl (fun chains x => chains.modify (hash x % n) (x :: ·)) (replicate n [])

/-- Each element stands in the chain of its hash. -/
structure Placed (hash : α → ℕ) (chains : List (List α)) : Prop where
  pos : 0 < chains.length
  slot_eq : ∀ i, ∀ x ∈ chains.getD i [], hash x % chains.length = i

/-! ## A single chain -/

theorem find_facts {l : List α} (h : l.find? p = some x) :
    p x = true ∧ ∃ rest, l.Perm (x :: rest) ∧ (∀ f, (updateFirst p f l).Perm (f x :: rest)) ∧
      (l.eraseP p).Perm rest := by
  induction l with
  | nil => cases h
  | cons y l ih =>
    by_cases hy : p y = true
    · rw [find?_cons_of_pos hy] at h
      obtain rfl := Option.some.inj h
      refine ⟨hy, l, List.Perm.refl _, fun f => ?_, ?_⟩
      · rw [updateFirst, if_pos hy]
      · rw [eraseP_cons_of_pos hy]
    · rw [find?_cons_of_neg hy] at h
      obtain ⟨hx, rest, hperm, hupdate, herase⟩ := ih h
      refine ⟨hx, y :: rest, (hperm.cons y).trans (List.Perm.swap x y rest), fun f => ?_, ?_⟩
      · rw [updateFirst, if_neg hy]
        exact ((hupdate f).cons y).trans (List.Perm.swap (f x) y rest)
      · rw [eraseP_cons_of_neg hy]
        exact herase.cons y

/-! ## All chains -/

/-- A chain, and the elements of the others. -/
theorem flatten_perm (hi : i < chains.length) :
    ∃ rest, chains.flatten.Perm (chains.getD i [] ++ rest) ∧
      ∀ f, (chains.modify i f).flatten.Perm (f (chains.getD i []) ++ rest) := by
  induction chains generalizing i with
  | nil => exact absurd hi (Nat.not_lt_zero i)
  | cons c chains ih =>
    cases i with
    | zero =>
      refine ⟨chains.flatten, List.Perm.refl _, fun f => ?_⟩
      rw [modify_zero_cons, flatten_cons, getD_cons_zero]
    | succ i =>
      obtain ⟨rest, hperm, hmodify⟩ := ih (Nat.lt_of_succ_lt_succ hi)
      refine ⟨c ++ rest, ?_, fun f => ?_⟩
      · rw [flatten_cons, getD_cons_succ]
        refine (hperm.append_left c).trans ?_
        rw [← append_assoc, ← append_assoc]
        exact perm_append_comm.append_right rest
      · rw [modify_succ_cons, flatten_cons, getD_cons_succ]
        refine ((hmodify f).append_left c).trans ?_
        rw [← append_assoc, ← append_assoc]
        exact perm_append_comm.append_right rest

theorem getD_modify (f : List α → List α) (hi : i < chains.length) (j : ℕ) :
    (chains.modify i f).getD j [] = if i = j then f (chains.getD i []) else chains.getD j [] := by
  rw [getD_eq_getElem?_getD, getElem?_modify, getD_eq_getElem?_getD]
  by_cases hij : i = j
  · subst hij
    simp [hi]
  · simp [hij]

theorem Placed.slot_lt (h : Placed hash chains) (v : ℕ) : v % chains.length < chains.length :=
  Nat.mod_lt v h.pos

/-- **An element is in the chain of its hash**, if it is in one. -/
theorem Placed.mem_chain (h : Placed hash chains) (hx : x ∈ chains.flatten) :
    x ∈ chain chains (hash x) := by
  obtain ⟨c, hc, hxc⟩ := mem_flatten.1 hx
  obtain ⟨j, hj, rfl⟩ := mem_iff_getElem.1 hc
  have hget : chains.getD j [] = chains[j] := by
    rw [getD_eq_getElem?_getD, getElem?_eq_getElem hj, Option.getD_some]
  rw [chain, h.slot_eq j x (hget ▸ hxc), hget]
  exact hxc

/-- Changed chains are placed when what they get belongs there. -/
theorem Placed.change (h : Placed hash chains) {f : List α → List α}
    (hf : ∀ x ∈ f (chain chains v), hash x % chains.length = v % chains.length) :
    Placed hash (modifyChain chains v f) := by
  have hlength : (chains.modify (v % chains.length) f).length = chains.length :=
    length_modify f chains _
  refine ⟨hlength.symm ▸ h.pos, fun j x hx => ?_⟩
  rw [modifyChain, getD_modify f (h.slot_lt v)] at hx
  rw [modifyChain, hlength]
  split at hx
  next hj => exact hj ▸ hf x hx
  next => exact h.slot_eq j x hx

/-- **An element that is found** can be replaced by one of the same hash, or erased. -/
theorem Placed.found (h : Placed hash chains) (hx : (chain chains v).find? p = some x) :
    p x = true ∧ ∃ rest, chains.flatten.Perm (x :: rest) ∧
      (∀ f, hash (f x) = v → (modifyChain chains v (updateFirst p f)).flatten.Perm (f x :: rest) ∧
        Placed hash (modifyChain chains v (updateFirst p f))) ∧
      (modifyChain chains v (eraseP p)).flatten.Perm rest ∧
      Placed hash (modifyChain chains v (eraseP p)) := by
  obtain ⟨hpx, more, hmore, hupdate, herase⟩ := find_facts hx
  obtain ⟨others, hothers, hmodify⟩ := flatten_perm (h.slot_lt v)
  have hchain : ∀ y ∈ chain chains v, hash y % chains.length = v % chains.length :=
    h.slot_eq _
  have hrest : ∀ y ∈ more, hash y % chains.length = v % chains.length :=
    fun y hy => hchain y (hmore.mem_iff.2 (mem_cons_of_mem x hy))
  refine ⟨hpx, more ++ others, hothers.trans (hmore.append_right others), fun f hf => ?_, ?_, ?_⟩
  · refine ⟨(hmodify _).trans ((hupdate f).append_right others), h.change fun y hy => ?_⟩
    rcases mem_cons.1 ((hupdate f).mem_iff.1 hy) with rfl | hy
    · rw [hf]
    · exact hrest y hy
  · exact (hmodify _).trans (herase.append_right others)
  · exact h.change fun y hy => hrest y (herase.mem_iff.1 hy)

/-- **An element that is not found** in its chain is in none. -/
theorem Placed.not_found (h : Placed hash chains) (hp : ∀ x, p x = true → hash x = v)
    (hnone : (chain chains v).find? p = none) (hx : x ∈ chains.flatten) : p x = false := by
  by_contra htrue
  have hpx : p x = true := by simpa using htrue
  have hmem := h.mem_chain hx
  rw [hp x hpx] at hmem
  exact find?_eq_none.1 hnone x hmem hpx

/-- A new element at the front of its chain. -/
theorem Placed.cons (h : Placed hash chains) (x : α) :
    (modifyChain chains (hash x) (x :: ·)).flatten.Perm (x :: chains.flatten) ∧
      Placed hash (modifyChain chains (hash x) (x :: ·)) := by
  obtain ⟨others, hothers, hmodify⟩ := flatten_perm (h.slot_lt (hash x))
  refine ⟨(hmodify _).trans (hothers.symm.cons x), h.change fun y hy => ?_⟩
  rcases mem_cons.1 hy with rfl | hy
  · rfl
  · exact h.slot_eq _ y hy

/-- Some elements are taken out of every chain. -/
theorem Placed.filter (h : Placed hash chains) (q : α → Bool) :
    Placed hash (chains.map (List.filter q)) := by
  have hlength : (chains.map (List.filter q)).length = chains.length := length_map _
  refine ⟨hlength.symm ▸ h.pos, fun i y hy => ?_⟩
  rw [hlength]
  refine h.slot_eq i y ?_
  rw [getD_eq_getElem?_getD] at hy ⊢
  rw [getElem?_map] at hy
  cases hc : chains[i]? with
  | none =>
    rw [hc] at hy
    cases hy
  | some c =>
    rw [hc] at hy
    exact mem_of_mem_filter hy

theorem flatten_map_filter (q : α → Bool) (chains : List (List α)) :
    (chains.map (List.filter q)).flatten = chains.flatten.filter q :=
  filter_flatten.symm

/-! ## Another number of chains -/

theorem placed_replicate {n : ℕ} (hn : 0 < n) : Placed hash (replicate n []) := by
  refine ⟨(length_replicate (n := n)).symm ▸ hn, fun i y hy => ?_⟩
  rw [getD_eq_getElem?_getD, getElem?_replicate] at hy
  split at hy
  · cases hy
  · cases hy

/-- The step of `rehash`, from any chains. -/
theorem foldl_facts (hash : α → ℕ) {n : ℕ} (xs : List α) (h : Placed hash chains)
    (hn : chains.length = n) :
    (xs.foldl (fun chains x => chains.modify (hash x % n) (x :: ·)) chains).flatten.Perm
        (xs ++ chains.flatten) ∧
      Placed hash (xs.foldl (fun chains x => chains.modify (hash x % n) (x :: ·)) chains) := by
  subst hn
  induction xs generalizing chains with
  | nil => exact ⟨List.Perm.refl _, h⟩
  | cons x xs ih =>
    obtain ⟨hperm, hplaced⟩ := h.cons x
    have hlength : (modifyChain chains (hash x) (x :: ·)).length = chains.length :=
      length_modify _ chains _
    obtain ⟨hall, hplaced'⟩ := ih hplaced
    rw [hlength] at hall hplaced'
    refine ⟨hall.trans ?_, hplaced'⟩
    exact (hperm.append_left xs).trans perm_middle

theorem rehash_perm (hash : α → ℕ) {n : ℕ} (hn : 0 < n) (xs : List α) :
    (rehash hash n xs).flatten.Perm xs := by
  have hperm := (foldl_facts hash xs (placed_replicate hn) length_replicate).1
  rwa [flatten_replicate_nil, append_nil] at hperm

theorem placed_rehash (hash : α → ℕ) {n : ℕ} (hn : 0 < n) (xs : List α) :
    Placed hash (rehash hash n xs) :=
  (foldl_facts hash xs (placed_replicate hn) length_replicate).2

end Chains
