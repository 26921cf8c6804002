import Mathlib.Data.List.Nodup
import Mathlib.Data.List.Perm.Subperm
/-
# A ledger of created, used and freed resources

Linear ownership, over any type of resources: a resource is created once, used
only while it is owned and the newest one, and freed once.  `Ledger es cs os` says
that the events `es` respect this, that `cs` are the resources created so far
(newest first) and that `os` are the ones still owned.

`Holds` is the same from the side of someone who holds some of the owned resources, and frees
and creates them in any order.
-/

open List

namespace OwnershipLedger

/-- What happens to a resource. -/
inductive OwnerEvent (R : Type*) where
  | create (r : R)
  | use (r : R)
  | free (r : R)

variable {R : Type*}

/-- The resource an event creates. -/
def OwnerEvent.created : OwnerEvent R → Option R
  | .create r => some r
  | _ => none

/-- The resource an event frees. -/
def OwnerEvent.freed : OwnerEvent R → Option R
  | .free r => some r
  | _ => none

/-- The resources created by a list of events, oldest first. -/
def created (es : List (OwnerEvent R)) : List R := es.filterMap OwnerEvent.created

/-- The resources freed by a list of events. -/
def freed (es : List (OwnerEvent R)) : List R := es.filterMap OwnerEvent.freed

@[simp] theorem created_append (es es' : List (OwnerEvent R)) :
    created (es ++ es') = created es ++ created es' :=
  filterMap_append

@[simp] theorem freed_append (es es' : List (OwnerEvent R)) :
    freed (es ++ es') = freed es ++ freed es' :=
  filterMap_append

@[simp] theorem created_create (r : R) : created [.create r] = [r] := rfl
@[simp] theorem created_use (r : R) : created [.use r] = [] := rfl
@[simp] theorem created_free (r : R) : created [OwnerEvent.free r] = [] := rfl
@[simp] theorem freed_create (r : R) : freed [OwnerEvent.create r] = [] := rfl
@[simp] theorem freed_use (r : R) : freed [OwnerEvent.use r] = [] := rfl
@[simp] theorem freed_free (r : R) : freed [OwnerEvent.free r] = [r] := rfl

theorem freed_map_free (rs : List R) : freed (rs.map OwnerEvent.free) = rs := by
  rw [freed, filterMap_map]
  exact filterMap_some

variable [DecidableEq R]

/-- The created resources that were not freed. -/
def unfreed (es : List (OwnerEvent R)) : List R :=
  (created es).filter fun r => r ∉ freed es

/-- The events respect linear ownership; `cs` were created, newest first, and `os`
are still owned. -/
inductive Ledger : List (OwnerEvent R) → List R → List R → Prop
  | empty : Ledger [] [] []
  | create {es cs os r} (h : Ledger es cs os) (hr : r ∉ cs) :
      Ledger (es ++ [.create r]) (r :: cs) (os ++ [r])
  | use {es cs os r} (h : Ledger es (r :: cs) os) (hr : r ∈ os) :
      Ledger (es ++ [.use r]) (r :: cs) os
  | free {es cs os r} (h : Ledger es cs os) (hr : r ∈ os) :
      Ledger (es ++ [.free r]) cs (os.erase r)

namespace Ledger

variable {es : List (OwnerEvent R)} {cs os : List R}

/-- The created resources are those of the events. -/
theorem created_eq (h : Ledger es cs os) : cs = (created es).reverse := by
  induction h with
  | empty => rfl
  | create h hr ih => simp [← ih]
  | use h hr ih => simpa using ih
  | free h hr ih => simpa using ih

/-- What is owned was created. -/
theorem owned_subset (h : Ledger es cs os) : os ⊆ cs := by
  induction h with
  | empty => exact List.Subset.refl []
  | create h hr ih =>
    intro r hmem
    rcases mem_append.1 hmem with hmem | hmem
    · exact mem_cons_of_mem _ (ih hmem)
    · exact mem_singleton.1 hmem ▸ mem_cons_self
  | use h hr ih => exact ih
  | free h hr ih => exact fun r hmem => ih (mem_of_mem_erase hmem)

/-- Nothing is created twice. -/
theorem created_nodup (h : Ledger es cs os) : cs.Nodup := by
  induction h with
  | empty => exact nodup_nil
  | create h hr ih => exact nodup_cons.2 ⟨hr, ih⟩
  | use h hr ih => exact ih
  | free h hr ih => exact ih

/-- Nothing is owned twice. -/
theorem owned_nodup (h : Ledger es cs os) : os.Nodup := by
  induction h with
  | empty => exact nodup_nil
  | create h hr ih =>
    refine nodup_append.2 ⟨ih, nodup_singleton _, ?_⟩
    rintro a ha b hb rfl
    rw [mem_singleton.1 hb] at ha
    exact hr (h.owned_subset ha)
  | use h hr ih => exact ih
  | free h hr ih => exact ih.erase _

/-- What was freed was created. -/
theorem freed_subset (h : Ledger es cs os) : freed es ⊆ cs := by
  induction h with
  | empty => exact List.Subset.refl []
  | create h hr ih =>
    rw [freed_append, freed_create, append_nil]
    exact fun r hmem => mem_cons_of_mem _ (ih hmem)
  | use h hr ih => simpa using ih
  | free h hr ih =>
    rw [freed_append, freed_free, append_subset]
    exact ⟨ih, cons_subset.2 ⟨h.owned_subset hr, nil_subset _⟩⟩

/-- A created resource is owned until it is freed. -/
theorem mem_owned_iff (h : Ledger es cs os) (r : R) : r ∈ os ↔ r ∈ cs ∧ r ∉ freed es := by
  induction h with
  | empty => simp
  | @create es cs os r' h hr ih =>
    rw [mem_append, mem_singleton, ih, freed_append, freed_create, append_nil, mem_cons]
    constructor
    · -- the new resource was not freed before, since only created ones are
      rintro (⟨hcs, hfr⟩ | rfl)
      · exact ⟨Or.inr hcs, hfr⟩
      · exact ⟨Or.inl rfl, fun hfr => hr (h.freed_subset hfr)⟩
    · rintro ⟨rfl | hcs, hfr⟩
      · exact Or.inr rfl
      · exact Or.inl ⟨hcs, hfr⟩
  | use h hr ih => simpa using ih
  | @free es cs os r' h hr ih =>
    -- it is owned once, so after the erase it is not owned at all
    rw [h.owned_nodup.mem_erase_iff, ih, freed_append, freed_free, mem_append, mem_singleton]
    tauto

/-- **Nothing is freed twice.** -/
theorem freed_nodup (h : Ledger es cs os) : (freed es).Nodup := by
  induction h with
  | empty => exact nodup_nil
  | create h hr ih => simpa using ih
  | use h hr ih => simpa using ih
  | free h hr ih =>
    rw [freed_append, freed_free]
    refine nodup_append.2 ⟨ih, nodup_singleton _, ?_⟩
    rintro a ha b hb rfl
    rw [mem_singleton.1 hb] at ha
    exact ((h.mem_owned_iff _).1 hr).2 ha

/-- An event of a list that grew at its end is the new one, or was there before. -/
theorem eq_of_concat {α : Type*} {l pre post : List α} {a b : α}
    (h : l ++ [a] = pre ++ b :: post) :
    (post = [] ∧ a = b ∧ l = pre) ∨ ∃ post', l = pre ++ b :: post' := by
  rcases eq_nil_or_concat post with rfl | ⟨post', c, rfl⟩
  · obtain ⟨hl, hab⟩ := append_inj' h rfl
    exact Or.inl ⟨rfl, singleton_inj.1 hab, hl⟩
  · right
    refine ⟨post', ?_⟩
    rw [concat_eq_append, ← cons_append, ← append_assoc] at h
    exact (append_inj' h rfl).1

/-- **No use after the free, and none of an older resource.**  Where a use stands,
its resource is the newest one and was not freed. -/
theorem use_spec (h : Ledger es cs os) {pre post : List (OwnerEvent R)} {r : R}
    (hes : es = pre ++ .use r :: post) :
    (created pre).getLast? = some r ∧ r ∉ freed pre := by
  -- the induction is on the ledger, from its last event: the use is it, or comes before it
  induction h generalizing post with
  | empty => simp at hes
  | create h hr ih =>
    rcases eq_of_concat hes with ⟨-, he, -⟩ | ⟨post', h'⟩
    · exact nomatch he
    · exact ih h'
  | use h hr ih =>
    rcases eq_of_concat hes with ⟨-, he, rfl⟩ | ⟨post', h'⟩
    · obtain rfl : _ = r := OwnerEvent.use.inj he
      refine ⟨?_, ((h.mem_owned_iff _).1 hr).2⟩
      have hcs := congrArg reverse h.created_eq
      rw [reverse_reverse, reverse_cons] at hcs
      rw [← hcs, getLast?_concat]
    · exact ih h'
  | free h hr ih =>
    rcases eq_of_concat hes with ⟨-, he, -⟩ | ⟨post', h'⟩
    · exact nomatch he
    · exact ih h'

/-- **What was created and not freed is what is owned.** -/
theorem unfreed_length_le (h : Ledger es cs os) : (unfreed es).length ≤ os.length := by
  have hcreated : (created es).Nodup := by
    have hnd := h.created_nodup
    rwa [h.created_eq, nodup_reverse] at hnd
  refine ((hcreated.filter _).subperm fun r hr => ?_).length_le
  obtain ⟨hmem, hfr⟩ := mem_filter.1 hr
  rw [h.mem_owned_iff, h.created_eq, mem_reverse]
  exact ⟨hmem, of_decide_eq_true hfr⟩

end Ledger

/-! ## What is held -/

/-- The resources `held` are owned, each once; all that were created are in `used`. -/
def Holds (es : List (OwnerEvent R)) (used : R → Prop) (held : List R) : Prop :=
  ∃ cs os, Ledger es cs os ∧ held.Nodup ∧ held ⊆ os ∧ ∀ r ∈ cs, used r

namespace Holds

variable {es : List (OwnerEvent R)} {used used' : R → Prop} {held held' rs : List R} {r : R}

theorem empty (used : R → Prop) : Holds ([] : List (OwnerEvent R)) used [] :=
  ⟨[], [], .empty, nodup_nil, List.Subset.refl [], fun _ hr => nomatch hr⟩

theorem nodup (h : Holds es used held) : held.Nodup := by
  obtain ⟨cs, os, -, hnodup, -⟩ := h
  exact hnodup

theorem freed_nodup (h : Holds es used held) : (freed es).Nodup := by
  obtain ⟨cs, os, hledger, -⟩ := h
  exact hledger.freed_nodup

theorem used_of_mem (h : Holds es used held) (hr : r ∈ held) : used r := by
  obtain ⟨cs, os, hledger, -, hsub, hused⟩ := h
  exact hused r (hledger.owned_subset (hsub hr))

/-- Some of them are enough. -/
theorem sub (h : Holds es used held) (hnodup : held'.Nodup) (hsub : held' ⊆ held) :
    Holds es used held' := by
  obtain ⟨cs, os, hledger, -, hos, hused⟩ := h
  exact ⟨cs, os, hledger, hnodup, List.Subset.trans hsub hos, hused⟩

theorem perm (h : Holds es used held) (hperm : held'.Perm held) : Holds es used held' :=
  h.sub (hperm.nodup_iff.2 h.nodup) hperm.subset

theorem right (h : Holds es used (held' ++ held)) : Holds es used held :=
  h.sub (nodup_append.1 h.nodup).2.1 (subset_append_right held' held)

theorem free (h : Holds es used (r :: held)) : Holds (es ++ [.free r]) used held := by
  obtain ⟨cs, os, hledger, hnodup, hsub, hused⟩ := h
  obtain ⟨hfresh, hnodup⟩ := nodup_cons.1 hnodup
  refine ⟨cs, os.erase r, hledger.free (hsub mem_cons_self), hnodup, fun x hx => ?_, hused⟩
  have hne : x ≠ r := by
    rintro rfl
    exact hfresh hx
  exact (mem_erase_of_ne hne).2 (hsub (mem_cons_of_mem r hx))

theorem frees (h : Holds es used (rs ++ held)) : Holds (es ++ rs.map .free) used held := by
  induction rs generalizing es with
  | nil =>
    rw [map_nil, append_nil]
    exact h
  | cons r rs ih =>
    rw [map_cons, append_cons]
    exact ih h.free

/-- A resource is created, and held. -/
theorem create (h : Holds es used held) (hnew : ¬ used r) (hused : ∀ x, used x → used' x)
    (hr : used' r) : Holds (es ++ [.create r]) used' (r :: held) := by
  obtain ⟨cs, os, hledger, hnodup, hsub, hcs⟩ := h
  have hfresh : r ∉ cs := fun hmem => hnew (hcs r hmem)
  refine ⟨r :: cs, os ++ [r], hledger.create hfresh, nodup_cons.2 ⟨fun hmem => ?_, hnodup⟩,
    fun x hx => ?_, fun x hx => ?_⟩
  · exact hfresh (hledger.owned_subset (hsub hmem))
  · rcases mem_cons.1 hx with rfl | hx
    · exact mem_append_right _ (mem_singleton.2 rfl)
    · exact mem_append_left _ (hsub hx)
  · rcases mem_cons.1 hx with rfl | hx
    · exact hr
    · exact hused x (hcs x hx)

end Holds

end OwnershipLedger
