import Mathlib.Data.List.Perm.Basic
import Mathlib.Data.List.Nodup
import Mathlib.Algebra.Group.Nat.Defs
/-
# The books of a pool

What a pool has is held by somebody or available, and never both.  The entries of two lists are
moved from the end of one to the other by search, as pools do with their arrays.
-/

namespace PoolBooks

variable {α : Type*} {held available : List α} {x y : α} {i : ℕ}

/-- Nothing is held twice, available twice, or held and available. -/
def Balanced (held available : List α) : Prop := (held ++ available).Nodup

theorem balanced_nil : Balanced ([] : List α) [] := List.nodup_nil

namespace Balanced

theorem nodup_held (h : Balanced held available) : held.Nodup := (List.nodup_append'.1 h).1

theorem nodup_available (h : Balanced held available) : available.Nodup :=
  (List.nodup_append'.1 h).2.1

theorem disjoint (h : Balanced held available) : held.Disjoint available :=
  (List.nodup_append'.1 h).2.2

theorem of_perm {held' available' : List α} (h : Balanced held available)
    (hperm : (held' ++ available').Perm (held ++ available)) : Balanced held' available' :=
  hperm.nodup_iff.2 h

/-- Something new is held. -/
theorem adopt (h : Balanced held available) (hheld : x ∉ held) (havailable : x ∉ available) :
    Balanced (held ++ [x]) available := by
  have hperm : ((held ++ [x]) ++ available).Perm (x :: (held ++ available)) := by
    rw [List.append_assoc]
    exact List.perm_middle
  refine hperm.nodup_iff.2 (List.nodup_cons.2 ⟨?_, h⟩)
  rw [List.mem_append]
  exact not_or.2 ⟨hheld, havailable⟩

theorem handOut (h : Balanced held available) (hi : i < available.length) :
    Balanced (held ++ [available[i]]) (available.eraseIdx i) := by
  refine h.of_perm ?_
  rw [List.append_assoc]
  exact List.Perm.append_left held (List.getElem_cons_eraseIdx_perm hi)

theorem shrink {available' : List α} (h : Balanced held available)
    (hsub : available'.Sublist available) : Balanced held available' :=
  List.Nodup.sublist (hsub.append_left held) h

/-- What was available at `i` is so no longer. -/
theorem mem_eraseIdx (h : Balanced held available) (hi : i < available.length) :
    x ∈ available.eraseIdx i ↔ x ≠ available[i] ∧ x ∈ available := by
  classical
  rw [← h.nodup_available.erase_getElem i hi, h.nodup_available.mem_erase_iff]

theorem giveBack [DecidableEq α] (h : Balanced held available) (hx : x ∈ held) :
    Balanced (held.erase x) (available ++ [x]) := by
  refine h.of_perm ?_
  have hback : (available ++ [x]).Perm (x :: available) := List.perm_append_singleton x available
  have hfront : (held.erase x ++ x :: available).Perm (x :: held.erase x ++ available) :=
    List.perm_middle
  have hheld : (x :: held.erase x).Perm held := (List.perm_cons_erase hx).symm
  exact (List.Perm.append_left _ hback).trans (hfront.trans (hheld.append_right available))

end Balanced

end PoolBooks
