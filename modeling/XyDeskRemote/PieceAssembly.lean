/-
# Reassembling messages from numbered pieces

A message with an id is sent as numbered pieces over a channel that may lose,
repeat and reorder them.  The assembler of this file keeps ONE message in progress
and forgets it as soon as a piece with another id arrives; when every slot of the
message in progress is filled it hands the message over and is idle again.

Ids, headers and piece bodies are arbitrary types.
-/
import Mathlib.Data.List.ReduceOption
import Mathlib.Data.List.Nodup
import XyDeskRemote.OutputMachine

open OutputMachine List

namespace PieceAssembly

variable {ι η β : Type*}

/-! ## Pieces, messages and the assembler -/

/-- One piece: the message's id, header and number of pieces, and the piece's own
index and body. -/
structure Piece (ι η β : Type*) where
  id : ι
  head : η
  count : Nat
  index : Nat
  body : β

/-- A message before it is taken apart. -/
structure Message (ι η β : Type*) where
  id : ι
  head : η
  parts : List β

/-- The pieces of a message, numbered from zero. -/
def Message.pieces (m : Message ι η β) : List (Piece ι η β) :=
  m.parts.mapIdx fun i b => ⟨m.id, m.head, m.parts.length, i, b⟩

/-- The message in progress: a slot for every piece, filled or not. -/
structure Assembly (ι η β : Type*) where
  id : ι
  head : η
  slots : List (Option β)

/-- A message in progress with no piece yet. -/
def Assembly.start (p : Piece ι η β) : Assembly ι η β :=
  ⟨p.id, p.head, replicate p.count none⟩

/-- Put a body into slot `i` when the slot is empty. -/
def Assembly.fill (a : Assembly ι η β) (i : Nat) (b : β) : Assembly ι η β :=
  match a.slots[i]? with
  | some none => { a with slots := a.slots.set i (some b) }
  | _ => a

/-- Every slot is filled. -/
def Assembly.complete (a : Assembly ι η β) : Bool := a.slots.all Option.isSome

/-- The message in progress that a piece belongs to: the current one when the ids
agree, else a new one. -/
def Assembly.select [DecidableEq ι] (s : Option (Assembly ι η β)) (p : Piece ι η β) :
    Assembly ι η β :=
  match s with
  | some a => if a.id = p.id then a else Assembly.start p
  | none => Assembly.start p

/-- One piece arrives. -/
def step [DecidableEq ι] (s : Option (Assembly ι η β)) (p : Piece ι η β) :
    Option (Option (Assembly ι η β) × List (η × List β)) :=
  let a := (Assembly.select s p).fill p.index p.body
  if a.complete then some (none, [(a.head, a.slots.reduceOption)]) else some (some a, [])

/-! ## Filling slots -/

variable {m : Message ι η β} {p : Piece ι η β}

theorem mem_pieces :
    p ∈ m.pieces ↔ p.id = m.id ∧ p.head = m.head ∧ p.count = m.parts.length ∧
      m.parts[p.index]? = some p.body := by
  rw [Message.pieces, mem_mapIdx]
  constructor
  · rintro ⟨i, hi, rfl⟩
    exact ⟨rfl, rfl, rfl, getElem?_eq_getElem hi⟩
  · rintro ⟨hid, hhead, hcount, hbody⟩
    obtain ⟨hi, hget⟩ := List.getElem?_eq_some_iff.1 hbody
    refine ⟨p.index, hi, ?_⟩
    rw [hget, ← hid, ← hhead, ← hcount]

theorem map_index_pieces (m : Message ι η β) :
    m.pieces.map Piece.index = range m.parts.length := by
  apply ext_getElem?
  intro i
  rw [Message.pieces, getElem?_map, getElem?_mapIdx]
  rcases Nat.lt_or_ge i m.parts.length with hi | hi
  · rw [getElem?_eq_getElem hi, getElem?_range hi]
    rfl
  · rw [getElem?_eq_none hi, getElem?_eq_none (by rwa [length_range])]
    rfl

variable {a : Assembly ι η β}

theorem fill_of_empty {i : Nat} (h : a.slots[i]? = some none) (b : β) :
    a.fill i b = { a with slots := a.slots.set i (some b) } := by
  rw [Assembly.fill, h]

theorem fill_of_ne {i : Nat} (h : a.slots[i]? ≠ some none) (b : β) :
    a.fill i b = a := by
  unfold Assembly.fill
  split
  · next heq => exact absurd heq h
  · rfl

@[simp] theorem fill_id (a : Assembly ι η β) (i : Nat) (b : β) : (a.fill i b).id = a.id := by
  unfold Assembly.fill
  split <;> rfl

@[simp] theorem fill_head (a : Assembly ι η β) (i : Nat) (b : β) :
    (a.fill i b).head = a.head := by
  unfold Assembly.fill
  split <;> rfl

@[simp] theorem fill_slots_length (a : Assembly ι η β) (i : Nat) (b : β) :
    (a.fill i b).slots.length = a.slots.length := by
  unfold Assembly.fill
  split
  · exact length_set
  · rfl

theorem getElem?_fill {i j : Nat} {b c : β} (h : (a.fill i b).slots[j]? = some (some c)) :
    a.slots[j]? = some (some c) ∨ (j = i ∧ c = b) := by
  by_cases hempty : a.slots[i]? = some none
  · rw [fill_of_empty hempty] at h
    rcases eq_or_ne i j with rfl | hij
    · obtain ⟨hi, -⟩ := List.getElem?_eq_some_iff.1 hempty
      rw [getElem?_set_self hi] at h
      exact Or.inr ⟨rfl, (Option.some.inj (Option.some.inj h)).symm⟩
    · rw [getElem?_set_ne hij] at h
      exact Or.inl h
  · rw [fill_of_ne hempty] at h
    exact Or.inl h

theorem getElem?_fill_none {i j : Nat} {b : β} :
    (a.fill i b).slots[j]? = some none ↔ a.slots[j]? = some none ∧ j ≠ i := by
  by_cases hempty : a.slots[i]? = some none
  · rw [fill_of_empty hempty]
    rcases eq_or_ne i j with rfl | hij
    · obtain ⟨hi, -⟩ := List.getElem?_eq_some_iff.1 hempty
      rw [getElem?_set_self hi]
      simp
    · rw [getElem?_set_ne hij]
      exact ⟨fun h => ⟨h, hij.symm⟩, fun h => h.1⟩
  · rw [fill_of_ne hempty]
    refine ⟨fun h => ⟨h, ?_⟩, fun h => h.1⟩
    rintro rfl
    exact hempty h

/-- A message in progress is complete when no slot is empty. -/
theorem complete_iff :
    a.complete = true ↔ ∀ j : Nat, a.slots[j]? ≠ some none := by
  rw [Assembly.complete, all_eq_true]
  constructor
  · intro h j hj
    exact absurd (h none (mem_of_getElem? hj)) Bool.false_ne_true
  · intro h o ho
    obtain ⟨j, hj⟩ := mem_iff_getElem?.1 ho
    cases o with
    | none => exact absurd hj (h j)
    | some b => rfl

/-! ## A message in progress agrees with the message it comes from -/

/-- Every filled slot of `a` holds the part of `m` with the same number. -/
structure PartOf (m : Message ι η β) (a : Assembly ι η β) : Prop where
  id : a.id = m.id
  head : a.head = m.head
  length : a.slots.length = m.parts.length
  filled : ∀ (j : Nat) (b : β), a.slots[j]? = some (some b) → m.parts[j]? = some b

theorem PartOf.start (hp : p ∈ m.pieces) :
    PartOf m (Assembly.start p) := by
  obtain ⟨hid, hhead, hcount, -⟩ := mem_pieces.1 hp
  refine ⟨hid, hhead, ?_, fun j b hj => ?_⟩
  · rw [Assembly.start, length_replicate, hcount]
  · have hmem := mem_of_getElem? hj
    rw [Assembly.start, mem_replicate] at hmem
    cases hmem.2

theorem PartOf.fill (ha : PartOf m a) (hp : p ∈ m.pieces) : PartOf m (a.fill p.index p.body) := by
  refine ⟨?_, ?_, ?_, fun j b hj => ?_⟩
  · rw [fill_id, ha.id]
  · rw [fill_head, ha.head]
  · rw [fill_slots_length, ha.length]
  · rcases getElem?_fill hj with hj | ⟨rfl, rfl⟩
    · exact ha.filled j b hj
    · exact (mem_pieces.1 hp).2.2.2

/-- **A complete message in progress is the message.** -/
theorem PartOf.reduceOption_eq (ha : PartOf m a) (hdone : a.complete = true) :
    a.slots.reduceOption = m.parts := by
  -- slot by slot: a complete assembly has no empty one, and a filled one is the part
  have hslots : a.slots = m.parts.map some := by
    apply ext_getElem?
    intro j
    rw [getElem?_map]
    rcases Nat.lt_or_ge j a.slots.length with hj | hj
    · cases hslot : a.slots[j] with
      | none =>
        refine absurd ?_ (complete_iff.1 hdone j)
        rw [getElem?_eq_getElem hj, hslot]
      | some b =>
        have hget : a.slots[j]? = some (some b) := by
          rw [getElem?_eq_getElem hj, hslot]
        rw [hget, ha.filled j b hget, Option.map_some]
    · rw [getElem?_eq_none hj, getElem?_eq_none (ha.length ▸ hj), Option.map_none]
  rw [hslots, reduceOption, filterMap_map]
  exact filterMap_some

/-- What the assembler holds belongs to one of the messages. -/
def PartOfSome (ms : List (Message ι η β)) (s : Option (Assembly ι η β)) : Prop :=
  ∀ a, s = some a → ∃ m ∈ ms, PartOf m a

/-! ## Nothing is mixed -/

variable [DecidableEq ι]

variable {ms : List (Message ι η β)}

/-- Pieces of one message with pairwise distinct ids are told apart by their id. -/
theorem select_partOf (hids : (ms.map Message.id).Nodup) {s : Option (Assembly ι η β)}
    (hs : PartOfSome ms s) (hm : m ∈ ms) (hp : p ∈ m.pieces) : PartOf m (Assembly.select s p) := by
  cases s with
  | none => exact PartOf.start hp
  | some a =>
    unfold Assembly.select
    dsimp only
    split
    · next hid =>
        obtain ⟨m', hm', ha⟩ := hs a rfl
        have hmid : m'.id = m.id := by rw [← ha.id, hid, (mem_pieces.1 hp).1]
        -- the ids tell the messages apart, so the piece is of the message in progress
        have hsame : m' = m := inj_on_of_nodup_map hids hm' hm hmid
        exact hsame ▸ ha
    · exact PartOf.start hp

/-- One honest piece: the assembler keeps parts of one message, and what it hands
over is that message. -/
theorem step_honest (hids : (ms.map Message.id).Nodup) {s : Option (Assembly ι η β)}
    (hs : PartOfSome ms s) (hp : ∃ m ∈ ms, p ∈ m.pieces) :
    ∃ t os, step s p = some (t, os) ∧ PartOfSome ms t ∧
      ∀ o ∈ os, ∃ m ∈ ms, o = (m.head, m.parts) := by
  obtain ⟨m, hm, hp⟩ := hp
  have ha := (select_partOf hids hs hm hp).fill hp
  unfold step
  by_cases hdone : ((Assembly.select s p).fill p.index p.body).complete = true
  · refine ⟨_, _, if_pos hdone, ?_, ?_⟩
    · intro a ha'
      cases ha'
    · intro o ho
      rw [mem_singleton] at ho
      exact ⟨m, hm, by rw [ho, ha.head, ha.reduceOption_eq hdone]⟩
  · refine ⟨_, _, if_neg hdone, ?_, ?_⟩
    · intro a ha'
      cases ha'
      exact ⟨m, hm, ha⟩
    · intro o ho
      cases ho

variable {ps : List (Piece ι η β)}

/-- **No mixing.**  Whatever pieces of messages with pairwise distinct ids arrive,
lost, repeated and reordered in any way, only whole messages are handed over. -/
theorem feed_honest (hids : (ms.map Message.id).Nodup) (hps : ∀ p ∈ ps, ∃ m ∈ ms, p ∈ m.pieces) :
    ∃ t os, feed step none ps = some (t, os) ∧ PartOfSome ms t ∧
      ∀ o ∈ os, ∃ m ∈ ms, o = (m.head, m.parts) :=
  feed_outputs (I := PartOfSome ms) (H := fun p => ∃ m ∈ ms, p ∈ m.pieces)
    (P := fun o => ∃ m ∈ ms, o = (m.head, m.parts))
    (fun _ _ hs hp => step_honest hids hs hp) (by intro a ha; cases ha) hps

/-! ## Every order completes the message -/

/-- When the pieces still to come are exactly the empty slots, each once, they
complete the message, and only the last of them does. -/
theorem feed_missing :
    ∀ {a : Assembly ι η β}, PartOf m a → (∀ p ∈ ps, p ∈ m.pieces) →
      (ps.map Piece.index).Nodup →
      (∀ j, a.slots[j]? = some none ↔ j ∈ ps.map Piece.index) → ps ≠ [] →
      feed step (some a) ps = some (none, [(m.head, m.parts)]) := by
  induction ps with
  | nil => intro a _ _ _ _ hne; exact absurd rfl hne
  | cons p ps ih =>
    intro a ha hps hnodup hmissing _
    have hp : p ∈ m.pieces := hps p mem_cons_self
    have hselect : Assembly.select (some a) p = a :=
      if_pos (ha.id.trans (mem_pieces.1 hp).1.symm)
    rw [map_cons, nodup_cons] at hnodup
    -- the slots that are still empty after this piece
    have hmissing' : ∀ j, (a.fill p.index p.body).slots[j]? = some none ↔
        j ∈ ps.map Piece.index := by
      intro j
      rw [getElem?_fill_none, hmissing j, map_cons, mem_cons]
      constructor
      · rintro ⟨hj | hj, hne⟩
        · exact absurd hj hne
        · exact hj
      · intro hj
        refine ⟨Or.inr hj, ?_⟩
        rintro rfl
        exact hnodup.1 hj
    have hfill := ha.fill hp
    by_cases hlast : ps = []
    · have hdone : (a.fill p.index p.body).complete = true := by
        rw [complete_iff]
        intro j hj
        rw [hmissing' j, hlast] at hj
        cases hj
      have hstep : step (some a) p = some (none, [(m.head, m.parts)]) := by
        unfold step
        rw [hselect]
        dsimp only
        rw [if_pos hdone, hfill.head, hfill.reduceOption_eq hdone]
      rw [hlast]
      exact feed_cons_of_step hstep (feed_nil _)
    · have hnot : ¬ (a.fill p.index p.body).complete = true := by
        obtain ⟨q, qs, rfl⟩ := exists_cons_of_ne_nil hlast
        rw [complete_iff]
        intro h
        exact h q.index ((hmissing' q.index).2 mem_cons_self)
      have hstep : step (some a) p = some (some (a.fill p.index p.body), []) := by
        unfold step
        rw [hselect]
        dsimp only
        rw [if_neg hnot]
      exact feed_cons_of_step hstep
        (ih hfill (fun q hq => hps q (mem_cons_of_mem p hq)) hnodup.2 hmissing' hlast)

/-- **Every order completes the message.**  The pieces of one nonempty message, in
any order, are handed over as that message, once. -/
theorem feed_pieces (hne : m.parts ≠ []) (hperm : ps.Perm m.pieces) :
    feed step none ps = some (none, [(m.head, m.parts)]) := by
  have hindex : (ps.map Piece.index).Perm (range m.parts.length) := by
    rw [← map_index_pieces]
    exact hperm.map Piece.index
  have hpieces : ∀ p ∈ ps, p ∈ m.pieces := fun p hp => hperm.mem_iff.1 hp
  obtain ⟨p, ps, rfl⟩ : ∃ p qs, ps = p :: qs := by
    apply exists_cons_of_ne_nil
    rintro rfl
    rw [map_nil, nil_perm, range_eq_nil, length_eq_zero_iff] at hindex
    exact hne hindex
  have hp : p ∈ m.pieces := hpieces p mem_cons_self
  -- being idle is as good as having started this message
  have hidle : feed step none (p :: ps) = feed step (some (Assembly.start p)) (p :: ps) := by
    have hselect : Assembly.select (some (Assembly.start p)) p = Assembly.start p := if_pos rfl
    rw [feed_cons, feed_cons]
    unfold step
    rw [hselect]
    rfl
  rw [hidle]
  refine feed_missing (PartOf.start hp) hpieces (hindex.nodup_iff.2 nodup_range) ?_
    (cons_ne_nil p ps)
  intro j
  rw [hindex.mem_iff, mem_range, ← (mem_pieces.1 hp).2.2.1, Assembly.start,
    getElem?_replicate, ite_eq_left_iff]
  simp

end PieceAssembly
