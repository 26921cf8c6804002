/-
# Reassembling fast-path updates

`fastpath_recv_update_data` of `fastpath.c`: the update header, the decompression, and the buffer
`updateData` in which the fragments of an update are put together.  The bytes of a fragment are
appended BEFORE its place among the fragments is checked, and stay there when it is rejected; the
update code is never kept, so that the fragments of one update are free to disagree on it.

The bulk decompressor is a parameter, and so is what the surroundings answer: the room in memory,
the setting `MultifragMaxRequestSize` and the status of the handler of the update.
-/
import XyDeskRemote.ByteBuffer
import XyDeskRemote.LabelledRun

open LabelledRun List Option

namespace FastPath

/-! ## The header -/

/-- `enum FASTPATH_FRAGMENT`. -/
inductive Fragmentation where
  | single
  | last
  | first
  | next
  deriving DecidableEq

/-- The fragmentation of a two-bit field. -/
def Fragmentation.ofBits : ℕ → Fragmentation
  | 0 => .single
  | 1 => .last
  | 2 => .first
  | _ => .next

/-- What `fastpath_read_update_header` reads. -/
structure UpdateHeader where
  updateCode : ℕ
  fragmentation : Fragmentation
  compression : ℕ

/-- What is read and the rest of the stream, or where the stream stands when too little is left. -/
abbrev Read (α : Type) := Except (List UInt8) (α × List UInt8)

/-- The header of an update. -/
def readUpdateHeader : List UInt8 → Read UpdateHeader
  | [] => .error []
  | updateHeader :: s =>
    .ok (⟨updateHeader.toNat % 16, Fragmentation.ofBits (updateHeader.toNat / 16 % 4),
      updateHeader.toNat / 64 % 4⟩, s)

/-- The compression flags are there when `FASTPATH_OUTPUT_COMPRESSION_USED` is. -/
def readCompressionFlags (compression : ℕ) (s : List UInt8) : Read UInt8 :=
  if compression = 2 then
    match s with
    | [] => .error []
    | compressionFlags :: s => .ok (compressionFlags, s)
  else .ok (0, s)

/-- `size`, and as many bytes. -/
def readSized : List UInt8 → Read (List UInt8)
  | low :: high :: s =>
    let size := LittleEndian.decode [low, high]
    if s.length < size then .error s else .ok (s.take size, s.drop size)
  | s => .error s

/-- An update, before it is decompressed: the header, the flags and the bytes. -/
def readUpdate (s : List UInt8) :
    Except (List UInt8) (UpdateHeader × UInt8 × List UInt8 × List UInt8) := do
  let (header, s) ← readUpdateHeader s
  let (compressionFlags, s) ← readCompressionFlags header.compression s
  let (bytes, s) ← readSized s
  pure (header, compressionFlags, bytes, s)

/-! ## Receiving -/

/-- `struct rdp_fastpath`, with the decompressor of its `rdp`; `fragmentation` is `none` for
`-1`. -/
structure RdpFastPath (B : Type*) where
  bulk : B
  updateData : List UInt8
  fragmentation : Option Fragmentation

/-- What the surroundings answer during a call. -/
structure Answers where
  hasCapacity : Bool
  multifragMaxRequestSize : ℕ
  updateStatus : ℤ

/-- What a call comes to: its status, the state and the stream that it leaves, and the update
code and the stream that it hands to `fastpath_recv_update`. -/
structure Result (B : Type*) where
  status : ℤ
  fastpath : RdpFastPath B
  stream : List UInt8
  update : Option (ℕ × List UInt8)

variable {B : Type*}

/-- `goto out_fail`. -/
def outFail (fastpath : RdpFastPath B) (s : List UInt8) : Result B := ⟨-1, fastpath, s, none⟩

/-- `fastpath_recv_update`, and what its caller does with its status.  Whatever comes of the
update, the position of `updateData` is reset. -/
def recvUpdate (answers : Answers) (fastpath : RdpFastPath B) (updateCode : ℕ)
    (s : List UInt8) : Result B :=
  { status := if answers.updateStatus < 0 then -1 else answers.updateStatus
    fastpath := { fastpath with updateData := [] }
    stream := s
    update := some (updateCode, fastpath.updateData) }

/-- `fastpath_recv_update_data`, from the check of the fragmentation on. -/
def recvFragment (answers : Answers) (fastpath : RdpFastPath B) (header : UpdateHeader)
    (s : List UInt8) : Result B :=
  if header.fragmentation = .single then
    if fastpath.fragmentation ≠ none then outFail fastpath s
    else recvUpdate answers fastpath header.updateCode s
  else if fastpath.updateData.length > answers.multifragMaxRequestSize then outFail fastpath s
  else if header.fragmentation = .first then
    if fastpath.fragmentation ≠ none then outFail fastpath s
    else ⟨0, { fastpath with fragmentation := some .first }, s, none⟩
  else if header.fragmentation = .next then
    if fastpath.fragmentation ≠ some .first ∧ fastpath.fragmentation ≠ some .next then
      outFail fastpath s
    else ⟨0, { fastpath with fragmentation := some .next }, s, none⟩
  else
    if fastpath.fragmentation ≠ some .first ∧ fastpath.fragmentation ≠ some .next then
      outFail fastpath s
    else recvUpdate answers { fastpath with fragmentation := none } header.updateCode s

variable (bulkDecompress : B → List UInt8 → UInt8 → Option (List UInt8) × B)

/-- `fastpath_recv_update_data`. -/
def recvUpdateData (answers : Answers) (fastpath : RdpFastPath B) (s : List UInt8) : Result B :=
  match readUpdate s with
  | .error s => outFail fastpath s
  | .ok (header, compressionFlags, bytes, s) =>
    match bulkDecompress fastpath.bulk bytes compressionFlags with
    | (none, bulk) => outFail { fastpath with bulk } s
    | (some data, bulk) =>
      if !answers.hasCapacity then outFail { fastpath with bulk } s
      else
        recvFragment answers { fastpath with bulk, updateData := fastpath.updateData ++ data }
          header s

/-- A fragment that was decompressed and appended. -/
structure Fragment where
  updateCode : ℕ
  fragmentation : Fragmentation
  data : List UInt8
  deriving DecidableEq

/-- The fragment that a call appends to the buffer. -/
def appended (answers : Answers) (fastpath : RdpFastPath B) (s : List UInt8) : Option Fragment :=
  match readUpdate s with
  | .error _ => none
  | .ok (header, compressionFlags, bytes, _) =>
    match bulkDecompress fastpath.bulk bytes compressionFlags with
    | (none, _) => none
    | (some data, _) =>
      if !answers.hasCapacity then none
      else some ⟨header.updateCode, header.fragmentation, data⟩

/-- A call that rejects its fragment: it fails and hands nothing over. -/
def Result.rejects (r : Result B) : Bool := decide (r.status < 0) && r.update.isNone

/-- A fragment of the past, and whether it was rejected. -/
structure Received where
  fragment : Fragment
  rejected : Bool
  deriving DecidableEq

/-- The accepted ones. -/
def accepted (received : List Received) : List Fragment :=
  (received.filter fun r => !r.rejected).map Received.fragment

/-- The bytes of fragments, in their order. -/
def bytesOf (fragments : List Fragment) : List UInt8 := fragments.flatMap Fragment.data

/-- An update that was handed over, with all that was received since the one before it. -/
structure Delivery where
  updateCode : ℕ
  stream : List UInt8
  multifragMaxRequestSize : ℕ
  received : List Received

/-- **One update.**  The stream is made of the accepted fragments: of one `SINGLE`, or of one
`FIRST`, `NEXT`s and one `LAST` that are not too long together, all with the code of the
delivery. -/
structure Delivery.IsOneUpdate (d : Delivery) : Prop where
  stream_eq : d.stream = bytesOf (accepted d.received)
  updateCode_eq : ∀ f ∈ accepted d.received, f.updateCode = d.updateCode
  shape : (accepted d.received).map Fragment.fragmentation = [.single] ∨
    (∃ k, (accepted d.received).map Fragment.fragmentation =
      .first :: replicate k .next ++ [.last]) ∧ d.stream.length ≤ d.multifragMaxRequestSize

/-- A fast path and its past. -/
structure Session (B : Type*) where
  fastpath : RdpFastPath B
  received : List Received
  deliveries : List Delivery

/-- A call and what it is answered. -/
structure Call where
  answers : Answers
  stream : List UInt8

/-- The past after a fragment. -/
def record (session : Session B) (call : Call) (r : Result B) (f : Fragment) : Session B :=
  let received := session.received ++ [⟨f, r.rejects⟩]
  match r.update with
  | none => { fastpath := r.fastpath, received, deliveries := session.deliveries }
  | some (updateCode, stream) =>
    { fastpath := r.fastpath
      received := []
      deliveries := session.deliveries ++
        [⟨updateCode, stream, call.answers.multifragMaxRequestSize, received⟩] }

/-- One call of `fastpath_recv_update_data`. -/
def step (session : Session B) (call : Call) : Option (Session B) :=
  let r := recvUpdateData bulkDecompress call.answers session.fastpath call.stream
  match appended bulkDecompress call.answers session.fastpath call.stream with
  | none => some { session with fastpath := r.fastpath }
  | some f => some (record session call r f)

/-- `fastpath_new`, with a decompressor. -/
def initial (bulk : B) : Session B := ⟨⟨bulk, [], none⟩, [], []⟩

/-! ## The bytes of fragments -/

@[simp] theorem bytesOf_append (fs gs : List Fragment) :
    bytesOf (fs ++ gs) = bytesOf fs ++ bytesOf gs := flatMap_append

@[simp] theorem bytesOf_nil : bytesOf [] = [] := rfl

@[simp] theorem bytesOf_cons (f : Fragment) (fs : List Fragment) :
    bytesOf (f :: fs) = f.data ++ bytesOf fs := rfl

@[simp] theorem bytesOf_singleton (f : Fragment) : bytesOf [f] = f.data :=
  append_nil _

theorem accepted_append (rs ts : List Received) :
    accepted (rs ++ ts) = accepted rs ++ accepted ts := by
  rw [accepted, filter_append, map_append]
  rfl

theorem accepted_cons_of_rejected {r : Received} (rs : List Received) (h : r.rejected = true) :
    accepted (r :: rs) = accepted rs := by
  rw [accepted, filter_cons_of_neg (by rw [h]; decide)]
  rfl

theorem accepted_cons_of_accepted {r : Received} (rs : List Received) (h : r.rejected = false) :
    accepted (r :: rs) = r.fragment :: accepted rs := by
  rw [accepted, filter_cons_of_pos (by rw [h]; decide)]
  rfl

/-- Leaving the rejected fragments out leaves no more bytes. -/
theorem length_bytesOf_accepted_le (rs : List Received) :
    (bytesOf (accepted rs)).length ≤ (bytesOf (rs.map Received.fragment)).length := by
  induction rs with
  | nil => exact le_rfl
  | cons r rs ih =>
    rw [map_cons, bytesOf_cons, length_append]
    rcases h : r.rejected with _ | _
    · rw [accepted_cons_of_accepted rs h, bytesOf_cons, length_append]
      exact Nat.add_le_add_left ih _
    · rw [accepted_cons_of_rejected rs h]
      exact ih.trans (Nat.le_add_left _ _)

/-- The bytes of all fragments are those of the accepted ones exactly when the rejected ones have
none. -/
theorem bytesOf_eq_accepted_iff (rs : List Received) :
    bytesOf (rs.map Received.fragment) = bytesOf (accepted rs) ↔
      ∀ r ∈ rs, r.rejected = true → r.fragment.data = [] := by
  induction rs with
  | nil => exact ⟨fun _ r hr => absurd hr not_mem_nil, fun _ => rfl⟩
  | cons r rs ih =>
    rw [map_cons, bytesOf_cons, forall_mem_cons, ← ih]
    rcases h : r.rejected with _ | _
    · rw [accepted_cons_of_accepted rs h, bytesOf_cons, append_cancel_left_eq]
      exact ⟨fun heq => ⟨fun hr => absurd hr Bool.false_ne_true, heq⟩, fun heq => heq.2⟩
    · rw [accepted_cons_of_rejected rs h]
      constructor
      · intro heq
        have hlength := congrArg List.length heq
        have hle := length_bytesOf_accepted_le rs
        rw [length_append] at hlength
        have hnil : r.fragment.data = [] := by
          refine eq_nil_of_length_eq_zero ?_
          omega
        rw [hnil, nil_append] at heq
        exact ⟨fun _ => hnil, heq⟩
      · rintro ⟨hnil, heq⟩
        rw [hnil rfl, nil_append]
        exact heq

/-! ## What a call does -/

/-- The fragment ends an update: `SINGLE` with none in progress, or `LAST` with one in progress
that is not too long with it. -/
def Completes (inProgress : Option Fragmentation) (fragmentation : Fragmentation)
    (totalSize max : ℕ) : Prop :=
  (fragmentation = .single ∧ inProgress = none) ∨
    (fragmentation = .last ∧ (inProgress = some .first ∨ inProgress = some .next)) ∧
      totalSize ≤ max

/-- The fragment begins an update or goes on with it. -/
def Continues (inProgress : Option Fragmentation) (fragmentation : Fragmentation)
    (totalSize max : ℕ) : Prop :=
  ((fragmentation = .first ∧ inProgress = none) ∨
    (fragmentation = .next ∧ (inProgress = some .first ∨ inProgress = some .next))) ∧
      totalSize ≤ max

/-- The three ways of a fragment that was appended. -/
theorem recvFragment_cases (answers : Answers) (fastpath : RdpFastPath B) (header : UpdateHeader)
    (s : List UInt8) :
    (Completes fastpath.fragmentation header.fragmentation fastpath.updateData.length
        answers.multifragMaxRequestSize ∧
      recvFragment answers fastpath header s =
        recvUpdate answers { fastpath with fragmentation := none } header.updateCode s) ∨
    (¬ Completes fastpath.fragmentation header.fragmentation fastpath.updateData.length
        answers.multifragMaxRequestSize ∧
      Continues fastpath.fragmentation header.fragmentation fastpath.updateData.length
        answers.multifragMaxRequestSize ∧
      recvFragment answers fastpath header s =
        ⟨0, { fastpath with fragmentation := some header.fragmentation }, s, none⟩) ∨
    (¬ Completes fastpath.fragmentation header.fragmentation fastpath.updateData.length
        answers.multifragMaxRequestSize ∧
      recvFragment answers fastpath header s = outFail fastpath s) := by
  obtain ⟨bulk, updateData, inProgress⟩ := fastpath
  obtain ⟨updateCode, fragmentation, compression⟩ := header
  rw [recvFragment]
  simp only [Completes, Continues]
  by_cases hlong : updateData.length > answers.multifragMaxRequestSize
  · rcases fragmentation with _ | _ | _ | _ <;> rcases inProgress with _ | _ | _ | _ | _ <;>
      simp [hlong]
  · rcases fragmentation with _ | _ | _ | _ <;> rcases inProgress with _ | _ | _ | _ | _ <;>
      simp [hlong, not_lt.1 hlong]

variable {fastpath : RdpFastPath B}

/-- A call that appends nothing leaves the buffer and the fragments alone. -/
theorem recvUpdateData_of_none {answers : Answers} {s : List UInt8}
    (h : appended bulkDecompress answers fastpath s = none) :
    ∃ bulk s', recvUpdateData bulkDecompress answers fastpath s =
      outFail { fastpath with bulk } s' := by
  rw [appended] at h
  rw [recvUpdateData]
  rcases hread : readUpdate s with s' | ⟨header, compressionFlags, bytes, s'⟩
  · exact ⟨fastpath.bulk, s', rfl⟩
  rcases hbulk : bulkDecompress fastpath.bulk bytes compressionFlags with ⟨_ | data, bulk⟩
  · simp only [hbulk]
    exact ⟨bulk, s', rfl⟩
  simp only [hread, hbulk] at h ⊢
  split at h
  next hcapacity => exact ⟨bulk, s', if_pos hcapacity⟩
  next => exact absurd h (some_ne_none _)

theorem recvUpdateData_of_some {answers : Answers} {s : List UInt8} {f : Fragment}
    (h : appended bulkDecompress answers fastpath s = some f) :
    ∃ bulk compression s', recvUpdateData bulkDecompress answers fastpath s =
      recvFragment answers { fastpath with bulk, updateData := fastpath.updateData ++ f.data }
        ⟨f.updateCode, f.fragmentation, compression⟩ s' := by
  rw [appended] at h
  rw [recvUpdateData]
  rcases hread : readUpdate s with s' | ⟨header, compressionFlags, bytes, s'⟩
  · rw [hread] at h
    exact absurd h (some_ne_none f).symm
  rcases hbulk : bulkDecompress fastpath.bulk bytes compressionFlags with ⟨_ | data, bulk⟩
  · simp only [hread, hbulk] at h
    exact absurd h (some_ne_none f).symm
  simp only [hread, hbulk] at h ⊢
  split at h
  next => exact absurd h (some_ne_none f).symm
  next hcapacity =>
    obtain rfl := some.inj h
    exact ⟨bulk, header.compression, s', if_neg hcapacity⟩

/-- The fragment ends the update in progress, with what the call finds in the buffer. -/
def CompletesUpdate (session : Session B) (call : Call) (f : Fragment) : Prop :=
  Completes session.fastpath.fragmentation f.fragmentation
    (session.fastpath.updateData.length + f.data.length) call.answers.multifragMaxRequestSize

/-- The past after a fragment that ends an update. -/
def delivered (session : Session B) (call : Call) (f : Fragment) (bulk : B) : Session B :=
  { fastpath := ⟨bulk, [], none⟩
    received := []
    deliveries := session.deliveries ++
      [⟨f.updateCode, session.fastpath.updateData ++ f.data,
        call.answers.multifragMaxRequestSize, session.received ++ [⟨f, false⟩]⟩] }

/-- The past after a fragment that does not. -/
def kept (session : Session B) (f : Fragment) (bulk : B) (inProgress : Option Fragmentation)
    (rejected : Bool) : Session B :=
  { fastpath := ⟨bulk, session.fastpath.updateData ++ f.data, inProgress⟩
    received := session.received ++ [⟨f, rejected⟩]
    deliveries := session.deliveries }

variable {session : Session B}

/-- **The ways of a call.**  It appends nothing, ends an update, goes on with one, or rejects
what it has appended. -/
theorem step_cases {t : Session B} {call : Call} (h : step bulkDecompress session call = some t) :
    (appended bulkDecompress call.answers session.fastpath call.stream = none ∧
      ∃ bulk, t = { session with fastpath := { session.fastpath with bulk } }) ∨
    ∃ f bulk, appended bulkDecompress call.answers session.fastpath call.stream = some f ∧
      ((CompletesUpdate session call f ∧ t = delivered session call f bulk) ∨
        ¬ CompletesUpdate session call f ∧
          ((Continues session.fastpath.fragmentation f.fragmentation
              (session.fastpath.updateData.length + f.data.length)
              call.answers.multifragMaxRequestSize ∧
            t = kept session f bulk (some f.fragmentation) false) ∨
          t = kept session f bulk session.fastpath.fragmentation true)) := by
  rw [step] at h
  rcases happended : appended bulkDecompress call.answers session.fastpath call.stream with _ | f
  · rw [happended] at h
    obtain ⟨bulk, s', hresult⟩ := recvUpdateData_of_none bulkDecompress happended
    rw [hresult] at h
    exact Or.inl ⟨rfl, bulk, (some.inj h).symm⟩
  · rw [happended] at h
    obtain ⟨bulk, compression, s', hresult⟩ := recvUpdateData_of_some bulkDecompress happended
    obtain rfl := some.inj h
    refine Or.inr ⟨f, bulk, rfl, ?_⟩
    rw [CompletesUpdate, ← length_append, hresult]
    rcases recvFragment_cases call.answers
      { session.fastpath with bulk, updateData := session.fastpath.updateData ++ f.data }
      ⟨f.updateCode, f.fragmentation, compression⟩ s' with
      ⟨hcompletes, heq⟩ | ⟨hcompletes, hcontinues, heq⟩ | ⟨hcompletes, heq⟩
    · rw [heq]
      refine Or.inl ⟨hcompletes, ?_⟩
      simp [record, recvUpdate, delivered, Result.rejects]
    · rw [heq]
      exact Or.inr ⟨hcompletes, Or.inl ⟨hcontinues, rfl⟩⟩
    · rw [heq]
      exact Or.inr ⟨hcompletes, Or.inr rfl⟩

/-- The accepted fragments of the update in progress. -/
def InProgress : Option Fragmentation → List Fragmentation → Prop
  | none, fragments => fragments = []
  | some .first, fragments => fragments = [.first]
  | some .next, fragments => ∃ k, fragments = .first :: replicate k .next
  | some _, _ => False

/-- **The invariant.**  The buffer has the bytes of all fragments since the last delivery, and
the accepted ones among them are those of the update in progress. -/
structure Session.Inv (session : Session B) : Prop where
  updateData_eq : session.fastpath.updateData =
    bytesOf (session.received.map Received.fragment)
  inProgress : InProgress session.fastpath.fragmentation
    ((accepted session.received).map Fragment.fragmentation)

theorem inv_initial (bulk : B) : (initial bulk).Inv := ⟨rfl, rfl⟩

/-- An update in progress, whichever its last fragment is. -/
theorem InProgress.exists_replicate {inProgress : Option Fragmentation}
    {fragments : List Fragmentation} (h : InProgress inProgress fragments)
    (hstarted : inProgress = some .first ∨ inProgress = some .next) :
    ∃ k, fragments = .first :: replicate k .next := by
  rcases hstarted with rfl | rfl
  · exact ⟨0, h⟩
  · exact h

/-- An update goes on. -/
theorem InProgress.append {inProgress : Option Fragmentation} {fragments : List Fragmentation}
    {fragmentation : Fragmentation} {totalSize max : ℕ} (h : InProgress inProgress fragments)
    (hcontinues : Continues inProgress fragmentation totalSize max) :
    InProgress (some fragmentation) (fragments ++ [fragmentation]) := by
  rcases hcontinues.1 with ⟨rfl, rfl⟩ | ⟨rfl, hstarted⟩
  · obtain rfl : fragments = [] := h
    rfl
  · obtain ⟨k, rfl⟩ := h.exists_replicate hstarted
    refine ⟨k + 1, ?_⟩
    rw [replicate_succ', cons_append]

/-- Every call keeps the invariant. -/
theorem inv_step {call : Call} {t : Session B} (hinv : session.Inv)
    (h : step bulkDecompress session call = some t) : t.Inv := by
  rcases step_cases bulkDecompress h with
    ⟨-, bulk, rfl⟩ | ⟨f, bulk, -, ⟨-, rfl⟩ | ⟨-, ⟨hcontinues, rfl⟩ | rfl⟩⟩
  · exact ⟨hinv.updateData_eq, hinv.inProgress⟩
  · exact ⟨rfl, rfl⟩
  · refine ⟨?_, ?_⟩
    · simp [kept, hinv.updateData_eq]
    · have happend := hinv.inProgress.append hcontinues
      simpa [kept, accepted_append, accepted] using happend
  · refine ⟨?_, ?_⟩
    · simp [kept, hinv.updateData_eq]
    · simpa [kept, accepted_append, accepted] using hinv.inProgress

/-! ## The deliveries -/

/-- Everything that was handed over was one update. -/
def Session.DeliversUpdates (session : Session B) : Prop :=
  ∀ d ∈ session.deliveries, d.IsOneUpdate

/-- When the call ends an update, the fragments that were rejected since the last one had no
bytes, and the accepted ones have its update code. -/
def EndsClean (session : Session B) (call : Call) : Prop :=
  ∀ f, appended bulkDecompress call.answers session.fastpath call.stream = some f →
    CompletesUpdate session call f →
      (∀ r ∈ session.received, r.rejected = true → r.fragment.data = []) ∧
        ∀ g ∈ accepted session.received, g.updateCode = f.updateCode

theorem isOneUpdate_iff {call : Call} {f : Fragment} (hinv : session.Inv)
    (hcompletes : CompletesUpdate session call f) :
    Delivery.IsOneUpdate ⟨f.updateCode, session.fastpath.updateData ++ f.data,
        call.answers.multifragMaxRequestSize, session.received ++ [⟨f, false⟩]⟩ ↔
      (∀ r ∈ session.received, r.rejected = true → r.fragment.data = []) ∧
        ∀ g ∈ accepted session.received, g.updateCode = f.updateCode := by
  have haccepted : accepted (session.received ++ [⟨f, false⟩]) =
      accepted session.received ++ [f] := accepted_append _ _
  have hstream : session.fastpath.updateData ++ f.data =
      bytesOf (accepted (session.received ++ [⟨f, false⟩])) ↔
        ∀ r ∈ session.received, r.rejected = true → r.fragment.data = [] := by
    rw [haccepted, bytesOf_append, bytesOf_singleton, append_cancel_right_eq,
      hinv.updateData_eq, bytesOf_eq_accepted_iff]
  constructor
  · intro hone
    refine ⟨hstream.1 hone.stream_eq, fun g hg => ?_⟩
    refine hone.updateCode_eq g ?_
    rw [haccepted]
    exact mem_append_left _ hg
  · rintro ⟨hclean, hcodes⟩
    refine ⟨hstream.2 hclean, fun g hg => ?_, ?_⟩
    · rw [haccepted, mem_append, mem_singleton] at hg
      rcases hg with hg | rfl
      · exact hcodes g hg
      · rfl
    · rw [haccepted, map_append, map_singleton]
      rcases hcompletes with ⟨hkind, hnone⟩ | ⟨⟨hkind, hstarted⟩, hmax⟩
      · have hnil := hinv.inProgress
        rw [hnone] at hnil
        change List.map _ _ = [] at hnil
        rw [hnil, hkind]
        exact Or.inl rfl
      · obtain ⟨k, hk⟩ := hinv.inProgress.exists_replicate hstarted
        rw [hk, hkind]
        refine Or.inr ⟨⟨k, rfl⟩, ?_⟩
        rw [length_append]
        exact hmax

/-- **What is delivered.**  Every update of a run is one update exactly when each finds only
rejected fragments without bytes, and accepted ones with its own update code. -/
theorem oneUpdate_iff (bulk : B) (calls : List Call) :
    EveryState (step bulkDecompress) Session.DeliversUpdates (initial bulk) calls ↔
      EveryStep (step bulkDecompress) (fun session call _ => EndsClean bulkDecompress session call)
        (initial bulk) calls := by
  refine everyState_iff_everyStep (fun _ _ _ => inv_step bulkDecompress)
    (fun session call t hinv hdelivers h => ?_) (inv_initial bulk)
    (fun d hd => absurd hd not_mem_nil) calls
  rcases step_cases bulkDecompress h with
    ⟨hnone, bulk, rfl⟩ | ⟨f, bulk, hsome, ⟨hcompletes, rfl⟩ | ⟨hcompletes, htail⟩⟩
  · refine ⟨fun _ f hf => ?_, fun _ => hdelivers⟩
    rw [hnone] at hf
    exact absurd hf (some_ne_none f).symm
  · have hlast : (delivered session call f bulk).DeliversUpdates ↔
        Delivery.IsOneUpdate ⟨f.updateCode, session.fastpath.updateData ++ f.data,
          call.answers.multifragMaxRequestSize, session.received ++ [⟨f, false⟩]⟩ := by
      constructor
      · intro hall
        exact hall _ (mem_append_right _ mem_cons_self)
      · intro hone d hd
        rcases mem_append.1 hd with hd | hd
        · exact hdelivers d hd
        · exact mem_singleton.1 hd ▸ hone
    rw [hlast, isOneUpdate_iff hinv hcompletes]
    constructor
    · intro hclean g hg _
      rw [hsome] at hg
      exact some.inj hg ▸ hclean
    · intro hends
      exact hends f hsome hcompletes
  · have hsame : t.deliveries = session.deliveries := by
      rcases htail with ⟨-, rfl⟩ | rfl <;> rfl
    refine ⟨fun _ g hg hcompletes' => ?_, fun _ d hd => ?_⟩
    · rw [hsome] at hg
      exact absurd (some.inj hg ▸ hcompletes') hcompletes
    · rw [hsame] at hd
      exact hdelivers d hd

/-! ## A decompressor that copies -/

/-- What `bulk_decompress` does without compression flags. -/
def copyBytes (bulk : Unit) (bytes : List UInt8) (_ : UInt8) : Option (List UInt8) × Unit :=
  (some bytes, bulk)

/-- A fragment of one byte, uncompressed, and a call that has room for it. -/
def oneByte (updateHeader byte : UInt8) : Call :=
  ⟨⟨true, 65536, 0⟩, [updateHeader, 1, 0, byte]⟩

/-- A rejected `SINGLE` fragment between `FIRST` and `LAST` is delivered with them; and so are a
`FIRST` and a `LAST` of different updates. -/
theorem rejected_single_delivered : ∃ t u : Session Unit,
    run (step copyBytes) (initial ()) [oneByte 0x20 1, oneByte 0x00 2, oneByte 0x10 3] = some t ∧
    t.deliveries.map (fun d => (d.stream, accepted d.received)) =
      [([1, 2, 3], [⟨0, .first, [1]⟩, ⟨0, .last, [3]⟩])] ∧ ¬ t.DeliversUpdates ∧
    run (step copyBytes) (initial ()) [oneByte 0x21 1, oneByte 0x14 2] = some u ∧
    u.deliveries.map (fun d => (d.updateCode, accepted d.received)) =
      [(4, [⟨1, .first, [1]⟩, ⟨4, .last, [2]⟩])] ∧ ¬ u.DeliversUpdates := by
  refine ⟨_, _, rfl, rfl, fun h => ?_, rfl, rfl, fun h => ?_⟩
  · have hone := (h _ mem_cons_self).stream_eq
    exact absurd hone (by decide)
  · have hone := (h _ mem_cons_self).updateCode_eq ⟨1, .first, [1]⟩ mem_cons_self
    exact absurd hone (by decide)

end FastPath
