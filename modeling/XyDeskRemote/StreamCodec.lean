/-
# Writers on a stream and the readers that mirror them

A writer appends bytes to a `wStream` or gives up; a reader takes bytes off the front of what it
is given.  Most formats have one of each, written separately and meant to mirror one another.

`Mirrors n w r res` puts the two side by side: whatever the writer `w` writes when it succeeds, at
least `n` bytes, the reader `r` takes with the outcome `res` and leaves the bytes that follow.
The rules below follow the shape of the two programs, so that a format is gone through once.
-/
import XyDeskRemote.WStream

open LittleEndian List

/-! ## Readers -/

/-- A reader of bytes; it fails where the source leaves its function with an error. -/
abbrev ByteReader (α : Type) := StateT (List UInt8) Option α

namespace ByteReader

variable {α β : Type}

/-- `Stream_CheckAndLogRequiredLength`. -/
def require (n : ℕ) : ByteReader Unit := fun bs => if n ≤ bs.length then some ((), bs) else none

/-- A check that does not look at the stream. -/
def ensure (p : Prop) [Decidable p] : ByteReader Unit := fun bs =>
  if p then some ((), bs) else none

/-- `Stream_Read`. -/
def bytes (n : ℕ) : ByteReader (List UInt8) := fun bs =>
  if n ≤ bs.length then some (bs.take n, bs.drop n) else none

/-- A number of `width` bytes, the low one first. -/
def number (width : ℕ) : ByteReader ℕ := decode <$> bytes width

/-- `Stream_Read_UINT8`. -/
def uint8 : ByteReader ℕ := number 1

/-- `Stream_Read_UINT16`. -/
def uint16 : ByteReader ℕ := number 2

/-- `Stream_Read_UINT32`. -/
def uint32 : ByteReader ℕ := number 4

/-- `Stream_Read_INT16`. -/
def int16 : ByteReader Int16 := (fun v => (UInt16.ofNat v).toInt16) <$> number 2

/-- The same reader, `n` times over. -/
def times (r : ByteReader α) : ℕ → ByteReader (List α)
  | 0 => pure []
  | n + 1 => do
    let x ← r
    let xs ← times r n
    return x :: xs

/-- In front of anything else, `r` takes `bs` off and has the outcome `res`. -/
def Takes (r : ByteReader α) (bs : List UInt8) (res : Option α) : Prop :=
  ∀ rest, r (bs ++ rest) = res.map fun x => (x, rest)

/-- A reader, and then another one. -/
theorem bind_apply (r : ByteReader α) (f : α → ByteReader β) (bs : List UInt8) :
    (r >>= f) bs = (r bs).bind fun p => f p.1 p.2 := rfl

variable {bs : List UInt8}

/-- Both succeed. -/
theorem bind_eq_some {r : ByteReader α} {f : α → ByteReader β} {y : β × List UInt8} :
    (r >>= f) bs = some y ↔ ∃ x mid, r bs = some (x, mid) ∧ f x mid = some y := by
  rw [bind_apply, Option.bind_eq_some_iff, Prod.exists]

/-- What is ensured holds. -/
theorem ensure_bind_eq_some {p : Prop} [Decidable p] {f : Unit → ByteReader β}
    {y : β × List UInt8} :
    (ensure p >>= f) bs = some y ↔ p ∧ f () bs = some y := by
  rw [bind_apply, ensure]
  split <;> simp [*]

/-- A number fits its bytes. -/
theorem number_lt {width v : ℕ} {rest : List UInt8} (h : number width bs = some (v, rest)) :
    v < 256 ^ width := by
  have h : (bytes width bs).bind (fun p => some (decode p.1, p.2)) =
      some (v, rest) := h
  obtain ⟨⟨taken, mid⟩, hbytes, hv⟩ := Option.bind_eq_some_iff.mp h
  obtain ⟨rfl, rfl⟩ := Prod.mk.inj (Option.some.inj hv)
  rw [bytes] at hbytes
  split at hbytes
  · rename_i hle
    obtain ⟨rfl, rfl⟩ := Prod.mk.inj (Option.some.inj hbytes)
    have hlt := decode_lt (bs.take width)
    rwa [length_take, Nat.min_eq_left hle] at hlt
  · exact absurd hbytes (by simp)

/-- Nothing is read. -/
theorem pure_eq_some {x : α} {y : α × List UInt8} :
    (pure x : ByteReader α) bs = some y ↔ y = (x, bs) :=
  Option.some_inj.trans eq_comm

/-- Nothing is taken. -/
theorem takes_pure (x : α) : Takes (pure x) [] (some x) := fun _ => rfl

/-- One part behind the other. -/
theorem Takes.bind {r : ByteReader α} {f : α → ByteReader β} {cs : List UInt8} {x : α}
    {res : Option β} (hr : Takes r bs (some x)) (hf : Takes (f x) cs res) :
    Takes (r >>= f) (bs ++ cs) res := by
  intro rest
  rw [bind_apply, append_assoc, hr (cs ++ rest)]
  exact hf rest

/-- What was read is changed. -/
theorem Takes.map {r : ByteReader α} {x : α} (hr : Takes r bs (some x)) (f : α → β) :
    Takes (f <$> r) bs (some (f x)) := by
  intro rest
  show (r (bs ++ rest)).bind _ = _
  rw [hr rest]
  rfl

/-- There are enough bytes. -/
theorem Takes.require {r : ByteReader β} {res : Option β} {n : ℕ} (hn : n ≤ bs.length)
    (hr : Takes r bs res) :
    Takes (ByteReader.require n >>= fun _ => r) bs res := by
  intro rest
  have hlength : n ≤ (bs ++ rest).length := by
    rw [length_append]
    omega
  rw [bind_apply, ByteReader.require, if_pos hlength]
  exact hr rest

/-- A condition decides. -/
theorem Takes.ensure {r : ByteReader β} {res : Option β} (p : Prop) [Decidable p]
    (hr : Takes r bs res) :
    Takes (ByteReader.ensure p >>= fun _ => r) bs (if p then res else none) := by
  intro rest
  rw [bind_apply, ByteReader.ensure]
  split
  · exact hr rest
  · rfl

/-- Bytes are taken as they are. -/
theorem takes_bytes (bs : List UInt8) : Takes (bytes bs.length) bs (some bs) := by
  intro rest
  rw [bytes, if_pos (by rw [length_append]; omega), take_left, drop_left]
  rfl

/-- A number is read as it was written. -/
theorem takes_number {width v : ℕ} (hv : v < 256 ^ width) :
    Takes (number width) (encode width v) (some v) := by
  have hbytes := (takes_bytes (encode width v)).map decode
  rwa [length_encode, decode_encode_of_lt hv] at hbytes

/-- The same for a signed one. -/
theorem takes_int16 (x : Int16) : Takes int16 (encodeInt16 x) (some x) := by
  have hnumber := (takes_number (show x.toUInt16.toNat < 256 ^ 2 from UInt16.toNat_lt _)).map
    fun v => (UInt16.ofNat v).toInt16
  rwa [UInt16.ofNat_toNat, Int16.toInt16_toUInt16] at hnumber

end ByteReader

/-! ## Writers -/

/-- Why a writer gives up. -/
inductive WriteFault
  /-- An assertion failed: of the function or of the stream under it. -/
  | assertion
  /-- The function returned `FALSE`. -/
  | refused
  deriving DecidableEq

/-- A function that writes to a stream. -/
abbrev StreamWriter := WStream → Except WriteFault WStream

namespace StreamWriter

/-- `Stream_Write`. -/
def bytes (bs : List UInt8) : StreamWriter := fun s =>
  match s.write bs with
  | some t => .ok t
  | none => .error .assertion

/-- `WINPR_ASSERT`. -/
def assert (p : Prop) [Decidable p] : StreamWriter := fun s =>
  if p then .ok s else .error .assertion

/-- A check after which the function returns `FALSE`. -/
def check (p : Prop) [Decidable p] : StreamWriter := fun s =>
  if p then .ok s else .error .refused

/-- `Stream_EnsureRemainingCapacity`. -/
def ensureRemainingCapacity (n : ℕ) : StreamWriter := fun s => .ok (s.ensureRemainingCapacity n)

/-- One writer after the other. -/
def seq : List StreamWriter → StreamWriter
  | [], s => .ok s
  | w :: ws, s => do
    let t ← w s
    seq ws t

/-- `Stream_Write_UINT8` of `get_checked_uint8`. -/
def uint8 (v : ℕ) : StreamWriter := seq [assert (v < 0x100), bytes (encode 1 v)]

/-- `Stream_Write_UINT16` of `get_checked_uint16`. -/
def uint16 (v : ℕ) : StreamWriter := seq [assert (v < 0x10000), bytes (encode 2 v)]

/-- `Stream_Write_UINT32` of a `UINT32`. -/
def uint32 (v : ℕ) : StreamWriter := bytes (encode 4 v)

/-- `Stream_Write_INT16`. -/
def int16 (v : Int16) : StreamWriter := bytes (encodeInt16 v)

/-- `Stream_Write` of the first `n` bytes at a pointer; reading past them is no write. -/
def firstBytes (bs : List UInt8) (n : ℕ) : StreamWriter :=
  seq [assert (n ≤ bs.length), bytes (bs.take n)]

/-- Whenever `w` succeeds it has appended `bs`. -/
def Emits (w : StreamWriter) (bs : List UInt8) : Prop :=
  ∀ s t before, s.Written before 0 → w s = .ok t → t.Written (before ++ bs) 0

/-- Bytes are written as they are. -/
theorem emits_bytes (bs : List UInt8) : Emits (bytes bs) bs := by
  intro s t before hs hw
  rw [bytes] at hw
  split at hw
  next u hu =>
    obtain rfl : u = t := Except.ok.inj hw
    rw [WStream.write] at hu
    split at hu
    next hfits =>
      obtain ⟨hposition, rest, hbuffer, -⟩ := hs
      have hcapacity : s.capacity = before.length + rest.length := by
        rw [WStream.capacity, hbuffer, length_append]
      have hroom : s.Written before bs.length := ⟨hposition, rest, hbuffer, by omega⟩
      obtain ⟨v, hv, hwritten⟩ := hroom.write bs le_rfl
      rw [WStream.write, if_pos hfits, hu] at hv
      obtain rfl := Option.some.inj hv
      exact hwritten.mono (Nat.zero_le _)
    next => cases hu
  next => cases hw

/-- Nothing is written. -/
theorem emits_ensureRemainingCapacity (n : ℕ) : Emits (ensureRemainingCapacity n) [] := by
  intro s t before hs hw
  obtain rfl := Except.ok.inj hw
  rw [append_nil]
  exact (hs.ensureRemainingCapacity n).mono (Nat.zero_le _)

/-- Nothing is written. -/
theorem emits_nil : Emits (seq []) [] := by
  intro s t before hs hw
  obtain rfl := Except.ok.inj hw
  rwa [append_nil]

variable {ws : List StreamWriter}

/-- A sequence that succeeds has succeeded at its first writer. -/
theorem seq_cons_eq_ok {w : StreamWriter} {s t : WStream} (h : seq (w :: ws) s = .ok t) :
    ∃ u, w s = .ok u ∧ seq ws u = .ok t := by
  rw [seq] at h
  cases hfirst : w s with
  | error fault =>
    rw [hfirst] at h
    cases h
  | ok u =>
    rw [hfirst] at h
    exact ⟨u, rfl, h⟩

/-- One writer behind the other. -/
theorem Emits.cons {w : StreamWriter} {bs cs : List UInt8} (hw : Emits w bs)
    (hws : Emits (seq ws) cs) : Emits (seq (w :: ws)) (bs ++ cs) := by
  intro s t before hs hrun
  obtain ⟨u, hfirst, hrest⟩ := seq_cons_eq_ok hrun
  rw [← append_assoc]
  exact hws u t _ (hw s u before hs hfirst) hrest

/-- A run of items. -/
theorem Emits.map {α : Type} {write : α → StreamWriter} {encode : α → List UInt8}
    (h : ∀ x, Emits (write x) (encode x)) (xs : List α) :
    Emits (seq (xs.map write)) (xs.flatMap encode) := by
  induction xs with
  | nil => exact emits_nil
  | cons x xs ih => exact (h x).cons ih

/-- The assertion holds. -/
theorem assert_eq_ok {p : Prop} [Decidable p] {s t : WStream} (h : assert p s = .ok t) :
    p ∧ s = t := by
  rw [assert] at h
  split at h
  next hp => exact ⟨hp, Except.ok.inj h⟩
  next => cases h

/-- Nothing is written. -/
theorem emits_assert (p : Prop) [Decidable p] : Emits (assert p) [] := by
  intro s t before hs hw
  obtain ⟨-, rfl⟩ := assert_eq_ok hw
  rwa [append_nil]

/-- A byte. -/
theorem emits_uint8 (v : ℕ) : Emits (uint8 v) (encode 1 v) :=
  (emits_assert _).cons ((emits_bytes _).cons emits_nil)

/-- The check passes. -/
theorem check_eq_ok {p : Prop} [Decidable p] {s t : WStream} (h : check p s = .ok t) :
    p ∧ s = t := by
  rw [check] at h
  split at h
  next hp => exact ⟨hp, Except.ok.inj h⟩
  next => cases h

/-- With room for `k` bytes `w` succeeds, and leaves the room beyond them. -/
def Fits (k : ℕ) (w : StreamWriter) : Prop :=
  ∀ s before room, s.Written before (k + room) →
    ∃ t bs, w s = .ok t ∧ t.Written (before ++ bs) room

/-- Nothing needs no room. -/
theorem fits_nil : Fits 0 (seq []) := by
  intro s before room hs
  rw [Nat.zero_add] at hs
  exact ⟨s, [], rfl, by rwa [append_nil]⟩

/-- The room for both. -/
theorem Fits.cons {w : StreamWriter} {k l : ℕ} (hw : Fits k w) (hws : Fits l (seq ws)) :
    Fits (k + l) (seq (w :: ws)) := by
  intro s before room hs
  rw [Nat.add_assoc] at hs
  obtain ⟨u, bs, hu, hwritten⟩ := hw s before (l + room) hs
  obtain ⟨t, cs, ht, hdone⟩ := hws u (before ++ bs) room hwritten
  refine ⟨t, bs ++ cs, ?_, by rwa [← append_assoc]⟩
  rw [seq, hu]
  exact ht

/-- The room for bytes. -/
theorem fits_bytes {bs : List UInt8} {k : ℕ} (hk : bs.length = k) : Fits k (bytes bs) := by
  subst hk
  intro s before room hs
  obtain ⟨t, ht, hwritten⟩ := hs.write bs (by omega)
  rw [Nat.add_sub_cancel_left] at hwritten
  exact ⟨t, bs, by rw [bytes, ht], hwritten⟩

/-- An assertion needs no room. -/
theorem fits_assert {p : Prop} [Decidable p] (hp : p) : Fits 0 (assert p) := by
  intro s before room hs
  rw [Nat.zero_add] at hs
  exact ⟨s, [], by rw [assert, if_pos hp], by rwa [append_nil]⟩

/-- The room for a byte. -/
theorem fits_uint8 {v : ℕ} (hv : v < 0x100) : Fits 1 (uint8 v) :=
  (fits_assert hv).cons ((fits_bytes (length_encode 1 v)).cons fits_nil)

/-- The room for two. -/
theorem fits_uint16 {v : ℕ} (hv : v < 0x10000) : Fits 2 (uint16 v) :=
  (fits_assert hv).cons ((fits_bytes (length_encode 2 v)).cons fits_nil)

/-- The room for a list. -/
theorem Fits.map {α : Type} {k : ℕ} {write : α → StreamWriter} (h : ∀ x, Fits k (write x))
    (xs : List α) : Fits (xs.length * k) (seq (xs.map write)) := by
  induction xs with
  | nil =>
    rw [length_nil, Nat.zero_mul]
    exact fits_nil
  | cons x xs ih =>
    rw [length_cons, Nat.succ_mul, Nat.add_comm]
    exact (h x).cons ih

end StreamWriter

/-! ## One next to the other -/

open ByteReader StreamWriter

/-- Where `w` succeeds it has appended bytes, at least `n`, that `r` takes off with the outcome
`res`. -/
def Mirrors {α : Type} (n : ℕ) (w : StreamWriter) (r : ByteReader α) (res : Option α) : Prop :=
  ∀ s t before, s.Written before 0 → w s = .ok t →
    ∃ bs, n ≤ bs.length ∧ t.Written (before ++ bs) 0 ∧ Takes r bs res

namespace Mirrors

variable {α β : Type} {n m : ℕ} {w : StreamWriter} {ws : List StreamWriter}

variable {r : ByteReader α} {res : Option α}

/-- Bytes that the reader takes. -/
theorem of_emits {bs : List UInt8} (hw : Emits w bs) (hn : n ≤ bs.length) (hr : Takes r bs res) :
    Mirrors n w r res :=
  fun s t before hs hrun => ⟨bs, hn, hw s t before hs hrun, hr⟩

/-- Both are at the end. -/
theorem done (x : α) : Mirrors 0 (seq []) (pure x) (some x) :=
  of_emits emits_nil le_rfl (takes_pure x)

/-- Fewer bytes may be promised. -/
theorem mono (h : Mirrors n w r res) (hm : m ≤ n) :
    Mirrors m w r res := by
  intro s t before hs hrun
  obtain ⟨bs, hn, hw, hr⟩ := h s t before hs hrun
  exact ⟨bs, hm.trans hn, hw, hr⟩

/-- A field on both sides. -/
theorem cons {f : α → ByteReader β} {x : α} {res : Option β} (h : Mirrors n w r (some x))
    (hs : Mirrors m (seq ws) (f x) res) :
    Mirrors (n + m) (seq (w :: ws)) (r >>= f) res := by
  intro s t before hwritten hrun
  obtain ⟨u, hfirst, hrest⟩ := seq_cons_eq_ok hrun
  obtain ⟨bs, hn, hw, hr⟩ := h s u before hwritten hfirst
  obtain ⟨cs, hm, hws, hf⟩ := hs u t (before ++ bs) hw hrest
  refine ⟨bs ++ cs, ?_, ?_, hr.bind hf⟩
  · rw [length_append]
    exact Nat.add_le_add hn hm
  · rwa [← append_assoc]

/-- A step of the writer that writes nothing. -/
theorem silent (hw : Emits w []) (hs : Mirrors m (seq ws) r res) :
    Mirrors m (seq (w :: ws)) r res := by
  intro s t before hwritten hrun
  obtain ⟨u, hfirst, hrest⟩ := seq_cons_eq_ok hrun
  have hu := hw s u before hwritten hfirst
  rw [append_nil] at hu
  exact hs u t before hu hrest

/-- Behind an assertion of the writer, what it asserts can be used. -/
theorem assert {p : Prop} [Decidable p] (hs : p → Mirrors m (seq ws) r res) :
    Mirrors m (seq (StreamWriter.assert p :: ws)) r res := by
  intro s t before hwritten hrun
  obtain ⟨u, hfirst, hrest⟩ := seq_cons_eq_ok hrun
  obtain ⟨hp, rfl⟩ := assert_eq_ok hfirst
  exact hs hp s t before hwritten hrest

/-- Only where the check passes. -/
theorem check {p : Prop} [Decidable p] (hs : p → Mirrors m (seq ws) r res) :
    Mirrors m (seq (StreamWriter.check p :: ws)) r res := by
  intro s t before hwritten hrun
  obtain ⟨u, hfirst, hrest⟩ := seq_cons_eq_ok hrun
  obtain ⟨hp, rfl⟩ := check_eq_ok hfirst
  exact hs hp s t before hwritten hrest

/-- A last step that is a writer of its own. -/
theorem last (h : Mirrors n w r res) :
    Mirrors n (seq [w]) r res := by
  intro s t before hs hrun
  obtain ⟨u, hfirst, hrest⟩ := seq_cons_eq_ok hrun
  obtain rfl := Except.ok.inj hrest
  exact h s u before hs hfirst

/-- The reader asks for bytes that the writer has written. -/
theorem require (h : Mirrors n w r res) (hm : m ≤ n) :
    Mirrors n w (ByteReader.require m >>= fun _ => r) res := by
  intro s t before hs hrun
  obtain ⟨bs, hn, hw, hr⟩ := h s t before hs hrun
  exact ⟨bs, hn, hw, hr.require (hm.trans hn)⟩

/-- The reader checks something. -/
theorem ensure (h : Mirrors n w r res) (p : Prop) [Decidable p] :
    Mirrors n w (ByteReader.ensure p >>= fun _ => r) (if p then res else none) := by
  intro s t before hs hrun
  obtain ⟨bs, hn, hw, hr⟩ := h s t before hs hrun
  exact ⟨bs, hn, hw, hr.ensure p⟩

/-- The reader checks something that holds. -/
theorem passes {p : Prop} [Decidable p] (hp : p) (h : Mirrors n w r res) :
    Mirrors n w (ByteReader.ensure p >>= fun _ => r) res := by
  have hchecked := h.ensure p
  rwa [if_pos hp] at hchecked

/-- What was read is changed. -/
theorem map {x : α} (h : Mirrors n w r (some x)) (f : α → β) :
    Mirrors n w (f <$> r) (some (f x)) := by
  intro s t before hs hrun
  obtain ⟨bs, hn, hw, hr⟩ := h s t before hs hrun
  exact ⟨bs, hn, hw, hr.map f⟩

/-- Bytes of a known number. -/
theorem rawBytes {bs : List UInt8} {k : ℕ} (hk : bs.length = k) :
    Mirrors k (StreamWriter.bytes bs) (ByteReader.bytes k) (some bs) := by
  subst hk
  exact of_emits (emits_bytes bs) le_rfl (takes_bytes bs)

/-- A number. -/
theorem number {width v : ℕ} (hv : v < 256 ^ width) :
    Mirrors width (StreamWriter.bytes (encode width v)) (ByteReader.number width)
      (some v) :=
  of_emits (emits_bytes _) (length_encode width v).ge (takes_number hv)

/-- A byte. -/
theorem uint8 (v : ℕ) : Mirrors 1 (StreamWriter.uint8 v) ByteReader.uint8 (some v) :=
  assert fun hv => last (number hv)

/-- Two bytes. -/
theorem uint16 (v : ℕ) : Mirrors 2 (StreamWriter.uint16 v) ByteReader.uint16 (some v) :=
  assert fun hv => last (number hv)

/-- Four bytes. -/
theorem uint32 {v : ℕ} (hv : v < 0x100000000) :
    Mirrors 4 (StreamWriter.uint32 v) ByteReader.uint32 (some v) := number hv

/-- A signed number. -/
theorem int16 (v : Int16) : Mirrors 2 (StreamWriter.int16 v) ByteReader.int16 (some v) :=
  of_emits (emits_bytes _) (length_encode 2 _).ge (takes_int16 v)

/-- The first bytes of a list. -/
theorem bytes (bs : List UInt8) (k : ℕ) :
    Mirrors k (firstBytes bs k) (ByteReader.bytes k) (some (bs.take k)) :=
  assert fun hk => last (rawBytes (by rw [length_take]; omega))

/-- A run of items, each of which is read back. -/
theorem times {k : ℕ} {write : α → StreamWriter} {xs : List α}
    (h : ∀ x ∈ xs, Mirrors k (write x) r (some x)) :
    Mirrors (xs.length * k) (seq (xs.map write)) (ByteReader.times r xs.length) (some xs) := by
  induction xs with
  | nil => exact (done []).mono (Nat.le_of_eq (Nat.zero_mul k))
  | cons x xs ih =>
    have hrest := ih fun y hy => h y (mem_cons_of_mem x hy)
    have hall : Mirrors (k + xs.length * k) (seq (write x :: xs.map write))
        (r >>= fun y => (y :: ·) <$> ByteReader.times r xs.length) (some (x :: xs)) :=
      (h x mem_cons_self).cons (hrest.map (x :: ·))
    rw [length_cons, Nat.succ_mul, Nat.add_comm]
    exact hall

end Mirrors

/-! ## Where the two part -/

/-- What `w` appends, at least `n` bytes, `r` does not take off to its end. -/
def Strands {α : Type} (n : ℕ) (w : StreamWriter) (r : ByteReader α) : Prop :=
  ∀ s t before, s.Written before 0 → w s = .ok t →
    ∃ bs, n ≤ bs.length ∧ t.Written (before ++ bs) 0 ∧ ∀ x, r bs ≠ some (x, [])

namespace Strands

variable {α β : Type} {n m : ℕ} {w : StreamWriter} {ws : List StreamWriter}

variable {r : ByteReader α}

/-- Bytes that the reader refuses. -/
theorem of_emits {bs : List UInt8} (hw : Emits w bs) (hn : n ≤ bs.length)
    (hr : ∀ x, r bs ≠ some (x, [])) : Strands n w r :=
  fun s t before hs hrun => ⟨bs, hn, hw s t before hs hrun, hr⟩

/-- A field on both sides, in front of where they part. -/
theorem cons {f : α → ByteReader β} {x : α} (h : Mirrors n w r (some x))
    (hs : Strands m (seq ws) (f x)) : Strands (n + m) (seq (w :: ws)) (r >>= f) := by
  intro s t before hwritten hrun
  obtain ⟨u, hfirst, hrest⟩ := seq_cons_eq_ok hrun
  obtain ⟨bs, hn, hw, hr⟩ := h s u before hwritten hfirst
  obtain ⟨cs, hm, hws, hf⟩ := hs u t (before ++ bs) hw hrest
  refine ⟨bs ++ cs, ?_, ?_, fun y => ?_⟩
  · rw [length_append]
    exact Nat.add_le_add hn hm
  · rwa [← append_assoc]
  · rw [bind_apply, hr cs]
    exact hf y

/-- A writer that writes nothing. -/
theorem silent (hw : Emits w []) (hs : Strands m (seq ws) r) :
    Strands m (seq (w :: ws)) r := by
  intro s t before hwritten hrun
  obtain ⟨u, hfirst, hrest⟩ := seq_cons_eq_ok hrun
  have hu := hw s u before hwritten hfirst
  rw [append_nil] at hu
  exact hs u t before hu hrest

/-- Only where the check passes. -/
theorem check {p : Prop} [Decidable p] (hs : p → Strands m (seq ws) r) :
    Strands m (seq (StreamWriter.check p :: ws)) r := by
  intro s t before hwritten hrun
  obtain ⟨u, hfirst, hrest⟩ := seq_cons_eq_ok hrun
  obtain ⟨hp, rfl⟩ := check_eq_ok hfirst
  exact hs hp s t before hwritten hrest

/-- The reader has enough bytes. -/
theorem require (h : Strands n w r) (hm : m ≤ n) :
    Strands n w (ByteReader.require m >>= fun _ => r) := by
  intro s t before hs hrun
  obtain ⟨bs, hn, hw, hr⟩ := h s t before hs hrun
  refine ⟨bs, hn, hw, fun x => ?_⟩
  rw [bind_apply, ByteReader.require, if_pos (hm.trans hn)]
  exact hr x

/-- The reader's check passes. -/
theorem passes {p : Prop} [Decidable p] (hp : p) (h : Strands n w r) :
    Strands n w (ByteReader.ensure p >>= fun _ => r) := by
  intro s t before hs hrun
  obtain ⟨bs, hn, hw, hr⟩ := h s t before hs hrun
  refine ⟨bs, hn, hw, fun x => ?_⟩
  rw [bind_apply, ByteReader.ensure, if_pos hp]
  exact hr x

end Strands
