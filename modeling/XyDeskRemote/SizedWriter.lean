/-
# Writers that report

A function that writes to a `wStream` and returns something, a size for instance, next to the
`StreamWriter`s that return nothing.  Numbers are written the high byte first.

`Appends n w bs a m` is what such a writer is known by: with room for `n` bytes it succeeds, has
appended `bs`, returns `a` and leaves room for `m` bytes.
-/
import XyDeskRemote.StreamCodec

/-! ## Numbers, the high byte first -/

namespace BigEndian

/-- The low `width` bytes of `n`, most significant first. -/
def encode (width n : ℕ) : List UInt8 := (LittleEndian.encode width n).reverse

/-- The number whose bytes are given, most significant first. -/
def decode (bs : List UInt8) : ℕ := LittleEndian.decode bs.reverse

@[simp] theorem length_encode (width n : ℕ) : (encode width n).length = width := by
  rw [encode, List.length_reverse, LittleEndian.length_encode]

theorem decode_encode_of_lt {width n : ℕ} (h : n < 256 ^ width) : decode (encode width n) = n := by
  rw [decode, encode, List.reverse_reverse, LittleEndian.decode_encode_of_lt h]

end BigEndian

namespace ByteReader

/-- A number of `width` bytes, the high one first. -/
def numberBE (width : ℕ) : ByteReader ℕ := BigEndian.decode <$> bytes width

/-- `Stream_Read_UINT16_BE`. -/
def uint16BE : ByteReader ℕ := numberBE 2

/-- `Stream_Read_UINT32_BE`. -/
def uint32BE : ByteReader ℕ := numberBE 4

theorem takes_numberBE {width v : ℕ} (hv : v < 256 ^ width) :
    Takes (numberBE width) (BigEndian.encode width v) (some v) := by
  have hbytes := (takes_bytes (BigEndian.encode width v)).map BigEndian.decode
  rwa [BigEndian.length_encode, BigEndian.decode_encode_of_lt hv] at hbytes

theorem takes_uint8 {v : ℕ} (hv : v < 0x100) : Takes uint8 [UInt8.ofNat v] (some v) :=
  @takes_number 1 v hv

/-- A check that holds. -/
theorem Takes.passes {α : Type} {r : ByteReader α} {bs : List UInt8} {res : Option α} {p : Prop}
    [Decidable p] (hp : p) (hr : Takes r bs res) :
    Takes (ByteReader.ensure p >>= fun _ => r) bs res := by
  have hensure := hr.ensure p
  rwa [if_pos hp] at hensure

/-- A check that does not hold. -/
theorem Takes.stops {α : Type} {r : ByteReader α} (bs : List UInt8) {p : Prop} [Decidable p]
    (hp : ¬p) : Takes (ByteReader.ensure p >>= fun _ => r) bs none := by
  intro rest
  rw [bind_apply, ByteReader.ensure, if_neg hp]
  rfl

theorem takes_failure {α : Type} (bs : List UInt8) : Takes (failure : ByteReader α) bs none :=
  fun _ => rfl

/-- What is taken off to the end. -/
theorem Takes.eq {α : Type} {r : ByteReader α} {bs : List UInt8} {res : Option α}
    (h : Takes r bs res) : r bs = res.map fun x => (x, []) := by
  have hall := h []
  rwa [List.append_nil] at hall

end ByteReader

/-! ## Writers -/

/-- A function that writes to a stream and returns something. -/
abbrev SizedWriter (α : Type) := StateT WStream (Except WriteFault) α

namespace SizedWriter

variable {α β : Type}

/-- A writer that returns nothing. -/
def lift (w : StreamWriter) : SizedWriter Unit := fun s => (w s).map ((), ·)

/-- `WINPR_ASSERT`. -/
def assert (p : Prop) [Decidable p] : SizedWriter Unit := lift (StreamWriter.assert p)

/-- A check after which the function returns `FALSE`. -/
def check (p : Prop) [Decidable p] : SizedWriter Unit := lift (StreamWriter.check p)

/-- `Stream_EnsureRemainingCapacity`. -/
def ensureRemainingCapacity (n : ℕ) : SizedWriter Unit :=
  lift (StreamWriter.ensureRemainingCapacity n)

/-- `Stream_GetRemainingCapacity`. -/
def getRemainingCapacity : SizedWriter ℕ := fun s => .ok (s.capacity - s.position, s)

/-- `Stream_Write`. -/
def bytes (bs : List UInt8) : SizedWriter Unit := lift (StreamWriter.bytes bs)

/-- `Stream_Write_UINT8`. -/
def uint8 (v : ℕ) : SizedWriter Unit := do
  assert (v ≤ 0xFF)
  bytes [UInt8.ofNat v]

/-- `Stream_Write_UINT16_BE`. -/
def uint16BE (v : ℕ) : SizedWriter Unit := do
  assert (v ≤ 0xFFFF)
  bytes (BigEndian.encode 2 v)

/-- `Stream_Write_UINT32_BE`. -/
def uint32BE (v : ℕ) : SizedWriter Unit := bytes (BigEndian.encode 4 v)

/-- With room for `n` bytes `w` succeeds, has appended `bs`, returns `a` and leaves room for
`m` bytes. -/
def Appends (n : ℕ) (w : SizedWriter α) (bs : List UInt8) (a : α) (m : ℕ) : Prop :=
  ∀ s before, s.Written before n → ∃ t, w s = .ok (a, t) ∧ t.Written (before ++ bs) m

theorem bind_apply (w : SizedWriter α) (f : α → SizedWriter β) (s : WStream) :
    (w >>= f) s = (w s).bind fun p => f p.1 p.2 := rfl

theorem bind_fails {w : SizedWriter α} {f : α → SizedWriter β}
    (hf : ∀ a t, ∃ fault, f a t = .error fault) (s : WStream) :
    ∃ fault, (w >>= f) s = .error fault := by
  rw [bind_apply]
  cases w s with
  | error fault => exact ⟨fault, rfl⟩
  | ok p => exact hf p.1 p.2

theorem map_fails {w : SizedWriter α} {s : WStream} (hw : ∃ fault, w s = .error fault)
    (f : α → β) : ∃ fault, (f <$> w) s = .error fault := by
  obtain ⟨fault, hfault⟩ := hw
  refine ⟨fault, ?_⟩
  show (w s).bind _ = _
  rw [hfault]
  rfl

variable {n m k : ℕ} {bs cs : List UInt8}

theorem appends_pure (a : α) (n : ℕ) : Appends n (pure a : SizedWriter α) [] a n := by
  intro s before hs
  exact ⟨s, rfl, by rwa [List.append_nil]⟩

theorem Appends.bind {w : SizedWriter α} {f : α → SizedWriter β} {a : α} {b : β}
    (hw : Appends n w bs a m) (hf : Appends m (f a) cs b k) :
    Appends n (w >>= f) (bs ++ cs) b k := by
  intro s before hs
  obtain ⟨t, ht, hwritten⟩ := hw s before hs
  obtain ⟨u, hu, hdone⟩ := hf t (before ++ bs) hwritten
  refine ⟨u, ?_, by rwa [← List.append_assoc]⟩
  rw [bind_apply, ht]
  exact hu

theorem Appends.mono {w : SizedWriter α} {a : α} {n' m' : ℕ} (h : Appends n w bs a m)
    (hn : n ≤ n') (hm : m' ≤ m) : Appends n' w bs a m' := by
  intro s before hs
  obtain ⟨t, ht, hwritten⟩ := h s before (hs.mono hn)
  exact ⟨t, ht, hwritten.mono hm⟩

theorem Appends.map {w : SizedWriter α} {a : α} (h : Appends n w bs a m) (f : α → β) :
    Appends n (f <$> w) bs (f a) m := by
  intro s before hs
  obtain ⟨t, ht, hwritten⟩ := h s before hs
  refine ⟨t, ?_, hwritten⟩
  show (w s).bind _ = _
  rw [ht]
  rfl

/-- A step that writes nothing. -/
theorem Appends.after {w : SizedWriter Unit} {f : Unit → SizedWriter β} {b : β}
    (hw : Appends n w [] () m) (hf : Appends m (f ()) cs b k) : Appends n (w >>= f) cs b k :=
  hw.bind hf

theorem appends_assert {p : Prop} [Decidable p] (hp : p) (n : ℕ) :
    Appends n (assert p) [] () n := by
  intro s before hs
  refine ⟨s, ?_, by rwa [List.append_nil]⟩
  rw [assert, lift, StreamWriter.assert, if_pos hp]
  rfl

theorem appends_check {p : Prop} [Decidable p] (hp : p) (n : ℕ) :
    Appends n (check p) [] () n := by
  intro s before hs
  refine ⟨s, ?_, by rwa [List.append_nil]⟩
  rw [check, lift, StreamWriter.check, if_pos hp]
  rfl

/-- Room that is asked for is there. -/
theorem appends_ensureRemainingCapacity (k : ℕ) :
    Appends n (ensureRemainingCapacity k) [] () k := by
  intro s before hs
  refine ⟨s.ensureRemainingCapacity k, rfl, ?_⟩
  rw [List.append_nil]
  exact hs.ensureRemainingCapacity k

theorem appends_bytes (h : bs.length ≤ n) :
    Appends n (bytes bs) bs () (n - bs.length) := by
  intro s before hs
  obtain ⟨t, ht, hwritten⟩ := hs.write bs h
  refine ⟨t, ?_, hwritten⟩
  rw [bytes, lift, StreamWriter.bytes, ht]
  rfl

theorem appends_uint8 {v : ℕ} (hv : v ≤ 0xFF) (hn : 1 ≤ n) :
    Appends n (uint8 v) [UInt8.ofNat v] () (n - 1) :=
  (appends_assert hv n).after (appends_bytes hn)

theorem appends_uint16BE {v : ℕ} (hv : v ≤ 0xFFFF) (hn : 2 ≤ n) :
    Appends n (uint16BE v) (BigEndian.encode 2 v) () (n - 2) := by
  have hbytes := @appends_bytes n (BigEndian.encode 2 v) (by rwa [BigEndian.length_encode])
  rw [BigEndian.length_encode] at hbytes
  exact (appends_assert hv n).after hbytes

theorem appends_uint32BE (v : ℕ) (hn : 4 ≤ n) :
    Appends n (uint32BE v) (BigEndian.encode 4 v) () (n - 4) := by
  have hbytes := @appends_bytes n (BigEndian.encode 4 v) (by rwa [BigEndian.length_encode])
  rwa [BigEndian.length_encode] at hbytes

theorem Appends.room {f : ℕ → SizedWriter β} {b : β}
    (hf : ∀ room, n ≤ room → Appends n (f room) cs b k) :
    Appends n (getRemainingCapacity >>= f) cs b k := by
  intro s before hs
  obtain ⟨hposition, rest, hbuffer, hroom⟩ := id hs
  have hcapacity : s.capacity = before.length + rest.length := by
    rw [WStream.capacity, hbuffer, List.length_append]
  exact hf (s.capacity - s.position) (by omega) s before hs

/-- With room for `bs`, `w` appends it and returns how many bytes these are. -/
def Reports (w : SizedWriter ℕ) (bs : List UInt8) : Prop :=
  ∀ n, bs.length ≤ n → Appends n w bs bs.length (n - bs.length)

/-- The number of bytes is added to what was written before. -/
theorem Reports.plus {v : SizedWriter ℕ} (hv : Reports v cs) (hn : cs.length ≤ n) (k : ℕ) :
    Appends n (do let y ← v; return k + y) cs (k + cs.length) (n - cs.length) := by
  have hall := (hv n hn).bind (f := fun y => (pure (k + y) : SizedWriter ℕ)) (appends_pure _ _)
  rwa [List.append_nil] at hall

/-- The numbers of bytes of two writers are added up. -/
theorem Reports.add {w v : SizedWriter ℕ} (hw : Reports w bs) (hv : Reports v cs) :
    Reports (do let x ← w; let y ← v; return x + y) (bs ++ cs) := by
  intro n hn
  rw [List.length_append] at hn ⊢
  rw [Nat.sub_add_eq]
  exact (hw n (by omega)).bind (hv.plus (by omega) bs.length)

/-- A run of bytes, one after the other. -/
theorem appends_forM_uint8 (bs : List UInt8) (h : bs.length ≤ n) :
    Appends n (bs.forM fun b => uint8 b.toNat) bs () (n - bs.length) := by
  induction bs generalizing n with
  | nil => exact appends_pure () n
  | cons b bs ih =>
    rw [List.length_cons] at h
    have hfirst := appends_uint8 (n := n) (Nat.le_of_lt_succ b.toNat_lt) (by omega)
    rw [UInt8.ofNat_toNat] at hfirst
    have hroom : n - (b :: bs).length = n - 1 - bs.length := by
      rw [List.length_cons]
      omega
    rw [hroom]
    exact hfirst.bind (ih (by omega))

end SizedWriter
