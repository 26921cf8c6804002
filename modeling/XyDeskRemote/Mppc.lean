/-
# MPPC decompression

`mppc_decompress` reads tokens from a bit stream and appends bytes to a history: literals, and
matches that repeat bytes of the history.  Every load of the source and every access to the
history is checked here, and one that is out of range is `none`.
-/
import XyDeskRemote.LabelledRun
import XyDeskRemote.WBitStream

open List Option

namespace Mppc

open LabelledRun

/-! ## The source -/

section Source

/-- A byte of the source, or zero behind its end; `none` is a load behind the end. -/
def loadByte (bs : WBitStream) (i : ℕ) : Option (BitVec 32) :=
  if bs.pointer + i < bs.buffer.length then
    bs.buffer[bs.pointer + i]?.map fun b => b.toBitVec.setWidth 32
  else some 0

/-- Four bytes from `pointer[i]` on. -/
def loadWord (bs : WBitStream) (i : ℕ) : Option (BitVec 32) := do
  let b0 ← loadByte bs i
  let b1 ← loadByte bs (i + 1)
  let b2 ← loadByte bs (i + 2)
  let b3 ← loadByte bs (i + 3)
  return b0 <<< 24 ||| b1 <<< 16 ||| b2 <<< 8 ||| b3

/-- `BitStream_Prefetch`, with its loads checked. -/
def prefetch (bs : WBitStream) : Option WBitStream :=
  (loadWord bs 4).map fun prefetch => { bs with prefetch }

/-- `BitStream_Fetch`, with its loads checked. -/
def fetch (bs : WBitStream) : Option WBitStream := do
  let accumulator ← loadWord bs 0
  prefetch { bs with accumulator }

/-- `BitStream_Shift`, with its loads checked. -/
def shift (bs : WBitStream) (nbits : ℕ) : Option WBitStream :=
  if nbits = 0 ∨ 32 ≤ nbits then some bs
  else
    let offset := bs.offset + nbits
    let bs := { bs with
      accumulator :=
        bs.accumulator <<< nbits ||| (bs.prefetch >>> (32 - nbits) &&& WBitStream.mask nbits)
      position := (bs.position + nbits) % 2 ^ 32
      prefetch := bs.prefetch <<< nbits
      offset }
    if offset < 32 then some bs
    else
      let offset := offset - 32
      (prefetch { bs with offset, pointer := bs.pointer + 4 }).map fun bs =>
        if offset = 0 then bs
        else
          { bs with
            accumulator :=
              bs.accumulator ||| (bs.prefetch >>> (32 - offset) &&& WBitStream.mask offset)
            prefetch := bs.prefetch <<< offset }

theorem loadByte_eq (bs : WBitStream) (i : ℕ) : loadByte bs i = some (bs.byteAt i) := by
  rw [loadByte, WBitStream.byteAt, getD_eq_getElem?_getD]
  split
  next hin =>
    rw [getElem?_eq_getElem hin]
    rfl
  next hout =>
    rw [getElem?_eq_none (Nat.le_of_not_lt hout)]
    rfl

theorem loadWord_eq (bs : WBitStream) (i : ℕ) : loadWord bs i = some (bs.wordAt i) := by
  simp only [loadWord, loadByte_eq]
  rfl

theorem prefetch_eq (bs : WBitStream) : prefetch bs = some bs.fetchNext := by
  rw [prefetch, loadWord_eq]
  rfl

theorem fetch_eq (bs : WBitStream) : fetch bs = some bs.fetch := by
  rw [fetch, loadWord_eq]
  exact prefetch_eq _

theorem shift_eq (bs : WBitStream) (nbits : ℕ) : shift bs nbits = some (bs.shift nbits) := by
  unfold shift WBitStream.shift
  split
  · rfl
  · dsimp only
    rw [prefetch_eq]
    split <;> rfl

end Source

/-! ## The tokens -/

/-- A code of a number: which words it begins, where its lower bits are, what they are added to,
and how long it is. -/
structure Code where
  mask : BitVec 32
  value : BitVec 32
  shiftRight : ℕ
  lower : BitVec 32
  base : ℕ
  bits : ℕ

/-- The codes of CopyOffset. -/
def copyOffsetCodes (compressionLevel : ℕ) : List Code :=
  if compressionLevel ≠ 0 then
    [⟨0xF8000000, 0xF8000000, 21, 0x3F, 0, 11⟩,
      ⟨0xF8000000, 0xF0000000, 19, 0xFF, 64, 13⟩,
      ⟨0xF0000000, 0xE0000000, 17, 0x7FF, 320, 15⟩,
      ⟨0xE0000000, 0xC0000000, 13, 0xFFFF, 2368, 19⟩]
  else
    [⟨0xF0000000, 0xF0000000, 22, 0x3F, 0, 10⟩,
      ⟨0xF0000000, 0xE0000000, 20, 0xFF, 64, 12⟩,
      ⟨0xE0000000, 0xC0000000, 16, 0x1FFF, 320, 16⟩]

/-- The codes of LengthOfMatch. -/
def lengthOfMatchCodes (compressionLevel : ℕ) : List Code :=
  [⟨0x80000000, 0x00000000, 0, 0, 3, 1⟩,
    ⟨0xC0000000, 0x80000000, 28, 0x0003, 0x0004, 4⟩,
    ⟨0xE0000000, 0xC0000000, 26, 0x0007, 0x0008, 6⟩,
    ⟨0xF0000000, 0xE0000000, 24, 0x000F, 0x0010, 8⟩,
    ⟨0xF8000000, 0xF0000000, 22, 0x001F, 0x0020, 10⟩,
    ⟨0xFC000000, 0xF8000000, 20, 0x003F, 0x0040, 12⟩,
    ⟨0xFE000000, 0xFC000000, 18, 0x007F, 0x0080, 14⟩,
    ⟨0xFF000000, 0xFE000000, 16, 0x00FF, 0x0100, 16⟩,
    ⟨0xFF800000, 0xFF000000, 14, 0x01FF, 0x0200, 18⟩,
    ⟨0xFFC00000, 0xFF800000, 12, 0x03FF, 0x0400, 20⟩,
    ⟨0xFFE00000, 0xFFC00000, 10, 0x07FF, 0x0800, 22⟩,
    ⟨0xFFF00000, 0xFFE00000, 8, 0x0FFF, 0x1000, 24⟩] ++
  if compressionLevel ≠ 0 then
    [⟨0xFFF80000, 0xFFF00000, 6, 0x1FFF, 0x2000, 26⟩,
      ⟨0xFFFC0000, 0xFFF80000, 4, 0x3FFF, 0x4000, 28⟩,
      ⟨0xFFFE0000, 0xFFFC0000, 2, 0x7FFF, 0x8000, 30⟩]
  else []

/-- The number whose code the word begins with, and the length of the code. -/
def decode (codes : List Code) (accumulator : BitVec 32) : Option (ℕ × ℕ) :=
  (codes.find? fun c => accumulator &&& c.mask = c.value).map fun c =>
    (((accumulator >>> c.shiftRight) &&& c.lower).toNat + c.base, c.bits)

/-! ## The history -/

/-- What `mppc_decompress` has on its way. -/
structure State where
  bs : WBitStream
  historyBuffer : List UInt8
  historyPtr : ℕ

/-- A byte of the history; `none` is an index that is not below the size. -/
def load (historyBufferSize : ℕ) (historyBuffer : List UInt8) (i : ℕ) : Option UInt8 :=
  if i < historyBufferSize then historyBuffer[i]? else none

/-- A byte is stored in the history; `none` is an index that is not below the size. -/
def store (historyBufferSize : ℕ) (historyBuffer : List UInt8) (i : ℕ) (b : UInt8) :
    Option (List UInt8) :=
  if i < historyBufferSize ∧ i < historyBuffer.length then some (historyBuffer.set i b) else none

/-- `*HistoryPtr++ = *SrcPtr++`, again and again. -/
def copyLoop (historyBufferSize : ℕ) : ℕ → List UInt8 → ℕ → ℕ → Option (List UInt8)
  | 0, historyBuffer, _, _ => some historyBuffer
  | lengthOfMatch + 1, historyBuffer, historyPtr, srcPtr => do
    let b ← load historyBufferSize historyBuffer srcPtr
    let historyBuffer ← store historyBufferSize historyBuffer historyPtr b
    copyLoop historyBufferSize lengthOfMatch historyBuffer (historyPtr + 1) (srcPtr + 1)

/-- A literal of `nbits` bits. -/
def literal (historyBufferSize : ℕ) (s : State) (value : BitVec 32) (nbits : ℕ) :
    Option (Except ℤ State) := do
  let historyBuffer ← store historyBufferSize s.historyBuffer s.historyPtr value.toNat.toUInt8
  let bs ← shift s.bs nbits
  return .ok { bs, historyBuffer, historyPtr := s.historyPtr + 1 }

/-- A match. -/
def copyMatch (compressionLevel historyBufferSize : ℕ) (s : State)
    (copyOffset lengthOfMatch : ℕ) : Option (Except ℤ State) :=
  if s.historyPtr + lengthOfMatch - 1 > historyBufferSize - 1 then some (.error (-1005))
  else
    let srcPtr :=
      (((s.historyPtr : ℤ) - copyOffset) % (if compressionLevel ≠ 0 then 0x10000 else 0x2000)).toNat
    if srcPtr + lengthOfMatch > historyBufferSize - 1 then some (.error (-1006))
    else do
      let historyBuffer ←
        copyLoop historyBufferSize lengthOfMatch s.historyBuffer s.historyPtr srcPtr
      return .ok { s with historyBuffer, historyPtr := s.historyPtr + lengthOfMatch }

/-- A round of the loop: an error code, or how it goes on; `none` is an access out of range. -/
def round (compressionLevel historyBufferSize : ℕ) (s : State) : Option (Except ℤ State) :=
  let accumulator := s.bs.accumulator
  if s.historyPtr > historyBufferSize - 1 then some (.error (-1004))
  else if accumulator &&& 0x80000000 = 0x00000000 then
    literal historyBufferSize s ((accumulator &&& 0x7F000000) >>> 24) 8
  else if accumulator &&& 0xC0000000 = 0x80000000 then
    literal historyBufferSize s (((accumulator &&& 0x3F800000) >>> 23) + 0x80) 9
  else
    match decode (copyOffsetCodes compressionLevel) accumulator with
    | none => some (.error (if compressionLevel ≠ 0 then -1001 else -1002))
    | some (copyOffset, nbits) => do
      let bs ← shift s.bs nbits
      match decode (lengthOfMatchCodes compressionLevel) bs.accumulator with
      | none => some (.error (-1003))
      | some (lengthOfMatch, nbits) =>
        let bs ← shift bs nbits
        copyMatch compressionLevel historyBufferSize { s with bs } copyOffset lengthOfMatch

/-- How the loop ends. -/
inductive Exit
  | fault
  | error (status : ℤ) (s : State)
  | done (s : State)

/-- The loop, cut off by `fuel`. -/
def loop (compressionLevel historyBufferSize : ℕ) : ℕ → State → Option Exit
  | 0, _ => none
  | fuel + 1, s =>
    if s.bs.getRemainingLength ≥ 8 then
      match round compressionLevel historyBufferSize s with
      | none => some .fault
      | some (.error status) => some (.error status s)
      | some (.ok s) => loop compressionLevel historyBufferSize fuel s
    else some (.done s)

/-! ## The context -/

/-- What `mppc_decompress` uses of `MPPC_CONTEXT`. -/
structure Context where
  compressionLevel : ℕ
  historyBufferSize : ℕ
  historyBuffer : List UInt8
  historyPtr : ℕ

/-- `mppc_set_compression_level`. -/
def Context.setCompressionLevel (mppc : Context) (compressionLevel : ℕ) : Context :=
  if compressionLevel < 1 then { mppc with compressionLevel := 0, historyBufferSize := 8192 }
  else { mppc with compressionLevel := 1, historyBufferSize := 65536 }

/-- `mppc_context_reset`. -/
def Context.reset (mppc : Context) : Context :=
  { mppc with historyBuffer := replicate 65536 0, historyPtr := 0 }

/-- `mppc_context_new`. -/
def contextNew (compressionLevel : ℕ) : Context :=
  (Context.setCompressionLevel ⟨0, 0, replicate 65536 0, 0⟩ compressionLevel).reset

/-- `*ppDstData` and `*pDstSize`. -/
inductive Output
  | source (size : ℕ)
  | history (start size : ℕ)

/-- What comes of a call: an access out of range, or a context, a status and the output. -/
inductive Answer
  | fault
  | returns (mppc : Context) (status : ℤ) (output : Option Output)

/-- `PACKET_AT_FRONT` and `PACKET_FLUSHED`. -/
def Context.prepare (mppc : Context) (flags : ℕ) : Context :=
  let mppc := if flags &&& 0x40 ≠ 0 then { mppc with historyPtr := 0 } else mppc
  if flags &&& 0x80 ≠ 0 then
    { mppc with
      historyPtr := 0
      historyBuffer := replicate mppc.historyBufferSize 0 ++
        mppc.historyBuffer.drop mppc.historyBufferSize }
  else mppc

/-- `mppc_decompress`; its loop is cut off by `fuel`. -/
def decompress (fuel : ℕ) (mppc : Context) (src : List UInt8) (flags : ℕ) : Option Answer :=
  match fetch (WBitStream.attach src) with
  | none => some .fault
  | some bs =>
    let mppc := mppc.prepare flags
    if flags &&& 0x20 = 0 then some (.returns mppc 1 (some (.source src.length)))
    else
      (loop mppc.compressionLevel mppc.historyBufferSize fuel
        ⟨bs, mppc.historyBuffer, mppc.historyPtr⟩).map fun
          | .fault => .fault
          | .error status s => .returns { mppc with historyBuffer := s.historyBuffer } status none
          | .done s =>
            .returns { mppc with historyBuffer := s.historyBuffer, historyPtr := s.historyPtr } 1
              (some (.history mppc.historyPtr (s.historyPtr - mppc.historyPtr)))

/-- What may be done with a context. -/
inductive Call
  | decompress (src : List UInt8) (flags : ℕ)
  | setCompressionLevel (compressionLevel : ℕ)
  | reset

/-- A call that returns. -/
def step (mppc : Context) : Call → Option Context
  | .decompress src flags =>
    match decompress (mppc.historyBufferSize + 1) mppc src flags with
    | some (.returns mppc' _ _) => some mppc'
    | _ => none
  | .setCompressionLevel compressionLevel => some (mppc.setCompressionLevel compressionLevel)
  | .reset => some mppc.reset

/-! ## A round -/

variable {compressionLevel historyBufferSize : ℕ} {s : State}

/-- No access is out of range, and where it goes on there is more in the history. -/
def Advances (historyBufferSize : ℕ) (s : State) : Option (Except ℤ State) → Prop
  | none => False
  | some (.error status) => status < 0
  | some (.ok s') => s.historyPtr < s'.historyPtr ∧ s'.historyPtr ≤ historyBufferSize ∧
      s'.historyBuffer.length = s.historyBuffer.length

/-- The bytes that are stored are in the history. -/
theorem copyLoop_some {historyBuffer : List UInt8} {historyPtr srcPtr lengthOfMatch : ℕ}
    (hsize : historyBufferSize ≤ historyBuffer.length)
    (hptr : historyPtr + lengthOfMatch ≤ historyBufferSize)
    (hsrc : srcPtr + lengthOfMatch ≤ historyBufferSize) :
    ∃ copied, copyLoop historyBufferSize lengthOfMatch historyBuffer historyPtr srcPtr =
      some copied ∧ copied.length = historyBuffer.length := by
  induction lengthOfMatch generalizing historyBuffer historyPtr srcPtr with
  | zero => exact ⟨historyBuffer, rfl, rfl⟩
  | succ lengthOfMatch ih =>
    have hload : load historyBufferSize historyBuffer srcPtr =
        some (historyBuffer.getD srcPtr 0) := by
      rw [load, if_pos (by omega), getD_eq_getElem _ _ (by omega), getElem?_eq_getElem]
    have hstore : store historyBufferSize historyBuffer historyPtr (historyBuffer.getD srcPtr 0) =
        some (historyBuffer.set historyPtr (historyBuffer.getD srcPtr 0)) :=
      if_pos (by omega)
    obtain ⟨copied, hcopied, hlength⟩ := @ih
      (historyBuffer.set historyPtr (historyBuffer.getD srcPtr 0)) (historyPtr + 1) (srcPtr + 1)
      (by rwa [length_set]) (by omega) (by omega)
    refine ⟨copied, ?_, hlength.trans length_set⟩
    rw [copyLoop, hload]
    dsimp only [bind_eq_bind, bind_some]
    rw [hstore]
    exact hcopied

theorem advances_literal (hsize : historyBufferSize ≤ s.historyBuffer.length)
    (hptr : s.historyPtr < historyBufferSize) (value : BitVec 32) (nbits : ℕ) :
    Advances historyBufferSize s (literal historyBufferSize s value nbits) := by
  have hstore : store historyBufferSize s.historyBuffer s.historyPtr value.toNat.toUInt8 =
      some (s.historyBuffer.set s.historyPtr value.toNat.toUInt8) := if_pos (by omega)
  rw [literal, hstore, shift_eq]
  exact ⟨Nat.lt_succ_self _, hptr, length_set⟩

theorem advances_copyMatch (hsize : historyBufferSize ≤ s.historyBuffer.length)
    (hptr : s.historyPtr < historyBufferSize) (copyOffset : ℕ) {lengthOfMatch : ℕ}
    (hlength : 0 < lengthOfMatch) :
    Advances historyBufferSize s
      (copyMatch compressionLevel historyBufferSize s copyOffset lengthOfMatch) := by
  rw [copyMatch]
  split
  · exact Int.negSucc_lt_zero _
  next hfits =>
    dsimp only
    generalize Int.toNat _ = srcPtr
    split
    · exact Int.negSucc_lt_zero _
    next hsrc =>
      obtain ⟨copied, hcopied, hkept⟩ := @copyLoop_some historyBufferSize s.historyBuffer
        s.historyPtr srcPtr lengthOfMatch hsize (by omega) (by omega)
      have hend : s.historyPtr + lengthOfMatch ≤ historyBufferSize := by omega
      rw [hcopied]
      exact ⟨Nat.lt_add_of_pos_right hlength, hend, hkept⟩

/-- A match is never empty. -/
theorem decode_pos {accumulator : BitVec 32} {lengthOfMatch nbits : ℕ}
    (h : decode (lengthOfMatchCodes compressionLevel) accumulator = some (lengthOfMatch, nbits)) :
    0 < lengthOfMatch := by
  have hbase : ∀ c ∈ lengthOfMatchCodes compressionLevel, 0 < c.base := by
    unfold lengthOfMatchCodes
    split <;> decide
  obtain ⟨c, hc, hvalue⟩ := map_eq_some_iff.1 h
  have hpos := hbase c (mem_of_find?_eq_some hc)
  have heq := congrArg Prod.fst hvalue
  dsimp only at heq
  omega

/-- **A round is safe.** -/
theorem advances_round (hsize : historyBufferSize ≤ s.historyBuffer.length)
    (hpos : 0 < historyBufferSize) :
    Advances historyBufferSize s (round compressionLevel historyBufferSize s) := by
  rw [round]
  split
  · exact Int.negSucc_lt_zero _
  next hin =>
    have hptr : s.historyPtr < historyBufferSize := by omega
    split
    · exact advances_literal hsize hptr _ _
    · split
      · exact advances_literal hsize hptr _ _
      · split
        · show (if _ then _ else _ : ℤ) < 0
          split <;> exact Int.negSucc_lt_zero _
        next copyOffset nbits hoffset =>
          rw [shift_eq, bind_eq_bind, bind_some]
          split
          · exact Int.negSucc_lt_zero _
          next lengthOfMatch nbits' hlength =>
            rw [shift_eq, bind_some]
            exact @advances_copyMatch compressionLevel historyBufferSize
              { s with bs := (s.bs.shift nbits).shift nbits' } hsize hptr copyOffset _
              (decode_pos hlength)

/-- What the loop ends with. -/
def Exit.Safe (historyBufferSize : ℕ) (s : State) : Exit → Prop
  | .fault => False
  | .error status s' => status < 0 ∧ s'.historyBuffer.length = s.historyBuffer.length
  | .done s' => s'.historyBuffer.length = s.historyBuffer.length ∧
      (s' = s ∨ s.historyPtr < s'.historyPtr ∧ s'.historyPtr ≤ historyBufferSize)

/-- **The loop ends**, after as many rounds as there is room in the history, or one more. -/
theorem exists_loop (hpos : 0 < historyBufferSize) (fuel : ℕ)
    (hsize : historyBufferSize ≤ s.historyBuffer.length)
    (hfuel : historyBufferSize < fuel + s.historyPtr) (hone : 0 < fuel) :
    ∃ exit, loop compressionLevel historyBufferSize fuel s = some exit ∧
      exit.Safe historyBufferSize s := by
  induction fuel generalizing s with
  | zero => exact absurd hone (lt_irrefl 0)
  | succ fuel ih =>
    rw [loop]
    split
    · have hround := @advances_round compressionLevel _ s hsize hpos
      match hr : round compressionLevel historyBufferSize s, hround with
      | some (.error status), hstatus => exact ⟨_, rfl, hstatus, rfl⟩
      | some (.ok s'), ⟨hmore, hin, hlength⟩ =>
        obtain ⟨exit, hexit, hsafe⟩ := @ih s' (hlength ▸ hsize) (by omega) (by omega)
        refine ⟨exit, hexit, ?_⟩
        cases exit with
        | fault => exact hsafe
        | error status t => exact ⟨hsafe.1, hsafe.2.trans hlength⟩
        | done t =>
          obtain ⟨hkept, heq | ⟨hlater, hlast⟩⟩ := hsafe
          · rw [heq]
            exact ⟨hlength, Or.inr ⟨hmore, hin⟩⟩
          · exact ⟨hkept.trans hlength, Or.inr ⟨hmore.trans hlater, hlast⟩⟩
    · exact ⟨_, rfl, rfl, Or.inl rfl⟩

/-! ## Runs -/

/-- What holds of every context: the history is as large as it is declared, at least, and the
pointer is in it. -/
structure Context.Valid (mppc : Context) : Prop where
  length_eq : mppc.historyBuffer.length = 65536
  size_pos : 0 < mppc.historyBufferSize
  size_le : mppc.historyBufferSize ≤ 65536
  ptr_le : mppc.historyPtr ≤ 65536

variable {mppc mppc' : Context}

theorem Context.Valid.setCompressionLevel (h : mppc.Valid) (compressionLevel : ℕ) :
    (mppc.setCompressionLevel compressionLevel).Valid := by
  rw [Context.setCompressionLevel]
  split
  · exact ⟨h.length_eq, Nat.succ_pos _, show 8192 ≤ 65536 by decide, h.ptr_le⟩
  · exact ⟨h.length_eq, Nat.succ_pos _, le_rfl, h.ptr_le⟩

theorem Context.Valid.reset (h : mppc.Valid) : mppc.reset.Valid :=
  ⟨length_replicate, h.size_pos, h.size_le, Nat.zero_le _⟩

theorem valid_contextNew (compressionLevel : ℕ) : (contextNew compressionLevel).Valid := by
  rw [contextNew, Context.setCompressionLevel]
  split
  · exact ⟨length_replicate, Nat.succ_pos _, show 8192 ≤ 65536 by decide, Nat.zero_le _⟩
  · exact ⟨length_replicate, Nat.succ_pos _, le_rfl, Nat.zero_le _⟩

theorem Context.Valid.prepare (h : mppc.Valid) (flags : ℕ) : (mppc.prepare flags).Valid := by
  have hfront : (if flags &&& 0x40 ≠ 0 then { mppc with historyPtr := 0 } else mppc).Valid := by
    split
    · exact ⟨h.length_eq, h.size_pos, h.size_le, Nat.zero_le _⟩
    · exact h
  rw [Context.prepare]
  split
  · refine ⟨?_, hfront.size_pos, hfront.size_le, Nat.zero_le _⟩
    have hlength := hfront.length_eq
    have hsize := hfront.size_le
    dsimp only
    rw [length_append, length_replicate, length_drop]
    omega
  · exact hfront

/-- What is reported is there: the source, or a slice of the history. -/
def Output.Within (mppc : Context) (src : List UInt8) : Output → Prop
  | .source size => size = src.length
  | .history start size =>
    ((mppc.historyBuffer.drop start).take size).length = size ∧
      (0 < size → start + size ≤ mppc.historyBufferSize)

/-- **A call returns**, and nothing is accessed out of range. -/
theorem exists_decompress (h : mppc.Valid) (src : List UInt8) (flags : ℕ) :
    ∃ mppc' status output,
      decompress (mppc.historyBufferSize + 1) mppc src flags =
        some (.returns mppc' status output) ∧
      mppc'.Valid ∧ (status = 1 → ∃ out, output = some out ∧ out.Within mppc' src) := by
  have hprepare := h.prepare flags
  have hsize : (mppc.prepare flags).historyBufferSize = mppc.historyBufferSize := by
    rw [Context.prepare]
    split_ifs <;> rfl
  simp only [decompress, fetch_eq]
  split
  · exact ⟨_, 1, _, rfl, hprepare, fun _ => ⟨_, rfl, rfl⟩⟩
  · obtain ⟨exit, hexit, hsafe⟩ := @exists_loop (mppc.prepare flags).compressionLevel _
      ⟨(WBitStream.attach src).fetch, (mppc.prepare flags).historyBuffer,
        (mppc.prepare flags).historyPtr⟩
      hprepare.size_pos (mppc.historyBufferSize + 1)
      (hprepare.size_le.trans hprepare.length_eq.ge) (by omega) (Nat.succ_pos _)
    rw [hexit]
    cases exit with
    | fault => exact absurd hsafe id
    | error status s =>
      refine ⟨_, status, none, rfl, ⟨hsafe.2.trans hprepare.length_eq, hprepare.size_pos,
        hprepare.size_le, hprepare.ptr_le⟩, fun hone => ?_⟩
      exact absurd (hone ▸ hsafe.1) (by decide)
    | done s =>
      obtain ⟨hlength, hptr⟩ := hsafe
      have hin := hprepare.ptr_le
      have hlast := hprepare.size_le
      have hall : s.historyBuffer.length = 65536 := hlength.trans hprepare.length_eq
      have hend : s.historyPtr ≤ 65536 := by
        rcases hptr with rfl | ⟨-, hle⟩
        · exact hin
        · exact hle.trans hlast
      refine ⟨_, 1, _, rfl, ⟨hall, hprepare.size_pos, hprepare.size_le, hend⟩,
        fun _ => ⟨_, rfl, ?_, fun hmore => ?_⟩⟩
      · rw [length_take, length_drop, hall]
        omega
      · rcases hptr with rfl | ⟨hlt, hle⟩
        · exact absurd hmore (by simp)
        · exact (Nat.add_sub_cancel' hlt.le).trans_le hle

theorem valid_step {c : Call} (h : mppc.Valid) (hstep : step mppc c = some mppc') :
    mppc'.Valid := by
  cases c with
  | decompress src flags =>
    obtain ⟨next, status, output, hreturns, hvalid, -⟩ := exists_decompress h src flags
    rw [step, hreturns] at hstep
    exact some.inj hstep ▸ hvalid
  | setCompressionLevel compressionLevel =>
    exact some.inj hstep ▸ h.setCompressionLevel compressionLevel
  | reset => exact some.inj hstep ▸ h.reset

/-- **`mppc_decompress` is safe**, in every context that can be reached and on every source: its
loop ends, no access is out of range, and with the status 1 it reports what is there. -/
theorem decompress_safe (h : Reachable step (contextNew compressionLevel) mppc)
    (src : List UInt8) (flags : ℕ) :
    ∃ mppc' status output,
      decompress (mppc.historyBufferSize + 1) mppc src flags =
        some (.returns mppc' status output) ∧
      (status = 1 → ∃ out, output = some out ∧ out.Within mppc' src) := by
  have hvalid : mppc.Valid :=
    Reachable.induct (fun _ _ _ hvalid hstep => valid_step hvalid hstep)
      (valid_contextNew compressionLevel) h
  obtain ⟨mppc', status, output, hreturns, -, hwithin⟩ := exists_decompress hvalid src flags
  exact ⟨mppc', status, output, hreturns, hwithin⟩

/-- Two literals are read, and what is reported is there. -/
theorem decompress_safe_sample : ∃ mppc' out,
    decompress (8192 + 1) (contextNew 0) [0x41, 0x42] 0x20 = some (.returns mppc' 1 (some out)) ∧
      out.Within mppc' [0x41, 0x42] := by
  obtain ⟨mppc', status, output, hreturns, hwithin⟩ :=
    decompress_safe (Reachable.refl (contextNew 0)) [0x41, 0x42] 0x20
  have hstatus : (match decompress (8192 + 1) (contextNew 0) [0x41, 0x42] 0x20 with
      | some (.returns _ status _) => status
      | _ => 0) = 1 := by
    decide +kernel
  rw [show decompress (8192 + 1) (contextNew 0) [0x41, 0x42] 0x20 = _ from hreturns] at hstatus
  obtain rfl : status = 1 := hstatus
  obtain ⟨out, rfl, hout⟩ := hwithin rfl
  exact ⟨mppc', out, hreturns, hout⟩

end Mppc
