/-
# XCRUSH

The first level of the compression of RDP 6.1: a list of matches, and the literals between them.
A match says at which place of the output it stands and from where in the history it is copied.

`xcrush_decompress_l1` goes through both buffers with pointers, which are addresses in one memory
here.  An access outside the buffer that it is meant for is a fault, and so is a `memcpy` between
stretches that overlap.
-/
import XyDeskRemote.ByteBuffer
import XyDeskRemote.CheckedProgram
import XyDeskRemote.MatchCopy

open Program MatchCopy LittleEndian List Nat Function

namespace Xcrush

/-! ## The decompressor -/

/-- What can go wrong with an access. -/
inductive Fault where
  | read
  | write
  | overlap
  deriving DecidableEq

/-- `HistoryBufferSize`. -/
def historyBufferSize : ℕ := 2000000

/-- A buffer. -/
structure Region where
  start : ℕ
  size : ℕ

/-- The `n` bytes at an address are in the buffer. -/
def Region.Has (r : Region) (address n : ℕ) : Prop :=
  r.start ≤ address ∧ address + n ≤ r.start + r.size

instance (r : Region) (address n : ℕ) : Decidable (r.Has address n) :=
  inferInstanceAs (Decidable (_ ∧ _))

/-- Where the history and the source lie. -/
structure Layout where
  historyBuffer : ℕ
  pSrcData : ℕ
  srcSize : ℕ
  apart : historyBuffer + historyBufferSize ≤ pSrcData ∨ pSrcData + srcSize ≤ historyBuffer

/-- The history. -/
def Layout.history (L : Layout) : Region := ⟨L.historyBuffer, historyBufferSize⟩

/-- The source. -/
def Layout.source (L : Layout) : Region := ⟨L.pSrcData, L.srcSize⟩

/-- `HistoryBufferEnd`. -/
def Layout.historyBufferEnd (L : Layout) : ℕ := L.historyBuffer + historyBufferSize

/-- `pSrcEnd`. -/
def Layout.pSrcEnd (L : Layout) : ℕ := L.pSrcData + L.srcSize

/-- The memory, `HistoryOffset` and `HistoryPtr` of the context, and the variables of
`xcrush_decompress_l1`; `status` is what it returns when it returns early. -/
structure State where
  memory : ℕ → UInt8
  historyOffset : ℕ
  dstData : ℕ := 0
  status : ℤ := 1
  historyPtr : ℕ := 0
  literals : ℕ := 0
  outputOffset : ℕ := 0

/-- The decompressor, with its accesses checked. -/
abbrev Decompressor : Type → Type := Program State Fault

/-- `return status`. -/
def returnIf (condition : Prop) [Decidable condition] (status : ℤ) : Decompressor Unit :=
  if condition then do
    update fun s => { s with status }
    giveUp
  else pure ()

/-- `memcpy`. -/
def memcpy (source target : Region) (dst src n : ℕ) : Decompressor Unit := do
  check .read fun _ => source.Has src n
  check .write fun _ => target.Has dst n
  check .overlap fun _ => dst + n ≤ src ∨ src + n ≤ dst
  update fun s => { s with memory := copyBlock s.memory dst src n }

/-- The loop of `xcrush_copy_bytes_no_overlap`, for the rounds that are left. -/
def copyChunks (source target : Region) (dst src diff : ℕ) : ℕ → ℕ → Decompressor Unit
  | 0, _ => pure ()
  | rounds + 1, a => do
    memcpy source target (dst + a) (src + a) diff
    copyChunks source target dst src diff rounds (a + diff)

/-- `xcrush_copy_bytes_no_overlap`, for pointers that differ. -/
def copyBytesNoOverlap (source target : Region) (dst src num : ℕ) : Decompressor Unit := do
  let diff := if dst > src then dst - src else src - dst
  let rest := num % diff
  let stop := num - rest
  copyChunks source target dst src diff (stop / diff) 0
  if rest ≠ 0 then memcpy source target (dst + stop) (src + stop) rest

/-- `xcrush_copy_bytes`. -/
def copyBytes (source target : Region) (dst src num : ℕ) : Decompressor Unit :=
  if src + num < dst ∨ src > dst + num then memcpy source target dst src num
  else if src ≠ dst then copyBytesNoOverlap source target dst src num
  else pure ()

section
variable (L : Layout)

/-- `winpr_Data_Get_UINT16` and `winpr_Data_Get_UINT32`. -/
def getNumber (width address : ℕ) : Decompressor ℕ := do
  check .read fun _ => L.source.Has address width
  read fun s => decode (stretch s.memory address width)

/-- Literals are copied; behind the last ones only `HistoryPtr` counts. -/
def copyLiterals (n : ℕ) : Decompressor Unit := do
  let s ← read id
  copyBytes L.source L.history s.historyPtr s.literals n
  update fun s => { s with
    historyPtr := s.historyPtr + n
    literals := s.literals + n
    outputOffset := s.outputOffset + n }

/-- The literals in front of a match. -/
def copyLiteralsBefore (outputLength : ℕ) : Decompressor Unit := do
  let s ← read id
  if outputLength > 0 then
    returnIf (s.historyPtr + outputLength ≥ L.historyBufferEnd ∨ s.literals ≥ L.pSrcEnd ∨
      s.literals + outputLength > L.pSrcEnd) (-1009)
    copyLiterals L outputLength
    let s ← read id
    returnIf (s.literals > L.pSrcEnd) (-1010)

/-- A round of the loop over the matches, with the address of its details. -/
def copyMatch (details : ℕ) : Decompressor Unit := do
  let matchLength ← getNumber L 2 details
  let matchOutputOffset ← getNumber L 2 (details + 2)
  let matchHistoryOffset ← getNumber L 4 (details + 4)
  let s ← read id
  returnIf (matchOutputOffset < s.outputOffset) (-1005)
  returnIf (matchLength > historyBufferSize) (-1006)
  returnIf (matchHistoryOffset > historyBufferSize) (-1007)
  let outputLength := matchOutputOffset - s.outputOffset
  returnIf (outputLength > historyBufferSize) (-1008)
  copyLiteralsBefore L outputLength
  let s ← read id
  let outputPtr := L.historyBuffer + matchHistoryOffset
  returnIf (s.historyPtr + matchLength ≥ L.historyBufferEnd ∨
    outputPtr + matchLength ≥ L.historyBufferEnd) (-1011)
  copyBytes L.history L.history s.historyPtr outputPtr matchLength
  update fun s => { s with
    outputOffset := s.outputOffset + matchLength
    historyPtr := s.historyPtr + matchLength }

/-- The loop, with the details and the matches that are left. -/
def copyMatches : ℕ → ℕ → Decompressor Unit
  | _, 0 => pure ()
  | details, matchCount + 1 => do
    copyMatch L details
    copyMatches (details + 8) matchCount

/-- The matches, if there may be some, and the literals between them. -/
def copyCompressed (flags : UInt8) : Decompressor Unit :=
  if flags &&& 0x02 ≠ 0 then pure ()
  else do
    returnIf (flags &&& 0x01 = 0) (-1002)
    returnIf (L.pSrcData + 2 > L.pSrcEnd) (-1003)
    let matchCount ← getNumber L 2 L.pSrcData
    let literals := L.pSrcData + 2 + 8 * matchCount
    update fun s => { s with literals }
    returnIf (literals > L.pSrcEnd) (-1004)
    copyMatches L (L.pSrcData + 2) matchCount

/-- The literals behind the last match. -/
def copyLiteralsBehind : Decompressor Unit := do
  let s ← read id
  if s.literals < L.pSrcEnd then
    let outputLength := L.pSrcEnd - s.literals
    returnIf (s.historyPtr + outputLength ≥ L.historyBufferEnd ∨
      s.literals + outputLength > L.pSrcEnd) (-1012)
    copyLiterals L outputLength

/-- `xcrush_decompress_l1`: `*ppDstData` and `*pDstSize`, where it returns `1`. -/
def decompressL1 (flags : UInt8) : Decompressor (ℕ × ℕ) := do
  returnIf (L.srcSize < 1) (-1001)
  update fun s => if flags &&& 0x04 ≠ 0 then { s with historyOffset := 0 } else s
  update fun s => { s with
    dstData := L.historyBuffer + s.historyOffset
    historyPtr := L.historyBuffer + s.historyOffset
    literals := L.pSrcData
    outputOffset := 0 }
  copyCompressed L flags
  copyLiteralsBehind L
  let s ← read id
  returnIf (s.historyPtr < L.historyBuffer ∨ s.historyPtr - L.historyBuffer > 0xFFFFFFFF) (-1)
  update fun s => { s with historyOffset := s.historyPtr - L.historyBuffer }
  returnIf (s.historyPtr < s.dstData ∨ s.historyPtr - s.dstData > 0xFFFFFFFF) (-1)
  return (s.dstData, s.historyPtr - s.dstData)

end

/-! ## What the matches say -/

/-- A match: its length and its two places. -/
structure Match where
  length : ℕ
  outputOffset : ℕ
  historyOffset : ℕ

/-- The details of a number of matches. -/
def matchesOf : ℕ → List UInt8 → List Match
  | 0, _ => []
  | n + 1, src =>
    ⟨decode (src.take 2), decode ((src.drop 2).take 2), decode ((src.drop 4).take 4)⟩ ::
      matchesOf n (src.drop 8)

/-- The matches of a packet and its literals. -/
def contents (flags : UInt8) (src : List UInt8) : List Match × List UInt8 :=
  if flags &&& 0x02 ≠ 0 then ([], src)
  else
    let matchCount := decode (src.take 2)
    (matchesOf matchCount (src.drop 2), src.drop (2 + 8 * matchCount))

/-- The history, where the output begins in it, and the output so far. -/
structure Output where
  history : ℕ → UInt8
  start : ℕ
  bytes : List UInt8
  written : stretch history start bytes.length = bytes

namespace Output

/-- Nothing yet. -/
def empty (history : ℕ → UInt8) (start : ℕ) : Output := ⟨history, start, [], rfl⟩

/-- The end of the output. -/
def stop (o : Output) : ℕ := o.start + o.bytes.length

/-- One byte more. -/
def append (o : Output) (b : UInt8) : Output where
  history := Function.update o.history o.stop b
  start := o.start
  bytes := o.bytes ++ [b]
  written := by
    rw [length_append, length_singleton, stretch_succ]
    congr 1
    · refine Eq.trans (map_congr_left fun i hi => ?_) o.written
      have hlt := mem_range.1 hi
      exact update_of_ne (by unfold stop; omega) ..
    · rw [stop, update_self]

/-- Several bytes behind the output. -/
def appendAll (o : Output) (bs : List UInt8) : Output := bs.foldl append o

/-- `n` bytes of the history, one at a time. -/
def repeatFrom (o : Output) : ℕ → ℕ → Output
  | _, 0 => o
  | src, n + 1 => (o.append (o.history src)).repeatFrom (src + 1) n

/-- For each match the literals up to its place, and then what it repeats; at the end the other
literals. -/
def plain (o : Output) : List Match → List UInt8 → Output
  | [], literals => o.appendAll literals
  | m :: ms, literals =>
    let n := m.outputOffset - o.bytes.length
    ((o.appendAll (literals.take n)).repeatFrom m.historyOffset m.length).plain ms
      (literals.drop n)

end Output

/-! ## Copying bytes -/

variable {source target : Region} {dst src n : ℕ} {s : State}

theorem memcpy_eq (hsrc : source.Has src n) (hdst : target.Has dst n)
    (hapart : dst + n ≤ src ∨ src + n ≤ dst) :
    memcpy source target dst src n s =
      .ok (some (), { s with memory := copyForward s.memory dst src n }) := by
  rw [memcpy, bind_goes (check_goes (fun _ => source.Has src n) (decide_eq_true hsrc)),
    bind_goes (check_goes (fun _ => target.Has dst n) (decide_eq_true hdst)),
    bind_goes (check_goes (fun _ => dst + n ≤ src ∨ src + n ≤ dst) (decide_eq_true hapart)),
    copyForward_eq_copyBlock (by omega)]
  rfl

/-- Chunks as long as the pointers are apart are a copy of one byte after the other. -/
theorem copyChunks_eq {diff : ℕ} (hdiff : dst + diff ≤ src ∨ src + diff ≤ dst) {rounds a : ℕ}
    (hsrc : source.Has (src + a) (rounds * diff)) (hdst : target.Has (dst + a) (rounds * diff)) :
    copyChunks source target dst src diff rounds a s =
      .ok (some (), { s with
        memory := copyForward s.memory (dst + a) (src + a) (rounds * diff) }) := by
  induction rounds generalizing a s with
  | zero => rw [zero_mul]; rfl
  | succ rounds ih =>
    have hlength : (rounds + 1) * diff = diff + rounds * diff := by rw [succ_mul, add_comm]
    rw [hlength] at hsrc hdst ⊢
    obtain ⟨hsrc₁, hsrc₂⟩ := hsrc
    obtain ⟨hdst₁, hdst₂⟩ := hdst
    have hfirst := @memcpy_eq source target (dst + a) (src + a) diff s ⟨hsrc₁, by omega⟩
      ⟨hdst₁, by omega⟩ (by omega)
    rw [copyChunks, bind_goes hfirst, ih ⟨by omega, by omega⟩ ⟨by omega, by omega⟩,
      copyForward_add, add_assoc, add_assoc]

theorem copyBytesNoOverlap_eq (hne : src ≠ dst) (hsrc : source.Has src n)
    (hdst : target.Has dst n) :
    copyBytesNoOverlap source target dst src n s =
      .ok (some (), { s with memory := copyForward s.memory dst src n }) := by
  obtain ⟨hsrc₁, hsrc₂⟩ := hsrc
  obtain ⟨hdst₁, hdst₂⟩ := hdst
  rw [copyBytesNoOverlap]
  generalize hd : (if dst > src then dst - src else src - dst) = diff
  have hpos : 0 < diff := by split at hd <;> omega
  have hdiff : dst + diff ≤ src ∨ src + diff ≤ dst := by split at hd <;> omega
  have hstop : (n - n % diff) / diff * diff = n - n % diff :=
    Nat.div_mul_cancel (Nat.dvd_sub_mod n)
  have hrest : n % diff < diff := mod_lt _ hpos
  have hn : n - n % diff + n % diff = n := Nat.sub_add_cancel (Nat.mod_le _ _)
  generalize n % diff = rest at *
  generalize n - rest = stop at *
  have hchunks := @copyChunks_eq source target dst src s diff hdiff (stop / diff) 0
    ⟨by omega, by omega⟩ ⟨by omega, by omega⟩
  rw [hstop] at hchunks
  rw [bind_goes hchunks, ← hn, copyForward_add]
  by_cases hzero : rest = 0
  · rw [if_neg (not_not.2 hzero), hzero]
    rfl
  · rw [if_pos hzero]
    exact memcpy_eq ⟨by omega, by omega⟩ ⟨by omega, by omega⟩ (by omega)

/-- **`xcrush_copy_bytes` copies one byte after the other**, however the stretches lie. -/
theorem copyBytes_eq (hsrc : source.Has src n) (hdst : target.Has dst n) :
    copyBytes source target dst src n s =
      .ok (some (), { s with memory := copyForward s.memory dst src n }) := by
  unfold copyBytes
  split
  · exact memcpy_eq hsrc hdst (by omega)
  · split
    · exact copyBytesNoOverlap_eq ‹_› hsrc hdst
    · rename_i heq
      obtain rfl := not_not.1 heq
      rw [copyForward_eq_copyBlock (Or.inl le_rfl), copyBlock_self]
      rfl

/-! ## The memory and the output -/

/-- The memory holds the source, and the history of an output. -/
structure Shows (L : Layout) (bs : List UInt8) (M : ℕ → UInt8) (o : Output) : Prop where
  history : ∀ i, M (L.historyBuffer + i) = o.history i
  source : stretch M L.pSrcData L.srcSize = bs

variable {L : Layout} {bs : List UInt8} {M : ℕ → UInt8} {o : Output}

theorem Shows.append (h : Shows L bs M o) (hroom : o.stop < historyBufferSize) (b : UInt8) :
    Shows L bs (Function.update M (L.historyBuffer + o.stop) b) (o.append b) := by
  refine ⟨fun i => ?_, Eq.trans (map_congr_left fun i hi => ?_) h.source⟩
  · show _ = Function.update o.history o.stop b i
    obtain rfl | hne := eq_or_ne i o.stop
    · rw [update_self, update_self]
    · rw [update_of_ne (by omega), update_of_ne hne, h.history]
  · have hlt := mem_range.1 hi
    have hapart := L.apart
    exact update_of_ne (by omega) ..

theorem Shows.stretch_source (h : Shows L bs M o) {k n : ℕ} (hk : k + n ≤ L.srcSize) :
    stretch M (L.pSrcData + k) n = (bs.drop k).take n := by
  rw [stretch_inside hk, h.source]

theorem stop_append (o : Output) (b : UInt8) : (o.append b).stop = o.stop + 1 := by
  rw [Output.stop, Output.append, length_append]
  rfl

theorem Shows.literals {k n : ℕ} (h : Shows L bs M o) (hroom : o.stop + n ≤ historyBufferSize)
    (hk : k + n ≤ L.srcSize) :
    Shows L bs (copyForward M (L.historyBuffer + o.stop) (L.pSrcData + k) n)
      (o.appendAll ((bs.drop k).take n)) := by
  induction n generalizing M o k with
  | zero => exact h
  | succ n ih =>
    have hnext := h.append (by omega) (M (L.pSrcData + k))
    have hsplit : (bs.drop k).take (n + 1) =
        M (L.pSrcData + k) :: (bs.drop (k + 1)).take n := by
      rw [← h.stretch_source hk, stretch_cons, add_assoc, h.stretch_source (by omega)]
    rw [hsplit]
    have hrest := @ih _ _ (k + 1) hnext (by rw [stop_append]; omega) (by omega)
    rwa [stop_append] at hrest

theorem Shows.repeatFrom {a n : ℕ} (h : Shows L bs M o) (hroom : o.stop + n ≤ historyBufferSize) :
    Shows L bs (copyForward M (L.historyBuffer + o.stop) (L.historyBuffer + a) n)
      (o.repeatFrom a n) := by
  induction n generalizing M o a with
  | zero => exact h
  | succ n ih =>
    have hnext := h.append (by omega) (o.history a)
    have hrest := @ih _ _ (a + 1) hnext (by rw [stop_append]; omega)
    rw [stop_append] at hrest
    rw [copyForward, h.history]
    exact hrest

theorem appendAll_eq (o : Output) (xs : List UInt8) :
    (o.appendAll xs).start = o.start ∧ (o.appendAll xs).bytes = o.bytes ++ xs := by
  induction xs generalizing o with
  | nil => exact ⟨rfl, (append_nil _).symm⟩
  | cons x xs ih =>
    obtain ⟨hstart, hbytes⟩ := ih (o.append x)
    exact ⟨hstart, hbytes.trans (append_assoc ..)⟩

theorem repeatFrom_eq (o : Output) (a n : ℕ) :
    (o.repeatFrom a n).start = o.start ∧
      (o.repeatFrom a n).bytes.length = o.bytes.length + n := by
  induction n generalizing o a with
  | zero => exact ⟨rfl, rfl⟩
  | succ n ih =>
    obtain ⟨hstart, hlength⟩ := ih (o.append (o.history a)) (a + 1)
    refine ⟨hstart, hlength.trans ?_⟩
    rw [Output.append, length_append, length_singleton]
    omega

/-- The decompressor has written `o`, and has used `k` bytes of the source. -/
structure Tracks (L : Layout) (bs : List UInt8) (o : Output) (k : ℕ) (s : State) : Prop where
  shows : Shows L bs s.memory o
  dstData : s.dstData = L.historyBuffer + o.start
  historyPtr : s.historyPtr = L.historyBuffer + o.stop
  outputOffset : s.outputOffset = o.bytes.length
  literals : s.literals = L.pSrcData + k

/-! ## Going through the packet -/

/-- It returned early, with an error. -/
abbrev Refused (s : State) : Prop := s.status < 0

section
variable {α : Type} {P : State → Prop} {Q : α → State → Prop}

theorem meets_returnIf {c : Prop} [Decidable c] {status : ℤ} (hstatus : status < 0) :
    Meets Refused P (returnIf c status) fun _ t => P t ∧ ¬c := by
  intro t ht
  by_cases hc : c
  · rw [returnIf, if_pos hc]
    exact hstatus
  · rw [returnIf, if_neg hc]
    exact ⟨ht, hc⟩

theorem meets_unless {c : Prop} [Decidable c] {status : ℤ} {m : Decompressor α}
    (hstatus : status < 0) (h : ¬c → Meets Refused P m Q) :
    Meets Refused P (returnIf c status >>= fun _ => m) Q :=
  (meets_returnIf hstatus).bind fun _ => meets_of_and h

theorem meets_get {f : State → Decompressor α} (h : ∀ t, P t → Meets Refused (· = t) (f t) Q) :
    Meets Refused P (read id >>= f) Q := fun t ht => h t ht t rfl

theorem meets_getNumber {k width : ℕ} {f : ℕ → Decompressor α}
    (hP : ∀ t, P t → ∃ o, Shows L bs t.memory o) (hk : k + width ≤ L.srcSize)
    (h : Meets Refused P (f (decode ((bs.drop k).take width))) Q) :
    Meets Refused P (getNumber L width (L.pSrcData + k) >>= f) Q := by
  intro t ht
  obtain ⟨o, hshows⟩ := hP t ht
  have hread : getNumber L width (L.pSrcData + k) t =
      .ok (some (decode ((bs.drop k).take width)), t) := by
    rw [← hshows.stretch_source hk]
    exact bind_goes (check_goes (fun _ => L.source.Has (L.pSrcData + k) width)
      (decide_eq_true ⟨le_add_right _ _, by show _ ≤ L.pSrcData + L.srcSize; omega⟩))
  rw [bind_goes hread]
  exact h t ht

end

theorem Tracks.length_source {k : ℕ} (h : Tracks L bs o k s) : bs.length = L.srcSize := by
  rw [← h.shows.source, stretch, length_map, length_range]

/-- What lies between the pointers. -/
theorem Tracks.shown {k : ℕ} (h : Tracks L bs o k s) :
    stretch s.memory s.dstData (s.historyPtr - s.dstData) = o.bytes := by
  have hlength : s.historyPtr - s.dstData = o.bytes.length := by
    rw [h.historyPtr, h.dstData, Output.stop]
    omega
  rw [hlength, h.dstData]
  refine Eq.trans (map_congr_left fun i _ => ?_) o.written
  rw [add_assoc, h.shows.history]

theorem Tracks.drop_take {k n : ℕ} (h : Tracks L bs o k s) (hk : k + n ≤ L.srcSize) :
    ((bs.drop k).take n).length = n := by
  rw [length_take, length_drop, h.length_source]
  omega

theorem meets_copyLiterals {k n : ℕ} (hroom : o.stop + n ≤ historyBufferSize)
    (hk : k + n ≤ L.srcSize) :
    Meets Refused (Tracks L bs o k) (copyLiterals L n) fun _ =>
      Tracks L bs (o.appendAll ((bs.drop k).take n)) (k + n) := by
  refine meets_get fun _ ht => ?_
  rintro t rfl
  have hsource : L.source.Has t.literals n := by
    rw [ht.literals]
    exact ⟨le_add_right _ _, by show _ ≤ L.pSrcData + L.srcSize; omega⟩
  have htarget : L.history.Has t.historyPtr n := by
    rw [ht.historyPtr]
    exact ⟨le_add_right _ _, by show _ ≤ L.historyBuffer + historyBufferSize; omega⟩
  rw [bind_goes (copyBytes_eq hsource htarget)]
  obtain ⟨hstart, hbytes⟩ := appendAll_eq o ((bs.drop k).take n)
  have hlength := congrArg List.length hbytes
  rw [length_append, ht.drop_take hk] at hlength
  constructor
  · rw [ht.literals, ht.historyPtr]
    exact ht.shows.literals hroom hk
  · rw [hstart]
    exact ht.dstData
  · show t.historyPtr + n = _
    rw [ht.historyPtr, Output.stop, Output.stop, hstart, hlength, add_assoc, add_assoc]
  · show t.outputOffset + n = _
    rw [ht.outputOffset, hlength]
  · show t.literals + n = _
    rw [ht.literals, add_assoc]

theorem meets_copyLiteralsBefore {k n : ℕ} :
    Meets Refused (Tracks L bs o k) (copyLiteralsBefore L n) fun _ =>
      Tracks L bs (o.appendAll ((bs.drop k).take n)) (k + n) := by
  refine meets_get fun t ht => ?_
  split
  · refine meets_unless (by decide) fun hfits => ?_
    rw [ht.historyPtr, ht.literals, Layout.historyBufferEnd, Layout.pSrcEnd] at hfits
    refine ((meets_copyLiterals (by omega) (by omega)).pre fun _ h => h ▸ ht).bind fun _ => ?_
    exact meets_get fun u hu => (meets_returnIf (by decide)).post fun _ v hv => hv.1 ▸ hu
  · obtain rfl : n = 0 := by omega
    exact meets_pure fun _ h => h ▸ ht

/-- A match is repeated. -/
theorem Tracks.repeatFrom {k a n : ℕ} (h : Tracks L bs o k s)
    (hroom : o.stop + n ≤ historyBufferSize) :
    Tracks L bs (o.repeatFrom a n) k { s with
      memory := copyForward s.memory s.historyPtr (L.historyBuffer + a) n
      outputOffset := s.outputOffset + n
      historyPtr := s.historyPtr + n } := by
  obtain ⟨hstart, hlength⟩ := repeatFrom_eq o a n
  constructor
  · rw [h.historyPtr]
    exact h.shows.repeatFrom hroom
  · rw [hstart]
    exact h.dstData
  · show s.historyPtr + n = _
    rw [h.historyPtr, Output.stop, Output.stop, hstart, hlength, add_assoc, add_assoc]
  · show s.outputOffset + n = _
    rw [h.outputOffset, hlength]
  · exact h.literals

/-- The output so far ends in the one that the matches and the literals still make of `o`. -/
def Leads (L : Layout) (bs : List UInt8) (final : Output) (s : State) : Prop :=
  ∃ o k, Tracks L bs o k s ∧ o.appendAll (bs.drop k) = final

theorem meets_copyMatch {k d : ℕ} (hd : d + 8 ≤ L.srcSize) :
    Meets Refused (Tracks L bs o k) (copyMatch L (L.pSrcData + d)) fun _ t => ∃ n,
      n = decode (((bs.drop d).drop 2).take 2) - o.bytes.length ∧
      Tracks L bs ((o.appendAll ((bs.drop k).take n)).repeatFrom
        (decode (((bs.drop d).drop 4).take 4)) (decode ((bs.drop d).take 2))) (k + n) t := by
  have hshows : ∀ t, Tracks L bs o k t → ∃ o, Shows L bs t.memory o := fun t ht => ⟨o, ht.shows⟩
  rw [copyMatch, add_assoc, add_assoc, drop_drop, drop_drop]
  refine meets_getNumber hshows (by omega) (meets_getNumber hshows (by omega) ?_)
  refine meets_getNumber hshows (by omega) ?_
  refine meets_get fun t ht => meets_unless (by decide) fun _ => ?_
  refine meets_unless (by decide) fun _ => meets_unless (by decide) fun _ => ?_
  refine meets_unless (by decide) fun _ => ?_
  refine (meets_copyLiteralsBefore.pre fun _ h => h ▸ ht).bind fun _ => ?_
  refine meets_get fun _ hu => meets_unless (by decide) fun hfits => ?_
  rintro u rfl
  rw [hu.historyPtr, Layout.historyBufferEnd] at hfits
  have hhere : L.history.Has u.historyPtr (decode ((bs.drop d).take 2)) := by
    rw [hu.historyPtr]
    exact ⟨le_add_right _ _, by show _ ≤ L.historyBuffer + historyBufferSize; omega⟩
  have hback : L.history.Has (L.historyBuffer + decode ((bs.drop (d + 4)).take 4))
      (decode ((bs.drop d).take 2)) :=
    ⟨le_add_right _ _, by show _ ≤ L.historyBuffer + historyBufferSize; omega⟩
  rw [bind_goes (copyBytes_eq hback hhere)]
  exact ⟨_, by rw [ht.outputOffset], hu.repeatFrom (by omega)⟩

/-- **The loop over the matches.** -/
theorem meets_copyMatches {k d n : ℕ} (hd : d + 8 * n ≤ L.srcSize) :
    Meets Refused (Tracks L bs o k) (copyMatches L (L.pSrcData + d) n) fun _ =>
      Leads L bs (o.plain (matchesOf n (bs.drop d)) (bs.drop k)) := by
  induction n generalizing o k d with
  | zero => exact meets_pure fun t ht => ⟨o, k, ht, rfl⟩
  | succ n ih =>
    refine (meets_copyMatch (by omega)).bind fun _ => ?_
    rintro t ⟨m, rfl, ht⟩
    have hrest := ih (d := d + 8) (by omega) t ht
    rw [← drop_drop, ← drop_drop] at hrest
    exact hrest

theorem meets_copyCompressed (flags : UInt8) :
    Meets Refused (Tracks L bs o 0) (copyCompressed L flags) fun _ =>
      Leads L bs (o.plain (contents flags bs).1 (contents flags bs).2) := by
  unfold copyCompressed contents
  split
  · exact meets_pure fun t ht => ⟨o, 0, ht, rfl⟩
  · refine meets_unless (by decide) fun _ => meets_unless (by decide) fun hfits => ?_
    rw [Layout.pSrcEnd] at hfits
    refine meets_getNumber (k := 0) (fun t ht => ⟨o, ht.shows⟩) (by omega) ?_
    rw [drop_zero]
    refine (meets_update (Q := fun _ => Tracks L bs o (2 + 8 * decode (bs.take 2))) ?_).bind
      fun _ => meets_unless (by decide) fun hcount => ?_
    · intro t ht
      exact ⟨ht.shows, ht.dstData, ht.historyPtr, ht.outputOffset, add_assoc ..⟩
    · rw [Layout.pSrcEnd] at hcount
      exact meets_copyMatches (by omega)

theorem meets_copyLiteralsBehind {final : Output} :
    Meets Refused (Leads L bs final) (copyLiteralsBehind L) fun _ t => ∃ k,
      Tracks L bs final k t := by
  refine meets_get ?_
  rintro t ⟨o, k, ht, rfl⟩
  rw [ht.literals, ht.historyPtr, Layout.pSrcEnd]
  split
  · have htake : (bs.drop k).take (L.pSrcData + L.srcSize - (L.pSrcData + k)) = bs.drop k :=
      take_of_length_le (by rw [length_drop, ht.length_source]; omega)
    refine meets_unless (by decide) fun hfits => ?_
    rw [Layout.historyBufferEnd] at hfits
    refine ((meets_copyLiterals (by omega) (by omega)).pre fun _ h => h ▸ ht).post fun _ u hu => ?_
    rw [htake] at hu
    exact ⟨_, hu⟩
  · rw [drop_of_length_le (by rw [ht.length_source]; omega)]
    exact meets_pure fun _ h => ⟨k, h ▸ ht⟩

/-- **`xcrush_decompress_l1` stays in its buffers and does what the matches say.** -/
theorem decompressL1_meets (L : Layout) (flags : UInt8) (s : State) :
    Outcome Refused (fun dst t => stretch t.memory dst.1 dst.2 =
        let (ms, literals) := contents flags (stretch s.memory L.pSrcData L.srcSize)
        let start := if flags &&& 0x04 ≠ 0 then 0 else s.historyOffset
        ((Output.empty (fun i => s.memory (L.historyBuffer + i)) start).plain ms literals).bytes)
      (decompressL1 L flags s) := by
  revert s
  suffices h : ∀ s, Meets Refused (· = s) (decompressL1 L flags) _ from fun s => h s s rfl
  intro s
  let bs := stretch s.memory L.pSrcData L.srcSize
  let start := if flags &&& 0x04 ≠ 0 then 0 else s.historyOffset
  let o := Output.empty (fun i => s.memory (L.historyBuffer + i)) start
  refine meets_unless (by decide) fun _ => ?_
  refine (meets_update (Q := fun _ t => t.memory = s.memory ∧ t.historyOffset = start) ?_).bind
    fun _ => (meets_update (Q := fun _ => Tracks L bs o 0) ?_).bind fun _ => ?_
  · rintro _ rfl
    unfold start
    split <;> exact ⟨rfl, rfl⟩
  · rintro t ⟨hmemory, hoffset⟩
    refine ⟨?_, ?_, ?_, rfl, rfl⟩
    · rw [hmemory]
      exact ⟨fun _ => rfl, rfl⟩
    · rw [hoffset]
      rfl
    · rw [hoffset]
      rfl
  refine (meets_copyCompressed flags).bind fun _ => meets_copyLiteralsBehind.bind fun _ => ?_
  refine meets_get ?_
  rintro t ⟨k, ht⟩
  refine meets_unless (by decide) fun _ => ?_
  refine (meets_update (Q := fun _ u => u.memory = t.memory) ?_).bind fun _ =>
    meets_unless (by decide) fun _ => meets_pure fun u hu => ?_
  · rintro _ rfl
    rfl
  · show stretch u.memory t.dstData (t.historyPtr - t.dstData) = _
    rw [hu]
    exact ht.shown

/-- The history, and a packet behind it. -/
def sampleLayout : Layout := ⟨0, historyBufferSize, 12, .inl (by decide)⟩

/-- The packet has two literals, and a match of five bytes that goes on after itself. -/
def samplePacket : State where
  memory a :=
    if a < historyBufferSize then 0
    else [1, 0, 5, 0, 2, 0, 0, 0, 0, 0, 7, 8].getD (a - historyBufferSize) 0
  historyOffset := 0

theorem decompressL1_meets_sample : ∃ dst t,
    decompressL1 sampleLayout 1 samplePacket = .ok (some dst, t) ∧
      stretch t.memory dst.1 dst.2 = [7, 8, 7, 8, 7, 8, 7] := by
  have hmeets := decompressL1_meets sampleLayout 1 samplePacket
  have hsucceeds :
      ((decompressL1 sampleLayout 1 samplePacket).toOption.bind Prod.fst).isSome := by
    decide +kernel
  rcases hresult : decompressL1 sampleLayout 1 samplePacket with fault | ⟨_ | dst, t⟩
  · rw [hresult] at hsucceeds
    cases hsucceeds
  · rw [hresult] at hsucceeds
    cases hsucceeds
  · rw [hresult] at hmeets
    exact ⟨dst, t, rfl, hmeets.trans (by decide +kernel)⟩

end Xcrush
