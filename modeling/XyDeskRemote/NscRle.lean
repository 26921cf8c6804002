/-
# The planes of a bitmap, run by run

`nsc_rle_compress_data` and `nsc_rle_decompress_data`: each of the four planes is sent as it is,
or with its runs of one byte shortened, whichever is shorter.

A run is its byte twice and a count, so a byte that stands alone must not be followed by itself.
The last four bytes are sent as they are, and the fifth from the end never begins a run: there
the decoder does not look at the byte that follows.

Pointers are those of `CheckedMemory`, next to the sizes that the program counts down itself.
-/
import XyDeskRemote.CheckedMemory

open CheckedMemory List

namespace Nsc

/-! ## Sizes -/

/-- `ROUND_UP_TO`. -/
def roundUpTo (b n : ℕ) : ℕ := b + (n - b % n) % n

/-- The size of a context that is about to encode. -/
structure ContextSize where
  width : UInt16
  height : UInt16
  chromaSubsamplingLevel : ℕ

local instance neZero_four : NeZero 4 := ⟨by decide⟩

/-- `OrgByteCount`, from `nsc_context_initialize_encode`. -/
def orgByteCount (c : ContextSize) (plane : Fin 4) : ℕ :=
  let tempWidth := roundUpTo c.width.toNat 8
  let tempHeight := roundUpTo c.height.toNat 2
  if c.chromaSubsamplingLevel ≠ 0 then
    if plane = 0 then tempWidth * c.height.toNat % 2 ^ 32
    else if plane = 3 then c.width.toNat * c.height.toNat % 2 ^ 32
    else tempWidth * tempHeight % 2 ^ 32 / 4
  else c.width.toNat * c.height.toNat % 2 ^ 32

/-- **No plane is so large that the encoder's count of bytes wraps.** -/
theorem orgByteCount_lt (c : ContextSize) (plane : Fin 4) : orgByteCount c plane + 6 < 2 ^ 32 := by
  have hwidth : c.width.toNat < 2 ^ 16 := c.width.toNat_lt
  have hheight : c.height.toNat ≤ 2 ^ 16 - 1 := by
    have : c.height.toNat < 2 ^ 16 := c.height.toNat_lt
    omega
  have hround : roundUpTo c.width.toNat 8 ≤ 2 ^ 16 := by
    unfold roundUpTo
    omega
  have hluma := Nat.mul_le_mul hround hheight
  have halpha := Nat.mul_le_mul hwidth.le hheight
  unfold orgByteCount
  dsimp only
  split_ifs <;> omega

/-! ## The encoder -/

/-- The variables of `nsc_rle_encode`. -/
structure RleEncoder where
  input : List UInt8
  out : Cursor UInt8
  runlength : ℕ := 1
  planeSize : ℕ := 0

/-- What is written for `runlength` bytes `value`. -/
def runCode (runlength : ℕ) (value : UInt8) : List UInt8 :=
  if runlength = 1 then [value]
  else if runlength < 256 then [value, value, UInt8.ofNat (runlength - 2)]
  else [value, value, 0xFF] ++ LittleEndian.encode 4 runlength

/-- The body of the loop. -/
def encodeRound (left : ℕ) (e : RleEncoder) : Except MemoryFault RleEncoder := do
  let (value, rest) ← next e.input
  let goesOn ← if 5 < left then (fun following => decide (value = following)) <$> peek rest
    else pure false
  if goesOn then
    return { e with input := rest, runlength := (e.runlength + 1) % 2 ^ 32 }
  else
    let out ← e.out.put (runCode e.runlength value)
    return {
      input := rest
      out := out
      runlength := 1
      planeSize := (e.planeSize + (runCode e.runlength value).length) % 2 ^ 32 }

/-- `originalSize - 4`, a `UINT32`. -/
def lessFour (originalSize : ℕ) : ℕ := (originalSize + (2 ^ 32 - 4)) % 2 ^ 32

/-- The loop of `nsc_rle_encode`. -/
def encodeLoop (originalSize : ℕ) : ℕ → RleEncoder → Except MemoryFault RleEncoder
  | 0, e => .ok e
  | left + 1, e =>
    if 4 < left + 1 ∧ e.planeSize < lessFour originalSize then
      encodeRound (left + 1) e >>= encodeLoop originalSize left
    else .ok e

/-- `nsc_rle_encode`: the size it returns and the buffer `out`. -/
def rleEncode (input out : List UInt8) (originalSize : ℕ) :
    Except MemoryFault (ℕ × List UInt8) := do
  let e ← encodeLoop originalSize originalSize { input := input, out := ⟨out, 0⟩ }
  let last ← if e.planeSize < lessFour originalSize then readFirst 4 e.input >>= e.out.put
    else pure e.out
  return ((e.planeSize + 4) % 2 ^ 32, last.buffer)

/-- A plane of a context: `PlaneBuffers`, `OrgByteCount` and `PlaneByteCount`. -/
structure Plane where
  buffer : List UInt8
  orgByteCount : ℕ
  planeByteCount : ℕ

namespace Plane

/-- The bytes of the plane. -/
def content (p : Plane) : List UInt8 := p.buffer.take p.orgByteCount

/-- The bytes that are sent. -/
def message (p : Plane) : List UInt8 := p.buffer.take p.planeByteCount

end Plane

/-- The body of the loop of `nsc_rle_compress_data`; `PlaneBuffers[4]` is the scratch buffer. -/
def compressPlane (scratch : List UInt8) (p : Plane) :
    Except MemoryFault (List UInt8 × Plane) :=
  if p.orgByteCount = 0 then .ok (scratch, { p with planeByteCount := 0 })
  else do
    let (planeSize, scratch) ← rleEncode p.buffer scratch p.orgByteCount
    if planeSize < p.orgByteCount then
      let coded ← readFirst planeSize scratch
      let copied ← Cursor.put ⟨p.buffer, 0⟩ coded
      return (scratch, { p with buffer := copied.buffer, planeByteCount := planeSize })
    else
      return (scratch, { p with planeByteCount := p.orgByteCount })

/-- `nsc_rle_compress_data`. -/
def rleCompressData (scratch : List UInt8) : List Plane → Except MemoryFault (List Plane)
  | [] => .ok []
  | p :: planes => do
    let (scratch, p) ← compressPlane scratch p
    (p :: ·) <$> rleCompressData scratch planes

/-! ## The decoder -/

/-- The variables of `nsc_rle_decode`. -/
structure RleDecoder where
  input : List UInt8
  inSize : ℕ
  out : Cursor UInt8
  outSize : ℕ
  left : ℕ

namespace RleDecoder

/-- `inSize--` and `*in++`. -/
def readByte (s : RleDecoder) : Except MemoryFault (UInt8 × RleDecoder) := do
  let (value, rest) ← next s.input
  return (value, { s with input := rest, inSize := s.inSize - 1 })

/-- The four bytes of a length, the low one first. -/
def readLength (s : RleDecoder) : Except MemoryFault (ℕ × RleDecoder) := do
  let (b0, s) ← s.readByte
  let (b1, s) ← s.readByte
  let (b2, s) ← s.readByte
  let (b3, s) ← s.readByte
  return (LittleEndian.decode [b0, b1, b2, b3], s)

/-- Writes `len` bytes `value`, without any check. -/
def fill (s : RleDecoder) (len : ℕ) (value : UInt8) : Except MemoryFault RleDecoder := do
  let out ← s.out.put (replicate len value)
  return { s with out := out, outSize := s.outSize - len, left := s.left - len }

/-- A byte that stands for itself. -/
def literal (s : RleDecoder) (value : UInt8) : Except MemoryFault (Option RleDecoder) :=
  if s.outSize < 1 then .ok none else some <$> s.fill 1 value

/-- A run of `len` bytes. -/
def run (s : RleDecoder) (len : ℕ) (value : UInt8) : Except MemoryFault (Option RleDecoder) :=
  if s.outSize < len ∨ s.left < len then .ok none else some <$> s.fill len value

/-- The count of a run, behind its two bytes. -/
def decodeRun (s : RleDecoder) (value : UInt8) : Except MemoryFault (Option RleDecoder) :=
  if s.inSize < 1 then .ok none
  else do
    let code ← peek s.input
    if code < 0xFF then
      let (code, s) ← s.readByte
      s.run (code.toNat + 2) value
    else if s.inSize < 5 then return none
    else
      let (_, s) ← s.readByte
      let (len, s) ← s.readLength
      s.run len value

/-- The body of the loop; `none` returns `FALSE`. -/
def decodeRound (s : RleDecoder) : Except MemoryFault (Option RleDecoder) :=
  if s.inSize < 1 then .ok none
  else do
    let (value, s) ← s.readByte
    if s.left = 5 then s.literal value
    else if s.inSize < 1 then return none
    else
      let following ← peek s.input
      if value = following then
        let (_, s) ← s.readByte
        s.decodeRun value
      else s.literal value

/-! ### What a round keeps -/

variable {s s' : RleDecoder} {o : Option RleDecoder} {value : UInt8} {len : ℕ}

/-- The sizes are those of the memory behind the pointers. -/
structure Valid (s : RleDecoder) : Prop where
  input : s.inSize = s.input.length
  out : s.out.pos + s.outSize = s.out.buffer.length

/-- What a part of a round does: it does not fault, and unless the decoder gives up it is valid,
has no more to read and has written something. -/
structure Keeps (s : RleDecoder) (r : Except MemoryFault (Option RleDecoder)) : Prop where
  intro ::
  result : ∃ o, r = .ok o ∧
    ∀ s' ∈ o, s'.Valid ∧ s'.inSize ≤ s.inSize ∧ ∃ xs, s.out.Wrote xs s'.out

theorem keeps_none (s : RleDecoder) : s.Keeps (.ok none) :=
  ⟨none, rfl, fun _ h => nomatch h⟩

theorem Valid.readByte (h : s.Valid) (hsize : ¬ s.inSize < 1) :
    ∃ value s', s.readByte = .ok (value, s') ∧ s'.Valid ∧ s'.inSize + 1 = s.inSize ∧
      s'.out = s.out ∧ s'.outSize = s.outSize ∧ s'.left = s.left := by
  obtain ⟨input, inSize, out, outSize, left⟩ := s
  have hinput : inSize = input.length := h.input
  cases input with
  | nil => exact absurd (by rw [hinput]; exact Nat.one_pos) hsize
  | cons value rest =>
    rw [length_cons] at hinput
    refine ⟨value, ⟨rest, inSize - 1, out, outSize, left⟩, rfl, ⟨?_, h.out⟩, ?_, rfl, rfl, rfl⟩
    · show inSize - 1 = rest.length
      omega
    · show inSize - 1 + 1 = inSize
      omega

theorem Valid.peek (h : s.Valid) (hsize : ¬ s.inSize < 1) :
    ∃ value, CheckedMemory.peek s.input = .ok value := by
  have hinput := h.input
  cases hcons : s.input with
  | nil =>
    rw [hcons] at hinput
    exact absurd (by rw [hinput]; exact Nat.one_pos) hsize
  | cons value rest => exact ⟨value, rfl⟩

theorem Valid.readLength (h : s.Valid) (hsize : 4 ≤ s.inSize) :
    ∃ len s', s.readLength = .ok (len, s') ∧ s'.Valid ∧ s'.inSize + 4 = s.inSize ∧
      s'.out = s.out ∧ s'.outSize = s.outSize ∧ s'.left = s.left := by
  obtain ⟨b0, s₁, h₁, hv₁, hn₁, ho₁, hz₁, hl₁⟩ := h.readByte (by omega)
  obtain ⟨b1, s₂, h₂, hv₂, hn₂, ho₂, hz₂, hl₂⟩ := hv₁.readByte (by omega)
  obtain ⟨b2, s₃, h₃, hv₃, hn₃, ho₃, hz₃, hl₃⟩ := hv₂.readByte (by omega)
  obtain ⟨b3, s₄, h₄, hv₄, hn₄, ho₄, hz₄, hl₄⟩ := hv₃.readByte (by omega)
  refine ⟨LittleEndian.decode [b0, b1, b2, b3], s₄, ?_, hv₄, by omega, ?_, ?_, ?_⟩
  · unfold RleDecoder.readLength
    simp only [h₁, h₂, h₃, h₄, ok_bind]
    rfl
  · rw [ho₄, ho₃, ho₂, ho₁]
  · rw [hz₄, hz₃, hz₂, hz₁]
  · rw [hl₄, hl₃, hl₂, hl₁]

/-- Bytes for which there is room are written. -/
theorem Valid.fill (h : s.Valid) (hroom : len ≤ s.outSize) (value : UInt8) :
    ∃ s', s.fill len value = .ok s' ∧ s'.Valid ∧ s'.input = s.input ∧
      s'.outSize = s.outSize - len ∧ s'.left = s.left - len ∧
      s.out.Wrote (replicate len value) s'.out := by
  have hout := h.out
  have hfits : s.out.pos + (replicate len value).length ≤ s.out.buffer.length := by
    rw [length_replicate]
    omega
  obtain ⟨out, hput, hwrote⟩ := Cursor.wrote_put hfits
  refine ⟨{ s with out := out, outSize := s.outSize - len, left := s.left - len }, ?_,
    ⟨h.input, ?_⟩, rfl, rfl, rfl, hwrote⟩
  · unfold RleDecoder.fill
    rw [hput]
    rfl
  · show out.pos + (s.outSize - len) = out.buffer.length
    rw [hwrote.pos, hwrote.length_eq, length_replicate]
    omega

theorem keeps_fill (h : s.Valid) (hroom : len ≤ s.outSize) (value : UInt8) :
    s.Keeps (some <$> s.fill len value) := by
  obtain ⟨s', hfill, hvalid, hinput, -, -, hwrote⟩ := h.fill hroom value
  refine ⟨some s', by rw [hfill]; rfl, ?_⟩
  intro t ht
  cases Option.some.inj ht
  refine ⟨hvalid, ?_, _, hwrote⟩
  rw [hvalid.input, h.input, hinput]

theorem keeps_literal (h : s.Valid) (value : UInt8) : s.Keeps (s.literal value) := by
  unfold literal
  split_ifs with hroom
  · exact keeps_none s
  · exact keeps_fill h (by omega) value

theorem keeps_run (h : s.Valid) (len : ℕ) (value : UInt8) : s.Keeps (s.run len value) := by
  unfold run
  split_ifs with hroom
  · exact keeps_none s
  · exact keeps_fill h (by omega) value

/-- A part of a round, seen from before something was read. -/
theorem Keeps.of_read {r : Except MemoryFault (Option RleDecoder)} (h : s'.Keeps r)
    (hsize : s'.inSize ≤ s.inSize) (hout : s'.out = s.out) : s.Keeps r := by
  obtain ⟨o, hr, ho⟩ := h.result
  refine ⟨o, hr, ?_⟩
  intro t ht
  obtain ⟨hvalid, hle, hwrote⟩ := ho t ht
  exact ⟨hvalid, hle.trans hsize, hout ▸ hwrote⟩

theorem keeps_decodeRun (h : s.Valid) (value : UInt8) : s.Keeps (s.decodeRun value) := by
  unfold decodeRun
  by_cases hsize : s.inSize < 1
  · rw [if_pos hsize]
    exact keeps_none s
  · obtain ⟨code, hpeek⟩ := h.peek hsize
    rw [if_neg hsize, hpeek, ok_bind]
    split_ifs with hcode hfive
    · obtain ⟨code', s', hread, hvalid, hn, hout, -⟩ := h.readByte hsize
      rw [hread, ok_bind]
      exact (keeps_run hvalid _ value).of_read (by omega) hout
    · exact keeps_none s
    · obtain ⟨code', s₁, hread, hvalid₁, hn₁, hout₁, -⟩ := h.readByte hsize
      obtain ⟨len, s₂, hlength, hvalid₂, hn₂, hout₂, -⟩ := hvalid₁.readLength (by omega)
      rw [hread, ok_bind]
      dsimp only
      rw [hlength, ok_bind]
      exact (keeps_run hvalid₂ len value).of_read (by omega) (hout₂.trans hout₁)

/-- **A round keeps to the memory that it was given.** -/
theorem keeps_decodeRound (h : s.Valid) : s.Keeps s.decodeRound := by
  unfold decodeRound
  split_ifs with hsize
  · exact keeps_none s
  · obtain ⟨value, s₁, hread, hvalid₁, hn₁, hout₁, -⟩ := h.readByte hsize
    rw [hread, ok_bind]
    dsimp only
    refine Keeps.of_read ?_ (by omega) hout₁
    split_ifs with hfive hone
    · exact keeps_literal hvalid₁ value
    · exact keeps_none s₁
    · obtain ⟨following, hpeek⟩ := hvalid₁.peek hone
      rw [hpeek, ok_bind]
      split_ifs with hagain
      · obtain ⟨value', s₂, hread₂, hvalid₂, hn₂, hout₂, -⟩ := hvalid₁.readByte hone
        rw [hread₂, ok_bind]
        exact (keeps_decodeRun hvalid₂ value).of_read (by omega) hout₂
      · exact keeps_literal hvalid₁ value

/-! ### The loop -/

/-- What is left of the input after a part of a round, whatever the sizes are. -/
def Shrinks (s : RleDecoder) (r : Except MemoryFault (Option RleDecoder)) : Prop :=
  ∀ s', r = .ok (some s') → s'.inSize ≤ s.inSize

theorem shrinks_none (s : RleDecoder) : s.Shrinks (.ok none) := by
  intro s' h
  cases h

theorem shrinks_fill (s : RleDecoder) (len : ℕ) (value : UInt8) :
    s.Shrinks (some <$> s.fill len value) := by
  intro s' h
  unfold fill at h
  cases hput : s.out.put (replicate len value) with
  | error e => rw [hput] at h; cases h
  | ok out => rw [hput] at h; cases h; exact le_rfl

theorem shrinks_literal (s : RleDecoder) (value : UInt8) : s.Shrinks (s.literal value) := by
  unfold literal
  split_ifs
  · exact shrinks_none s
  · exact shrinks_fill s 1 value

theorem shrinks_run (s : RleDecoder) (len : ℕ) (value : UInt8) : s.Shrinks (s.run len value) := by
  unfold run
  split_ifs
  · exact shrinks_none s
  · exact shrinks_fill s len value

theorem inSize_readByte (h : s.readByte = .ok (value, s')) : s'.inSize = s.inSize - 1 := by
  obtain ⟨⟨v, rest⟩, -, h⟩ := eq_ok_of_bind h
  cases h
  rfl

/-- A part of a round that begins with a byte. -/
theorem Shrinks.readByte {f : UInt8 × RleDecoder → Except MemoryFault (Option RleDecoder)}
    (h : ∀ value (s' : RleDecoder), s'.Shrinks (f (value, s'))) : s.Shrinks (s.readByte >>= f) := by
  intro t ht
  obtain ⟨⟨value, s'⟩, hread, hf⟩ := eq_ok_of_bind ht
  have hlt := inSize_readByte hread
  have hle := h value s' t hf
  omega

theorem Shrinks.peek {f : UInt8 → Except MemoryFault (Option RleDecoder)}
    (h : ∀ value, s.Shrinks (f value)) : s.Shrinks (CheckedMemory.peek s.input >>= f) := by
  intro t ht
  obtain ⟨value, -, hf⟩ := eq_ok_of_bind ht
  exact h value t hf

theorem Shrinks.readLength {f : ℕ × RleDecoder → Except MemoryFault (Option RleDecoder)}
    (h : ∀ len (s' : RleDecoder), s'.Shrinks (f (len, s'))) : s.Shrinks (s.readLength >>= f) := by
  unfold RleDecoder.readLength
  simp only [bind_assoc]
  refine Shrinks.readByte fun b0 s₁ => Shrinks.readByte fun b1 s₂ => ?_
  refine Shrinks.readByte fun b2 s₃ => Shrinks.readByte fun b3 s₄ => ?_
  exact h _ s₄

theorem shrinks_decodeRun (s : RleDecoder) (value : UInt8) : s.Shrinks (s.decodeRun value) := by
  unfold decodeRun
  by_cases hsize : s.inSize < 1
  · rw [if_pos hsize]
    exact shrinks_none s
  · rw [if_neg hsize]
    refine Shrinks.peek fun code => ?_
    split_ifs
    · exact Shrinks.readByte fun code s₁ => shrinks_run s₁ _ value
    · exact shrinks_none s
    · refine Shrinks.readByte fun code s₁ => Shrinks.readLength fun len s₂ => ?_
      exact shrinks_run s₂ len value

/-- **Every round that goes on has read a byte.** -/
theorem decodeRound_lt (h : s.decodeRound = .ok (some s')) : s'.inSize < s.inSize := by
  unfold decodeRound at h
  by_cases hsize : s.inSize < 1
  · rw [if_pos hsize] at h
    cases h
  · rw [if_neg hsize] at h
    obtain ⟨⟨value, s₁⟩, hread, h⟩ := eq_ok_of_bind h
    have hlt := inSize_readByte hread
    have hle : s'.inSize ≤ s₁.inSize := by
      refine (?_ : s₁.Shrinks _) s' h
      dsimp only
      split_ifs
      · exact shrinks_literal s₁ value
      · exact shrinks_none s₁
      · refine Shrinks.peek fun following => ?_
        split_ifs
        · exact Shrinks.readByte fun value' s₂ => shrinks_decodeRun s₂ value
        · exact shrinks_literal s₁ value
    omega

/-- The loop; `none` returns `FALSE`. -/
def decodeLoop (s : RleDecoder) : Except MemoryFault (Option RleDecoder) :=
  if 4 < s.left then
    match _h : s.decodeRound with
    | .error fault => .error fault
    | .ok none => .ok none
    | .ok (some s') => decodeLoop s'
  else .ok (some s)
termination_by s.inSize
decreasing_by exact decodeRound_lt ‹_›

theorem decodeLoop_of_round (hleft : 4 < s.left) (h : s.decodeRound = .ok (some s')) :
    s.decodeLoop = s'.decodeLoop := by
  rw [decodeLoop, if_pos hleft]
  split
  · next fault hround => rw [h] at hround; cases hround
  · next hround => rw [h] at hround; cases hround
  · next t hround => rw [h] at hround; cases hround; rfl

theorem decodeLoop_of_left (hleft : ¬ 4 < s.left) : s.decodeLoop = .ok (some s) := by
  rw [decodeLoop, if_neg hleft]

/-- **The loop keeps to the memory that it was given.** -/
theorem keeps_decodeLoop (h : s.Valid) : s.Keeps s.decodeLoop := by
  induction s using decodeLoop.induct with
  | case1 s hleft fault hround =>
    obtain ⟨o, ho, -⟩ := (keeps_decodeRound h).result
    rw [ho] at hround
    cases hround
  | case2 s hleft hround =>
    rw [decodeLoop, if_pos hleft]
    split
    · next fault hround' => rw [hround] at hround'; cases hround'
    · exact keeps_none s
    · next t hround' => rw [hround] at hround'; cases hround'
  | case3 s hleft t hround ih =>
    obtain ⟨o, ho, hkeeps⟩ := (keeps_decodeRound h).result
    rw [hround] at ho
    cases ho
    obtain ⟨hvalid, hle, xs, hxs⟩ := hkeeps t rfl
    rw [decodeLoop_of_round hleft hround]
    obtain ⟨o, hloop, ho⟩ := (ih hvalid).result
    refine ⟨o, hloop, ?_⟩
    intro u hu
    obtain ⟨hvalid', hle', ys, hys⟩ := ho u hu
    exact ⟨hvalid', hle'.trans hle, xs ++ ys, hxs.trans hys⟩
  | case4 s hleft =>
    rw [decodeLoop_of_left hleft]
    have hfits := h.out
    refine ⟨some s, rfl, ?_⟩
    intro t ht
    cases Option.some.inj ht
    exact ⟨h, le_rfl, [], Cursor.wrote_nil (by omega)⟩

end RleDecoder

/-- `nsc_rle_decode`: what `out` holds, or `none` for `FALSE`. -/
def rleDecode (input : List UInt8) (inSize : ℕ) (out : List UInt8) (outSize originalSize : ℕ) :
    Except MemoryFault (Option (List UInt8)) := do
  match ← RleDecoder.decodeLoop ⟨input, inSize, ⟨out, 0⟩, outSize, originalSize⟩ with
  | none => return none
  | some s =>
    if s.outSize < 4 ∨ s.left < 4 then return none
    else if s.inSize < 4 then return none
    else
      let last ← readFirst 4 s.input >>= s.out.put
      return some last.buffer

/-- The body of the loop of `nsc_rle_decompress_data`, with `rleSize` bytes from `rle` on and
buffers of `length` bytes: the buffer of the plane, or `none` for `FALSE`. -/
def decompressPlane (length : ℕ) (rle : List UInt8) (rleSize : ℕ) (p : Plane) :
    Except MemoryFault (Option (List UInt8)) :=
  if rleSize < p.planeByteCount then .ok none
  else if p.planeByteCount = 0 then
    if length < p.orgByteCount then .ok none
    else
      (fun c => some c.buffer) <$> Cursor.put ⟨p.buffer, 0⟩ (replicate p.orgByteCount 0xFF)
  else if p.planeByteCount < p.orgByteCount then
    rleDecode rle rleSize p.buffer length p.orgByteCount
  else if length < p.orgByteCount then .ok none
  else if rleSize < p.orgByteCount then .ok none
  else
    (fun c => some c.buffer) <$> (readFirst p.orgByteCount rle >>= Cursor.put ⟨p.buffer, 0⟩)

/-- `nsc_rle_decompress_data`. -/
def rleDecompressData (length : ℕ) :
    List UInt8 → ℕ → List Plane → Except MemoryFault (Option (List Plane))
  | _, _, [] => .ok (some [])
  | rle, rleSize, p :: planes => do
    match ← decompressPlane length rle rleSize p with
    | none => return none
    | some buffer =>
      Option.map ({ p with buffer := buffer } :: ·) <$>
        rleDecompressData length (rle.drop p.planeByteCount) (rleSize - p.planeByteCount) planes

/-- **The decoder never leaves its `inSize` bytes of input and `outSize` bytes of output.** -/
theorem rleDecode_safe (input out : List UInt8) (originalSize : ℕ) :
    ∃ o, rleDecode input input.length out out.length originalSize = .ok o ∧
      ∀ out' ∈ o, out'.length = out.length := by
  have hstart : RleDecoder.Valid ⟨input, input.length, ⟨out, 0⟩, out.length, originalSize⟩ :=
    ⟨rfl, Nat.zero_add _⟩
  obtain ⟨o, hloop, ho⟩ := (RleDecoder.keeps_decodeLoop hstart).result
  unfold rleDecode
  rw [hloop, ok_bind]
  cases o with
  | none => exact ⟨none, rfl, fun _ h => nomatch h⟩
  | some s =>
    obtain ⟨hvalid, -, xs, hxs⟩ := ho s rfl
    have hin := hvalid.input
    have hout := hvalid.out
    dsimp only
    split_ifs with hroom hsize
    · exact ⟨none, rfl, fun _ h => nomatch h⟩
    · exact ⟨none, rfl, fun _ h => nomatch h⟩
    · have htake : (s.input.take 4).length = 4 := by
        rw [length_take]
        omega
      have hfits : s.out.pos + (s.input.take 4).length ≤ s.out.buffer.length := by omega
      obtain ⟨last, hput, hlast⟩ := Cursor.wrote_put hfits
      rw [readFirst_of_le (by omega), ok_bind, hput, ok_bind]
      refine ⟨some last.buffer, rfl, ?_⟩
      intro out' hmem
      cases Option.some.inj hmem
      exact (hxs.trans hlast).length_eq

/-! ## What the encoder writes

`emits r xs` is what the encoder writes for `xs` with `r - 1` bytes like the first of `xs`
pending, when it does not give up.  The last four bytes are not among it. -/

/-- What the encoder writes. -/
def emits : ℕ → List UInt8 → List UInt8
  | r, v :: w :: rest =>
    if 3 ≤ rest.length then
      if 4 ≤ rest.length ∧ v = w then emits (r + 1) (w :: rest)
      else runCode r v ++ emits 1 (w :: rest)
    else []
  | _, _ => []

variable {r n : ℕ} {v w : UInt8} {xs rest : List UInt8}

theorem emits_of_short (h : xs.length ≤ 4) : emits r xs = [] := by
  match xs with
  | [] | [_] => rfl
  | v :: w :: rest =>
    rw [length_cons, length_cons] at h
    rw [emits, if_neg (by omega)]

theorem emits_of_same (h : 4 ≤ rest.length) :
    emits r (v :: v :: rest) = emits (r + 1) (v :: rest) := by
  rw [emits, if_pos (by omega), if_pos ⟨h, rfl⟩]

theorem emits_of_end (h : 3 ≤ rest.length) (hend : rest.length = 3 ∨ v ≠ w) :
    emits r (v :: w :: rest) = runCode r v ++ emits 1 (w :: rest) := by
  have hnot : ¬ (4 ≤ rest.length ∧ v = w) := by
    rintro ⟨hlength, heq⟩
    exact hend.elim (fun h3 => by omega) fun hne => hne heq
  rw [emits, if_pos h, if_neg hnot]

theorem runCode_head (r : ℕ) (v : UInt8) : ∃ more, runCode r v = v :: more := by
  unfold runCode
  split_ifs
  exacts [⟨_, rfl⟩, ⟨_, rfl⟩, ⟨_, rfl⟩]

/-- What is written begins with the first byte. -/
theorem emits_head (h : 4 ≤ rest.length) : ∃ more, emits r (v :: rest) = v :: more := by
  induction rest generalizing r v with
  | nil => exact absurd h (by decide)
  | cons w rest ih =>
    rw [length_cons] at h
    by_cases hsame : 4 ≤ rest.length ∧ v = w
    · rw [← hsame.2, emits_of_same hsame.1]
      exact ih hsame.1
    · obtain ⟨more, hcode⟩ := runCode_head r v
      have hend : rest.length = 3 ∨ v ≠ w := by
        by_cases h3 : rest.length = 3
        · exact Or.inl h3
        · exact Or.inr fun heq => hsame ⟨by omega, heq⟩
      rw [emits_of_end (by omega) hend, hcode]
      exact ⟨_, rfl⟩

/-! ### It is what the decoder expands -/

namespace RleDecoder

variable {s : RleDecoder} {t : List UInt8}

theorem literal_eq_run (hleft : 1 ≤ s.left) (value : UInt8) : s.literal value = s.run 1 value := by
  unfold literal run
  by_cases h : s.outSize < 1
  · rw [if_pos h, if_pos (Or.inl h)]
  · rw [if_neg h, if_neg (by omega)]

/-- A run that the encoder writes is read as one. -/
theorem decodeRound_runCode (h : s.Valid) (hinput : s.input = runCode r v ++ t) (hr : 1 ≤ r)
    (hlt : r < 2 ^ 32) (hleft : s.left = n + r) (hn : 4 ≤ n)
    (halone : r = 1 → n = 4 ∨ ∃ w more, t = w :: more ∧ v ≠ w) :
    s.decodeRound = RleDecoder.run { s with input := t, inSize := t.length } r v := by
  obtain ⟨input, inSize, out, outSize, left⟩ := s
  have hsize : inSize = input.length := h.input
  replace hinput : input = runCode r v ++ t := hinput
  replace hleft : left = n + r := hleft
  subst hinput
  subst hsize
  unfold runCode at *
  split_ifs with hone hshort
  · -- a byte that stands alone
    subst hone
    have hrun : 1 ≤ left := by omega
    rcases halone rfl with rfl | ⟨w, more, rfl, hne⟩
    · subst hleft
      simp [decodeRound, readByte, literal_eq_run]
    · by_cases hfive : left = 5
      · subst hfive
        simp [decodeRound, readByte, literal_eq_run]
      · simp [decodeRound, readByte, hfive, hne, literal_eq_run, hrun]
  · -- a count in one byte
    have hfive : left ≠ 5 := by omega
    have hcode : (UInt8.ofNat (r - 2)).toNat = r - 2 := by
      rw [UInt8.toNat_ofNat']
      omega
    have hcode' : UInt8.ofNat (r - 2) < 0xFF := by
      rw [UInt8.lt_iff_toNat_lt, hcode]
      show r - 2 < 255
      omega
    have hcount : r - 2 + 2 = r := by omega
    simp [decodeRound, decodeRun, readByte, hfive, hcode, hcode', hcount]
  · -- a count in four bytes
    have hfive : left ≠ 5 := by omega
    have hlength := LittleEndian.length_encode 4 r
    have hdecode := LittleEndian.decode_encode_of_lt (show r < 256 ^ 4 by omega)
    obtain ⟨b0, b1, b2, b3, hbytes⟩ : ∃ b0 b1 b2 b3, LittleEndian.encode 4 r = [b0, b1, b2, b3] :=
      ⟨_, _, _, _, rfl⟩
    rw [hbytes] at hdecode ⊢
    simp [decodeRound, decodeRun, readLength, readByte, hfive, hdecode]

/-- The loop goes from `s` to `t`, and writes `bytes`. -/
structure Expands (s : RleDecoder) (bytes : List UInt8) (t : RleDecoder) : Prop where
  loop : s.decodeLoop = t.decodeLoop
  valid : t.Valid
  room : t.left ≤ t.outSize
  wrote : s.out.Wrote bytes t.out

theorem Expands.trans {u : RleDecoder} {ys : List UInt8} (h : s.Expands xs s')
    (h' : s'.Expands ys u) : s.Expands (xs ++ ys) u where
  loop := h.loop.trans h'.loop
  valid := h'.valid
  room := h'.room
  wrote := h.wrote.trans h'.wrote

/-- **A run that the encoder writes is expanded.** -/
theorem expands_runCode (h : s.Valid) (hroom : s.left ≤ s.outSize)
    (hinput : s.input = runCode r v ++ t) (hr : 1 ≤ r) (hlt : r < 2 ^ 32)
    (hleft : s.left = n + r) (hn : 4 ≤ n)
    (halone : r = 1 → n = 4 ∨ ∃ w more, t = w :: more ∧ v ≠ w) :
    ∃ s', s.Expands (replicate r v) s' ∧ s'.input = t ∧ s'.left = n := by
  have hround := decodeRound_runCode h hinput hr hlt hleft hn halone
  have hread : RleDecoder.Valid { s with input := t, inSize := t.length } := ⟨rfl, h.out⟩
  have hfits : r ≤ s.outSize := by omega
  obtain ⟨s', hfill, hvalid, hinput', hout', hleft', hwrote⟩ := hread.fill hfits v
  have hrun : s.decodeRound = .ok (some s') := by
    rw [hround, run, if_neg (show ¬ (s.outSize < r ∨ s.left < r) by omega), hfill]
    rfl
  refine ⟨s', ⟨decodeLoop_of_round (by omega) hrun, hvalid, ?_, hwrote⟩, hinput', ?_⟩
  · rw [hleft', hout']
    show s.left - r ≤ s.outSize - r
    omega
  · rw [hleft']
    show s.left - r = n
    omega

/-- **What the encoder writes is expanded** to the bytes that it was written for, the last four
apart. -/
theorem expands_emits (hvalid : s.Valid) (hroom : s.left ≤ s.outSize) (hlength : 4 ≤ rest.length)
    (hinput : s.input = emits r (v :: rest) ++ t) (hr : 1 ≤ r)
    (hlt : r + rest.length < 2 ^ 32) (hleft : s.left = rest.length + r) :
    ∃ s', s.Expands (replicate (r - 1) v ++ (v :: rest).take (rest.length - 3)) s' ∧
      s'.input = t ∧ s'.left = 4 := by
  -- the bytes go over to the pending run one by one, and from it to the output
  induction rest generalizing s r v with
  | nil => exact absurd hlength (by decide)
  | cons w rest ih =>
    rw [length_cons] at hlength hlt hleft
    have htake : (v :: w :: rest).take ((w :: rest).length - 3) =
        v :: (w :: rest).take (rest.length - 3) := by
      rw [length_cons, show rest.length + 1 - 3 = rest.length - 3 + 1 by omega]
      rfl
    rw [htake]
    by_cases hsame : 4 ≤ rest.length ∧ v = w
    · obtain ⟨hlonger, rfl⟩ := hsame
      rw [emits_of_same hlonger] at hinput
      obtain ⟨s', hexpands, hs'⟩ :=
        ih hvalid hroom hlonger hinput (by omega) (by omega) (by omega)
      refine ⟨s', ?_, hs'⟩
      have hrep : replicate (r + 1 - 1) v = replicate (r - 1) v ++ [v] := by
        rw [← replicate_succ', show r - 1 + 1 = r + 1 - 1 by omega]
      rw [hrep, append_assoc] at hexpands
      exact hexpands
    · have hend : rest.length = 3 ∨ v ≠ w := by
        by_cases h3 : rest.length = 3
        · exact Or.inl h3
        · exact Or.inr fun heq => hsame ⟨by omega, heq⟩
      rw [emits_of_end (by omega) hend, append_assoc] at hinput
      have halone : r = 1 → rest.length + 1 = 4 ∨
          ∃ w' more, emits 1 (w :: rest) ++ t = w' :: more ∧ v ≠ w' := by
        intro _
        by_cases h3 : rest.length = 3
        · exact Or.inl (by omega)
        · obtain ⟨more, hhead⟩ := emits_head (r := 1) (v := w) (show 4 ≤ rest.length by omega)
          exact Or.inr ⟨w, more ++ t, by rw [hhead]; rfl, hend.resolve_left h3⟩
      obtain ⟨s₁, hfirst, hinput₁, hleft₁⟩ :=
        expands_runCode hvalid hroom hinput hr (by omega)
          (show s.left = rest.length + 1 + r by omega) (by omega) halone
      have hrep : replicate r v = replicate (r - 1) v ++ [v] := by
        rw [← replicate_succ', show r - 1 + 1 = r by omega]
      rw [hrep] at hfirst
      by_cases hlonger : 4 ≤ rest.length
      · obtain ⟨s', hsecond, hs'⟩ :=
          ih hfirst.valid hfirst.room hlonger hinput₁ le_rfl (by omega) hleft₁
        have hboth := hfirst.trans hsecond
        rw [append_assoc] at hboth
        exact ⟨s', hboth, hs'⟩
      · -- the run ended with the fifth byte from the end
        have h3 : rest.length = 3 := by omega
        rw [emits_of_short (by rw [length_cons]; omega), nil_append] at hinput₁
        refine ⟨s₁, ?_, hinput₁, by omega⟩
        rw [h3]
        exact hfirst

end RleDecoder

/-- The plane that the encoder writes is the one that the decoder reads. -/
theorem rleDecode_emits {plane out : List UInt8} (hlength : 4 < plane.length)
    (hlt : plane.length < 2 ^ 32) (hout : plane.length ≤ out.length) (rest : List UInt8) :
    ∃ out', rleDecode (emits 1 plane ++ (plane.drop (plane.length - 4) ++ rest))
        (emits 1 plane ++ (plane.drop (plane.length - 4) ++ rest)).length out out.length
        plane.length = .ok (some out') ∧
      out'.length = out.length ∧ out'.take plane.length = plane := by
  obtain ⟨v, bytes, rfl⟩ : ∃ v bytes, plane = v :: bytes := by
    cases plane with
    | nil => exact absurd hlength (by decide)
    | cons v bytes => exact ⟨v, bytes, rfl⟩
  generalize hinput : emits 1 (v :: bytes) ++
    ((v :: bytes).drop ((v :: bytes).length - 4) ++ rest) = input
  rw [length_cons] at hlength hlt
  have hstart : RleDecoder.Valid
      ⟨input, input.length, ⟨out, 0⟩, out.length, (v :: bytes).length⟩ :=
    ⟨rfl, Nat.zero_add _⟩
  obtain ⟨s, hexpands, hs, hleft⟩ :=
    RleDecoder.expands_emits hstart hout (by omega) hinput.symm le_rfl (by omega) rfl
  have hsize := hexpands.valid.input
  have hlast : ((v :: bytes).drop ((v :: bytes).length - 4)).length = 4 := by
    rw [length_drop, length_cons]
    omega
  have hlonger : s.input.length = 4 + rest.length := by
    rw [hs, length_append, hlast]
  have hroom := hexpands.room
  have hspace := hexpands.valid.out
  have hfits : s.out.pos + ((v :: bytes).drop ((v :: bytes).length - 4)).length ≤
      s.out.buffer.length := by omega
  obtain ⟨last, hput, hwrote⟩ := Cursor.wrote_put hfits
  have hall := hexpands.wrote.trans hwrote
  have hplane : replicate (1 - 1) v ++ (v :: bytes).take (bytes.length - 3) ++
      (v :: bytes).drop ((v :: bytes).length - 4) = v :: bytes := by
    rw [length_cons, show bytes.length + 1 - 4 = bytes.length - 3 by omega]
    exact take_append_drop _ _
  rw [hplane] at hall
  refine ⟨last.buffer, ?_, hall.length_eq, hall.front⟩
  unfold rleDecode
  rw [hexpands.loop, RleDecoder.decodeLoop_of_left (by omega), ok_bind]
  dsimp only
  rw [if_neg (by omega), if_neg (by omega), hs, readFirst_append hlast, ok_bind, hput]
  rfl

/-! ## The encoder writes it, or gives up -/

section

variable {originalSize length : ℕ} {e : RleEncoder} {slack : List UInt8}

/-- What holds of the encoder before every round, with a scratch buffer of `length` bytes. -/
structure RleEncoder.Valid (originalSize length : ℕ) (e : RleEncoder) : Prop where
  pos : e.out.pos = e.planeSize
  length_eq : e.out.buffer.length = length
  room : originalSize + 16 ≤ length
  size : e.planeSize ≤ originalSize + 2

theorem RleEncoder.Valid.wrote_nil (h : e.Valid originalSize length) : e.out.Wrote [] e.out := by
  have hpos := h.pos
  have hlength := h.length_eq
  have hroom := h.room
  have hsize := h.size
  exact Cursor.wrote_nil (by omega)

theorem length_runCode (r : ℕ) (v : UInt8) : (runCode r v).length ≤ 7 := by
  unfold runCode
  split_ifs <;> simp

theorem encodeRound_of_same {left : ℕ} {more : List UInt8} (hinput : e.input = v :: v :: more)
    (hleft : 5 < left) :
    encodeRound left e =
      .ok { e with input := v :: more, runlength := (e.runlength + 1) % 2 ^ 32 } := by
  unfold encodeRound
  rw [hinput, next_cons, ok_bind]
  simp [hleft]
  rfl

theorem encodeRound_of_end {left : ℕ} {more : List UInt8} (h : e.Valid originalSize length)
    (hsize : originalSize + 6 < 2 ^ 32) (hplane : e.planeSize < originalSize - 4)
    (hinput : e.input = v :: w :: more) (hend : left ≤ 5 ∨ v ≠ w) :
    ∃ e', encodeRound left e = .ok e' ∧ e'.Valid originalSize length ∧ e'.input = w :: more ∧
      e'.runlength = 1 ∧ e.out.Wrote (runCode e.runlength v) e'.out := by
  have hcode := length_runCode e.runlength v
  have hpos := h.pos
  have hroom := h.room
  have hlength := h.length_eq
  have hfits : e.out.pos + (runCode e.runlength v).length ≤ e.out.buffer.length := by omega
  obtain ⟨out, hput, hwrote⟩ := Cursor.wrote_put hfits
  have hsum : (e.planeSize + (runCode e.runlength v).length) % 2 ^ 32 =
      e.planeSize + (runCode e.runlength v).length := Nat.mod_eq_of_lt (by omega)
  refine ⟨⟨w :: more, out, 1, (e.planeSize + (runCode e.runlength v).length) % 2 ^ 32⟩, ?_,
    ⟨?_, ?_, hroom, ?_⟩, rfl, rfl, hwrote⟩
  · unfold encodeRound
    rw [hinput, next_cons, ok_bind]
    by_cases hleft : 5 < left
    · have hne : v ≠ w := hend.resolve_left (by omega)
      simp [hleft, hne, hput]
    · simp [hleft, hput]
  · rw [hsum]
    show out.pos = _
    rw [hwrote.pos, hpos]
  · show out.buffer.length = length
    rw [hwrote.length_eq, hlength]
  · rw [hsum]
    show e.planeSize + _ ≤ _
    omega

theorem lessFour_of_le (h : 4 ≤ originalSize) (hlt : originalSize < 2 ^ 32) :
    lessFour originalSize = originalSize - 4 := by
  unfold lessFour
  omega

/-- **The loop writes what `emits` says, or it gives up.** -/
theorem encodeLoop_emits (hleast : 4 ≤ originalSize) (hsize : originalSize + 6 < 2 ^ 32)
    (h : e.Valid originalSize length) (hinput : e.input = xs ++ slack) (hrun : 1 ≤ e.runlength)
    (hlength : e.runlength + xs.length ≤ originalSize + 1) :
    ∃ e', encodeLoop originalSize xs.length e = .ok e' ∧ e'.Valid originalSize length ∧
      (lessFour originalSize ≤ e'.planeSize ∨
        e'.input = xs.drop (xs.length - 4) ++ slack ∧
          e.out.Wrote (emits e.runlength xs) e'.out) := by
  have hless := lessFour_of_le hleast (by omega)
  induction xs generalizing e with
  | nil => exact ⟨e, rfl, h, Or.inr ⟨hinput, h.wrote_nil⟩⟩
  | cons v xs ih =>
    rw [length_cons, encodeLoop]
    by_cases hgoes : 4 < xs.length + 1 ∧ e.planeSize < lessFour originalSize
    · obtain ⟨hlong, hgoes⟩ := hgoes
      rw [if_pos ⟨hlong, hgoes⟩]
      obtain ⟨w, rest, rfl⟩ : ∃ w rest, xs = w :: rest := by
        cases xs with
        | nil => exact absurd hlong (by decide)
        | cons w rest => exact ⟨w, rest, rfl⟩
      rw [length_cons] at hlong hlength
      rw [length_cons] at hlength
      have hdrop : (v :: w :: rest).drop ((w :: rest).length + 1 - 4) =
          (w :: rest).drop ((w :: rest).length - 4) := by
        rw [length_cons, show rest.length + 1 + 1 - 4 = rest.length + 1 - 4 + 1 by omega]
        rfl
      rw [hdrop]
      by_cases hsame : 4 ≤ rest.length ∧ v = w
      · obtain ⟨hlonger, rfl⟩ := hsame
        have hround := encodeRound_of_same hinput
          (show 5 < (v :: rest).length + 1 by rw [length_cons]; omega)
        have hcount : (e.runlength + 1) % 2 ^ 32 = e.runlength + 1 :=
          Nat.mod_eq_of_lt (by omega)
        rw [hcount] at hround
        rw [hround, ok_bind, emits_of_same hlonger]
        refine ih ⟨h.pos, h.length_eq, h.room, h.size⟩ rfl (Nat.le_add_left 1 _) ?_
        show e.runlength + 1 + (v :: rest).length ≤ _
        rw [length_cons]
        omega
      · have hend : rest.length = 3 ∨ v ≠ w := by
          by_cases h3 : rest.length = 3
          · exact Or.inl h3
          · exact Or.inr fun heq => hsame ⟨by omega, heq⟩
        have hleft : (w :: rest).length + 1 ≤ 5 ∨ v ≠ w := by
          rw [length_cons]
          exact hend.imp_left fun h3 => by omega
        obtain ⟨e₁, hround, hvalid₁, hinput₁, hrun₁, hwrote₁⟩ :=
          encodeRound_of_end h hsize (by omega) hinput hleft
        rw [hround, ok_bind, emits_of_end (by omega) hend]
        have hlength₁ : e₁.runlength + (w :: rest).length ≤ originalSize + 1 := by
          rw [hrun₁, length_cons]
          omega
        obtain ⟨e', hloop, hvalid', hdone⟩ := ih hvalid₁ hinput₁ (by omega) hlength₁
        refine ⟨e', hloop, hvalid', hdone.imp_right ?_⟩
        rintro ⟨hinput', hwrote'⟩
        rw [hrun₁] at hwrote'
        exact ⟨hinput', hwrote₁.trans hwrote'⟩
    · rw [if_neg hgoes]
      refine ⟨e, rfl, h, ?_⟩
      by_cases hlong : 4 < xs.length + 1
      · exact Or.inl (Nat.le_of_not_lt fun hlt => hgoes ⟨hlong, hlt⟩)
      · have hshort : (v :: xs).length ≤ 4 := by
          rw [length_cons]
          omega
        rw [emits_of_short hshort, show xs.length + 1 - 4 = 0 by omega]
        exact Or.inr ⟨hinput, h.wrote_nil⟩

end

/-- **What `nsc_rle_encode` returns**: a size that is no gain, or the size of what the decoder
expands. -/
theorem rleEncode_spec {plane slack out : List UInt8} (hne : plane ≠ [])
    (hsize : plane.length + 6 < 2 ^ 32) (hslack : 16 ≤ slack.length)
    (hout : plane.length + 16 ≤ out.length) :
    ∃ size out', rleEncode (plane ++ slack) out plane.length = .ok (size, out') ∧
      out'.length = out.length ∧
      (plane.length ≤ size ∨ 4 < plane.length ∧ size < plane.length ∧
        out'.take size = emits 1 plane ++ plane.drop (plane.length - 4)) := by
  have hpos : 0 < plane.length := length_pos_iff.2 hne
  unfold rleEncode
  by_cases hleast : 4 ≤ plane.length
  · have hstart : RleEncoder.Valid plane.length out.length ⟨plane ++ slack, ⟨out, 0⟩, 1, 0⟩ :=
      ⟨rfl, rfl, hout, Nat.zero_le _⟩
    obtain ⟨e, hloop, hvalid, hdone⟩ :=
      encodeLoop_emits hleast hsize hstart rfl le_rfl (by show 1 + plane.length ≤ _; omega)
    have hless := lessFour_of_le hleast (by omega)
    have hplane := hvalid.size
    have hroom := hvalid.length_eq
    have hat := hvalid.pos
    rw [hloop, ok_bind]
    by_cases hgain : e.planeSize < lessFour plane.length
    · -- the last four bytes follow
      obtain ⟨hinput, hwrote⟩ := hdone.resolve_left (Nat.not_le_of_lt hgain)
      have hlast : (plane.drop (plane.length - 4)).length = 4 := by
        rw [length_drop]
        omega
      have hfits : e.out.pos + (plane.drop (plane.length - 4)).length ≤ e.out.buffer.length := by
        omega
      obtain ⟨last, hput, hwrote'⟩ := Cursor.wrote_put hfits
      have hall := hwrote.trans hwrote'
      have hcount : (e.planeSize + 4) % 2 ^ 32 =
          (emits 1 plane ++ plane.drop (plane.length - 4)).length := by
        have hemitted : e.out.pos = 0 + (emits 1 plane).length := hwrote.pos
        rw [Nat.mod_eq_of_lt (by omega), length_append, hlast]
        omega
      refine ⟨(e.planeSize + 4) % 2 ^ 32, last.buffer, ?_, hall.length_eq,
        Or.inr ⟨by omega, by omega, ?_⟩⟩
      · rw [if_pos hgain, hinput, readFirst_append hlast, ok_bind, hput]
        rfl
      · rw [hcount]
        exact hall.front
    · refine ⟨(e.planeSize + 4) % 2 ^ 32, e.out.buffer, ?_, hroom, Or.inl (by omega)⟩
      rw [if_neg hgain]
      rfl
  · -- the loop is not entered, and four bytes are no gain
    have hloop : encodeLoop plane.length plane.length ⟨plane ++ slack, ⟨out, 0⟩, 1, 0⟩ =
        .ok ⟨plane ++ slack, ⟨out, 0⟩, 1, 0⟩ := by
      obtain ⟨n, hn⟩ : ∃ n, plane.length = n + 1 := ⟨plane.length - 1, by omega⟩
      rw [hn, encodeLoop, if_neg (by omega)]
    have hgain : 0 < lessFour plane.length := by
      unfold lessFour
      omega
    have hfour : 4 ≤ (plane ++ slack).length := by
      rw [length_append]
      omega
    have htake : ((plane ++ slack).take 4).length = 4 := by
      rw [length_take]
      omega
    have hfits : 0 + ((plane ++ slack).take 4).length ≤ out.length := by omega
    obtain ⟨last, hput, hwrote⟩ := Cursor.wrote_put (c := ⟨out, 0⟩) hfits
    rw [hloop, ok_bind]
    dsimp only
    rw [if_pos hgain, readFirst_of_le hfour, ok_bind, hput]
    exact ⟨4, last.buffer, rfl, hwrote.length_eq, Or.inl (by omega)⟩

/-! ## Planes there and back -/

/-- A plane of a context that is about to encode: its buffer has the `PlaneBuffersLength` that
`nsc_context_initialize_encode` allocates, 16 bytes more than any plane needs. -/
structure Plane.Ready (length : ℕ) (p : Plane) : Prop where
  length_eq : p.buffer.length = length
  slack : p.orgByteCount + 16 ≤ length
  size : p.orgByteCount + 6 < 2 ^ 32

/-- `d` is the plane at the other end: it has the size of the plane and was sent its count. -/
structure Plane.Receives (length : ℕ) (p d : Plane) : Prop where
  orgByteCount : d.orgByteCount = p.orgByteCount
  planeByteCount : d.planeByteCount = p.planeByteCount
  length_eq : d.buffer.length = length
  fits : d.orgByteCount ≤ length

/-- What is sent for `p` is expanded to the bytes of `p`, whatever follows it. -/
structure Sends (p q : Plane) : Prop where
  orgByteCount : q.orgByteCount = p.orgByteCount
  message : q.message.length = q.planeByteCount
  expands : ∀ {length : ℕ} {d : Plane} (rest : List UInt8), q.Receives length d →
    ∃ buffer, decompressPlane length (q.message ++ rest) (q.message ++ rest).length d =
      .ok (some buffer) ∧ buffer.length = length ∧ buffer.take d.orgByteCount = p.content

variable {length : ℕ} {p q d : Plane}

/-- A plane without bytes. -/
theorem sends_empty (h : p.orgByteCount = 0) : Sends p { p with planeByteCount := 0 } where
  orgByteCount := rfl
  message := rfl
  expands := by
    intro length d rest hd
    have horg : d.orgByteCount = 0 := hd.orgByteCount.trans h
    have hcount : d.planeByteCount = 0 := hd.planeByteCount
    refine ⟨d.buffer, ?_, hd.length_eq, ?_⟩
    · unfold decompressPlane
      rw [hcount, horg, if_neg (Nat.not_lt_zero _), if_pos rfl, if_neg (Nat.not_lt_zero _)]
      simp [Cursor.put, ByteBuffer.overwrite]
    · rw [horg, Plane.content, h, take_zero, take_zero]

theorem sends_raw (h : p.Ready length) (hpos : 0 < p.orgByteCount) :
    Sends p { p with planeByteCount := p.orgByteCount } := by
  have hready := h.length_eq
  have hslack := h.slack
  have hmessage : (p.buffer.take p.orgByteCount).length = p.orgByteCount := by
    rw [length_take]
    omega
  refine ⟨rfl, hmessage, ?_⟩
  intro length' d rest hd
  have horg : d.orgByteCount = p.orgByteCount := hd.orgByteCount
  have hcount : d.planeByteCount = p.orgByteCount := hd.planeByteCount
  have hlength := hd.length_eq
  have hroom := hd.fits
  have hall : (p.content ++ rest).length = p.orgByteCount + rest.length := by
    rw [length_append]
    exact congrArg (· + rest.length) hmessage
  have hfits : 0 + p.content.length ≤ d.buffer.length := by
    rw [Plane.content, hmessage]
    omega
  obtain ⟨c, hput, hwrote⟩ := Cursor.wrote_put (c := ⟨d.buffer, 0⟩) hfits
  refine ⟨c.buffer, ?_, hwrote.length_eq.trans hlength, ?_⟩
  · show decompressPlane length' (p.content ++ rest) (p.content ++ rest).length d = _
    unfold decompressPlane
    rw [hall, if_neg (by omega), if_neg (by omega), if_neg (by omega), if_neg (by omega),
      if_neg (by omega), readFirst_append (by rw [horg]; exact hmessage), ok_bind, hput]
    rfl
  · have hfront := hwrote.front
    rw [Plane.content, hmessage] at hfront
    rw [horg]
    exact hfront

/-- A plane that is sent with its runs shortened. -/
theorem sends_coded {buffer : List UInt8} {size : ℕ} (hsize : p.orgByteCount < 2 ^ 32)
    (hcontent : p.content.length = p.orgByteCount) (hlong : 4 < p.orgByteCount)
    (hgain : size < p.orgByteCount) (hlength : (buffer.take size).length = size)
    (hcoded : buffer.take size =
      emits 1 p.content ++ p.content.drop (p.content.length - 4)) :
    Sends p { p with buffer := buffer, planeByteCount := size } := by
  have hlast : (p.content.drop (p.content.length - 4)).length = 4 := by
    rw [length_drop]
    omega
  have hpos : 4 ≤ size := by
    have hcount := congrArg List.length hcoded
    rw [hlength, length_append, hlast] at hcount
    omega
  refine ⟨rfl, hlength, ?_⟩
  intro length' d rest hd
  have horg : d.orgByteCount = p.orgByteCount := hd.orgByteCount
  have hcount : d.planeByteCount = size := hd.planeByteCount
  have hroom := hd.fits
  have hd' := hd.length_eq
  obtain ⟨out, hdecode, hout, htake⟩ :=
    rleDecode_emits (by omega) (by omega) (by omega : p.content.length ≤ d.buffer.length) rest
  refine ⟨out, ?_, hout.trans hd', ?_⟩
  · show decompressPlane length' (buffer.take size ++ rest) (buffer.take size ++ rest).length d = _
    unfold decompressPlane
    rw [if_neg (by rw [length_append]; omega), if_neg (by omega), if_pos (by omega), hcoded,
      append_assoc, ← hd', horg, ← hcontent]
    exact hdecode
  · rw [horg, ← hcontent]
    exact htake

/-- **What is chosen for a plane is expanded to it.** -/
theorem compressPlane_sends {scratch : List UInt8} (h : p.Ready length)
    (hscratch : scratch.length = length) :
    ∃ scratch' q, compressPlane scratch p = .ok (scratch', q) ∧ scratch'.length = length ∧
      Sends p q := by
  have hready := h.length_eq
  have hslack := h.slack
  have hsize := h.size
  unfold compressPlane
  by_cases hzero : p.orgByteCount = 0
  · rw [if_pos hzero]
    exact ⟨scratch, _, rfl, hscratch, sends_empty hzero⟩
  · have hcontent : p.content.length = p.orgByteCount := by
      rw [Plane.content, length_take]
      omega
    have hdrop : (p.buffer.drop p.orgByteCount).length = length - p.orgByteCount := by
      rw [length_drop, hready]
    obtain ⟨size, out, hencode, hout, hchoice⟩ :=
      @rleEncode_spec p.content (p.buffer.drop p.orgByteCount) scratch
        (length_pos_iff.1 (by omega)) (by omega) (by omega) (by omega)
    rw [Plane.content, take_append_drop, ← Plane.content, hcontent] at hencode
    rw [if_neg hzero, hencode, ok_bind]
    dsimp only
    by_cases hgain : size < p.orgByteCount
    · obtain ⟨hlong, -, hcoded⟩ := hchoice.resolve_left (by omega)
      have htake : (out.take size).length = size := by
        rw [length_take]
        omega
      have hfits : 0 + (out.take size).length ≤ p.buffer.length := by omega
      obtain ⟨c, hput, hwrote⟩ := Cursor.wrote_put (c := ⟨p.buffer, 0⟩) hfits
      have hfront := hwrote.front
      rw [htake] at hfront
      rw [if_pos hgain, readFirst_of_le (by omega), ok_bind, hput, ok_bind]
      refine ⟨out, _, rfl, hout.trans hscratch, ?_⟩
      refine sends_coded (by omega) hcontent (by omega) hgain ?_ ?_
      · rw [hfront, htake]
      · rw [hfront, hcoded]
    · rw [if_neg hgain]
      exact ⟨out, _, rfl, hout.trans hscratch, sends_raw h (by omega)⟩

theorem rleCompressData_sends (planes : List Plane) {scratch : List UInt8}
    (h : ∀ p ∈ planes, p.Ready length) (hscratch : scratch.length = length) :
    ∃ sent, rleCompressData scratch planes = .ok sent ∧ List.Forall₂ Sends planes sent := by
  induction planes generalizing scratch with
  | nil => exact ⟨[], rfl, List.Forall₂.nil⟩
  | cons p planes ih =>
    obtain ⟨scratch', q, hp, hscratch', hsends⟩ :=
      compressPlane_sends (h p mem_cons_self) hscratch
    obtain ⟨sent, hplanes, hall⟩ := ih (fun p hp => h p (mem_cons_of_mem _ hp)) hscratch'
    refine ⟨q :: sent, ?_, List.Forall₂.cons hsends hall⟩
    rw [rleCompressData, hp, ok_bind]
    dsimp only
    rw [hplanes]
    rfl

theorem rleDecompressData_sends {planes sent : List Plane} (h : List.Forall₂ Sends planes sent) :
    ∀ {receivers : List Plane} (rest : List UInt8),
      List.Forall₂ (Plane.Receives length) sent receivers →
      ∃ out, rleDecompressData length (sent.flatMap Plane.message ++ rest)
          (sent.flatMap Plane.message ++ rest).length receivers = .ok (some out) ∧
        out.map Plane.content = planes.map Plane.content := by
  induction h with
  | nil =>
    intro receivers rest hreceives
    cases hreceives
    exact ⟨[], rfl, rfl⟩
  | @cons p q planes sent hsends _ ih =>
    intro receivers rest hreceives
    cases hreceives with
    | @cons _ d _ receivers hd hreceives =>
      obtain ⟨buffer, hplane, hlength, hcontent⟩ :=
        hsends.expands (sent.flatMap Plane.message ++ rest) hd
      obtain ⟨out, hrest, hout⟩ := ih rest hreceives
      have hcount : d.planeByteCount = q.message.length :=
        hd.planeByteCount.trans hsends.message.symm
      refine ⟨{ d with buffer := buffer } :: out, ?_, ?_⟩
      · rw [flatMap_cons, append_assoc, rleDecompressData, hplane, ok_bind]
        dsimp only
        rw [hcount, drop_left, length_append, Nat.add_sub_cancel_left, hrest]
        rfl
      · rw [map_cons, map_cons, hout]
        exact congrArg (· :: _) hcontent

/-- **Planes come back as they were, and no input makes the decoder leave its memory.**  The
bytes and the counts that the encoder chooses are expanded to the same planes, whatever follows
them; and the decoder ends on any input, without an access outside of `inSize` bytes of input and
`outSize` bytes of output. -/
theorem rle_lossless_and_safe :
    (∀ (length : ℕ) (planes : List Plane) (scratch : List UInt8),
      (∀ p ∈ planes, p.Ready length) → scratch.length = length →
      ∃ sent, rleCompressData scratch planes = .ok sent ∧
        ∀ (length' : ℕ) (receivers : List Plane) (rest : List UInt8),
          List.Forall₂ (Plane.Receives length') sent receivers →
          ∃ out, rleDecompressData length' (sent.flatMap Plane.message ++ rest)
              (sent.flatMap Plane.message ++ rest).length receivers = .ok (some out) ∧
            out.map Plane.content = planes.map Plane.content) ∧
    ∀ (input out : List UInt8) (originalSize : ℕ),
      ∃ o, rleDecode input input.length out out.length originalSize = .ok o ∧
        ∀ out' ∈ o, out'.length = out.length := by
  refine ⟨?_, rleDecode_safe⟩
  intro length planes scratch hready hscratch
  obtain ⟨sent, hcompress, hsends⟩ := rleCompressData_sends planes hready hscratch
  exact ⟨sent, hcompress, fun _ _ rest hreceives => rleDecompressData_sends hsends rest hreceives⟩

/-- A plane of 22 equal bytes, and two bytes of a run without its count. -/
theorem rle_lossless_and_safe_run :
    (∃ out, rleDecompressData 38 [7, 7, 16, 7, 7, 7, 7, 1] 8
        [⟨replicate 38 0, 22, 7⟩] = .ok (some out) ∧
      out.map Plane.content = [replicate 22 7]) ∧
    ∃ o, rleDecode [7, 7] 2 [0] 1 9 = .ok o ∧ ∀ out' ∈ o, out'.length = 1 := by
  obtain ⟨sent, hsent, hall⟩ := rle_lossless_and_safe.1 38 [⟨replicate 38 7, 22, 0⟩]
    (replicate 38 0)
    (forall_mem_singleton.2 ⟨length_replicate, by decide, by decide⟩)
    length_replicate
  have hrun : rleCompressData (replicate 38 0) [⟨replicate 38 7, 22, 0⟩] =
      .ok [⟨[7, 7, 16, 7, 7, 7, 7] ++ replicate 31 7, 22, 7⟩] := rfl
  cases hsent.symm.trans hrun
  have hreceives := hall 38 [⟨replicate 38 0, 22, 7⟩] [1]
    (List.Forall₂.cons ⟨rfl, rfl, length_replicate, by decide⟩ List.Forall₂.nil)
  exact ⟨hreceives, rle_lossless_and_safe.2 [7, 7] [0] 9⟩

end Nsc
