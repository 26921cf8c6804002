/-
# Safety of the interleaved decoder

`RLEDECOMPRESS` on the bytes that its pointers point to, with a check in front of each access:
the source is read in its length only, the destination is written in its rows only, and the
pixel above is not looked for in front of them.

`rleDecompress_safe`: no check ever fails, whatever the source says.
-/
import XyDeskRemote.CheckedProgram
import XyDeskRemote.InterleavedOrders

open Program LittleEndian Nat

namespace InterleavedSafety

/-- What must not happen. -/
inductive Fault where
  | source
  | dest
  | above
  | spins
  deriving DecidableEq

/-- What is the same for a whole image: the pixels, the bytes of a row, and where the rows end. -/
structure Frame where
  t : PixelType
  rowDelta : ℕ
  destEnd : ℕ

/-- The variables of `RLEDECOMPRESS`: what lies at `pbSrc`, the destination and the place of
`pbDest` in it. -/
structure State where
  src : List UInt8
  buffer : List UInt8
  dest : ℕ := 0
  fgPel : ℕ
  insertFgPel : Bool := false
  firstLine : Bool := true

/-- The template, with its accesses checked. -/
abbrev RleProgram : Type → Type := Program State Fault

/-! ## The source -/

/-- `pbSrc[k]`. -/
def srcByte (k : ℕ) : RleProgram UInt8 := do
  check .source fun s => k < s.src.length
  read fun s => s.src.getD k 0

/-- `pbSrc += n`. -/
def advance (n : ℕ) : RleProgram Unit := do
  check .source fun s => n ≤ s.src.length
  update fun s => { s with src := s.src.drop n }

/-- `buffer_within_range`. -/
def withinRange (size : ℕ) (s : State) : Bool := size ≤ s.src.length

/-- `SRCREADPIXEL`. -/
def srcReadPixel (size : ℕ) : RleProgram ℕ := do
  check .source fun s => size ≤ s.src.length
  let pixel ← read fun s => decode (s.src.take size)
  advance size
  return pixel

/-- A pixel of the source, after `buffer_within_range`. -/
def readPixel (size : ℕ) : RleProgram ℕ := do
  ensure (withinRange size)
  srcReadPixel size

/-- The run lengths that may be in the header: the length, and the bytes it takes. -/
def extractShort (mask : UInt8) (least scale : ℕ) : RleProgram (ℕ × ℕ) := do
  let hdr ← srcByte 0
  let runLength := (hdr &&& mask).toNat
  if runLength = 0 then
    if ← read (withinRange 2) then
      let next ← srcByte 1
      return (next.toNat + least, 2)
    else return (0, 0)
  else return (runLength * scale, 1)

/-- `ExtractRunLengthRegularFgBg`. -/
def extractRunLengthRegularFgBg : RleProgram (ℕ × ℕ) := extractShort 0x1F 1 8

/-- `ExtractRunLengthLiteFgBg`. -/
def extractRunLengthLiteFgBg : RleProgram (ℕ × ℕ) := extractShort 0x0F 1 8

/-- `ExtractRunLengthRegular`. -/
def extractRunLengthRegular : RleProgram (ℕ × ℕ) := extractShort 0x1F 32 1

/-- `ExtractRunLengthLite`. -/
def extractRunLengthLite : RleProgram (ℕ × ℕ) := extractShort 0x0F 16 1

/-- `ExtractRunLengthMegaMega`. -/
def extractRunLengthMegaMega : RleProgram (ℕ × ℕ) := do
  if ← read (withinRange 3) then
    let lo ← srcByte 1
    let hi ← srcByte 2
    return (lo.toNat ||| hi.toNat <<< 8, 3)
  else return (0, 0)

/-- `ExtractRunLength`, with the number of bytes to advance. -/
def extractRunLength (code : UInt8) : RleProgram (ℕ × ℕ) :=
  if code = 0x02 then extractRunLengthRegularFgBg
  else if code = 0x0D then extractRunLengthLiteFgBg
  else if code ∈ [0x00, 0x01, 0x03, 0x04] then extractRunLengthRegular
  else if code ∈ [0x0C, 0x0E] then extractRunLengthLite
  else if code ∈ [0xF0, 0xF1, 0xF6, 0xF8, 0xF3, 0xF2, 0xF7, 0xF4] then extractRunLengthMegaMega
  else return (0, 0)

/-- The length of an order; its header is consumed. -/
def runLengthOf (code : UInt8) : RleProgram ℕ := do
  let r ← extractRunLength code
  ensure fun _ => r.2 ≠ 0
  advance r.2
  return r.1

/-! ## The destination -/

/-- `ensure_capacity_`, for places in one buffer. -/
def ensureCapacity (start finish size base : ℕ) : Bool :=
  let available := (finish + 2 ^ 64 - start) % 2 ^ 64
  decide (available ≥ size * base % 2 ^ 64) && decide (start ≤ finish)

variable (F : Frame)

/-- `ENSURE_CAPACITY` of the destination. -/
def destCapacity (n : ℕ) (s : State) : Bool := ensureCapacity s.dest F.destEnd n F.t.size

/-- `DESTWRITEPIXEL`. -/
def destWritePixel (pixel : ℕ) : RleProgram Unit := do
  check .dest fun s => s.dest + F.t.size ≤ F.destEnd
  update fun s => { s with
    buffer := ByteBuffer.overwrite s.buffer s.dest (encode F.t.size pixel)
    dest := s.dest + F.t.size }

/-- `DESTREADPIXEL` at `pbDest - rowDelta`: not in front of the destination, and not behind it
either, where a row has room for a pixel. -/
def destReadAbove : RleProgram ℕ := do
  check .above fun s => F.rowDelta ≤ s.dest ∧
    (F.t.size ≤ F.rowDelta → s.dest - F.rowDelta + F.t.size ≤ F.destEnd)
  read fun s => decode ((s.buffer.drop (s.dest - F.rowDelta)).take F.t.size)

/-- What a background pixel is: `BLACK_PIXEL`, or the pixel above. -/
def background : RleProgram ℕ := do
  if ← read State.firstLine then return 0 else destReadAbove F

/-- A run of pixels from the background, after the check of the room for it. -/
def writeRun (pixel : ℕ → ℕ) (n : ℕ) : RleProgram Unit := do
  ensure (destCapacity F n)
  times (do
    let temp ← background F
    destWritePixel F (pixel temp)) n

/-- The loop over the bits of a mask. -/
def writeBits (bitmask : UInt8) (fgPel : ℕ) : UInt8 → ℕ → RleProgram Unit
  | _, 0 => pure ()
  | mask, n + 1 => do
    let xorPixel ← background F
    destWritePixel F (if bitmask &&& mask ≠ 0 then xorPixel ^^^ fgPel else xorPixel)
    writeBits bitmask fgPel (mask <<< 1) n

/-- `WRITEFGBGIMAGE` and `WRITEFIRSTLINEFGBGIMAGE`. -/
def writeFgBgImage (bitmask : UInt8) (cBits : ℕ) : RleProgram Unit := do
  ensure fun _ => cBits ≤ 8
  ensure (destCapacity F cBits)
  let fgPel ← read State.fgPel
  writeBits F bitmask fgPel 0x01 cBits

/-! ## The orders -/

/-- A background run: a follow-on run starts with a foreground pixel, and `runLength - 1` is an
unsigned number. -/
def bgRun (code : UInt8) : RleProgram Unit := do
  let runLength ← runLengthOf code
  let rest ← (do
    if ← read State.insertFgPel then
      let temp ← background F
      ensure (destCapacity F 1)
      let fgPel ← read State.fgPel
      destWritePixel F (temp ^^^ fgPel)
      return (runLength + 2 ^ 32 - 1) % 2 ^ 32
    else return runLength)
  writeRun F id rest
  update fun s => { s with insertFgPel := true }

/-- The foreground pixel of an order that sets it. -/
def setFg (sets : Bool) : RleProgram Unit := do
  if sets then
    let fgPel ← readPixel F.t.size
    update fun s => { s with fgPel }

/-- A run of the foreground. -/
def fgRun (code : UInt8) : RleProgram Unit := do
  let runLength ← runLengthOf code
  setFg F (code = 0x0C ∨ code = 0xF6)
  let fgPel ← read State.fgPel
  writeRun F (· ^^^ fgPel) runLength

/-- A dithered run. -/
def ditheredRun (code : UInt8) : RleProgram Unit := do
  let runLength ← runLengthOf code
  let pixelA ← readPixel F.t.size
  let pixelB ← readPixel F.t.size
  ensure (destCapacity F (runLength * 2 % 2 ^ 32))
  times (do
    destWritePixel F pixelA
    destWritePixel F pixelB) runLength

/-- A run of a colour. -/
def colorRun (code : UInt8) : RleProgram Unit := do
  let runLength ← runLengthOf code
  let pixelA ← readPixel F.t.size
  ensure (destCapacity F runLength)
  times (destWritePixel F pixelA) runLength

/-- The masks of eight pixels, as long as there are more than eight, and then the last one; cut
off after `fuel` rounds. -/
def writeMasks : ℕ → ℕ → RleProgram Unit
  | fuel, runLength =>
    if runLength > 8 then
      match fuel with
      | 0 => check .spins fun _ => false
      | fuel + 1 => do
        let bitmask ← srcByte 0
        advance 1
        writeFgBgImage F bitmask 8
        writeMasks fuel (runLength - 8)
    else if runLength > 0 then do
      ensure (withinRange 1)
      let bitmask ← srcByte 0
      advance 1
      writeFgBgImage F bitmask runLength
    else pure ()

/-- An image of foreground and background. -/
def fgBgImage (code : UInt8) : RleProgram Unit := do
  let runLength ← runLengthOf code
  setFg F (code = 0x0D ∨ code = 0xF7)
  ensure (withinRange (runLength / 8))
  writeMasks F (runLength / 8) runLength

/-- An image of pixels. -/
def colorImage (code : UInt8) : RleProgram Unit := do
  let runLength ← runLengthOf code
  ensure (destCapacity F runLength)
  ensure fun s => ensureCapacity 0 s.src.length runLength F.t.size
  times (do
    let temp ← srcReadPixel F.t.size
    destWritePixel F temp) runLength

/-- An order that is a header alone. -/
def special (body : RleProgram Unit) : RleProgram Unit := do
  ensure (withinRange 1)
  advance 1
  body

/-- The white order and the black one. -/
def onePixel (pixel : ℕ) : RleProgram Unit := do
  ensure (destCapacity F 1)
  destWritePixel F pixel

/-- The orders that are no background runs. -/
def order (code : UInt8) : RleProgram Unit :=
  if code ∈ [0x01, 0xF1, 0x0C, 0xF6] then fgRun F code
  else if code ∈ [0x0E, 0xF8] then ditheredRun F code
  else if code ∈ [0x03, 0xF3] then colorRun F code
  else if code ∈ [0x02, 0xF2, 0x0D, 0xF7] then fgBgImage F code
  else if code ∈ [0x04, 0xF4] then colorImage F code
  else if code = 0xF9 then special (writeFgBgImage F 0x03 8)
  else if code = 0xFA then special (writeFgBgImage F 0x05 8)
  else if code = 0xFD then special (onePixel F F.t.whitePixel)
  else if code = 0xFE then special (onePixel F 0)
  else giveUp

/-- The end of the first scanline; the distance from its start is cast to 32 bits. -/
def watchFirstLine (s : State) : State :=
  if s.firstLine ∧ s.dest % 2 ^ 32 ≥ F.rowDelta then
    { s with firstLine := false, insertFgPel := false }
  else s

/-- A round of the loop. -/
def round : RleProgram Unit := do
  update (watchFirstLine F)
  let code := RleOrder.extractCodeId (← srcByte 0)
  if code = 0x00 ∨ code = 0xF0 then bgRun F code
  else
    update fun s => { s with insertFgPel := false }
    order F code

/-- `RLEDECOMPRESS`: what it returns, and the destination. -/
def rleDecompress (t : PixelType) (pbSrcBuffer pbDestBuffer : List UInt8)
    (rowDelta width height : UInt32) : Except Fault (Bool × List UInt8) :=
  if rowDelta = 0 ∨ rowDelta < width then .ok (false, pbDestBuffer)
  else
    let F : Frame := ⟨t, rowDelta.toNat, rowDelta.toNat * height.toNat⟩
    match loop .spins (fun s => !s.src.isEmpty) (round F) pbSrcBuffer.length
      { src := pbSrcBuffer, buffer := pbDestBuffer, fgPel := t.whitePixel } with
    | .ok (r, s) => .ok (r.isSome, s.buffer)
    | .error e => .error e

/-! ## What holds in front of every step -/

variable {F} {old : List UInt8} {S : List UInt8 → Prop} {m n : ℕ} {P : State → Prop}

/-- The rows are a part of the destination `old`, and a pixel has three bytes at most. -/
structure Frame.Fits (F : Frame) (old : List UInt8) : Prop where
  size_le : F.t.size ≤ 3
  destEnd_lt : F.destEnd < 2 ^ 64
  destEnd_le : F.destEnd ≤ old.length

/-- What is not a row of the destination stays as it was. -/
structure Kept (F : Frame) (old : List UInt8) (s : State) : Prop where
  length_eq : s.buffer.length = old.length
  behind_eq : s.buffer.drop F.destEnd = old.drop F.destEnd

/-- The decoder is in the rows, with a source for which `S` holds, and past the first line it
has a row behind it. -/
structure Inv (F : Frame) (old : List UInt8) (S : List UInt8 → Prop) (s : State) : Prop where
  kept : Kept F old s
  src : S s.src
  dest_le : s.dest ≤ F.destEnd
  above : s.firstLine = false → F.rowDelta ≤ s.dest

/-- There is room for `n` pixels. -/
def Room (F : Frame) (old : List UInt8) (S : List UInt8 → Prop) (n : ℕ) (s : State) : Prop :=
  Inv F old S s ∧ s.dest + n * F.t.size ≤ F.destEnd

theorem Inv.imp {S' : List UInt8 → Prop} (h : Inv F old S s) (hS : S s.src → S' s.src) :
    Inv F old S' s :=
  ⟨h.kept, hS h.src, h.dest_le, h.above⟩

theorem Inv.setFgPel (h : Inv F old S s) (fgPel : ℕ) : Inv F old S { s with fgPel } :=
  ⟨⟨h.kept.length_eq, h.kept.behind_eq⟩, h.src, h.dest_le, h.above⟩

theorem Inv.setInsert (h : Inv F old S s) (insertFgPel : Bool) :
    Inv F old S { s with insertFgPel } :=
  ⟨⟨h.kept.length_eq, h.kept.behind_eq⟩, h.src, h.dest_le, h.above⟩

theorem Inv.setSrc {S' : List UInt8 → Prop} (h : Inv F old S s) {src : List UInt8}
    (hsrc : S' src) : Inv F old S' { s with src } :=
  ⟨⟨h.kept.length_eq, h.kept.behind_eq⟩, hsrc, h.dest_le, h.above⟩

/-! ## Writing -/

theorem ensureCapacity_eq {start finish size base : ℕ} (hstart : start ≤ finish)
    (hfinish : finish < 2 ^ 64) (hsize : size < 2 ^ 32) (hbase : base ≤ 3) :
    ensureCapacity start finish size base = decide (start + size * base ≤ finish) := by
  have hmul : size * base ≤ size * 3 := mul_le_mul_left _ hbase
  have havailable : (finish + 2 ^ 64 - start) % 2 ^ 64 = finish - start := by omega
  have hneed : size * base % 2 ^ 64 = size * base := mod_eq_of_lt (by omega)
  unfold ensureCapacity
  rw [havailable, hneed, decide_eq_true hstart, Bool.and_true]
  exact decide_eq_decide.2 (by omega)

theorem meets_destCapacity (hF : F.Fits old) (hn : n < 2 ^ 32) :
    Meets (Kept F old) (Inv F old S) (ensure (destCapacity F n) : RleProgram Unit) fun _ =>
      Room F old S n := by
  refine (meets_ensure _ fun s h => h.kept).post fun _ s h => ⟨h.1, ?_⟩
  have hroom := h.2
  unfold destCapacity at hroom
  rw [ensureCapacity_eq h.1.dest_le hF.destEnd_lt hn hF.size_le] at hroom
  exact of_decide_eq_true hroom

/-- **A pixel is written where there is room for it.** -/
theorem meets_destWritePixel (hF : F.Fits old) (pixel : ℕ) :
    Meets (Kept F old) (Room F old S (n + 1)) (destWritePixel F pixel) fun _ => Room F old S n := by
  have hroom : ∀ {s}, Room F old S (n + 1) s → s.dest + F.t.size + n * F.t.size ≤ F.destEnd := by
    intro s h
    have hle := h.2
    rw [succ_mul] at hle
    omega
  refine (meets_check fun s h => ?_).bind fun _ => meets_update fun s h => ?_
  · exact decide_eq_true (by have := hroom h; omega)
  · have hfits := hroom h
    have hlength := h.1.kept.length_eq
    have hend := hF.destEnd_le
    have hover : s.dest + (encode F.t.size pixel).length ≤ s.buffer.length := by
      rw [length_encode]
      omega
    have hfront : (s.buffer.take s.dest ++ encode F.t.size pixel).length =
        s.dest + F.t.size := by
      rw [List.length_append, List.length_take, length_encode]
      omega
    refine ⟨⟨⟨?_, ?_⟩, h.1.src, ?_, fun hfirst => ?_⟩, hfits⟩
    · exact (ByteBuffer.length_overwrite hover).trans hlength
    · -- the pixel ends with the rows at the latest
      have hskip : F.destEnd = s.dest + F.t.size + (F.destEnd - (s.dest + F.t.size)) := by omega
      rw [← h.1.kept.behind_eq]
      unfold ByteBuffer.overwrite
      dsimp only
      rw [length_encode, hskip, ← List.drop_drop, List.drop_left' hfront, List.drop_drop]
    · dsimp only
      omega
    · have habove := h.1.above hfirst
      dsimp only
      omega

/-- The pixel above is there, past the first line. -/
theorem meets_background (hP : ∀ s, P s → Inv F old S s) :
    Meets (Kept F old) P (background F) fun _ => P := by
  refine (meets_read _).bind fun b => meets_ite (fun hb => ?_) fun hb => ?_
  · exact meets_pure fun s h => h.1
  · refine ((meets_check fun s h => ?_).bind fun _ => meets_read _).post fun _ s h => h.1.1
    have hinv := hP s h.1
    have habove := hinv.above (h.2 ▸ Bool.eq_false_of_not_eq_true hb)
    have hle := hinv.dest_le
    exact decide_eq_true ⟨habove, fun _ => by omega⟩

theorem meets_writeRun (hF : F.Fits old) (pixel : ℕ → ℕ) (hn : n < 2 ^ 32) :
    Meets (Kept F old) (Inv F old S) (writeRun F pixel n) fun _ => Inv F old S := by
  refine (meets_destCapacity hF hn).bind fun _ => ?_
  refine (meets_times (I := Room F old S) (fun k => ?_) n).post fun _ s h => h.1
  exact (meets_background fun s h => h.1).bind fun temp => meets_destWritePixel hF _

theorem meets_writeBits (hF : F.Fits old) (bitmask : UInt8) (fgPel : ℕ) (mask : UInt8) (n : ℕ) :
    Meets (Kept F old) (Room F old S n) (writeBits F bitmask fgPel mask n) fun _ =>
      Inv F old S := by
  induction n generalizing mask with
  | zero => exact meets_pure fun s h => h.1
  | succ n ih =>
    exact (meets_background fun s h => h.1).bind fun _ =>
      (meets_destWritePixel hF _).bind fun _ => ih _

theorem meets_writeFgBgImage (hF : F.Fits old) (bitmask : UInt8) (cBits : ℕ) :
    Meets (Kept F old) (Inv F old S) (writeFgBgImage F bitmask cBits) fun _ => Inv F old S := by
  refine (meets_ensure _ fun s h => h.kept).bind fun _ => meets_of_and fun hle => ?_
  have hbits : cBits ≤ 8 := of_decide_eq_true hle
  refine (meets_destCapacity hF (by omega)).bind fun _ => (meets_read _).bind fun fgPel => ?_
  exact (meets_writeBits hF bitmask fgPel 1 cBits).pre fun s h => h.1

/-! ## Reading the source -/

/-- There are `r` bytes at least, and `m` at most. -/
def Within (r m : ℕ) (src : List UInt8) : Prop := r ≤ src.length ∧ src.length ≤ m

variable {r : ℕ}

theorem Within.drop {k : ℕ} {src : List UInt8} (h : Within (r + k) m src) :
    Within r m (src.drop k) := by
  obtain ⟨hle, hm⟩ := h
  constructor
  all_goals
    rw [List.length_drop]
    omega

theorem meets_srcByte {G : State → Prop} {k : ℕ} (hP : ∀ s, P s → k < s.src.length) :
    Meets G P (srcByte k) fun _ => P :=
  (meets_check fun s h => decide_eq_true (hP s h)).bind fun _ =>
    (meets_read _).post fun _ _ h => h.1

theorem meets_advance {G P Q : State → Prop} {k : ℕ} (hP : ∀ s, P s → k ≤ s.src.length)
    (hQ : ∀ s, P s → Q { s with src := s.src.drop k }) : Meets G P (advance k) fun _ => Q :=
  (meets_check fun s h => decide_eq_true (hP s h)).bind fun _ => meets_update hQ

theorem meets_srcReadPixel {G P Q : State → Prop} {size : ℕ}
    (hP : ∀ s, P s → size ≤ s.src.length)
    (hQ : ∀ s, P s → Q { s with src := s.src.drop size }) :
    Meets G P (srcReadPixel size) fun _ => Q := by
  refine (meets_check fun s h => decide_eq_true (hP s h)).bind fun _ => ?_
  refine ((meets_read _).post fun _ _ h => h.1).bind fun pixel => ?_
  exact (meets_advance hP hQ).bind fun _ => meets_pure fun _ h => h

theorem meets_readPixel (size : ℕ) :
    Meets (Kept F old) (Inv F old (Within 0 m)) (readPixel size) fun _ =>
      Inv F old (Within 0 m) := by
  refine (meets_ensure _ fun s h => h.kept).bind fun _ => ?_
  refine meets_srcReadPixel (fun s h => of_decide_eq_true h.2) fun s h => h.1.setSrc ?_
  refine Within.drop ⟨?_, h.1.src.2⟩
  rw [zero_add]
  exact of_decide_eq_true h.2

/-- A length, and the bytes of the header it is read from. -/
def Header (P : State → Prop) (r : ℕ × ℕ) (s : State) : Prop :=
  P s ∧ r.1 < 2 ^ 16 ∧ r.2 ≤ s.src.length

theorem meets_extractShort {G : State → Prop} (mask : UInt8) {least scale : ℕ}
    (hleast : least ≤ 32) (hscale : scale ≤ 8) (hP : ∀ s, P s → 0 < s.src.length) :
    Meets G P (extractShort mask least scale) (Header P) := by
  refine (meets_srcByte hP).bind fun hdr => ?_
  have hbyte := (hdr &&& mask).toNat_lt
  refine meets_ite (fun _ => (meets_read _).bind fun b => ?_) fun _ => ?_
  · refine meets_ite (fun hb => ?_) fun _ => meets_pure fun s h => ?_
    · refine Meets.pre (P := fun s => P s ∧ 2 ≤ s.src.length) ?_
        fun s h => ⟨h.1, of_decide_eq_true (h.2.symm.trans hb)⟩
      refine (meets_srcByte fun s h => h.2).bind fun next => ?_
      have hnext := next.toNat_lt
      exact meets_pure fun s h => ⟨h.1, by dsimp only; omega, h.2⟩
    · exact ⟨h.1, Nat.two_pow_pos 16, Nat.zero_le _⟩
  · have hmul := Nat.mul_le_mul (le_of_lt hbyte) hscale
    exact meets_pure fun s h => ⟨h, by dsimp only; omega, hP s h⟩

theorem meets_extractRunLengthMegaMega {G : State → Prop} :
    Meets G P extractRunLengthMegaMega (Header P) := by
  refine (meets_read _).bind fun b => meets_ite (fun hb => ?_) fun _ => meets_pure fun s h => ?_
  · refine Meets.pre (P := fun s => P s ∧ 3 ≤ s.src.length) ?_
      fun s h => ⟨h.1, of_decide_eq_true (h.2.symm.trans hb)⟩
    refine (meets_srcByte fun s h => lt_of_succ_lt h.2).bind fun lo => ?_
    refine (meets_srcByte fun s h => h.2).bind fun hi => meets_pure fun s h => ⟨h.1, ?_, h.2⟩
    have hhi : hi.toNat <<< 8 < 2 ^ 16 := by
      have hlt := hi.toNat_lt
      rw [shiftLeft_eq]
      omega
    exact or_lt_two_pow (lo.toNat_lt.trans (by decide)) hhi
  · exact ⟨h.1, Nat.two_pow_pos 16, Nat.zero_le _⟩

theorem meets_extractRunLength {G : State → Prop} (code : UInt8)
    (hP : ∀ s, P s → 0 < s.src.length) :
    Meets G P (extractRunLength code) (Header P) := by
  refine meets_ite (fun _ => meets_extractShort _ (by decide) (by decide) hP) fun _ => ?_
  refine meets_ite (fun _ => meets_extractShort _ (by decide) (by decide) hP) fun _ => ?_
  refine meets_ite (fun _ => meets_extractShort _ (by decide) (by decide) hP) fun _ => ?_
  refine meets_ite (fun _ => meets_extractShort _ (by decide) (by decide) hP) fun _ => ?_
  refine meets_ite (fun _ => meets_extractRunLengthMegaMega) fun _ => ?_
  exact meets_pure fun s h => ⟨h, Nat.two_pow_pos 16, Nat.zero_le _⟩

/-- **A header takes a byte at least.** -/
theorem meets_runLengthOf (code : UInt8) :
    Meets (Kept F old) (Inv F old (Within 1 (m + 1))) (runLengthOf code) fun n s =>
      Inv F old (Within 0 m) s ∧ n < 2 ^ 16 := by
  refine (meets_extractRunLength code fun s h => h.src.1).bind fun r => ?_
  refine (meets_ensure _ fun s h => h.1.kept).bind fun _ => ?_
  refine Meets.bind (Q := fun _ s => Inv F old (Within 0 m) s ∧ r.1 < 2 ^ 16) ?_ fun _ =>
    meets_pure fun _ h => h
  refine meets_advance (fun s h => h.1.2.2) fun s h => ⟨h.1.1.setSrc ⟨Nat.zero_le _, ?_⟩, h.1.2.1⟩
  have hne : r.2 ≠ 0 := of_decide_eq_true h.2
  have hsrc := h.1.1.src.2
  have hle := h.1.2.2
  rw [List.length_drop]
  omega

/-! ## Orders -/

/-- What an order has in front of it, and what it leaves. -/
def Draws (F : Frame) (old : List UInt8) (body : RleProgram Unit) : Prop :=
  ∀ m, Meets (Kept F old) (Inv F old (Within 1 (m + 1))) body fun _ =>
    Inv F old (Within 0 m)

variable {code : UInt8}

/-- A run whose length may have wrapped has no room, or room enough. -/
theorem draws_bgRun (hF : F.Fits old) (code : UInt8) : Draws F old (bgRun F code) := by
  intro m
  refine (meets_runLengthOf code).bind fun n => ?_
  refine Meets.bind (Q := fun rest s => Inv F old (Within 0 m) s ∧ rest < 2 ^ 32) ?_ fun rest => ?_
  · refine (meets_read _).bind fun insert => meets_ite (fun _ => ?_) fun _ => ?_
    · refine ((meets_background fun s h => h.1.1).post fun _ s h => h.1.1).bind fun temp => ?_
      refine (meets_destCapacity hF (by decide)).bind fun _ => ?_
      refine ((meets_read _).post fun _ s h => h.1).bind fun fgPel => ?_
      exact (meets_destWritePixel hF _).bind fun _ =>
        meets_pure fun s h => ⟨h.1, Nat.mod_lt _ (Nat.two_pow_pos 32)⟩
    · exact meets_pure fun s h => ⟨h.1.1, h.1.2.trans (by decide)⟩
  · refine meets_of_and fun hrest => (meets_writeRun hF id hrest).bind fun _ => ?_
    exact meets_update fun s h => h.setInsert true

theorem meets_setFg (sets : Bool) :
    Meets (Kept F old) (Inv F old (Within 0 m)) (setFg F sets) fun _ =>
      Inv F old (Within 0 m) := by
  refine meets_ite (fun _ => ?_) fun _ => meets_pure fun _ h => h
  exact (meets_readPixel _).bind fun fgPel => meets_update fun s h => h.setFgPel fgPel

theorem draws_fgRun (hF : F.Fits old) (code : UInt8) : Draws F old (fgRun F code) := by
  intro m
  refine (meets_runLengthOf code).bind fun n => meets_of_and fun hn => ?_
  refine (meets_setFg _).bind fun _ => (meets_read _).bind fun fgPel => ?_
  exact (meets_writeRun hF _ (hn.trans (by decide))).pre fun s h => h.1

theorem draws_ditheredRun (hF : F.Fits old) (code : UInt8) :
    Draws F old (ditheredRun F code) := by
  intro m
  refine (meets_runLengthOf code).bind fun n => meets_of_and fun hn => ?_
  refine (meets_readPixel _).bind fun a => (meets_readPixel _).bind fun b => ?_
  refine (meets_destCapacity hF (Nat.mod_lt _ (Nat.two_pow_pos 32))).bind fun _ => ?_
  rw [mod_eq_of_lt (by omega)]
  refine (meets_times (I := fun k => Room F old (Within 0 m) (k * 2)) (fun k => ?_) n).post
    fun _ s h => h.1
  rw [succ_mul]
  exact (meets_destWritePixel hF a).bind fun _ => meets_destWritePixel hF b

theorem draws_colorRun (hF : F.Fits old) (code : UInt8) : Draws F old (colorRun F code) := by
  intro m
  refine (meets_runLengthOf code).bind fun n => meets_of_and fun hn => ?_
  refine (meets_readPixel _).bind fun a => ?_
  refine (meets_destCapacity hF (hn.trans (by decide))).bind fun _ => ?_
  exact (meets_times (I := Room F old (Within 0 m)) (fun k => meets_destWritePixel hF a) n).post
    fun _ s h => h.1

/-- There is a mask for all eight pixels but the last, which is looked for again. -/
theorem meets_writeMasks (hF : F.Fits old) (fuel : ℕ) {n : ℕ} (hfuel : (n - 1) / 8 ≤ fuel) :
    Meets (Kept F old) (Inv F old (Within ((n - 1) / 8) m)) (writeMasks F fuel n) fun _ =>
      Inv F old (Within 0 m) := by
  have hlast : ∀ n, Meets (Kept F old) (Inv F old (Within 0 m)) (if n > 0 then do
      ensure (withinRange 1)
      let bitmask ← srcByte 0
      advance 1
      writeFgBgImage F bitmask n
    else pure () : RleProgram Unit) fun _ => Inv F old (Within 0 m) := by
    intro n
    refine meets_ite (fun _ => ?_) fun _ => meets_pure fun _ h => h
    refine (meets_ensure _ fun s h => h.kept).bind fun _ => ?_
    refine (meets_srcByte fun s h => of_decide_eq_true h.2).bind fun bitmask => ?_
    refine Meets.bind ?_ fun _ => meets_writeFgBgImage hF bitmask n
    refine meets_advance (fun s h => of_decide_eq_true h.2) fun s h => h.1.setSrc ?_
    exact Within.drop ⟨of_decide_eq_true h.2, h.1.src.2⟩
  induction fuel generalizing n with
  | zero =>
    unfold writeMasks
    rw [if_neg (by omega)]
    exact (hlast n).pre fun s h => h.imp fun hsrc => ⟨Nat.zero_le _, hsrc.2⟩
  | succ fuel ih =>
    unfold writeMasks
    refine meets_ite (fun hmore => ?_) fun _ =>
      (hlast n).pre fun s h => h.imp fun hsrc => ⟨Nat.zero_le _, hsrc.2⟩
    have hmasks : (n - 1) / 8 = (n - 8 - 1) / 8 + 1 := by omega
    rw [hmasks]
    refine (meets_srcByte fun s h => lt_of_succ_le (le_of_add_left_le h.src.1)).bind
      fun bitmask => ?_
    refine Meets.bind ?_ fun _ =>
      (meets_writeFgBgImage hF bitmask 8).bind fun _ => ih (by omega)
    exact meets_advance (fun s h => le_of_add_left_le h.src.1) fun s h =>
      h.setSrc h.src.drop

theorem draws_fgBgImage (hF : F.Fits old) (code : UInt8) : Draws F old (fgBgImage F code) := by
  intro m
  refine (meets_runLengthOf code).bind fun n => meets_of_and fun hn => ?_
  refine (meets_setFg _).bind fun _ => (meets_ensure _ fun s h => h.kept).bind fun _ => ?_
  have hmasks : (n - 1) / 8 ≤ n / 8 := Nat.div_le_div_right (Nat.sub_le n 1)
  refine (meets_writeMasks hF (n / 8) hmasks).pre fun s h => h.1.imp fun hsrc => ⟨?_, hsrc.2⟩
  exact hmasks.trans (of_decide_eq_true h.2)

theorem draws_colorImage (hF : F.Fits old) (code : UInt8) :
    Draws F old (colorImage F code) := by
  intro m
  refine (meets_runLengthOf code).bind fun n => meets_of_and fun hn => ?_
  refine (meets_destCapacity hF (hn.trans (by decide))).bind fun _ => ?_
  refine (meets_ensure _ fun s h => h.1.kept).bind fun _ => ?_
  refine Meets.pre (P := Room F old (Within (n * F.t.size) m) n) ?_ fun s h => ?_
  · refine (meets_times (I := fun k => Room F old (Within (k * F.t.size) m) k)
      (fun k => ?_) n).post fun _ s h => h.1.imp fun hsrc => ⟨Nat.zero_le _, hsrc.2⟩
    refine Meets.bind ?_ fun temp => meets_destWritePixel hF temp
    rw [succ_mul]
    exact meets_srcReadPixel (fun s h => le_of_add_left_le h.1.src.1) fun s h =>
      ⟨h.1.setSrc h.1.src.drop, h.2⟩
  · -- the bytes of the source are counted like those of the destination
    have hmul : n * F.t.size ≤ n * 3 := mul_le_mul_left _ hF.size_le
    have havailable := (Bool.and_eq_true_iff.1 h.2).1
    rw [mod_eq_of_lt (by omega : n * F.t.size < 2 ^ 64)] at havailable
    have hbytes := of_decide_eq_true havailable
    exact ⟨h.1.1.imp fun hsrc => ⟨by omega, hsrc.2⟩, h.1.2⟩

theorem draws_special {body : RleProgram Unit}
    (hbody : ∀ m, Meets (Kept F old) (Inv F old (Within 0 m)) body fun _ =>
      Inv F old (Within 0 m)) : Draws F old (special body) := by
  intro m
  refine (meets_ensure _ fun s h => h.kept).bind fun _ => ?_
  refine Meets.bind ?_ fun _ => hbody m
  refine meets_advance (fun s h => h.1.src.1) fun s h => h.1.setSrc ⟨Nat.zero_le _, ?_⟩
  rw [List.length_drop]
  exact sub_le_of_le_add h.1.src.2

theorem meets_onePixel (hF : F.Fits old) (pixel : ℕ) :
    Meets (Kept F old) (Inv F old S) (onePixel F pixel) fun _ => Inv F old S :=
  (meets_destCapacity hF (by decide)).bind fun _ =>
    (meets_destWritePixel hF pixel).post fun _ _ h => h.1

theorem draws_order (hF : F.Fits old) (code : UInt8) : Draws F old (order F code) := by
  intro m
  refine meets_ite (fun _ => draws_fgRun hF code m) fun _ => ?_
  refine meets_ite (fun _ => draws_ditheredRun hF code m) fun _ => ?_
  refine meets_ite (fun _ => draws_colorRun hF code m) fun _ => ?_
  refine meets_ite (fun _ => draws_fgBgImage hF code m) fun _ => ?_
  refine meets_ite (fun _ => draws_colorImage hF code m) fun _ => ?_
  refine meets_ite (fun _ => draws_special (fun _ => meets_writeFgBgImage hF _ _) m) fun _ => ?_
  refine meets_ite (fun _ => draws_special (fun _ => meets_writeFgBgImage hF _ _) m) fun _ => ?_
  refine meets_ite (fun _ => draws_special (fun _ => meets_onePixel hF _) m) fun _ => ?_
  refine meets_ite (fun _ => draws_special (fun _ => meets_onePixel hF _) m) fun _ => ?_
  exact meets_giveUp fun s h => h.kept

/-! ## The run -/

/-- The flag of the first line falls where there is a row above; the distance that is compared
may have lost bits, but it has not gained any. -/
theorem Inv.watchFirstLine (h : Inv F old S s) : Inv F old S (watchFirstLine F s) := by
  unfold InterleavedSafety.watchFirstLine
  split
  next hpast =>
    refine ⟨⟨h.kept.length_eq, h.kept.behind_eq⟩, h.src, h.dest_le, fun _ => ?_⟩
    exact hpast.2.trans (mod_le _ _)
  next => exact h

/-- **Step lemma.**  A round takes a byte of the source at least, and keeps to the rows. -/
theorem draws_round (hF : F.Fits old) : Draws F old (round F) := by
  intro m
  refine Meets.bind (Q := fun _ => Inv F old (Within 1 (m + 1)))
    (meets_update fun s h => h.watchFirstLine) fun _ => ?_
  refine (meets_srcByte fun s h => h.src.1).bind fun hdr => ?_
  refine meets_ite (fun _ => draws_bgRun hF _ m) fun _ => ?_
  exact Meets.bind (Q := fun _ => Inv F old (Within 1 (m + 1)))
    (meets_update fun s h => h.setInsert false) fun _ => draws_order hF _ m

/-- **Run lemma.** -/
theorem meets_rounds (hF : F.Fits old) (fuel : ℕ) :
    Meets (Kept F old) (Inv F old (Within 0 fuel))
      (loop .spins (fun s => !s.src.isEmpty) (round F) fuel) fun _ =>
        Inv F old (Within 0 fuel) := by
  refine meets_loop (I := fun k => Inv F old (Within 0 k)) (fun s h => ?_) (fun m => ?_)
    (fun m s h => ?_) fuel
  · rw [List.length_eq_zero_iff.1 (le_zero.1 h.src.2)]
    rfl
  · refine (draws_round hF m).pre fun s h => h.1.imp fun hsrc => ⟨?_, hsrc.2⟩
    refine List.length_pos_iff.2 fun hnil => ?_
    have hagain := h.2
    rw [hnil] at hagain
    exact absurd hagain Bool.false_ne_true
  · exact h.imp fun hsrc => ⟨hsrc.1, hsrc.2.trans (le_succ m)⟩

/-- **The decoder is safe on every source**: no access fails and the loop ends; what lies behind
the rows of the destination is not touched. -/
theorem rleDecompress_safe (t : PixelType) (ht : t.size ≤ 3) (pbSrcBuffer pbDestBuffer : List UInt8)
    (rowDelta width height : UInt32)
    (hdest : rowDelta.toNat * height.toNat ≤ pbDestBuffer.length) :
    ∃ r out, rleDecompress t pbSrcBuffer pbDestBuffer rowDelta width height = .ok (r, out) ∧
      out.length = pbDestBuffer.length ∧
      out.drop (rowDelta.toNat * height.toNat) =
        pbDestBuffer.drop (rowDelta.toNat * height.toNat) := by
  unfold rleDecompress
  split
  next => exact ⟨false, pbDestBuffer, rfl, rfl, rfl⟩
  next =>
    have hend : rowDelta.toNat * height.toNat < 2 ^ 64 := by
      have hrow := rowDelta.toNat_lt
      have hheight := height.toNat_lt
      calc rowDelta.toNat * height.toNat
          ≤ (2 ^ 32 - 1) * (2 ^ 32 - 1) := Nat.mul_le_mul (by omega) (by omega)
        _ < 2 ^ 64 := by decide
    have hF : (⟨t, rowDelta.toNat, rowDelta.toNat * height.toNat⟩ : Frame).Fits pbDestBuffer :=
      ⟨ht, hend, hdest⟩
    have hrun := meets_rounds hF pbSrcBuffer.length
      { src := pbSrcBuffer, buffer := pbDestBuffer, fgPel := t.whitePixel }
      ⟨⟨rfl, rfl⟩, ⟨Nat.zero_le _, le_refl _⟩, Nat.zero_le _, fun hfirst => nomatch hfirst⟩
    revert hrun
    dsimp only
    generalize loop _ _ _ _ _ = result
    cases result with
    | error e => exact False.elim
    | ok p =>
      obtain ⟨r, s⟩ := p
      intro hrun
      have hkept : Kept ⟨t, rowDelta.toNat, rowDelta.toNat * height.toNat⟩ pbDestBuffer s := by
        cases r with
        | none => exact hrun
        | some _ => exact hrun.kept
      exact ⟨r.isSome, s.buffer, rfl, hkept.length_eq, hkept.behind_eq⟩

/-- Two runs of no pixels: the length of the second wraps. -/
theorem rleDecompress_safe_emptyRuns : PixelType.pixel8.size ≤ 3 ∧
    ∃ r out, rleDecompress .pixel8 [0xF0, 0, 0, 0xF0, 0, 0] [1, 2, 3, 4, 5] 2 2 2 = .ok (r, out) ∧
      out.length = 5 ∧ out.drop 4 = [5] :=
  ⟨by decide, rleDecompress_safe .pixel8 (by decide) _ [1, 2, 3, 4, 5] 2 2 2 (by decide)⟩

/-- A colour run over the first line and a foreground run below it. -/
example : rleDecompress .pixel8 [0x62, 7, 0x22] [0, 0, 0, 0, 9] 2 2 2 =
    .ok (true, [7, 7, 0xF8, 0xF8, 9]) := by decide

end InterleavedSafety
