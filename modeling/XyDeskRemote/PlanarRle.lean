/-
# The rows of a plane, run-length coded

The encoder of `planar.c`: a row of a plane is taken apart into raw bytes and runs of the byte
before them (`encodeRleBytes`), these are written in segments of a control byte and raw values
(`writeRleBytes`), and the rows of a plane are written one behind the other into the room that
there is (`compressPlaneRle`).
-/
import XyDeskRemote.ByteBuffer

open List Option Nat

namespace Planar

/-! ## Segments -/

/-- `PLANAR_CONTROL_BYTE`. -/
def controlByte (nRunLength cRawBytes : ℕ) : UInt8 :=
  UInt8.ofNat (nRunLength % 16 + 16 * (cRawBytes % 16))

/-- `PLANAR_CONTROL_BYTE_RUN_LENGTH`. -/
def controlRunLength (control : UInt8) : ℕ := control.toNat % 16

/-- `PLANAR_CONTROL_BYTE_RAW_BYTES`. -/
def controlRawBytes (control : UInt8) : ℕ := control.toNat / 16 % 16

theorem toNat_controlByte (nRunLength cRawBytes : ℕ) :
    (controlByte nRunLength cRawBytes).toNat = nRunLength % 16 + 16 * (cRawBytes % 16) := by
  rw [controlByte, UInt8.toNat_ofNat']
  omega

@[simp] theorem controlRunLength_controlByte (nRunLength cRawBytes : ℕ) :
    controlRunLength (controlByte nRunLength cRawBytes) = nRunLength % 16 := by
  rw [controlRunLength, toNat_controlByte]
  omega

@[simp] theorem controlRawBytes_controlByte (nRunLength cRawBytes : ℕ) :
    controlRawBytes (controlByte nRunLength cRawBytes) = cRawBytes % 16 := by
  rw [controlRawBytes, toNat_controlByte]
  omega

/-- `RDP6_RLE_SEGMENT`: raw values, and how often the last value so far is repeated.  A run of
one or two values can not be said, as these numbers stand for the long runs, which have no raw
values; and there is no empty segment. -/
structure RleSegment where
  rawValues : List UInt8
  runLength : ℕ
  codable : (rawValues.length ≤ 15 ∧ runLength ≤ 15 ∧ runLength ≠ 1 ∧ runLength ≠ 2) ∨
    (rawValues = [] ∧ 16 ≤ runLength ∧ runLength ≤ 47)
  some_value : 0 < rawValues.length + runLength

namespace RleSegment

/-- The control byte of a segment. -/
def control (s : RleSegment) : UInt8 :=
  if s.runLength ≤ 15 then controlByte s.runLength s.rawValues.length
  else if s.runLength ≤ 31 then controlByte 1 (s.runLength - 16)
  else controlByte 2 (s.runLength - 32)

/-- The values a segment stands for, behind the value `last`. -/
def values (last : UInt8) (s : RleSegment) : List UInt8 :=
  s.rawValues ++ replicate s.runLength (s.rawValues.getLastD last)

end RleSegment

/-- The bytes of segments. -/
def code (segments : List RleSegment) : List UInt8 :=
  segments.flatMap fun s => s.control :: s.rawValues

/-- The values of segments, behind the value `last`. -/
def expand (last : UInt8) : List RleSegment → List UInt8
  | [] => []
  | s :: segments => s.values last ++ expand (s.rawValues.getLastD last) segments

theorem code_cons (s : RleSegment) (segments : List RleSegment) :
    code (s :: segments) = s.control :: (s.rawValues ++ code segments) := rfl

theorem code_append (segments others : List RleSegment) :
    code (segments ++ others) = code segments ++ code others := flatMap_append

theorem getLastD_append (last : UInt8) (xs ys : List UInt8) :
    (xs ++ ys).getLastD last = ys.getLastD (xs.getLastD last) := by
  rw [getLastD_eq_getLast?, getLast?_append, getLastD_eq_getLast?, getLastD_eq_getLast?]
  cases ys.getLast? <;> rfl

theorem getLastD_replicate (last : UInt8) (n : ℕ) :
    (replicate n last).getLastD last = last := by
  cases n with
  | zero => rfl
  | succ n => rw [getLastD_eq_getLast?, getLast?_replicate, if_neg (by omega)]; rfl

theorem RleSegment.getLastD_values (last : UInt8) (s : RleSegment) :
    (s.values last).getLastD last = s.rawValues.getLastD last := by
  rw [values, getLastD_append, getLastD_replicate]

theorem expand_append (last : UInt8) (segments others : List RleSegment) :
    expand last (segments ++ others) =
      expand last segments ++ expand ((expand last segments).getLastD last) others := by
  induction segments generalizing last with
  | nil => rfl
  | cons s segments ih =>
    rw [cons_append, expand, ih, expand, append_assoc, getLastD_append, RleSegment.getLastD_values]

/-! ## Writing raw bytes and a run -/

/-- The control byte that the loop over the raw bytes writes, and what is left of the run and of
the raw bytes. -/
def rawControl (cRawBytes nRunLength : ℕ) : UInt8 × ℕ × ℕ :=
  if cRawBytes < 16 then
    if nRunLength > 15 then
      if nRunLength < 18 then (controlByte 13 cRawBytes, nRunLength - 13, 0)
      else (controlByte 15 cRawBytes, nRunLength - 15, 0)
    else (controlByte nRunLength cRawBytes, 0, 0)
  else (controlByte 0 15, nRunLength, cRawBytes - 15)

/-- The loop over the raw bytes: the bytes written, what is left of the run and of the room. -/
def writeRawBytes (pInput : List UInt8) (cRawBytes nRunLength outBufferSize : ℕ) :
    Option (List UInt8 × ℕ × ℕ) :=
  if _h : cRawBytes = 0 then some ([], nRunLength, outBufferSize)
  else
    let control := rawControl cRawBytes nRunLength
    let nBytesToWrite := control.1.toNat / 16
    if outBufferSize < 1 then none
    else if outBufferSize - 1 < nBytesToWrite then none
    else
      (writeRawBytes (pInput.drop nBytesToWrite) control.2.2 control.2.1
          (outBufferSize - 1 - nBytesToWrite)).map fun written =>
        (control.1 :: (pInput.take nBytesToWrite ++ written.1), written.2)
termination_by cRawBytes
decreasing_by
  rw [rawControl]
  split
  · split
    · split
      · exact pos_of_ne_zero ‹_›
      · exact pos_of_ne_zero ‹_›
    · exact pos_of_ne_zero ‹_›
  · exact sub_lt (pos_of_ne_zero ‹_›) (by decide)

/-- The control byte that the loop over the run writes, and what is left of the run. -/
def runControl (nRunLength : ℕ) : UInt8 × ℕ :=
  if nRunLength > 47 then
    if nRunLength < 50 then (controlByte 2 13, nRunLength - 45)
    else (controlByte 2 15, nRunLength - 47)
  else if nRunLength > 31 then (controlByte 2 (nRunLength - 32), 0)
  else if nRunLength > 15 then (controlByte 1 (nRunLength - 16), 0)
  else (controlByte nRunLength 0, 0)

/-- The loop over the run. -/
def writeRun (nRunLength outBufferSize : ℕ) : Option (List UInt8) :=
  if h : nRunLength = 0 then some []
  else if outBufferSize < 1 then none
  else (writeRun (runControl nRunLength).2 (outBufferSize - 1)).map ((runControl nRunLength).1 :: ·)
termination_by nRunLength
decreasing_by
  rw [runControl]
  split
  · split
    · exact sub_lt (pos_of_ne_zero h) (by decide)
    · exact sub_lt (pos_of_ne_zero h) (by decide)
  · split
    · exact pos_of_ne_zero h
    · split
      · exact pos_of_ne_zero h
      · exact pos_of_ne_zero h

/-- `freerdp_bitmap_planar_write_rle_bytes`: the bytes written, `none` for its answer 0. -/
def writeRleBytes (pInBuffer : List UInt8) (cRawBytes nRunLength outBufferSize : ℕ) :
    Option (List UInt8) :=
  if cRawBytes = 0 ∧ nRunLength = 0 then none
  else
    let counts := if nRunLength < 3 then (cRawBytes + nRunLength, 0) else (cRawBytes, nRunLength)
    (writeRawBytes pInBuffer counts.1 counts.2 outBufferSize).bind fun raw =>
      (writeRun raw.2.1 raw.2.2).map (raw.1 ++ ·)

/-- How many bytes raw bytes and a run take. -/
def pieceSize (cRawBytes nRunLength : ℕ) : ℕ :=
  if nRunLength < 3 then cRawBytes + nRunLength + (cRawBytes + nRunLength + 14) / 15
  else
    cRawBytes + (cRawBytes + 14) / 15 +
      ((if cRawBytes = 0 then nRunLength else nRunLength - 15) + 46) / 47

/-- A run that can stand in a control byte, or is none. -/
def IsRun (nRunLength : ℕ) : Prop := nRunLength = 0 ∨ 3 ≤ nRunLength

theorem exists_runControl {nRunLength : ℕ} (h : 3 ≤ nRunLength) :
    ∃ s : RleSegment, s.rawValues = [] ∧ 0 < s.runLength ∧ s.runLength ≤ nRunLength ∧
      runControl nRunLength = (s.control, nRunLength - s.runLength) ∧
      IsRun (nRunLength - s.runLength) ∧
      (nRunLength - s.runLength + 46) / 47 + 1 = (nRunLength + 46) / 47 := by
  unfold runControl IsRun
  split
  · split
    · exact ⟨⟨[], 45, by decide, by decide⟩, rfl, by decide, by dsimp only; omega, rfl,
        by dsimp only; omega, by dsimp only; omega⟩
    · exact ⟨⟨[], 47, by decide, by decide⟩, rfl, by decide, by dsimp only; omega, rfl,
        by dsimp only; omega, by dsimp only; omega⟩
  next hle =>
    -- the last control byte has all that is left of the run
    suffices hlast : ∃ s : RleSegment, s.rawValues = [] ∧ s.runLength = nRunLength ∧
        (if nRunLength > 31 then (controlByte 2 (nRunLength - 32), 0)
          else if nRunLength > 15 then (controlByte 1 (nRunLength - 16), 0)
          else (controlByte nRunLength 0, 0)) = (s.control, 0) by
      obtain ⟨s, hraw, hrun, hcontrol⟩ := hlast
      have hrest : nRunLength - s.runLength = 0 := by omega
      refine ⟨s, hraw, by omega, by omega, ?_, ?_, ?_⟩
      · rw [hcontrol, hrest]
      · exact Or.inl hrest
      · omega
    split
    next hlong =>
      refine ⟨⟨[], nRunLength, Or.inr ⟨rfl, by omega, by omega⟩,
        by rw [length_nil]; omega⟩, rfl, rfl, ?_⟩
      rw [RleSegment.control, if_neg (by dsimp only; omega), if_neg (by dsimp only; omega)]
    next hlong =>
      split
      next hmedium =>
        refine ⟨⟨[], nRunLength, Or.inr ⟨rfl, by omega, by omega⟩,
        by rw [length_nil]; omega⟩, rfl, rfl, ?_⟩
        rw [RleSegment.control, if_neg (by dsimp only; omega), if_pos (by dsimp only; omega)]
      next hmedium =>
        refine ⟨⟨[], nRunLength, Or.inl ⟨zero_le _, by omega, by omega, by omega⟩,
          by rw [length_nil]; omega⟩, rfl, rfl, ?_⟩
        rw [RleSegment.control, if_pos (by dsimp only; omega)]
        rfl

/-- **The run** is written in segments of up to 47 values, if they fit. -/
theorem writeRun_eq (last : UInt8) {nRunLength : ℕ} (hrun : IsRun nRunLength) :
    ∃ segments, expand last segments = replicate nRunLength last ∧
      (code segments).length = (nRunLength + 46) / 47 ∧
      ∀ outBufferSize, writeRun nRunLength outBufferSize =
        if (code segments).length ≤ outBufferSize then some (code segments) else none := by
  induction nRunLength using Nat.strong_induction_on with
  | _ nRunLength ih =>
    rcases hrun with rfl | hthree
    · refine ⟨[], rfl, rfl, fun outBufferSize => ?_⟩
      rw [writeRun, dif_pos rfl]
      exact (if_pos (zero_le _)).symm
    obtain ⟨s, hraw, hpos, hle, hcontrol, hrest, hcount⟩ := exists_runControl hthree
    obtain ⟨segments, hexpand, hlength, hwrite⟩ := ih _ (sub_lt (by omega) hpos) hrest
    have hcode : code (s :: segments) = s.control :: code segments := by
      rw [code_cons, hraw, nil_append]
    refine ⟨s :: segments, ?_, ?_, fun outBufferSize => ?_⟩
    · rw [expand, RleSegment.values, hraw]
      show replicate s.runLength last ++ expand last segments = _
      rw [hexpand, replicate_append_replicate, Nat.add_sub_cancel' hle]
    · rw [hcode, length_cons, hlength, hcount]
    · rw [writeRun, dif_neg (by omega), hcontrol, hwrite, hcode, length_cons]
      by_cases hroom : (code segments).length + 1 ≤ outBufferSize
      · rw [if_neg (by omega), if_pos (by omega), if_pos hroom]
        rfl
      · rw [if_neg hroom]
        split
        · rfl
        · rw [if_neg (by omega)]
          rfl

/-- The control byte of a segment with raw values has their number in its upper half. -/
theorem RleSegment.control_of_rawValues {s : RleSegment} (h : s.rawValues ≠ []) :
    s.control = controlByte s.runLength s.rawValues.length ∧
      s.control.toNat / 16 = s.rawValues.length := by
  obtain ⟨hraw, hrun, -, -⟩ | ⟨hnil, -, -⟩ := s.codable
  · have hcontrol : s.control = controlByte s.runLength s.rawValues.length := if_pos hrun
    refine ⟨hcontrol, ?_⟩
    rw [hcontrol, toNat_controlByte]
    omega
  · exact absurd hnil h

/-- The loop over the raw bytes writes the control byte of a segment with the next raw values,
and behind the last of them a part of the run. -/
theorem exists_rawControl {raw : List UInt8} (hraw : raw ≠ []) {nRunLength : ℕ}
    (hrun : IsRun nRunLength) :
    ∃ (s : RleSegment) (rest : List UInt8), raw = s.rawValues ++ rest ∧ s.rawValues ≠ [] ∧
      s.runLength ≤ nRunLength ∧ (rest ≠ [] → s.runLength = 0) ∧
      rawControl raw.length nRunLength =
        (s.control, nRunLength - s.runLength, rest.length) ∧
      IsRun (nRunLength - s.runLength) ∧
      (raw.length + 14) / 15 = (rest.length + 14) / 15 + 1 ∧
      (rest = [] → (nRunLength - s.runLength + 46) / 47 = (nRunLength - 15 + 46) / 47) := by
  unfold rawControl IsRun at *
  have hpos := length_pos_of_ne_nil hraw
  split
  next hshort =>
    -- all raw values, with a part of the run that does not leave one or two values of it
    suffices hpart : ∃ r, (r ≤ 15 ∧ r ≠ 1 ∧ r ≠ 2) ∧ r ≤ nRunLength ∧
        (if nRunLength > 15 then
          if nRunLength < 18 then (controlByte 13 raw.length, nRunLength - 13, 0)
          else (controlByte 15 raw.length, nRunLength - 15, 0)
        else (controlByte nRunLength raw.length, 0, 0)) =
          (controlByte r raw.length, nRunLength - r, 0) ∧
        (nRunLength - r = 0 ∨ 3 ≤ nRunLength - r) ∧
        (nRunLength - r + 46) / 47 = (nRunLength - 15 + 46) / 47 by
      obtain ⟨r, ⟨hr, hone, htwo⟩, hle, hcontrol, hrest, hcount⟩ := hpart
      let s : RleSegment := ⟨raw, r, Or.inl ⟨by omega, hr, hone, htwo⟩, by omega⟩
      have hs : s.control = controlByte r raw.length :=
        (RleSegment.control_of_rawValues (s := s) hraw).1
      refine ⟨s, [], (append_nil raw).symm, hraw, hle, fun h => absurd rfl h, ?_, hrest, ?_,
        fun _ => hcount⟩
      · rw [hcontrol, hs]
        rfl
      · rw [length_nil]
        omega
    split
    · split
      · exact ⟨13, by decide, by omega, rfl, by omega, by omega⟩
      · exact ⟨15, by decide, by omega, rfl, by omega, by omega⟩
    · refine ⟨nRunLength, by omega, le_refl _, ?_, by omega, by omega⟩
      rw [Nat.sub_self]
  next hlong =>
    have htake : (raw.take 15).length = 15 := by
      rw [length_take]
      omega
    have hne : raw.take 15 ≠ [] := by
      intro hnil
      rw [hnil] at htake
      cases htake
    let s : RleSegment :=
      ⟨raw.take 15, 0, Or.inl ⟨by omega, by decide, by decide, by decide⟩, by omega⟩
    have hs : s.control = controlByte 0 15 := by
      rw [(RleSegment.control_of_rawValues (s := s) hne).1, htake]
    refine ⟨s, raw.drop 15, (take_append_drop 15 raw).symm, hne, zero_le _, fun _ => rfl,
      ?_, hrun, ?_, ?_⟩
    · rw [hs, length_drop]
      rfl
    · rw [length_drop]
      omega
    · intro hnil
      have hlength := congrArg List.length hnil
      rw [length_drop, length_nil] at hlength
      omega

/-- **Raw bytes** are written in segments of up to 15 values, with a part of the run behind the
last of them, if they fit. -/
theorem writeRawBytes_eq (last : UInt8) (raw : List UInt8) {nRunLength : ℕ}
    (hrun : IsRun nRunLength) :
    ∃ segments rest, IsRun rest ∧
      expand last segments ++ replicate rest (raw.getLastD last) =
        raw ++ replicate nRunLength (raw.getLastD last) ∧
      (expand last segments).getLastD last = raw.getLastD last ∧
      (code segments).length = raw.length + (raw.length + 14) / 15 ∧
      (rest + 46) / 47 = ((if raw.length = 0 then nRunLength else nRunLength - 15) + 46) / 47 ∧
      ∀ behind outBufferSize, writeRawBytes (raw ++ behind) raw.length nRunLength outBufferSize =
        if (code segments).length ≤ outBufferSize then
          some (code segments, rest, outBufferSize - (code segments).length)
        else none := by
  induction hlength : raw.length using Nat.strong_induction_on generalizing raw nRunLength last with
  | _ n ih =>
    subst hlength
    by_cases hraw : raw = []
    · subst hraw
      refine ⟨[], nRunLength, hrun, rfl, rfl, rfl, rfl, fun behind outBufferSize => ?_⟩
      rw [writeRawBytes]
      exact (if_pos (zero_le _)).symm
    obtain ⟨s, rest, rfl, hne, hle, hlast, hcontrol, hrest, hcount, hruns⟩ :=
      exists_rawControl hraw hrun
    have hpos := length_pos_of_ne_nil hne
    have hsplit : (s.rawValues ++ rest).length = s.rawValues.length + rest.length :=
      length_append
    obtain ⟨segments, left, hleft, hexpand, hend, hsize, hparts, hwrite⟩ :=
      ih rest.length (by omega) (s.rawValues.getLastD last) rest hrest rfl
    rw [getLastD_append]
    refine ⟨s :: segments, left, hleft, ?_, ?_, ?_, ?_, fun behind outBufferSize => ?_⟩
    · rw [expand, RleSegment.values, append_assoc, hexpand, append_assoc,
        append_assoc]
      congr 1
      by_cases hnil : rest = []
      · rw [hnil, nil_append, nil_append, getLastD_nil,
          replicate_append_replicate, Nat.add_sub_cancel' hle]
      · rw [hlast hnil, replicate_zero, nil_append, Nat.sub_zero]
    · rw [expand, getLastD_append, RleSegment.getLastD_values, hend]
    · rw [code_cons, length_cons, length_append, hsize, hcount, hsplit]
      omega
    · have hsome : ¬ (s.rawValues ++ rest).length = 0 := by omega
      rw [hparts, if_neg hsome]
      by_cases hnil : rest = []
      · rw [if_pos (by rw [hnil]; rfl), hruns hnil]
      · rw [if_neg (length_pos_of_ne_nil hnil).ne', hlast hnil, Nat.sub_zero]
    · rw [writeRawBytes, dif_neg (by omega), hcontrol]
      dsimp only
      rw [(RleSegment.control_of_rawValues hne).2, append_assoc, drop_left,
        take_left, hwrite, code_cons, length_cons, length_append]
      by_cases hroom : s.rawValues.length + (code segments).length + 1 ≤ outBufferSize
      · have hleft : outBufferSize - 1 - s.rawValues.length - (code segments).length =
            outBufferSize - (s.rawValues.length + (code segments).length + 1) := by omega
        rw [if_neg (by omega), if_neg (by omega), if_pos (by omega), if_pos hroom, map_some, hleft]
      · rw [if_neg hroom]
        split
        · rfl
        · split
          · rfl
          · rw [if_neg (by omega)]
            rfl

/-- Raw bytes and a run that can stand in a control byte. -/
theorem writeRawBytes_writeRun (last : UInt8) (raw : List UInt8) {nRunLength : ℕ}
    (hrun : IsRun nRunLength) :
    ∃ segments,
      expand last segments = raw ++ replicate nRunLength (raw.getLastD last) ∧
      (code segments).length = raw.length + (raw.length + 14) / 15 +
        ((if raw.length = 0 then nRunLength else nRunLength - 15) + 46) / 47 ∧
      ∀ behind outBufferSize,
        ((writeRawBytes (raw ++ behind) raw.length nRunLength outBufferSize).bind fun written =>
            (writeRun written.2.1 written.2.2).map (written.1 ++ ·)) =
          if (code segments).length ≤ outBufferSize then some (code segments) else none := by
  obtain ⟨segments, rest, hrest, hexpand, hend, hsize, hparts, hwrite⟩ :=
    writeRawBytes_eq last raw hrun
  obtain ⟨runs, hrexpand, hrsize, hrwrite⟩ := writeRun_eq (raw.getLastD last) hrest
  refine ⟨segments ++ runs, ?_, ?_, fun behind outBufferSize => ?_⟩
  · rw [expand_append, hend, hrexpand, hexpand]
  · rw [code_append, length_append, hsize, hrsize, hparts]
  · rw [hwrite, code_append, length_append]
    by_cases hroom : (code segments).length + (code runs).length ≤ outBufferSize
    · rw [if_pos (by omega), if_pos hroom, bind_some, hrwrite,
        if_pos (by dsimp only; omega)]
      rfl
    · rw [if_neg hroom]
      split
      · rw [bind_some, hrwrite, if_neg (by dsimp only; omega)]
        rfl
      · rfl

/-- What `writeRleBytes` gets: raw values, and a run of the last of them. -/
def IsPiece (last : UInt8) (piece : List UInt8) (cRawBytes nRunLength : ℕ) : Prop :=
  ∃ raw : List UInt8, raw.length = cRawBytes ∧
    piece = raw ++ replicate nRunLength (raw.getLastD last)

/-- **A piece of a row** is written in `pieceSize` bytes, if they fit. -/
theorem writeRleBytes_eq {last : UInt8} {piece : List UInt8} {cRawBytes nRunLength : ℕ}
    (h : IsPiece last piece cRawBytes nRunLength) (hne : piece ≠ []) :
    ∃ segments, expand last segments = piece ∧
      (code segments).length = pieceSize cRawBytes nRunLength ∧
      ∀ behind outBufferSize,
        writeRleBytes (piece ++ behind) cRawBytes nRunLength outBufferSize =
          if (code segments).length ≤ outBufferSize then some (code segments) else none := by
  obtain ⟨raw, rfl, hpiece⟩ := h
  have hlength : piece.length = raw.length + nRunLength := by
    rw [hpiece, length_append, length_replicate]
  have hpos := length_pos_of_ne_nil hne
  have hwrite (behind : List UInt8) (outBufferSize : ℕ) :
      writeRleBytes (piece ++ behind) raw.length nRunLength outBufferSize =
        let counts := if nRunLength < 3 then (piece.length, 0) else (raw.length, nRunLength)
        (writeRawBytes (piece ++ behind) counts.1 counts.2 outBufferSize).bind fun written =>
          (writeRun written.2.1 written.2.2).map (written.1 ++ ·) := by
    rw [hlength]
    exact if_neg (by omega)
  by_cases hshort : nRunLength < 3
  · obtain ⟨segments, hexpand, hsize, hsegments⟩ :=
      writeRawBytes_writeRun last piece (Or.inl rfl : IsRun 0)
    refine ⟨segments, ?_, ?_, fun behind outBufferSize => ?_⟩
    · rw [hexpand, replicate_zero, append_nil]
    · rw [hsize, pieceSize, if_pos hshort, if_neg hpos.ne', hlength]
      omega
    · rw [hwrite, if_pos hshort]
      exact hsegments behind outBufferSize
  · obtain ⟨segments, hexpand, hsize, hsegments⟩ :=
      writeRawBytes_writeRun last raw (Or.inr (by omega) : IsRun nRunLength)
    refine ⟨segments, ?_, ?_, fun behind outBufferSize => ?_⟩
    · rw [hexpand, hpiece]
    · rw [hsize, pieceSize, if_neg hshort]
    · rw [hwrite, if_neg hshort, hpiece, append_assoc]
      exact hsegments _ outBufferSize

/-! ## A row -/

/-- What the loop of `freerdp_bitmap_planar_encode_rle_bytes` keeps. -/
structure RleState where
  cRawBytes : ℕ := 0
  nRunLength : ℕ := 0
  outBufferSize : ℕ
  output : List UInt8 := []

namespace RleState

/-- A piece of the row, which begins at `pBytes`, is written behind the output. -/
def write (s : RleState) (pBytes : List UInt8) : Option RleState :=
  (writeRleBytes pBytes s.cRawBytes s.nRunLength s.outBufferSize).bind fun bytes =>
    if bytes.length > s.outBufferSize then none
    else
      some
        { outBufferSize := s.outBufferSize - bytes.length
          output := s.output ++ bytes }

/-- What is done when a run has ended: a short one becomes raw bytes, and a longer one is written
with the raw bytes in front of it; `pInput` points behind the byte that ended it. -/
def endRun (s : RleState) (row : List UInt8) (pInput : ℕ) : Option RleState :=
  if s.nRunLength < 3 then some { s with cRawBytes := s.cRawBytes + s.nRunLength, nRunLength := 0 }
  else s.write (row.drop (pInput - (s.cRawBytes + s.nRunLength + 1)))

/-- A symbol is counted, as one of the run or a raw byte. -/
def count (s : RleState) (bSymbolMatch : Bool) : RleState :=
  if bSymbolMatch then { s with nRunLength := s.nRunLength + 1 }
  else { s with cRawBytes := s.cRawBytes + 1 }

/-- A turn of the loop. -/
def step (s : RleState) (row : List UInt8) (pInput : ℕ) (bSymbolMatch : Bool) :
    Option RleState :=
  (if s.nRunLength ≠ 0 ∧ ¬ bSymbolMatch then s.endRun row pInput else some s).map
    (·.count bSymbolMatch)

/-- What is done behind the loop: the last piece is written, and no input may be left. -/
def finish (s : RleState) (row input : List UInt8) : Option (List UInt8) :=
  if s.cRawBytes ≠ 0 ∨ s.nRunLength ≠ 0 then
    (writeRleBytes (row.drop (row.length - input.length - (s.cRawBytes + s.nRunLength)))
        s.cRawBytes s.nRunLength s.outBufferSize).bind fun bytes =>
      if input ≠ [] then none else some (s.output ++ bytes)
  else if input ≠ [] then none
  else some s.output

end RleState

/-- The loop of `freerdp_bitmap_planar_encode_rle_bytes` over the input that is left. -/
def encodeSymbols (row : List UInt8) : List UInt8 → UInt8 → RleState → Option (List UInt8)
  | [], _, s => s.finish row []
  | b :: input, symbol, s =>
    (s.step row (row.length - input.length) (symbol = b)).bind fun s =>
      if s.outBufferSize = 0 then s.finish row input else encodeSymbols row input b s

/-- `freerdp_bitmap_planar_encode_rle_bytes`: the bytes written, `none` for its answer 0. -/
def encodeRleBytes (row : List UInt8) (outBufferSize : ℕ) : Option (List UInt8) :=
  if outBufferSize = 0 then none else encodeSymbols row row 0 { outBufferSize }

/-- How many bytes a row takes, from a piece on that has begun. -/
def rowSizeFrom : ℕ → ℕ → UInt8 → List UInt8 → ℕ
  | cRawBytes, nRunLength, _, [] => pieceSize cRawBytes nRunLength
  | cRawBytes, nRunLength, symbol, b :: input =>
    if symbol = b then rowSizeFrom cRawBytes (nRunLength + 1) b input
    else if nRunLength < 3 then rowSizeFrom (cRawBytes + nRunLength + 1) 0 b input
    else pieceSize cRawBytes nRunLength + rowSizeFrom 1 0 b input

/-- How many bytes a row takes. -/
def rowSize (row : List UInt8) : ℕ := rowSizeFrom 0 0 0 row

theorem pieceSize_le (cRawBytes nRunLength : ℕ) :
    pieceSize cRawBytes nRunLength ≤ 2 * (cRawBytes + nRunLength) := by
  unfold pieceSize
  split
  · omega
  · split <;> omega

theorem rowSizeFrom_le (cRawBytes nRunLength : ℕ) (symbol : UInt8) (input : List UInt8) :
    rowSizeFrom cRawBytes nRunLength symbol input ≤
      2 * (cRawBytes + nRunLength + input.length) := by
  induction input generalizing cRawBytes nRunLength symbol with
  | nil => exact pieceSize_le cRawBytes nRunLength
  | cons b input ih =>
    rw [rowSizeFrom, length_cons]
    split
    · have hrun := ih cRawBytes (nRunLength + 1) b
      omega
    · split
      · have hraw := ih (cRawBytes + nRunLength + 1) 0 b
        omega
      · have hpiece := pieceSize_le cRawBytes nRunLength
        have hrest := ih 1 0 b
        omega

/-- A row takes two bytes a pixel at most. -/
theorem rowSize_le (row : List UInt8) : rowSize row ≤ 2 * row.length := by
  have h := rowSizeFrom_le 0 0 0 row
  unfold rowSize
  omega

theorem writeRleBytes_zero (pInBuffer : List UInt8) (cRawBytes nRunLength : ℕ) :
    writeRleBytes pInBuffer cRawBytes nRunLength 0 = none := by
  have hcounts (c r : ℕ) (h : c ≠ 0 ∨ r ≠ 0) :
      ((writeRawBytes pInBuffer c r 0).bind fun raw =>
        (writeRun raw.2.1 raw.2.2).map (raw.1 ++ ·)) = none := by
    rw [writeRawBytes]
    split
    next hraw =>
      rw [bind_some, writeRun, dif_neg (h.resolve_left (not_not_intro hraw)), if_pos one_pos]
      rfl
    · rfl
  rw [writeRleBytes]
  split
  · rfl
  · apply hcounts
    split
    · dsimp only
      omega
    · dsimp only
      omega

namespace RleState

variable (s : RleState) (row : List UInt8) (pInput : ℕ)

/-- A symbol that is the one before it. -/
theorem step_true : s.step row pInput true = some { s with nRunLength := s.nRunLength + 1 } := by
  rw [step, if_neg (by simp)]
  rfl

/-- Another symbol, with no run in front of it that is worth one. -/
theorem step_short (h : s.nRunLength < 3) :
    s.step row pInput false =
      some { s with cRawBytes := s.cRawBytes + s.nRunLength + 1, nRunLength := 0 } := by
  rw [step]
  split
  · rw [endRun, if_pos h]
    rfl
  next hnone =>
    obtain ⟨cRawBytes, nRunLength, outBufferSize, output⟩ := s
    obtain rfl : nRunLength = 0 := by
      by_contra hsome
      exact hnone ⟨hsome, nofun⟩
    rfl

/-- Another symbol behind a run. -/
theorem step_long (h : ¬ s.nRunLength < 3) :
    s.step row pInput false =
      (s.write (row.drop (pInput - (s.cRawBytes + s.nRunLength + 1)))).map fun s =>
        { s with cRawBytes := s.cRawBytes + 1 } := by
  rw [step, if_pos ⟨by omega, nofun⟩, endRun, if_neg h]
  rfl

end RleState

/-- Nothing can be written when there is no room. -/
theorem RleState.finish_zero {s : RleState} (hs : s.cRawBytes ≠ 0 ∨ s.nRunLength ≠ 0)
    (hroom : s.outBufferSize = 0) (row input : List UInt8) : s.finish row input = none := by
  rw [finish, if_pos hs, hroom, writeRleBytes_zero]
  rfl

theorem code_ne_nil {last : UInt8} {segments : List RleSegment}
    (h : expand last segments ≠ []) : 0 < (code segments).length := by
  cases segments with
  | nil => exact absurd rfl h
  | cons s segments => exact succ_pos _

namespace IsPiece

variable {last : UInt8} {piece : List UInt8} {cRawBytes nRunLength : ℕ}

theorem length_eq (h : IsPiece last piece cRawBytes nRunLength) :
    piece.length = cRawBytes + nRunLength := by
  obtain ⟨raw, rfl, rfl⟩ := h
  rw [length_append, length_replicate]

/-- A symbol that is the one before it. -/
theorem repeated (h : IsPiece last piece cRawBytes nRunLength) :
    IsPiece last (piece ++ [piece.getLastD last]) cRawBytes (nRunLength + 1) := by
  obtain ⟨raw, rfl, rfl⟩ := h
  refine ⟨raw, rfl, ?_⟩
  rw [getLastD_append, getLastD_replicate, append_assoc, replicate_succ']

/-- A piece whose run has become raw bytes. -/
theorem raw (last : UInt8) (piece : List UInt8) : IsPiece last piece piece.length 0 :=
  ⟨piece, rfl, (append_nil _).symm⟩

end IsPiece

/-- **The loop over a row**, from the piece `piece` on, which is not written yet: the rest of the
row is coded in `rowSizeFrom` bytes, if they fit. -/
theorem encodeSymbols_eq (row input : List UInt8) {front piece : List UInt8} {last symbol : UInt8}
    {cRawBytes nRunLength : ℕ} (hrow : row = front ++ (piece ++ input))
    (hpiece : IsPiece last piece cRawBytes nRunLength) (hsymbol : piece.getLastD last = symbol)
    (hne : piece ++ input ≠ []) :
    ∃ segments, expand last segments = piece ++ input ∧
      (code segments).length = rowSizeFrom cRawBytes nRunLength symbol input ∧
      ∀ outBufferSize output,
        encodeSymbols row input symbol ⟨cRawBytes, nRunLength, outBufferSize, output⟩ =
          if (code segments).length ≤ outBufferSize then some (output ++ code segments)
          else none := by
  induction input generalizing front piece last symbol cRawBytes nRunLength with
  | nil =>
    have hlength := hpiece.length_eq
    rw [append_nil] at hrow hne
    obtain ⟨segments, hexpand, hsize, hwrite⟩ := writeRleBytes_eq hpiece hne
    have hpos := length_pos_of_ne_nil hne
    have hdrop : row.drop (row.length - ([] : List UInt8).length - (cRawBytes + nRunLength)) =
        piece ++ [] := by
      rw [hrow, length_append, hlength, length_nil, Nat.sub_zero, Nat.add_sub_cancel,
        drop_left, append_nil]
    refine ⟨segments, by rw [hexpand, append_nil], hsize, fun outBufferSize output => ?_⟩
    rw [encodeSymbols, RleState.finish, if_pos (by dsimp only; omega)]
    dsimp only
    rw [hdrop, hwrite]
    split
    · rfl
    · rfl
  | cons b input ih =>
    have hlength := hpiece.length_eq
    have hcons : row = front ++ ((piece ++ [b]) ++ input) := by
      rw [hrow, append_assoc]
      rfl
    have hlast : (piece ++ [b]).getLastD last = b := by rw [getLastD_append]; rfl
    have hsome : piece ++ [b] ≠ [] := append_ne_nil_of_right_ne_nil _ (cons_ne_nil b [])
    -- what follows once the symbol is counted
    have hnext {front' piece' : List UInt8} {last' : UInt8} {c r : ℕ}
        (hrow' : row = front' ++ (piece' ++ input)) (hpiece' : IsPiece last' piece' c r)
        (hsymbol' : piece'.getLastD last' = b) (hne' : piece' ≠ []) :
        ∃ segments, expand last' segments = piece' ++ input ∧
          (code segments).length = rowSizeFrom c r b input ∧
          ∀ outBufferSize output,
            (if outBufferSize = 0 then
                RleState.finish ⟨c, r, outBufferSize, output⟩ row input
              else encodeSymbols row input b ⟨c, r, outBufferSize, output⟩) =
              if (code segments).length ≤ outBufferSize then some (output ++ code segments)
              else none := by
      have hpos := length_pos_of_ne_nil hne'
      have hlength' := hpiece'.length_eq
      have hne'' : piece' ++ input ≠ [] := append_ne_nil_of_left_ne_nil hne' _
      obtain ⟨segments, hexpand, hsize, hloop⟩ := ih hrow' hpiece' hsymbol' hne''
      refine ⟨segments, hexpand, hsize, fun outBufferSize output => ?_⟩
      split
      next hfull =>
        have hcode := code_ne_nil (hexpand ▸ hne'')
        rw [RleState.finish_zero (by dsimp only; omega) hfull, if_neg (by omega)]
      · exact hloop outBufferSize output
    by_cases hmatch : symbol = b
    · -- the run goes on
      have hpiece' : IsPiece last (piece ++ [b]) cRawBytes (nRunLength + 1) := by
        rw [← hmatch, ← hsymbol]
        exact hpiece.repeated
      obtain ⟨segments, hexpand, hsize, hloop⟩ := hnext hcons hpiece' hlast hsome
      refine ⟨segments, ?_, ?_, fun outBufferSize output => ?_⟩
      · rw [hexpand, append_assoc]
        rfl
      · rw [hsize, rowSizeFrom, if_pos hmatch]
      · rw [encodeSymbols, decide_eq_true hmatch, RleState.step_true]
        exact hloop outBufferSize output
    by_cases hshort : nRunLength < 3
    · -- there is no run, or one that is too short
      have hpiece' : IsPiece last (piece ++ [b]) (cRawBytes + nRunLength + 1) 0 := by
        have hraw := IsPiece.raw last (piece ++ [b])
        rwa [length_append, hlength] at hraw
      obtain ⟨segments, hexpand, hsize, hloop⟩ := hnext hcons hpiece' hlast hsome
      refine ⟨segments, ?_, ?_, fun outBufferSize output => ?_⟩
      · rw [hexpand, append_assoc]
        rfl
      · rw [hsize, rowSizeFrom, if_neg hmatch, if_pos hshort]
      · rw [encodeSymbols, decide_eq_false hmatch, RleState.step_short _ _ _ hshort]
        exact hloop outBufferSize output
    · -- the piece is written, and the symbol begins another one
      have hrow' : row = (front ++ piece) ++ ([b] ++ input) := by
        rw [hrow, append_assoc]
        rfl
      have hpne : piece ≠ [] := by
        intro hnil
        rw [hnil, length_nil] at hlength
        omega
      obtain ⟨segments, hexpand, hsize, hwrite⟩ := writeRleBytes_eq hpiece hpne
      obtain ⟨others, hoexpand, hosize, hloop⟩ :=
        hnext (c := 0 + 1) hrow' (IsPiece.raw symbol [b]) rfl (cons_ne_nil b [])
      have hdrop : row.drop (row.length - input.length - (cRawBytes + nRunLength + 1)) =
          piece ++ (b :: input) := by
        rw [hrow, length_append, length_append, hlength, length_cons,
          show front.length + (cRawBytes + nRunLength + (input.length + 1)) - input.length -
            (cRawBytes + nRunLength + 1) = front.length by omega, drop_left]
      refine ⟨segments ++ others, ?_, ?_, fun outBufferSize output => ?_⟩
      · rw [expand_append, hexpand, hsymbol, hoexpand]
        rfl
      · rw [code_append, length_append, hsize, hosize, rowSizeFrom, if_neg hmatch, if_neg hshort]
      · rw [encodeSymbols, decide_eq_false hmatch, RleState.step_long _ _ _ hshort,
          RleState.write]
        dsimp only
        rw [hdrop, hwrite, code_append, length_append]
        by_cases hfits : (code segments).length ≤ outBufferSize
        · rw [if_pos hfits, bind_some, if_neg (by omega)]
          dsimp only [map_some, bind_some]
          rw [hloop, append_assoc]
          by_cases hroom : (code segments).length + (code others).length ≤ outBufferSize
          · rw [if_pos hroom, if_pos (by omega)]
          · rw [if_neg hroom, if_neg (by omega)]
        · rw [if_neg hfits, if_neg (by omega)]
          rfl

/-- **A row** is coded by segments that expand to it, in `rowSize` bytes, if they fit. -/
theorem encodeRleBytes_eq {row : List UInt8} (hne : row ≠ []) :
    ∃ segments, expand 0 segments = row ∧ (code segments).length = rowSize row ∧
      ∀ outBufferSize, encodeRleBytes row outBufferSize =
        if (code segments).length ≤ outBufferSize then some (code segments) else none := by
  obtain ⟨segments, hexpand, hsize, hloop⟩ :=
    @encodeSymbols_eq row row [] [] 0 0 0 0 rfl (IsPiece.raw 0 []) rfl hne
  refine ⟨segments, hexpand, hsize, fun outBufferSize => ?_⟩
  have hpos : 0 < (code segments).length := by
    apply @code_ne_nil 0
    rw [hexpand]
    exact hne
  rw [encodeRleBytes]
  split
  next hzero => rw [if_neg (by omega)]
  · exact hloop outBufferSize []

/-! ## The rows of planes -/

/-- The loop of `freerdp_bitmap_planar_compress_plane_rle`, with `more` rows behind this one. -/
def compressRows (width more : ℕ) (pInput : List UInt8) (outBufferSize : ℕ) :
    Option (List UInt8) :=
  if outBufferSize = 0 then some []
  else
    (encodeRleBytes (pInput.take width) outBufferSize).bind fun bytes =>
      if bytes.length = 0 ∨ bytes.length > outBufferSize then none
      else
        match more with
        | 0 => some bytes
        | more + 1 =>
          (compressRows width more (pInput.drop width) (outBufferSize - bytes.length)).map
            (bytes ++ ·)

/-- `freerdp_bitmap_planar_compress_plane_rle`: the bytes written, of which there are at most
`dstSize`. -/
def compressPlaneRle (inPlane : List UInt8) (width height dstSize : ℕ) : Option (List UInt8) :=
  compressRows width (height - 1) inPlane dstSize

/-- Rows that are written as long as there is room at all: when it is used up between two of
them, the rest is left out. -/
def emit : List (List RleSegment) → ℕ → Option (List UInt8)
  | [], _ => some []
  | row :: rows, room =>
    if room = 0 then some []
    else if (code row).length ≤ room then
      (emit rows (room - (code row).length)).map (code row ++ ·)
    else none

/-- The segments of a row. -/
structure Codes (segments : List RleSegment) (row : List UInt8) : Prop where
  expand_eq : expand 0 segments = row
  length_code : (code segments).length = rowSize row

theorem Codes.pos {segments : List RleSegment} {row : List UInt8} (h : Codes segments row)
    (hne : row ≠ []) : 0 < (code segments).length := by
  apply @code_ne_nil 0
  rw [h.expand_eq]
  exact hne

/-- **The rows of a plane** are written as `emit` says. -/
theorem compressPlaneRle_eq {width : ℕ} (hwidth : 0 < width) {rows : List (List UInt8)}
    (hrows : ∀ row ∈ rows, row.length = width) (hne : rows ≠ []) :
    ∃ segments, List.Forall₂ Codes segments rows ∧
      ∀ outBufferSize, compressPlaneRle rows.flatten width rows.length outBufferSize =
        emit segments outBufferSize := by
  induction rows with
  | nil => exact absurd rfl hne
  | cons row rows ih =>
    have hrow : row ≠ [] := by
      rw [← length_pos_iff, hrows row mem_cons_self]
      exact hwidth
    have htake : (row :: rows).flatten.take width = row := by
      rw [flatten_cons, take_left' (hrows row mem_cons_self)]
    have hdrop : (row :: rows).flatten.drop width = rows.flatten := by
      rw [flatten_cons, drop_left' (hrows row mem_cons_self)]
    obtain ⟨segments, hexpand, hsize, hencode⟩ := encodeRleBytes_eq hrow
    have hpos : 0 < (code segments).length := Codes.pos ⟨hexpand, hsize⟩ hrow
    -- the row itself, whatever follows
    have hfirst (more outBufferSize : ℕ) :
        compressRows width more (row :: rows).flatten outBufferSize =
          if outBufferSize = 0 then some []
          else if (code segments).length ≤ outBufferSize then
            match more with
            | 0 => some (code segments)
            | more + 1 =>
              (compressRows width more rows.flatten (outBufferSize - (code segments).length)).map
                (code segments ++ ·)
          else none := by
      rw [compressRows, htake, hencode, hdrop]
      split
      · rfl
      · split
        · rw [bind_some, if_neg (by omega)]
        · rfl
    by_cases hlast : rows = []
    · subst hlast
      refine ⟨[segments], List.Forall₂.cons ⟨hexpand, hsize⟩ List.Forall₂.nil,
        fun outBufferSize => ?_⟩
      rw [compressPlaneRle]
      refine (hfirst 0 outBufferSize).trans ?_
      rw [emit, emit, map_some, append_nil]
    · obtain ⟨others, hothers, hloop⟩ :=
        ih (fun row h => hrows row (mem_cons_of_mem _ h)) hlast
      refine ⟨segments :: others, List.Forall₂.cons ⟨hexpand, hsize⟩ hothers,
        fun outBufferSize => ?_⟩
      obtain ⟨more, hmore⟩ := exists_eq_succ_of_ne_zero (length_pos_of_ne_nil hlast).ne'
      have hlength : (row :: rows).length - 1 = more + 1 := by
        rw [length_cons, hmore]
        rfl
      have hrest (room : ℕ) : compressRows width more rows.flatten room = emit others room := by
        rw [← hloop, compressPlaneRle, hmore]
        rfl
      rw [compressPlaneRle, hlength, hfirst]
      dsimp only
      rw [hrest]
      rfl

theorem emit_of_le {rows : List (List RleSegment)} {room : ℕ}
    (hpos : ∀ row ∈ rows, 0 < (code row).length) (h : (rows.flatMap code).length ≤ room) :
    emit rows room = some (rows.flatMap code) := by
  induction rows generalizing room with
  | nil => rfl
  | cons row rows ih =>
    have hrow := hpos row mem_cons_self
    rw [flatMap_cons, length_append] at h
    rw [emit, if_neg (by omega), if_pos (by omega),
      ih (fun row h => hpos row (mem_cons_of_mem _ h)) (by omega)]
    rfl

end Planar
