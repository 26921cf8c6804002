/-
# Reading run-length coded planes

The decoder of `planar.c` draws the rows of a plane into its destination, those behind the first
one as differences to the row above them, which it reads back from the destination.

* `decodeRows_eq`: the rows that were coded are drawn, and nothing else is changed;
* `decompressPlaneRleOnly_compressPlaneRle`: a plane is restored from the code of its differences.
-/
import XyDeskRemote.PlanarRle

open List Option Nat

namespace Planar

/-! ## Segments -/

/-- The run and the raw bytes of a segment: two of the run lengths say that there are no raw
bytes, and that their number belongs to the run. -/
def segmentCounts (control : UInt8) : ℕ × ℕ :=
  let nRunLength := controlRunLength control
  let cRawBytes := controlRawBytes control
  if nRunLength = 1 then (cRawBytes + 16, 0)
  else if nRunLength = 2 then (cRawBytes + 32, 0)
  else (nRunLength, cRawBytes)

@[simp] theorem segmentCounts_control (s : RleSegment) :
    segmentCounts s.control = (s.runLength, s.rawValues.length) := by
  obtain ⟨hraw, hrun, hone, htwo⟩ | ⟨hraw, hmin, hmax⟩ := s.codable
  · rw [RleSegment.control, if_pos hrun, segmentCounts, controlRunLength_controlByte,
      controlRawBytes_controlByte]
    rw [Nat.mod_eq_of_lt (by omega), Nat.mod_eq_of_lt (by omega), if_neg hone, if_neg htwo]
  · rw [RleSegment.control, if_neg (by omega), hraw]
    split
    · rw [segmentCounts, controlRunLength_controlByte, controlRawBytes_controlByte]
      rw [if_pos rfl, Nat.mod_eq_of_lt (by omega), Nat.sub_add_cancel (by omega)]
      rfl
    · rw [segmentCounts, controlRunLength_controlByte, controlRawBytes_controlByte]
      rw [if_neg (by decide), if_pos rfl, Nat.mod_eq_of_lt (by omega),
        Nat.sub_add_cancel (by omega)]
      rfl

theorem length_expand_cons (last : UInt8) (s : RleSegment) (segments : List RleSegment) :
    (expand last (s :: segments)).length = s.rawValues.length + s.runLength +
      (expand (s.rawValues.getLastD last) segments).length := by
  rw [expand, length_append, RleSegment.values, length_append, length_replicate]

/-- The bytes of the rows of a plane. -/
def codeRows (segments : List (List RleSegment)) : List UInt8 := segments.flatMap code

theorem codeRows_cons (first : List RleSegment) (segments : List (List RleSegment)) :
    codeRows (first :: segments) = code first ++ codeRows segments := flatMap_cons

variable {stride nWidth : ℕ} {segments : List (List RleSegment)} {rows : List (List UInt8)}

/-! ## Drawing a row -/

section

variable {B : Type*} (put : ℕ → ℤ → B → Option B)

/-- The inner loops of `planar_decompress_plane_rle_only`: pixels drawn one after another, from
`x` on. -/
def drawPixels : List ℤ → ℕ → B → Option B
  | [], _, buffer => some buffer
  | pixel :: pixels, x, buffer => (put x pixel buffer).bind (drawPixels pixels (x + 1))

theorem drawPixels_append (pixels others : List ℤ) (x : ℕ) (buffer : B) :
    drawPixels put (pixels ++ others) x buffer =
      (drawPixels put pixels x buffer).bind (drawPixels put others (x + pixels.length)) := by
  induction pixels generalizing x buffer with
  | nil => rfl
  | cons pixel pixels ih =>
    rw [cons_append, drawPixels, drawPixels, bind_assoc]
    refine bind_congr fun buffer' _ => ?_
    rw [ih, length_cons, add_assoc, add_comm 1]

/-- The loop of `planar_decompress_plane_rle_only` over a row whose bytes are `stride` places
apart, behind the pixel `pixel`: the raw bytes are taken by `pixelOf`, and a run draws the last
pixel again. -/
def decodeRow (stride : ℕ) (pixelOf : UInt8 → ℤ) (nWidth : ℕ) (srcp : List UInt8) (x : ℕ)
    (pixel : ℤ) (buffer : B) : Option (List UInt8 × B) :=
  if nWidth ≤ x then some (srcp, buffer)
  else
    match srcp with
    | [] => none
    | control :: srcp =>
      let counts := segmentCounts control
      if stride * x + (counts.2 + counts.1) > stride * nWidth then none
      else if counts.2 > srcp.length then none
      else
        let raw := (srcp.take counts.2).map pixelOf
        (drawPixels put raw x buffer).bind fun buffer =>
          (drawPixels put (replicate counts.1 (raw.getLastD pixel)) (x + counts.2)
              buffer).bind fun buffer =>
            decodeRow stride pixelOf nWidth (srcp.drop counts.2) (x + counts.2 + counts.1)
              (raw.getLastD pixel) buffer
termination_by srcp.length
decreasing_by
  rw [length_drop, length_cons]
  omega

theorem decodeRow_of_le {stride : ℕ} {pixelOf : UInt8 → ℤ} {nWidth x : ℕ} (h : nWidth ≤ x)
    (srcp : List UInt8) (pixel : ℤ) (buffer : B) :
    decodeRow put stride pixelOf nWidth srcp x pixel buffer = some (srcp, buffer) := by
  cases srcp with
  | nil => rw [decodeRow, if_pos h]
  | cons control srcp => rw [decodeRow, if_pos h]

/-- **A row that was coded** is drawn pixel by pixel. -/
theorem decodeRow_code {stride : ℕ} (hstride : 0 < stride) {pixelOf : UInt8 → ℤ} {nWidth x : ℕ}
    {last : UInt8} {segments : List RleSegment} (h : x + (expand last segments).length = nWidth)
    (rest : List UInt8) (buffer : B) :
    decodeRow put stride pixelOf nWidth (code segments ++ rest) x (pixelOf last) buffer =
      (drawPixels put ((expand last segments).map pixelOf) x buffer).map (rest, ·) := by
  induction segments generalizing last x buffer with
  | nil =>
    exact decodeRow_of_le put h.ge rest (pixelOf last) buffer
  | cons s segments ih =>
    rw [length_expand_cons] at h
    have hpos := s.some_value
    have hroom : ¬ s.rawValues.length > (s.rawValues ++ (code segments ++ rest)).length := by
      rw [length_append]
      omega
    have hwithin : stride * x + (s.rawValues.length + s.runLength) ≤ stride * nWidth := by
      calc stride * x + (s.rawValues.length + s.runLength)
          ≤ stride * x + stride * (s.rawValues.length + s.runLength) :=
            Nat.add_le_add_left (Nat.le_mul_of_pos_left _ hstride) _
        _ = stride * (x + (s.rawValues.length + s.runLength)) := (mul_add _ _ _).symm
        _ ≤ stride * nWidth := mul_le_mul_left stride (by omega)
    have hlast : (s.rawValues.map pixelOf).getLastD (pixelOf last) =
        pixelOf (s.rawValues.getLastD last) := by
      rw [getLastD_eq_getLast?, getLast?_map, getLastD_eq_getLast?]
      cases s.rawValues.getLast? <;> rfl
    rw [code_cons, cons_append, append_assoc, decodeRow, if_neg (by omega)]
    dsimp only
    rw [segmentCounts_control]
    dsimp only
    rw [if_neg hwithin.not_gt, if_neg hroom, take_left, drop_left, hlast, expand,
      RleSegment.values, map_append, map_append, map_replicate, append_assoc,
      drawPixels_append, length_map, map_bind]
    refine bind_congr fun drawn _ => ?_
    rw [Function.comp_apply, drawPixels_append, length_replicate, map_bind]
    refine bind_congr fun drawn' _ => ?_
    exact ih (by omega) drawn'

end

/-! ## Differences to the row above -/

/-- `clamp`, which takes the low byte. -/
def clamp (val : ℤ) : UInt8 := UInt8.ofNat (val % 256).toNat

/-- An `int8_t` cast. -/
def castInt8 (val : ℤ) : ℤ := if val % 256 < 128 then val % 256 else val % 256 - 256

/-- A byte of `freerdp_bitmap_planar_delta_encode_plane`: the difference to the byte above, the
sign in the lowest bit. -/
def deltaByte (src previous : UInt8) : UInt8 :=
  let delta : ℤ := src.toNat - previous.toNat
  let s2c1 := castInt8 (if 0 ≤ delta then delta else 2 ^ 31 - 1 + delta + 1)
  clamp (if 0 ≤ s2c1 then s2c1 * 2 else -s2c1 * 2 - 1)

/-- The difference a byte stands for, in `planar_decompress_plane_rle_only`. -/
def deltaPixel (deltaValue : UInt8) : ℤ :=
  if deltaValue.toNat % 2 = 1 then -(deltaValue.toNat / 2 + 1 : ℕ) else (deltaValue.toNat / 2 : ℕ)

theorem toNat_clamp (val : ℤ) : ((clamp val).toNat : ℤ) = val % 256 := by
  rw [clamp, UInt8.toNat_ofNat']
  omega

theorem clamp_toNat (b : UInt8) : clamp b.toNat = b := by
  have hlt := b.toNat_lt
  have hclamp := toNat_clamp b.toNat
  apply UInt8.toNat_inj.1
  omega

/-- **A difference** is added to the byte above again. -/
theorem clamp_deltaPixel (src previous : UInt8) :
    clamp (previous.toNat + deltaPixel (deltaByte src previous)) = src := by
  have hsrc := src.toNat_lt
  have hsigned : deltaPixel (deltaByte src previous) % 256 =
      ((src.toNat : ℤ) - previous.toNat) % 256 := by
    obtain ⟨s2c1, hbyte, hmod, hmin, hmax⟩ : ∃ s2c1 : ℤ,
        deltaByte src previous = clamp (if 0 ≤ s2c1 then s2c1 * 2 else -s2c1 * 2 - 1) ∧
        s2c1 % 256 = ((src.toNat : ℤ) - previous.toNat) % 256 ∧ -128 ≤ s2c1 ∧ s2c1 < 128 := by
      refine ⟨_, rfl, ?_, ?_, ?_⟩
      · unfold castInt8
        split <;> split <;> omega
      · unfold castInt8
        split <;> omega
      · unfold castInt8
        split <;> omega
    have hclamp := toNat_clamp (if 0 ≤ s2c1 then s2c1 * 2 else -s2c1 * 2 - 1)
    rw [hbyte, deltaPixel, ← hmod]
    split at hclamp
    next hsign =>
      rw [if_pos hsign, if_neg (by omega)]
      omega
    next hsign =>
      rw [if_neg hsign, if_pos (by omega)]
      omega
  have hclamp := toNat_clamp (previous.toNat + deltaPixel (deltaByte src previous))
  apply UInt8.toNat_inj.1
  omega

/-- `freerdp_bitmap_planar_delta_encode_plane`: the first row, and the differences of the others
to the bytes a row before them. -/
def deltaEncodePlane (inPlane : List UInt8) (width height : ℕ) : List UInt8 :=
  inPlane.take width ++
    zipWith deltaByte ((inPlane.take (height * width)).drop width) inPlane

/-- What is coded for a row, below the row `previous`. -/
def rowSymbols : Option (List UInt8) → List UInt8 → List UInt8
  | none, row => row
  | some previous, row => zipWith deltaByte row previous

/-- What is coded for the rows of a plane, below the row `previous`. -/
def planeSymbols : Option (List UInt8) → List (List UInt8) → List (List UInt8)
  | _, [] => []
  | previous, row :: rows => rowSymbols previous row :: planeSymbols (some row) rows

theorem length_planeSymbols (previous : Option (List UInt8)) (rows : List (List UInt8)) :
    (planeSymbols previous rows).length = rows.length := by
  induction rows generalizing previous with
  | nil => rfl
  | cons row rows ih => rw [planeSymbols, length_cons, ih, length_cons]

variable {previous : Option (List UInt8)} {row : List UInt8}

theorem length_rowSymbols (hprevious : ∀ p ∈ previous, p.length = nWidth)
    (hrow : row.length = nWidth) :
    (rowSymbols previous row).length = nWidth := by
  cases previous with
  | none => exact hrow
  | some p => rw [rowSymbols, length_zipWith, hrow, hprevious p rfl, min_self]

theorem length_of_mem_planeSymbols (hprevious : ∀ p ∈ previous, p.length = nWidth)
    (hrows : ∀ row ∈ rows, row.length = nWidth) :
    ∀ row ∈ planeSymbols previous rows, row.length = nWidth := by
  induction rows generalizing previous with
  | nil => exact fun row h => absurd h not_mem_nil
  | cons row rows ih =>
    have hrow := hrows row mem_cons_self
    intro symbols h
    rcases mem_cons.1 h with rfl | h
    · exact length_rowSymbols hprevious hrow
    · refine ih ?_ (fun row h => hrows row (mem_cons_of_mem _ h)) symbols h
      intro p hp
      rwa [← some.inj hp]

theorem length_flatten_of_rows (hrows : ∀ row ∈ rows, row.length = nWidth) :
    rows.flatten.length = rows.length * nWidth := by
  rw [length_flatten, map_congr_left hrows, map_const', sum_replicate_nat]

/-- **A plane of differences**, row by row. -/
theorem deltaEncodePlane_flatten (hrows : ∀ row ∈ rows, row.length = nWidth) :
    deltaEncodePlane rows.flatten nWidth rows.length = (planeSymbols none rows).flatten := by
  have htake : rows.flatten.take (rows.length * nWidth) = rows.flatten := by
    apply take_of_length_le
    rw [length_flatten_of_rows hrows]
  have hrest (rows : List (List UInt8)) (hrows : ∀ row ∈ rows, row.length = nWidth)
      (previous : List UInt8) (hprevious : previous.length = nWidth) :
      zipWith deltaByte rows.flatten (previous ++ rows.flatten) =
        (planeSymbols (some previous) rows).flatten := by
    induction rows generalizing previous with
    | nil => rfl
    | cons row rows ih =>
      have hrow := hrows row mem_cons_self
      rw [flatten_cons, zipWith_append (hrow.trans hprevious.symm), planeSymbols,
        flatten_cons, ih (fun row h => hrows row (mem_cons_of_mem _ h)) row hrow]
      rfl
  cases rows with
  | nil =>
    rw [deltaEncodePlane, htake, flatten_nil, take_nil, drop_nil]
    rfl
  | cons row rows =>
    have hrow := hrows row mem_cons_self
    rw [deltaEncodePlane, htake, flatten_cons, take_left' hrow, drop_left' hrow,
      hrest rows (fun row h => hrows row (mem_cons_of_mem _ h)) row hrow]
    rfl

/-! ## Drawing a plane -/

/-- What stands in the row above, and nothing in the first one. -/
def aboveAt (stride : ℕ) (previousScanline : Option ℕ) (x : ℕ) (pDstData : List UInt8) : Option ℤ :=
  match previousScanline with
  | none => some 0
  | some previous => pDstData[previous + stride * x]?.map fun b : UInt8 => (b.toNat : ℤ)

/-- A pixel of a row is drawn, on top of what stands above it.  One outside of the buffer is a
crash. -/
def putPixel (stride : ℕ) (previousScanline : Option ℕ) (currentScanline x : ℕ) (pixel : ℤ)
    (pDstData : List UInt8) : Option (List UInt8) :=
  (aboveAt stride previousScanline x pDstData).bind fun above =>
    if currentScanline + stride * x < pDstData.length then
      some (pDstData.set (currentScanline + stride * x) (clamp (above + pixel)))
    else none

/-- What a raw byte says, in the first row and below it. -/
def rawPixel (previousScanline : Option ℕ) (b : UInt8) : ℤ :=
  if previousScanline.isSome then deltaPixel b else b.toNat

/-- The outer loop of `planar_decompress_plane_rle_only`, over the rows that begin at the positions
given: the data behind the plane, and the buffer. -/
def decodeRows (stride nWidth : ℕ) : List ℕ → Option ℕ → List UInt8 → List UInt8 →
    Option (List UInt8 × List UInt8)
  | [], _, srcp, pDstData => some (srcp, pDstData)
  | currentScanline :: scanlines, previousScanline, srcp, pDstData =>
    (decodeRow (putPixel stride previousScanline currentScanline) stride
        (rawPixel previousScanline) nWidth srcp 0 0 pDstData).bind fun decoded =>
      decodeRows stride nWidth scanlines (some currentScanline) decoded.1 decoded.2

/-- The bytes of a row are `stride` places apart from `start` on, and nothing else is changed. -/
structure RowDrawn (stride start : ℕ) (row buffer drawn : List UInt8) : Prop where
  length_eq : drawn.length = buffer.length
  row_eq : ∀ k < row.length, drawn[start + stride * k]? = row[k]?
  kept : ∀ i, (∀ k < row.length, i ≠ start + stride * k) → drawn[i]? = buffer[i]?

/-- Every pixel of `pixels` gives the byte of `row`, on top of what stands above it. -/
def Gives (stride : ℕ) (previousScanline : Option ℕ) (x : ℕ) (buffer : List UInt8)
    (pixels : List ℤ) (row : List UInt8) : Prop :=
  pixels.length = row.length ∧ ∀ k b, row[k]? = some b → ∃ above pixel : ℤ,
    aboveAt stride previousScanline (x + k) buffer = some above ∧ pixels[k]? = some pixel ∧
      clamp (above + pixel) = b

variable {previousScanline : Option ℕ} {buffer : List UInt8}

/-- **A row** is drawn. -/
theorem drawPixels_putPixel (hstride : 0 < stride) {currentScanline x : ℕ} {pixels : List ℤ}
    (hgives : Gives stride previousScanline x buffer pixels row)
    (hroom : ∀ k < row.length, currentScanline + stride * (x + k) < buffer.length)
    (hfar : ∀ previous ∈ previousScanline, ∀ j k, j < x + row.length → k < x + row.length →
      previous + stride * k ≠ currentScanline + stride * j) :
    ∃ drawn,
      drawPixels (putPixel stride previousScanline currentScanline) pixels x buffer = some drawn ∧
      RowDrawn stride (currentScanline + stride * x) row buffer drawn := by
  induction row generalizing pixels x buffer with
  | nil =>
    obtain rfl := eq_nil_of_length_eq_zero hgives.1
    exact ⟨buffer, rfl, rfl, fun k hk => absurd hk (not_lt_zero k), fun _ _ => rfl⟩
  | cons b row ih =>
    cases pixels with
    | nil => cases hgives.1
    | cons pixel pixels =>
      have hx := hroom 0 (succ_pos _)
      rw [add_zero] at hx
      rw [length_cons] at hfar
      obtain ⟨above, pixel', habove, hpixel, hb⟩ := hgives.2 0 b rfl
      obtain rfl : pixel = pixel' := some.inj hpixel
      have hput : putPixel stride previousScanline currentScanline x pixel buffer =
          some (buffer.set (currentScanline + stride * x) b) := by
        rw [add_zero] at habove
        rw [putPixel, habove, bind_some, if_pos hx, hb]
      -- the row above is not changed by what is drawn
      have hkept (k : ℕ) (hk : k < x + (row.length + 1)) :
          aboveAt stride previousScanline k (buffer.set (currentScanline + stride * x) b) =
            aboveAt stride previousScanline k buffer := by
        cases previousScanline with
        | none => rfl
        | some previous =>
          rw [aboveAt, aboveAt, getElem?_set_ne]
          exact (hfar previous rfl x k (by omega) hk).symm
      have hnext : Gives stride previousScanline (x + 1)
          (buffer.set (currentScanline + stride * x) b) pixels row := by
        refine ⟨succ.inj hgives.1, fun k c hc => ?_⟩
        have hk : k < row.length := (List.getElem?_eq_some_iff.1 hc).1
        rw [hkept _ (by omega), add_assoc, add_comm 1]
        exact hgives.2 (k + 1) c hc
      -- the places behind the first one
      have hplace (k : ℕ) : currentScanline + stride * (x + 1) + stride * k =
          currentScanline + stride * x + stride * (k + 1) := by ring
      obtain ⟨drawn, hdraw, hdrawn⟩ := ih hnext
        (fun k hk => by
          have hnext := hroom (k + 1) (succ_lt_succ hk)
          rw [length_set]
          rwa [add_assoc, add_comm 1])
        (fun previous hprevious j k hj hk =>
          hfar previous hprevious j k (by omega) (by omega))
      refine ⟨drawn, ?_, ?_, ?_, ?_⟩
      · rw [drawPixels, hput, bind_some, hdraw]
      · rw [hdrawn.length_eq, length_set]
      · intro k hk
        cases k with
        | zero =>
          rw [mul_zero, add_zero, hdrawn.kept, getElem?_set_self hx]
          · rfl
          · intro k _
            have hstep : 0 < stride * (k + 1) := mul_pos hstride (succ_pos k)
            rw [hplace]
            omega
        | succ k =>
          have hrow := hdrawn.row_eq k (lt_of_succ_lt_succ hk)
          rw [getElem?_cons_succ, ← hrow, hplace]
      · intro i hi
        have hfirst := hi 0 (succ_pos _)
        rw [hdrawn.kept, getElem?_set_ne]
        · rwa [mul_zero, add_zero, ne_comm] at hfirst
        · intro k hk
          rw [hplace]
          exact hi (k + 1) (succ_lt_succ hk)

/-- The bytes of a row are `stride` places apart in a buffer, from `start` on. -/
def RowAt (stride nWidth : ℕ) (buffer : List UInt8) (start : ℕ) (row : List UInt8) : Prop :=
  row.length = nWidth ∧ ∀ k < nWidth, buffer[start + stride * k]? = row[k]?

/-- What was coded for a row gives the row, when the one above it is in the buffer. -/
theorem gives_rowSymbols (hrow : row.length = nWidth)
    (hprevious : Option.Rel (RowAt stride nWidth buffer) previousScanline previous) :
    Gives stride previousScanline 0 buffer
      ((rowSymbols previous row).map (rawPixel previousScanline)) row := by
  cases hprevious with
  | none =>
    refine ⟨length_map _, fun k b hb => ⟨0, b.toNat, rfl, ?_, ?_⟩⟩
    · rw [getElem?_map, rowSymbols, hb]
      rfl
    · rw [Int.zero_add, clamp_toNat]
  | @some start previous hat =>
    have hlength : (rowSymbols (some previous) row).length = nWidth := by
      apply length_rowSymbols _ hrow
      intro p hp
      rw [← some.inj hp]
      exact hat.1
    refine ⟨by rw [length_map, hlength, hrow], fun k b hb => ?_⟩
    have hk : k < nWidth := by
      rw [← hrow]
      exact (List.getElem?_eq_some_iff.1 hb).1
    obtain ⟨a, ha⟩ : ∃ a, previous[k]? = some a :=
      ⟨_, getElem?_eq_getElem (by rw [hat.1]; exact hk)⟩
    refine ⟨a.toNat, deltaPixel (deltaByte b a), ?_, ?_, clamp_deltaPixel b a⟩
    · rw [aboveAt, zero_add, hat.2 k hk, ha]
      rfl
    · rw [getElem?_map, rowSymbols, getElem?_zipWith, hb, ha]
      rfl

/-- The rows of a plane are in a buffer, and nothing else is changed. -/
structure PlaneDrawn (stride : ℕ) (starts : List ℕ) (nWidth : ℕ) (rows : List (List UInt8))
    (buffer drawn : List UInt8) : Prop where
  length_eq : drawn.length = buffer.length
  rows_at : List.Forall₂ (RowAt stride nWidth drawn) starts rows
  kept : ∀ i, (∀ start ∈ starts, ∀ k < nWidth, i ≠ start + stride * k) → drawn[i]? = buffer[i]?

/-- Two rows have no place in common. -/
def Apart (stride nWidth start other : ℕ) : Prop :=
  ∀ j k, j < nWidth → k < nWidth → start + stride * j ≠ other + stride * k

/-- The first row of several is drawn; the next ones are drawn on top of it, and leave it. -/
theorem drawPixels_first (hstride : 0 < stride) {start : ℕ} {starts : List ℕ} {pixels : List ℤ}
    (hgives : Gives stride previousScanline 0 buffer pixels row) (hrow : row.length = nWidth)
    (hapart : (previousScanline.toList ++ start :: starts).Pairwise (Apart stride nWidth))
    (hroom : ∀ other ∈ start :: starts, ∀ k < nWidth, other + stride * k < buffer.length) :
    ∃ one, drawPixels (putPixel stride previousScanline start) pixels 0 buffer = some one ∧
      Option.Rel (RowAt stride nWidth one) (some start) (some row) ∧
      ((some start).toList ++ starts).Pairwise (Apart stride nWidth) ∧
      (∀ other ∈ starts, ∀ k < nWidth, other + stride * k < one.length) ∧
      ∀ rows drawn, PlaneDrawn stride starts nWidth rows one drawn →
        PlaneDrawn stride (start :: starts) nWidth (row :: rows) buffer drawn := by
  subst hrow
  have hstarts := pairwise_cons.1 (pairwise_append.1 hapart).2.1
  have hplaces : ∀ k < row.length, start + stride * (0 + k) < buffer.length := by
    intro k hk
    rw [zero_add]
    exact hroom start mem_cons_self k hk
  obtain ⟨one, hdraw, hone⟩ := drawPixels_putPixel hstride hgives hplaces
    fun p hp j k hj hk => by
      rw [zero_add] at hj hk
      exact (pairwise_append.1 hapart).2.2 p (mem_toList.2 hp) start
        mem_cons_self k j hk hj
  rw [mul_zero, add_zero] at hone
  refine ⟨one, hdraw, Option.Rel.some ⟨rfl, hone.row_eq⟩, pairwise_cons.2 hstarts, ?_, ?_⟩
  · intro other h k hk
    rw [hone.length_eq]
    exact hroom other (mem_cons_of_mem _ h) k hk
  · intro rows drawn hdrawn
    refine ⟨hdrawn.length_eq.trans hone.length_eq,
      List.Forall₂.cons ⟨rfl, fun k hk => ?_⟩ hdrawn.rows_at, fun i hi => ?_⟩
    · rw [hdrawn.kept _ (fun other h j hj => hstarts.1 other h k j hk hj)]
      exact hone.row_eq k hk
    · rw [hdrawn.kept i fun other h => hi other (mem_cons_of_mem _ h)]
      exact hone.kept i (hi start mem_cons_self)

/-- **The rows of a plane** are drawn from what was coded for them. -/
theorem decodeRows_eq (hstride : 0 < stride) {starts : List ℕ}
    (hcodes : List.Forall₂ Codes segments (planeSymbols previous rows))
    (hrows : ∀ row ∈ rows, row.length = nWidth) (hlength : starts.length = rows.length)
    (hprevious : Option.Rel (RowAt stride nWidth buffer) previousScanline previous)
    (hapart : (previousScanline.toList ++ starts).Pairwise (Apart stride nWidth))
    (hroom : ∀ start ∈ starts, ∀ k < nWidth, start + stride * k < buffer.length)
    (rest : List UInt8) :
    ∃ drawn, decodeRows stride nWidth starts previousScanline (codeRows segments ++ rest) buffer =
      some (rest, drawn) ∧ PlaneDrawn stride starts nWidth rows buffer drawn := by
  induction rows generalizing starts previousScanline previous buffer segments with
  | nil =>
    obtain rfl := eq_nil_of_length_eq_zero hlength
    cases hcodes
    exact ⟨buffer, rfl, rfl, List.Forall₂.nil, fun _ _ => rfl⟩
  | cons row rows ih =>
    obtain ⟨start, starts, rfl⟩ := exists_cons_of_length_eq_add_one hlength
    have hrow := hrows row mem_cons_self
    have hrows' : ∀ row ∈ rows, row.length = nWidth :=
      fun row h => hrows row (mem_cons_of_mem _ h)
    have hgives := gives_rowSymbols hrow hprevious
    rw [planeSymbols] at hcodes
    cases hcodes with
    | @cons first _ segments _ hfirst hothers =>
      have hsymbols : 0 + (expand 0 first).length = nWidth := by
        have hlength := hgives.1
        rw [length_map, hrow] at hlength
        rw [hfirst.expand_eq, hlength, zero_add]
      have hzero : rawPixel previousScanline 0 = 0 := by
        cases previousScanline <;> rfl
      obtain ⟨one, hdraw, hat, hbehind, hplaces, hall⟩ :=
        drawPixels_first hstride hgives hrow hapart hroom
      obtain ⟨drawn, hdecode, hdrawn⟩ :=
        ih hothers hrows' (succ.inj hlength) hat hbehind hplaces
      refine ⟨drawn, ?_, hall rows drawn hdrawn⟩
      have hdecodeRow := @decodeRow_code _ (putPixel stride previousScanline start) stride hstride
        (rawPixel previousScanline) nWidth 0 0 first hsymbols (codeRows segments ++ rest) buffer
      rw [hzero, hfirst.expand_eq, hdraw] at hdecodeRow
      rw [decodeRows, codeRows_cons, append_assoc, hdecodeRow]
      exact hdecode

/-! ## A plane of its own -/

/-- `planar_decompress_plane_rle_only`, which draws into a plane: the answer, what is left of the
source, and the plane.  `none` is the answer -1, or an assertion. -/
def decompressPlaneRleOnly (pSrcData pDstData : List UInt8) (nWidth nHeight : ℕ) :
    Option (ℤ × List UInt8 × List UInt8) :=
  if nHeight > 2 ^ 31 - 1 ∨ nWidth > 2 ^ 31 - 1 then none
  else
    (decodeRows 1 nWidth ((range nHeight).map (· * nWidth)) none pSrcData pDstData).map
      fun decoded =>
        (((pSrcData.length - decoded.1.length : ℕ) : ℤ).bmod (2 ^ 32), decoded)

theorem take_of_rowAt {drawn : List UInt8} {y : ℕ}
    (h : List.Forall₂ (RowAt 1 nWidth drawn)
      ((range' y rows.length).map (· * nWidth)) rows)
    (hlength : (y + rows.length) * nWidth ≤ drawn.length) :
    (drawn.drop (y * nWidth)).take (rows.length * nWidth) = rows.flatten := by
  induction rows generalizing y with
  | nil => rw [length_nil, zero_mul, take_zero, flatten_nil]
  | cons row rows ih =>
    rw [length_cons, range'_succ, map_cons] at h
    rw [length_cons] at hlength
    obtain ⟨hrow, hrows⟩ := forall₂_cons.1 h
    have hfirst : (drawn.drop (y * nWidth)).take nWidth = row := by
      apply ext_getElem?
      intro k
      rw [getElem?_take, getElem?_drop]
      split
      next hk => rw [← hrow.2 k hk, one_mul]
      next hk =>
        rw [getElem?_eq_none]
        rw [hrow.1]
        omega
    have hothers := ih hrows (by rwa [add_assoc, add_comm 1])
    rw [length_cons, add_mul, one_mul, add_comm (rows.length * nWidth),
      take_add, hfirst, drop_drop, flatten_cons, ← hothers]
    congr 3
    ring

theorem exists_rows {plane : List UInt8} {width height : ℕ}
    (h : plane.length = width * height) : ∃ rows : List (List UInt8), rows.flatten = plane ∧
      rows.length = height ∧ ∀ row ∈ rows, row.length = width := by
  induction height generalizing plane with
  | zero =>
    obtain rfl := eq_nil_of_length_eq_zero h
    exact ⟨[], rfl, rfl, fun row h => absurd h not_mem_nil⟩
  | succ height ih =>
    rw [mul_succ] at h
    obtain ⟨rows, hflatten, hlength, hrows⟩ := @ih (plane.drop width) (by
      rw [length_drop, h, Nat.add_sub_cancel])
    refine ⟨plane.take width :: rows, ?_, ?_, ?_⟩
    · rw [flatten_cons, hflatten, take_append_drop]
    · rw [length_cons, hlength]
    · intro row hrow
      rcases mem_cons.1 hrow with rfl | hrow
      · rw [length_take, h]
        omega
      · exact hrows row hrow

theorem pos_of_codes (hcodes : List.Forall₂ Codes segments rows) (hrows : ∀ row ∈ rows, row ≠ []) :
    ∀ row ∈ segments, 0 < (code row).length := by
  induction hcodes with
  | nil => exact fun row h => absurd h not_mem_nil
  | @cons first row segments rows hfirst _ ih =>
    intro segments' h
    rcases mem_cons.1 h with rfl | h
    · exact hfirst.pos (hrows row mem_cons_self)
    · exact ih (fun row h => hrows row (mem_cons_of_mem _ h)) segments' h

theorem length_codeRows_le (hcodes : List.Forall₂ Codes segments rows)
    (hrows : ∀ row ∈ rows, row.length = nWidth) :
    (codeRows segments).length ≤ rows.length * (2 * nWidth) := by
  induction hcodes with
  | nil => exact zero_le _
  | @cons first row segments rows hfirst _ ih =>
    have hrow := rowSize_le row
    have hothers := ih fun row h => hrows row (mem_cons_of_mem _ h)
    rw [hrows row mem_cons_self] at hrow
    rw [codeRows_cons, length_append, hfirst.length_code, length_cons, add_mul]
    omega

/-- The places of a plane are those of its rows. -/
theorem place_lt {nHeight start k : ℕ} (h : start ∈ (range nHeight).map (· * nWidth))
    (hk : k < nWidth) : start + 1 * k < nWidth * nHeight := by
  obtain ⟨y, hy, rfl⟩ := mem_map.1 h
  have hbelow : (y + 1) * nWidth ≤ nHeight * nWidth :=
    mul_le_mul_right nWidth (mem_range.1 hy)
  rw [add_mul, mul_comm nHeight] at hbelow
  omega

theorem apart_scanlines (nWidth nHeight : ℕ) :
    ((range nHeight).map (· * nWidth)).Pairwise (Apart 1 nWidth) := by
  refine pairwise_map.2 (pairwise_lt_range.imp fun {y y'} hlt => ?_)
  intro j k hj _
  have hbelow : (y + 1) * nWidth ≤ y' * nWidth := mul_le_mul_right nWidth hlt
  rw [add_mul] at hbelow
  omega

/-- **The rows of a plane** that were coded are drawn at its beginning. -/
theorem decompressPlaneRleOnly_codeRows {pDstData : List UInt8}
    (hcodes : List.Forall₂ Codes segments (planeSymbols none rows))
    (hrows : ∀ row ∈ rows, row.length = nWidth) (hwidth : nWidth < 2 ^ 31)
    (hheight : rows.length < 2 ^ 31) (hdst : nWidth * rows.length ≤ pDstData.length) :
    decompressPlaneRleOnly (codeRows segments) pDstData nWidth rows.length =
      some (((codeRows segments).length : ℤ).bmod (2 ^ 32), [],
        rows.flatten ++ pDstData.drop (nWidth * rows.length)) := by
  have hstarts : ((range rows.length).map (· * nWidth)).length = rows.length := by
    rw [length_map, length_range]
  obtain ⟨drawn, hdecode, hdrawn⟩ := decodeRows_eq one_pos hcodes hrows hstarts
    Option.Rel.none (apart_scanlines nWidth rows.length)
    (fun start hstart k hk => (place_lt hstart hk).trans_le hdst) []
  have htake : drawn.take (nWidth * rows.length) = rows.flatten := by
    have hat := hdrawn.rows_at
    rw [range_eq_range'] at hat
    rw [← take_of_rowAt hat, zero_mul, drop_zero, mul_comm]
    rwa [zero_add, hdrawn.length_eq, mul_comm]
  have hdrop : drawn.drop (nWidth * rows.length) = pDstData.drop (nWidth * rows.length) := by
    apply ext_getElem?
    intro i
    rw [getElem?_drop, getElem?_drop]
    apply hdrawn.kept
    intro start hstart k hk
    have hplace := place_lt hstart hk
    omega
  rw [append_nil] at hdecode
  rw [decompressPlaneRleOnly, if_neg (by omega), hdecode, ← htake, ← hdrop, take_append_drop]
  rfl

/-- **A plane is restored** from the code of its differences, of which nothing is left. -/
theorem decompressPlaneRleOnly_compressPlaneRle {plane pDstData : List UInt8}
    {width height dstSize : ℕ} (hwidth : 1 ≤ width) (hheight : 1 ≤ height)
    (hplane : plane.length = width * height) (hroom : 2 * width * height ≤ dstSize)
    (hdstSize : dstSize < 2 ^ 32) (hdst : width * height ≤ pDstData.length) :
    ∃ bytes : List UInt8,
      compressPlaneRle (deltaEncodePlane plane width height) width height dstSize = some bytes ∧
      decompressPlaneRleOnly bytes pDstData width height =
        some ((bytes.length : ℤ).bmod (2 ^ 32), [], plane ++ pDstData.drop (width * height)) := by
  obtain ⟨rows, rfl, rfl, hrows⟩ := exists_rows hplane
  have hsymbols : ∀ row ∈ planeSymbols none rows, row.length = width :=
    length_of_mem_planeSymbols (fun _ h => absurd h nofun) hrows
  have hne : planeSymbols none rows ≠ [] := by
    rw [← length_pos_iff, length_planeSymbols]
    exact hheight
  obtain ⟨segments, hcodes, hcompress⟩ := compressPlaneRle_eq hwidth hsymbols hne
  rw [length_planeSymbols, ← deltaEncodePlane_flatten hrows] at hcompress
  have hsize := length_codeRows_le hcodes hsymbols
  rw [length_planeSymbols] at hsize
  have hpos := pos_of_codes hcodes fun row h => by
    rw [← length_pos_iff, hsymbols row h]
    exact hwidth
  have hfits : (codeRows segments).length ≤ dstSize := by
    refine hsize.trans (le_trans (le_of_eq ?_) hroom)
    ring
  -- the sizes fit in an `INT32`, as twice their product fits in a `UINT32`
  have hwsmall : width ≤ width * rows.length := Nat.le_mul_of_pos_right _ hheight
  have hhsmall : rows.length ≤ width * rows.length := Nat.le_mul_of_pos_left _ hwidth
  rw [mul_assoc] at hroom
  refine ⟨codeRows segments, ?_, ?_⟩
  · rw [hcompress, emit_of_le hpos hfits]
    rfl
  · exact decompressPlaneRleOnly_codeRows hcodes hrows (by omega) (by omega) hdst

theorem decompressPlaneRleOnly_compressPlaneRle_three_two :
    ∃ bytes : List UInt8,
      compressPlaneRle (deltaEncodePlane [7, 7, 9, 8, 6, 9] 3 2) 3 2 12 = some bytes ∧
      decompressPlaneRleOnly bytes [0, 0, 0, 0, 0, 0] 3 2 =
        some ((bytes.length : ℤ).bmod (2 ^ 32), [], [7, 7, 9, 8, 6, 9]) :=
  decompressPlaneRleOnly_compressPlaneRle (by decide) (by decide) rfl (by decide) (by decide)
    (by decide)

end Planar
