/-
# Three walks over a run-length coded plane

`planar.c` walks over the code of a plane to find its end (`planar_skip_plane_rle`), to draw it
into a plane of its own (`planar_decompress_plane_rle_only`) and to draw it into the channel of
an image (`planar_decompress_plane_rle`).  What the code says, byte by byte, is `parsePlane`; it
says nothing about where the pixels go.
-/
import XyDeskRemote.PlanarRleReading
import Mathlib.Data.List.GetD
import Mathlib.Data.List.Nodup

open List Option Nat Option

namespace Planar

/-! ## What a code says -/

/-- The rest of a row from `x` on, behind the value `last`: its values, and what lies behind its
code. -/
def parseRow (nWidth : ℕ) (srcp : List UInt8) (x : ℕ) (last : UInt8) :
    Option (List UInt8 × List UInt8) :=
  if nWidth ≤ x then some ([], srcp)
  else
    match srcp with
    | [] => none
    | control :: srcp =>
      let counts := segmentCounts control
      if x + counts.2 + counts.1 > nWidth then none
      else if counts.2 > srcp.length then none
      else
        let raw := srcp.take counts.2
        let last := raw.getLastD last
        (parseRow nWidth (srcp.drop counts.2) (x + counts.2 + counts.1) last).map fun row =>
          (raw ++ replicate counts.1 last ++ row.1, row.2)
termination_by srcp.length
decreasing_by
  rw [length_drop, length_cons]
  omega

/-- The rows of a plane. -/
def parsePlane (nWidth : ℕ) : ℕ → List UInt8 → Option (List (List UInt8) × List UInt8)
  | 0, srcp => some ([], srcp)
  | nHeight + 1, srcp =>
    (parseRow nWidth srcp 0 0).bind fun row =>
      (parsePlane nWidth nHeight row.2).map fun rows => (row.1 :: rows.1, rows.2)

/-- The bytes of a row whose values are given: those of the first row, and differences to the
row `previous` below it. -/
def drawnRow : Option (List UInt8) → List UInt8 → List UInt8
  | none, values => values
  | some previous, values =>
    zipWith (fun above value => clamp (above.toNat + deltaPixel value)) previous values

/-- The bytes of the rows of a plane. -/
def drawnRows : Option (List UInt8) → List (List UInt8) → List (List UInt8)
  | _, [] => []
  | previous, values :: rows =>
    drawnRow previous values :: drawnRows (some (drawnRow previous values)) rows

/-! ## The walks -/

/-- The loop of `planar_skip_plane_rle` over a row, with unsigned numbers of 32 bits: the bytes
used, or no such number when the code is refused.  The loop is cut off after `fuel` rounds. -/
def skipRow (pSrcData : List UInt8) (nWidth : ℕ) : ℕ → ℕ → ℕ → Option (Option ℕ)
  | fuel, used, x =>
    if x < nWidth then
      match fuel with
      | 0 => none
      | fuel + 1 =>
        if used ≥ pSrcData.length then some none
        else
          let counts := segmentCounts (pSrcData.getD used 0)
          let used := ((used + 1) % 2 ^ 32 + counts.2) % 2 ^ 32
          let x := ((x + counts.2) % 2 ^ 32 + counts.1) % 2 ^ 32
          if x > nWidth then some none
          else if used > pSrcData.length then some none
          else skipRow pSrcData nWidth fuel used x
    else some (some used)

/-- The loop over the rows. -/
def skipRows (pSrcData : List UInt8) (nWidth : ℕ) : ℕ → ℕ → Option (Option ℕ)
  | 0, used => some (some used)
  | nHeight + 1, used =>
    match skipRow pSrcData nWidth (2 ^ 64) used 0 with
    | some (some used) => skipRows pSrcData nWidth nHeight used
    | r => r

/-- `planar_skip_plane_rle`.  A row that goes on for `2 ^ 64` rounds, which is as many as there
are values of `used` and `x`, does not come to an end. -/
def skipPlaneRle (pSrcData : List UInt8) (nWidth nHeight : ℕ) : Option ℤ :=
  (skipRows pSrcData nWidth nHeight 0).map fun r =>
    match r with
    | none => -1
    | some used => if used > 2 ^ 31 - 1 then -1 else used

/-- The places in the destination where the rows of a channel begin, in the order in which they
are drawn. -/
def channelStarts (nDstStep nXDst nYDst nHeight nChannel : ℕ) (vFlip : Bool) : List ℕ :=
  (if vFlip then (range nHeight).reverse else range nHeight).map fun y =>
    (nYDst + y) * nDstStep + 4 * nXDst + nChannel

/-- `planar_decompress_plane_rle`: the answer, and the destination.  `none` is the answer -1, an
assertion, or a pixel outside of the destination. -/
def decompressPlaneRle (pSrcData pDstData : List UInt8)
    (nDstStep nXDst nYDst nWidth nHeight nChannel : ℕ) (vFlip : Bool) :
    Option (ℤ × List UInt8) :=
  if nHeight > 2 ^ 31 - 1 ∨ nWidth > 2 ^ 31 - 1 ∨ nDstStep > 2 ^ 31 - 1 then none
  else
    (decodeRows 4 nWidth (channelStarts nDstStep nXDst nYDst nHeight nChannel vFlip) none
        pSrcData pDstData).map fun decoded =>
      (((pSrcData.length - decoded.1.length : ℕ) : ℤ).bmod (2 ^ 32), decoded.2)

/-! ## Parsing -/

variable {nWidth x : ℕ} {srcp rest values : List UInt8} {last : UInt8}

theorem segmentCounts_le (control : UInt8) :
    (segmentCounts control).1 ≤ 47 ∧ (segmentCounts control).2 ≤ 15 := by
  have hrun : controlRunLength control < 16 := mod_lt _ (by decide)
  have hraw : controlRawBytes control < 16 := mod_lt _ (by decide)
  unfold segmentCounts
  dsimp only
  split
  · exact ⟨by omega, zero_le _⟩
  · split
    · exact ⟨by omega, zero_le _⟩
    · exact ⟨by omega, le_of_lt_succ hraw⟩

theorem parseRow_of_le (h : nWidth ≤ x) (srcp : List UInt8) (last : UInt8) :
    parseRow nWidth srcp x last = some ([], srcp) := by
  cases srcp with
  | nil => rw [parseRow, if_pos h]
  | cons control srcp => rw [parseRow, if_pos h]

theorem parseRow_nil (h : x < nWidth) (last : UInt8) : parseRow nWidth [] x last = none := by
  rw [parseRow, if_neg (by omega)]

theorem parseRow_cons (h : x < nWidth) (control : UInt8) (srcp : List UInt8) (last : UInt8) :
    parseRow nWidth (control :: srcp) x last =
      if x + (segmentCounts control).2 + (segmentCounts control).1 > nWidth then none
      else if (segmentCounts control).2 > srcp.length then none
      else
        (parseRow nWidth (srcp.drop (segmentCounts control).2)
          (x + (segmentCounts control).2 + (segmentCounts control).1)
          ((srcp.take (segmentCounts control).2).getLastD last)).map fun row =>
          (srcp.take (segmentCounts control).2 ++ replicate (segmentCounts control).1
            ((srcp.take (segmentCounts control).2).getLastD last) ++ row.1, row.2) := by
  rw [parseRow, if_neg (by omega)]

/-- A row is parsed from the front of its source, whatever lies behind. -/
theorem parseRow_eq_some (hx : x ≤ nWidth)
    (h : parseRow nWidth srcp x last = some (values, rest)) :
    values.length = nWidth - x ∧ ∃ front, srcp = front ++ rest ∧
      ∀ more, parseRow nWidth (front ++ more) x last = some (values, more) := by
  induction hn : srcp.length using Nat.strong_induction_on
    generalizing srcp x last values with
  | h n ih =>
    rcases lt_or_ge x nWidth with hlt | hge
    · cases srcp with
      | nil =>
        rw [parseRow_nil hlt] at h
        nomatch h
      | cons control srcp =>
        rw [parseRow_cons hlt] at h
        split at h
        next => nomatch h
        next hfits =>
          split at h
          next => nomatch h
          next hraw =>
            obtain ⟨⟨values', rest'⟩, hrow, heq⟩ := map_eq_some_iff.1 h
            cases heq
            have hshorter : (srcp.drop (segmentCounts control).2).length < n := by
              rw [← hn, length_drop, length_cons]
              omega
            obtain ⟨hlength, front, hfront, hmore⟩ := ih _ hshorter (by omega) hrow rfl
            have hbytes : (srcp.take (segmentCounts control).2).length =
                (segmentCounts control).2 := by
              rw [length_take]
              omega
            refine ⟨?_, control :: (srcp.take (segmentCounts control).2 ++ front), ?_,
              fun more => ?_⟩
            · simp only [length_append, length_replicate]
              rw [hbytes, hlength]
              omega
            · rw [cons_append, append_assoc, ← hfront, take_append_drop]
            · rw [cons_append, append_assoc, parseRow_cons hlt, if_neg hfits,
                if_neg (by rw [length_append, hbytes]; omega),
                drop_left' hbytes, take_left' hbytes, hmore]
              rfl
    · rw [parseRow_of_le hge] at h
      cases h
      exact ⟨(Nat.sub_eq_zero_of_le hge).symm, [], rfl, fun more => parseRow_of_le hge _ _⟩

variable {rows : List (List UInt8)}

/-- **A plane is parsed from the front of its source**, whatever lies behind. -/
theorem parsePlane_eq_some {nHeight : ℕ} (h : parsePlane nWidth nHeight srcp = some (rows, rest)) :
    ∃ front, srcp = front ++ rest ∧
      ∀ more, parsePlane nWidth nHeight (front ++ more) = some (rows, more) := by
  induction nHeight generalizing srcp rows with
  | zero =>
    cases h
    exact ⟨[], rfl, fun _ => rfl⟩
  | succ nHeight ih =>
    obtain ⟨⟨values, srcp'⟩, hrow, hrows⟩ := bind_eq_some_iff.1 h
    obtain ⟨⟨others, rest'⟩, hothers, heq⟩ := map_eq_some_iff.1 hrows
    cases heq
    obtain ⟨-, front, rfl, hfront⟩ := parseRow_eq_some (zero_le _) hrow
    obtain ⟨behind, hbehind, hmore⟩ := ih hothers
    dsimp only at hbehind hfront
    refine ⟨front ++ behind, by rw [hbehind, append_assoc], fun more => ?_⟩
    rw [parsePlane, append_assoc, hfront, Option.bind_some, hmore]
    rfl

/-! ## Skipping -/

variable {pSrcData : List UInt8}

/-- **A row is skipped** as it is parsed, where the numbers do not wrap. -/
theorem skipRow_eq (hsrc : pSrcData.length ≤ 2 ^ 32 - 16) (hwidth : nWidth ≤ 2 ^ 31 - 1) (fuel : ℕ)
    {used : ℕ} (hused : used ≤ pSrcData.length) (hx : x ≤ nWidth)
    (hfuel : pSrcData.length - used < fuel) (last : UInt8) :
    skipRow pSrcData nWidth fuel used x =
      some ((parseRow nWidth (pSrcData.drop used) x last).map fun row =>
        pSrcData.length - row.2.length) := by
  induction fuel generalizing used x last with
  | zero => nomatch hfuel
  | succ fuel ih =>
    unfold skipRow
    rcases lt_or_ge x nWidth with hlt | hge
    · rw [if_pos hlt]
      dsimp only
      rcases lt_or_ge used pSrcData.length with hmore | hend
      · obtain ⟨hrun, hraw⟩ := segmentCounts_le (pSrcData.getD used 0)
        have hcons : pSrcData.drop used =
            pSrcData.getD used 0 :: pSrcData.drop (used + 1) := by
          rw [getD_eq_getElem _ _ hmore]
          exact drop_eq_getElem_cons hmore
        rw [if_neg (by omega), hcons, parseRow_cons hlt]
        generalize segmentCounts (pSrcData.getD used 0) = counts at hrun hraw ⊢
        have hused' : ((used + 1) % 2 ^ 32 + counts.2) % 2 ^ 32 = used + 1 + counts.2 := by
          omega
        have hx' : ((x + counts.2) % 2 ^ 32 + counts.1) % 2 ^ 32 = x + counts.2 + counts.1 := by
          omega
        rw [hused', hx', length_drop]
        by_cases hfits : x + counts.2 + counts.1 > nWidth
        · rw [if_pos hfits, if_pos hfits]
          rfl
        · rw [if_neg hfits, if_neg hfits]
          by_cases hbytes : counts.2 > pSrcData.length - (used + 1)
          · rw [if_pos (by omega), if_pos hbytes]
            rfl
          · rw [if_neg (by omega), if_neg hbytes, drop_drop,
              ih (by omega) (by omega) (by omega) _, Option.map_map]
            rfl
      · rw [if_pos hend, drop_of_length_le hend, parseRow_nil hlt]
        rfl
    · rw [if_neg (by omega), parseRow_of_le hge]
      show some (some used) = some (some (pSrcData.length - (pSrcData.drop used).length))
      rw [length_drop, Nat.sub_sub_self hused]

theorem skipRows_eq (hsrc : pSrcData.length ≤ 2 ^ 32 - 16) (hwidth : nWidth ≤ 2 ^ 31 - 1)
    (nHeight : ℕ) {used : ℕ} (hused : used ≤ pSrcData.length) :
    skipRows pSrcData nWidth nHeight used =
      some ((parsePlane nWidth nHeight (pSrcData.drop used)).map fun rows =>
        pSrcData.length - rows.2.length) := by
  induction nHeight generalizing used with
  | zero =>
    show some (some used) = some (some (pSrcData.length - (pSrcData.drop used).length))
    rw [length_drop, Nat.sub_sub_self hused]
  | succ nHeight ih =>
    rw [skipRows, skipRow_eq hsrc hwidth (2 ^ 64) hused (zero_le _) (by omega) 0, parsePlane]
    cases hrow : parseRow nWidth (pSrcData.drop used) 0 0 with
    | none => rfl
    | some row =>
      obtain ⟨values, rest⟩ := row
      obtain ⟨-, front, hfront, -⟩ := parseRow_eq_some (zero_le _) hrow
      have hrest : pSrcData.drop (pSrcData.length - rest.length) = rest := by
        have hlength := congrArg List.length hfront
        rw [length_drop, length_append] at hlength
        have hplace : pSrcData.length - rest.length = used + front.length := by omega
        rw [hplace, ← drop_drop, hfront, drop_left]
      have hrows := ih (sub_le pSrcData.length rest.length)
      rw [hrest] at hrows
      rw [Option.map_some, Option.bind_some, Option.map_map]
      exact hrows

/-! ## Drawing -/

section

variable {B : Type*} (put : ℕ → ℤ → B → Option B) {stride : ℕ} {pixelOf : UInt8 → ℤ}

theorem getLastD_map (pixelOf : UInt8 → ℤ) (raw : List UInt8) (last : UInt8) :
    (raw.map pixelOf).getLastD (pixelOf last) = pixelOf (raw.getLastD last) := by
  rw [getLastD_eq_getLast?, getLast?_map, getLastD_eq_getLast?]
  cases raw.getLast? with
  | none => rfl
  | some b => rfl

/-- **A row that is parsed is drawn**, pixel by pixel, whatever the places between its bytes:
what is checked there is less. -/
theorem decodeRow_of_parse (pixelOf : UInt8 → ℤ) (hstride : 0 < stride)
    (h : parseRow nWidth srcp x last = some (values, rest)) (buffer : B) :
    decodeRow put stride pixelOf nWidth srcp x (pixelOf last) buffer =
      (drawPixels put (values.map pixelOf) x buffer).map (rest, ·) := by
  induction hn : srcp.length using Nat.strong_induction_on
    generalizing srcp x last values buffer with
  | h n ih =>
    rcases lt_or_ge x nWidth with hlt | hge
    · cases srcp with
      | nil =>
        rw [parseRow_nil hlt] at h
        nomatch h
      | cons control srcp =>
        rw [parseRow_cons hlt] at h
        split at h
        next => nomatch h
        next hfits =>
          split at h
          next => nomatch h
          next hraw =>
            obtain ⟨⟨values', rest'⟩, hrow, heq⟩ := map_eq_some_iff.1 h
            cases heq
            have hwithin : stride * x + ((segmentCounts control).2 +
                (segmentCounts control).1) ≤ stride * nWidth := by
              calc stride * x + ((segmentCounts control).2 + (segmentCounts control).1)
                  ≤ stride * x + stride *
                      ((segmentCounts control).2 + (segmentCounts control).1) :=
                    Nat.add_le_add_left (Nat.le_mul_of_pos_left _ hstride) _
                _ = stride * (x + ((segmentCounts control).2 + (segmentCounts control).1)) :=
                    (mul_add _ _ _).symm
                _ ≤ stride * nWidth := mul_le_mul_left stride (by omega)
            have hshorter : (srcp.drop (segmentCounts control).2).length < n := by
              rw [← hn, length_drop, length_cons]
              omega
            have hbytes : (srcp.take (segmentCounts control).2).length =
                (segmentCounts control).2 := by
              rw [length_take]
              omega
            rw [decodeRow, if_neg (by omega)]
            dsimp only
            rw [if_neg hwithin.not_gt, if_neg hraw, getLastD_map, map_append,
              map_append, map_replicate, append_assoc, drawPixels_append,
              length_map, hbytes, map_bind]
            refine bind_congr fun drawn _ => ?_
            rw [Function.comp_apply, drawPixels_append, length_replicate, map_bind]
            refine bind_congr fun drawn' _ => ?_
            exact ih _ hshorter hrow drawn' rfl
    · rw [parseRow_of_le hge] at h
      cases h
      exact decodeRow_of_le put hge _ _ _

/-- **A row that is not parsed is not drawn**, where its bytes follow each other. -/
theorem decodeRow_of_parse_none (h : parseRow nWidth srcp x last = none) (pixel : ℤ)
    (buffer : B) : decodeRow put 1 pixelOf nWidth srcp x pixel buffer = none := by
  induction hn : srcp.length using Nat.strong_induction_on
    generalizing srcp x last pixel buffer with
  | h n ih =>
    rcases lt_or_ge x nWidth with hlt | hge
    · cases srcp with
      | nil => rw [decodeRow, if_neg (by omega)]
      | cons control srcp =>
        rw [parseRow_cons hlt] at h
        rw [decodeRow, if_neg (by omega)]
        dsimp only
        split at h
        next hfits => rw [if_pos (by omega)]
        next hfits =>
          rw [if_neg (by omega)]
          split at h
          next hraw => rw [if_pos hraw]
          next hraw =>
            rw [if_neg hraw]
            have hrow := map_eq_none_iff.1 h
            have hshorter : (srcp.drop (segmentCounts control).2).length < n := by
              rw [← hn, length_drop, length_cons]
              omega
            refine bind_eq_none_iff.2 fun drawn _ => ?_
            exact bind_eq_none_iff.2 fun drawn' _ => ih _ hshorter hrow _ drawn' rfl
    · rw [parseRow_of_le hge] at h
      cases h

end

variable {stride : ℕ} {buffer : List UInt8}

variable {previousScanline : Option ℕ}

theorem gives_drawnRow {previous : Option (List UInt8)} (hvalues : values.length = nWidth)
    (hprevious : Option.Rel (RowAt stride nWidth buffer) previousScanline previous) :
    (drawnRow previous values).length = nWidth ∧
      Gives stride previousScanline 0 buffer (values.map (rawPixel previousScanline))
        (drawnRow previous values) := by
  cases hprevious with
  | none =>
    refine ⟨hvalues, length_map _, fun k b hb => ⟨0, b.toNat, rfl, ?_, ?_⟩⟩
    · rw [getElem?_map, show values[k]? = some b from hb]
      rfl
    · rw [Int.zero_add, clamp_toNat]
  | @some start row hat =>
    have hlength : (drawnRow (some row) values).length = nWidth := by
      rw [drawnRow, length_zipWith, hat.1, hvalues, min_self]
    refine ⟨hlength, by rw [length_map, hvalues, hlength], fun k b hb => ?_⟩
    have hk : k < nWidth := by
      rw [← hlength]
      exact (List.getElem?_eq_some_iff.1 hb).1
    obtain ⟨a, ha⟩ : ∃ a, row[k]? = some a :=
      ⟨_, getElem?_eq_getElem (by rw [hat.1]; exact hk)⟩
    obtain ⟨v, hv⟩ : ∃ v, values[k]? = some v :=
      ⟨_, getElem?_eq_getElem (by rw [hvalues]; exact hk)⟩
    refine ⟨a.toNat, deltaPixel v, ?_, ?_, ?_⟩
    · rw [aboveAt, zero_add, hat.2 k hk, ha]
      rfl
    · rw [getElem?_map, hv]
      rfl
    · rw [drawnRow, getElem?_zipWith, ha, hv] at hb
      exact some.inj hb

/-- **The rows that a code says are drawn**, from any row on, and nothing else is changed. -/
theorem decodeRows_of_parse (hstride : 0 < stride) {starts : List ℕ}
    {previous : Option (List UInt8)}
    (hparse : parsePlane nWidth starts.length srcp = some (rows, rest))
    (hprevious : Option.Rel (RowAt stride nWidth buffer) previousScanline previous)
    (hapart : (previousScanline.toList ++ starts).Pairwise (Apart stride nWidth))
    (hroom : ∀ start ∈ starts, ∀ k < nWidth, start + stride * k < buffer.length) :
    ∃ drawn, decodeRows stride nWidth starts previousScanline srcp buffer = some (rest, drawn) ∧
      PlaneDrawn stride starts nWidth (drawnRows previous rows) buffer drawn := by
  induction starts generalizing srcp rows previousScanline previous buffer with
  | nil =>
    cases hparse
    exact ⟨buffer, rfl, rfl, List.Forall₂.nil, fun _ _ => rfl⟩
  | cons start starts ih =>
    obtain ⟨⟨values, srcp'⟩, hrow, hrows⟩ := bind_eq_some_iff.1 hparse
    obtain ⟨⟨others, rest'⟩, hothers, heq⟩ := map_eq_some_iff.1 hrows
    cases heq
    obtain ⟨hvalues, -⟩ := parseRow_eq_some (zero_le _) hrow
    rw [Nat.sub_zero] at hvalues
    obtain ⟨hlength, hgives⟩ := gives_drawnRow hvalues hprevious
    generalize hdrawnRow : drawnRow previous values = row at hlength hgives
    have hzero : rawPixel previousScanline 0 = 0 := by
      cases previousScanline with
      | none => rfl
      | some previous => rfl
    obtain ⟨one, hdraw, hat, hbehind, hplaces, hall⟩ :=
      drawPixels_first hstride hgives hlength hapart hroom
    obtain ⟨drawn, hdecode, hdrawn⟩ := ih hothers hat hbehind hplaces
    refine ⟨drawn, ?_, ?_⟩
    · have hdecodeRow := decodeRow_of_parse (putPixel stride previousScanline start)
        (rawPixel previousScanline) hstride hrow buffer
      rw [hzero, hdraw] at hdecodeRow
      rw [decodeRows, hdecodeRow]
      exact hdecode
    · rw [drawnRows, hdrawnRow]
      exact hall _ drawn hdrawn

/-- A plane that is not parsed is not drawn, where its bytes follow each other. -/
theorem decodeRows_of_parse_none {starts : List ℕ}
    (hparse : parsePlane nWidth starts.length srcp = none) (buffer : List UInt8) :
    decodeRows 1 nWidth starts previousScanline srcp buffer = none := by
  induction starts generalizing srcp previousScanline buffer with
  | nil => nomatch hparse
  | cons start starts ih =>
    have hzero : rawPixel previousScanline 0 = 0 := by
      cases previousScanline with
      | none => rfl
      | some previous => rfl
    cases hrow : parseRow nWidth srcp 0 0 with
    | none =>
      rw [decodeRows, decodeRow_of_parse_none _ hrow]
      rfl
    | some row =>
      obtain ⟨values, rest⟩ := row
      rw [length_cons, parsePlane, hrow, Option.bind_some, map_eq_none_iff] at hparse
      have hdecodeRow := decodeRow_of_parse (putPixel 1 previousScanline start)
        (rawPixel previousScanline) one_pos hrow buffer
      rw [hzero] at hdecodeRow
      rw [decodeRows, hdecodeRow]
      refine bind_eq_none_iff.2 fun decoded hdecoded => ?_
      obtain ⟨drawn, -, rfl⟩ := map_eq_some_iff.1 hdecoded
      exact ih hparse drawn

/-! ## The channel of an image -/

/-- The rows of a channel of `nWidth` pixels lie in the destination, one behind the other. -/
structure ChannelFits (pDstData : List UInt8) (nDstStep nXDst nYDst nWidth nHeight nChannel : ℕ) :
    Prop where
  channel_lt : nChannel < 4
  step_le : nDstStep ≤ 2 ^ 31 - 1
  row_le : 4 * (nXDst + nWidth) ≤ nDstStep
  rows_le : (nYDst + nHeight) * nDstStep ≤ pDstData.length

/-- The place of a pixel of the channel. -/
def channelPlace (nDstStep nXDst nYDst nChannel y k : ℕ) : ℕ :=
  (nYDst + y) * nDstStep + 4 * nXDst + nChannel + 4 * k

variable {pDstData : List UInt8} {nDstStep nXDst nYDst nHeight nChannel : ℕ}

/-- A pixel lies in its row. -/
theorem ChannelFits.place_lt
    (h : ChannelFits pDstData nDstStep nXDst nYDst nWidth nHeight nChannel) {y k : ℕ}
    (hk : k < nWidth) :
    channelPlace nDstStep nXDst nYDst nChannel y k < (nYDst + (y + 1)) * nDstStep := by
  have hchannel := h.channel_lt
  have hrow := h.row_le
  have hstep : (nYDst + (y + 1)) * nDstStep = (nYDst + y) * nDstStep + nDstStep := by ring
  rw [channelPlace, hstep]
  omega

theorem ChannelFits.apart
    (h : ChannelFits pDstData nDstStep nXDst nYDst nWidth nHeight nChannel) {y y' : ℕ}
    (hne : y ≠ y') {j k : ℕ} (hj : j < nWidth) (hk : k < nWidth) :
    channelPlace nDstStep nXDst nYDst nChannel y j ≠
      channelPlace nDstStep nXDst nYDst nChannel y' k := by
  -- the pixel of the upper row lies in front of the lower row
  have hfront : ∀ {y y' j k : ℕ}, y < y' → j < nWidth →
      channelPlace nDstStep nXDst nYDst nChannel y j <
        channelPlace nDstStep nXDst nYDst nChannel y' k := by
    intro y y' j k hlt hj
    calc channelPlace nDstStep nXDst nYDst nChannel y j
        < (nYDst + (y + 1)) * nDstStep := h.place_lt hj
      _ ≤ (nYDst + y') * nDstStep := mul_le_mul_right _ (by omega)
      _ ≤ channelPlace nDstStep nXDst nYDst nChannel y' k := by
          rw [channelPlace]
          omega
  rcases lt_or_gt_of_ne hne with hlt | hgt
  · exact (hfront hlt hj).ne
  · exact (hfront hgt hk).ne'

/-- The row of the destination for a row of the code. -/
def targetRow (nHeight : ℕ) (vFlip : Bool) (i : ℕ) : ℕ := if vFlip then nHeight - 1 - i else i

theorem length_channelStarts (vFlip : Bool) :
    (channelStarts nDstStep nXDst nYDst nHeight nChannel vFlip).length = nHeight := by
  cases vFlip
  all_goals simp [channelStarts]

theorem getElem_channelStarts (vFlip : Bool) {i : ℕ}
    (hi : i < (channelStarts nDstStep nXDst nYDst nHeight nChannel vFlip).length) :
    (channelStarts nDstStep nXDst nYDst nHeight nChannel vFlip)[i] =
      channelPlace nDstStep nXDst nYDst nChannel (targetRow nHeight vFlip i) 0 := by
  cases vFlip
  all_goals simp [channelStarts, channelPlace, targetRow]

theorem mem_channelStarts {vFlip : Bool} {start : ℕ}
    (h : start ∈ channelStarts nDstStep nXDst nYDst nHeight nChannel vFlip) :
    ∃ y < nHeight, start = channelPlace nDstStep nXDst nYDst nChannel y 0 := by
  obtain ⟨y, hy, rfl⟩ := mem_map.1 h
  refine ⟨y, ?_, rfl⟩
  cases vFlip
  · exact mem_range.1 hy
  · exact mem_range.1 (mem_reverse.1 hy)

theorem place_add (y k : ℕ) : channelPlace nDstStep nXDst nYDst nChannel y 0 + 4 * k =
    channelPlace nDstStep nXDst nYDst nChannel y k := rfl

theorem ChannelFits.pairwise_apart
    (h : ChannelFits pDstData nDstStep nXDst nYDst nWidth nHeight nChannel) (vFlip : Bool) :
    (channelStarts nDstStep nXDst nYDst nHeight nChannel vFlip).Pairwise (Apart 4 nWidth) := by
  have hnodup : (if vFlip then (range nHeight).reverse else range nHeight).Nodup := by
    split
    · exact nodup_reverse.2 nodup_range
    · exact nodup_range
  exact pairwise_map.2 (hnodup.imp fun hne j k hj hk => h.apart hne hj hk)

theorem PlaneDrawn.pixel_eq {stride : ℕ} {starts : List ℕ} {buffer drawn : List UInt8}
    (h : PlaneDrawn stride starts nWidth rows buffer drawn) {i k : ℕ} (hi : i < starts.length)
    (hk : k < nWidth) :
    drawn[starts[i] + stride * k]? = rows[i]?.bind (·[k]?) := by
  obtain ⟨hlength, hat⟩ := forall₂_iff_get.1 h.rows_at
  have hrows : i < rows.length := hlength ▸ hi
  have hrow := (hat i hi hrows).2 k hk
  rw [getElem?_eq_getElem hrows, Option.bind_some]
  exact hrow

/-! ## The three walks -/

/-- An answer that is no error is the number of bytes consumed. -/
theorem bmod_eq_iff {used n : ℕ} (hused : used < 2 ^ 32) :
    ((used : ℤ).bmod (2 ^ 32) = n ↔ used = n ∧ used ≤ 2 ^ 31 - 1) := by
  rw [Int.bmod_def]
  omega

/-- `planar_decompress_plane_rle_only` draws what is parsed, and nothing else. -/
theorem decompressPlaneRleOnly_of_parse {plane : List UInt8} (hwidth : nWidth ≤ 2 ^ 31 - 1)
    (hheight : nHeight ≤ 2 ^ 31 - 1) (hplane : nWidth * nHeight ≤ plane.length)
    (hparse : parsePlane nWidth nHeight pSrcData = some (rows, rest)) :
    ∃ drawn, decompressPlaneRleOnly pSrcData plane nWidth nHeight =
        some (((pSrcData.length - rest.length : ℕ) : ℤ).bmod (2 ^ 32), rest, drawn) ∧
      PlaneDrawn 1 ((range nHeight).map (· * nWidth)) nWidth (drawnRows none rows)
        plane drawn := by
  have hlength : ((range nHeight).map (· * nWidth)).length = nHeight := by
    rw [length_map, length_range]
  rw [← hlength] at hparse
  obtain ⟨drawn, hdecode, hdrawn⟩ := decodeRows_of_parse one_pos hparse Option.Rel.none
    (apart_scanlines nWidth nHeight)
    fun start hstart k hk => (Planar.place_lt hstart hk).trans_le hplane
  refine ⟨drawn, ?_, hdrawn⟩
  rw [decompressPlaneRleOnly, if_neg (by omega), hdecode]
  rfl

theorem decompressPlaneRleOnly_of_parse_none (hparse : parsePlane nWidth nHeight pSrcData = none)
    (plane : List UInt8) :
    decompressPlaneRleOnly pSrcData plane nWidth nHeight = none := by
  have hlength : ((range nHeight).map (· * nWidth)).length = nHeight := by
    rw [length_map, length_range]
  rw [← hlength] at hparse
  rw [decompressPlaneRleOnly]
  split
  · rfl
  · rw [decodeRows_of_parse_none hparse]
    rfl

/-- `planar_decompress_plane_rle` draws what is parsed, and nothing else. -/
theorem decompressPlaneRle_of_parse (hwidth : nWidth ≤ 2 ^ 31 - 1) (hheight : nHeight ≤ 2 ^ 31 - 1)
    (hfits : ChannelFits pDstData nDstStep nXDst nYDst nWidth nHeight nChannel) (vFlip : Bool)
    (hparse : parsePlane nWidth nHeight pSrcData = some (rows, rest)) :
    ∃ out, decompressPlaneRle pSrcData pDstData nDstStep nXDst nYDst nWidth nHeight nChannel
        vFlip = some (((pSrcData.length - rest.length : ℕ) : ℤ).bmod (2 ^ 32), out) ∧
      PlaneDrawn 4 (channelStarts nDstStep nXDst nYDst nHeight nChannel vFlip) nWidth
        (drawnRows none rows) pDstData out := by
  have hstep := hfits.step_le
  have hlength : (channelStarts nDstStep nXDst nYDst nHeight nChannel vFlip).length = nHeight :=
    length_channelStarts vFlip
  rw [← hlength] at hparse
  have hroom : ∀ start ∈ channelStarts nDstStep nXDst nYDst nHeight nChannel vFlip, ∀ k < nWidth,
      start + 4 * k < pDstData.length := by
    intro start hstart k hk
    obtain ⟨y, hy, rfl⟩ := mem_channelStarts hstart
    calc channelPlace nDstStep nXDst nYDst nChannel y k
        < (nYDst + (y + 1)) * nDstStep := hfits.place_lt hk
      _ ≤ (nYDst + nHeight) * nDstStep := mul_le_mul_right _ (by omega)
      _ ≤ pDstData.length := hfits.rows_le
  obtain ⟨out, hdecode, hout⟩ := decodeRows_of_parse (by decide : 0 < 4) hparse Option.Rel.none
    (hfits.pairwise_apart vFlip) hroom
  refine ⟨out, ?_, hout⟩
  rw [decompressPlaneRle, if_neg (by omega), hdecode]
  rfl

/-- **The walks agree** where a width and a height are signed numbers, and the counter of the
bytes used does not wrap. -/
theorem walkers_agree {pSrcData : List UInt8} (hsrc : pSrcData.length ≤ 2 ^ 32 - 16)
    (hwidth : nWidth ≤ 2 ^ 31 - 1) (hheight : nHeight ≤ 2 ^ 31 - 1) (n : ℕ) (plane : List UInt8)
    (hplane : nWidth * nHeight ≤ plane.length) :
    (skipPlaneRle pSrcData nWidth nHeight = some (n : ℤ) ↔
      ∃ rest drawn, decompressPlaneRleOnly pSrcData plane nWidth nHeight =
        some ((n : ℤ), rest, drawn)) ∧
      (skipPlaneRle pSrcData nWidth nHeight = some (n : ℤ) →
        ∀ {pDstData nDstStep nXDst nYDst nChannel} (vFlip : Bool),
          ChannelFits pDstData nDstStep nXDst nYDst nWidth nHeight nChannel →
          ∃ drawn out,
            decompressPlaneRleOnly pSrcData plane nWidth nHeight =
              some ((n : ℤ), pSrcData.drop n, drawn) ∧
            decompressPlaneRle (pSrcData.take n) pDstData nDstStep nXDst nYDst nWidth nHeight
              nChannel vFlip = some ((n : ℤ), out) ∧
            (∀ i < nHeight, ∀ k < nWidth,
              out[channelPlace nDstStep nXDst nYDst nChannel (targetRow nHeight vFlip i) k]? =
                drawn[i * nWidth + k]?) ∧
            out.length = pDstData.length ∧
            ∀ j, (∀ y < nHeight, ∀ k < nWidth,
              j ≠ channelPlace nDstStep nXDst nYDst nChannel y k) → out[j]? = pDstData[j]?) := by
  have hskip := skipRows_eq hsrc hwidth nHeight (zero_le _)
  rw [drop_zero] at hskip
  cases hparse : parsePlane nWidth nHeight pSrcData with
  | none =>
    have hrefused : skipPlaneRle pSrcData nWidth nHeight = some (-1) := by
      rw [skipPlaneRle, hskip, hparse]
      rfl
    rw [hrefused, decompressPlaneRleOnly_of_parse_none hparse]
    have hne : ¬some (-1 : ℤ) = some (n : ℤ) := fun h => by
      have heq := some.inj h
      omega
    exact ⟨⟨fun h => absurd h hne, fun ⟨_, _, h⟩ => nomatch h⟩, fun h => absurd h hne⟩
  | some parsed =>
    obtain ⟨rows, rest⟩ := parsed
    obtain ⟨front, rfl, hmore⟩ := parsePlane_eq_some hparse
    obtain ⟨drawn, hdraw, hdrawn⟩ :=
      decompressPlaneRleOnly_of_parse hwidth hheight hplane hparse
    have hused : (front ++ rest).length - rest.length = front.length := by
      rw [length_append, Nat.add_sub_cancel]
    have hsmall : front.length < 2 ^ 32 := by
      rw [length_append] at hsrc
      omega
    have hanswer : skipPlaneRle (front ++ rest) nWidth nHeight =
        some (if front.length > 2 ^ 31 - 1 then -1 else (front.length : ℤ)) := by
      rw [skipPlaneRle, hskip, hparse, Option.map_some, Option.map_some, hused]
    rw [hused] at hdraw
    have hiff : skipPlaneRle (front ++ rest) nWidth nHeight = some (n : ℤ) ↔
        front.length = n ∧ front.length ≤ 2 ^ 31 - 1 := by
      rw [hanswer, some.injEq]
      split
      · omega
      · omega
    refine ⟨?_, fun hn {pDstData nDstStep nXDst nYDst nChannel} vFlip hfits => ?_⟩
    · rw [hiff, ← bmod_eq_iff hsmall, hdraw]
      constructor
      · intro h
        exact ⟨rest, drawn, congrArg (fun answer => some (answer, rest, drawn)) h⟩
      · rintro ⟨_, _, h⟩
        exact (Prod.mk.inj (some.inj h)).1
    · obtain ⟨rfl, hle⟩ := hiff.1 hn
      have hfront := hmore []
      rw [append_nil] at hfront
      obtain ⟨out, hdecode, hout⟩ :=
        decompressPlaneRle_of_parse hwidth hheight hfits vFlip hfront
      rw [length_nil, Nat.sub_zero] at hdecode
      rw [(bmod_eq_iff hsmall).2 ⟨rfl, hle⟩] at hdraw hdecode
      refine ⟨drawn, out, ?_, ?_, fun i hi k hk => ?_, hout.length_eq, fun j hj => ?_⟩
      · rw [drop_left]
        exact hdraw
      · rw [take_left]
        exact hdecode
      · have hplace : i < (channelStarts nDstStep nXDst nYDst nHeight nChannel vFlip).length := by
          rw [length_channelStarts]
          exact hi
        have hscanline : i < ((range nHeight).map (· * nWidth)).length := by
          rw [length_map, length_range]
          exact hi
        have hchannel := hout.pixel_eq hplace hk
        have hpixel := hdrawn.pixel_eq hscanline hk
        rw [getElem_channelStarts, place_add] at hchannel
        rw [getElem_map, getElem_range, one_mul] at hpixel
        rw [hchannel, hpixel]
      · refine hout.kept j fun start hstart k hk => ?_
        obtain ⟨y, hy, rfl⟩ := mem_channelStarts hstart
        exact hj y hy k hk

/-- Two raw bytes are drawn in the second of four rows. -/
theorem walkers_agree_raw : skipPlaneRle [0x20, 5, 6, 7] 2 1 = some 3 ∧
    ∃ drawn out, decompressPlaneRleOnly [0x20, 5, 6, 7] [0, 0] 2 1 = some (3, [7], drawn) ∧
      decompressPlaneRle [0x20, 5, 6] (replicate 32 0) 8 0 1 2 1 3 true = some (3, out) := by
  have hskip : skipPlaneRle [0x20, 5, 6, 7] 2 1 = some 3 := by decide +kernel
  have hfits : ChannelFits (replicate 32 0) 8 0 1 2 1 3 :=
    ⟨by decide, by decide, by decide, by decide⟩
  obtain ⟨drawn, out, hdraw, hdecode, -⟩ :=
    (walkers_agree (by decide) (by decide) (by decide) 3 [0, 0] (by decide)).2 hskip true hfits
  exact ⟨hskip, drawn, out, hdraw, hdecode⟩

/-! ## Where the walks do not agree -/

/-- Rows of 15 raw bytes each. -/
theorem parsePlane_raw (nHeight L : ℕ) (h : L < 16 * nHeight) :
    parsePlane 15 nHeight (replicate L 0xF0) = none := by
  have hcounts : segmentCounts 0xF0 = (0, 15) := rfl
  induction nHeight generalizing L with
  | zero => nomatch h
  | succ nHeight ih =>
    rw [parsePlane]
    cases L with
    | zero =>
      rw [replicate_zero, parseRow_nil (by decide)]
      rfl
    | succ L =>
      rw [replicate_succ, parseRow_cons (by decide), hcounts, if_neg (by decide)]
      by_cases hshort : 15 > L
      · rw [if_pos (by rwa [length_replicate])]
        rfl
      · rw [if_neg (by rwa [length_replicate]), parseRow_of_le (by decide),
          drop_replicate, Option.map_some, Option.bind_some, ih _ (by omega)]
        rfl

theorem skipRows_raw {L : ℕ} (hL : L = 2 ^ 32 - 1) (nHeight : ℕ) (hheight : nHeight < 2 ^ 28) :
    skipRows (replicate L 0xF0) 15 (nHeight + 1) (2 ^ 32 - 16 * (nHeight + 1)) =
      some (some 0) := by
  have hcounts : segmentCounts 0xF0 = (0, 15) := rfl
  have hrow : ∀ used < L, skipRow (replicate L 0xF0) 15 (2 ^ 64) used 0 =
      some (if (used + 16) % 2 ^ 32 > L then none else some ((used + 16) % 2 ^ 32)) := by
    intro used hused
    have hbyte : (replicate L (0xF0 : UInt8)).getD used 0 = 0xF0 := by
      rw [getD_eq_getElem _ _ (by rwa [length_replicate]), getElem_replicate]
    have hsum : ((used + 1) % 2 ^ 32 + 15) % 2 ^ 32 = (used + 16) % 2 ^ 32 := by omega
    rw [show 2 ^ 64 = 2 ^ 64 - 1 + 1 from rfl, skipRow, if_pos (by decide), hbyte, hcounts,
      length_replicate, if_neg (by omega)]
    dsimp only
    rw [hsum, if_neg (by decide)]
    split
    next => rfl
    next =>
      rw [show 2 ^ 64 - 1 = 2 ^ 64 - 2 + 1 from rfl, skipRow, if_neg (by decide)]
  induction nHeight with
  | zero =>
    rw [skipRows, hrow _ (by omega), if_neg (by omega)]
    rfl
  | succ nHeight ih =>
    have hnext : (2 ^ 32 - 16 * (nHeight + 1 + 1) + 16) % 2 ^ 32 =
        2 ^ 32 - 16 * (nHeight + 1) := by omega
    rw [skipRows, hrow _ (by omega), hnext, if_neg (by omega)]
    exact ih (by omega)

/-- **The walks do not always agree**: a width above that of a signed number is skipped, but
asserted against when it is drawn; and a counter of 32 bits wraps in front of the end of a
source that is long enough, so that a code that goes beyond it is skipped. -/
theorem walkers_disagree :
    (skipPlaneRle [] (2 ^ 31) 0 = some 0 ∧
      ∀ plane, decompressPlaneRleOnly [] plane (2 ^ 31) 0 = none) ∧
    skipPlaneRle (replicate (2 ^ 32 - 1) 0xF0) 15 (2 ^ 28) = some 0 ∧
      ∀ plane, decompressPlaneRleOnly (replicate (2 ^ 32 - 1) 0xF0) plane 15 (2 ^ 28) =
        none := by
  refine ⟨⟨rfl, fun plane => if_pos (Or.inr (by decide))⟩, ?_, fun plane => ?_⟩
  · generalize hL : 2 ^ 32 - 1 = L
    have hskip := skipRows_raw hL.symm (2 ^ 28 - 1) (by decide)
    have hheight : 2 ^ 28 = 2 ^ 28 - 1 + 1 := by decide
    have hused : 2 ^ 32 - 16 * (2 ^ 28 - 1 + 1) = 0 := by decide
    rw [hused] at hskip
    rw [skipPlaneRle, hheight, hskip]
    rfl
  · exact decompressPlaneRleOnly_of_parse_none (parsePlane_raw _ _ (by decide)) plane

end Planar
