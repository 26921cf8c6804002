/-
# A session of NCRUSH

The compressor and the decompressor stay in step (`Synced`): the position in the history, the bytes
below it and the offsets used last are the same on both sides, whatever way the packets went.  What
the compressor has written of a packet takes the decompressor to where the compressor is
(`Coder.Tracks`), and so every packet comes out as it went in: `session_received`.
-/
import XyDeskRemote.NcrushMatches
import XyDeskRemote.NcrushReading

open LittleEndian List Nat

namespace Ncrush

open LsbBits
open MatchCopy (AgreeBelow)

/-! ## The bytes written -/

/-- A writer has written some fields. -/
structure Writer.Wrote (w : Writer) (fields : List (ℕ × ℕ)) : Prop where
  written : Written w.dst w.accumulator w.offset fields
  low : w.offset < 16
  even : 2 ∣ w.dst.length

namespace Writer

variable {w : Writer} {fields : List (ℕ × ℕ)}

theorem wrote_start : start.Wrote [] := ⟨written_start, by decide, by decide⟩

theorem Wrote.writeBits (h : w.Wrote fields) {field : ℕ × ℕ} (hfield : Fits field) :
    (w.writeBits field).Wrote (fields ++ [field]) ∧
      (w.writeBits field).dst.length ≤ w.dst.length + 2 := by
  have hput := h.written.put hfield.1
  have hlow := h.low
  have hsixteen := hfield.2
  have hlt : w.accumulator ||| field.1 <<< w.offset < 2 ^ 32 :=
    hput.lt.trans_le (Nat.pow_le_pow_right (by decide) (by omega))
  rw [Writer.writeBits, mod_eq_of_lt hlt]
  split
  next hfull =>
    refine ⟨⟨hput.emit (k := 2) hfull, by dsimp only; omega, ?_⟩, ?_⟩
    · rw [length_append, length_encode]
      exact Nat.dvd_add h.even (by decide)
    · rw [length_append, length_encode]
  next hroom => exact ⟨⟨hput, by dsimp only; omega, h.even⟩, le_add_right _ _⟩

theorem Wrote.foldl (h : w.Wrote fields) {more : List (ℕ × ℕ)} (hmore : ∀ f ∈ more, Fits f) :
    (more.foldl Writer.writeBits w).Wrote (fields ++ more) := by
  induction more generalizing w fields with
  | nil => rwa [append_nil]
  | cons f more ih =>
    obtain ⟨hf, hrest⟩ := forall_mem_cons.1 hmore
    have hwritten := ih (h.writeBits hf).1 hrest
    rwa [append_assoc] at hwritten

/-- **The finished bytes**, as the decompressor begins to read them. -/
theorem Wrote.finish (h : w.Wrote fields) (hsize : 16 ≤ size fields) :
    4 ≤ w.finish.length ∧ size fields ≤ 8 * w.finish.length ∧
      BitReader.Holds { src := w.finish.drop 4, nbits := 32,
                        bits := decode (w.finish.take 4) } fields := by
  have hbits := h.written.bits
  have hlow := h.low
  have heven := h.even
  have hlength : w.finish.length = w.dst.length + 2 := by
    rw [Writer.finish, length_append, length_encode]
  have hstart := Remaining.start (h.written.finish (k := 2) (by omega))
    (by rw [← Writer.finish]; omega)
  rw [← Writer.finish] at hstart
  have hfour := hstart.fill (k := 4) (by omega)
  rw [zero_add, shiftLeft_zero, zero_add] at hfour
  have hnonneg : (0 : ℤ) ≤ 32 := by decide
  have hfull : (16 : ℤ) ≤ 32 := by decide
  refine ⟨by omega, by omega, hnonneg, le_refl (32 : ℤ), hfour, .inl hfull, ?_⟩
  rw [length_drop]
  omega

end Writer

/-! ## A packet -/

/-- A context with a packet at the end of its history. -/
structure Taken (c : Context) (src : List UInt8) : Prop where
  ptr : c.historyPtr = c.historyOffset + src.length
  room : c.historyPtr < 65529
  bytes : ∀ (i : ℕ) (hi : i < src.length), c.historyBuffer (c.historyOffset + i) = src[i]
  linked : c.IsLinked c.historyPtr

/-- **How far the compressor is**: what it has written takes the decompressor to the same position,
with the same bytes below it and the same offsets.  A round is at most sixteen bytes of the packet
and at least five bits of the output. -/
structure Coder.Tracks (c : Context) (src : List UInt8) (d : Decoder) (s : Coder)
    (fields : List (ℕ × ℕ)) (rounds : ℕ) (d' : Decoder) : Prop where
  context : s.context = { c with offsetCache := d'.cache }
  start : c.historyOffset ≤ s.historyPtr
  inside : s.historyPtr ≤ c.historyPtr
  rest : s.src = src.drop (s.historyPtr - c.historyOffset)
  wrote : s.writer.Wrote fields
  decodes : Decodes fields rounds d d'
  ptr : d'.ptr = s.historyPtr
  agree : AgreeBelow s.historyPtr d'.buffer c.historyBuffer
  bytes : s.historyPtr ≤ c.historyOffset + 16 * rounds
  bits : 5 * rounds ≤ size fields

namespace Coder

variable {c : Context} {src : List UInt8} {d d' : Decoder} {s : Coder}
  {fields : List (ℕ × ℕ)} {rounds : ℕ}

/-- The compressor goes on, or gives the packet up. -/
def Proceeds (c : Context) (src : List UInt8) (d : Decoder) (s : Coder)
    (result : Except Exit Coder) : Prop :=
  result = .error .flush ∨
    ∃ s' fields rounds d', result = .ok s' ∧ s'.Tracks c src d fields rounds d' ∧
      s'.src.length < s.src.length

theorem Tracks.length_src (htaken : Taken c src) (h : s.Tracks c src d fields rounds d') :
    s.src.length = c.historyPtr - s.historyPtr := by
  have hptr := htaken.ptr
  have hstart := h.start
  rw [h.rest, length_drop]
  omega

/-- **A literal.** -/
theorem literal_proceeds (htaken : Taken c src) (h : s.Tracks c src d fields rounds d')
    (hsrc : 0 < s.src.length) (dstEnd : ℕ) : Proceeds c src d s (s.literal dstEnd) := by
  have hlength := h.length_src htaken
  have hroom := htaken.room
  have hptr := htaken.ptr
  have hstart := h.start
  have hinside := h.inside
  have hbytes := h.bytes
  have hbits := h.bits
  cases hs : s.src with
  | nil =>
    rw [hs] at hsrc
    exact absurd hsrc (lt_irrefl 0)
  | cons b rest =>
    rw [literal, hs]
    dsimp only
    split
    · exact .inl rfl
    · have hb : b.toNat < 2 ^ 8 := b.toNat_lt
      have hdrop := h.rest
      rw [hs, drop_eq_getElem_cons (by omega)] at hdrop
      obtain ⟨hfirst, hrest⟩ := cons_eq_cons.1 hdrop
      have hbyte := htaken.bytes (s.historyPtr - c.historyOffset) (by omega)
      rw [Nat.add_sub_cancel' hstart, ← hfirst] at hbyte
      have hsize := (lecField_bounds (show b.toNat < 294 by omega)).2.1
      have hliteral := h.decodes.append (decodes_literal b (by rw [h.ptr]; omega))
      rw [lecFieldWithin_of_lt (by omega) (by decide)]
      refine .inr ⟨_, _, _,
        { d' with buffer := Function.update d'.buffer d'.ptr b, ptr := d'.ptr + 1 }, rfl,
        ⟨h.context, ?_, ?_, ?_, (h.wrote.writeBits (fits_lecField (by omega))).1, hliteral, ?_, ?_,
          ?_, ?_⟩, ?_⟩
      · dsimp only
        omega
      · dsimp only
        omega
      · dsimp only
        rw [hrest, Nat.sub_add_comm hstart]
      · dsimp only
        rw [h.ptr]
      · dsimp only
        rw [h.ptr]
        exact h.agree.update hbyte.symm
      · dsimp only
        omega
      · rw [size_append, size_cons, size_nil]
        omega
      · rw [hs]
        exact lt_succ_self _

/-- A match that the compressor may write at its position. -/
structure Usable (c : Context) (position m copyOffset : ℕ) : Prop where
  two : 2 ≤ m
  sixteen : m ≤ 16
  inside : position + m ≤ c.historyPtr
  pos : 0 < copyOffset
  le : copyOffset ≤ position
  same : ∀ i < m, c.historyBuffer (position + i) = c.historyBuffer (position - copyOffset + i)

/-- **A match.** -/
theorem copy_proceeds (htaken : Taken c src) (h : s.Tracks c src d fields rounds d')
    {m copyOffset : ℕ} (hm : Usable c s.historyPtr m copyOffset) (dstEnd : ℕ) :
    Proceeds c src d s (s.copy dstEnd m copyOffset) := by
  have hroom := htaken.room
  have hptr := htaken.ptr
  have hstart := h.start
  have hin := hm.inside
  have hm2 := hm.two
  have hm16 := hm.sixteen
  have hbytes := h.bytes
  have hbits := h.bits
  obtain ⟨fs, more, d₁, hfields, hmore, hfits, hsize, hdecodes, hptr₁, hcache, hagree⟩ :=
    decodes_match (d := d') hm.pos (h.ptr ▸ hm.le) hm.two hm.sixteen (by rw [h.ptr]; omega)
  have hpair : offsetFields s.context.offsetCache copyOffset = (d₁.cache, some fs) := by
    rw [h.context]
    exact Prod.ext hcache.symm hfields
  rw [copy]
  split
  · exact .inl rfl
  · simp only [hpair, hmore]
    refine .inr ⟨_, _, _, d₁, rfl, ⟨?_, ?_, ?_, ?_, h.wrote.foldl hfits, h.decodes.append hdecodes,
      ?_, ?_, ?_, ?_⟩, ?_⟩
    · rw [h.context]
    · dsimp only
      omega
    · dsimp only
      omega
    · dsimp only
      rw [h.rest, drop_drop, Nat.sub_add_comm hstart]
    · rw [hptr₁, h.ptr]
    · rw [h.ptr] at hagree
      exact hagree h.agree hm.same
    · dsimp only
      omega
    · rw [size_append]
      omega
    · have hlength := h.length_src htaken
      rw [length_drop]
      omega

/-- The compressor finds no match, or one that it may write. -/
theorem choose_usable (htaken : Taken c src) (h : s.Tracks c src d fields rounds d') :
    ∃ m copyOffset, s.choose = .ok (s.context, m, copyOffset) ∧
      (m ≠ 0 → Usable c s.historyPtr m copyOffset) := by
  have hroom := htaken.room
  have hinside := h.inside
  have hlinked : s.context.IsLinked s.context.historyPtr := by
    rw [h.context]
    exact htaken.linked
  by_cases hnone : s.context.matchTable s.historyPtr = 0
  · exact ⟨0, 0, by rw [choose, if_pos hnone]; rfl, fun h => absurd rfl h⟩
  · obtain ⟨⟨m, offset⟩, hfound, hmatches⟩ := findBestMatch_matches hlinked hnone
    have hbefore := hmatches.before
    dsimp only at hbefore
    have hoffset : (s.historyPtr + 65536 - offset) % 65536 = s.historyPtr - offset := by omega
    refine ⟨_, _, by rw [choose, if_neg hnone]; simp only [hfound, hoffset]; rfl, fun hm => ?_⟩
    split_ifs at hm ⊢ with hfar
    · exact absurd rfl hm
    · rw [h.context] at hmatches
      refine ⟨hmatches.two, hmatches.sixteen, hmatches.inside, by omega, by omega, ?_⟩
      rw [Nat.sub_sub_self (Nat.le_of_lt hbefore)]
      exact hmatches.same

/-- **A round of the compressor.** -/
theorem round_proceeds (htaken : Taken c src) (h : s.Tracks c src d fields rounds d')
    (hsrc : 0 < s.src.length) (dstEnd : ℕ) : Proceeds c src d s (s.round dstEnd) := by
  have hroom := htaken.room
  have hinside := h.inside
  have hend : s.context.historyPtr = c.historyPtr := by rw [h.context]
  obtain ⟨m, copyOffset, hchoose, husable⟩ := choose_usable htaken h
  -- the position stays in the history, so that the check behind both branches passes
  have hchecked : ∀ {result}, Proceeds c src d s result → Proceeds c src d s (do
      let s ← result
      if s.historyPtr ≥ 65536 then throw (.failed s.context)
      return s) := by
    rintro result (rfl | ⟨s', fields', rounds', d₁, rfl, htracks, hless⟩)
    · exact .inl rfl
    · have hinside' := htracks.inside
      refine .inr ⟨s', fields', rounds', d₁, ?_, htracks, hless⟩
      simp only [bind, Except.bind]
      rw [if_neg (by omega)]
      rfl
  rw [round, if_neg (by omega), hchoose]
  simp only [bind, Except.bind]
  split
  next => exact hchecked (literal_proceeds htaken h hsrc dstEnd)
  next hm => exact hchecked (copy_proceeds htaken h (husable hm) dstEnd)

/-- **The compressor's loops**, by steps that go on or give the packet up. -/
theorem loop_proceeds (least : ℕ) (step : Coder → Except Exit Coder) (fuel : ℕ)
    (hstep : ∀ {s fields rounds d'}, s.Tracks c src d fields rounds d' → least < s.src.length →
      Proceeds c src d s (step s))
    (h : s.Tracks c src d fields rounds d') (hfuel : s.src.length ≤ fuel) :
    loop least step fuel s = .error .flush ∨
      ∃ s' fields rounds d', loop least step fuel s = .ok s' ∧
        s'.Tracks c src d fields rounds d' ∧ s'.src.length ≤ least := by
  induction fuel generalizing s fields rounds d' with
  | zero => exact .inr ⟨s, _, _, _, rfl, h, by omega⟩
  | succ fuel ih =>
    rw [loop]
    split
    next hmore =>
      obtain hflush | ⟨s', fields', rounds', d₁, hok, htracks, hless⟩ := hstep h hmore
      · left
        rw [hflush]
        rfl
      · rw [hok]
        exact ih htracks (by omega)
    next hdone => exact .inr ⟨s, _, _, _, rfl, h, by omega⟩

/-- **The end of a packet**: it is given up, or what is written takes the decompressor to its
end. -/
theorem finish_decodes (htaken : Taken c src) (h : s.Tracks c src d fields rounds d')
    (hsrc : s.src.length ≤ 0) (hlength : 51 ≤ src.length) (dstEnd : ℕ)
    (hend : dstEnd < src.length) :
    s.finish dstEnd src.length = .error .flush ∨
      ∃ bytes, s.finish dstEnd src.length =
          .ok ({ c with offsetCache := d'.cache, historyOffset := c.historyPtr }, bytes) ∧
        4 ≤ bytes.length ∧
        decodeLoop (8 * bytes.length + 1)
          { src := bytes.drop 4, nbits := 32, bits := decode (bytes.take 4) } d =
            some d' := by
  have hroom := htaken.room
  have hptr := htaken.ptr
  have hinside := h.inside
  have hbytes := h.bytes
  have hbits := h.bits
  have hdone : s.historyPtr = c.historyPtr := by
    have hleft := h.length_src htaken
    omega
  obtain ⟨hwrote, hgrown⟩ := h.wrote.writeBits (fits_lecField (s := 256) (by decide))
  have hcode := (lecField_bounds (show 256 < 294 by decide)).2.1
  have hsize : size (fields ++ [lecField 256]) = size fields + (lecField 256).2 := by
    rw [size_append, size_cons, size_nil, add_zero]
  obtain ⟨hfour, hall, hholds⟩ := hwrote.finish (by omega)
  rw [finish]
  split
  · exact .inl rfl
  · right
    have hfits : (s.writer.writeBits (lecField 256)).finish.length =
        (s.writer.writeBits (lecField 256)).dst.length + 2 := by
      rw [Writer.finish, length_append, length_encode]
    refine ⟨(s.writer.writeBits (lecField 256)).finish, ?_, hfour, ?_⟩
    · rw [lecFieldWithin_of_lt (by decide) (by decide)]
      dsimp only
      rw [if_neg (by omega), if_neg (by omega), h.context, hdone]
      rfl
    · obtain ⟨fuel, hfuel⟩ : ∃ fuel,
          8 * (s.writer.writeBits (lecField 256)).finish.length + 1 = fuel + 1 + rounds :=
        ⟨8 * (s.writer.writeBits (lecField 256)).finish.length - rounds, by omega⟩
      obtain ⟨r', hr', hloop⟩ := h.decodes _ _ (fuel + 1) hholds
      rw [hfuel, hloop]
      exact decodeLoop_end hr' fuel

end Coder

/-- **A packet is given up, or compressed** to bytes from which the decompressor goes to its end. -/
theorem encode_decodes {c : Context} {src : List UInt8} {d : Decoder} (htaken : Taken c src)
    (hlength : 51 ≤ src.length) (hptr : d.ptr = c.historyOffset) (hcache : d.cache = c.offsetCache)
    (hagree : AgreeBelow c.historyOffset d.buffer c.historyBuffer) :
    c.encode src = .error .flush ∨
      ∃ bytes d', c.encode src =
          .ok ({ c with offsetCache := d'.cache, historyOffset := c.historyPtr }, bytes) ∧
        4 ≤ bytes.length ∧
        decodeLoop (8 * bytes.length + 1)
          { src := bytes.drop 4, nbits := 32, bits := decode (bytes.take 4) } d =
            some d' ∧
        d'.ptr = c.historyPtr ∧ AgreeBelow c.historyPtr d'.buffer c.historyBuffer := by
  have hend := htaken.ptr
  have hstart : Coder.Tracks c src d
      { context := c, src, historyPtr := c.historyOffset, writer := Writer.start } [] 0 d :=
    { context := by rw [hcache]
      start := le_refl _
      inside := by dsimp only; omega
      rest := by rw [Nat.sub_self, drop_zero]
      wrote := Writer.wrote_start
      decodes := decodes_nil
      ptr := hptr
      agree := hagree
      bytes := le_add_right _ _
      bits := zero_le _ }
  rw [Context.encode]
  simp only [bind, Except.bind]
  obtain hflush | ⟨s, fields, rounds, d₁, hok, htracks, -⟩ :=
    Coder.loop_proceeds 2 (Coder.round (src.length - 1)) src.length
      (fun h hmore => Coder.round_proceeds htaken h (by omega) _) hstart (le_refl _)
  · left
    rw [hflush]
  · rw [hok]
    have hless : s.src.length ≤ src.length := by
      have hrest := htracks.rest
      rw [hrest, length_drop]
      omega
    obtain hflush | ⟨s', fields', rounds', d', hok', htracks', hempty⟩ :=
      Coder.loop_proceeds 0 (Coder.literal (src.length - 1)) src.length
        (fun h hmore => Coder.literal_proceeds htaken h hmore _) htracks hless
    · left
      dsimp only
      rw [hflush]
    · dsimp only
      rw [hok']
      obtain hflush | ⟨bytes, hfinish, hfour, hdecoded⟩ :=
        Coder.finish_decodes htaken htracks' hempty hlength (src.length - 1) (by omega)
      · exact .inl hflush
      · have hdone : s'.historyPtr = c.historyPtr := by
          have hleft := htracks'.length_src htaken
          have hinside := htracks'.inside
          omega
        have hagree' := htracks'.agree
        rw [hdone] at hagree'
        exact .inr ⟨bytes, d', hfinish, hfour, hdecoded, htracks'.ptr.trans hdone, hagree'⟩

/-! ## A session -/

/-- Both sides are at the same position, with the same bytes below it and the same offsets. -/
structure Synced (sender receiver : Context) : Prop where
  ptr : sender.historyOffset = receiver.historyPtr
  room : sender.historyOffset < 65529
  cache : sender.offsetCache = receiver.offsetCache
  agree : AgreeBelow sender.historyOffset receiver.historyBuffer sender.historyBuffer
  linked : sender.IsLinked sender.historyOffset

/-- Between two packets both sides are in step, or the sender starts over and tells the other
side so with the next one. -/
def InStep (sender receiver : Context) : Prop :=
  sender = Context.reset true ∨ Synced sender receiver

theorem isLinked_reset (flush : Bool) (bound : ℕ) : (Context.reset flush).IsLinked bound :=
  Linked.empty _ bound

theorem synced_reset : Synced (Context.reset false) (Context.reset false) :=
  ⟨rfl, by decide, rfl, fun _ _ => rfl, isLinked_reset false _⟩

/-- **The history before a packet**: what the compressor does to its own, the flags make the
decompressor do as well. -/
theorem makeRoom_synced {sender receiver : Context} {n : ℕ} (h : InStep sender receiver)
    (hn : n < 16384) :
    ∃ c flags r, sender.makeRoom n = some (c, flags) ∧
      (flags = 0 ∨ flags = 0x40 ∨ flags = 0x80) ∧
      receiver.prepare (0x20 ||| 2 ||| flags) = some r ∧ Synced c r ∧
      c.historyOffset + n < 65529 := by
  obtain rfl | hsynced := h
  · have hoffset : (Context.reset true).historyOffset = 65537 := rfl
    refine ⟨{ Context.reset true with historyOffset := 0, historyPtr := 0 }, 0x80, _,
      by rw [Context.makeRoom, if_pos (by omega), if_pos hoffset], by decide, rfl,
      ⟨rfl, (by decide : 0 < 65529), rfl, fun _ _ => rfl, isLinked_reset true _⟩, ?_⟩
    dsimp only
    omega
  · have hroom := hsynced.room
    by_cases hfull : n + sender.historyOffset ≥ 65529
    · obtain ⟨c, hmoved, hlinked, hcache, hbuffer⟩ :=
        moveEncoderWindows_linked hsynced.linked (by omega) (by omega)
      have hbehind : ¬ receiver.historyPtr ≤ 32768 := by
        rw [← hsynced.ptr]
        omega
      refine ⟨{ c with historyOffset := 32768, historyPtr := 32768 }, 0x40,
        { receiver with
          historyBuffer := fun i =>
            if i < 32768 then receiver.historyBuffer (receiver.historyPtr - 32768 + i) else 0
          historyPtr := 32768 }, ?_, by decide, ?_, ⟨rfl, (by decide : 32768 < 65529),
        hcache.trans hsynced.cache, ?_, hlinked⟩, ?_⟩
      · rw [Context.makeRoom, if_pos hfull, if_neg (by omega), hmoved]
        rfl
      · rw [Context.prepare]
        simp only [if_neg hbehind]
        rfl
      · intro i hi
        dsimp only at hi ⊢
        rw [if_pos hi, hbuffer i hi, ← hsynced.ptr]
        exact hsynced.agree _ (by omega)
      · dsimp only
        omega
    · exact ⟨sender, 0, receiver, by rw [Context.makeRoom, if_neg hfull], .inl rfl, rfl, hsynced,
        by omega⟩

/-- **A packet is taken** into the history. -/
theorem taken_take {c : Context} {src : List UInt8} (hlinked : c.IsLinked c.historyOffset)
    (hsrc : 8 ≤ src.length) (hroom : c.historyOffset + src.length < 65529) :
    Taken (c.take src) src ∧ (c.take src).historyOffset = c.historyOffset ∧
      (c.take src).offsetCache = c.offsetCache ∧
      (c.take src).historyBuffer = MatchCopy.overlay c.historyBuffer c.historyOffset src := by
  obtain ⟨hoffset, hbuffer, hcache⟩ :=
    hashTableAdd_frame (c := c) (wordAt fun i => src.getD i 0) (src.length - 8)
  have hhistory : (c.take src).historyBuffer =
      MatchCopy.overlay c.historyBuffer c.historyOffset src := by
    rw [← hbuffer, ← hoffset]
    rfl
  have hptr : (c.take src).historyPtr = c.historyOffset + src.length := by
    rw [← hoffset]
    rfl
  have hsame : (c.take src).historyOffset = c.historyOffset := hoffset
  refine ⟨⟨?_, ?_, ?_, ?_⟩, hsame, hcache, hhistory⟩
  · rw [hptr, hsame]
  · rw [hptr]
    exact hroom
  · intro i hi
    rw [hhistory, hsame, MatchCopy.overlay_at hi]
  · rw [hptr]
    exact isLinked_take hlinked hsrc

/-- **A packet comes out as it went in**, and both sides are in step again. -/
theorem send_received {sender receiver : Context} {src : List UInt8} (h : InStep sender receiver)
    (hlow : 51 ≤ src.length) (hhigh : src.length ≤ 16383) :
    ∃ sender' dst flags receiver', send sender src = (sender', dst, flags) ∧
      bulkDecompress receiver dst flags = some (src, receiver') ∧ InStep sender' receiver' := by
  obtain ⟨c, flags, r, hmade, hflags, hprepare, hsynced, hroom⟩ :=
    makeRoom_synced h (n := src.length) (by omega)
  obtain ⟨htaken, hoffset, hcache, hhistory⟩ := taken_take hsynced.linked (by omega) hroom
  have hptr := htaken.ptr
  have hagree : AgreeBelow (c.take src).historyOffset r.historyBuffer
      (c.take src).historyBuffer := by
    intro i hi
    rw [hoffset] at hi
    rw [hhistory, MatchCopy.overlay_below hi]
    exact hsynced.agree i hi
  have hbulk : bulkCompress sender src = sender.compress src 65536 := by
    rw [bulkCompress, if_neg (by omega)]
  obtain hflush | ⟨bytes, d', hencoded, hfour, hdecoded, hptr', hagree'⟩ :=
    encode_decodes htaken hlow (d := ⟨r.historyBuffer, r.historyPtr, r.offsetCache⟩)
      (by rw [hoffset]; exact hsynced.ptr.symm) (by rw [hcache]; exact hsynced.cache.symm) hagree
  · refine ⟨Context.reset true, src, 0x82, _, ?_, rfl, .inl rfl⟩
    rw [send, hbulk, Context.compress, hmade]
    dsimp only
    rw [if_neg (by omega), hflush]
    rfl
  · have hmarked : 0x20 ||| 2 ||| flags ≠ 0 ∧ (0x20 ||| 2 ||| flags) &&& 0xE0 ≠ 0 ∧
        (0x20 ||| 2 ||| flags) &&& 0x0F = 2 ∧ (0x20 ||| 2 ||| flags) &&& 0x20 ≠ 0 := by
      rcases hflags with rfl | rfl | rfl <;> decide
    have hout : MatchCopy.stretch d'.buffer r.historyPtr (d'.ptr - r.historyPtr) = src := by
      have hlength : d'.ptr - r.historyPtr = src.length := by
        rw [hptr', ← hsynced.ptr, hptr, hoffset, Nat.add_sub_cancel_left]
      rw [hlength, ← hsynced.ptr]
      exact MatchCopy.stretch_of_agree (hhistory ▸ hagree') (by rw [hptr, hoffset])
    refine ⟨{ c.take src with
        offsetCache := d'.cache, historyOffset := (c.take src).historyPtr },
      bytes, 0x20 ||| 2 ||| flags,
      { r with historyBuffer := d'.buffer, historyPtr := d'.ptr, offsetCache := d'.cache }, ?_, ?_,
      .inr ⟨hptr'.symm, htaken.room, rfl, hagree', htaken.linked⟩⟩
    · rw [send, hbulk, Context.compress, hmade]
      dsimp only
      rw [if_neg (by omega), hencoded]
      dsimp only
      rw [if_pos hmarked.1]
    · rw [bulkDecompress, if_pos hmarked.2.1, if_pos hmarked.2.2.1, decompress, hprepare]
      simp only [Option.bind_eq_bind, Option.bind_some, if_neg hmarked.2.2.2]
      rw [if_neg (by omega), hdecoded]
      simp only [Option.bind_some, hout]
      rfl

theorem session_inStep {sender receiver : Context} {packets : List (List UInt8)}
    (h : InStep sender receiver)
    (hsizes : ∀ packet ∈ packets, 51 ≤ packet.length ∧ packet.length ≤ 16383) :
    session sender receiver packets = some packets := by
  induction packets generalizing sender receiver with
  | nil => rfl
  | cons packet packets ih =>
    obtain ⟨⟨hlow, hhigh⟩, hrest⟩ := forall_mem_cons.1 hsizes
    obtain ⟨sender', dst, flags, receiver', hsent, hreceived, hstep⟩ := send_received h hlow hhigh
    rw [session, hsent]
    simp only [Option.bind_eq_bind, hreceived, Option.bind_some, ih hstep hrest]
    rfl

/-- **Every packet of a session comes out as it went in**, from two contexts of the same time. -/
theorem session_received {packets : List (List UInt8)}
    (hsizes : ∀ packet ∈ packets, 51 ≤ packet.length ∧ packet.length ≤ 16383) :
    session (Context.reset false) (Context.reset false) packets = some packets :=
  session_inStep (.inr synced_reset) hsizes

theorem session_received_replicate :
    session (Context.reset false) (Context.reset false)
      [replicate 60 7, replicate 51 0, replicate 16383 7] =
        some [replicate 60 7, replicate 51 0, replicate 16383 7] := by
  apply session_received
  intro packet hpacket
  simp only [mem_cons, not_mem_nil, or_false] at hpacket
  rcases hpacket with rfl | rfl | rfl <;> rw [length_replicate] <;> decide

end Ncrush
