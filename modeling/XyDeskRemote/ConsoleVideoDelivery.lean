/-
# Console video: what arrives at the decoder

The receiver loop refines the piece assembler (`onChunk_follows`): a `VideoFrame`
is a message whose parts are its chunks, a datagram of the host is a piece of it
(`view_datagram`), and the reused chunk buffers, the length table and the counter
are a representation of the slots (`Follows`).
-/
import XyDeskRemote.ConsoleVideoClient
import XyDeskRemote.ConsoleVideoHost
import XyDeskRemote.PieceAssembly

open ByteBuffer OutputMachine PieceAssembly VideoFrame VideoLoop List

/-! ## Frames as messages, datagrams as pieces -/

/-- The header fields that go with a picture. -/
structure FrameHead where
  width : Nat
  height : Nat
  flags : Nat
  fpsActual : Nat

/-- A picture taken apart, as the receiver sees it. -/
def VideoFrame.message (f : VideoFrame) : Message Nat FrameHead (List UInt8) where
  id := f.fid.toNat
  head := ⟨f.w16.toNat, f.h16.toNat, f.flags.toNat, f.measuredFps.toNat⟩
  parts := f.chunks

/-- A chunk as a piece. -/
def VideoChunk.piece (ch : VideoChunk) : Piece Nat FrameHead (List UInt8) where
  id := ch.frameId
  head := ⟨ch.width, ch.height, ch.flags, ch.fpsActual⟩
  count := ch.chunkCount
  index := ch.chunkIdx
  body := ch.payload

/-- What the loop sees of a datagram, if it does not ignore it. -/
def viewDatagram (d : List UInt8) : Option (Piece Nat FrameHead (List UInt8)) :=
  (parseChunk d).map VideoChunk.piece

/-- The decoder call for a message that is handed over. -/
def decodeCall (o : FrameHead × List (List UInt8)) : DecodeCall :=
  ⟨o.2.flatten, o.1.width, o.1.height, o.1.flags, o.1.fpsActual⟩

/-- The decoder call for a frame of the host. -/
def VideoFrame.shown (f : VideoFrame) : DecodeCall :=
  ⟨f.jpg, f.w16.toNat, f.h16.toNat, f.flags.toNat, f.measuredFps.toNat⟩

theorem decodeCall_message (f : VideoFrame) :
    decodeCall (f.message.head, f.message.parts) = f.shown := by
  unfold decodeCall message shown
  dsimp only
  rw [f.flatten_chunks]

variable {f : VideoFrame} {b : List UInt8}

/-- The host's datagrams fit the receive buffer. -/
theorem take_datagram {c : Nat} (hb : f.chunks[c]? = some b) :
    (f.header c ++ b).take maxUdpPacket = f.header c ++ b := by
  have hlen := (chunks_length_bounds hb).2
  apply take_of_length_le
  rw [length_append, f.length_header]
  unfold maxUdpPacket
  unfold kChunkPayload at hlen
  omega

/-- They carry at least one byte of the picture. -/
theorem headerBytes_lt_datagram {c : Nat} (hb : f.chunks[c]? = some b) :
    ¬ (f.header c ++ b).length ≤ headerBytes := by
  have hbpos := (chunks_length_bounds hb).1
  rw [length_append, f.length_header]
  unfold headerBytes
  omega

theorem read_chunkCount (f : VideoFrame) (c : Nat) (b : List UInt8) :
    readUInt16Le (f.header c ++ b) 8 = f.chunkCount.toNat :=
  readUInt16Le_of_bytes (UInt16.toNat_lt _) rfl rfl

/-- **A datagram of the host is read back as the piece it carries**, when the
receiver accepts that many chunks. -/
theorem parseChunk_datagram {c : Nat} (hb : f.chunks[c]? = some b)
    (hcount : f.chunkCount.toNat ≤ maxChunksPerFrame) :
    ∃ ch, parseChunk (f.header c ++ b) = some ch ∧
      ch.piece = ⟨f.message.id, f.message.head, f.message.parts.length, c, b⟩ := by
  obtain ⟨hc, -⟩ := List.getElem?_eq_some_iff.1 hb
  rw [f.length_chunks] at hc
  have hone := f.chunkCount_range.1
  have hcsmall : c < 65536 := by
    have := f.chunkCount_range.2
    omega
  have hid : readUInt16Le (f.header c ++ b) 4 = f.fid.toNat :=
    readUInt16Le_of_bytes (UInt16.toNat_lt _) rfl rfl
  have hidx : readUInt16Le (f.header c ++ b) 6 = c := readUInt16Le_of_bytes hcsmall rfl rfl
  have hw : readUInt16Le (f.header c ++ b) 10 = f.w16.toNat :=
    readUInt16Le_of_bytes (UInt16.toNat_lt _) rfl rfl
  have hh : readUInt16Le (f.header c ++ b) 12 = f.h16.toNat :=
    readUInt16Le_of_bytes (UInt16.toNat_lt _) rfl rfl
  have hpayload : (f.header c ++ b).drop headerBytes = b := drop_left' (f.length_header c)
  unfold parseChunk
  simp only [take_datagram hb]
  rw [dif_neg (headerBytes_lt_datagram hb), if_neg (by simp [header])]
  rw [dif_neg (by rw [hidx, read_chunkCount]; omega)]
  refine ⟨_, rfl, ?_⟩
  unfold VideoChunk.piece message
  -- every field of the header was written by the host at the offset it is read from
  simp only [hid, hidx, read_chunkCount, hw, hh, hpayload, f.length_chunks]
  rfl

/-- A frame of more chunks than the receiver accepts is dropped, datagram by datagram. -/
theorem parseChunk_oversized {c : Nat} (hb : f.chunks[c]? = some b)
    (hcount : maxChunksPerFrame < f.chunkCount.toNat) :
    parseChunk (f.header c ++ b) = none := by
  unfold parseChunk
  simp only [take_datagram hb]
  rw [dif_neg (headerBytes_lt_datagram hb), if_neg (by simp [header])]
  rw [dif_pos (by rw [read_chunkCount]; omega)]

theorem view_datagram {c : Nat} (hb : f.chunks[c]? = some b)
    (hcount : f.chunkCount.toNat ≤ maxChunksPerFrame) :
    viewDatagram (f.header c ++ b) =
      some ⟨f.message.id, f.message.head, f.message.parts.length, c, b⟩ := by
  obtain ⟨ch, hparse, hpiece⟩ := parseChunk_datagram hb hcount
  rw [viewDatagram, hparse, Option.map_some, hpiece]

/-- What the loop sees of a frame: its pieces when it has few enough chunks. -/
theorem filterMap_view_datagrams (hcount : f.chunkCount.toNat ≤ maxChunksPerFrame) :
    f.datagrams.filterMap viewDatagram = f.message.pieces := by
  have hview : f.datagrams.map viewDatagram = f.message.pieces.map some := by
    apply ext_getElem?
    intro c
    rw [datagrams, getElem?_map, getElem?_map, Message.pieces, getElem?_map, getElem?_mapIdx]
    -- both lists end with the last chunk
    rcases Nat.lt_or_ge c f.chunks.length with hc | hc
    · have hget := getElem?_eq_getElem hc
      rw [getElem?_range (f.length_chunks ▸ hc)]
      show some (viewDatagram (f.datagram c)) = (f.chunks[c]?.map _).map some
      rw [hget, datagram_eq hget, view_datagram hget hcount]
      rfl
    · rw [getElem?_eq_none (by rwa [length_range, ← f.length_chunks])]
      show none = (f.chunks[c]?.map _).map some
      rw [getElem?_eq_none hc]
      rfl
  calc f.datagrams.filterMap viewDatagram = (f.datagrams.map viewDatagram).filterMap id := by
        rw [filterMap_map]
        rfl
    _ = f.message.pieces := by
        rw [hview, filterMap_map]
        exact filterMap_some

/-! ## The loop's variables represent the slots -/

/-- A chunk buffer and a length represent a slot: a zero length is an empty slot,
and a filled one is a prefix of the (reused, possibly longer) buffer. -/
def SlotHolds (buf : Option (List UInt8)) (len : Nat) : Option (List UInt8) → Prop
  | none => len = 0
  | some b => 0 < b.length ∧ len = b.length ∧ ∃ rest, buf = some (b ++ rest)

/-- The loop is in the middle of the frame `a`. -/
structure Follows (s : VideoLoop) (a : Assembly Nat FrameHead (List UInt8)) : Prop where
  id : s.activeFrameId = a.id
  head : a.head = ⟨s.frameWidth, s.frameHeight, s.frameFlags, s.frameHostFps⟩
  expected : s.expectedChunks = a.slots.length
  count_le : a.slots.length ≤ maxChunksPerFrame
  received : s.receivedChunks = a.slots.countP Option.isSome
  slots : ∀ (i : Nat) (hi : i < maxChunksPerFrame) (o : Option (List UInt8)),
    a.slots[i]? = some o → SlotHolds s.chunkBuffers[i] s.chunkLengths[i] o

/-- The loop is in the middle of what the assembler holds. -/
def Tracks (s : VideoLoop) : Option (Assembly Nat FrameHead (List UInt8)) → Prop
  | none => s.activeFrameId = -1
  | some a => Follows s a

variable {s : VideoLoop}

/-- A new frame: every length below its chunk count is reset, so every slot is empty. -/
theorem follows_beginFrame_new {ch : VideoChunk} (hnew : (ch.frameId : Int) ≠ s.activeFrameId) :
    Follows (s.beginFrame ch) (Assembly.start ch.piece) := by
  unfold beginFrame
  rw [if_pos hnew]
  refine ⟨rfl, rfl, ?_, ?_, ?_, fun i hi o ho => ?_⟩
  · exact length_replicate.symm
  · exact length_replicate.trans_le ch.count_le
  · rw [Assembly.start, countP_replicate]
    rfl
  · rw [Assembly.start, getElem?_replicate, Option.ite_none_right_eq_some] at ho
    obtain ⟨hlt, hnone⟩ := ho
    obtain rfl := Option.some.inj hnone
    have hlt : i < ch.chunkCount := hlt
    show (s.chunkLengths.mapIdx _)[i] = 0
    rw [Vector.getElem_mapIdx, if_pos hlt]

variable {s' : Option (Assembly Nat FrameHead (List UInt8))}

/-- The next chunk selects the frame it belongs to, in the loop as in the assembler. -/
theorem follows_beginFrame (h : Tracks s s') (ch : VideoChunk) :
    Follows (s.beginFrame ch) (Assembly.select s' ch.piece) := by
  cases s' with
  | none =>
    -- no frame id is negative, so the chunk starts its frame
    have hidle : s.activeFrameId = -1 := h
    exact follows_beginFrame_new (by omega)
  | some a =>
    have ha : Follows s a := h
    have hid := ha.id
    -- the loop and the assembler compare the same two ids
    by_cases hsame : a.id = ch.piece.id
    · have hsel : Assembly.select (some a) ch.piece = a := if_pos hsame
      have hkeep : s.beginFrame ch = s := if_neg (not_not.2 (by
        rw [hid, hsame]
        rfl))
      rw [hsel, hkeep]
      exact ha
    · have hsel : Assembly.select (some a) ch.piece = Assembly.start ch.piece := if_neg hsame
      rw [hsel]
      refine follows_beginFrame_new fun hne => hsame ?_
      rw [hid] at hne
      exact (Int.ofNat.inj hne).symm

/-- The buffer a payload is copied into is large enough. -/
theorem length_chunkSlot (old : Option (List UInt8)) (n : Nat) :
    n ≤ (chunkSlot old n).length := by
  unfold chunkSlot
  split
  · split
    · rw [length_replicate]
      exact Nat.le_max_left n 1400
    · omega
  · rw [length_replicate]
    exact Nat.le_max_left n 1400

variable {a : Assembly Nat FrameHead (List UInt8)}

theorem follows_storeChunk (h : Follows s a) {ch : VideoChunk}
    (hcount : a.slots.length = ch.chunkCount) :
    ∃ t, s.storeChunk ch = some t ∧ Follows t (a.fill ch.chunkIdx ch.payload) := by
  have hidx : ch.chunkIdx < maxChunksPerFrame := Nat.lt_of_lt_of_le ch.idx_lt ch.count_le
  have hlt : ch.chunkIdx < a.slots.length := hcount ▸ ch.idx_lt
  have hslot := h.slots ch.chunkIdx hidx a.slots[ch.chunkIdx] (getElem?_eq_getElem hlt)
  unfold storeChunk
  cases hget : a.slots[ch.chunkIdx] with
  | none =>
    -- an empty slot has length zero: the payload is copied into its buffer
    have hempty : a.slots[ch.chunkIdx]? = some none := by
      rw [getElem?_eq_getElem hlt, hget]
    rw [hget] at hslot
    have hlen : s.chunkLengths[ch.chunkIdx] = 0 := hslot
    refine ⟨_, by
      rw [if_pos hlen, arraycopy_front (length_chunkSlot _ _), Option.map_some], ?_⟩
    rw [fill_of_empty hempty]
    refine ⟨h.id, h.head, ?_, ?_, ?_, fun i hi o ho => ?_⟩
    · exact h.expected.trans length_set.symm
    · exact length_set.trans_le h.count_le
    · show s.receivedChunks + 1 = _
      rw [countP_set hlt, hget, h.received]
      rfl
    · show SlotHolds (s.chunkBuffers.set _ _ hidx)[i] (s.chunkLengths.set _ _ hidx)[i] o
      rw [Vector.getElem_set, Vector.getElem_set]
      by_cases hi' : ch.chunkIdx = i
      · rw [if_pos hi', if_pos hi']
        subst hi'
        rw [getElem?_set_self hlt] at ho
        obtain rfl := Option.some.inj ho
        exact ⟨ch.payload_pos, rfl, _, rfl⟩
      · rw [if_neg hi', if_neg hi']
        rw [getElem?_set_ne hi'] at ho
        exact h.slots i hi o ho
  | some b =>
    -- a stored chunk is not empty: its length keeps the duplicate out
    have hfull : a.slots[ch.chunkIdx]? ≠ some none := by
      rw [getElem?_eq_getElem hlt, hget]
      exact nofun
    rw [hget] at hslot
    obtain ⟨hpos, hlen, -⟩ := hslot
    rw [fill_of_ne hfull]
    exact ⟨s, if_neg (by omega), h⟩

/-! ## Handing over a complete frame -/

/-- The loop's buffers and lengths, next to the slots they represent. -/
theorem forall₂_frameChunks (h : Follows s a) :
    List.Forall₂ (fun c o => SlotHolds c.1 c.2 o) s.frameChunks a.slots := by
  have hle := h.count_le
  have hlen : s.frameChunks.length = a.slots.length := by
    rw [frameChunks, length_take, length_zip, Vector.length_toList,
      Vector.length_toList, h.expected]
    omega
  rw [forall₂_iff_get]
  refine ⟨hlen, fun i hc hs => ?_⟩
  have hi : i < maxChunksPerFrame := by omega
  have hslot := h.slots i hi a.slots[i] (getElem?_eq_getElem hs)
  rw [get_eq_getElem, get_eq_getElem]
  simpa [frameChunks] using hslot

/-- The lengths add up to the bytes of the filled slots. -/
theorem sum_lengths {cs : List (Option (List UInt8) × Nat)} {slots : List (Option (List UInt8))}
    (h : List.Forall₂ (fun c o => SlotHolds c.1 c.2 o) cs slots) :
    (cs.map Prod.snd).sum = slots.reduceOption.flatten.length := by
  induction h with
  | nil => rfl
  | @cons c o cs slots hco _ ih =>
    rw [map_cons, sum_cons, ih]
    cases o with
    | none =>
      have hzero : c.2 = 0 := hco
      rw [reduceOption_cons_of_none, hzero, Nat.zero_add]
    | some b =>
      obtain ⟨-, hlen, -⟩ := hco
      rw [reduceOption_cons_of_some, flatten_cons, length_append, hlen]

/-- **The reassembly.**  Copying the chunks of filled slots one after the other
raises nothing and leaves their bytes in the buffer, in index order. -/
theorem copyChunks_filled {cs : List (Option (List UInt8) × Nat)}
    {slots : List (Option (List UInt8))}
    (h : List.Forall₂ (fun c o => SlotHolds c.1 c.2 o) cs slots)
    (hfilled : ∀ o ∈ slots, o.isSome = true) :
    ∀ {buf : List UInt8} {pos : Nat},
      pos + slots.reduceOption.flatten.length ≤ buf.length →
      ∃ buf', copyChunks cs buf pos = some buf' ∧
        buf'.take (pos + slots.reduceOption.flatten.length) =
          buf.take pos ++ slots.reduceOption.flatten := by
  induction h with
  | nil =>
    intro buf pos _
    refine ⟨buf, rfl, ?_⟩
    rw [reduceOption_nil, flatten_nil, append_nil]
    rfl
  | @cons c o cs slots hco _ ih =>
    intro buf pos hroom
    obtain ⟨b, rfl⟩ := Option.isSome_iff_exists.1 (hfilled o mem_cons_self)
    obtain ⟨cbuf, clen⟩ := c
    obtain ⟨hpos, hlen, rest, hcbuf⟩ := hco
    dsimp only at hlen hcbuf
    subst hlen hcbuf
    rw [reduceOption_cons_of_some, flatten_cons, length_append] at hroom ⊢
    -- the buffer may be longer than the chunk; only the chunk is copied
    have hcopy : arraycopy (b ++ rest) 0 buf pos b.length =
        some (buf.take pos ++ b ++ buf.drop (pos + b.length)) := by
      rw [arraycopy_eq_some (by rw [length_append]; omega) (by omega), drop_zero, take_left]
    have hfront : (buf.take pos ++ b).length = pos + b.length := by
      rw [length_append, length_take]
      omega
    have hroom' : pos + b.length + slots.reduceOption.flatten.length ≤
        (buf.take pos ++ b ++ buf.drop (pos + b.length)).length := by
      rw [length_append, hfront, length_drop]
      omega
    obtain ⟨buf', hrest, htake⟩ :=
      ih (fun o ho => hfilled o (mem_cons_of_mem _ ho)) hroom'
    refine ⟨buf', ?_, ?_⟩
    · rw [copyChunks, hcopy, Option.bind_some, hrest]
    · rw [← Nat.add_assoc, htake, ← hfront, take_left, append_assoc]

/-- The counter says whether the assembler is complete. -/
theorem received_eq_expected_iff (h : Follows s a) :
    s.receivedChunks = s.expectedChunks ↔ a.complete = true := by
  rw [h.received, h.expected, countP_eq_length, Assembly.complete, all_eq_true]

/-- A frame in progress that is not complete stays in progress. -/
theorem finishFrame_incomplete (h : Follows s a) (hnot : ¬ a.complete = true) :
    s.finishFrame = some (s, []) :=
  if_neg fun heq => hnot ((received_eq_expected_iff h).1 heq)

/-- A complete frame is handed to the decoder, and the loop is idle again. -/
theorem finishFrame_complete (h : Follows s a) (hne : a.slots ≠ []) (hdone : a.complete = true) :
    ∃ t, s.finishFrame = some (t, [decodeCall (a.head, a.slots.reduceOption)]) ∧
      t.activeFrameId = -1 := by
  have hchunks := forall₂_frameChunks h
  have hfilled : ∀ o ∈ a.slots, o.isSome = true := all_eq_true.1 hdone
  -- so the total is the size of the picture
  have hsum := sum_lengths hchunks
  -- a complete frame is not empty, since its first chunk is not
  have hpos : 0 < a.slots.reduceOption.flatten.length := by
    obtain ⟨o, slots, hcons⟩ := exists_cons_of_ne_nil hne
    rw [hcons] at hfilled
    obtain ⟨b, rfl⟩ := Option.isSome_iff_exists.1 (hfilled o mem_cons_self)
    have hlt : 0 < a.slots.length := by
      rw [hcons]
      exact Nat.succ_pos _
    have hslot := h.slots 0 (Nat.lt_of_lt_of_le hlt h.count_le) (some b) (by rw [hcons]; rfl)
    rw [hcons, reduceOption_cons_of_some, flatten_cons, length_append]
    have := hslot.1
    omega
  have hroom : 0 + a.slots.reduceOption.flatten.length ≤
      (if s.reassemblyBuffer.length < a.slots.reduceOption.flatten.length then
        replicate (a.slots.reduceOption.flatten.length + 32 * 1024) 0
      else s.reassemblyBuffer).length := by
    split
    · rw [length_replicate]
      omega
    · omega
  unfold finishFrame
  rw [if_pos ((received_eq_expected_iff h).2 hdone)]
  dsimp only
  rw [hsum, if_pos hpos]
  obtain ⟨buf', hcopy, htake⟩ := copyChunks_filled hchunks hfilled
    hroom
  rw [Nat.zero_add, take_zero, nil_append] at htake
  rw [hcopy, Option.map_some, htake, h.head]
  exact ⟨_, rfl, rfl⟩

/-! ## The refinement -/

/-- **The loop refines the assembler.**  On a chunk that agrees with the frame in
progress about the number of chunks, the loop raises nothing and does what the
assembler does. -/
theorem onChunk_follows (h : Tracks s s') {ch : VideoChunk}
    (hcount : (Assembly.select s' ch.piece).slots.length = ch.chunkCount) :
    ∃ t t' os', step s' ch.piece = some (t', os') ∧
      s.onChunk ch = some (t, os'.map decodeCall) ∧ Tracks t t' := by
  obtain ⟨u, hstore, hu⟩ := follows_storeChunk (follows_beginFrame h ch) hcount
  have hstore' : s.onChunk ch = u.finishFrame := by
    rw [onChunk, hstore, Option.bind_some]
  unfold step
  dsimp only
  by_cases hdone : ((Assembly.select s' ch.piece).fill ch.chunkIdx ch.payload).complete = true
  · have hne : ((Assembly.select s' ch.piece).fill ch.chunkIdx ch.payload).slots ≠ [] := by
      rw [← length_pos_iff, fill_slots_length, hcount]
      exact Nat.lt_of_le_of_lt (Nat.zero_le _) ch.idx_lt
    obtain ⟨t, hfinish, hidle⟩ := finishFrame_complete hu hne hdone
    exact ⟨t, none, _, if_pos hdone, hstore'.trans hfinish, hidle⟩
  · exact ⟨u, _, _, if_neg hdone, hstore'.trans (finishFrame_incomplete hu hdone), hu⟩

theorem view_mem_pieces {d : List UInt8} (hd : d ∈ f.datagrams)
    {p : Piece Nat FrameHead (List UInt8)} (hp : viewDatagram d = some p) :
    p ∈ f.message.pieces := by
  obtain ⟨c, b, hb, rfl⟩ := mem_datagrams.1 hd
  rcases Nat.lt_or_ge maxChunksPerFrame f.chunkCount.toNat with hbig | hsmall
  · rw [viewDatagram, parseChunk_oversized hb hbig] at hp
    cases hp
  · rw [view_datagram hb hsmall] at hp
    obtain rfl := Option.some.inj hp
    exact mem_pieces.2 ⟨rfl, rfl, rfl, hb⟩

variable {frames : List VideoFrame}

theorem nodup_message_ids (hids : (frames.map fid).Nodup) :
    ((frames.map message).map Message.id).Nodup := by
  have hmap : (frames.map message).map Message.id =
      (frames.map fid).map UInt16.toNat := by
    rw [map_map, map_map]
    rfl
  rw [hmap]
  exact hids.map fun _ _ h => UInt16.toNat_inj.1 h

/-- The loop is in the middle of what the assembler holds, which is part of a frame. -/
def TracksSome (frames : List VideoFrame) (s : VideoLoop)
    (s' : Option (Assembly Nat FrameHead (List UInt8))) : Prop :=
  Tracks s s' ∧ PartOfSome (frames.map message) s'

theorem receive_follows (hids : (frames.map fid).Nodup) (h : TracksSome frames s s')
    {d : List UInt8} (hd : ∃ f ∈ frames, d ∈ f.datagrams) {p : Piece Nat FrameHead (List UInt8)}
    (hview : viewDatagram d = some p) :
    ∃ t t' os', step s' p = some (t', os') ∧
      s.receive d = some (t, os'.map decodeCall) ∧ TracksSome frames t t' := by
  obtain ⟨htracks, hparts⟩ := h
  obtain ⟨f, hf, hd⟩ := hd
  have hmsgs := nodup_message_ids hids
  have hm : f.message ∈ frames.map message := mem_map_of_mem hf
  have hp := view_mem_pieces hd hview
  obtain ⟨ch, hparse, rfl⟩ := Option.map_eq_some_iff.1 hview
  -- the chunk agrees with the frame it is sorted into about the number of chunks
  have hcount : (Assembly.select s' ch.piece).slots.length = ch.chunkCount := by
    rw [(select_partOf hmsgs hparts hm hp).length]
    exact (mem_pieces.1 hp).2.2.1.symm
  obtain ⟨t, t', os', hstep', hstep, ht⟩ := onChunk_follows htracks hcount
  obtain ⟨u, os, hstep'', hu, -⟩ := step_honest hmsgs hparts ⟨f.message, hm, hp⟩
  obtain ⟨rfl, rfl⟩ := Prod.mk.inj (Option.some.inj (hstep'.symm.trans hstep''))
  refine ⟨t, t', os', hstep', ?_, ht, hu⟩
  rw [receive, hparse]
  exact hstep

/-- A datagram that is not seen changes nothing. -/
theorem receive_unseen (s : VideoLoop) (d : List UInt8) (h : viewDatagram d = none) :
    s.receive d = some (s, []) := by
  rw [viewDatagram, Option.map_eq_none_iff] at h
  rw [receive, h]

variable {ds : List (List UInt8)}

/-- The refinement over a whole run: on datagrams of frames with pairwise distinct
ids, the loop hands over what the assembler does on the pieces it sees. -/
theorem runVideoLoop_follows (hids : (frames.map fid).Nodup) (hs : s.activeFrameId = -1)
    (hds : ∀ d ∈ ds, ∃ f ∈ frames, d ∈ f.datagrams) :
    ∃ t t' os', feed step none (ds.filterMap viewDatagram) = some (t', os') ∧
      runVideoLoop s ds = some (t, os'.map decodeCall) := by
  have hidle : TracksSome frames s none := ⟨hs, by intro a ha; cases ha⟩
  have hstep : ∀ s s' d p, TracksSome frames s s' → (∃ f ∈ frames, d ∈ f.datagrams) →
      viewDatagram d = some p → ∃ t t' os', step s' p = some (t', os') ∧
        s.receive d = some (t, os'.map decodeCall) ∧ TracksSome frames t t' :=
    fun _ _ _ _ h hd hview => receive_follows hids h hd hview
  obtain ⟨t, t', os', hfeed', hfeed, -⟩ := feed_simulates receive_unseen hstep hidle hds
  exact ⟨t, t', os', hfeed', hfeed⟩

/-! ## One frame, in any order -/

/-- A frame of few enough chunks arrives, whatever the order of its datagrams. -/
theorem runVideoLoop_perm (hcount : f.chunkCount.toNat ≤ maxChunksPerFrame)
    (hs : s.activeFrameId = -1) (hds : ds.Perm f.datagrams) :
    ∃ t, runVideoLoop s ds = some (t, [f.shown]) := by
  have hmem : ∀ d ∈ ds, ∃ g ∈ [f], d ∈ g.datagrams := fun d hd =>
    ⟨f, mem_singleton_self f, hds.mem_iff.1 hd⟩
  have hids : ([f].map fid).Nodup := nodup_singleton f.fid
  obtain ⟨t, t', os', hfeed, hrun⟩ := runVideoLoop_follows hids hs hmem
  have hperm : (ds.filterMap viewDatagram).Perm f.message.pieces :=
    filterMap_view_datagrams hcount ▸ hds.filterMap viewDatagram
  have hne : f.message.parts ≠ [] := by
    rw [← length_pos_iff]
    exact Nat.lt_of_lt_of_eq f.chunkCount_range.1 f.length_chunks.symm
  rw [feed_pieces hne hperm] at hfeed
  obtain ⟨rfl, rfl⟩ := Prod.mk.inj (Option.some.inj hfeed)
  rw [map_singleton, decodeCall_message] at hrun
  exact ⟨t, hrun⟩

/-- A frame of too many chunks does not arrive, and leaves the loop as it was. -/
theorem runVideoLoop_oversized (hcount : maxChunksPerFrame < f.chunkCount.toNat) (s : VideoLoop)
    (hds : ds.Perm f.datagrams) :
    runVideoLoop s ds = some (s, []) := by
  apply feed_ignored
  intro d hd
  obtain ⟨c, b, hb, rfl⟩ := mem_datagrams.1 (hds.mem_iff.1 hd)
  rw [receive, parseChunk_oversized hb hcount]

/-- The chunk counts the receiver accepts, in bytes of the picture. -/
theorem chunkCount_le_iff (f : VideoFrame) :
    f.chunkCount.toNat ≤ maxChunksPerFrame ↔
      f.jpg.length ≤ maxChunksPerFrame * kChunkPayload := by
  have hpos := f.jpg_pos
  rw [f.chunkCount_toNat]
  unfold maxChunksPerFrame kChunkPayload
  omega

/-- **Which frames can be shown.**  Every picture of an accepted size is sent as a frame.  Deliver
its datagrams, in any order, to a receiver that is not in the middle of a frame: it decodes exactly
that picture, once, if and only if it has at most `maxChunksPerFrame * kChunkPayload` bytes. -/
theorem VideoFrame.shown_once_iff (host : CaptureState) (x : Capture)
    (hpos : 0 < x.jpg.length) (hle : x.jpg.length ≤ maxJpgBytes) :
    ∃ host' f, captureFrame host x = some (host', [f]) ∧
      ∀ s : VideoLoop, s.activeFrameId = -1 →
      ∀ ds : List (List UInt8), ds.Perm f.datagrams →
        ((runVideoLoop s ds).map (fun r => r.2.map DecodeCall.jpeg) = some [x.jpg] ↔
          x.jpg.length ≤ maxChunksPerFrame * kChunkPayload) := by
  obtain ⟨host', f, hsend, hjpg, -⟩ := captureFrame_accepted hpos hle host
  refine ⟨host', f, hsend, fun s hs ds hds => ?_⟩
  -- in terms of chunks, both directions are about what the receiver accepts
  rw [← hjpg, ← chunkCount_le_iff]
  constructor
  · intro hrun
    rcases Nat.lt_or_ge maxChunksPerFrame f.chunkCount.toNat with hbig | hsmall
    · rw [runVideoLoop_oversized hbig s hds] at hrun
      cases hrun
    · exact hsmall
  · intro hcount
    obtain ⟨t, hrun⟩ := runVideoLoop_perm hcount hs hds
    rw [hrun]
    rfl

/-- A picture of three chunks, whose datagrams arrive in the wrong order. -/
theorem VideoFrame.shown_once_iff_reversed :
    ∃ host' f, captureFrame { fpsWindowStart := 0 }
        ⟨replicate 3000 0xFF, 1920, 1080, true, 0⟩ = some (host', [f]) ∧
      (runVideoLoop {} f.datagrams.reverse).map (fun r => r.2.map DecodeCall.jpeg) =
        some [replicate 3000 0xFF] := by
  have hlen : (replicate 3000 (0xFF : UInt8)).length = 3000 := length_replicate
  obtain ⟨host', f, hsend, hshown⟩ := shown_once_iff { fpsWindowStart := 0 }
    ⟨replicate 3000 0xFF, 1920, 1080, true, 0⟩ (by rw [hlen]; omega) (by rw [hlen]; decide)
  refine ⟨host', f, hsend, (hshown {} rfl _ (reverse_perm _)).2 ?_⟩
  rw [hlen]
  decide

/-- One byte more than the receiver has chunks for: the capture thread sends the
picture in 257 datagrams, and the receiver drops every one of them. -/
theorem VideoFrame.oversized_never_shown :
    ∃ host' f, captureFrame { fpsWindowStart := 0 }
        ⟨replicate 348161 0xFF, 1920, 1080, true, 0⟩ = some (host', [f]) ∧
      f.chunkCount.toNat = 257 ∧
      (runVideoLoop {} f.datagrams).map (fun r => r.2.map DecodeCall.jpeg) = some [] := by
  have hlen : (replicate 348161 (0xFF : UInt8)).length = 348161 := length_replicate
  obtain ⟨host', f, hsend, hjpg, -⟩ := captureFrame_accepted
    (by rw [hlen]; omega) (by rw [hlen]; decide) { fpsWindowStart := 0 }
    (x := ⟨replicate 348161 0xFF, 1920, 1080, true, 0⟩)
  have hcount : f.chunkCount.toNat = 257 := by
    rw [f.chunkCount_toNat, hjpg, hlen]
    rfl
  refine ⟨host', f, hsend, hcount, ?_⟩
  -- 257 chunks are one more than the receiver accepts
  have hbig : maxChunksPerFrame < f.chunkCount.toNat := by
    rw [hcount]
    decide
  rw [runVideoLoop_oversized hbig {} (List.Perm.refl _)]
  rfl

/-! ## Many frames over any network -/

/-- **Frames are never mixed.**  Whatever datagrams of frames with distinct ids arrive, lost,
repeated and reordered in any way, the loop does not raise, and what it hands to the decoder is the
whole picture of one of the frames, with its own header fields. -/
theorem VideoFrame.never_mixed (frames : List VideoFrame)
    (hids : (frames.map fid).Nodup) (s : VideoLoop) (hs : s.activeFrameId = -1)
    (ds : List (List UInt8)) (hds : ∀ d ∈ ds, ∃ f ∈ frames, d ∈ f.datagrams) :
    ∃ t shown, runVideoLoop s ds = some (t, shown) ∧
      ∀ o ∈ shown, ∃ f ∈ frames, o = f.shown := by
  obtain ⟨t, t', os', hfeed, hrun⟩ := runVideoLoop_follows hids hs hds
  refine ⟨t, _, hrun, fun o ho => ?_⟩
  -- what is seen of the datagrams are pieces of the frames
  have hpieces : ∀ p ∈ ds.filterMap viewDatagram,
      ∃ m ∈ frames.map message, p ∈ m.pieces := by
    intro p hp
    obtain ⟨d, hd, hview⟩ := mem_filterMap.1 hp
    obtain ⟨f, hf, hdf⟩ := hds d hd
    exact ⟨f.message, mem_map_of_mem hf, view_mem_pieces hdf hview⟩
  obtain ⟨u, os, hfeed', -, hos⟩ := feed_honest (nodup_message_ids hids) hpieces
  obtain ⟨rfl, rfl⟩ := Prod.mk.inj (Option.some.inj (hfeed.symm.trans hfeed'))
  obtain ⟨o', ho', rfl⟩ := mem_map.1 ho
  obtain ⟨m, hm, rfl⟩ := hos o' ho'
  obtain ⟨f, hf, rfl⟩ := mem_map.1 hm
  exact ⟨f, hf, decodeCall_message f⟩

/-- A frame whose picture has so many bytes. -/
def sampleFrame (fid : UInt16) (n : Nat) (hn : 0 < n ∧ n ≤ maxJpgBytes) : VideoFrame :=
  ⟨fid, 1920, 1080, 3, 60, replicate n 0xFF, by rw [length_replicate]; exact hn.1,
    by rw [length_replicate]; exact hn.2⟩

/-- Two frames of several chunks: a chunk of the first is lost, the chunks of the second come in
between, and then those of the first again, backwards. -/
theorem VideoFrame.never_mixed_twoFrames :
    let f := sampleFrame 1 3000 (by decide)
    let g := sampleFrame 2 2000 (by decide)
    ∃ t shown, runVideoLoop {} (f.datagrams.drop 1 ++ g.datagrams ++ f.datagrams.reverse) =
        some (t, shown) ∧
      ∀ o ∈ shown, ∃ h ∈ [f, g], o = h.shown := by
  intro f g
  refine never_mixed [f, g] (by decide : [(1 : UInt16), 2].Nodup) {} rfl _ fun d hd => ?_
  rcases mem_append.1 hd with hd | hd
  · rcases mem_append.1 hd with hd | hd
    · exact ⟨f, mem_cons_self, mem_of_mem_drop hd⟩
    · exact ⟨g, mem_cons_of_mem f mem_cons_self, hd⟩
  · exact ⟨f, mem_cons_self, mem_reverse.1 hd⟩
