/-
# The host's discovery replies

`QuicServerLoop` answers two kinds of discovery datagram with the host's metadata: a plain
one with a JSON text built in a buffer of 384 bytes, one in a QUIC Initial packet with an
acknowledgement that `BuildQuicAckPacket` builds in 512 bytes, its JSON text first in 320.
The texts are printed by `snprintf` without escapes; the plain reply is sent with the length
that `snprintf` returned, the other with the length of what fitted.
-/
import XyDeskRemote.JsonText
import XyDeskRemote.Utf8RoundTrip
import XyDeskRemote.WorkerText

open Utf8 List

namespace QuicDiscovery

open WorkerText (lit)
open JsonText

/-! ## Texts in C -/

/-- The bytes of an ASCII literal. -/
def ascii (s : String) : List UInt8 := s.toList.map fun c => UInt8.ofNat c.toNat

/-- A string in an array of `cap` characters, up to its NUL. -/
structure CharArray (cap : ℕ) where
  bytes : List UInt8
  noNul : ∀ b ∈ bytes, b ≠ 0
  fits : bytes.length < cap

/-- The string at the front of a buffer. -/
def cString (buffer : List UInt8) : List UInt8 := buffer.takeWhile fun b => b ≠ 0

/-- The conversion `%u`. -/
def decimal (n : ℕ) : List UInt8 := (Numeral.digits 10 n).map fun d => UInt8.ofNat (0x30 + d)

/-- The text that a format asks for, cut at its conversions: what stands in front of each
with what is printed for it, and what stands behind the last. -/
def printf : List (String × List UInt8) → String → List UInt8
  | [], last => ascii last
  | (text, arg) :: rest, last => ascii text ++ (arg ++ printf rest last)

/-- `snprintf` into a zeroed buffer of `cap` bytes: the buffer, and the length returned. -/
def snprintf (cap : ℕ) (text : List UInt8) : List UInt8 × ℕ :=
  ((text.take (cap - 1)).rightpad cap 0, text.length)

/-! ## The metadata and its texts -/

/-- `XyQuicHostMetadata`. -/
structure XyQuicHostMetadata where
  pc_id : CharArray 32
  hostname : CharArray 128
  primary_ip : CharArray 64
  gpu_name : CharArray 128
  gpu_encoder : CharArray 32
  rdp_port : UInt16
  quic_port : UInt16
  max_fps : UInt32

variable (m : XyQuicHostMetadata)

/-- The two kinds of discovery datagram: plain, or in a QUIC Initial packet. -/
inductive Probe where
  | plain
  | initial
  deriving DecidableEq

/-- The format of a reply's text with its arguments. -/
def jsonFormat : Probe → List (String × List UInt8) × String
  | .plain =>
    ([("\x7b\"proto\":\"XYDESK-QUIC-1\",\"pc_id\":\"", m.pc_id.bytes),
      ("\",\"hostname\":\"", m.hostname.bytes), ("\",\"ip\":\"", m.primary_ip.bytes),
      ("\",\"gpu\":\"", m.gpu_name.bytes), ("\",\"encoder\":\"", m.gpu_encoder.bytes),
      ("\",\"rdp_port\":", decimal m.rdp_port.toNat),
      (",\"quic_port\":", decimal m.quic_port.toNat),
      (",\"max_fps\":", decimal m.max_fps.toNat)],
      ",\"console_stream\":true\x7d")
  | .initial =>
    ([("\x7b\"pcId\":\"", m.pc_id.bytes), ("\",\"hostname\":\"", m.hostname.bytes),
      ("\",\"ip\":\"", m.primary_ip.bytes), ("\",\"gpu\":\"", m.gpu_name.bytes),
      ("\",\"encoder\":\"", m.gpu_encoder.bytes),
      ("\",\"rdpPort\":", decimal m.rdp_port.toNat),
      (",\"quicPort\":", decimal m.quic_port.toNat),
      (",\"maxFps\":", decimal m.max_fps.toNat)],
      ",\"avc444\":true\x7d")

/-- The whole text of a reply. -/
def jsonText (probe : Probe) : List UInt8 := printf (jsonFormat m probe).1 (jsonFormat m probe).2

/-! ## Replies -/

/-- `kDiscoverMagic`. -/
def kDiscoverMagic : List UInt8 := ascii "XYDESK_QUIC_DISCOVER_V1"

/-- `kAckMagic`. -/
def kAckMagic : List UInt8 := ascii "XYDESK_QUIC_ACK_V1"

/-- `kAudioSubMagic`. -/
def kAudioSubMagic : List UInt8 := ascii "XYDESK_QUIC_AUDIO_SUB_V1"

/-- `kMicPktMagic`. -/
def kMicPktMagic : List UInt8 := ascii "XYM1"

/-- The top two bits of the first byte mark a QUIC packet with a long header. -/
def longHeader (rx : List UInt8) : Bool := rx.headD 0 &&& 0xC0 = 0xC0

/-- Which branch of `QuicServerLoop` a datagram takes, where that is one of the two.  The
receive buffer has 1500 bytes. -/
def probeOf (rx : List UInt8) : Option Probe :=
  let n := rx.length
  if 1500 < n then none
  else if 12 ≤ n ∧ rx.take 4 = ascii "XYI1" then none
  else if 8 ≤ n ∧ rx.take 4 = ascii "XYV1" then none
  else if 8 ≤ n ∧ rx.take (min n 24) = kAudioSubMagic.take (min n 24) then none
  else if 8 < n ∧ rx.take 4 = kMicPktMagic then none
  else if 24 ≤ n ∧ rx.take 24 = ascii "XYDESK_QUIC_WALLPAPER_V1" then none
  else if 23 ≤ n ∧ rx.take 23 = kDiscoverMagic then some .plain
  else if 24 ≤ n ∧ longHeader rx ∧ 23 ≤ n - 24 ∧ (rx.drop 24).take 23 = kDiscoverMagic then
    some .initial
  else none

/-- A reply: the buffer it was built in, how many of its bytes the message takes, and the
length given to `sendto`. -/
structure Reply where
  buffer : List UInt8
  written : ℕ
  claimed : ℕ

/-- The reply to a plain probe: a `char json[384]`, sent with the length that `snprintf`
returned. -/
def discoveryReply : Option Reply :=
  let json := snprintf 384 (jsonText m .plain)
  if 0 < json.2 then some ⟨json.1, (cString json.1).length, json.2⟩ else none

/-- The header of the acknowledgement, with the client's connection id. -/
def ackHeader (rx : List UInt8) : List UInt8 :=
  [0xC0, 0x00, 0x00, 0x00, 0x01, 8] ++ (rx.drop 15).take 8 ++ [8] ++ ascii "XYHOST01" ++ [0x00]

/-- The bytes that `BuildQuicAckPacket` writes; none where it returns 0. -/
def buildQuicAckPacket (cap : ℕ) (rx : List UInt8) : List UInt8 :=
  if cap < 256 ∨ rx.length < 24 then []
  else
    let out := ackHeader rx ++ kAckMagic ++ [0]
    let json := cString (snprintf 320 (jsonText m .initial)).1
    if out.length + (json.length + 1) ≤ cap then out ++ json ++ [0] else out

/-- The reply to a probe in a QUIC packet, from a `uint8_t tx[512]`. -/
def ackReply (rx : List UInt8) : Option Reply :=
  let tx := buildQuicAckPacket m 512 rx
  if 0 < tx.length then some ⟨tx.rightpad 512 0, tx.length, tx.length⟩ else none

/-- What the host sends back to a datagram. -/
def reply (rx : List UInt8) : Option Reply :=
  match probeOf rx with
  | none => none
  | some .plain => discoveryReply m
  | some .initial => ackReply m rx

/-! ## The client -/

/-- The text a client takes out of the datagram: all of it, or in a QUIC packet the C string
behind the magic, replaced by an empty object if it does not begin with a brace. -/
def clientText : Probe → List UInt8 → Option (List UInt8)
  | .plain, datagram => some (datagram.take 1024)
  | .initial, datagram =>
    let rx := datagram.take 511
    if 24 < rx.length ∧ longHeader rx ∧ 19 < rx.length - 24 ∧
        (rx.drop 24).take 18 = kAckMagic then
      let json := cString (rx.drop 43)
      if json.head? = some 0x7B then some json else some (ascii "\x7b\x7d")
    else none

/-- A member of a reply. -/
inductive Field where
  | text (bytes : List UInt8)
  | number (n : ℕ)
  | flag (b : Bool)

/-- The members of a reply: the metadata, and what marks the reply itself. -/
def fields : Probe → List (CodeUnits × Field)
  | .plain =>
    [(lit "proto", .text (ascii "XYDESK-QUIC-1")), (lit "pc_id", .text m.pc_id.bytes),
      (lit "hostname", .text m.hostname.bytes), (lit "ip", .text m.primary_ip.bytes),
      (lit "gpu", .text m.gpu_name.bytes), (lit "encoder", .text m.gpu_encoder.bytes),
      (lit "rdp_port", .number m.rdp_port.toNat), (lit "quic_port", .number m.quic_port.toNat),
      (lit "max_fps", .number m.max_fps.toNat), (lit "console_stream", .flag true)]
  | .initial =>
    [(lit "pcId", .text m.pc_id.bytes), (lit "hostname", .text m.hostname.bytes),
      (lit "ip", .text m.primary_ip.bytes), (lit "gpu", .text m.gpu_name.bytes),
      (lit "encoder", .text m.gpu_encoder.bytes), (lit "rdpPort", .number m.rdp_port.toNat),
      (lit "quicPort", .number m.quic_port.toNat), (lit "maxFps", .number m.max_fps.toNat),
      (lit "avc444", .flag true)]

/-- The member that was read stands for the field: a string whose UTF-8 is the field's bytes,
or the same number or truth value. -/
def Field.ReadAs : Field → Option Value → Prop
  | .text bytes, v => ∃ s, v = some (.string s) ∧ encode s = bytes
  | .number n, v => v = some (.integer n)
  | .flag b, v => v = some (.boolean b)

/-- The text is one JSON object, and all fields are read from it. -/
def Recovered (probe : Probe) (text : List UInt8) : Prop :=
  ∃ members, parse (decode text) = some members ∧
    ∀ f ∈ fields m probe, f.2.ReadAs (member members f.1)

/-- A reply as it should be: sent with its own length, within its buffer, and the client
recovers the metadata from its text. -/
structure Reply.WellFormed (r : Reply) (probe : Probe) : Prop where
  length : r.claimed = r.written
  bound : r.claimed ≤ r.buffer.length
  text : ∃ text, clientText probe (r.buffer.take r.claimed) = some text ∧ Recovered m probe text

/-! ## When a reply is well formed -/

/-- The UTF-8 of a text that needs no escape. -/
def Printable (bytes : List UInt8) : Prop := ∃ s, Plain s ∧ encode s = bytes

/-- The five texts and the three numbers as they are printed. -/
def size : ℕ :=
  m.pc_id.bytes.length + m.hostname.bytes.length + m.primary_ip.bytes.length +
    m.gpu_name.bytes.length + m.gpu_encoder.bytes.length + (decimal m.rdp_port.toNat).length +
    (decimal m.quic_port.toNat).length + (decimal m.max_fps.toNat).length

/-- What the buffers leave for them. -/
def room : Probe → ℕ
  | .plain => 245
  | .initial => 217

/-- The texts are printable and there is room for everything. -/
structure Sendable (probe : Probe) : Prop where
  pc_id : Printable m.pc_id.bytes
  hostname : Printable m.hostname.bytes
  primary_ip : Printable m.primary_ip.bytes
  gpu_name : Printable m.gpu_name.bytes
  gpu_encoder : Printable m.gpu_encoder.bytes
  short : size m ≤ room probe

/-! ## Printed texts -/

/-- ASCII characters only. -/
def IsAscii (bytes : List UInt8) : Prop := ∀ b ∈ bytes, b.toNat < 0x80

instance (bytes : List UInt8) : Decidable (IsAscii bytes) :=
  inferInstanceAs (Decidable (∀ b ∈ bytes, b.toNat < 0x80))

/-- A piece of a format that keeps two conversions apart. -/
def Separator (text : String) : Prop :=
  ascii text ≠ [] ∧ IsAscii (ascii text) ∧ (0 : UInt8) ∉ ascii text

instance (text : String) : Decidable (Separator text) :=
  inferInstanceAs (Decidable (ascii text ≠ [] ∧ IsAscii (ascii text) ∧ (0 : UInt8) ∉ ascii text))

/-- The text of a format over code units. -/
def printfUnits : List (String × List UInt8) → String → CodeUnits
  | [], last => asciiUnits (ascii last)
  | (text, arg) :: rest, last =>
    asciiUnits (ascii text) ++ (decode arg ++ printfUnits rest last)

/-- **Each conversion is decoded as if it stood alone.** -/
theorem decode_printf {pieces : List (String × List UInt8)}
    (hpieces : ∀ text ∈ pieces.map Prod.fst, Separator text) {last : String}
    (hlast : Separator last) : decode (printf pieces last) = printfUnits pieces last := by
  induction pieces with
  | nil =>
    have h := decode_ascii_append hlast.2.1 []
    rw [append_nil] at h
    rw [printf, h]
    exact append_nil _
  | cons p rest ih =>
    obtain ⟨text, arg⟩ := p
    rw [map_cons, forall_mem_cons] at hpieces
    obtain ⟨htext, hrest⟩ := hpieces
    -- what follows the conversion begins with ASCII text
    have htail : ∃ t y, Separator t ∧ printf rest last = ascii t ++ y := by
      cases rest with
      | nil => exact ⟨last, [], hlast, (append_nil _).symm⟩
      | cons q rest => exact ⟨q.1, _, hrest _ mem_cons_self, rfl⟩
    obtain ⟨t, y, ht, htail⟩ := htail
    have hdecode : decode (arg ++ printf rest last) =
        decode arg ++ decode (printf rest last) := by
      rw [htail, decode_append_ascii arg ht.1 ht.2.1, decode_ascii_append ht.2.1]
    rw [printf, decode_ascii_append htext.2.1, hdecode, ih hrest]
    rfl

theorem length_printf (pieces : List (String × List UInt8)) (last : String) :
    (printf pieces last).length =
      ((pieces.map Prod.fst ++ [last]).map fun text => (ascii text).length).sum +
        (pieces.map fun p => p.2.length).sum := by
  induction pieces with
  | nil => rfl
  | cons p rest ih =>
    rw [printf, length_append, length_append, ih]
    simp only [map_cons, cons_append, sum_cons]
    omega

theorem noNul_printf {pieces : List (String × List UInt8)}
    (hpieces : ∀ text ∈ pieces.map Prod.fst, Separator text) {last : String}
    (hlast : Separator last) (hargs : ∀ arg ∈ pieces.map Prod.snd, (0 : UInt8) ∉ arg) :
    (0 : UInt8) ∉ printf pieces last := by
  induction pieces with
  | nil => exact hlast.2.2
  | cons p rest ih =>
    rw [map_cons, forall_mem_cons] at hpieces hargs
    rw [printf, mem_append, mem_append]
    rintro (h | h | h)
    · exact hpieces.1.2.2 h
    · exact hargs.1 h
    · exact ih hpieces.2 hargs.2 h

theorem decimal_byte : ∀ d < 10, (UInt8.ofNat (0x30 + d)).toNat < 0x80 ∧
    UInt8.ofNat (0x30 + d) ≠ 0 ∧
    UInt16.ofNat (UInt8.ofNat (0x30 + d)).toNat = UInt16.ofNat (0x30 + d) := by
  decide

theorem decode_decimal (n : ℕ) : decode (decimal n) = decimalDigits n := by
  have hlt : ∀ d ∈ Numeral.digits 10 n, d < 10 := fun d hd => Numeral.digits_lt (by decide) hd
  have hascii : IsAscii (decimal n) := by
    intro b hb
    obtain ⟨d, hd, rfl⟩ := mem_map.1 hb
    exact (decimal_byte d (hlt d hd)).1
  have h := decode_ascii_append hascii []
  rw [append_nil] at h
  rw [h]
  show asciiUnits (decimal n) ++ [] = _
  rw [append_nil, asciiUnits, decimal, map_map]
  exact map_congr_left fun d hd => (decimal_byte d (hlt d hd)).2.2

theorem noNul_decimal (n : ℕ) : (0 : UInt8) ∉ decimal n := by
  intro h
  obtain ⟨d, hd, hzero⟩ := mem_map.1 h
  exact (decimal_byte d (Numeral.digits_lt (by decide) hd)).2.1 hzero

theorem CharArray.zero_notMem {cap : ℕ} (s : CharArray cap) : (0 : UInt8) ∉ s.bytes :=
  fun h => s.noNul 0 h rfl

/-- The most of a text that the buffer holds. -/
def limit : Probe → ℕ
  | .plain => 383
  | .initial => 319

/-- A field as a member to print. -/
def Field.scalar : Field → Scalar
  | .text bytes => .string (decode bytes)
  | .number n => .natural n
  | .flag b => .boolean b

/-- The fields as they are printed. -/
def printed (probe : Probe) : List (CodeUnits × Scalar) :=
  (fields m probe).map fun f => (f.1, f.2.scalar)

/-- The text between the conversions is ASCII. -/
theorem separator_jsonFormat (probe : Probe) :
    (∀ text ∈ (jsonFormat m probe).1.map Prod.fst, Separator text) ∧
      Separator (jsonFormat m probe).2 := by
  cases probe with
  | plain =>
    simp only [jsonFormat, map_cons, map_nil]
    decide
  | initial =>
    simp only [jsonFormat, map_cons, map_nil]
    decide

/-- **The host's text is the printed object.** -/
theorem decode_jsonText (probe : Probe) :
    decode (jsonText m probe) = printObject (printed m probe) := by
  obtain ⟨htexts, hlast⟩ := separator_jsonFormat m probe
  rw [jsonText, decode_printf htexts hlast]
  cases probe with
  | plain =>
    simp only [jsonFormat, printfUnits, decode_decimal]
    rfl
  | initial =>
    simp only [jsonFormat, printfUnits, decode_decimal]
    rfl

/-- It fits where there is room for the values. -/
theorem length_jsonText (probe : Probe) :
    (jsonText m probe).length + room probe = size m + limit probe := by
  have hargs : ((jsonFormat m probe).1.map fun p => p.2.length).sum = size m := by
    cases probe with
    | plain =>
      simp only [jsonFormat, map_cons, map_nil, sum_cons, sum_nil, size]
      omega
    | initial =>
      simp only [jsonFormat, map_cons, map_nil, sum_cons, sum_nil, size]
      omega
  have htexts : (((jsonFormat m probe).1.map Prod.fst ++ [(jsonFormat m probe).2]).map
      fun text => (ascii text).length).sum + room probe = limit probe := by
    cases probe with
    | plain =>
      simp only [jsonFormat, map_cons, map_nil, cons_append, nil_append]
      decide
    | initial =>
      simp only [jsonFormat, map_cons, map_nil, cons_append, nil_append]
      decide
  rw [jsonText, length_printf, hargs]
  omega

theorem noNul_jsonText (probe : Probe) : (0 : UInt8) ∉ jsonText m probe := by
  obtain ⟨htexts, hlast⟩ := separator_jsonFormat m probe
  apply noNul_printf htexts hlast
  cases probe with
  | plain =>
    simp only [jsonFormat, map_cons, map_nil, forall_mem_cons]
    exact ⟨m.pc_id.zero_notMem, m.hostname.zero_notMem, m.primary_ip.zero_notMem,
      m.gpu_name.zero_notMem, m.gpu_encoder.zero_notMem, noNul_decimal _, noNul_decimal _,
      noNul_decimal _, fun _ h => absurd h not_mem_nil⟩
  | initial =>
    simp only [jsonFormat, map_cons, map_nil, forall_mem_cons]
    exact ⟨m.pc_id.zero_notMem, m.hostname.zero_notMem, m.primary_ip.zero_notMem,
      m.gpu_name.zero_notMem, m.gpu_encoder.zero_notMem, noNul_decimal _, noNul_decimal _,
      noNul_decimal _, fun _ h => absurd h not_mem_nil⟩

/-! ## What arrives -/

theorem cString_snprintf {text : List UInt8} (htext : (0 : UInt8) ∉ text) {cap : ℕ}
    (hcap : 0 < cap) : cString (snprintf cap text).1 = text.take (cap - 1) := by
  have htake : ∀ b ∈ text.take (cap - 1), decide (b ≠ 0) = true := by
    intro b hb
    rw [decide_eq_true_iff]
    rintro rfl
    exact htext (mem_of_mem_take hb)
  have hlen : (text.take (cap - 1)).length < cap := by
    rw [length_take]
    omega
  obtain ⟨k, hk⟩ := Nat.exists_eq_add_of_lt hlen
  have hpad : cap - (text.take (cap - 1)).length = k + 1 := by omega
  rw [cString, snprintf, rightpad, takeWhile_append_of_pos htake, hpad,
    replicate_succ, takeWhile_cons_of_neg (by decide), append_nil]

theorem length_ackOut {rx : List UInt8} (hrx : 24 ≤ rx.length) :
    (ackHeader rx).length = 24 ∧ (ackHeader rx ++ kAckMagic ++ [0]).length = 43 := by
  have hheader : (ackHeader rx).length = 24 := by
    unfold ackHeader
    simp only [length_append, length_take, length_drop, length_cons, length_nil]
    have hhost : (ascii "XYHOST01").length = 8 := by decide
    omega
  refine ⟨hheader, ?_⟩
  have hmagic : kAckMagic.length = 18 := by decide
  rw [length_append, length_append, hheader, hmagic]
  rfl

/-- The acknowledgement always has its text, cut to what the first buffer holds. -/
theorem buildQuicAckPacket_eq {rx : List UInt8} (hrx : 24 ≤ rx.length) :
    buildQuicAckPacket m 512 rx =
      ackHeader rx ++ kAckMagic ++ [0] ++ (jsonText m .initial).take 319 ++ [0] := by
  have hjson : cString (snprintf 320 (jsonText m .initial)).1 = (jsonText m .initial).take 319 :=
    cString_snprintf (noNul_jsonText m .initial) (by decide)
  have hlen : ((jsonText m .initial).take 319).length ≤ 319 := List.length_take_le _ _
  have hshort : ¬ (512 < 256 ∨ rx.length < 24) := by omega
  unfold buildQuicAckPacket
  dsimp only
  rw [if_neg hshort, hjson, (length_ackOut hrx).2, if_pos (by omega)]

theorem jsonText_end (probe : Probe) : ∃ x, jsonText m probe = x ++ [0x7D] := by
  have hend : ∀ (pieces : List (String × List UInt8)) {last : String} {y : List UInt8},
      ascii last = y ++ [0x7D] → ∃ x, printf pieces last = x ++ [0x7D] := by
    intro pieces last y hlast
    induction pieces with
    | nil => exact ⟨y, hlast⟩
    | cons p rest ih =>
      obtain ⟨x, hx⟩ := ih
      refine ⟨ascii p.1 ++ (p.2 ++ x), ?_⟩
      rw [printf, hx, append_assoc, append_assoc]
  have hplain : ascii ",\"console_stream\":true\x7d" =
      ascii ",\"console_stream\":true" ++ [0x7D] := by
    decide
  have hinitial : ascii ",\"avc444\":true\x7d" = ascii ",\"avc444\":true" ++ [0x7D] := by decide
  cases probe with
  | plain => exact hend _ hplain
  | initial => exact hend _ hinitial

theorem head?_jsonText (probe : Probe) : (jsonText m probe).head? = some 0x7B := by
  cases probe with
  | plain => rfl
  | initial => rfl

/-- **The client takes the text out of the acknowledgement.** -/
theorem clientText_ack {rx : List UInt8} (hrx : 24 ≤ rx.length) :
    clientText .initial (buildQuicAckPacket m 512 rx) =
      some ((jsonText m .initial).take 319) := by
  set json := (jsonText m .initial).take 319 with hjson
  have hheader := length_ackOut hrx
  have hlen : json.length ≤ 319 := List.length_take_le _ _
  have hpacket : buildQuicAckPacket m 512 rx =
      (ackHeader rx ++ kAckMagic ++ [0]) ++ (json ++ [0]) := by
    rw [buildQuicAckPacket_eq m hrx, append_assoc]
  have hhead : json.head? = some 0x7B := by
    rw [hjson, head?_take, if_neg (by decide), head?_jsonText]
  have hnoNul : ∀ b ∈ json, decide (b ≠ 0) = true := by
    intro b hb
    rw [decide_eq_true_iff]
    rintro rfl
    exact noNul_jsonText m .initial (mem_of_mem_take hb)
  have htake : (buildQuicAckPacket m 512 rx).take 511 = buildQuicAckPacket m 512 rx := by
    apply take_of_length_le
    rw [hpacket, length_append, hheader.2, length_append, length_singleton]
    omega
  have hdrop : (buildQuicAckPacket m 512 rx).drop 43 = json ++ [0] := by
    rw [hpacket, drop_append_of_le_length (Nat.le_of_eq hheader.2.symm),
      drop_eq_nil_of_le (Nat.le_of_eq hheader.2), nil_append]
  have hmagic : ((buildQuicAckPacket m 512 rx).drop 24).take 18 = kAckMagic := by
    rw [hpacket, append_assoc, append_assoc, drop_left' hheader.1, take_left' (by decide)]
  have hlong : longHeader (buildQuicAckPacket m 512 rx) = true := by
    obtain ⟨t, ht⟩ : ∃ t, ackHeader rx ++ kAckMagic ++ [0] ++ (json ++ [0]) = 0xC0 :: t := ⟨_, rfl⟩
    rw [hpacket, ht]
    show decide ((0xC0 : UInt8) &&& 0xC0 = 0xC0) = true
    decide
  have hsize : 43 < (buildQuicAckPacket m 512 rx).length := by
    rw [hpacket, length_append, hheader.2, length_append, length_singleton]
    omega
  have hstring : cString (json ++ [0]) = json := by
    rw [cString, takeWhile_append_of_pos hnoNul, takeWhile_cons_of_neg (by decide), append_nil]
  unfold clientText
  dsimp only
  rw [htake, hdrop, hstring, if_pos ⟨by omega, hlong, by omega, hmagic⟩, if_pos hhead]

theorem probeOf_initial {rx : List UInt8} (h : probeOf rx = some .initial) : 24 ≤ rx.length := by
  unfold probeOf at h
  dsimp only at h
  repeat' split at h
  all_goals cases h
  omega

/-- What is left to ask of a reply, for either kind of probe: the plain text must fit, and
the client must recover the metadata from what the buffer holds. -/
theorem reply_wellFormed_iff {rx : List UInt8} {probe : Probe} (h : probeOf rx = some probe) :
    (∃ r, reply m rx = some r ∧ r.WellFormed m probe) ↔
      (probe = .plain → (jsonText m probe).length ≤ limit probe) ∧
        Recovered m probe ((jsonText m probe).take (limit probe)) := by
  unfold reply
  rw [h]
  cases probe with
  | plain =>
    have hjson : cString (snprintf 384 (jsonText m .plain)).1 = (jsonText m .plain).take 383 :=
      cString_snprintf (noNul_jsonText m .plain) (by decide)
    have hpos : 0 < (jsonText m .plain).length := by
      have hroom : (jsonText m .plain).length + 245 = size m + 383 := length_jsonText m .plain
      omega
    have hreply : discoveryReply m = some ⟨(snprintf 384 (jsonText m .plain)).1,
        ((jsonText m .plain).take 383).length, (jsonText m .plain).length⟩ := by
      unfold discoveryReply
      dsimp only
      rw [if_pos (by exact hpos), hjson]
      rfl
    have hbuffer : (snprintf 384 (jsonText m .plain)).1 =
        (jsonText m .plain).take 383 ++
          replicate (384 - ((jsonText m .plain).take 383).length) 0 := rfl
    have hdatagram : (jsonText m .plain).length ≤ 383 →
        clientText .plain ((snprintf 384 (jsonText m .plain)).1.take (jsonText m .plain).length) =
          some (jsonText m .plain) := by
      intro hfit
      have htake : (jsonText m .plain).take 383 = jsonText m .plain :=
        take_of_length_le hfit
      rw [hbuffer, htake, take_left, clientText, take_of_length_le (by omega)]
    show (∃ r, discoveryReply m = some r ∧ _) ↔ _
    rw [hreply]
    constructor
    · rintro ⟨r, hr, hlength, -, text, htext, hrecovered⟩
      cases hr
      have hfit : (jsonText m .plain).length ≤ 383 := by
        rw [length_take] at hlength
        dsimp only at hlength
        omega
      rw [hdatagram hfit] at htext
      cases htext
      refine ⟨fun _ => hfit, ?_⟩
      rwa [limit, take_of_length_le hfit]
    · rintro ⟨hfit, hrecovered⟩
      have hfit : (jsonText m .plain).length ≤ 383 := hfit rfl
      rw [limit, take_of_length_le hfit] at hrecovered
      refine ⟨_, rfl, ?_, ?_, jsonText m .plain, hdatagram hfit, hrecovered⟩
      · dsimp only
        rw [take_of_length_le hfit]
      · dsimp only
        rw [hbuffer, length_append, length_replicate, length_take]
        omega
  | initial =>
    have hrx := probeOf_initial h
    have hlen : (buildQuicAckPacket m 512 rx).length =
        43 + ((jsonText m .initial).take 319).length + 1 := by
      rw [buildQuicAckPacket_eq m hrx, length_append, length_append,
        (length_ackOut hrx).2, length_singleton]
    have hbound : ((jsonText m .initial).take 319).length ≤ 319 := List.length_take_le _ _
    have hreply : ackReply m rx = some ⟨(buildQuicAckPacket m 512 rx).rightpad 512 0,
        (buildQuicAckPacket m 512 rx).length, (buildQuicAckPacket m 512 rx).length⟩ := by
      unfold ackReply
      dsimp only
      rw [if_pos (by omega)]
    have hdatagram : ((buildQuicAckPacket m 512 rx).rightpad 512 0).take
        (buildQuicAckPacket m 512 rx).length = buildQuicAckPacket m 512 rx := by
      rw [rightpad, take_left]
    show (∃ r, ackReply m rx = some r ∧ _) ↔ _
    rw [hreply]
    constructor
    · rintro ⟨r, hr, -, -, text, htext, hrecovered⟩
      cases hr
      rw [hdatagram, clientText_ack m hrx] at htext
      cases htext
      exact ⟨nofun, hrecovered⟩
    · rintro ⟨-, hrecovered⟩
      refine ⟨_, rfl, rfl, ?_, _, ?_, hrecovered⟩
      · dsimp only
        rw [rightpad, length_append, length_replicate]
        omega
      · dsimp only
        rw [hdatagram, clientText_ack m hrx]
        rfl

/-! ## The texts that come back -/

theorem isPlain_surrogate (u : UInt16)
    (hu : isHighSurrogate u = true ∨ isLowSurrogate u = true) :
    (!isPlain u) = false := by
  rw [isHighSurrogate_iff, isLowSurrogate_iff] at hu
  have hcontrol : 0x20 ≤ u := by
    show 0x20 ≤ u.toNat
    omega
  have hquote : u ≠ 0x22 := by
    rintro rfl
    revert hu
    decide
  have hslash : u ≠ 0x5C := by
    rintro rfl
    revert hu
    decide
  unfold isPlain
  simp [hcontrol, hquote, hslash]

/-- A text and what is read of its bytes need the same escapes. -/
theorem escapes_decode_encode (s : CodeUnits) :
    escapes (decode (encode s)) = escapes s := by
  rw [decode_encode]
  exact countP_toWellFormed (by decide) isPlain_surrogate s

theorem length_decode_encode (s : CodeUnits) :
    (decode (encode s)).length = s.length := by
  rw [decode_encode, length_toWellFormed]

/-- Printable bytes are decoded to a text without escapes and without loss. -/
theorem Printable.decode {bytes : List UInt8} (h : Printable bytes) :
    Plain (decode bytes) ∧ encode (decode bytes) = bytes := by
  obtain ⟨s, hs, rfl⟩ := h
  constructor
  · rw [plain_iff_escapes, escapes_decode_encode]
    exact plain_iff_escapes.1 hs
  · rw [decode_encode, encode_toWellFormed]

/-- A field is printable: its bytes are, if it is a text. -/
def Field.Printable : Field → Prop
  | .text bytes => QuicDiscovery.Printable bytes
  | _ => True

theorem fields_ne_nil (probe : Probe) : fields m probe ≠ [] := by
  cases probe with
  | plain => exact cons_ne_nil _ _
  | initial => exact cons_ne_nil _ _

theorem nodup_names (probe : Probe) : ((fields m probe).map Prod.fst).Nodup := by
  cases probe with
  | plain =>
    simp only [fields, map_cons, map_nil]
    decide
  | initial =>
    simp only [fields, map_cons, map_nil]
    decide

theorem plain_names (probe : Probe) : ∀ name ∈ (fields m probe).map Prod.fst, Plain name := by
  have hplain : ∀ names : List CodeUnits, (names.all fun name => name.all isPlain) = true →
      ∀ name ∈ names, Plain name := by
    intro names h name hname u hu
    exact all_eq_true.1 (all_eq_true.1 h name hname) u hu
  apply hplain
  cases probe with
  | plain =>
    simp only [fields, map_cons, map_nil]
    decide
  | initial =>
    simp only [fields, map_cons, map_nil]
    decide

/-- The member that a client has read for a field, as one to print. -/
def readScalar (members : List (CodeUnits × Value)) (f : CodeUnits × Field) : Scalar :=
  match f.2, member members f.1 with
  | .text _, some (.string s) => .string s
  | .text _, _ => .string []
  | .number n, _ => .natural n
  | .flag b, _ => .boolean b

theorem readScalar_spec {members : List (CodeUnits × Value)} {f : CodeUnits × Field}
    (h : f.2.ReadAs (member members f.1)) :
    member members f.1 = some (readScalar members f).toValue ∧
      (readScalar members f).size = f.2.scalar.size ∧
      ((readScalar members f).Plain → f.2.Printable) := by
  obtain ⟨name, field⟩ := f
  cases field with
  | text bytes =>
    obtain ⟨s, hs, rfl⟩ := h
    have hread : readScalar members (name, .text (encode s)) = .string s := by
      unfold readScalar
      rw [hs]
    rw [hread]
    refine ⟨hs, ?_, fun hplain => ⟨s, hplain, rfl⟩⟩
    show s.length + 2 = (decode (encode s)).length + 2
    rw [length_decode_encode]
  | number n => exact ⟨h, rfl, fun _ => trivial⟩
  | flag b => exact ⟨h, rfl, fun _ => trivial⟩

theorem printable_fields_iff (probe : Probe) :
    (∀ f ∈ fields m probe, f.2.Printable) ↔
      Printable m.pc_id.bytes ∧ Printable m.hostname.bytes ∧ Printable m.primary_ip.bytes ∧
        Printable m.gpu_name.bytes ∧ Printable m.gpu_encoder.bytes := by
  have hproto : Printable (ascii "XYDESK-QUIC-1") :=
    ⟨lit "XYDESK-QUIC-1", by decide, by decide⟩
  cases probe with
  | plain =>
    simp only [fields, forall_mem_cons, Field.Printable]
    simp [hproto]
  | initial =>
    simp only [fields, forall_mem_cons, Field.Printable]
    simp

/-- **The client recovers the metadata from what the buffer holds exactly when the texts are
printable and everything fits.** -/
theorem recovered_iff (probe : Probe) :
    Recovered m probe ((jsonText m probe).take (limit probe)) ↔
      (∀ f ∈ fields m probe, f.2.Printable) ∧ (jsonText m probe).length ≤ limit probe := by
  have hdecode := decode_jsonText m probe
  constructor
  · rintro ⟨members, hparse, hread⟩
    set es := (fields m probe).map fun f => (f.1, readScalar members f) with hes
    have hne : es ≠ [] := mt map_eq_nil_iff.1 (fields_ne_nil m probe)
    have hnames : (es.map Prod.fst).Nodup := by
      rw [hes, map_map]
      exact nodup_names m probe
    have hfound : ∀ e ∈ es, member members e.1 = some e.2.toValue := by
      intro e he
      obtain ⟨f, hf, rfl⟩ := mem_map.1 he
      exact (readScalar_spec (hread f hf)).1
    -- what was read is as long as what was printed
    have hsize : (printObject es).length = (printObject (printed m probe)).length := by
      have hprinted : printed m probe ≠ [] := mt map_eq_nil_iff.1 (fields_ne_nil m probe)
      rw [length_printObject hne, length_printObject hprinted, hes, printed, map_map, map_map]
      apply congrArg (1 + sum ·)
      apply map_congr_left
      intro f hf
      have hf := (readScalar_spec (hread f hf)).2.1
      show f.1.length + 2 + 1 + (readScalar members f).size + 1 =
        f.1.length + 2 + 1 + f.2.scalar.size + 1
      rw [hf]
    obtain ⟨hlong, hplain⟩ := plain_of_read hne hnames hparse hfound
    rw [hsize, ← hdecode] at hlong
    have hfit : (jsonText m probe).length ≤ limit probe := by
      by_contra hcut
      obtain ⟨x, hx⟩ := jsonText_end m probe
      have hx' : (jsonText m probe).length = x.length + 1 := by
        rw [hx, length_append, length_singleton]
      have hshort := length_decode_take_lt (x := x) (b := 0x7D) (by decide)
        (by omega : limit probe ≤ x.length)
      rw [← hx] at hshort
      omega
    refine ⟨?_, hfit⟩
    intro f hf
    apply (readScalar_spec (hread f hf)).2.2
    apply hplain _ (f.1, readScalar members f) (mem_map_of_mem hf)
    rw [take_of_length_le hfit, hdecode, hsize]
  · rintro ⟨hprintable, hfit⟩
    have hplain : ∀ e ∈ printed m probe, Plain e.1 ∧ e.2.Plain := by
      intro e he
      obtain ⟨f, hf, rfl⟩ := mem_map.1 he
      refine ⟨plain_names m probe f.1 (mem_map_of_mem hf), ?_⟩
      have hf := hprintable f hf
      obtain ⟨name, field⟩ := f
      cases field with
      | text bytes => exact hf.decode.1
      | number n => trivial
      | flag b => trivial
    have hprinted : printed m probe ≠ [] := mt map_eq_nil_iff.1 (fields_ne_nil m probe)
    have hparse := parse_printObject hprinted hplain
    rw [← hdecode, ← take_of_length_le hfit] at hparse
    refine ⟨_, hparse, ?_⟩
    intro f hf
    have hnames : ((printed m probe).map Prod.fst).Nodup := by
      rw [printed, map_map]
      exact nodup_names m probe
    have hmember := member_map hnames (e := (f.1, f.2.scalar)) (mem_map_of_mem hf)
    rw [hmember]
    have hf := hprintable f hf
    obtain ⟨name, field⟩ := f
    cases field with
    | text bytes => exact ⟨decode bytes, rfl, hf.decode.2⟩
    | number n => rfl
    | flag b => rfl

/-- **A reply to a discovery datagram is well formed exactly when the metadata can be sent.** -/
theorem wellFormed_iff {rx : List UInt8} {probe : Probe} (h : probeOf rx = some probe) :
    (∃ r, reply m rx = some r ∧ r.WellFormed m probe) ↔ Sendable m probe := by
  have hlength := length_jsonText m probe
  rw [reply_wellFormed_iff m h, recovered_iff, printable_fields_iff]
  constructor
  · rintro ⟨-, ⟨h₁, h₂, h₃, h₄, h₅⟩, hfit⟩
    exact ⟨h₁, h₂, h₃, h₄, h₅, by omega⟩
  · rintro ⟨h₁, h₂, h₃, h₄, h₅, hshort⟩
    have hfit : (jsonText m probe).length ≤ limit probe := by omega
    exact ⟨fun _ => hfit, ⟨h₁, h₂, h₃, h₄, h₅⟩, hfit⟩

/-- A host with short plain texts. -/
def officeHost : XyQuicHostMetadata where
  pc_id := ⟨ascii "323-223-5826", by decide, by decide⟩
  hostname := ⟨ascii "OFFICE", by decide, by decide⟩
  primary_ip := ⟨ascii "192.168.1.10", by decide, by decide⟩
  gpu_name := ⟨ascii "NVIDIA", by decide, by decide⟩
  gpu_encoder := ⟨ascii "NVENC", by decide, by decide⟩
  rdp_port := 3389
  quic_port := 4433
  max_fps := 120

theorem wellFormed_iff_office :
    ∃ r, reply officeHost kDiscoverMagic = some r ∧ r.WellFormed officeHost .plain :=
  (wellFormed_iff officeHost (by decide : probeOf kDiscoverMagic = some .plain)).2
    ⟨⟨lit "323-223-5826", by decide, by decide⟩,
      ⟨lit "OFFICE", by decide, by decide⟩,
      ⟨lit "192.168.1.10", by decide, by decide⟩,
      ⟨lit "NVIDIA", by decide, by decide⟩,
      ⟨lit "NVENC", by decide, by decide⟩, by decide⟩

/-- A field filled with one character. -/
def CharArray.filled (n : ℕ) (b : UInt8) (hb : b ≠ 0) : CharArray (n + 1) where
  bytes := replicate n b
  noNul := fun _ h => eq_of_mem_replicate h ▸ hb
  fits := by
    rw [length_replicate]
    exact Nat.lt_succ_self n

/-- A host whose names fill their fields. -/
def longNamedHost : XyQuicHostMetadata :=
  { officeHost with
    hostname := CharArray.filled 127 0x48 (by decide)
    gpu_name := CharArray.filled 127 0x47 (by decide) }

/-- Its reply would be sent from beyond the end of the buffer. -/
theorem long_names_overrun :
    ¬ ∀ (m : XyQuicHostMetadata) (rx : List UInt8) (probe : Probe), probeOf rx = some probe →
      ∃ r, reply m rx = some r ∧ r.WellFormed m probe := by
  intro h
  have hprobe : probeOf kDiscoverMagic = some .plain := by decide
  have hfit := ((reply_wellFormed_iff longNamedHost hprobe).1
    (h longNamedHost kDiscoverMagic .plain hprobe)).1 rfl
  have hlength := length_jsonText longNamedHost .plain
  have hsize : 254 ≤ size longNamedHost := by
    have hhostname : longNamedHost.hostname.bytes.length = 127 := length_replicate
    have hgpu : longNamedHost.gpu_name.bytes.length = 127 := length_replicate
    unfold size
    omega
  have hroom : room .plain = 245 := rfl
  have hlimit : limit .plain = 383 := rfl
  omega

end QuicDiscovery
