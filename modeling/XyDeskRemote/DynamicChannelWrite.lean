/-
# Writing to a dynamic channel

`drdynvc_write_data` of the `drdynvc` client: a message goes out in one `DATA` PDU when it fits,
and otherwise in a `DATA_FIRST` PDU, which has the length of the message, and `DATA` PDUs for the
rest.  Channel ids and lengths take one, two or four bytes, so that the room that is left in a
PDU depends on both.
-/
import XyDeskRemote.WStream

open LittleEndian List

namespace Drdynvc

/-! ## The code -/

/-- `CHANNEL_CHUNK_LENGTH`. -/
def channelChunkLength : ℕ := 1600

/-- `CHANNEL_RC_OK`. -/
def channelRcOk : ℕ := 0

/-- `CHANNEL_RC_BAD_INIT_HANDLE`. -/
def channelRcBadInitHandle : ℕ := 9

/-- `DATA_FIRST_PDU`. -/
def dataFirstPdu : ℕ := 0x02

/-- `DATA_PDU`. -/
def dataPdu : ℕ := 0x03

/-- `StreamPool_Take`: the stream of the pool that holds `stale`, when it is large enough, else a
new one. -/
def streamPoolTake (stale : List UInt8) (size : ℕ) : WStream :=
  if stale.length ≥ size then { buffer := stale } else WStream.new size

/-- What the `n`-th call of `StreamPool_Take` finds in the pool, and what the `n`-th call of
`drdynvc_send` returns. -/
structure Answers where
  pool : ℕ → List UInt8
  send : ℕ → ℕ

/-- `drdynvc_write_variable_uint`. -/
def writeVariableUint (s : WStream) (val : ℕ) : Option (ℕ × WStream) :=
  if val ≤ 0xFF then (s.writeUint8 val).map fun s => (0, s)
  else if val ≤ 0xFFFF then (s.writeUint16 val).map fun s => (1, s)
  else (s.writeUint32 val).map fun s => (2, s)

/-- The beginning of every PDU: a gap for the header, and the channel id. -/
def beginPdu (stale : List UInt8) (channelId : ℕ) : Option (ℕ × WStream) := do
  let dataOut ← (streamPoolTake stale channelChunkLength).setPosition 1
  writeVariableUint dataOut channelId

/-- Going back to the gap for the header. -/
def writeHeader (dataOut : WStream) (header : ℕ) : Option WStream := do
  let pos := dataOut.position
  let dataOut ← dataOut.setPosition 0
  let dataOut ← dataOut.writeUint8 header
  dataOut.setPosition pos

/-- What `drdynvc_write_data` returns, the PDUs that it has sent, and whether the channel is to be
closed. -/
structure WriteResult where
  status : ℕ
  pdus : List (List UInt8)
  close : Bool := false

/-- The loop of `drdynvc_write_data`, from the `n`-th PDU on. -/
def writeChunks (answers : Answers) (channelId : ℕ) :
    ℕ → ℕ → List UInt8 → Option WriteResult
  | _, _, [] => some { status := channelRcOk, pdus := [] }
  | 0, _, _ :: _ => none
  | fuel + 1, n, data@(_ :: _) => do
    let (cbChId, dataOut) ← beginPdu (answers.pool n) channelId
    let pos := dataOut.position
    let dataOut ← writeHeader dataOut (dataPdu <<< 4 ||| cbChId)
    if pos ≤ channelChunkLength then
      let clen := channelChunkLength - pos
      let chunkLength := if data.length > clen then clen else data.length
      let dataOut ← dataOut.write (data.take chunkLength)
      if answers.send n ≠ channelRcOk then
        some { status := answers.send n, pdus := [dataOut.written] }
      else
        let later ← writeChunks answers channelId fuel (n + 1) (data.drop chunkLength)
        some { later with pdus := dataOut.written :: later.pdus }
    else none

/-- `drdynvc_write_data`. -/
def writeData (answers : Answers) (channelId : ℕ) (data : List UInt8) : Option WriteResult := do
  let (cbChId, dataOut) ← beginPdu (answers.pool 0) channelId
  if data.length = 0 then some { status := channelRcBadInitHandle, pdus := [], close := true }
  else if data.length ≤ channelChunkLength - dataOut.position then
    let dataOut ← writeHeader dataOut (dataPdu <<< 4 ||| cbChId)
    let dataOut ← dataOut.write data
    some { status := answers.send 0, pdus := [dataOut.written] }
  else
    let (cbLen, dataOut) ← writeVariableUint dataOut data.length
    let pos := dataOut.position
    let dataOut ← writeHeader dataOut (dataFirstPdu <<< 4 ||| cbChId ||| cbLen <<< 2)
    if pos ≤ channelChunkLength then
      let chunkLength := channelChunkLength - pos
      let dataOut ← dataOut.write (data.take chunkLength)
      if answers.send 0 ≠ channelRcOk then
        some { status := answers.send 0, pdus := [dataOut.written] }
      else
        let later ← writeChunks answers channelId data.length 1 (data.drop chunkLength)
        some { later with pdus := dataOut.written :: later.pdus }
    else none

/-! ## The PDUs of a message -/

/-- The width code of a number. -/
def widthCode (val : ℕ) : ℕ := if val ≤ 0xFF then 0 else if val ≤ 0xFFFF then 1 else 2

/-- `drdynvc_cblen_to_bytes`. -/
def cblenToBytes : ℕ → ℕ
  | 0 => 1
  | 1 => 2
  | _ => 4

/-- A number of one, two or four bytes. -/
def variableUint (val : ℕ) : List UInt8 := encode (cblenToBytes (widthCode val)) val

/-- A `DATA` PDU. -/
def dataPduOf (channelId : ℕ) (data : List UInt8) : List UInt8 :=
  UInt8.ofNat (dataPdu <<< 4 ||| widthCode channelId) :: (variableUint channelId ++ data)

/-- A `DATA_FIRST` PDU, of a message of `length` bytes. -/
def dataFirstPduOf (channelId length : ℕ) (data : List UInt8) : List UInt8 :=
  UInt8.ofNat (dataFirstPdu <<< 4 ||| widthCode channelId ||| widthCode length <<< 2) ::
    (variableUint channelId ++ (variableUint length ++ data))

/-- The room in a `DATA` PDU. -/
def room (channelId : ℕ) : ℕ := channelChunkLength - (1 + cblenToBytes (widthCode channelId))

/-- The room in a `DATA_FIRST` PDU. -/
def roomFirst (channelId length : ℕ) : ℕ :=
  room channelId - cblenToBytes (widthCode length)

/-- **The PDUs of a message.** -/
def pdusOf (channelId : ℕ) (data : List UInt8) : List (List UInt8) :=
  if data.length ≤ room channelId then [dataPduOf channelId data]
  else
    dataFirstPduOf channelId data.length (data.take (roomFirst channelId data.length)) ::
      (ByteBuffer.cut (room channelId) (data.drop (roomFirst channelId data.length))).map
        (dataPduOf channelId)

/-! ## Widths -/

theorem cblenToBytes_le (cbLen : ℕ) : cblenToBytes cbLen ≤ 4 := by
  rw [cblenToBytes.eq_def]
  split <;> omega

@[simp] theorem length_variableUint (val : ℕ) :
    (variableUint val).length = cblenToBytes (widthCode val) := length_encode _ _

theorem widthCode_cases (val : ℕ) (h : val < 2 ^ 32) :
    (val < 256 ^ 1 ∧ widthCode val = 0) ∨ (val < 256 ^ 2 ∧ widthCode val = 1) ∨
      (val < 256 ^ 4 ∧ widthCode val = 2) := by
  rw [widthCode]
  split
  next h1 => exact Or.inl ⟨by omega, rfl⟩
  next h1 =>
    split
    next h2 => exact Or.inr (Or.inl ⟨by omega, rfl⟩)
    next h2 => exact Or.inr (Or.inr ⟨by omega, rfl⟩)

theorem widthCode_le (val : ℕ) : widthCode val ≤ 2 := by
  rw [widthCode]
  split
  · omega
  · split <;> omega

/-- Reading a number back. -/
theorem decode_variableUint {val : ℕ} (h : val < 2 ^ 32) :
    decode (variableUint val) = val := by
  refine decode_encode_of_lt ?_
  rcases widthCode_cases val h with ⟨hlt, hcode⟩ | ⟨hlt, hcode⟩ | ⟨hlt, hcode⟩
  · rw [hcode]
    exact hlt
  · rw [hcode]
    exact hlt
  · rw [hcode]
    exact hlt

theorem room_pos (channelId : ℕ) : 0 < room channelId := by
  have hid := cblenToBytes_le (widthCode channelId)
  rw [room, channelChunkLength]
  omega

theorem room_add (channelId : ℕ) :
    room channelId + (1 + cblenToBytes (widthCode channelId)) = channelChunkLength := by
  have hid := cblenToBytes_le (widthCode channelId)
  rw [room, channelChunkLength]
  omega

theorem roomFirst_add (channelId length : ℕ) :
    roomFirst channelId length + cblenToBytes (widthCode length) = room channelId := by
  have hid := cblenToBytes_le (widthCode channelId)
  have hlength := cblenToBytes_le (widthCode length)
  rw [roomFirst, room, channelChunkLength]
  omega

/-! ## What the code writes -/

open WStream

variable {s : WStream} {bs gap back : List UInt8} {free : ℕ}

theorem written_streamPoolTake (stale : List UInt8) (size : ℕ) :
    Written (streamPoolTake stale size) [] size := by
  rw [streamPoolTake]
  split
  next h => exact ⟨rfl, stale, rfl, h⟩
  next => exact written_new size

/-- A number is written where there is room for it. -/
theorem writeVariableUint_spec (h : Written s bs free) (val : ℕ)
    (hfree : cblenToBytes (widthCode val) ≤ free) :
    ∃ t, writeVariableUint s val = some (widthCode val, t) ∧
      Written t (bs ++ variableUint val) (free - cblenToBytes (widthCode val)) := by
  obtain ⟨t, hwrite, hwritten⟩ := h.write (variableUint val) (by rwa [length_variableUint])
  rw [length_variableUint] at hwritten
  refine ⟨t, ?_, hwritten⟩
  rw [variableUint] at hwrite
  rw [writeVariableUint]
  by_cases h1 : val ≤ 0xFF
  · rw [widthCode, if_pos h1] at hwrite ⊢
    rw [if_pos h1]
    exact congrArg (Option.map _) hwrite
  by_cases h2 : val ≤ 0xFFFF
  · rw [widthCode, if_neg h1, if_pos h2] at hwrite ⊢
    rw [if_neg h1, if_pos h2]
    exact congrArg (Option.map _) hwrite
  · rw [widthCode, if_neg h1, if_neg h2] at hwrite ⊢
    rw [if_neg h1, if_neg h2]
    exact congrArg (Option.map _) hwrite

theorem beginPdu_spec (stale : List UInt8) (channelId : ℕ) :
    ∃ t gap, beginPdu stale channelId = some (widthCode channelId, t) ∧ gap.length = 1 ∧
      Written t (gap ++ variableUint channelId) (room channelId) := by
  have hroom := room_add channelId
  obtain ⟨s, gap, hseek, hgap, hwritten⟩ :=
    (written_streamPoolTake stale channelChunkLength).seek (n := 1) (by decide)
  obtain ⟨t, hwrite, ht⟩ := writeVariableUint_spec hwritten channelId (by omega)
  have hset : (streamPoolTake stale channelChunkLength).setPosition 1 = some s := by
    rw [WStream.seek, (written_streamPoolTake stale channelChunkLength).position_eq] at hseek
    rw [WStream.setPosition]
    split at hseek
    next hle =>
      rw [if_neg (by omega)]
      exact hseek
    next => exact absurd hseek (Option.some_ne_none _).symm
  refine ⟨t, gap, ?_, hgap, ?_⟩
  · rw [beginPdu, hset]
    exact hwrite
  · rw [room, ← Nat.sub_sub]
    exact ht

theorem writeHeader_spec (h : Written s (gap ++ back) free) (hgap : gap.length = 1)
    (header : ℕ) :
    ∃ t, writeHeader s header = some t ∧ Written t (UInt8.ofNat header :: back) free := by
  have hlength : (encode 1 header).length = gap.length := by
    rw [length_encode, hgap]
  have hfront : Written s ([] ++ gap ++ back) free := h
  obtain ⟨t, u, hset, hwrite, v, hback, hwritten⟩ := hfront.fill hlength
  refine ⟨v, ?_, hwritten⟩
  have hposition : s.position = ([] ++ encode 1 header ++ back).length := by
    rw [h.position_eq, nil_append, length_append, length_append, hlength]
  rw [writeHeader, hposition]
  exact (congrArg (Option.bind · _) hset).trans ((congrArg (Option.bind · _) hwrite).trans hback)

theorem written_dataPdu (stale : List UInt8) (channelId : ℕ) {data : List UInt8}
    (hdata : data.length ≤ room channelId) :
    ∃ s t u, beginPdu stale channelId = some (widthCode channelId, s) ∧
      s.position = 1 + cblenToBytes (widthCode channelId) ∧
      writeHeader s (dataPdu <<< 4 ||| widthCode channelId) = some t ∧
      t.write data = some u ∧ u.written = dataPduOf channelId data := by
  obtain ⟨s, gap, hbegin, hgap, hs⟩ := beginPdu_spec stale channelId
  obtain ⟨t, hheader, ht⟩ :=
    writeHeader_spec hs hgap (dataPdu <<< 4 ||| widthCode channelId)
  obtain ⟨u, hwrite, hu⟩ := ht.write data hdata
  refine ⟨s, t, u, hbegin, ?_, hheader, hwrite, hu.written_eq⟩
  rw [hs.position_eq, length_append, hgap, length_variableUint]

theorem written_dataFirstPdu (stale : List UInt8) (channelId length : ℕ) {data : List UInt8}
    (hdata : data.length ≤ roomFirst channelId length) :
    ∃ s t u v, beginPdu stale channelId = some (widthCode channelId, s) ∧
      s.position = 1 + cblenToBytes (widthCode channelId) ∧
      writeVariableUint s length = some (widthCode length, t) ∧
      t.position = 1 + cblenToBytes (widthCode channelId) + cblenToBytes (widthCode length) ∧
      writeHeader t (dataFirstPdu <<< 4 ||| widthCode channelId ||| widthCode length <<< 2) =
        some u ∧
      u.write data = some v ∧ v.written = dataFirstPduOf channelId length data := by
  have hroom := roomFirst_add channelId length
  obtain ⟨s, gap, hbegin, hgap, hs⟩ := beginPdu_spec stale channelId
  obtain ⟨t, hlength, ht⟩ := writeVariableUint_spec hs length (by omega)
  rw [append_assoc] at ht
  obtain ⟨u, hheader, hu⟩ := writeHeader_spec ht hgap
    (dataFirstPdu <<< 4 ||| widthCode channelId ||| widthCode length <<< 2)
  obtain ⟨v, hwrite, hv⟩ := hu.write data hdata
  refine ⟨s, t, u, v, hbegin, ?_, hlength, ?_, hheader, hwrite, ?_⟩
  · rw [hs.position_eq, length_append, hgap, length_variableUint]
  · rw [ht.position_eq, length_append, length_append, hgap, length_variableUint,
      length_variableUint, Nat.add_assoc]
  · rw [hv.written_eq, dataFirstPduOf, cons_append, append_assoc]

/-- The result is that of a message cut into `pdus`: no close, and all PDUs up to the first that
could not be sent; when every PDU can be, the writer reports so. -/
structure WriteResult.Sends (answers : Answers) (r : WriteResult) (pdus : List (List UInt8)) :
    Prop where
  close_eq : r.close = false
  sent : r.pdus <+: pdus
  sent_eq : r.status = channelRcOk → r.pdus = pdus
  status_eq : (∀ n, answers.send n = channelRcOk) → r.status = channelRcOk

variable {answers : Answers}

/-- The first PDU and those behind it. -/
theorem WriteResult.Sends.cons {r : WriteResult} {pdus : List (List UInt8)}
    (h : r.Sends answers pdus) (pdu : List UInt8) :
    WriteResult.Sends answers { r with pdus := pdu :: r.pdus } (pdu :: pdus) :=
  ⟨h.close_eq, cons_prefix_cons.2 ⟨rfl, h.sent⟩,
    fun hok => congrArg (pdu :: ·) (h.sent_eq hok), h.status_eq⟩

/-- Only the first PDU, when it could not be sent. -/
theorem sends_of_send_ne {n : ℕ} (h : answers.send n ≠ channelRcOk) (pdu : List UInt8)
    (pdus : List (List UInt8)) :
    WriteResult.Sends answers { status := answers.send n, pdus := [pdu] } (pdu :: pdus) :=
  ⟨rfl, cons_prefix_cons.2 ⟨rfl, nil_prefix⟩, fun hok => absurd hok h,
    fun hsend => absurd (hsend n) h⟩

/-- Nothing, when nothing is left. -/
theorem sends_nil : WriteResult.Sends answers { status := channelRcOk, pdus := [] } [] :=
  ⟨rfl, nil_prefix, fun _ => rfl, fun _ => rfl⟩

/-- The loop sends windows of the rest. -/
theorem writeChunks_spec (answers : Answers) (channelId : ℕ) (fuel n : ℕ) (data : List UInt8)
    (hfuel : data.length ≤ fuel) :
    ∃ r, writeChunks answers channelId fuel n data = some r ∧
      r.Sends answers ((ByteBuffer.cut (room channelId) data).map (dataPduOf channelId)) := by
  have hpos := room_pos channelId
  have hadd := room_add channelId
  induction fuel generalizing n data with
  | zero =>
    obtain rfl := eq_nil_of_length_eq_zero (Nat.le_zero.1 hfuel)
    rw [ByteBuffer.cut_nil hpos, map_nil]
    exact ⟨_, by rw [writeChunks], sends_nil⟩
  | succ fuel ih =>
    rcases data with _ | ⟨b, rest⟩
    · rw [ByteBuffer.cut_nil hpos, map_nil]
      exact ⟨_, by rw [writeChunks], sends_nil⟩
    · generalize hdata : b :: rest = data at hfuel
      have hne : data ≠ [] := hdata ▸ cons_ne_nil b rest
      have hlength : ((data.take (room channelId)).length) ≤ room channelId := by
        rw [length_take]
        omega
      obtain ⟨s, t, u, hbegin, hposition, hheader, hwrite, hwritten⟩ :=
        written_dataPdu (answers.pool n) channelId hlength
      have hclen : channelChunkLength - s.position = room channelId := by
        rw [hposition]
        omega
      have hle : s.position ≤ channelChunkLength := by
        rw [hposition]
        omega
      have hchunk : data.take (if data.length > room channelId then room channelId
          else data.length) = data.take (room channelId) := by
        split
        · rfl
        · rw [take_length, take_of_length_le (by omega)]
      have hrest : data.drop (if data.length > room channelId then room channelId
          else data.length) = data.drop (room channelId) := by
        split
        · rfl
        · rw [drop_length, drop_of_length_le (by omega)]
      rw [ByteBuffer.cut_of_ne_nil hpos hne, map_cons, ← hwritten]
      rw [← hdata, writeChunks, hdata]
      simp only [hbegin, hheader, hclen, hchunk, hrest, hwrite, Option.bind_eq_bind,
        Option.bind_some, hle, if_true]
      split
      next hstatus => exact ⟨_, rfl, sends_of_send_ne hstatus _ _⟩
      next =>
        obtain ⟨r, hr, hsends⟩ := ih (n + 1) (data.drop (room channelId)) (by
          rw [length_drop]
          omega)
        rw [hr]
        exact ⟨_, rfl, hsends.cons u.written⟩

/-- A message that fits goes out in one PDU. -/
theorem writeData_short (answers : Answers) {channelId : ℕ} {data : List UInt8} (hdata : data ≠ [])
    (hle : data.length ≤ room channelId) :
    writeData answers channelId data =
      some { status := answers.send 0, pdus := [dataPduOf channelId data] } := by
  have hadd := room_add channelId
  have hlength : data.length ≠ 0 := fun h => hdata (eq_nil_of_length_eq_zero h)
  obtain ⟨s, t, u, hbegin, hposition, hheader, hwrite, hwritten⟩ :=
    written_dataPdu (answers.pool 0) channelId hle
  have hroom : channelChunkLength - s.position = room channelId := by
    rw [hposition]
    omega
  rw [← hwritten, writeData]
  simp only [hbegin, hroom, hheader, hwrite, hlength, hle, Option.bind_eq_bind,
    Option.bind_some, if_true, if_false]

/-- **What is sent.**  A message that is not empty goes out in its PDUs, up to the first that
could not be sent, and without a failure all of them do. -/
theorem writeData_spec (answers : Answers) (channelId : ℕ) {data : List UInt8} (hdata : data ≠ []) :
    ∃ r, writeData answers channelId data = some r ∧ r.Sends answers (pdusOf channelId data) := by
  have hadd := room_add channelId
  have hfirst := roomFirst_add channelId data.length
  have hlength : data.length ≠ 0 := fun h => hdata (eq_nil_of_length_eq_zero h)
  rw [pdusOf]
  split
  next hle =>
    exact ⟨_, writeData_short answers hdata hle, rfl, prefix_rfl, fun _ => rfl, fun h => h 0⟩
  next hlong =>
    have htake : (data.take (roomFirst channelId data.length)).length ≤
        roomFirst channelId data.length := by
      rw [length_take]
      omega
    obtain ⟨s, t, u, v, hbegin, hposition, hvar, hposition', hheader, hwrite, hwritten⟩ :=
      written_dataFirstPdu (answers.pool 0) channelId data.length htake
    have hroom : channelChunkLength - s.position = room channelId := by
      rw [hposition]
      omega
    have hroom' : channelChunkLength - t.position = roomFirst channelId data.length := by
      rw [hposition']
      omega
    have hpos : t.position ≤ channelChunkLength := by
      rw [hposition']
      omega
    rw [← hwritten, writeData]
    simp only [hbegin, hroom, hvar, hroom', hpos, hheader, hwrite, hlength, hlong,
      Option.bind_eq_bind, Option.bind_some, if_true, if_false]
    split
    next hstatus => exact ⟨_, rfl, sends_of_send_ne hstatus _ _⟩
    next =>
      obtain ⟨r, hr, hsends⟩ := writeChunks_spec answers channelId data.length 1
        (data.drop (roomFirst channelId data.length)) (by
          rw [length_drop]
          omega)
      rw [hr]
      exact ⟨_, rfl, hsends.cons v.written⟩

/-- A message that does not fit into one PDU, and whose rest fits into another. -/
theorem pdusOf_two {channelId : ℕ} {data : List UInt8} (hlong : room channelId < data.length)
    (hfits : data.length ≤ roomFirst channelId data.length + room channelId) :
    pdusOf channelId data =
      [dataFirstPduOf channelId data.length (data.take (roomFirst channelId data.length)),
        dataPduOf channelId (data.drop (roomFirst channelId data.length))] := by
  have hfirst := roomFirst_add channelId data.length
  have hlength : (data.drop (roomFirst channelId data.length)).length ≤ room channelId := by
    rw [length_drop]
    omega
  have hrest : data.drop (roomFirst channelId data.length) ≠ [] := by
    refine ne_nil_of_length_pos ?_
    rw [length_drop]
    omega
  rw [pdusOf, if_neg (Nat.not_le.2 hlong), ByteBuffer.cut_of_ne_nil (room_pos channelId) hrest,
    take_of_length_le hlength, drop_of_length_le hlength, ByteBuffer.cut_nil (room_pos channelId)]
  rfl

theorem length_le_of_mem_pdusOf {channelId : ℕ} {data pdu : List UInt8}
    (h : pdu ∈ pdusOf channelId data) : pdu.length ≤ channelChunkLength := by
  have hadd := room_add channelId
  have hfirst := roomFirst_add channelId data.length
  have hdataPdu : ∀ {chunk : List UInt8}, chunk.length ≤ room channelId →
      (dataPduOf channelId chunk).length ≤ channelChunkLength := by
    intro chunk hchunk
    rw [dataPduOf, length_cons, length_append, length_variableUint]
    omega
  rw [pdusOf] at h
  split at h
  next hle =>
    rw [mem_singleton] at h
    exact h ▸ hdataPdu hle
  next =>
    rcases mem_cons.1 h with rfl | h
    · rw [dataFirstPduOf, length_cons, length_append, length_append,
        length_variableUint, length_variableUint, length_take]
      omega
    · obtain ⟨chunk, hchunk, rfl⟩ := mem_map.1 h
      refine hdataPdu ?_
      rw [ByteBuffer.cut, mem_map] at hchunk
      obtain ⟨c, -, rfl⟩ := hchunk
      rw [length_take]
      omega

end Drdynvc
