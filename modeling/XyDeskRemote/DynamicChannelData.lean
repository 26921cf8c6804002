/-
# Receiving on dynamic channels

`drdynvc_order_recv` of the `drdynvc` client, for data and close PDUs: the reassembly of the
messages of each channel in its `dvc_data`, and `OnDataReceived`.  Whether a `DATA` PDU is a
message or goes on with one is decided by `dvc_data` alone.

The decompressor is a parameter, and so is what a PDU is answered: what the pool holds, what
`OnDataReceived` returns and what becomes of a close.
-/
import Mathlib.Data.Finset.Insert
import Mathlib.Tactic.IntervalCases
import XyDeskRemote.DynamicChannelWrite
import XyDeskRemote.LabelledRun

open LabelledRun WStream List Function

namespace Drdynvc

/-! ## The code -/

/-- `ERROR_INVALID_DATA`. -/
def errorInvalidData : ℕ := 0x0D

/-- `ERROR_INTERNAL_ERROR`. -/
def errorInternalError : ℕ := 0x54F

/-- `DVCMAN_CHANNEL`, of a running channel. -/
structure DvcmanChannel (Z : Type*) where
  dvcData : Option WStream
  dvcDataLength : ℕ
  decompressor : Z

/-- A call of `OnDataReceived`, and what it returned. -/
structure Received where
  channelId : ℕ
  data : List UInt8
  status : ℕ
  deriving DecidableEq

/-- The running channels, and the calls of their handlers so far. -/
structure Dvcman (Z : Type*) where
  channelsById : ℕ → Option (DvcmanChannel Z)
  calls : List Received

/-- What the surroundings answer while a PDU is handled. -/
structure PduAnswers where
  stale : List UInt8
  onDataReceived : ℕ
  close : ℕ

variable {Z : Type*}

/-- `dvcman_receive_channel_data_first`, when there is memory. -/
def receiveChannelDataFirst (answers : PduAnswers) (channel : DvcmanChannel Z) (length : ℕ) :
    DvcmanChannel Z :=
  { channel with dvcData := some (streamPoolTake answers.stale length), dvcDataLength := length }

/-- What `dvcman_receive_channel_data` returns, the channel that it leaves and what it hands to
`OnDataReceived`. -/
structure ReceiveResult (Z : Type*) where
  status : ℕ
  channel : DvcmanChannel Z
  handed : Option (List UInt8)

/-- `dvcman_receive_channel_data`. -/
def receiveChannelData (answers : PduAnswers) (channel : DvcmanChannel Z) (data : List UInt8) :
    Option (ReceiveResult Z) :=
  match channel.dvcData with
  | some dvcData =>
    if dvcData.position + data.length > channel.dvcDataLength then
      some ⟨errorInvalidData, { channel with dvcData := none }, none⟩
    else
      (dvcData.write data).map fun dvcData =>
        if dvcData.position ≥ channel.dvcDataLength then
          ⟨answers.onDataReceived, { channel with dvcData := none }, some dvcData.written⟩
        else ⟨channelRcOk, { channel with dvcData := some dvcData }, none⟩
  | none => some ⟨answers.onDataReceived, channel, some data⟩

/-- `drdynvc_read_variable_uint`. -/
def readVariableUint (s : List UInt8) (cbLen : ℕ) : ℕ × List UInt8 :=
  (LittleEndian.decode (s.take (cblenToBytes cbLen)), s.drop (cblenToBytes cbLen))

/-- `dvcman_channel_close` of a running channel, and the release of the reference to it: the
channel leaves the table. -/
def channelClose (dvcman : Dvcman Z) (channelId : ℕ) : Dvcman Z :=
  { dvcman with channelsById := Function.update dvcman.channelsById channelId none }

/-- The end of the data handlers: the channel is closed when its data could not be handled. -/
def received (answers : PduAnswers) (dvcman : Dvcman Z) (channelId : ℕ) (r : ReceiveResult Z) :
    ℕ × Dvcman Z :=
  let dvcman : Dvcman Z :=
    { channelsById := Function.update dvcman.channelsById channelId (some r.channel)
      calls := dvcman.calls ++ r.handed.toList.map fun data => ⟨channelId, data, r.status⟩ }
  if r.status ≠ channelRcOk then (answers.close, channelClose dvcman channelId)
  else (r.status, dvcman)

variable (zgfxDecompress : Z → List UInt8 → Option (List UInt8) × Z)

/-- The data of a PDU, decompressed when they are compressed. -/
def inflate (compressed : Bool) (channel : DvcmanChannel Z) (s : List UInt8) :
    Option (List UInt8) × DvcmanChannel Z :=
  if compressed then
    let (data, decompressor) := zgfxDecompress channel.decompressor s
    (data, { channel with decompressor })
  else (some s, channel)

/-- The channel of a PDU whose data could not be decompressed: it stays open. -/
def inflateFailed (dvcman : Dvcman Z) (channelId : ℕ) (channel : DvcmanChannel Z) :
    ℕ × Dvcman Z :=
  (errorInvalidData,
    { dvcman with channelsById := Function.update dvcman.channelsById channelId (some channel) })

/-- `drdynvc_process_data_first`. -/
def processDataFirst (answers : PduAnswers) (dvcman : Dvcman Z) (sp cbChId : ℕ) (s : List UInt8)
    (compressed : Bool) : Option (ℕ × Dvcman Z) :=
  if s.length < cblenToBytes cbChId + cblenToBytes sp then some (errorInvalidData, dvcman)
  else
    let (channelId, s) := readVariableUint s cbChId
    let (length, s) := readVariableUint s sp
    match dvcman.channelsById channelId with
    | none => some (channelRcOk, dvcman)
    | some channel =>
      match inflate zgfxDecompress compressed channel s with
      | (none, channel) => some (inflateFailed dvcman channelId channel)
      | (some s, channel) =>
        (receiveChannelData answers (receiveChannelDataFirst answers channel length) s).map
          (received answers dvcman channelId)

/-- `drdynvc_process_data`. -/
def processData (answers : PduAnswers) (dvcman : Dvcman Z) (cbChId : ℕ) (s : List UInt8)
    (compressed : Bool) : Option (ℕ × Dvcman Z) :=
  if s.length < cblenToBytes cbChId then some (errorInvalidData, dvcman)
  else
    let (channelId, s) := readVariableUint s cbChId
    match dvcman.channelsById channelId with
    | none => some (channelRcOk, dvcman)
    | some channel =>
      match inflate zgfxDecompress compressed channel s with
      | (none, channel) => some (inflateFailed dvcman channelId channel)
      | (some s, channel) =>
        (receiveChannelData answers channel s).map (received answers dvcman channelId)

/-- `drdynvc_process_close_request`. -/
def processCloseRequest (dvcman : Dvcman Z) (cbChId : ℕ) (s : List UInt8) : ℕ × Dvcman Z :=
  if s.length < cblenToBytes cbChId then (errorInvalidData, dvcman)
  else (channelRcOk, channelClose dvcman (readVariableUint s cbChId).1)

/-- `drdynvc_order_recv`, but for create and capability requests, which the listeners and the
version negotiation belong to. -/
def orderRecv (answers : PduAnswers) (dvcman : Dvcman Z) : List UInt8 → Option (ℕ × Dvcman Z)
  | [] => some (errorInvalidData, dvcman)
  | value :: s =>
    let cmd := value.toNat / 16
    let sp := value.toNat / 4 % 4
    let cbChId := value.toNat % 4
    if cmd = 2 ∨ cmd = 6 then
      processDataFirst zgfxDecompress answers dvcman sp cbChId s (decide (cmd = 6))
    else if cmd = 3 ∨ cmd = 7 then
      processData zgfxDecompress answers dvcman cbChId s (decide (cmd = 7))
    else if cmd = 4 then some (processCloseRequest dvcman cbChId s)
    else if cmd = 1 ∨ cmd = 5 then none
    else some (errorInternalError, dvcman)

/-- A PDU that arrives: the channel that it was written to, its bytes, and what it is answered. -/
structure Arrival where
  channelId : ℕ
  pdu : List UInt8
  answers : PduAnswers

/-- One call of `drdynvc_order_recv`. -/
def step (dvcman : Dvcman Z) (a : Arrival) : Option (Dvcman Z) :=
  (orderRecv zgfxDecompress a.answers dvcman a.pdu).map Prod.snd

/-! ## Reading the PDUs of the writer -/

theorem header_dataPdu {w : ℕ} (hw : w ≤ 2) :
    (UInt8.ofNat (dataPdu <<< 4 ||| w)).toNat = 48 + w := by
  interval_cases w <;> rfl

theorem header_dataFirstPdu {w l : ℕ} (hw : w ≤ 2) (hl : l ≤ 2) :
    (UInt8.ofNat (dataFirstPdu <<< 4 ||| w ||| l <<< 2)).toNat = 32 + 4 * l + w := by
  interval_cases w <;> interval_cases l <;> rfl

/-- Reading back a number that was written. -/
theorem readVariableUint_variableUint {val : ℕ} (h : val < 2 ^ 32) (s : List UInt8) :
    readVariableUint (variableUint val ++ s) (widthCode val) = (val, s) := by
  rw [readVariableUint, take_left' (length_variableUint val),
    drop_left' (length_variableUint val), decode_variableUint h]

variable {channelId : ℕ}

theorem orderRecv_dataPduOf (answers : PduAnswers) (dvcman : Dvcman Z) (hid : channelId < 2 ^ 32)
    (data : List UInt8) :
    orderRecv zgfxDecompress answers dvcman (dataPduOf channelId data) =
      match dvcman.channelsById channelId with
      | none => some (channelRcOk, dvcman)
      | some channel =>
        (receiveChannelData answers channel data).map (received answers dvcman channelId) := by
  have hw := widthCode_le channelId
  have hcmd : (48 + widthCode channelId) / 16 = 3 := by omega
  have hcb : (48 + widthCode channelId) % 4 = widthCode channelId := by omega
  have hlength : ¬ (variableUint channelId ++ data).length <
      cblenToBytes (widthCode channelId) := by
    rw [length_append, length_variableUint]
    omega
  rw [dataPduOf, orderRecv, header_dataPdu hw, hcmd, hcb, if_neg (by decide), if_pos (by decide),
    processData, if_neg hlength, readVariableUint_variableUint hid]
  rfl

theorem orderRecv_dataFirstPduOf (answers : PduAnswers) (dvcman : Dvcman Z) {length : ℕ}
    (hid : channelId < 2 ^ 32) (hlength : length < 2 ^ 32) (data : List UInt8) :
    orderRecv zgfxDecompress answers dvcman (dataFirstPduOf channelId length data) =
      match dvcman.channelsById channelId with
      | none => some (channelRcOk, dvcman)
      | some channel =>
        (receiveChannelData answers (receiveChannelDataFirst answers channel length) data).map
          (received answers dvcman channelId) := by
  have hw := widthCode_le channelId
  have hl := widthCode_le length
  have hcmd : (32 + 4 * widthCode length + widthCode channelId) / 16 = 2 := by omega
  have hsp : (32 + 4 * widthCode length + widthCode channelId) / 4 % 4 = widthCode length := by
    omega
  have hcb : (32 + 4 * widthCode length + widthCode channelId) % 4 = widthCode channelId := by
    omega
  have hshort : ¬ (variableUint channelId ++ (variableUint length ++ data)).length <
      cblenToBytes (widthCode channelId) + cblenToBytes (widthCode length) := by
    rw [length_append, length_append, length_variableUint, length_variableUint]
    omega
  rw [dataFirstPduOf, orderRecv, header_dataFirstPdu hw hl, hcmd, hsp, hcb, if_pos (by decide),
    processDataFirst, if_neg hshort, readVariableUint_variableUint hid]
  dsimp only
  rw [readVariableUint_variableUint hlength]
  rfl

/-! ## Receiving the chunks of a message -/

/-- `head` of a message has come, and `rest` of it is still to come. -/
structure Holds (channel : DvcmanChannel Z) (stream : WStream) (head rest : List UInt8) :
    Prop where
  dvcData_eq : channel.dvcData = some stream
  written : Written stream head rest.length
  length_eq : channel.dvcDataLength = (head ++ rest).length

variable {channel : DvcmanChannel Z} {stream : WStream} {head rest : List UInt8}

/-- A message is begun. -/
theorem holds_receiveChannelDataFirst (answers : PduAnswers) (channel : DvcmanChannel Z)
    (data : List UInt8) :
    Holds (receiveChannelDataFirst answers channel data.length)
      (streamPoolTake answers.stale data.length) [] data :=
  ⟨rfl, written_streamPoolTake answers.stale data.length, rfl⟩

theorem receiveChannelData_chunk (h : Holds channel stream head rest) (answers : PduAnswers)
    {n : ℕ} (hn : n < rest.length) :
    ∃ t, receiveChannelData answers channel (rest.take n) =
        some ⟨channelRcOk, { channel with dvcData := some t }, none⟩ ∧
      Holds { channel with dvcData := some t } t (head ++ rest.take n) (rest.drop n) := by
  have htake : (rest.take n).length = n := length_take_of_le hn.le
  have hlength := h.length_eq
  rw [length_append] at hlength
  obtain ⟨t, hwrite, ht⟩ := h.written.write (rest.take n) (by omega)
  refine ⟨t, ?_, rfl, ?_, ?_⟩
  · rw [receiveChannelData, h.dvcData_eq]
    dsimp only
    rw [h.written.position_eq, if_neg (by omega), hwrite, Option.map_some, ht.position_eq, if_neg]
    rw [length_append]
    omega
  · rw [length_drop, ← htake]
    rw [htake] at ht ⊢
    exact ht
  · rw [append_assoc, take_append_drop]
    exact h.length_eq

/-- The last chunk: the message is handed over. -/
theorem receiveChannelData_last (h : Holds channel stream head rest) (answers : PduAnswers) :
    receiveChannelData answers channel rest =
      some ⟨answers.onDataReceived, { channel with dvcData := none }, some (head ++ rest)⟩ := by
  have hlength := h.length_eq
  rw [length_append] at hlength
  obtain ⟨t, hwrite, ht⟩ := h.written.write rest le_rfl
  rw [receiveChannelData, h.dvcData_eq]
  dsimp only
  rw [h.written.position_eq, if_neg (by omega), hwrite, Option.map_some, ht.position_eq,
    if_pos h.length_eq.le, ht.written_eq]

/-! ## What a channel has still to come -/

/-- The calls of the handler of a channel. -/
def callsOf (channelId : ℕ) (dvcman : Dvcman Z) : List Received :=
  dvcman.calls.filter fun r => r.channelId = channelId

/-- The channel waits for the PDUs of the messages `later`, or in the middle of one. -/
inductive Expects (channelId : ℕ) (channel : DvcmanChannel Z) :
    List (List UInt8) → List (List UInt8) → Prop
  | message (later : List (List UInt8)) (hnone : channel.dvcData = none) :
      Expects channelId channel later (later.flatMap (pdusOf channelId))
  | chunk (later : List (List UInt8)) {stream : WStream} {head rest : List UInt8}
      (hholds : Holds channel stream head rest) (hrest : rest ≠ []) :
      Expects channelId channel ((head ++ rest) :: later)
        ((ByteBuffer.cut (room channelId) rest).map (dataPduOf channelId) ++
          later.flatMap (pdusOf channelId))

/-- Where the messages of a channel stand: they were handed over in order, and those that were
not are still to come, unless a handler has failed. -/
def Stands (channelId : ℕ) (messages : List (List UInt8)) (dvcman : Dvcman Z)
    (pdus : List (List UInt8)) : Prop :=
  (dvcman.channelsById channelId = none ∧
    (∃ r ∈ callsOf channelId dvcman, r.status ≠ channelRcOk) ∧
    (callsOf channelId dvcman).map Received.data <+: messages) ∨
  ∃ channel later, dvcman.channelsById channelId = some channel ∧
    messages = (callsOf channelId dvcman).map Received.data ++ later ∧
    Expects channelId channel later pdus

variable {messages pdus : List (List UInt8)} {dvcman : Dvcman Z}

theorem stands_handed {later : List (List UInt8)} {message : List UInt8} (answers : PduAnswers)
    (hmessages : messages = (callsOf channelId dvcman).map Received.data ++ message :: later)
    (channel : DvcmanChannel Z)
    (hexpects : Expects channelId { channel with dvcData := none } later pdus) :
    Stands channelId messages (received answers dvcman channelId
      ⟨answers.onDataReceived, { channel with dvcData := none }, some message⟩).2 pdus := by
  let call : Received := ⟨channelId, message, answers.onDataReceived⟩
  have hcalls : (dvcman.calls ++ [call]).filter (fun r => r.channelId = channelId) =
      callsOf channelId dvcman ++ [call] := by
    rw [filter_append, callsOf]
    congr 1
    exact filter_cons_of_pos (decide_eq_true rfl)
  by_cases hstatus : answers.onDataReceived = channelRcOk
  · rw [received, if_neg (not_not.2 hstatus)]
    refine Or.inr ⟨_, later, update_self .., ?_, hexpects⟩
    rw [callsOf]
    change _ = ((dvcman.calls ++ [call]).filter _).map _ ++ _
    rw [hcalls, map_append, hmessages, append_assoc]
    rfl
  · rw [received, if_pos hstatus]
    refine Or.inl ⟨update_self .., ?_, ?_⟩
    · refine ⟨call, ?_, hstatus⟩
      rw [callsOf]
      change _ ∈ (dvcman.calls ++ [call]).filter _
      rw [hcalls]
      exact mem_append_right _ mem_cons_self
    · rw [callsOf]
      change ((dvcman.calls ++ [call]).filter _).map _ <+: _
      rw [hcalls, map_append, hmessages]
      exact (prefix_append_right_inj _).2 (prefix_append [message] later)

/-- The channel has taken a chunk, and its message is not whole yet. -/
theorem stands_kept {later : List (List UInt8)} (answers : PduAnswers)
    (hmessages : messages = (callsOf channelId dvcman).map Received.data ++ later)
    {channel : DvcmanChannel Z} (hexpects : Expects channelId channel later pdus) :
    Stands channelId messages
      (received answers dvcman channelId ⟨channelRcOk, channel, none⟩).2 pdus := by
  rw [received, if_neg (not_not.2 rfl)]
  refine Or.inr ⟨channel, later, update_self .., ?_, hexpects⟩
  rw [hmessages, callsOf, callsOf]
  simp only [Option.toList_none, map_nil, append_nil]

/-- **One PDU.**  The next PDU of a channel takes its messages further. -/
theorem stands_step (hid : channelId < 2 ^ 32) {pdu : List UInt8}
    (hmessages : ∀ m ∈ messages, m ≠ [] ∧ m.length < 2 ^ 32) (answers : PduAnswers)
    (hstands : Stands channelId messages dvcman (pdu :: pdus))
    (hpdu : (∃ data, pdu = dataPduOf channelId data) ∨
      ∃ length data, length < 2 ^ 32 ∧ pdu = dataFirstPduOf channelId length data) :
    ∃ status t, orderRecv zgfxDecompress answers dvcman pdu = some (status, t) ∧
      Stands channelId messages t pdus := by
  rcases hstands with ⟨hclosed, hcalls⟩ | ⟨channel, later, hchannel, hlater, hexpects⟩
  · refine ⟨channelRcOk, dvcman, ?_, Or.inl ⟨hclosed, hcalls⟩⟩
    rcases hpdu with ⟨data, rfl⟩ | ⟨length, data, hlength, rfl⟩
    · rw [orderRecv_dataPduOf zgfxDecompress answers dvcman hid, hclosed]
    · rw [orderRecv_dataFirstPduOf zgfxDecompress answers dvcman hid hlength, hclosed]
  · generalize hpdus : pdu :: pdus = all at hexpects
    cases hexpects with
    | message later hnone =>
      rcases later with _ | ⟨m, later⟩
      · exact absurd hpdus (cons_ne_nil _ _)
      have hm : m ∈ messages := by
        rw [hlater]
        exact mem_append_right _ mem_cons_self
      rw [flatMap_cons, pdusOf] at hpdus
      split at hpdus
      next hshort =>
        obtain ⟨rfl, rfl⟩ := List.cons.inj hpdus
        rw [orderRecv_dataPduOf zgfxDecompress answers dvcman hid, hchannel]
        dsimp only
        rw [receiveChannelData, hnone]
        refine ⟨_, _, rfl, ?_⟩
        have hsame : channel = { channel with dvcData := none } := by
          rw [← hnone]
        rw [hsame]
        exact stands_handed answers hlater channel (Expects.message later rfl)
      next hlong =>
        obtain ⟨rfl, rfl⟩ := List.cons.inj hpdus
        have hfirst := roomFirst_add channelId m.length
        rw [orderRecv_dataFirstPduOf zgfxDecompress answers dvcman hid (hmessages m hm).2, hchannel]
        dsimp only
        obtain ⟨t, hreceive, hholds⟩ := receiveChannelData_chunk
          (holds_receiveChannelDataFirst answers channel m) answers
          (show roomFirst channelId m.length < m.length by omega)
        rw [hreceive]
        refine ⟨_, _, rfl, stands_kept answers hlater ?_⟩
        have hchunk : Expects channelId _ _ _ := Expects.chunk later hholds (by
          refine ne_nil_of_length_pos ?_
          rw [length_drop]
          omega)
        rw [nil_append, take_append_drop] at hchunk
        exact hchunk
    | @chunk later stream head rest hholds hrest =>
      have hroom := room_pos channelId
      rw [ByteBuffer.cut_of_ne_nil hroom hrest, map_cons, cons_append] at hpdus
      obtain ⟨rfl, rfl⟩ := List.cons.inj hpdus
      rw [orderRecv_dataPduOf zgfxDecompress answers dvcman hid, hchannel]
      dsimp only
      rcases Nat.lt_or_ge (room channelId) rest.length with hlt | hge
      · obtain ⟨t, hreceive, hholds'⟩ := receiveChannelData_chunk hholds answers hlt
        rw [hreceive]
        refine ⟨_, _, rfl, stands_kept answers hlater ?_⟩
        have hchunk : Expects channelId _ _ _ := Expects.chunk later hholds' (by
          refine ne_nil_of_length_pos ?_
          rw [length_drop]
          omega)
        rw [append_assoc, take_append_drop] at hchunk
        exact hchunk
      · rw [take_of_length_le hge, drop_of_length_le hge, ByteBuffer.cut_nil hroom,
          receiveChannelData_last hholds answers]
        exact ⟨_, _, rfl,
          stands_handed answers hlater channel (Expects.message later rfl)⟩

/-! ## Interleavings -/

/-- The handling of a channel leaves the other channels alone. -/
theorem stands_received_ne {other : ℕ} (hne : other ≠ channelId) (answers : PduAnswers)
    (r : ReceiveResult Z) (h : Stands other messages dvcman pdus) :
    Stands other messages (received answers dvcman channelId r).2 pdus := by
  have hentry : (received answers dvcman channelId r).2.channelsById other =
      dvcman.channelsById other := by
    rw [received]
    split
    · exact (update_of_ne hne ..).trans (update_of_ne hne ..)
    · exact update_of_ne hne ..
  have hcalls : callsOf other (received answers dvcman channelId r).2 = callsOf other dvcman := by
    have hkept : (received answers dvcman channelId r).2.calls =
        dvcman.calls ++ r.handed.toList.map fun data => ⟨channelId, data, r.status⟩ := by
      rw [received]
      split <;> rfl
    rw [callsOf, hkept, filter_append, callsOf]
    have hnone : (r.handed.toList.map fun data => Received.mk channelId data r.status).filter
        (fun r => r.channelId = other) = [] := by
      refine filter_eq_nil_iff.2 fun call hcall => ?_
      obtain ⟨data, -, rfl⟩ := mem_map.1 hcall
      exact fun h => hne (of_decide_eq_true h).symm
    rw [hnone, append_nil]
  rw [Stands, hentry, hcalls]
  exact h

theorem stands_orderRecv_ne {other : ℕ} (hid : channelId < 2 ^ 32) (hne : other ≠ channelId)
    {pdu : List UInt8} {t : Dvcman Z} {status : ℕ} (answers : PduAnswers)
    (hpdu : (∃ data, pdu = dataPduOf channelId data) ∨
      ∃ length data, length < 2 ^ 32 ∧ pdu = dataFirstPduOf channelId length data)
    (hrecv : orderRecv zgfxDecompress answers dvcman pdu = some (status, t))
    (h : Stands other messages dvcman pdus) : Stands other messages t pdus := by
  have hresult : t = dvcman ∨ ∃ r, t = (received answers dvcman channelId r).2 := by
    rcases hpdu with ⟨data, rfl⟩ | ⟨length, data, hlength, rfl⟩
    · rw [orderRecv_dataPduOf zgfxDecompress answers dvcman hid] at hrecv
      split at hrecv
      · exact Or.inl (congrArg Prod.snd (Option.some.inj hrecv)).symm
      · obtain ⟨r, -, hr⟩ := Option.map_eq_some_iff.1 hrecv
        exact Or.inr ⟨r, (congrArg Prod.snd hr).symm⟩
    · rw [orderRecv_dataFirstPduOf zgfxDecompress answers dvcman hid hlength] at hrecv
      split at hrecv
      · exact Or.inl (congrArg Prod.snd (Option.some.inj hrecv)).symm
      · obtain ⟨r, -, hr⟩ := Option.map_eq_some_iff.1 hrecv
        exact Or.inr ⟨r, (congrArg Prod.snd hr).symm⟩
  rcases hresult with rfl | ⟨r, rfl⟩
  · exact h
  · exact stands_received_ne hne answers r h

theorem kind_of_mem_pdusOf {data pdu : List UInt8} (hlength : data.length < 2 ^ 32)
    (h : pdu ∈ pdusOf channelId data) :
    (∃ data, pdu = dataPduOf channelId data) ∨
      ∃ length data, length < 2 ^ 32 ∧ pdu = dataFirstPduOf channelId length data := by
  rw [pdusOf] at h
  split at h
  · exact Or.inl ⟨data, mem_singleton.1 h⟩
  · rcases mem_cons.1 h with rfl | h
    · exact Or.inr ⟨_, _, hlength, rfl⟩
    · obtain ⟨chunk, -, rfl⟩ := mem_map.1 h
      exact Or.inl ⟨chunk, rfl⟩

/-- The PDUs of a channel that are still to arrive. -/
def pdusTo (channelId : ℕ) (arrivals : List Arrival) : List (List UInt8) :=
  (arrivals.filter fun a => a.channelId = channelId).map Arrival.pdu

theorem pdusTo_cons_self (a : Arrival) (arrivals : List Arrival) :
    pdusTo a.channelId (a :: arrivals) = a.pdu :: pdusTo a.channelId arrivals :=
  congrArg (List.map Arrival.pdu) (filter_cons_of_pos (decide_eq_true rfl))

theorem pdusTo_cons_of_ne {a : Arrival} (h : channelId ≠ a.channelId) (arrivals : List Arrival) :
    pdusTo channelId (a :: arrivals) = pdusTo channelId arrivals :=
  congrArg (List.map Arrival.pdu)
    (filter_cons_of_neg fun hdecide => h (of_decide_eq_true hdecide).symm)

/-- **A run.**  Every channel goes on with its messages, whatever the order of the channels. -/
theorem stands_run {ids : Finset ℕ} (hids : ∀ c ∈ ids, c < 2 ^ 32)
    {messages : ℕ → List (List UInt8)}
    (hmessages : ∀ c ∈ ids, ∀ m ∈ messages c, m ≠ [] ∧ m.length < 2 ^ 32) {arrivals : List Arrival}
    (harrivals : ∀ a ∈ arrivals, a.channelId ∈ ids ∧
      ((∃ data, a.pdu = dataPduOf a.channelId data) ∨
        ∃ length data, length < 2 ^ 32 ∧ a.pdu = dataFirstPduOf a.channelId length data))
    (hstands : ∀ c ∈ ids, Stands c (messages c) dvcman (pdusTo c arrivals)) :
    ∃ t, run (step zgfxDecompress) dvcman arrivals = some t ∧
      ∀ c ∈ ids, Stands c (messages c) t [] := by
  induction arrivals generalizing dvcman with
  | nil => exact ⟨dvcman, rfl, hstands⟩
  | cons a arrivals ih =>
    obtain ⟨hmem, hpdu⟩ := harrivals a mem_cons_self
    have hown := hstands a.channelId hmem
    rw [pdusTo_cons_self] at hown
    obtain ⟨status, t, hrecv, ht⟩ := stands_step zgfxDecompress (hids _ hmem)
      (hmessages _ hmem) a.answers hown hpdu
    have hstep : step zgfxDecompress dvcman a = some t := by
      rw [step, hrecv]
      rfl
    rw [run_cons, hstep]
    refine ih (fun b hb => harrivals b (mem_cons_of_mem a hb)) fun c hc => ?_
    by_cases hca : c = a.channelId
    · rw [hca]
      exact ht
    · have hother := hstands c hc
      rw [pdusTo_cons_of_ne hca] at hother
      exact stands_orderRecv_ne zgfxDecompress (hids _ hmem) hca a.answers hpdu hrecv hother

theorem pdusOf_ne_nil (channelId : ℕ) (data : List UInt8) : pdusOf channelId data ≠ [] := by
  rw [pdusOf]
  split <;> exact cons_ne_nil _ _

/-- At the start a channel expects all of its messages. -/
theorem stands_start (hcalls : dvcman.calls = []) (hrunning : ∃ channel,
      dvcman.channelsById channelId = some channel ∧ channel.dvcData = none) :
    Stands channelId messages dvcman (messages.flatMap (pdusOf channelId)) := by
  obtain ⟨channel, hchannel, hnone⟩ := hrunning
  have hnocalls : callsOf channelId dvcman = [] := by
    rw [callsOf, hcalls, filter_nil]
  refine Or.inr ⟨channel, messages, hchannel, ?_, Expects.message _ hnone⟩
  rw [hnocalls]
  rfl

/-- At the end every message was handed over, unless a handler has failed. -/
theorem stands_nil (h : Stands channelId messages dvcman []) :
    (callsOf channelId dvcman).map Received.data <+: messages ∧
      ((∀ r ∈ callsOf channelId dvcman, r.status = channelRcOk) →
        (callsOf channelId dvcman).map Received.data = messages) := by
  rcases h with ⟨-, ⟨r, hr, hfailed⟩, hfirst⟩ | ⟨channel, later, -, hlater, hexpects⟩
  · exact ⟨hfirst, fun hok => absurd (hok r hr) hfailed⟩
  · have hdone : later = [] := by
      generalize hpdus : ([] : List (List UInt8)) = pdus at hexpects
      cases hexpects with
      | message later hnone =>
        rcases later with _ | ⟨m, later⟩
        · rfl
        · rw [flatMap_cons] at hpdus
          exact absurd (append_eq_nil_iff.1 hpdus.symm).1 (pdusOf_ne_nil channelId m)
      | chunk later hholds hrest =>
        rw [ByteBuffer.cut_of_ne_nil (room_pos channelId) hrest, map_cons, cons_append] at hpdus
        exact absurd hpdus.symm (cons_ne_nil _ _)
    rw [hdone, append_nil] at hlater
    exact ⟨hlater ▸ prefix_rfl, fun _ => hlater.symm⟩

/-- A message, and what is answered while it is written. -/
structure Message where
  data : List UInt8
  answers : Answers

namespace Message

variable {m : Message}

/-- What the writer returns for the message. -/
def status (m : Message) (channelId : ℕ) : Option ℕ :=
  (writeData m.answers channelId m.data).map WriteResult.status

/-- The PDUs that are sent while the message is written. -/
def sentPdus (m : Message) (channelId : ℕ) : List (List UInt8) :=
  ((writeData m.answers channelId m.data).map WriteResult.pdus).getD []

/-- Without a failure the whole message is sent. -/
theorem sentPdus_eq (hdata : m.data ≠ []) (hsend : ∀ n, m.answers.send n = channelRcOk)
    (channelId : ℕ) :
    m.status channelId = some channelRcOk ∧ m.sentPdus channelId = pdusOf channelId m.data := by
  obtain ⟨r, hr, hsends⟩ := writeData_spec m.answers channelId hdata
  have hok := hsends.status_eq hsend
  rw [status, sentPdus, hr]
  exact ⟨congrArg some hok, hsends.sent_eq hok⟩

end Message

/-- **Messages survive fragmentation.**  Messages are written to channels, no PDU fails to be sent,
and the PDUs of the channels arrive in any interleaving.  Every message is written, no PDU is
longer than a chunk, and the calls of the handler of each channel are for its messages, in order;
for all of them, when no call fails. -/
theorem messages_delivered {ids : Finset ℕ} (hids : ∀ c ∈ ids, c < 2 ^ 32)
    {messages : ℕ → List Message}
    (hmessages : ∀ c ∈ ids, ∀ m ∈ messages c,
      m.data ≠ [] ∧ m.data.length < 2 ^ 32 ∧ ∀ n, m.answers.send n = channelRcOk)
    {arrivals : List Arrival} (hfrom : ∀ a ∈ arrivals, a.channelId ∈ ids)
    (horder : ∀ c ∈ ids, pdusTo c arrivals = (messages c).flatMap fun m => m.sentPdus c)
    {dvcman : Dvcman Z} (hcalls : dvcman.calls = [])
    (hrunning : ∀ c ∈ ids, ∃ channel, dvcman.channelsById c = some channel ∧
      channel.dvcData = none) :
    (∀ c ∈ ids, ∀ m ∈ messages c, m.status c = some channelRcOk) ∧
    (∀ a ∈ arrivals, a.pdu.length ≤ channelChunkLength) ∧
    ∃ t, run (step zgfxDecompress) dvcman arrivals = some t ∧ ∀ c ∈ ids,
      (callsOf c t).map Received.data <+: (messages c).map Message.data ∧
      ((∀ r ∈ callsOf c t, r.status = channelRcOk) →
        (callsOf c t).map Received.data = (messages c).map Message.data) := by
  have hwritten : ∀ c ∈ ids, ∀ m ∈ messages c, m.status c = some channelRcOk ∧
      m.sentPdus c = pdusOf c m.data := fun c hc m hm =>
    Message.sentPdus_eq (hmessages c hc m hm).1 (hmessages c hc m hm).2.2 c
  have hflat : ∀ c ∈ ids, pdusTo c arrivals =
      ((messages c).map Message.data).flatMap (pdusOf c) := by
    intro c hc
    rw [horder c hc, flatMap_map, flatMap_congr fun m hm => (hwritten c hc m hm).2]
  have hof : ∀ a ∈ arrivals, ∃ m ∈ messages a.channelId, a.pdu ∈ pdusOf a.channelId m.data := by
    intro a ha
    have hc := hfrom a ha
    have hmem : a.pdu ∈ pdusTo a.channelId arrivals :=
      mem_map_of_mem (mem_filter.2 ⟨ha, decide_eq_true rfl⟩)
    rw [horder _ hc, mem_flatMap] at hmem
    obtain ⟨m, hm, hpdu⟩ := hmem
    exact ⟨m, hm, (hwritten _ hc m hm).2 ▸ hpdu⟩
  refine ⟨fun c hc m hm => (hwritten c hc m hm).1, fun a ha => ?_, ?_⟩
  · obtain ⟨m, -, hpdu⟩ := hof a ha
    exact length_le_of_mem_pdusOf hpdu
  · have hdata : ∀ c ∈ ids, ∀ data ∈ (messages c).map Message.data,
        data ≠ [] ∧ data.length < 2 ^ 32 := by
      intro c hc data hdata
      obtain ⟨m, hm, rfl⟩ := mem_map.1 hdata
      exact ⟨(hmessages c hc m hm).1, (hmessages c hc m hm).2.1⟩
    have hkinds : ∀ a ∈ arrivals, a.channelId ∈ ids ∧
        ((∃ data, a.pdu = dataPduOf a.channelId data) ∨
          ∃ length data, length < 2 ^ 32 ∧ a.pdu = dataFirstPduOf a.channelId length data) := by
      intro a ha
      obtain ⟨m, hm, hpdu⟩ := hof a ha
      exact ⟨hfrom a ha, kind_of_mem_pdusOf (hmessages _ (hfrom a ha) m hm).2.1 hpdu⟩
    have hstands : ∀ c ∈ ids, Stands c ((messages c).map Message.data) dvcman
        (pdusTo c arrivals) := by
      intro c hc
      rw [hflat c hc]
      exact stands_start hcalls (hrunning c hc)
    obtain ⟨t, hrun, ht⟩ := stands_run zgfxDecompress hids hdata hkinds hstands
    exact ⟨t, hrun, fun c hc => stands_nil (ht c hc)⟩

/-- A message of 3000 bytes, which takes two PDUs. -/
def longMessage (byte : UInt8) : Message :=
  ⟨replicate 3000 byte, ⟨fun _ => [], fun _ => channelRcOk⟩⟩

/-- The first of them, at a handler that does not fail, and the second. -/
def longArrival (byte : UInt8) (channelId : ℕ) (first : Bool) : Arrival :=
  let n := roomFirst channelId 3000
  ⟨channelId,
    if first then dataFirstPduOf channelId 3000 (replicate n byte)
    else dataPduOf channelId (replicate (3000 - n) byte), ⟨[], channelRcOk, 0⟩⟩

theorem sentPdus_longMessage (byte : UInt8) {channelId : ℕ}
    (hfits : 3000 ≤ roomFirst channelId 3000 + room channelId) :
    (longMessage byte).sentPdus channelId =
      [(longArrival byte channelId true).pdu, (longArrival byte channelId false).pdu] := by
  have hadd := room_add channelId
  have hfirst := roomFirst_add channelId 3000
  rw [channelChunkLength] at hadd
  have hlength : (replicate 3000 byte).length = 3000 := length_replicate
  have htake : min (roomFirst channelId 3000) 3000 = roomFirst channelId 3000 := by omega
  rw [(Message.sentPdus_eq (m := longMessage byte) (cons_ne_nil _ _) (fun _ => rfl) channelId).2]
  show pdusOf channelId (replicate 3000 byte) = _
  rw [pdusOf_two (by rw [hlength]; omega) (by rwa [hlength]), hlength, take_replicate, drop_replicate, htake]
  rfl

/-- A message to each of two channels, whose ids take one byte and four; the PDUs of the one
arrive between those of the other. -/
theorem messages_delivered_two :
    let inflates : Unit → List UInt8 → Option (List UInt8) × Unit := fun z _ => (none, z)
    let dvcman : Dvcman Unit := ⟨fun _ => some ⟨none, 0, ()⟩, []⟩
    ∃ t, run (step inflates) dvcman [longArrival 1 70000 true, longArrival 2 7 true,
        longArrival 2 7 false, longArrival 1 70000 false] = some t ∧
      ((∀ r ∈ callsOf 7 t, r.status = channelRcOk) →
        (callsOf 7 t).map Received.data = [replicate 3000 2]) := by
  intro inflates dvcman
  have hids : ∀ c ∈ ({7, 70000} : Finset ℕ), c = 7 ∨ c = 70000 := fun c hc =>
    (Finset.mem_insert.1 hc).imp_right Finset.mem_singleton.1
  obtain ⟨-, -, t, hrun, ht⟩ := @messages_delivered Unit inflates {7, 70000}
    (fun c hc => by rcases hids c hc with rfl | rfl <;> decide)
    (fun c => [longMessage (if c = 7 then 2 else 1)])
    (fun c _ m hm => by
      obtain rfl := mem_singleton.1 hm
      exact ⟨cons_ne_nil _ _, by rw [longMessage, length_replicate]; decide, fun _ => rfl⟩)
    [longArrival 1 70000 true, longArrival 2 7 true, longArrival 2 7 false,
      longArrival 1 70000 false]
    (fun a ha => by
      simp only [mem_cons, not_mem_nil, or_false] at ha
      rcases ha with rfl | rfl | rfl | rfl <;> simp [longArrival])
    (fun c hc => by
      rcases hids c hc with rfl | rfl
      · rw [flatMap_singleton, if_pos rfl, sentPdus_longMessage 2 (by decide)]
        rfl
      · rw [flatMap_singleton, if_neg (by decide), sentPdus_longMessage 1 (by decide)]
        rfl)
    dvcman rfl (fun c _ => ⟨⟨none, 0, ()⟩, rfl, rfl⟩)
  exact ⟨t, hrun, (ht 7 (Finset.mem_insert_self 7 _)).2⟩

end Drdynvc
