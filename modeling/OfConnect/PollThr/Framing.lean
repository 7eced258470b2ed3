import OfConnect.Core.Api
import OfConnect.Lib.Bytes
import OfConnect.Lib.Run

/-!
# Records on the data pipe

`cc_of_send_pkt` writes a header and the payload from the one buffer `SEND_MSG_BUF`, and
`pollthr_data_pipe_process_func` reads up to `SEND_MSG_BUF_SIZE` bytes and takes one
message from them, whatever else they hold. The reader is in step with the writers as
long as every record fits the buffer and a record is written only where all that is
still in the pipe are records of full size.

The header is `msg_size` and `fd` in little-endian order, then `dp_id`, `aux_id` and
padding, which the writer leaves as they are. Bytes past the end of a buffer are part of
the model: what a record too long for `SEND_MSG_BUF` overwrites is read back from there.
-/

namespace OfConnect.PollThr.Framing

open OfConnect.Lib.Bytes OfConnect.Lib.Tables OfConnect.Lib.Run OfConnect.PollThr.Thread
open OfConnect.Core.State OfConnect.Core.Api

def sendMsgBufSize : Nat := 1024

/-- `sizeof(adpoll_send_msg_hdr_t)`, which is also the offset of the payload. -/
def hdrSize : Nat := 24

/-- `hdr.msg_size` for a payload. -/
def msgSize (ofMsg : List UInt8) : UInt32 := UInt32.ofNat (ofMsg.length + hdrSize)

/-- `SEND_MSG_BUF` with a message for `fd` in it. -/
def fillSendMsgBuf (buf : Mem) (fd : Fd) (ofMsg : List UInt8) : Mem :=
  store (store (store buf 0 (leBytes 4 (msgSize ofMsg).toNat)) 4 (leBytes 4 fd.toUInt32.toNat))
    hdrSize ofMsg

/-- The bytes of the `write` to the data pipe. -/
def sendRecord (buf : Mem) (fd : Fd) (ofMsg : List UInt8) : List UInt8 :=
  fetch (fillSendMsgBuf buf fd ofMsg) 0 (msgSize ofMsg).toNat

/-- The channel of `cc_of_send_pkt`: the key it was called with, or the same `dp_id` with
its low byte as `aux_id`. -/
def sendSocket (g : Global) (dpId : UInt64) (auxId : UInt8) : Option Fd :=
  ((g.ofchannelHtbl.lookup ⟨dpId, auxId⟩).or (g.ofchannelHtbl.lookup ⟨dpId, dpId.toUInt8⟩)).map
    ChannelInfo.rwSockfd

/-- What a successful `cc_of_send_pkt` does: the thread it writes to, and the socket and
payload of the record. -/
structure Packet where
  tmgr : MgrId
  fd : Fd
  payload : List UInt8

/-- `cc_of_send_pkt` up to the write; without a packet the result is `CC_OF_EINVAL`. -/
def ccOfSendPkt (g : Global) (dpId : UInt64) (auxId : UInt8) (ofMsg : Option (List UInt8)) :
    Ret × Option Packet :=
  match ofMsg with
  | none => (ccOfEinval, none)
  | some ofMsg =>
    match sendSocket g dpId auxId with
    | none => (ccOfEinval, none)
    | some sendRwsock =>
      match (findThrmgrRwsocketLockfree g sendRwsock).join with
      | none => (ccOfEinval, none)
      | some tmgr => (ccOfOk, some ⟨tmgr, sendRwsock, ofMsg⟩)

/-- `(hdr.fd, data, data_size)`. -/
structure Extracted where
  fd : Fd
  data : List UInt8
  dataSize : Int32
  deriving DecidableEq, Repr

/-- What `pollthr_data_pipe_process_func` takes from its buffer. With a `msg_size` below the
size of the header the copy is of a negative size, which no buffer has. -/
def extract (msgBuf : Mem) : Option Extracted :=
  let size := UInt32.ofNat (leNat (fetch msgBuf 0 4))
  let dataSize := (size - UInt32.ofNat hdrSize).toInt32
  if dataSize < 0 then none
  else some
    { fd := (UInt32.ofNat (leNat (fetch msgBuf 4 4))).toInt32
      data := fetch msgBuf hdrSize dataSize.toInt.toNat
      dataSize := dataSize }

/-- `pollthr_data_pipe_process_func` up to the hash table. `stack` is what `msg_buf` and
the memory after it hold before the read; a thread reads only what is there. -/
def dataPipeRead (pipe : List UInt8) (stack : Mem) : Option (Extracted × List UInt8) :=
  if pipe = [] then none
  else (extract (store stack 0 (pipe.take sendMsgBufSize))).map fun e =>
    (e, pipe.drop sendMsgBufSize)

/-! ## One record -/

/-- A record of a message that fits the buffer. -/
structure IsRecord (r : List UInt8) (fd : Fd) (d : List UInt8) : Prop where
  layout : ∃ rest, rest.length = 16 ∧
    r = leBytes 4 (d.length + hdrSize) ++ leBytes 4 fd.toUInt32.toNat ++ rest ++ d
  fits : d.length + hdrSize ≤ sendMsgBufSize

theorem IsRecord.length {r : List UInt8} {fd : Fd} {d : List UInt8} (h : IsRecord r fd d) :
    r.length = d.length + hdrSize := by
  obtain ⟨rest, hrest, rfl⟩ := h.layout
  simp [hrest, hdrSize]
  omega

theorem msgSize_toNat {d : List UInt8} (h : d.length + hdrSize ≤ sendMsgBufSize) :
    (msgSize d).toNat = d.length + hdrSize := by
  unfold msgSize
  simp only [UInt32.toNat_ofNat']
  apply Nat.mod_eq_of_lt
  unfold sendMsgBufSize at h
  omega

/-- A message that fits is written as a record, with whatever the buffer held in between. -/
theorem isRecord_sendRecord (buf : Mem) (fd : Fd) {d : List UInt8}
    (h : d.length + hdrSize ≤ sendMsgBufSize) : IsRecord (sendRecord buf fd d) fd d := by
  refine ⟨⟨fetch buf 8 16, length_fetch _ _ _, ?_⟩, h⟩
  have hsize := msgSize_toNat h
  unfold sendRecord
  have hsplit : (msgSize d).toNat = 4 + (4 + (16 + d.length)) := by
    rw [hsize]
    simp only [hdrSize]
    omega
  have h0 : fetch (fillSendMsgBuf buf fd d) 0 4 = leBytes 4 (d.length + hdrSize) := by
    unfold fillSendMsgBuf
    rw [fetch_store_of_disjoint (by simp [hdrSize]), fetch_store_of_disjoint (by simp), hsize]
    have hself := fetch_store_self buf 0 (leBytes 4 (d.length + hdrSize))
    rwa [length_leBytes] at hself
  have h4 : fetch (fillSendMsgBuf buf fd d) 4 4 = leBytes 4 fd.toUInt32.toNat := by
    unfold fillSendMsgBuf
    rw [fetch_store_of_disjoint (by simp [hdrSize])]
    have hself := fetch_store_self (store buf 0 (leBytes 4 (msgSize d).toNat)) 4
      (leBytes 4 fd.toUInt32.toNat)
    rwa [length_leBytes] at hself
  have h8 : fetch (fillSendMsgBuf buf fd d) 8 16 = fetch buf 8 16 := by
    unfold fillSendMsgBuf
    rw [fetch_store_of_disjoint (by simp [hdrSize]), fetch_store_of_disjoint (by simp),
      fetch_store_of_disjoint (by simp)]
  have h24 : fetch (fillSendMsgBuf buf fd d) 24 d.length = d := fetch_store_self _ _ _
  rw [hsplit, fetch_add, fetch_add, fetch_add, h0]
  simp only [Nat.zero_add, Nat.reduceAdd]
  rw [h4, h8, h24]
  simp only [List.append_assoc]

/-- The message of the first record in the buffer is extracted, whatever follows it. -/
theorem extract_record {r more : List UInt8} {fd : Fd} {d : List UInt8} (stack : Mem)
    (h : IsRecord r fd d) :
    extract (store stack 0 (r ++ more)) = some ⟨fd, d, Int32.ofNat d.length⟩ := by
  have hlen := h.length
  obtain ⟨⟨rest, hrest, hr⟩, hfits⟩ := h
  have hge : hdrSize ≤ r.length := by omega
  have hfetch : ∀ off n, off + n ≤ r.length →
      fetch (store stack 0 (r ++ more)) off n = (r.drop off).take n := by
    intro off n hn
    rw [fetch_store_part (by simp; omega), List.drop_append_of_le_length (by omega),
      List.take_append_of_le_length (by simp; omega)]
  have h0 : fetch (store stack 0 (r ++ more)) 0 4 = leBytes 4 (d.length + hdrSize) := by
    rw [hfetch 0 4 (by unfold hdrSize at hge; omega), hr]
    simp
  have h4 : fetch (store stack 0 (r ++ more)) 4 4 = leBytes 4 fd.toUInt32.toNat := by
    rw [hfetch 4 4 (by unfold hdrSize at hge; omega), hr]
    simp
  have h24 : fetch (store stack 0 (r ++ more)) hdrSize d.length = d := by
    have hdrop : r.drop hdrSize = d := by
      rw [hr]
      exact List.drop_left' (by simp [hrest, hdrSize])
    rw [hfetch hdrSize d.length (by omega), hdrop, List.take_length]
  have hlt : d.length < 2 ^ 31 := by
    unfold sendMsgBufSize at hfits
    omega
  have hpow : 256 ^ 4 = 2 ^ 32 := by norm_num
  have hsize : (UInt32.ofNat (leNat (leBytes 4 (d.length + hdrSize))) -
      UInt32.ofNat hdrSize).toInt32 = Int32.ofNat d.length := by
    rw [leNat_leBytes, hpow, UInt32.ofNat_mod_size, UInt32.ofNat_add, UInt32.add_sub_cancel]
    rfl
  have hfd : (UInt32.ofNat (leNat (leBytes 4 fd.toUInt32.toNat))).toInt32 = fd := by
    rw [leNat_leBytes, hpow, UInt32.ofNat_mod_size, UInt32.ofNat_toNat, Int32.toInt32_toUInt32]
  have hnonneg : ¬ Int32.ofNat d.length < 0 := by
    rw [Int32.lt_iff_toInt_lt, Int32.toInt_ofNat_of_lt hlt]
    have hzero : (0 : Int32).toInt = 0 := rfl
    omega
  unfold extract
  simp only [h0, h4, hsize, hfd, if_neg hnonneg, Int32.toInt_ofNat_of_lt hlt, Int.toNat_natCast,
    h24]

/-! ## Runs -/

/-- The data pipe of one thread, with what was sent to it and what it extracted. -/
structure DataPipe where
  sendMsgBuf : Mem
  pipe : List UInt8
  sent : List (Fd × List UInt8)
  extracted : List Extracted

inductive Act where
  | send (g : Global) (dpId : UInt64) (auxId : UInt8) (ofMsg : Option (List UInt8))
  | read (stack : Mem)

/-- A call of `cc_of_send_pkt`, with the tables it finds, or a read by the thread of
`tmgr`. A packet for another thread goes through the same buffer. -/
def step (tmgr : MgrId) (s : DataPipe) : Act → Option DataPipe
  | .send g dpId auxId ofMsg =>
    match (ccOfSendPkt g dpId auxId ofMsg).2 with
    | none => some s
    | some p =>
      if p.tmgr = tmgr then
        some { s with
          sendMsgBuf := fillSendMsgBuf s.sendMsgBuf p.fd p.payload
          pipe := s.pipe ++ sendRecord s.sendMsgBuf p.fd p.payload
          sent := s.sent ++ [(p.fd, p.payload)] }
      else some { s with sendMsgBuf := fillSendMsgBuf s.sendMsgBuf p.fd p.payload }
  | .read stack => (dataPipeRead s.pipe stack).map fun r =>
      { s with pipe := r.2, extracted := s.extracted ++ [r.1] }

/-- An empty pipe. -/
def start (sendMsgBuf : Mem) : DataPipe := ⟨sendMsgBuf, [], [], []⟩

/-- What the thread should extract for a packet. -/
def asExtracted (p : Fd × List UInt8) : Extracted := ⟨p.1, p.2, Int32.ofNat p.2.length⟩

/-- Decoding undoes encoding: a drained pipe has yielded the packets that were sent, a pipe
with something in it yields a message, and the messages fit the buffer. -/
structure Framed (s : DataPipe) : Prop where
  drained : s.pipe = [] → s.extracted = s.sent.map asExtracted
  readable : ∀ stack, s.pipe ≠ [] → (dataPipeRead s.pipe stack).isSome
  fits : ∀ p ∈ s.sent, p.2.length + hdrSize ≤ sendMsgBufSize ∧
    (msgSize p.2).toNat = p.2.length + hdrSize

/-- A packet for this thread fits the buffer, and what is still in the pipe are records of
full size. -/
def SendsAligned (tmgr : MgrId) (s : DataPipe) : Act → Prop
  | .send g dpId auxId ofMsg => ∀ p, (ccOfSendPkt g dpId auxId ofMsg).2 = some p → p.tmgr = tmgr →
      p.payload.length + hdrSize ≤ sendMsgBufSize ∧ s.pipe.length % sendMsgBufSize = 0
  | .read _ => True

/-- The packets on the way are in the pipe as records, each of them a chunk of its own. -/
def InStep (s : DataPipe) : Prop :=
  ∃ done flight rs, s.sent = done ++ flight ∧ s.extracted = done.map asExtracted ∧
    s.pipe = rs.flatten ∧ Chunked sendMsgBufSize rs ∧
    List.Forall₂ (fun r p => IsRecord r p.1 p.2) rs flight ∧
    ∀ p ∈ s.sent, p.2.length + hdrSize ≤ sendMsgBufSize

theorem dataPipeRead_chunk {cs : List (List UInt8)} {r : List UInt8} {fd : Fd}
    {d : List UInt8} (stack : Mem) (more : List UInt8) (hc : Chunked sendMsgBufSize ((r ++ more) :: cs))
    (hr : IsRecord r fd d) :
    dataPipeRead ((r ++ more) :: cs).flatten stack =
      some (⟨fd, d, Int32.ofNat d.length⟩, cs.flatten) := by
  have hne : ((r ++ more) :: cs).flatten ≠ [] := by
    rw [Ne, flatten_eq_nil_iff_of_chunked hc]
    simp
  unfold dataPipeRead
  rw [if_neg hne, hc.read.1, hc.read.2, extract_record stack hr, Option.map_some]

theorem framed_of_inStep {s : DataPipe} (h : InStep s) : Framed s := by
  obtain ⟨done, flight, rs, hsent, hext, hpipe, hc, hrec, hfits⟩ := h
  refine ⟨fun hempty => ?_, fun stack hne => ?_, fun p hp => ⟨hfits p hp, msgSize_toNat (hfits p hp)⟩⟩
  · rw [hpipe, flatten_eq_nil_iff_of_chunked hc] at hempty
    subst hempty
    obtain rfl := List.forall₂_nil_left_iff.mp hrec
    rw [hext, hsent, List.append_nil]
  · cases hrec with
    | nil => exact absurd hpipe hne
    | cons hr hrest =>
      have hread := dataPipeRead_chunk stack [] (by simpa using hc) hr
      rw [List.append_nil] at hread
      rw [hpipe, hread]
      rfl

theorem inStep_send {s : DataPipe} {p : Fd × List UInt8} (h : InStep s)
    (hfit : p.2.length + hdrSize ≤ sendMsgBufSize) (hmod : s.pipe.length % sendMsgBufSize = 0)
    (buf : Mem) :
    InStep { s with
      sendMsgBuf := buf
      pipe := s.pipe ++ sendRecord s.sendMsgBuf p.1 p.2
      sent := s.sent ++ [p] } := by
  obtain ⟨done, flight, rs, hsent, hext, hpipe, hc, hrec, hfits⟩ := h
  have hr := isRecord_sendRecord s.sendMsgBuf p.1 hfit
  have hlen := hr.length
  have hne : sendRecord s.sendMsgBuf p.1 p.2 ≠ [] := by
    intro he
    rw [he] at hlen
    simp [hdrSize] at hlen
  refine ⟨done, flight ++ [p], rs ++ [sendRecord s.sendMsgBuf p.1 p.2], ?_, hext, ?_, ?_, ?_, ?_⟩
  · rw [hsent, List.append_assoc]
  · simp [hpipe]
  · exact hc.append hne (by omega) (by rw [← hpipe]; exact hmod)
  · exact List.rel_append hrec (List.Forall₂.cons hr List.Forall₂.nil)
  · intro q hq
    rcases List.mem_append.mp hq with hq | hq
    · exact hfits q hq
    · rw [List.mem_singleton.mp hq]
      exact hfit

theorem inStep_read {s s' : DataPipe} {tmgr : MgrId} {stack : Mem} (h : InStep s)
    (hs : step tmgr s (.read stack) = some s') : InStep s' := by
  obtain ⟨r, hr, rfl⟩ := Option.map_eq_some_iff.mp hs
  obtain ⟨done, flight, rs, hsent, hext, hpipe, hc, hrec, hfits⟩ := h
  cases hrec with
  | nil =>
    rw [hpipe] at hr
    simp [dataPipeRead] at hr
  | @cons rec p rs flight hrp hrest =>
    have hread := dataPipeRead_chunk stack [] (by simpa using hc) hrp
    rw [List.append_nil] at hread
    rw [hpipe, hread] at hr
    obtain rfl := Option.some.inj hr
    refine ⟨done ++ [p], flight, rs, ?_, ?_, rfl, hc.tail, hrest, hfits⟩
    · rw [hsent, List.append_assoc]
      rfl
    · simp [hext, asExtracted]

theorem inStep_step {s s' : DataPipe} {tmgr : MgrId} {a : Act} (h : InStep s)
    (hok : SendsAligned tmgr s a) (hs : step tmgr s a = some s') : InStep s' := by
  cases a with
  | send g dpId auxId ofMsg =>
    simp only [step] at hs
    split at hs
    · obtain rfl := Option.some.inj hs
      exact h
    · rename_i p hp
      split at hs
      · rename_i hm
        obtain rfl := Option.some.inj hs
        obtain ⟨hfit, hmod⟩ := hok p hp hm
        have hsend := inStep_send (p := (p.fd, p.payload)) h hfit hmod
          (fillSendMsgBuf s.sendMsgBuf p.fd p.payload)
        exact hsend
      · obtain rfl := Option.some.inj hs
        exact h
  | read stack => exact inStep_read h hs

/-- In a run in which every packet fits the buffer and is written after records of full
size only, decoding undoes encoding in every state. -/
theorem framed_of_sends_aligned (tmgr : MgrId) (sendMsgBuf : Mem) (acts : List Act)
    (hg : Guarded (step tmgr) (SendsAligned tmgr) (start sendMsgBuf) acts) :
    Always (step tmgr) Framed (start sendMsgBuf) acts := by
  have hstart : InStep (start sendMsgBuf) :=
    ⟨[], [], [], rfl, rfl, rfl, chunked_nil, List.Forall₂.nil, fun p hp => by cases hp⟩
  have hall : Always (step tmgr) InStep (start sendMsgBuf) acts :=
    always_of_guarded (fun s a t h hok hs => inStep_step h hok hs) hstart hg
  exact hall.mono fun s h => framed_of_inStep h

/-- A switch with a device and the channel (7, 0) on socket 5, polled by manager 0. -/
def oneChannel : Option Global :=
  (ccOfDevRegister (ccOfLibInit .switch) ⟨1, 2, 6633⟩ 0 ⟨0, 0, 0⟩ 0).bind fun r =>
    (ccOfCreateChannel r.2 ⟨1, 2, 6633⟩ ⟨7, 0⟩ .tcp 5 ⟨0, 0⟩).map Prod.snd

/-- One packet, read, and a second one, read. -/
theorem framed_of_sends_aligned_at_two_packets :
    ∃ g, oneChannel = some g ∧
      Guarded (step 0) (SendsAligned 0) (start fun _ => 0)
        [.send g 7 0 (some [1]), .read fun _ => 0, .send g 7 0 (some [2]), .read fun _ => 0] ∧
      Always (step 0) Framed (start fun _ => 0)
        [.send g 7 0 (some [1]), .read fun _ => 0, .send g 7 0 (some [2]), .read fun _ => 0] := by
  refine ⟨_, rfl, ?hg, framed_of_sends_aligned 0 _ _ ?hg⟩
  refine guarded_cons.mpr fun t ht => ⟨fun p hp _ => ?_, ?_⟩
  · obtain rfl := Option.some.inj hp
    decide
  obtain rfl := Option.some.inj ht
  refine guarded_cons.mpr fun t ht => ⟨trivial, ?_⟩
  obtain rfl := Option.some.inj ht
  refine guarded_cons.mpr fun t ht => ⟨fun p hp _ => ?_, ?_⟩
  · obtain rfl := Option.some.inj hp
    decide
  exact guarded_cons.mpr fun t ht => ⟨trivial, guarded_nil⟩

/-- Two packets are in the pipe when the thread reads: the second is lost. -/
theorem second_packet_lost :
    ∃ g s, oneChannel = some g ∧
      run (step 0) (start fun _ => 0)
        [.send g 7 0 (some [1]), .send g 7 0 (some [2]), .read fun _ => 0] = some s ∧
      ¬Framed s := by
  refine ⟨_, _, rfl, rfl, fun h => ?_⟩
  have hlost := h.drained (by decide)
  revert hlost
  decide

end OfConnect.PollThr.Framing
