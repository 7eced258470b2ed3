import OfConnect.PollThr.Conservation
import OfConnect.PollThr.Framing
import OfConnect.PollThr.Writes

/-!
# From `cc_of_send_pkt` to the socket

A packet goes through `SEND_MSG_BUF` into the data pipe as bytes, out of it into `send_msg_htbl` as
a message, and from there to `send` on the socket. The three stretches are put together here, for
one thread and any number of senders: `Framing` has the bytes on the pipe, `Conservation` the table
and `Writes` the call of `send`. In every state of a run the packets that were sent are on the
socket, stored or in the pipe, each once and in order, exactly if every step meets `Carries`.
-/

namespace OfConnect.PollThr.Transport

open OfConnect.Lib.Bytes OfConnect.Lib.Run OfConnect.Lib.Tables OfConnect.PollThr.Thread
open OfConnect.PollThr.Ownership OfConnect.PollThr.Conservation OfConnect.PollThr.Framing
open OfConnect.PollThr.Writes (SendResult processTcpfdPolloutFunc processTcpfdPolloutFunc_eq)
open OfConnect.Core.State

/-- A thread and its data pipe, with what was sent to it. `log` has what the thread took off the
pipe and what it passed to each `pollout_func`, `wire` what `send` took on each socket. -/
structure Sys where
  sendMsgBuf : Mem
  pipe : List UInt8
  sent : List (Fd × List UInt8)
  log : Logged
  wire : Fd → List UInt8

/-- What the thread finds when it serves an entry: the message on the primary pipe, what `msg_buf`
held, and the part of the new block that it leaves as it is. -/
structure Finds where
  pri : ThrMsg
  stack : Mem
  dpId : UInt64
  auxId : UInt8

inductive Act where
  | send (g : Global) (dpId : UInt64) (auxId : UInt8) (ofMsg : Option (List UInt8))
  | poll (rev : Nat → PollEvents)
  | pollin (i : Nat) (f : Finds)
  | pollout (i : Nat) (len : Nat) (res : SendResult len)

/-- The bytes that a `pollout_func` puts on the stream of a TCP socket. -/
def onStream (func : Option FdProcessFunc) {len : Nat} (res : SendResult len)
    (info : SendMsgInfo) : List UInt8 :=
  match func with
  | some .tcpfdPollout => processTcpfdPolloutFunc res info
  | _ => []

def sendStep (tmgr : MgrId) (s : Sys) (p : Packet) : Sys :=
  if p.tmgr = tmgr then
    { s with
      sendMsgBuf := fillSendMsgBuf s.sendMsgBuf p.fd p.payload
      pipe := s.pipe ++ sendRecord s.sendMsgBuf p.fd p.payload
      sent := s.sent ++ [(p.fd, p.payload)] }
  else { s with sendMsgBuf := fillSendMsgBuf s.sendMsgBuf p.fd p.payload }

/-- The first half of `poll_fd_process`. The data pipe function reads what is in the pipe; the
entry of another function is served as in `Conservation`. -/
def pollinStep (s : Sys) (e : FdInfo) (f : Finds) : Option Sys :=
  if takesData s.log.thr e then
    (dataPipeRead s.pipe f.stack).bind fun x =>
      (Conservation.pollinStep s.log e ⟨f.pri, x.1.fd, ⟨f.dpId, f.auxId, x.1.data⟩⟩).map fun log =>
        { s with log := log, pipe := x.2 }
  else
    (Conservation.pollinStep s.log e ⟨f.pri, 0, ⟨f.dpId, f.auxId, []⟩⟩).map fun log =>
      { s with log := log }

/-- The second half, with the call of `send` in the `pollout_func`. -/
def polloutStep (s : Sys) (e : FdInfo) {len : Nat} (res : SendResult len) : Option Sys :=
  (polloutProcess s.log.thr e).map fun q =>
    { s with
      log := { s.log with
        thr := q.1
        passed := s.log.passed ++ (q.2.map fun info => (e.fd, info.data)).toList }
      wire := Function.update s.wire e.fd
        (s.wire e.fd ++ (q.2.map (onStream e.polloutFunc res)).getD []) }

def step (tmgr : MgrId) (s : Sys) : Act → Option Sys
  | .send g dpId auxId ofMsg =>
    match (ccOfSendPkt g dpId auxId ofMsg).2 with
    | none => some s
    | some p => some (sendStep tmgr s p)
  | .poll rev => some { s with log := { s.log with thr := Thread.poll s.log.thr rev } }
  | .pollin i f => (s.log.thr.fdList[i]?).bind fun e => pollinStep s e f
  | .pollout i _ res => (s.log.thr.fdList[i]?).bind fun e => polloutStep s e res

def start (sendMsgBuf : Mem) (arr : Nat → PollFd) (p : AdminPipes) : Sys :=
  ⟨sendMsgBuf, [], [], Conservation.start arr p, fun _ => []⟩

/-! ## What arrives -/

/-- What was sent and not yet taken off the pipe is in it, as records. -/
def Queued (s : Sys) : Prop :=
  ∃ flight rs, s.sent = s.log.received ++ flight ∧ s.pipe = rs.flatten ∧
    List.Forall₂ (fun r p => IsRecord r p.1 p.2) rs flight

/-- Every packet that was sent is in the pipe, in the table or on its socket, once and in order;
on the socket it is in full. -/
structure Delivered (s : Sys) : Prop where
  queued : Queued s
  stored : Conserved s.log
  written : ∀ fd, s.wire fd = (forFd s.log.passed fd).flatten

/-- The whole of what a read takes from the pipe is its first record. -/
def OneRecord (pipe : List UInt8) : Prop :=
  (pipe.take sendMsgBufSize).length = leNat (pipe.take 4)

/-- A packet fits the buffer; a read finds one record, for a socket that has nothing stored; and a
message is taken out of the table for a `pollout_func` that puts all of it on the stream. -/
def Carries (tmgr : MgrId) (s : Sys) : Act → Prop
  | .send g dpId auxId ofMsg => ∀ p ∈ (ccOfSendPkt g dpId auxId ofMsg).2, p.tmgr = tmgr →
      p.payload.length + hdrSize ≤ sendMsgBufSize
  | .poll _ => True
  | .pollin i f => ∀ e ∈ s.log.thr.fdList[i]?, takesData s.log.thr e = true →
      OneRecord s.pipe ∧ ∀ x ∈ dataPipeRead s.pipe f.stack, x.1.fd ∉ s.log.thr.sendMsgHtbl
  | .pollout i _ res => ∀ e ∈ s.log.thr.fdList[i]?, polloutSet s.log.thr e = true →
      e.polloutFunc ≠ none ∧ ∀ info ∈ s.log.thr.sendMsgHtbl.lookup e.fd,
        onStream e.polloutFunc res info = info.data

/-! ## The pipe -/

theorem queued_send_iff {tmgr : MgrId} {s : Sys} {p : Packet} (h : Queued s)
    (hp : p.tmgr = tmgr) :
    Queued (sendStep tmgr s p) ↔ p.payload.length + hdrSize ≤ sendMsgBufSize := by
  obtain ⟨flight, rs, hsent, hpipe, hrec⟩ := h
  rw [sendStep, if_pos hp]
  constructor
  · -- the packet that was sent last is the last one in the pipe
    rintro ⟨flight', rs', hsent', -, hrec'⟩
    have hsent' : s.sent ++ [(p.fd, p.payload)] = s.log.received ++ flight' := hsent'
    rw [hsent, List.append_assoc] at hsent'
    have hlast : (p.fd, p.payload) ∈ flight' := by
      rw [← List.append_cancel_left hsent']
      exact List.mem_append_right _ List.mem_cons_self
    obtain ⟨i, hi, hget⟩ := List.mem_iff_getElem.mp hlast
    have hr := hrec'.get (by rw [hrec'.length_eq]; exact hi) hi
    have hfits := hr.fits
    simpa only [List.get_eq_getElem, hget] using hfits
  · intro hfit
    refine ⟨flight ++ [(p.fd, p.payload)], rs ++ [sendRecord s.sendMsgBuf p.fd p.payload],
      ?_, ?_, ?_⟩
    · show s.sent ++ [(p.fd, p.payload)] = s.log.received ++ (flight ++ [(p.fd, p.payload)])
      rw [hsent, List.append_assoc]
    · simp [hpipe]
    · exact List.rel_append hrec
        (List.Forall₂.cons (isRecord_sendRecord s.sendMsgBuf p.fd hfit) List.Forall₂.nil)

theorem length_flatten_records {rs : List (List UInt8)} {flight : List (Fd × List UInt8)}
    (h : List.Forall₂ (fun r p => IsRecord r p.1 p.2) rs flight) :
    rs.flatten.length = (flight.map fun p => p.2.length + hdrSize).sum := by
  induction h with
  | nil => rfl
  | cons hr _ ih =>
    rw [List.flatten_cons, List.length_append, ih, hr.length, List.map_cons, List.sum_cons]

theorem leNat_record {r more : List UInt8} {fd : Fd} {d : List UInt8} (h : IsRecord r fd d) :
    leNat ((r ++ more).take 4) = r.length := by
  have hlen := h.length
  obtain ⟨⟨rest, hrest, hr⟩, hfits⟩ := h
  have htake : (r ++ more).take 4 = leBytes 4 (d.length + hdrSize) := by
    rw [hr]
    simp
  rw [htake, leNat_leBytes, hlen]
  apply Nat.mod_eq_of_lt
  unfold sendMsgBufSize at hfits
  omega

/-- A read yields the packet of the first record, and leaves the other records as they were
exactly if it has taken nothing of them. -/
theorem dataPipeRead_records {rs : List (List UInt8)} {flight : List (Fd × List UInt8)}
    {stack : Mem} {x : Extracted × List UInt8}
    (h : List.Forall₂ (fun r p => IsRecord r p.1 p.2) rs flight)
    (hx : dataPipeRead rs.flatten stack = some x) :
    ∃ p flight' rs', flight = p :: flight' ∧ x.1 = asExtracted p ∧
      List.Forall₂ (fun r p => IsRecord r p.1 p.2) rs' flight' ∧
      (x.2 = rs'.flatten ↔ OneRecord rs.flatten) ∧
      (x.2.length = rs'.flatten.length → x.2 = rs'.flatten) := by
  cases h with
  | nil =>
    simp [dataPipeRead] at hx
  | @cons r p rs flight hr hrest =>
    have hlen := hr.length
    have hfits := hr.fits
    have hle : r.length ≤ sendMsgBufSize := by omega
    have hhead : leNat ((r :: rs).flatten.take 4) = r.length := leNat_record hr
    unfold dataPipeRead at hx
    split at hx
    · cases hx
    · rw [List.flatten_cons, List.take_append, List.take_of_length_le hle,
        extract_record stack hr, Option.map_some] at hx
      obtain rfl := Option.some.inj hx
      have hdrop : (r ++ rs.flatten).drop sendMsgBufSize =
          rs.flatten.drop (sendMsgBufSize - r.length) := by
        rw [List.drop_append, List.drop_of_length_le hle, List.nil_append]
      have hsame : rs.flatten.drop (sendMsgBufSize - r.length) = rs.flatten ↔
          sendMsgBufSize = r.length ∨ rs.flatten.length = 0 := by
        constructor
        · intro heq
          have hlength := congrArg List.length heq
          rw [List.length_drop] at hlength
          omega
        · rintro (heq | heq)
          · rw [heq, Nat.sub_self, List.drop_zero]
          · rw [List.length_eq_zero_iff.mp heq, List.drop_nil]
      refine ⟨p, flight, rs, rfl, rfl, hrest, ?_, ?_⟩
      · dsimp only
        rw [hdrop, hsame, OneRecord, hhead, List.length_take, List.flatten_cons,
          List.length_append]
        omega
      · dsimp only
        rw [hdrop, List.length_drop, hsame]
        omega

theorem queued_read_iff {s : Sys} {stack : Mem} {x : Extracted × List UInt8} {log : Logged}
    (h : Queued s) (hx : dataPipeRead s.pipe stack = some x)
    (hlog : log.received = s.log.received ++ [(x.1.fd, x.1.data)]) :
    Queued { s with log := log, pipe := x.2 } ↔ OneRecord s.pipe := by
  obtain ⟨flight, rs, hsent, hpipe, hrec⟩ := h
  rw [hpipe] at hx ⊢
  obtain ⟨p, flight', rs', rfl, hxp, hrec', hone, hlength⟩ := dataPipeRead_records hrec hx
  have hp : (x.1.fd, x.1.data) = p := by rw [hxp]; rfl
  rw [← hone]
  constructor
  · -- the packets that are left are given, so their records have the length of the old ones
    rintro ⟨flight₂, rs₂, hsent₂, hpipe₂, hrec₂⟩
    have hsent₂ : s.sent = log.received ++ flight₂ := hsent₂
    have hpipe₂ : x.2 = rs₂.flatten := hpipe₂
    rw [hlog, hp, hsent, List.append_assoc] at hsent₂
    obtain rfl := (List.cons.inj (List.append_cancel_left hsent₂)).2
    apply hlength
    rw [hpipe₂, length_flatten_records hrec₂, length_flatten_records hrec']
  · intro hrest
    refine ⟨flight', rs', ?_, hrest, hrec'⟩
    show s.sent = log.received ++ flight'
    rw [hlog, hp, hsent, List.append_assoc]
    rfl

/-! ## Steps -/

theorem pollinStep_logs {h h' : Logged} {e : FdInfo} {r : PipeReads}
    (hstep : Conservation.pollinStep h e r = some h') :
    h'.passed = h.passed ∧ h'.received = h.received ++
      if takesData h.thr e then [(r.dataFd, r.dataInfo.data)] else [] := by
  unfold Conservation.pollinStep at hstep
  split at hstep
  · cases hstep
  · obtain ⟨t, -, rfl⟩ := Option.map_eq_some_iff.mp hstep
    exact ⟨rfl, rfl⟩

theorem delivered_pollin_iff {s s' : Sys} {e : FdInfo} {f : Finds} (h : Delivered s)
    (hstep : pollinStep s e f = some s') :
    Delivered s' ↔ (takesData s.log.thr e = true →
      OneRecord s.pipe ∧ ∀ x ∈ dataPipeRead s.pipe f.stack, x.1.fd ∉ s.log.thr.sendMsgHtbl) := by
  unfold pollinStep at hstep
  split at hstep
  · rename_i hdata
    obtain ⟨x, hx, hstep⟩ := Option.bind_eq_some_iff.mp hstep
    obtain ⟨log, hlog, rfl⟩ := Option.map_eq_some_iff.mp hstep
    obtain ⟨hpassed, hreceived⟩ := pollinStep_logs hlog
    rw [if_pos hdata] at hreceived
    have hstored := conserved_pollin_iff h.stored hlog
    have hqueued := queued_read_iff h.queued hx hreceived
    constructor
    · intro h' _
      refine ⟨hqueued.mp h'.queued, fun y hy => ?_⟩
      obtain rfl := Option.some.inj (hx.symm.trans hy)
      exact hstored.mp h'.stored hdata
    · intro hok
      obtain ⟨hone, hfree⟩ := hok hdata
      refine ⟨hqueued.mpr hone, hstored.mpr fun _ => hfree x hx, fun fd => ?_⟩
      show s.wire fd = (forFd log.passed fd).flatten
      rw [hpassed]
      exact h.written fd
  · rename_i hdata
    obtain ⟨log, hlog, rfl⟩ := Option.map_eq_some_iff.mp hstep
    obtain ⟨hpassed, hreceived⟩ := pollinStep_logs hlog
    rw [if_neg hdata, List.append_nil] at hreceived
    refine iff_of_true ⟨?_, ?_, fun fd => ?_⟩ fun hyes => absurd hyes hdata
    · obtain ⟨flight, rs, hsent, hpipe, hrec⟩ := h.queued
      exact ⟨flight, rs, hsent.trans (by rw [hreceived]), hpipe, hrec⟩
    · exact (conserved_pollin_iff h.stored hlog).mpr fun hyes => absurd hyes hdata
    · show s.wire fd = (forFd log.passed fd).flatten
      rw [hpassed]
      exact h.written fd

/-- A stream that holds what was passed to it goes on doing so exactly if it gets all of the next
message. -/
theorem written_append_iff {wire : Fd → List UInt8} {passed : List (Fd × List UInt8)} {fd : Fd}
    {bytes d : List UInt8} (h : ∀ f, wire f = (forFd passed f).flatten) :
    (∀ f, Function.update wire fd (wire fd ++ bytes) f =
      (forFd (passed ++ [(fd, d)]) f).flatten) ↔ bytes = d := by
  constructor
  · intro hnew
    have hfd := hnew fd
    rw [Function.update_self, forFd_append, forFd_single, if_pos rfl, List.flatten_append,
      ← h fd] at hfd
    simpa using List.append_cancel_left hfd
  · intro heq f
    rw [forFd_append, forFd_single, List.flatten_append, ← h f]
    by_cases hf : f = fd
    · rw [hf, Function.update_self, if_pos rfl, heq]
      simp
    · rw [Function.update_of_ne hf, if_neg hf]
      simp

theorem delivered_pollout_iff {p : AdminPipes} {s s' : Sys} {e : FdInfo} {len : Nat}
    {res : SendResult len} (hs : Sound p s.log) (he : e ∈ s.log.thr.fdList) (h : Delivered s)
    (hstep : polloutStep s e res = some s') :
    Delivered s' ↔ (polloutSet s.log.thr e = true → e.polloutFunc ≠ none ∧
      ∀ info ∈ s.log.thr.sendMsgHtbl.lookup e.fd,
        onStream e.polloutFunc res info = info.data) := by
  obtain ⟨q, hq, rfl⟩ := Option.map_eq_some_iff.mp hstep
  have hstored := conserved_pollout_iff hs he h.stored
    (show Conservation.polloutStep s.log e = _ by rw [Conservation.polloutStep, hq, Option.map_some])
  have hqueued : Queued { s with
      log := { s.log with
        thr := q.1
        passed := s.log.passed ++ (q.2.map fun info => (e.fd, info.data)).toList } } := h.queued
  rcases polloutProcess_cases hq with ⟨hno, rfl⟩ | ⟨info, hyes, hl, rfl⟩
  · refine iff_of_true ⟨hqueued, hstored.mpr fun hyes => ?_, fun fd => ?_⟩ fun hyes => ?_
    · rw [hno] at hyes
      cases hyes
    · show Function.update s.wire e.fd (s.wire e.fd ++ []) fd =
        (forFd (s.log.passed ++ []) fd).flatten
      rw [List.append_nil, List.append_nil, Function.update_eq_self]
      exact h.written fd
    · rw [hno] at hyes
      cases hyes
  · rw [(hs.2 e he).2] at hl
    cases hfunc : e.polloutFunc with
    | none =>
      -- the message is out of the table and was not passed on
      rw [hfunc] at hstored
      refine iff_of_false (fun h' => hstored.mp h'.stored hyes rfl) fun hok => ?_
      exact (hok hyes).1 rfl
    | some func =>
      have hwritten : (∀ fd, Function.update s.wire e.fd
          (s.wire e.fd ++ onStream (some func) res info) fd =
            (forFd (s.log.passed ++ [(e.fd, info.data)]) fd).flatten) ↔
          onStream (some func) res info = info.data := written_append_iff h.written
      rw [hfunc] at hstored hqueued
      constructor
      · intro h' _
        refine ⟨Option.some_ne_none func, fun i hi => ?_⟩
        obtain rfl := Option.some.inj (hl.symm.trans hi)
        apply hwritten.mp
        intro fd
        have hfd := h'.written fd
        simpa only [hfunc, Option.map_some, Option.getD_some, Option.toList_some] using hfd
      · intro hok
        refine ⟨hqueued, hstored.mpr fun _ => Option.some_ne_none func, ?_⟩
        exact hwritten.mpr ((hok hyes).2 info hl)

theorem sound_step {tmgr : MgrId} {p : AdminPipes} {s s' : Sys} {a : Act} (hs : Sound p s.log)
    (hstep : step tmgr s a = some s') : Sound p s'.log := by
  cases a with
  | send g dpId auxId ofMsg =>
    simp only [step] at hstep
    split at hstep
    · obtain rfl := Option.some.inj hstep
      exact hs
    · obtain rfl := Option.some.inj hstep
      unfold sendStep
      split
      · exact hs
      · exact hs
  | poll rev =>
    obtain rfl := Option.some.inj hstep
    exact sound_frame hs rfl rfl fun k => poll_fd _ _ _
  | pollin i f =>
    obtain ⟨e, -, hstep⟩ := Option.bind_eq_some_iff.mp hstep
    unfold pollinStep at hstep
    split at hstep
    · obtain ⟨x, -, hstep⟩ := Option.bind_eq_some_iff.mp hstep
      obtain ⟨log, hlog, rfl⟩ := Option.map_eq_some_iff.mp hstep
      exact sound_pollinStep hs hlog
    · obtain ⟨log, hlog, rfl⟩ := Option.map_eq_some_iff.mp hstep
      exact sound_pollinStep hs hlog
  | pollout i len res =>
    obtain ⟨e, -, hstep⟩ := Option.bind_eq_some_iff.mp hstep
    obtain ⟨q, hq, rfl⟩ := Option.map_eq_some_iff.mp hstep
    exact sound_polloutStep hs
      (show Conservation.polloutStep s.log e = _ by rw [Conservation.polloutStep, hq, Option.map_some])

theorem delivered_step_iff {tmgr : MgrId} {p : AdminPipes} {s s' : Sys} {a : Act}
    (hs : Sound p s.log) (h : Delivered s) (hstep : step tmgr s a = some s') :
    Delivered s' ↔ Carries tmgr s a := by
  cases a with
  | send g dpId auxId ofMsg =>
    simp only [step] at hstep
    split at hstep
    · rename_i hnone
      obtain rfl := Option.some.inj hstep
      refine iff_of_true h fun p hp => ?_
      rw [hnone] at hp
      cases hp
    · rename_i p hp
      obtain rfl := Option.some.inj hstep
      by_cases hm : p.tmgr = tmgr
      · have hrest : Delivered (sendStep tmgr s p) ↔ Queued (sendStep tmgr s p) := by
          refine ⟨Delivered.queued, fun hq => ⟨hq, ?_, ?_⟩⟩
          · rw [sendStep, if_pos hm]
            exact h.stored
          · rw [sendStep, if_pos hm]
            exact h.written
        rw [hrest, queued_send_iff h.queued hm]
        simp [Carries, hp, hm]
      · have hother : Delivered (sendStep tmgr s p) := by
          rw [sendStep, if_neg hm]
          exact ⟨h.queued, h.stored, h.written⟩
        refine iff_of_true hother fun p' hp' hm' => ?_
        obtain rfl := Option.some.inj (hp.symm.trans hp')
        exact absurd hm' hm
  | poll rev =>
    obtain rfl := Option.some.inj hstep
    exact iff_of_true ⟨h.queued, (conserved_congr rfl rfl rfl).mpr h.stored, h.written⟩ trivial
  | pollin i f =>
    obtain ⟨e, he, hstep⟩ := Option.bind_eq_some_iff.mp hstep
    rw [delivered_pollin_iff h hstep]
    simp [Carries, he]
  | pollout i len res =>
    obtain ⟨e, he, hstep⟩ := Option.bind_eq_some_iff.mp hstep
    rw [delivered_pollout_iff hs (List.mem_of_getElem? he) h hstep]
    simp [Carries, he]

theorem delivered_start (sendMsgBuf : Mem) (arr : Nat → PollFd) (p : AdminPipes) :
    Delivered (start sendMsgBuf arr p) :=
  ⟨⟨[], [], rfl, rfl, List.Forall₂.nil⟩, fun _ => rfl, fun _ => rfl⟩

theorem Delivered.stream {s : Sys} (h : Delivered s) (fd : Fd) :
    ∃ rest, s.wire fd ++ ((pending s.log.thr fd).flatten ++ rest) = (forFd s.sent fd).flatten ∧
      (s.pipe = [] → rest = []) := by
  obtain ⟨flight, rs, hsent, hpipe, hrec⟩ := h.queued
  refine ⟨(forFd flight fd).flatten, ?_, fun hempty => ?_⟩
  · rw [hsent, forFd_append, ← h.stored fd, h.written fd]
    simp only [List.flatten_append, List.append_assoc]
  · have hsum := length_flatten_records hrec
    rw [← hpipe, hempty, List.length_nil] at hsum
    cases flight with
    | nil => rfl
    | cons p flight =>
      rw [List.map_cons, List.sum_cons, hdrSize] at hsum
      omega

instance (tmgr : MgrId) (s : Sys) : (a : Act) → Decidable (Carries tmgr s a)
  | .send g dpId auxId ofMsg => inferInstanceAs (Decidable
      (∀ p ∈ (ccOfSendPkt g dpId auxId ofMsg).2, p.tmgr = tmgr →
        p.payload.length + hdrSize ≤ sendMsgBufSize))
  | .poll _ => inferInstanceAs (Decidable True)
  | .pollin i f => inferInstanceAs (Decidable
      (∀ e ∈ s.log.thr.fdList[i]?, takesData s.log.thr e = true →
        (s.pipe.take sendMsgBufSize).length = leNat (s.pipe.take 4) ∧
          ∀ x ∈ dataPipeRead s.pipe f.stack, x.1.fd ∉ s.log.thr.sendMsgHtbl))
  | .pollout i _ res => inferInstanceAs (Decidable
      (∀ e ∈ s.log.thr.fdList[i]?, polloutSet s.log.thr e = true →
        e.polloutFunc ≠ none ∧ ∀ info ∈ s.log.thr.sendMsgHtbl.lookup e.fd,
          onStream e.polloutFunc res info = info.data))

/-- The primary pipe has the `ADD_FD` of socket 5. -/
def finds : Finds := ⟨tcpAddMsg 5, fun _ => 0, 0, 0⟩

def pollinAt (k : Nat) : Act := .poll fun i => ⟨i == k, false⟩

/-- Socket 5 of `Framing.oneChannel` is polled; two packets are sent to it, read and written. -/
def sendsTwice : List Act :=
  let g := oneChannel.getD (Core.Api.ccOfLibInit .switch)
  [pollinAt 0, .pollin 0 finds, .send g 7 0 (some [1, 2]), pollinAt 1, .pollin 1 finds,
    .poll (fun _ => ⟨false, true⟩), .pollout 2 2 (some 2), .send g 7 0 (some [3]), pollinAt 1,
    .pollin 1 finds, .poll (fun _ => ⟨false, true⟩), .pollout 2 1 (some 1)]

end OfConnect.PollThr.Transport
