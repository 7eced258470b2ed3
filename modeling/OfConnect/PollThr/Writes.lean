import OfConnect.PollThr.Pending

/-!
# Writing a pending message on a TCP socket

When a socket is writable, `poll_fd_process` calls its `pollout_func`, which calls `send` once.
`send` may fail or take less than it is given, and neither comes back to `poll_fd_process`, since
a `pollout_func` returns nothing: the message leaves the table and the request for `POLLOUT` goes
with it. So a message is written in full exactly if the first `send` takes all of it.
-/

namespace OfConnect.PollThr.Writes

open OfConnect.Lib.Tables OfConnect.Lib.Run OfConnect.PollThr.Thread
open OfConnect.PollThr.Conservation (poll_fd polloutProcess_found)
open OfConnect.PollThr.Rounds OfConnect.PollThr.Pending

/-- What `send` does with `len` bytes: it fails, `EAGAIN` included, or it takes a number of them. -/
abbrev SendResult (len : Nat) := Option (Fin (len + 1))

/-- The number of bytes that `send` has put on the stream. -/
def SendResult.taken {len : Nat} (res : SendResult len) : Nat := (res.map Fin.val).getD 0

/-- `tcp_write`: what it returns, and the bytes on the stream. -/
def tcpWrite {len : Nat} (res : SendResult len) (buf : List UInt8) : Int × List UInt8 :=
  match res with
  | none => (-1, [])
  | some n => (n.val, buf.take n.val)

/-- `process_tcpfd_pollout_func`, by the bytes it puts on the stream. What `tcp_write` returns
decides what is logged. -/
def processTcpfdPolloutFunc {len : Nat} (res : SendResult len) (sendMsg : SendMsgInfo) :
    List UInt8 :=
  (tcpWrite res sendMsg.data).2

/-- A thread, with the bytes written on the socket of one entry for one message. -/
structure Sending where
  thr : PollthrPrivate
  written : List UInt8

/-- One `POLLOUT` event of the socket, and what `send` does if it is called. -/
def step (e : FdInfo) {len : Nat} (s : Sending) (res : SendResult len) : Option Sending :=
  (polloutProcess (poll s.thr fun _ => ⟨false, true⟩) e).map fun q =>
    ⟨q.1, s.written ++ (q.2.map (processTcpfdPolloutFunc res)).getD []⟩

/-- What was written is a prefix of the payload, and the message is in the table and `POLLOUT`
requested until it was all written. -/
def WrittenInFull (e : FdInfo) (info : SendMsgInfo) (s : Sending) : Prop :=
  s.written <+: info.data ∧
    (e.fd ∉ s.thr.sendMsgHtbl ∨ (s.thr.pollfdArr e.pollfdEntry).events.pollout = false →
      s.written = info.data)

/-! ## A message that waits and one that is gone -/

/-- A message waits for the TCP socket of an entry to become writable. -/
structure Waiting (t : PollthrPrivate) (e : FdInfo) (info : SendMsgInfo) : Prop where
  live : e.pollfdEntry < t.numPollfds
  own : (t.pollfdArr e.pollfdEntry).fd = e.fd
  requested : (t.pollfdArr e.pollfdEntry).events.pollout = true
  pending : t.sendMsgHtbl.lookup e.fd = some info
  func : e.polloutFunc = some .tcpfdPollout

theorem waiting_of_agrees {s : Loop} (h : Placed s) (ha : Agrees s.thr)
    (hnum : s.thr.numPollfds ≠ 0) {e : FdInfo} (he : e ∈ s.thr.fdList) {info : SendMsgInfo}
    (hl : s.thr.sendMsgHtbl.lookup e.fd = some info) (hfunc : e.polloutFunc = some .tcpfdPollout) :
    Waiting s.thr e info := by
  obtain ⟨hlt, hfd⟩ := h.slots.of_mem he
  rw [← h.slots.count.resolve_right hnum] at hlt
  refine ⟨hlt, hfd, (ha.flag e he).mpr ?_, hl, hfunc⟩
  rw [← AList.lookup_isSome, hl]
  rfl

/-- In the runs in which requests and messages agree, every message that is stored for a TCP socket
waits for it, as long as the thread polls. -/
theorem stored_messages_wait (arr : Nat → PollFd) (priPipe : Fd) (acts : List Act)
    (h : Guarded Rounds.step (fun s a => ClosesNoGap s a ∧ DeletesNoPending s a)
      (start arr priPipe) acts) :
    Always Rounds.step (fun s => s.thr.numPollfds ≠ 0 → ∀ e ∈ s.thr.fdList, ∀ info,
      s.thr.sendMsgHtbl.lookup e.fd = some info → e.polloutFunc = some .tcpfdPollout →
        Waiting s.thr e info) (start arr priPipe) acts :=
  (agrees_of_deletes_no_pending arr priPipe acts h).mono
    fun _ hinv hnum _ he _ hl hfunc => waiting_of_agrees hinv.1 hinv.2 hnum he hl hfunc

/-- The message is out of the table, and `POLLOUT` is not requested. -/
structure Gone (t : PollthrPrivate) (e : FdInfo) : Prop where
  taken : e.fd ∉ t.sendMsgHtbl
  cleared : (t.pollfdArr e.pollfdEntry).events.pollout = false

theorem writtenInFull_waiting {t : PollthrPrivate} {e : FdInfo} {info : SendMsgInfo}
    (h : Waiting t e info) : WrittenInFull e info ⟨t, []⟩ := by
  refine ⟨List.nil_prefix, ?_⟩
  rintro (hgone | hcleared)
  · rw [← AList.lookup_eq_none, h.pending] at hgone
    cases hgone
  · rw [h.requested] at hcleared
    cases hcleared

theorem writtenInFull_gone_iff {s : Sending} {e : FdInfo} {info : SendMsgInfo}
    (h : Gone s.thr e) : WrittenInFull e info s ↔ s.written = info.data := by
  constructor
  · rintro ⟨-, hfull⟩
    exact hfull (.inl h.taken)
  · intro hfull
    exact ⟨by rw [hfull], fun _ => hfull⟩

/-! ## Events -/

theorem processTcpfdPolloutFunc_eq {len : Nat} (res : SendResult len) (info : SendMsgInfo) :
    processTcpfdPolloutFunc res info = info.data.take res.taken := by
  cases res with
  | none => rfl
  | some n => rfl

/-- The first event takes the message out, whatever `send` has done with it. -/
theorem step_waiting {t : PollthrPrivate} {e : FdInfo} {info : SendMsgInfo} {len : Nat}
    (h : Waiting t e info) (res : SendResult len) :
    ∃ t', step e ⟨t, []⟩ res = some ⟨t', info.data.take res.taken⟩ ∧ Gone t' e := by
  have hset : polloutSet (poll t fun _ => ⟨false, true⟩) e = true := by
    rw [polloutSet, poll_events, h.requested]
    simp [poll, h.live]
  have hown : ((poll t fun _ => ⟨false, true⟩).pollfdArr e.pollfdEntry).fd = e.fd := by
    rw [poll_fd, h.own]
  have hl : (poll t fun _ => ⟨false, true⟩).sendMsgHtbl.lookup
      ((poll t fun _ => ⟨false, true⟩).pollfdArr e.pollfdEntry).fd = some info := by
    rw [hown]
    exact h.pending
  refine ⟨{ poll t (fun _ => ⟨false, true⟩) with
    sendMsgHtbl := t.sendMsgHtbl.erase e.fd
    pollfdArr := setPollout (poll t fun _ => ⟨false, true⟩).pollfdArr e.pollfdEntry false },
    ?_, ?_, ?_⟩
  · rw [step, polloutProcess_found hset hl, h.func]
    simp only [hown, Option.map_some, Option.getD_some, List.nil_append, processTcpfdPolloutFunc_eq]
    rfl
  · simp
  · rw [setPollout_pollout, if_pos rfl]

/-- Later events do nothing. -/
theorem step_gone {s : Sending} {e : FdInfo} {len : Nat} (h : Gone s.thr e)
    (res : SendResult len) :
    ∃ t', step e s res = some ⟨t', s.written⟩ ∧ Gone t' e := by
  have hcleared : ((poll s.thr fun _ => ⟨false, true⟩).pollfdArr e.pollfdEntry).events.pollout =
      false := by
    rw [poll_events, h.cleared]
  have hset : polloutSet (poll s.thr fun _ => ⟨false, true⟩) e = false := by
    rw [polloutSet, hcleared, Bool.and_false]
  refine ⟨poll s.thr fun _ => ⟨false, true⟩, ?_, h.taken, hcleared⟩
  simp [step, polloutProcess, hset]

/-- What was written when the message went is all that is ever written of it. -/
theorem always_gone_iff {s : Sending} {e : FdInfo} {info : SendMsgInfo} {len : Nat}
    (h : Gone s.thr e) (results : List (SendResult len)) :
    Always (step e) (WrittenInFull e info) s results ↔ s.written = info.data := by
  constructor
  · intro hall
    exact (writtenInFull_gone_iff h).mp hall.head
  · intro hfull
    have hall : Always (step e) (fun s => Gone s.thr e ∧ s.written = info.data) s results := by
      refine always_of_step (fun s res s' hs hstep => ?_) ⟨h, hfull⟩ results
      obtain ⟨t', ht', hgone⟩ := step_gone hs.1 res
      obtain rfl := Option.some.inj (ht'.symm.trans hstep)
      exact ⟨hgone, hs.2⟩
    exact hall.mono fun s hs => (writtenInFull_gone_iff hs.1).mpr hs.2

theorem take_taken_eq_iff {data : List UInt8} (res : SendResult data.length) :
    data.take res.taken = data ↔ res.taken = data.length := by
  have hle : res.taken ≤ data.length := by
    cases res with
    | none => exact Nat.zero_le _
    | some n => exact Nat.le_of_lt_succ n.isLt
  rw [List.take_eq_self_iff]
  omega

/-- A message is in the table until it was written, over any number of `POLLOUT` events, exactly
if the first `send` takes all of it. -/
theorem written_in_full_iff_first_send {t : PollthrPrivate} {e : FdInfo} {info : SendMsgInfo}
    (h : Waiting t e info) (results : List (SendResult info.data.length)) :
    Always (step e) (WrittenInFull e info) ⟨t, []⟩ results ↔
      ∀ res ∈ results.head?, res.taken = info.data.length := by
  cases results with
  | nil =>
    rw [always_nil]
    exact iff_of_true (writtenInFull_waiting h) nofun
  | cons res results =>
    obtain ⟨t', hstep, hgone⟩ := step_waiting h res
    calc Always (step e) (WrittenInFull e info) ⟨t, []⟩ (res :: results)
        ↔ Always (step e) (WrittenInFull e info) ⟨t', info.data.take res.taken⟩ results := by
          rw [always_cons, hstep, and_iff_right (writtenInFull_waiting h)]
          constructor
          · intro hall
            exact hall _ rfl
          · intro hall s' hs'
            obtain rfl := Option.some.inj hs'
            exact hall
      _ ↔ info.data.take res.taken = info.data := always_gone_iff hgone results
      _ ↔ res.taken = info.data.length := take_taken_eq_iff res
      _ ↔ ∀ res' ∈ (res :: results).head?, res'.taken = info.data.length := by
          simp

theorem pipes_apart : (5 : Fd) ≠ 3 := by decide

/-- A new thread that was given the TCP socket 10, and then a message of two bytes for it. -/
def queued : PollthrPrivate :=
  let t := newThread zeroed ⟨3, 5, pipes_apart⟩
  ((addFd t (tcpAddMsg 10)).bind fun t =>
    pollthrDataPipeProcessFunc t 10 ⟨0, 0, [1, 2]⟩).getD t

def queuedEntry : FdInfo := ⟨10, .socket, some .tcpfdPollin, some .tcpfdPollout, 2⟩

theorem waiting_queued : Waiting queued queuedEntry ⟨0, 0, [1, 2]⟩ :=
  ⟨by decide, by decide, by decide, by decide, rfl⟩

/-- `send` takes both bytes. -/
theorem written_in_full_two_bytes :
    Always (step queuedEntry) (WrittenInFull queuedEntry ⟨0, 0, [1, 2]⟩) ⟨queued, []⟩
      [some (2 : Fin 3)] :=
  (written_in_full_iff_first_send waiting_queued _).mpr (by decide)

instance (e : FdInfo) (info : SendMsgInfo) (s : Sending) : Decidable (WrittenInFull e info s) :=
  inferInstanceAs (Decidable (_ ∧ _))

/-- `send` takes one byte of two: the message is gone, and so is its second byte. -/
theorem half_written_message_gone :
    ¬Always (step queuedEntry) (WrittenInFull queuedEntry ⟨0, 0, [1, 2]⟩) ⟨queued, []⟩
      [some (1 : Fin 3), some (1 : Fin 3)] := by
  decide +kernel

end OfConnect.PollThr.Writes
