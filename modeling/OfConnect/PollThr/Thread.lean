import OfConnect.Lib.Slots
import OfConnect.Lib.Tables

/-!
# The poll thread

`pollthr_private_t` and the three functions of `cc_pollthr_mgr.c` that change it:
`pollthr_pri_pipe_process_func` (fds come and go), `pollthr_data_pipe_process_func`
(a message is stored until its fd is writable) and `poll_fd_process` (one entry of
`fd_list` is served).

`pollfd_arr` is the memory from its first slot on; slots at `num_pollfds` and above
keep what they last held. A `pollfd_entry_p` is the index of the slot it points to.
The result `none` is a failed `g_assert`: the process aborts.
-/

namespace OfConnect.PollThr.Thread

open OfConnect.Lib.Slots OfConnect.Lib.Tables

/-- A file descriptor: C `int`. -/
abbrev Fd := Int32

inductive FdType where
  | pipe
  | socket
  deriving DecidableEq, Repr

inductive FdAction where
  | addFd
  | deleteFd
  deriving DecidableEq, Repr

/-- The two bits of `events` and `revents` that the code tests or sets. -/
structure PollEvents where
  pollin : Bool
  pollout : Bool
  deriving DecidableEq, Repr

/-- `struct pollfd`. -/
structure PollFd where
  fd : Fd
  events : PollEvents
  revents : PollEvents
  deriving DecidableEq, Repr

/-- The functions that are registered as `fd_process_func`, in the library and, by
number, in an application that drives a manager of its own. -/
inductive FdProcessFunc where
  | priPipe
  | dataPipe
  | listenfdPollin
  | tcpfdPollin
  | tcpfdPollout
  | udpfdPollin
  | udpfdPollout
  | application (n : Nat)
  deriving DecidableEq, Repr

/-- `adpoll_fd_info_t`. -/
structure FdInfo where
  fd : Fd
  fdType : FdType
  pollinFunc : Option FdProcessFunc
  polloutFunc : Option FdProcessFunc
  pollfdEntry : Nat
  deriving DecidableEq, Repr

/-- `adpoll_thr_msg_t`, the message on the primary pipe. -/
structure ThrMsg where
  fd : Fd
  fdType : FdType
  fdAction : FdAction
  pollEvents : PollEvents
  pollinFunc : Option FdProcessFunc
  polloutFunc : Option FdProcessFunc
  deriving DecidableEq, Repr

/-- `adpoll_send_msg_htbl_info_t`. The code fills in `data_size` and `data` only:
`dp_id` and `aux_id` are what the allocated block held. -/
structure SendMsgInfo where
  dpId : UInt64
  auxId : UInt8
  data : List UInt8
  deriving DecidableEq, Repr

/-- `pollthr_private_t`. -/
structure PollthrPrivate where
  numPollfds : Nat
  pollfdArr : Nat → PollFd
  fdList : List FdInfo
  sendMsgHtbl : Table Fd SendMsgInfo

/-- The fds of `fd_list`, in list order. -/
def PollthrPrivate.fds (t : PollthrPrivate) : List Fd := t.fdList.map FdInfo.fd

/-- The fds of the live part of `pollfd_arr`. -/
def PollthrPrivate.polled (t : PollthrPrivate) : List Fd :=
  (live t.pollfdArr t.numPollfds).map PollFd.fd

/-- `adp_thr_mgr_poll_thread_func` before its loop: the primary pipe is the only entry. -/
def pollThreadInit (arr : Nat → PollFd) (priPipe : Fd) : PollthrPrivate where
  numPollfds := 1
  pollfdArr := Function.update arr 0 ⟨priPipe, ⟨true, false⟩, (arr 0).revents⟩
  fdList := [⟨priPipe, .pipe, some .priPipe, none, 0⟩]
  sendMsgHtbl := ∅

/-- The `ADD_FD` branch of `pollthr_pri_pipe_process_func`. The first dead slot gets
the fd and its events without `POLLOUT`; its `revents` are left as they are. -/
def addFd (t : PollthrPrivate) (msg : ThrMsg) : Option PollthrPrivate :=
  if msg.fd ∈ t.fds then none
  else
    let k := t.numPollfds
    let slot : PollFd :=
      ⟨msg.fd, { msg.pollEvents with pollout := false }, (t.pollfdArr k).revents⟩
    some { t with
      numPollfds := k + 1
      pollfdArr := Function.update t.pollfdArr k slot
      fdList := t.fdList ++ [⟨msg.fd, msg.fdType, msg.pollinFunc, msg.polloutFunc, k⟩] }

/-- The `DELETE_FD` branch of `pollthr_pri_pipe_process_func`. The array is compacted;
the list loses the first entry with the fd and the others keep their `pollfd_entry_p`. -/
def deleteFd (t : PollthrPrivate) (msg : ThrMsg) : PollthrPrivate :=
  if msg.fd = (t.pollfdArr 0).fd ∨ msg.fd = (t.pollfdArr 1).fd then
    { t with numPollfds := 0 }  -- self destruct
  else
    match findFrom (fun p => p.fd == msg.fd) t.pollfdArr 1 t.numPollfds with
    | none => t
    | some delIndex =>
      { t with
        pollfdArr := shiftDown t.pollfdArr delIndex t.numPollfds
        numPollfds := t.numPollfds - 1
        fdList := t.fdList.eraseP fun e => e.fd == msg.fd }

/-- `pollthr_pri_pipe_process_func` on the message it has read. -/
def pollthrPriPipeProcessFunc (t : PollthrPrivate) (msg : ThrMsg) : Option PollthrPrivate :=
  match msg.fdAction with
  | .addFd => addFd t msg
  | .deleteFd => some (deleteFd t msg)

/-- No assertion fails where an added fd is new to the thread. -/
theorem handled_of_unpolled {t : PollthrPrivate} {msg : ThrMsg}
    (h : msg.fdAction = .addFd → msg.fd ∉ t.fds) :
    ∃ t', pollthrPriPipeProcessFunc t msg = some t' := by
  unfold pollthrPriPipeProcessFunc
  cases hact : msg.fdAction with
  | addFd =>
    simp only [addFd, if_neg (h hact)]
    exact ⟨_, rfl⟩
  | deleteFd => exact ⟨_, rfl⟩

/-- The read ends of the two administrative pipes of a thread. -/
structure AdminPipes where
  priRd : Fd
  dataRd : Fd
  distinct : dataRd ≠ priRd

/-- The message by which `adp_thr_mgr_new` adds the data pipe. -/
def dataPipeMsg (dataRd : Fd) : ThrMsg :=
  ⟨dataRd, .pipe, .addFd, ⟨true, false⟩, some .dataPipe, none⟩

/-- A thread as `adp_thr_mgr_new` leaves it, with both administrative pipes polled. -/
def newThread (arr : Nat → PollFd) (p : AdminPipes) : PollthrPrivate where
  numPollfds := 2
  pollfdArr := Function.update (pollThreadInit arr p.priRd).pollfdArr 1
    ⟨p.dataRd, ⟨true, false⟩, (arr 1).revents⟩
  fdList := [⟨p.priRd, .pipe, some .priPipe, none, 0⟩, ⟨p.dataRd, .pipe, some .dataPipe, none, 1⟩]
  sendMsgHtbl := ∅

theorem newThread_eq (arr : Nat → PollFd) (p : AdminPipes) :
    pollthrPriPipeProcessFunc (pollThreadInit arr p.priRd) (dataPipeMsg p.dataRd) =
      some (newThread arr p) := by
  have hfresh : p.dataRd ∉ (pollThreadInit arr p.priRd).fds := by
    simp [PollthrPrivate.fds, pollThreadInit, p.distinct]
  show addFd _ (dataPipeMsg p.dataRd) = _
  unfold addFd
  rw [if_neg (by exact hfresh)]
  rfl

/-- The `ADD_FD` message for a connected TCP socket. -/
def tcpAddMsg (fd : Fd) : ThrMsg :=
  ⟨fd, .socket, .addFd, ⟨true, true⟩, some .tcpfdPollin, some .tcpfdPollout⟩

/-- The `DELETE_FD` message of `tcp_close` and `udp_close`; the thread reads none of the
fields they leave unset. -/
def socketDeleteMsg (fd : Fd) : ThrMsg :=
  ⟨fd, .socket, .deleteFd, ⟨false, false⟩, none, none⟩

/-- One message on the primary pipe of a running thread. `DELETE_FD` of an
administrative pipe is how a thread is stopped and is not a step here. -/
def priPipeStep (p : AdminPipes) (t : PollthrPrivate) (msg : ThrMsg) : Option PollthrPrivate :=
  if msg.fdAction = .deleteFd ∧ (msg.fd = p.priRd ∨ msg.fd = p.dataRd) then none
  else pollthrPriPipeProcessFunc t msg

/-- Set or clear `POLLOUT` in the `events` of a slot. -/
def setPollout (arr : Nat → PollFd) (k : Nat) (b : Bool) : Nat → PollFd :=
  Function.update arr k { arr k with events := { (arr k).events with pollout := b } }

/-- `pollthr_data_pipe_process_func` on the message it has read: the message replaces
whatever is stored for its fd, then `POLLOUT` is requested through the first entry of
`fd_list` with that fd. -/
def pollthrDataPipeProcessFunc (t : PollthrPrivate) (fd : Fd) (info : SendMsgInfo) :
    Option PollthrPrivate :=
  match t.fdList.find? fun e => e.fd == fd with
  | none => none  -- g_assert(rdfd_info_list != NULL)
  | some rdfdInfo =>
    some { t with
      sendMsgHtbl := t.sendMsgHtbl.insert fd info
      pollfdArr := setPollout t.pollfdArr rdfdInfo.pollfdEntry true }

/-- What `read` yields on the two administrative pipes: one message each. -/
structure PipeReads where
  pri : ThrMsg
  dataFd : Fd
  dataInfo : SendMsgInfo
  deriving DecidableEq, Repr

/-- The slot an entry points to reports `POLLIN`, and `POLLIN` was asked for. -/
def pollinSet (t : PollthrPrivate) (e : FdInfo) : Bool :=
  (t.pollfdArr e.pollfdEntry).revents.pollin && (t.pollfdArr e.pollfdEntry).events.pollin

/-- The same test for `POLLOUT`. -/
def polloutSet (t : PollthrPrivate) (e : FdInfo) : Bool :=
  (t.pollfdArr e.pollfdEntry).revents.pollout && (t.pollfdArr e.pollfdEntry).events.pollout

/-- First half of `poll_fd_process`. The callbacks of sockets change nothing here. -/
def pollinProcess (t : PollthrPrivate) (e : FdInfo) (r : PipeReads) : Option PollthrPrivate :=
  if pollinSet t e then
    match e.pollinFunc with
    | some .priPipe => pollthrPriPipeProcessFunc t r.pri
    | some .dataPipe => pollthrDataPipeProcessFunc t r.dataFd r.dataInfo
    | _ => some t
  else some t

/-- Second half of `poll_fd_process`, with the message that `pollout_func` was called
with, if it was called. The message leaves the table whether or not there is a
`pollout_func`, and the flag goes with it. -/
def polloutProcess (t : PollthrPrivate) (e : FdInfo) :
    Option (PollthrPrivate × Option SendMsgInfo) :=
  if polloutSet t e then
    let sendMsgKeyFd := (t.pollfdArr e.pollfdEntry).fd
    match t.sendMsgHtbl.lookup sendMsgKeyFd with
    | none => none  -- g_assert(send_msg_info != NULL)
    | some info =>
      let htbl := t.sendMsgHtbl.erase sendMsgKeyFd
      let arr :=
        if sendMsgKeyFd ∈ htbl then t.pollfdArr else setPollout t.pollfdArr e.pollfdEntry false
      some ({ t with sendMsgHtbl := htbl, pollfdArr := arr }, e.polloutFunc.map fun _ => info)
  else some (t, none)

/-- `poll_fd_process` on one entry of `fd_list`. -/
def pollFdProcess (t : PollthrPrivate) (e : FdInfo) (r : PipeReads) :
    Option (PollthrPrivate × Option SendMsgInfo) :=
  (pollinProcess t e r).bind fun t => polloutProcess t e

/-- `poll` stores what the kernel reports in the live slots. -/
def poll (t : PollthrPrivate) (rev : Nat → PollEvents) : PollthrPrivate :=
  { t with pollfdArr := fun k =>
      if k < t.numPollfds then { t.pollfdArr k with revents := rev k } else t.pollfdArr k }

/-! ## What each operation does to the two representations of the polled set -/

@[simp] theorem length_polled (t : PollthrPrivate) : t.polled.length = t.numPollfds := by
  simp [PollthrPrivate.polled]

theorem polled_eq_live (t : PollthrPrivate) :
    t.polled = live (fun i => (t.pollfdArr i).fd) t.numPollfds :=
  map_live _ _ _

theorem addFd_eq_some {t t' : PollthrPrivate} {msg : ThrMsg} (h : addFd t msg = some t') :
    msg.fd ∉ t.fds ∧ t'.numPollfds = t.numPollfds + 1 ∧
    t'.pollfdArr = Function.update t.pollfdArr t.numPollfds
      ⟨msg.fd, { msg.pollEvents with pollout := false }, (t.pollfdArr t.numPollfds).revents⟩ ∧
    t'.fdList = t.fdList ++
      [⟨msg.fd, msg.fdType, msg.pollinFunc, msg.polloutFunc, t.numPollfds⟩] ∧
    t'.sendMsgHtbl = t.sendMsgHtbl := by
  unfold addFd at h
  split at h
  · cases h
  · rename_i hfresh
    obtain rfl := Option.some.inj h
    exact ⟨hfresh, rfl, rfl, rfl, rfl⟩

theorem fds_addFd {t t' : PollthrPrivate} {msg : ThrMsg} (h : addFd t msg = some t') :
    t'.fds = t.fds ++ [msg.fd] := by
  obtain ⟨-, -, -, hl, -⟩ := addFd_eq_some h
  simp [PollthrPrivate.fds, hl]

theorem polled_addFd {t t' : PollthrPrivate} {msg : ThrMsg} (h : addFd t msg = some t') :
    t'.polled = t.polled ++ [msg.fd] := by
  obtain ⟨-, hn, ha, -, -⟩ := addFd_eq_some h
  simp only [PollthrPrivate.polled, hn, ha, live_update, List.map_append, List.map_cons,
    List.map_nil]

/-- A message that names neither administrative pipe. -/
def OffPipes (t : PollthrPrivate) (msg : ThrMsg) : Prop :=
  msg.fd ≠ (t.pollfdArr 0).fd ∧ msg.fd ≠ (t.pollfdArr 1).fd

/-- Off the administrative pipes `DELETE_FD` either finds no slot and changes nothing,
or closes the gap at the slot it found. -/
theorem deleteFd_cases {t : PollthrPrivate} {msg : ThrMsg} (hoff : OffPipes t msg) :
    (msg.fd ∉ t.polled ∧ deleteFd t msg = t) ∨
    ∃ d, 1 ≤ d ∧ d < t.numPollfds ∧ (t.pollfdArr d).fd = msg.fd ∧
      deleteFd t msg = { t with
        pollfdArr := shiftDown t.pollfdArr d t.numPollfds
        numPollfds := t.numPollfds - 1
        fdList := t.fdList.eraseP fun e => e.fd == msg.fd } := by
  have hself : ¬(msg.fd = (t.pollfdArr 0).fd ∨ msg.fd = (t.pollfdArr 1).fd) := by
    rintro (h | h)
    · exact hoff.1 h
    · exact hoff.2 h
  unfold deleteFd
  rw [if_neg hself]
  cases hf : findFrom (fun p => p.fd == msg.fd) t.pollfdArr 1 t.numPollfds with
  | none =>
    refine Or.inl ⟨?_, rfl⟩
    rw [polled_eq_live, mem_live]
    rintro ⟨i, hi, he⟩
    by_cases h0 : i = 0
    · subst h0
      exact hoff.1 he.symm
    · have hp := findFrom_none hf i (by omega) hi
      simp [he] at hp
  | some d =>
    obtain ⟨h1, hd, hp⟩ := findFrom_some hf
    exact Or.inr ⟨d, h1, hd, by simpa using hp, rfl⟩

end OfConnect.PollThr.Thread
