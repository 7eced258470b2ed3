import OfConnect.PollThr.Manager
import OfConnect.Pool.Descriptors

/-!
# The calls and the threads they drive

`Core.State` knows of a manager its counter and the sockets its thread polls. Behind that stands
the manager of `PollThr.Manager` with its pipes, and a thread with `fd_list` and `pollfd_arr` that
learns of a socket by a message on its primary pipe. Here the calls of the library are run
together with these threads: every call is taken with the messages it writes, and each message is
handled by the thread it is written to. `threads_follow` says that the threads then poll what the
tables say, in every state of every run.
-/

namespace OfConnect.Pool.Threads

open OfConnect.PollThr
open OfConnect.Lib.Tables OfConnect.Lib.Run OfConnect.PollThr.Thread OfConnect.PollThr.Ownership
open OfConnect.Core.State OfConnect.Core.Effects OfConnect.Pool.Moves OfConnect.Pool.Traced
open OfConnect.Pool.Descriptors (ClosesSockets Threaded)
open OfConnect.PollThr.Manager (ofType ends)

/-! ## One thread -/

/-- `MAX_PER_THREAD_PIPES`. -/
def maxPerThreadPipes : UInt32 := 0

/-- `adp_thr_mgr_add_del_fd` for a socket. -/
def send (x : Manager.Sys) (msg : ThrMsg) : Option (Int × Manager.Sys) :=
  (Manager.adpThrMgrAddDelFd x.mgr x.thr msg (0, 0)).map fun a =>
    (a.1, { x with mgr := a.2.1, thr := a.2.2 })

/-- The manager and the thread behind a manager of `Core.State`: the counters are the same, and
the thread polls the two administrative pipes and then the sockets. -/
structure Stands (pri data : Fd × Fd) (m : ThreadMgr) (x : Manager.Sys) : Prop where
  distinct : data.1 ≠ pri.1
  inv : Manager.Inv maxPerThreadRwsockets maxPerThreadPipes pri data distinct x
  num_sockets : x.mgr.numSockets = m.numSockets
  max_sockets : x.mgr.maxSockets = m.maxSockets
  pipes : x.pipes = [pri, data]
  fds : x.thr.fds = pri.1 :: data.1 :: m.fds
  sockets : (ofType .socket x.thr).map FdInfo.fd = m.fds

section

variable {pri data : Fd × Fd} {m : ThreadMgr} {x : Manager.Sys} {msg : ThrMsg}

theorem Stands.not_polled (h : Stands pri data m x) (hpipe : msg.fd ∉ ends x.pipes)
    (hnew : msg.fd ∉ m.fds) : msg.fd ∉ x.thr.fds := by
  rw [h.pipes] at hpipe
  rw [h.fds]
  intro hmem
  rcases List.mem_cons.mp hmem with hpri | hmem
  · exact hpipe (Manager.mem_ends.mpr ⟨pri, List.mem_cons_self, .inl hpri⟩)
  · rcases List.mem_cons.mp hmem with hdata | hmem
    · exact hpipe (Manager.mem_ends.mpr ⟨data, List.mem_cons_of_mem _ List.mem_cons_self, .inl hdata⟩)
    · exact hnew hmem

/-- What the manager does with a message, as a step of `PollThr.Manager`. -/
theorem step_eq_send (hty : msg.fdType = .socket) (hok : Manager.Allowed x ⟨msg, (0, 0)⟩) :
    Manager.step x ⟨msg, (0, 0)⟩ = (send x msg).map Prod.snd := by
  unfold Manager.step send
  rw [if_pos hok, Option.map_map]
  congr 1
  funext a
  simp only [Manager.pipesAfter, hty, Function.comp_apply]

theorem Stands.inv_send (h : Stands pri data m x) (hty : msg.fdType = .socket)
    (hok : Manager.Allowed x ⟨msg, (0, 0)⟩) {r : Int × Manager.Sys} (hs : send x msg = some r) :
    Manager.Inv maxPerThreadRwsockets maxPerThreadPipes pri data h.distinct r.2 := by
  obtain ⟨x', hx, hinv⟩ := Manager.inv_step (by decide) (by decide) h.inv hok
  rw [step_eq_send hty hok, hs] at hx
  obtain rfl := Option.some.inj hx
  exact hinv

/-- A socket that is new to the thread is added on both sides, or refused on both sides, with the
same answer. -/
theorem Stands.add (h : Stands pri data m x) (hty : msg.fdType = .socket)
    (hact : msg.fdAction = .addFd) (hpipe : msg.fd ∉ ends x.pipes) {r : Int × ThreadMgr}
    (hr : adpThrMgrAddDelFd m .addFd msg.fd = some r) :
    ∃ x', send x msg = some (r.1, x') ∧ Stands pri data r.2 x' := by
  simp only [adpThrMgrAddDelFd] at hr
  split at hr
  · rename_i hfull
    obtain rfl := Option.some.inj hr
    refine ⟨x, ?_, h⟩
    unfold send
    simp only [Manager.adpThrMgrAddDelFd, hty, hact]
    rw [if_pos (by rw [h.num_sockets, h.max_sockets]; exact hfull)]
    rfl
  · rename_i hroom
    split at hr
    · cases hr
    · rename_i hnew
      obtain rfl := Option.some.inj hr
      have hfresh := h.not_polled hpipe hnew
      obtain ⟨t', e, ht, -, hfd, hety, hlist⟩ := Manager.process_add h.inv.synced hact hfresh
      have hsend : send x msg = some (msg.fd.toInt, { x with
          mgr := { x.mgr with numSockets := x.mgr.numSockets + 1 }, thr := t' }) := by
        unfold send
        simp only [Manager.adpThrMgrAddDelFd, hty, hact]
        rw [if_neg (by rw [h.num_sockets, h.max_sockets]; exact hroom), ht]
        rfl
      have hok : Manager.Allowed x ⟨msg, (0, 0)⟩ := by
        unfold Manager.Allowed
        rw [hty, hact]
        exact hfresh
      refine ⟨_, hsend, h.distinct, h.inv_send hty hok hsend, ?_, h.max_sockets, h.pipes, ?_, ?_⟩
      · show x.mgr.numSockets + 1 = m.numSockets + 1
        rw [h.num_sockets]
      · show t'.fdList.map FdInfo.fd = _
        have hfds : x.thr.fdList.map FdInfo.fd = _ := h.fds
        rw [hlist, List.map_append, hfds, List.map_cons, List.map_nil, hfd]
        rfl
      · show (ofType .socket t').map FdInfo.fd = m.fds ++ [msg.fd]
        rw [Manager.ofType_add hlist (hety.trans hty), List.map_append, h.sockets, List.map_cons,
          List.map_nil, hfd]

/-- A socket that the thread polls is dropped on both sides. -/
theorem Stands.delete (h : Stands pri data m x) (hty : msg.fdType = .socket)
    (hact : msg.fdAction = .deleteFd) (hfd : msg.fd ∈ m.fds) :
    ∃ x', send x msg = some (-1, x') ∧
      Stands pri data { m with numSockets := m.numSockets - 1, fds := m.fds.erase msg.fd } x' := by
  have hnd := h.inv.synced.nodup
  rw [h.fds, List.nodup_cons, List.nodup_cons] at hnd
  have hpri : msg.fd ≠ pri.1 := fun heq => hnd.1 (heq ▸ List.mem_cons_of_mem _ hfd)
  have hdata : msg.fd ≠ data.1 := fun heq => hnd.2.1 (heq ▸ hfd)
  have hmem : msg.fd ∈ x.thr.fds := by
    rw [h.fds]
    exact List.mem_cons_of_mem _ (List.mem_cons_of_mem _ hfd)
  obtain ⟨t', ht, -, hlist⟩ := Manager.process_delete h.inv.synced hact hmem hpri hdata
  have hsend : send x msg = some (-1, { x with
      mgr := { x.mgr with numSockets := x.mgr.numSockets - 1 }, thr := t' }) := by
    unfold send
    simp only [Manager.adpThrMgrAddDelFd, hty, hact]
    rw [ht]
    rfl
  have hok : Manager.Allowed x ⟨msg, (0, 0)⟩ := by
    unfold Manager.Allowed
    rw [hty, hact]
    rw [← h.sockets] at hfd
    obtain ⟨e, he, hefd⟩ := List.mem_map.mp hfd
    obtain ⟨hel, hety⟩ := List.mem_filter.mp he
    exact ⟨e, hel, hefd, of_decide_eq_true hety⟩
  have herase : m.fds.erase msg.fd = m.fds.filter fun fd => fd ≠ msg.fd := by
    rw [hnd.2.2.erase_eq_filter]
    refine List.filter_congr fun fd _ => ?_
    by_cases heq : fd = msg.fd
    · simp [heq]
    · simp [heq]
  have hmap : ∀ l : List FdInfo, (l.filter fun e => e.fd ≠ msg.fd).map FdInfo.fd =
      (l.map FdInfo.fd).filter fun fd => fd ≠ msg.fd := by
    intro l
    rw [List.filter_map]
    rfl
  refine ⟨_, hsend, h.distinct, h.inv_send hty hok hsend, ?_, h.max_sockets, h.pipes, ?_, ?_⟩
  · show x.mgr.numSockets - 1 = m.numSockets - 1
    rw [h.num_sockets]
  · show t'.fdList.map FdInfo.fd = pri.1 :: data.1 :: m.fds.erase msg.fd
    have hfds : x.thr.fdList.map FdInfo.fd = _ := h.fds
    rw [hlist, hmap, hfds, herase, List.filter_cons_of_pos (by simpa using Ne.symm hpri),
      List.filter_cons_of_pos (by simpa using Ne.symm hdata)]
  · show (ofType .socket t').map FdInfo.fd = m.fds.erase msg.fd
    rw [Manager.ofType_delete hlist, hmap, h.sockets, herase]

end

/-! ## The messages of a call -/

inductive ThreadId where
  | listen
  | rw (m : MgrId)
  deriving DecidableEq, Repr

/-- What a call asks of the threads: one is created by `adp_thr_mgr_new`, or a message is written
to a primary pipe. -/
inductive Request where
  | create (m : MgrId)
  | send (i : ThreadId) (msg : ThrMsg)

/-- The `ADD_FD` message of `udp_open_clientfd` and `udp_open_serverfd`. -/
def udpAddMsg (fd : Fd) : ThrMsg :=
  ⟨fd, .socket, .addFd, ⟨true, true⟩, some .udpfdPollin, some .udpfdPollout⟩

/-- The `ADD_FD` message of `tcp_open_listenfd`. -/
def listenAddMsg (fd : Fd) : ThrMsg :=
  ⟨fd, .socket, .addFd, ⟨true, false⟩, some .listenfdPollin, none⟩

/-- `cc_find_or_create_rw_pollthr_safe` creates a thread where the pool is full. -/
def createRequests (g : Global) : List Request :=
  if (ccFindOrCreateRwPollthrSafe g).2.nextMgr = g.nextMgr then [] else [.create g.nextMgr]

/-- `cc_add_sockfd_rw_pollthr_safe` passes the message on where the tables have taken the socket. -/
def addRequests (g : Global) (key : DevKey) (msg : ThrMsg) : List Request :=
  createRequests g ++
    if key ∈ g.ofdevHtbl then [.send (.rw (ccFindOrCreateRwPollthrSafe g).1) msg] else []

/-- `close_conn` writes to the thread of the socket, if it has one. -/
def closeRequests (g : Global) (fd : Fd) : List Request :=
  match (g.ofrwHtbl.lookup fd).bind RwInfo.thrMgr with
  | none => []
  | some m => [.send (.rw m) (socketDeleteMsg fd)]

/-- `cc_of_dev_free_lockfree`: the sockets of the device and then its listening socket. -/
def devRequests (g : Global) (key : DevKey) : List Request :=
  match g.ofdevHtbl.lookup key with
  | none => []
  | some dev => dev.ofrwSocketList.flatMap (closeRequests g) ++
      [.send .listen (socketDeleteMsg dev.mainSockfdTcp)]

def requests (g : Global) : Op → List Request
  | .devRegister _ maxOfver _ listenfd =>
    if Core.Api.maxOfverType ≤ maxOfver then []
    else
      match g.ofdevType with
      | .switch => []
      | .controller => if listenfd < 0 then [] else [.send .listen (listenAddMsg listenfd)]
  | .createChannel key _ proto clientfd _ =>
    if clientfd < 0 then []
    else addRequests g key (if proto = .udp then udpAddMsg clientfd else tcpAddMsg clientfd)
  | .accept connfd key _ _ => if connfd < 0 then [] else addRequests g key (tcpAddMsg connfd)
  | .udpServer key serverfd _ => if serverfd < 0 then [] else addRequests g key (udpAddMsg serverfd)
  | .datagram _ _ _ => []
  | .setReal _ _ _ => []
  | .destroyChannel ck _ =>
    match g.ofchannelHtbl.lookup ck with
    | none => []
    | some ofchannInfo => closeRequests g ofchannInfo.rwSockfd
  | .closeConn sockfd _ => closeRequests g sockfd
  | .devFree key _ => devRequests g key
  | .devfreeIter key _ => devRequests g key

/-! ## The calls with the threads -/

/-- What a thread that is created gets: the blocks that are allocated for it, and its pipes. -/
structure NewThread where
  pipesArr : Nat → Fd
  pollfdArr : Nat → PollFd
  pri : Fd × Fd
  data : Fd × Fd

def NewThread.start (n : NewThread) : Option Manager.Sys :=
  Manager.start maxPerThreadRwsockets maxPerThreadPipes n.pipesArr n.pollfdArr n.pri n.data

def perform (n : NewThread) (thr : ThreadId → Manager.Sys) :
    Request → Option (ThreadId → Manager.Sys)
  | .create m => n.start.map fun x => Function.update thr (.rw m) x
  | .send i msg => (send (thr i) msg).map fun r => Function.update thr i r.2

structure World where
  lib : Sys
  thr : ThreadId → Manager.Sys

structure Call where
  op : Op
  new : NewThread

/-- `cc_of_lib_init` creates the listen thread and then the first thread of the pool. -/
def init (devType : DevType) (listen rw : NewThread) : Option World :=
  listen.start.bind fun x => rw.start.map fun y =>
    ⟨Traced.start devType, Function.update (fun _ => x) (.rw 0) y⟩

def threads (g : Global) : List ThreadId := .listen :: (List.range g.nextMgr).map .rw

/-- The descriptor that the kernel gave for the call. -/
def opened : Op → List Fd
  | .devRegister _ _ _ listenfd => [listenfd]
  | .createChannel _ _ _ clientfd _ => [clientfd]
  | .accept connfd _ _ _ => [connfd]
  | .udpServer _ serverfd _ => [serverfd]
  | _ => []

/-- The kernel gives out no descriptor twice: the pipes of a new thread have four ends, and a
socket is not the end of a pipe. -/
def Distinct (w : World) (c : Call) : Prop :=
  (ends [c.new.pri, c.new.data]).Nodup ∧ ∀ fd ∈ opened c.op,
    fd ∉ ends [c.new.pri, c.new.data] ∧ ∀ i ∈ threads w.lib.g, fd ∉ ends (w.thr i).pipes

instance (w : World) (c : Call) : Decidable (Distinct w c) :=
  @instDecidableAnd _ _ inferInstance (List.decidableBAll _ _)

/-- One call: the tables change, and the threads handle its messages one after the other. -/
def step (w : World) (c : Call) : Option World :=
  if Distinct w c then
    (Traced.step w.lib c.op).bind fun lib =>
      (run (perform c.new) w.thr (requests w.lib.g c.op)).map fun thr => ⟨lib, thr⟩
  else none

/-! ## The threads stand behind the managers -/

def mgrAt (g : Global) : ThreadId → ThreadMgr
  | .listen => g.oflistenPollthr
  | .rw m => g.mgrs m

def Follows (g : Global) (thr : ThreadId → Manager.Sys) : Prop :=
  ∀ i ∈ threads g, ∃ pri data, Stands pri data (mgrAt g i) (thr i)

theorem mem_threads {g : Global} {m : MgrId} : .rw m ∈ threads g ↔ m < g.nextMgr := by
  simp [threads]

theorem listen_mem (g : Global) : .listen ∈ threads g := List.mem_cons_self

section

variable {g g' : Global} {thr : ThreadId → Manager.Sys} {n : NewThread}

theorem Follows.same (h : Follows g thr) (hmgrs : g'.mgrs = g.mgrs)
    (hlisten : g'.oflistenPollthr = g.oflistenPollthr) (hnext : g'.nextMgr = g.nextMgr) :
    Follows g' thr := by
  have hthreads : threads g' = threads g := by
    unfold threads
    rw [hnext]
  intro i hi
  rw [hthreads] at hi
  obtain ⟨pri, data, hst⟩ := h i hi
  refine ⟨pri, data, ?_⟩
  cases i with
  | listen =>
    show Stands pri data g'.oflistenPollthr _
    rw [hlisten]
    exact hst
  | rw m =>
    show Stands pri data (g'.mgrs m) _
    rw [hmgrs]
    exact hst

/-- One thread has moved with its manager. -/
theorem Follows.set (h : Follows g thr) {i : ThreadId}
    (hthreads : ∀ j ∈ threads g', j = i ∨ j ∈ threads g)
    (hother : ∀ j, j ≠ i → mgrAt g' j = mgrAt g j) {pri data : Fd × Fd} {x : Manager.Sys}
    (hx : Stands pri data (mgrAt g' i) x) : Follows g' (Function.update thr i x) := by
  intro j hj
  by_cases hji : j = i
  · subst hji
    rw [Function.update_self]
    exact ⟨pri, data, hx⟩
  · rw [Function.update_of_ne hji, hother j hji]
    exact h j ((hthreads j hj).resolve_left hji)

theorem stands_start (hends : (ends [n.pri, n.data]).Nodup) :
    ∃ x, n.start = some x ∧ x.pipes = [n.pri, n.data] ∧
      Stands n.pri n.data (adpThrMgrNew maxPerThreadRwsockets) x := by
  have hd : n.data.1 ≠ n.pri.1 := by
    simp only [Manager.ends_cons, List.nodup_cons, List.mem_cons, not_or] at hends
    exact Ne.symm hends.1.2.1
  have hroom : ¬(maxPerThreadPipes * 2 + 4 : UInt32) ≤ (2 : UInt16).toUInt32 := by decide
  have hpipes : 2 * maxPerThreadPipes.toNat + 4 ≤ 65535 := by decide
  obtain ⟨x, hx, hinv⟩ :=
    Manager.inv_start maxPerThreadRwsockets hpipes n.pipesArr n.pollfdArr hd hends
  have hthr := newThread_eq n.pollfdArr ⟨n.pri.1, n.data.1, hd⟩
  have hx' := hx
  unfold Manager.start Manager.adpThrMgrNew at hx'
  simp only [Manager.adpThrMgrAddDelFd, dataPipeMsg] at hx' hthr
  rw [if_neg hroom, hthr] at hx'
  obtain rfl := Option.some.inj hx'
  exact ⟨_, hx, rfl, hd, hinv, rfl, rfl, rfl, rfl, rfl⟩

/-- A message that one thread has handled. -/
theorem Follows.send_stands (h : Follows g thr) {i : ThreadId} {msg : ThrMsg} {ret : Int}
    {x : Manager.Sys} (hx : send (thr i) msg = some (ret, x)) (hnext : g'.nextMgr = g.nextMgr)
    (hother : ∀ j, j ≠ i → mgrAt g' j = mgrAt g j) {pri data : Fd × Fd}
    (hst : Stands pri data (mgrAt g' i) x) :
    ∃ thr', run (perform n) thr [.send i msg] = some thr' ∧ Follows g' thr' := by
  refine ⟨Function.update thr i x, ?_, h.set (fun j hj => .inr ?_) hother hst⟩
  · rw [run_cons]
    simp only [perform, hx, Option.map_some, Option.bind_some, run_nil]
  · unfold threads at hj ⊢
    rwa [← hnext]

theorem Follows.send_add (h : Follows g thr) {i : ThreadId} (hi : i ∈ threads g) {msg : ThrMsg}
    (hty : msg.fdType = .socket) (hact : msg.fdAction = .addFd)
    (hpipe : msg.fd ∉ ends (thr i).pipes) {r : Int × ThreadMgr}
    (hr : adpThrMgrAddDelFd (mgrAt g i) .addFd msg.fd = some r) (hnext : g'.nextMgr = g.nextMgr)
    (hself : mgrAt g' i = r.2) (hother : ∀ j, j ≠ i → mgrAt g' j = mgrAt g j) :
    ∃ thr', run (perform n) thr [.send i msg] = some thr' ∧ Follows g' thr' := by
  obtain ⟨pri, data, hst⟩ := h i hi
  obtain ⟨x', hx, hst'⟩ := hst.add hty hact hpipe hr
  exact h.send_stands hx hnext hother (hself ▸ hst')

theorem Follows.send_delete (h : Follows g thr) {i : ThreadId} (hi : i ∈ threads g) {fd : Fd}
    (hfd : fd ∈ (mgrAt g i).fds) (hnext : g'.nextMgr = g.nextMgr)
    (hself : mgrAt g' i = { mgrAt g i with
      numSockets := (mgrAt g i).numSockets - 1, fds := (mgrAt g i).fds.erase fd })
    (hother : ∀ j, j ≠ i → mgrAt g' j = mgrAt g j) :
    ∃ thr', run (perform n) thr [.send i (socketDeleteMsg fd)] = some thr' ∧ Follows g' thr' := by
  obtain ⟨pri, data, hst⟩ := h i hi
  obtain ⟨x', hx, hst'⟩ := hst.delete (show (socketDeleteMsg fd).fdType = .socket from rfl) rfl hfd
  exact h.send_stands hx hnext hother (hself ▸ hst')

/-! ### Adding -/

theorem createRequests_of_found {elem : MgrId}
    (h : ccFindOrCreateRwPollthrSafe g = (elem, g)) : createRequests g = [] := by
  unfold createRequests
  rw [h]
  exact if_pos rfl

theorem createRequests_of_created (h : ccFindOrCreateRwPollthrSafe g = ccCreateRwPollthrSafe g) :
    createRequests g = [.create g.nextMgr] := by
  unfold createRequests
  rw [h]
  exact if_neg (Nat.succ_ne_self _)

/-- A thread is there for the manager that is chosen. -/
theorem follows_findOrCreate (hpool : Sorted.Inv g) (h : Follows g thr)
    (hends : (ends [n.pri, n.data]).Nodup) {fd : Fd} (hnew : fd ∉ ends [n.pri, n.data])
    (hold : ∀ i ∈ threads g, fd ∉ ends (thr i).pipes) :
    ∃ thr', run (perform n) thr (createRequests g) = some thr' ∧
      Follows (ccFindOrCreateRwPollthrSafe g).2 thr' ∧
      fd ∉ ends (thr' (.rw (ccFindOrCreateRwPollthrSafe g).1)).pipes := by
  have hlt := (Sorted.findOrCreate_inv hpool rfl).2.1
  rcases findOrCreate_cases g with ⟨elem, rest, -, -, heq⟩ | ⟨-, heq⟩
  · rw [createRequests_of_found heq]
    rw [heq] at hlt ⊢
    exact ⟨thr, rfl, h, hold _ (mem_threads.mpr hlt)⟩
  · rw [createRequests_of_created heq, heq]
    obtain ⟨x, hx, hpipes, hst⟩ := stands_start hends
    refine ⟨Function.update thr (.rw g.nextMgr) x, ?_, ?_, ?_⟩
    · rw [run_cons, perform, hx]
      rfl
    · have hst' : Stands n.pri n.data (mgrAt (ccCreateRwPollthrSafe g).2 (.rw g.nextMgr)) x := by
        show Stands _ _ (Function.update g.mgrs g.nextMgr _ g.nextMgr) x
        rw [Function.update_self]
        exact hst
      refine h.set (fun j hj => ?_) (fun j hj => ?_) hst'
      · cases j with
        | listen => exact .inr (listen_mem g)
        | rw m =>
          have hm : m < g.nextMgr + 1 := mem_threads.mp hj
          rcases Nat.lt_succ_iff_lt_or_eq.mp hm with hm | rfl
          · exact .inr (mem_threads.mpr hm)
          · exact .inl rfl
      · cases j with
        | listen => rfl
        | rw m => exact Function.update_of_ne (fun hm => hj (congrArg ThreadId.rw hm)) _ _
    · show fd ∉ ends (Function.update thr (.rw g.nextMgr) x (.rw g.nextMgr)).pipes
      rw [Function.update_self, hpipes]
      exact hnew

/-- `cc_add_sockfd_rw_pollthr_safe` with a descriptor that is no end of a pipe. -/
theorem follows_add (hpool : Sorted.Inv g) (h : Follows g thr)
    (hends : (ends [n.pri, n.data]).Nodup) {msg : ThrMsg} (hty : msg.fdType = .socket)
    (hact : msg.fdAction = .addFd) (hnew : msg.fd ∉ ends [n.pri, n.data])
    (hold : ∀ i ∈ threads g, msg.fd ∉ ends (thr i).pipes) {key : DevKey} {proto : L4Type}
    {ck : ChannelKey} {block : SockAddr} {r : Ret × Global}
    (hr : ccAddSockfdRwPollthrSafe g msg.fd key proto ck block = some r) :
    ∃ thr', run (perform n) thr (addRequests g key msg) = some thr' ∧ Follows r.2 thr' := by
  obtain ⟨hsame, -⟩ := findOrCreate_spec g
  obtain ⟨thr₁, hrun, hfol, hpipe⟩ := follows_findOrCreate hpool h hends hnew hold
  have hlt := (Sorted.findOrCreate_inv hpool rfl).2.1
  unfold addRequests
  rw [run_append, hrun, Option.bind_some]
  generalize hf : ccFindOrCreateRwPollthrSafe g = f at hsame hfol hpipe hlt
  rcases addSockfd_inversion hf hr with ⟨hdev, rfl⟩ | ⟨dev, t, hdev, ht, rfl⟩
  · rw [hsame.ofdev] at hdev
    rw [if_neg (fun hmem => by rw [AList.lookup_eq_none] at hdev; exact hdev hmem)]
    exact ⟨thr₁, rfl, hfol.same rfl rfl rfl⟩
  · rw [hsame.ofdev] at hdev
    rw [if_pos (mem_iff_lookup.mpr ⟨dev, hdev⟩)]
    refine hfol.send_add (mem_threads.mpr hlt) hty hact hpipe ht rfl ?_ fun j hj => ?_
    · exact Function.update_self _ _ _
    · cases j with
      | listen => rfl
      | rw m => exact Function.update_of_ne (fun hm => hj (congrArg ThreadId.rw hm)) _ _

/-! ### Closing -/

theorem closeRequests_of_entry {fd : Fd} {info : RwInfo} (hl : g.ofrwHtbl.lookup fd = some info) :
    closeRequests g fd = match info.thrMgr with
      | none => []
      | some m => [.send (.rw m) (socketDeleteMsg fd)] := by
  unfold closeRequests
  rw [hl, Option.bind_some]

/-- `cc_del_sockfd_rw_pollthr_lockfree` of a socket that is entered. -/
theorem follows_delSockfd (hpool : Sorted.Inv g) (h : Follows g thr) {fd : Fd} {info : RwInfo}
    (hl : g.ofrwHtbl.lookup fd = some info) {r : Ret × Global}
    (hr : ccDelSockfdRwPollthrLockfree g info.thrMgr .deleteFd fd = some r) :
    ∃ thr', run (perform n) thr (closeRequests g fd) = some thr' ∧ Follows r.2 thr' := by
  have hlisten := delSockfd_listen hr
  obtain ⟨q, hq, hmgrs, hnext, -, -⟩ := delSockfd_moves (fun m => hpool.pooled fd info m hl) hr
  rw [closeRequests_of_entry hl]
  cases hm : info.thrMgr with
  | none =>
    rw [hm] at hq
    obtain rfl := Option.some.inj hq
    exact ⟨thr, rfl, h.same hmgrs hlisten hnext⟩
  | some m =>
    rw [hm] at hq
    obtain ⟨hlt, hfd⟩ := hpool.polled fd info m hl hm
    obtain ⟨hdel, hnext', -, -⟩ := delFromMgr_moves hq
    refine h.send_delete (mem_threads.mpr hlt) hfd (hnext.trans hnext') ?_ fun j hj => ?_
    · show r.2.mgrs m = _
      rw [hmgrs, hdel]
      exact Function.update_self _ _ _
    · cases j with
      | listen => exact hlisten
      | rw k =>
        show r.2.mgrs k = g.mgrs k
        rw [hmgrs, hdel]
        exact Function.update_of_ne (fun hk => hj (congrArg ThreadId.rw hk)) _ _

theorem follows_closeConn {s : Sys} (hinv : Descriptors.Inv s) (h : Follows s.g thr) {fd : Fd}
    {info : RwInfo} (hl : s.g.ofrwHtbl.lookup fd = some info) {closeRet : Int} {r : Ret × Sys}
    (hc : closeConn s info.layer4Proto fd closeRet = some r) :
    ∃ thr', run (perform n) thr (closeRequests s.g fd) = some thr' ∧ Follows r.2.g thr' := by
  obtain ⟨q, hq, rfl⟩ := closeConn_of_entry hl hc
  obtain ⟨d, hd, rfl⟩ := Option.map_eq_some_iff.mp hq
  obtain ⟨thr', hrun, hfol⟩ := follows_delSockfd (n := n) hinv.pool h hl hd
  refine ⟨thr', hrun, ?_⟩
  split
  · exact hfol
  · exact hfol

theorem lookup_of_closed {g g' : Global} {fd : Fd}
    (h : ∀ f, g'.ofrwHtbl.lookup f = if f = fd then none else g.ofrwHtbl.lookup f) (f : Fd)
    (info : RwInfo) (hl : g'.ofrwHtbl.lookup f = some info) : g.ofrwHtbl.lookup f = some info := by
  rw [h] at hl
  split at hl
  · cases hl
  · exact hl

/-- Every socket that the walk over a list closes was entered when it began. -/
theorem entered_of_closeSockets {closeRet : Fd → Int} (l : List Fd) {s s' : Sys}
    (hinv : Descriptors.Inv s) (hthr : ∀ fd ∈ l, Threaded s.g fd)
    (hw : closeSockets closeRet l s = some s') :
    ∀ fd ∈ l, ∃ info, s.g.ofrwHtbl.lookup fd = some info := by
  induction l generalizing s with
  | nil =>
    intro fd hfd
    cases hfd
  | cons fd rest ih =>
    unfold closeSockets at hw
    split at hw
    · cases hw
    · rename_i info hl
      obtain ⟨r, hr, hw⟩ := Option.bind_eq_some_iff.mp hw
      obtain ⟨hinv', -, hlook⟩ :=
        Descriptors.inv_closeConn hinv hl (hthr fd List.mem_cons_self info hl) hr
      have hleft := lookup_of_closed hlook
      intro f hf
      rcases List.mem_cons.mp hf with rfl | hf
      · exact ⟨info, hl⟩
      · have hrest : ∀ f ∈ rest, Threaded r.2.g f :=
          fun f hf i hi => hthr f (List.mem_cons_of_mem _ hf) i (hleft f i hi)
        obtain ⟨i, hi⟩ := ih hinv' hrest hw f hf
        exact ⟨i, hleft f i hi⟩

theorem follows_closeSockets {closeRet : Fd → Int} (l : List Fd) {s s' : Sys}
    (hinv : Descriptors.Inv s) (h : Follows s.g thr) (hthr : ∀ fd ∈ l, Threaded s.g fd)
    (hw : closeSockets closeRet l s = some s') :
    ∃ thr', run (perform n) thr (l.flatMap (closeRequests s.g)) = some thr' ∧ Follows s'.g thr' := by
  induction l generalizing s thr with
  | nil =>
    obtain rfl := Option.some.inj hw
    exact ⟨thr, rfl, h⟩
  | cons fd rest ih =>
    unfold closeSockets at hw
    split at hw
    · cases hw
    · rename_i info hl
      obtain ⟨r, hr, hw⟩ := Option.bind_eq_some_iff.mp hw
      obtain ⟨hinv', -, hlook⟩ :=
        Descriptors.inv_closeConn hinv hl (hthr fd List.mem_cons_self info hl) hr
      obtain ⟨thr₁, hrun₁, hfol₁⟩ := follows_closeConn (n := n) hinv h hl hr
      have hleft := lookup_of_closed hlook
      have hrest : ∀ f ∈ rest, Threaded r.2.g f :=
        fun f hf i hi => hthr f (List.mem_cons_of_mem _ hf) i (hleft f i hi)
      obtain ⟨thr', hrun', hfol'⟩ := ih hinv' hfol₁ hrest hw
      refine ⟨thr', ?_, hfol'⟩
      -- a socket that was closed is not in the rest of the list: the walk would not end
      have hsame : rest.flatMap (closeRequests s.g) = rest.flatMap (closeRequests r.2.g) := by
        refine List.flatMap_congr fun f hf => ?_
        obtain ⟨i, hi⟩ := entered_of_closeSockets rest hinv' hrest hw f hf
        unfold closeRequests
        rw [hi, hleft f i hi]
      rw [List.flatMap_cons, run_append, hrun₁, Option.bind_some, hsame]
      exact hrun'

theorem follows_closeListenfd {s s' : Sys} (h : Follows s.g thr) {fd : Fd}
    (hfd : fd ∈ s.g.oflistenPollthr.fds) (hc : closeListenfd s fd = some s') :
    ∃ thr', run (perform n) thr [.send .listen (socketDeleteMsg fd)] = some thr' ∧
      Follows s'.g thr' := by
  obtain ⟨r, hr, rfl⟩ := Option.map_eq_some_iff.mp hc
  obtain rfl := Option.some.inj hr
  refine h.send_delete (listen_mem s.g) hfd rfl rfl fun j hj => ?_
  cases j with
  | listen => exact absurd rfl hj
  | rw m => rfl

theorem follows_devFreeLockfree {closeRet : Fd → Int} {key : DevKey} {s : Sys} {r : Ret × Sys}
    (hinv : Descriptors.Inv s) (h : Follows s.g thr)
    (hok : ∀ dev, s.g.ofdevHtbl.lookup key = some dev →
      dev.mainSockfdTcp ∈ s.g.oflistenPollthr.fds ∧ ∀ fd ∈ dev.ofrwSocketList, Threaded s.g fd)
    (hr : ccOfDevFreeLockfree s key closeRet = some r) :
    ∃ thr', run (perform n) thr (devRequests s.g key) = some thr' ∧ Follows r.2.g thr' := by
  unfold ccOfDevFreeLockfree at hr
  unfold devRequests
  cases hdev : s.g.ofdevHtbl.lookup key with
  | none =>
    simp only [hdev] at hr
    cases hr
  | some dev =>
    simp only [hdev] at hr ⊢
    obtain ⟨hmain, hthr⟩ := hok dev hdev
    obtain ⟨s₁, hs₁, hr⟩ := Option.bind_eq_some_iff.mp hr
    obtain ⟨s₂, hs₂, rfl⟩ := Option.map_eq_some_iff.mp hr
    obtain ⟨-, hlisten⟩ := Descriptors.inv_closeSockets _ hinv hthr hs₁
    obtain ⟨thr₁, hrun₁, hfol₁⟩ := follows_closeSockets (n := n) _ hinv h hthr hs₁
    obtain ⟨thr', hrun', hfol'⟩ :=
      follows_closeListenfd (n := n) hfol₁ (by rw [hlisten]; exact hmain) hs₂
    refine ⟨thr', ?_, hfol'⟩
    rw [run_append, hrun₁]
    exact hrun'

/-! ### Listening -/

/-- Nothing is sent where no listening socket is opened. -/
theorem requests_of_not_listening {key : DevKey} {ver : Nat} {cb : Callbacks} {fd : Fd}
    (h : Core.Api.maxOfverType ≤ ver ∨ g.ofdevType = .switch ∨ fd < 0) :
    requests g (.devRegister key ver cb fd) = [] := by
  simp only [requests]
  by_cases hver : Core.Api.maxOfverType ≤ ver
  · exact if_pos hver
  · rw [if_neg hver]
    cases hty : g.ofdevType with
    | switch => rfl
    | controller =>
      rw [hty] at h
      exact if_pos ((h.resolve_left hver).resolve_left DevType.noConfusion)

theorem requests_of_listening {key : DevKey} {ver : Nat} {cb : Callbacks} {fd : Fd}
    (hver : ¬Core.Api.maxOfverType ≤ ver) (hty : g.ofdevType = .controller) (hfd : ¬fd < 0) :
    requests g (.devRegister key ver cb fd) = [.send .listen (listenAddMsg fd)] := by
  simp only [requests, if_neg hver, hty, if_neg hfd]

theorem follows_devRegister {s : Sys} (h : Follows s.g thr) {key : DevKey} {ver : Nat}
    {cb : Callbacks} {fd : Fd} (hold : ∀ i ∈ threads s.g, fd ∉ ends (thr i).pipes) {r : Ret × Sys}
    (hr : ccOfDevRegister s key ver cb fd = some r) :
    ∃ thr', run (perform n) thr (requests s.g (.devRegister key ver cb fd)) = some thr' ∧
      Follows r.2.g thr' := by
  obtain ⟨q, hq, rfl⟩ := Option.map_eq_some_iff.mp hr
  unfold Core.Api.ccOfDevRegister at hq
  by_cases hver : Core.Api.maxOfverType ≤ ver
  · rw [if_pos hver] at hq
    obtain rfl := Option.some.inj hq
    rw [requests_of_not_listening (.inl hver)]
    exact ⟨thr, rfl, h⟩
  · rw [if_neg hver] at hq
    cases hty : s.g.ofdevType with
    | switch =>
      simp only [hty] at hq
      obtain rfl := Option.some.inj hq
      rw [requests_of_not_listening (.inr (.inl hty))]
      exact ⟨thr, rfl, h.same rfl rfl rfl⟩
    | controller =>
      simp only [hty] at hq
      obtain ⟨l, hl, rfl⟩ := Option.map_eq_some_iff.mp hq
      unfold Core.Api.tcpOpenListenfd at hl
      by_cases hneg : fd < 0
      · rw [if_pos hneg] at hl
        obtain rfl := Option.some.inj hl
        rw [requests_of_not_listening (.inr (.inr hneg))]
        refine ⟨thr, rfl, ?_⟩
        split
        · exact h.same rfl rfl rfl
        · exact h.same rfl rfl rfl
      · rw [if_neg hneg] at hl
        obtain ⟨a, ha, rfl⟩ := Option.map_eq_some_iff.mp hl
        rw [requests_of_listening hver hty hneg]
        have hfol : ∃ thr', run (perform n) thr [.send .listen (listenAddMsg fd)] = some thr' ∧
            Follows { s.g with oflistenPollthr := a.2 } thr' := by
          refine h.send_add (listen_mem s.g) rfl rfl (hold _ (listen_mem s.g)) ha rfl rfl ?_
          intro j hj
          cases j with
          | listen => exact absurd rfl hj
          | rw m => rfl
        obtain ⟨thr', hrun, hfol⟩ := hfol
        refine ⟨thr', hrun, ?_⟩
        split
        · exact hfol.same rfl rfl rfl
        · exact hfol.same rfl rfl rfl

/-! ## Runs -/

/-- The calls that open a socket: without a descriptor nothing is sent, and what they do after the
addition does not concern the threads. -/
theorem follows_open {s : Sys} (hinv : Descriptors.Inv s) (h : Follows s.g thr)
    (hends : (ends [n.pri, n.data]).Nodup) {msg : ThrMsg} (hty : msg.fdType = .socket)
    (hact : msg.fdAction = .addFd) (hfd : msg.fd ∉ ends [n.pri, n.data] ∧
      ∀ i ∈ threads s.g, msg.fd ∉ ends (thr i).pipes) {key : DevKey} {proto : L4Type}
    {ck : ChannelKey} {block : SockAddr} {ret : Ret} {after : Ret × Sys → Ret × Sys}
    (hafter : ∀ q thr', Follows q.2.g thr' → Follows (after q).2.g thr') {r : Ret × Sys}
    (hr : (if msg.fd < 0 then some (ret, s)
      else (addSockfd s msg.fd key proto ck block).map after) = some r) :
    ∃ thr', run (perform n) thr (if msg.fd < 0 then [] else addRequests s.g key msg) = some thr' ∧
      Follows r.2.g thr' := by
  split at hr
  · rename_i hneg
    obtain rfl := Option.some.inj hr
    rw [if_pos hneg]
    exact ⟨thr, rfl, h⟩
  · rename_i hpos
    obtain ⟨q, hq, rfl⟩ := Option.map_eq_some_iff.mp hr
    obtain ⟨a, ha, rfl⟩ := Option.map_eq_some_iff.mp hq
    rw [if_neg hpos]
    obtain ⟨thr', hrun, hfol⟩ := follows_add hinv.pool h hends hty hact hfd.1 hfd.2 ha
    exact ⟨thr', hrun, hafter _ thr' hfol⟩

end

/-- Every call that returns has its messages handled, and the threads stand behind the managers
again. -/
theorem follows_step {w : World} {c : Call} (hinv : Descriptors.Inv w.lib)
    (h : Follows w.lib.g w.thr) (hnew : Distinct w c) (hok : ClosesSockets w.lib c.op) {lib : Sys}
    (hs : Traced.step w.lib c.op = some lib) :
    ∃ thr', run (perform c.new) w.thr (requests w.lib.g c.op) = some thr' ∧ Follows lib.g thr' := by
  obtain ⟨hends, hfresh⟩ := hnew
  obtain ⟨op, n⟩ := c
  cases op with
  | devRegister key ver cb fd =>
    obtain ⟨-, hs⟩ := Option.ite_none_left_eq_some.mp hs
    obtain ⟨r, hr, rfl⟩ := Option.map_eq_some_iff.mp hs
    exact follows_devRegister h (hfresh fd List.mem_cons_self).2 hr
  | createChannel key ck proto fd block =>
    obtain ⟨-, hs⟩ := Option.ite_none_left_eq_some.mp hs
    obtain ⟨r, hr, rfl⟩ := Option.map_eq_some_iff.mp hs
    have hafter : ∀ (q : Ret × Sys) (thr' : ThreadId → Manager.Sys), Follows q.2.g thr' →
        Follows (if q.1 < 0 then (ccOfEmisc, q.2) else (ccOfOk, q.2)).2.g thr' := by
      intro q thr' hq
      split
      · exact hq
      · exact hq
    have hfd := hfresh fd List.mem_cons_self
    cases proto with
    | tcp =>
      exact follows_open hinv h hends (show (tcpAddMsg fd).fdType = .socket from rfl) rfl hfd
        hafter hr
    | udp =>
      exact follows_open hinv h hends (show (udpAddMsg fd).fdType = .socket from rfl) rfl hfd
        hafter hr
    | tls => cases hr
    | dtls => cases hr
  | accept fd key ck block =>
    obtain ⟨-, hs⟩ := Option.ite_none_left_eq_some.mp hs
    obtain ⟨r, hr, rfl⟩ := Option.map_eq_some_iff.mp hs
    refine follows_open hinv h hends (show (tcpAddMsg fd).fdType = .socket from rfl) rfl
      (hfresh fd List.mem_cons_self) (fun q thr' hq => ?_) hr
    split
    · exact hq
    · split
      · exact hq
      · have hsame := Descriptors.sameManagers_setRwUp q.2.g fd
        exact hq.same hsame.mgrs hsame.listen hsame.next
  | udpServer key fd block =>
    obtain ⟨-, hs⟩ := Option.ite_none_left_eq_some.mp hs
    obtain ⟨r, hr, rfl⟩ := Option.map_eq_some_iff.mp hs
    refine follows_open hinv h hends (show (udpAddMsg fd).fdType = .socket from rfl) rfl
      (hfresh fd List.mem_cons_self) (fun q thr' hq => ?_) hr
    split
    · exact hq
    · exact hq
  | datagram fd src data =>
    obtain ⟨r, hr, rfl⟩ := Option.map_eq_some_iff.mp hs
    have hsame := Descriptors.sameManagers_pollin hr
    exact ⟨w.thr, rfl, h.same hsame.mgrs hsame.listen hsame.next⟩
  | setReal d a ck =>
    obtain rfl := Option.some.inj hs
    have hsame := Descriptors.sameManagers_setReal w.lib.g d a ck
    exact ⟨w.thr, rfl, h.same hsame.mgrs hsame.listen hsame.next⟩
  | destroyChannel ck closeRet =>
    obtain ⟨r, hr, rfl⟩ := Option.map_eq_some_iff.mp hs
    unfold ccOfDestroyChannel at hr
    cases hck : w.lib.g.ofchannelHtbl.lookup ck with
    | none =>
      simp only [hck] at hr
      obtain rfl := Option.some.inj hr
      simp only [requests, hck]
      exact ⟨w.thr, rfl, h⟩
    | some chann =>
      simp only [requests, hck] at hr ⊢
      cases hl : w.lib.g.ofrwHtbl.lookup chann.rwSockfd with
      | none =>
        simp only [hl] at hr
        obtain rfl := Option.some.inj hr
        unfold closeRequests
        rw [hl]
        exact ⟨w.thr, rfl, h⟩
      | some info =>
        simp only [hl] at hr
        exact follows_closeConn hinv h hl hr
  | closeConn fd closeRet =>
    obtain ⟨info, hl, hs⟩ := Option.bind_eq_some_iff.mp hs
    obtain ⟨r, hr, rfl⟩ := Option.map_eq_some_iff.mp hs
    exact follows_closeConn hinv h hl hr
  | devFree key closeRet =>
    obtain ⟨r, hr, rfl⟩ := Option.map_eq_some_iff.mp hs
    unfold ccOfDevFree at hr
    split at hr
    · obtain ⟨q, hq, rfl⟩ := Option.map_eq_some_iff.mp hr
      obtain ⟨thr', hrun, hfol⟩ := follows_devFreeLockfree hinv h hok hq
      exact ⟨thr', hrun, hfol.same rfl rfl rfl⟩
    · cases hr
  | devfreeIter key closeRet =>
    obtain ⟨q, hq, rfl⟩ := Option.map_eq_some_iff.mp hs
    obtain ⟨thr', hrun, hfol⟩ := follows_devFreeLockfree hinv h hok hq
    refine ⟨thr', hrun, ?_⟩
    split
    · exact hfol
    · exact hfol.same rfl rfl rfl

/-- Each thread has the read ends of its two pipes and then the sockets of its manager in `fd_list`
and in `pollfd_arr`, which is large enough; the counters are the number of these sockets; and a
socket that the tables give to a thread is polled by it. -/
structure ThreadsPoll (w : World) : Prop where
  two_pipes : ∀ i ∈ threads w.lib.g, (w.thr i).pipes.length = 2
  fd_list : ∀ i ∈ threads w.lib.g,
    (w.thr i).thr.fds = (w.thr i).pipes.map Prod.fst ++ (mgrAt w.lib.g i).fds
  pollfd_arr : ∀ i ∈ threads w.lib.g,
    (w.thr i).thr.polled = (w.thr i).pipes.map Prod.fst ++ (mgrAt w.lib.g i).fds
  fits : ∀ i ∈ threads w.lib.g, (w.thr i).thr.numPollfds ≤ (w.thr i).maxPollfds.toNat
  counted : ∀ i ∈ threads w.lib.g, (w.thr i).mgr.numSockets.toNat = (mgrAt w.lib.g i).fds.length
  avail : ∀ i ∈ threads w.lib.g,
    Manager.adpThrMgrGetNumAvailSockfd (w.thr i).mgr = (mgrAt w.lib.g i).numAvail
  entries : ∀ fd info m, w.lib.g.ofrwHtbl.lookup fd = some info → info.thrMgr = some m →
    fd ∈ (w.thr (.rw m)).thr.polled

theorem threadsPoll_of_follows {w : World} (hinv : Descriptors.Inv w.lib)
    (h : Follows w.lib.g w.thr) : ThreadsPoll w := by
  have hfds : ∀ i ∈ threads w.lib.g,
      (w.thr i).thr.fds = (w.thr i).pipes.map Prod.fst ++ (mgrAt w.lib.g i).fds := by
    intro i hi
    obtain ⟨pri, data, hst⟩ := h i hi
    rw [hst.fds, hst.pipes]
    rfl
  have hpolled : ∀ i ∈ threads w.lib.g,
      (w.thr i).thr.polled = (w.thr i).pipes.map Prod.fst ++ (mgrAt w.lib.g i).fds := by
    intro i hi
    obtain ⟨pri, data, hst⟩ := h i hi
    rw [← hst.inv.synced.fds_eq]
    exact hfds i hi
  refine ⟨fun i hi => ?_, hfds, hpolled, fun i hi => ?_, fun i hi => ?_, fun i hi => ?_,
    fun fd info m hl hm => ?_⟩
  · obtain ⟨pri, data, hst⟩ := h i hi
    rw [hst.pipes]
    rfl
  · obtain ⟨pri, data, hst⟩ := h i hi
    exact (Manager.inStep_of_inv (by decide) (by decide) hst.inv).num_pollfds_le
  · obtain ⟨pri, data, hst⟩ := h i hi
    rw [hst.inv.num_sockets, ← hst.sockets, List.length_map]
  · obtain ⟨pri, data, hst⟩ := h i hi
    unfold Manager.adpThrMgrGetNumAvailSockfd ThreadMgr.numAvail
    rw [hst.num_sockets, hst.max_sockets]
  · obtain ⟨hlt, hfd⟩ := hinv.pool.polled fd info m hl hm
    rw [hpolled _ (mem_threads.mpr hlt)]
    exact List.mem_append_right _ hfd

theorem follows_init (devType : DevType) {listen rw : NewThread}
    (hlisten : (ends [listen.pri, listen.data]).Nodup) (hrw : (ends [rw.pri, rw.data]).Nodup) :
    ∃ w, init devType listen rw = some w ∧ w.lib = Traced.start devType ∧
      Follows w.lib.g w.thr := by
  obtain ⟨x, hx, -, hstx⟩ := stands_start hlisten
  obtain ⟨y, hy, -, hsty⟩ := stands_start hrw
  refine ⟨⟨Traced.start devType, Function.update (fun _ => x) (.rw 0) y⟩, ?_, rfl, ?_⟩
  · unfold init
    rw [hx, Option.bind_some, hy]
    rfl
  · intro i hi
    cases i with
    | listen => exact ⟨listen.pri, listen.data, hstx⟩
    | rw m =>
      have hm : m < 1 := mem_threads.mp hi
      obtain rfl := Nat.lt_one_iff.mp hm
      exact ⟨rw.pri, rw.data, hsty⟩

theorem lib_of_step {w w' : World} {c : Call} (hs : step w c = some w') :
    Distinct w c ∧ Traced.step w.lib c.op = some w'.lib := by
  unfold step at hs
  obtain ⟨hnew, hs⟩ := Option.ite_none_right_eq_some.mp hs
  obtain ⟨lib, hlib, hs⟩ := Option.bind_eq_some_iff.mp hs
  obtain ⟨thr, -, rfl⟩ := Option.map_eq_some_iff.mp hs
  exact ⟨hnew, hlib⟩

/-- What the calls meet without the threads, they meet with them. -/
theorem guarded_of_lib {ok : Sys → Op → Prop} {cs : List Call} {w : World}
    (h : Guarded Traced.step ok w.lib (cs.map Call.op)) :
    Guarded step (fun w c => ok w.lib c.op) w cs := by
  induction cs generalizing w with
  | nil => exact guarded_nil
  | cons c cs ih =>
    rw [List.map_cons, guarded_cons] at h
    refine guarded_cons.mpr fun w' hs => ?_
    obtain ⟨hok, hrest⟩ := h w'.lib (lib_of_step hs).2
    exact ⟨hok, ih hrest⟩

/-- A call that returns does so with the threads. -/
theorem step_of_lib {w : World} {c : Call} {lib : Sys} (hinv : Descriptors.Inv w.lib)
    (h : Follows w.lib.g w.thr) (hnew : Distinct w c) (hok : ClosesSockets w.lib c.op)
    (hs : Traced.step w.lib c.op = some lib) :
    ∃ thr, step w c = some ⟨lib, thr⟩ ∧ Follows lib.g thr := by
  obtain ⟨thr, hrun, hfol⟩ := follows_step hinv h hnew hok hs
  refine ⟨thr, ?_, hfol⟩
  unfold step
  rw [if_pos hnew, hs, Option.bind_some, hrun]
  rfl

/-- From `cc_of_lib_init` on, whatever calls are made, as long as what is closed has a thread and
what is freed a listening socket: every message that a call writes is handled by its thread, no
assertion there fails, and in every state each thread polls what the tables say. -/
theorem threads_follow (devType : DevType) {listen rw : NewThread}
    (hlisten : (ends [listen.pri, listen.data]).Nodup) (hrw : (ends [rw.pri, rw.data]).Nodup)
    (cs : List Call)
    (hguard : Guarded Traced.step ClosesSockets (Traced.start devType) (cs.map Call.op)) :
    ∃ w, init devType listen rw = some w ∧
      Always step (fun w => ThreadsPoll w ∧
        ∀ c lib, Distinct w c → ClosesSockets w.lib c.op → Traced.step w.lib c.op = some lib →
          ∃ thr, step w c = some ⟨lib, thr⟩) w cs := by
  obtain ⟨w, hw, hlib, hfol⟩ := follows_init devType hlisten hrw
  have hinv : Descriptors.Inv w.lib := by
    rw [hlib]
    exact Descriptors.inv_start devType
  rw [← hlib] at hguard
  have hall : Always step (fun w => Descriptors.Inv w.lib ∧ Follows w.lib.g w.thr) w cs := by
    refine always_of_guarded (fun v c v' h hok hs => ?_) ⟨hinv, hfol⟩ (guarded_of_lib hguard)
    obtain ⟨hnew, hlib'⟩ := lib_of_step hs
    obtain ⟨thr, hthr, hfol'⟩ := step_of_lib h.1 h.2 hnew hok hlib'
    rw [hs] at hthr
    have heq : v'.thr = thr := congrArg World.thr (Option.some.inj hthr)
    exact ⟨Descriptors.inv_step h.1 hok hlib', heq ▸ hfol'⟩
  refine ⟨w, hw, hall.mono fun v h => ⟨threadsPoll_of_follows h.1 h.2, ?_⟩⟩
  intro c lib hnew hok hs
  obtain ⟨thr, hthr, -⟩ := step_of_lib h.1 h.2 hnew hok hs
  exact ⟨thr, hthr⟩

/-- A thread with the pipes `(a, a + 1)` and `(a + 2, a + 3)`, in blocks of zeroes. -/
def newThreadAt (a : Fd) : NewThread :=
  ⟨fun _ => 0, fun _ => ⟨0, ⟨false, false⟩, ⟨false, false⟩⟩, (a, a + 1), (a + 2, a + 3)⟩

/-- A controller listens on `14`, accepts `15` and `16`, and closes `15`. -/
def acceptsTwo : List Call :=
  [⟨.devRegister ⟨1, 2, 6633⟩ 0 ⟨0, 0, 0⟩ 14, newThreadAt 20⟩,
    ⟨.accept 15 ⟨1, 2, 6633⟩ ⟨0, 0⟩ ⟨0, 0⟩, newThreadAt 20⟩,
    ⟨.accept 16 ⟨1, 2, 6633⟩ ⟨0, 0⟩ ⟨0, 0⟩, newThreadAt 20⟩, ⟨.closeConn 15 0, newThreadAt 20⟩]

theorem threads_follow_accepts_two :
    (∃ w, init .controller (newThreadAt 3) (newThreadAt 7) = some w ∧
      Always step (fun w => ThreadsPoll w ∧
        ∀ c lib, Distinct w c → ClosesSockets w.lib c.op → Traced.step w.lib c.op = some lib →
          ∃ thr, step w c = some ⟨lib, thr⟩) w acceptsTwo) ∧
    ((init .controller (newThreadAt 3) (newThreadAt 7)).bind fun w =>
      (run step w acceptsTwo).map fun w =>
        ((w.thr .listen).thr.polled, (w.thr (.rw 0)).thr.polled)) = some ([3, 5, 14], [7, 9, 16]) := by
  refine ⟨threads_follow .controller (by decide) (by decide) acceptsTwo ?_, by decide +kernel⟩
  refine guarded_cons.mpr fun s₁ h₁ => ⟨trivial, guarded_cons.mpr fun s₂ h₂ => ⟨trivial,
    guarded_cons.mpr fun s₃ h₃ => ⟨trivial, guarded_cons.mpr fun s₄ _ => ⟨?_, guarded_nil⟩⟩⟩⟩
  obtain rfl := Option.some.inj h₁
  obtain rfl := Option.some.inj h₂
  obtain rfl := Option.some.inj h₃
  intro info hl
  obtain rfl := Option.some.inj hl
  exact Option.some_ne_none _

end OfConnect.Pool.Threads
