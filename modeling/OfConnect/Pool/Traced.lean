import OfConnect.Udp.Demux

/-!
# The calls with the descriptors they open and close

The calls of `Core.Api` once more, with the descriptors that the library has obtained from
`socket` or `accept` and not closed, and with a log of what it passes to `close` and of the
`DELETE_FD` requests it sends: a descriptor goes with those that were open at that moment, a
request with the sockets that the thread polled. `call_of_step` says that the tables are what
they are without all that.
-/

namespace OfConnect.Pool.Traced

open OfConnect.Lib.Tables OfConnect.PollThr.Thread OfConnect.Core.State
open OfConnect.Udp.Demux (maxOpenFiles processUdpfdPollinFunc)

/-- A call of `close` with the open descriptors, or a `DELETE_FD` request with the sockets
that the thread polls. -/
inductive Event where
  | close (fd : Fd) (own : List Fd)
  | deleteFd (fd : Fd) (polled : List Fd)
  deriving DecidableEq, Repr

/-- The descriptor is one of them. -/
def Event.Known : Event → Prop
  | .close fd own => fd ∈ own
  | .deleteFd fd polled => fd ∈ polled

instance : (e : Event) → Decidable e.Known
  | .close fd own => inferInstanceAs (Decidable (fd ∈ own))
  | .deleteFd fd polled => inferInstanceAs (Decidable (fd ∈ polled))

structure Sys where
  g : Global
  random : UInt32
  own : List Fd
  log : List Event

def start (devType : DevType) : Sys := ⟨Core.Api.ccOfLibInit devType, maxOpenFiles, [], []⟩

/-! ## Closing -/

def close (s : Sys) (fd : Fd) : Sys :=
  { s with own := s.own.filter (fun f => f ≠ fd), log := s.log ++ [.close fd s.own] }

def delSockfd (s : Sys) (tmgr : Option MgrId) (fd : Fd) : Option (Ret × Sys) :=
  (ccDelSockfdRwPollthrLockfree s.g tmgr .deleteFd fd).map fun r =>
    (r.1, { s with
      g := r.2
      log := s.log ++ (tmgr.map fun m => Event.deleteFd fd (s.g.mgrs m).fds).toList })

def tcpClose (s : Sys) (sockfd : Fd) (closeRet : Int) : Option (Ret × Sys) :=
  match findThrmgrRwsocketLockfree s.g sockfd with
  | none => some (ccOfEhtbl, s)
  | some tmgr => (delSockfd s tmgr sockfd).map fun r =>
      if r.1 < 0 then r else (closeRet, close r.2 sockfd)

def udpClose (s : Sys) (sockfd : Fd) (closeRet : Int) : Option (Ret × Sys) :=
  let tmgr := (findThrmgrRwsocketLockfree s.g sockfd).join
  (delSockfd s tmgr sockfd).map fun r =>
    if r.1 < 0 then r else (closeRet, close r.2 sockfd)

def closeConn (s : Sys) (proto : L4Type) (sockfd : Fd) (closeRet : Int) : Option (Ret × Sys) :=
  match proto with
  | .tcp => tcpClose s sockfd closeRet
  | .udp => udpClose s sockfd closeRet
  | .tls => none
  | .dtls => none

/-- `close_conn` of a socket that is entered: the deletion, and the `close` after it. -/
theorem closeConn_of_entry {s : Sys} {fd : Fd} {info : RwInfo} {closeRet : Int} {r : Ret × Sys}
    (hl : s.g.ofrwHtbl.lookup fd = some info)
    (hc : closeConn s info.layer4Proto fd closeRet = some r) :
    ∃ q, delSockfd s info.thrMgr fd = some q ∧
      (if q.1 < 0 then q else (closeRet, close q.2 fd)) = r := by
  have hfind : findThrmgrRwsocketLockfree s.g fd = some info.thrMgr := by
    simp [findThrmgrRwsocketLockfree, hl]
  apply Option.map_eq_some_iff.mp
  unfold closeConn tcpClose udpClose at hc
  rw [hfind] at hc
  split at hc
  · exact hc
  · exact hc
  · cases hc
  · cases hc

def ccOfDestroyChannel (s : Sys) (key : ChannelKey) (closeRet : Int) : Option (Ret × Sys) :=
  match s.g.ofchannelHtbl.lookup key with
  | none => some (ccOfEinval, s)
  | some ofchannInfo =>
    match s.g.ofrwHtbl.lookup ofchannInfo.rwSockfd with
    | none => some (ccOfEinval, s)
    | some rwinfo => closeConn s rwinfo.layer4Proto ofchannInfo.rwSockfd closeRet

def closeSockets (closeRet : Fd → Int) : List Fd → Sys → Option Sys
  | [], s => some s
  | fd :: rest, s =>
    match s.g.ofrwHtbl.lookup fd with
    | none => none
    | some rwinfo => (closeConn s rwinfo.layer4Proto fd (closeRet fd)).bind fun r =>
        closeSockets closeRet rest r.2

/-- The listen thread is told to drop the listening socket, which is then closed. -/
def closeListenfd (s : Sys) (fd : Fd) : Option Sys :=
  (adpThrMgrAddDelFd s.g.oflistenPollthr .deleteFd fd).map fun r =>
    close { s with
      g := { s.g with oflistenPollthr := r.2 }
      log := s.log ++ [.deleteFd fd s.g.oflistenPollthr.fds] } fd

def ccOfDevFreeLockfree (s : Sys) (key : DevKey) (closeRet : Fd → Int) : Option (Ret × Sys) :=
  match s.g.ofdevHtbl.lookup key with
  | none => none
  | some htDinfo => (closeSockets closeRet htDinfo.ofrwSocketList s).bind fun s =>
      (closeListenfd s htDinfo.mainSockfdTcp).map fun s => (closeRet htDinfo.mainSockfdTcp, s)

def ccOfDevfreeIter (s : Sys) (key : DevKey) (closeRet : Fd → Int) : Option Sys :=
  (ccOfDevFreeLockfree s key closeRet).map fun r =>
    if r.1 < 0 then r.2 else { r.2 with g := { r.2.g with ofdevHtbl := r.2.g.ofdevHtbl.erase key } }

def ccOfDevFree (s : Sys) (key : DevKey) (closeRet : Fd → Int) : Option (Ret × Sys) :=
  if size s.g.ofdevHtbl = 1 then
    (ccOfDevFreeLockfree s key closeRet).map fun r =>
      let d := updateGlobalHtblLockfree r.2.g.ofdevHtbl key .del
      (d.1, { r.2 with g := { r.2.g with ofdevHtbl := d.2.1 } })
  else none

/-! ## Opening -/

/-- `cc_add_sockfd_rw_pollthr_safe` for a descriptor that was just obtained. Where it fails
the caller closes the descriptor. -/
def addSockfd (s : Sys) (fd : Fd) (key : DevKey) (proto : L4Type) (ofchannKey : ChannelKey)
    (block : SockAddr) : Option (Ret × Sys) :=
  (ccAddSockfdRwPollthrSafe s.g fd key proto ofchannKey block).map fun r =>
    (r.1, { s with g := r.2, own := if (r.1 : Int) < 0 then s.own else fd :: s.own })

def ccOfCreateChannel (s : Sys) (key : DevKey) (ofchannKey : ChannelKey) (proto : L4Type)
    (clientfd : Fd) (block : SockAddr) : Option (Ret × Sys) :=
  match proto with
  | .tls => none
  | .dtls => none
  | .tcp | .udp =>
    if clientfd < 0 then some (ccOfEmisc, s)
    else (addSockfd s clientfd key proto ofchannKey block).map fun r =>
      if r.1 < 0 then (ccOfEmisc, r.2) else (ccOfOk, r.2)

def tcpAccept (s : Sys) (connfd : Fd) (key : DevKey) (channKey : ChannelKey)
    (block : SockAddr) : Option (Ret × Sys) :=
  if connfd < 0 then some (connfd.toInt, s)
  else (addSockfd s connfd key .tcp channKey block).map fun r =>
    if r.1 < 0 then r
    else
      match r.2.g.ofdevHtbl.lookup key with
      | none => (ccOfEhtbl, close r.2 connfd)
      | some _ =>
        let up := Core.Api.setRwUp r.2.g connfd
        (up.1, { r.2 with g := up.2 })

def udpOpenServerfd (s : Sys) (key : DevKey) (serverfd : Fd) (block : SockAddr) :
    Option (Ret × Sys) :=
  if serverfd < 0 then some (-1, s)
  else (addSockfd s serverfd key .udp (dummyKey serverfd) block).map fun r =>
    if r.1 < 0 then r else (serverfd.toInt, r.2)

/-- `cc_of_dev_register`; on a controller it keeps the listening socket it opens. One that a
failed call leaves open is not counted, as nothing refers to it any more. -/
def ccOfDevRegister (s : Sys) (key : DevKey) (maxOfver : Nat) (callbacks : Callbacks)
    (listenfd : Fd) : Option (Ret × Sys) :=
  (Core.Api.ccOfDevRegister s.g key maxOfver callbacks listenfd).map fun r =>
    (r.1, { s with
      g := r.2
      own := if s.g.ofdevType = .controller ∧ ¬(r.1 : Int) < 0 then listenfd :: s.own else s.own })

/-- A channel is created by an addition, or there is no descriptor. -/
theorem createChannel_adds {s : Sys} {fd : Fd} {key : DevKey} {proto : L4Type} {ck : ChannelKey}
    {block : SockAddr} {r : Ret × Sys} (h : ccOfCreateChannel s key ck proto fd block = some r) :
    r.2 = s ∨ ∃ q, addSockfd s fd key proto ck block = some q ∧ r.2 = q.2 := by
  have hopen : (if fd < 0 then some (ccOfEmisc, s)
      else (addSockfd s fd key proto ck block).map fun r =>
        if r.1 < 0 then (ccOfEmisc, r.2) else (ccOfOk, r.2)) = some r := by
    cases proto with
    | tcp => exact h
    | udp => exact h
    | tls => cases h
    | dtls => cases h
  split at hopen
  · obtain rfl := Option.some.inj hopen
    exact .inl rfl
  · obtain ⟨q, hq, rfl⟩ := Option.map_eq_some_iff.mp hopen
    refine .inr ⟨q, hq, ?_⟩
    split
    · rfl
    · rfl

theorem udpServer_adds {s : Sys} {fd : Fd} {key : DevKey} {block : SockAddr} {r : Ret × Sys}
    (h : udpOpenServerfd s key fd block = some r) :
    r.2 = s ∨ ∃ q, addSockfd s fd key .udp (dummyKey fd) block = some q ∧ r.2 = q.2 := by
  unfold udpOpenServerfd at h
  split at h
  · obtain rfl := Option.some.inj h
    exact .inl rfl
  · obtain ⟨q, hq, rfl⟩ := Option.map_eq_some_iff.mp h
    refine .inr ⟨q, hq, ?_⟩
    split
    · rfl
    · rfl

/-- A connection that was added is then up. -/
theorem accept_adds {s : Sys} {fd : Fd} {key : DevKey} {ck : ChannelKey} {block : SockAddr}
    {r : Ret × Sys} (h : tcpAccept s fd key ck block = some r) :
    r.2 = s ∨ ∃ q, addSockfd s fd key .tcp ck block = some q ∧
      (r.2 = q.2 ∨ ¬q.1 < 0 ∧ r.2 = { q.2 with g := (Core.Api.setRwUp q.2.g fd).2 }) := by
  unfold tcpAccept at h
  split at h
  · obtain rfl := Option.some.inj h
    exact .inl rfl
  · obtain ⟨q, hq, rfl⟩ := Option.map_eq_some_iff.mp h
    refine .inr ⟨q, hq, ?_⟩
    split
    · exact .inl rfl
    · rename_i hok
      obtain ⟨a, ha, rfl⟩ := Option.map_eq_some_iff.mp hq
      rcases Core.Effects.addSockfd_cases ha with ⟨hret, -, -⟩ | ⟨dev, m, -, hadded⟩
      · exact absurd (by rw [hret]; decide) hok
      · -- the device was there for the socket to be added
        have hdev : a.2.ofdevHtbl.lookup key =
            some { dev with ofrwSocketList := dev.ofrwSocketList ++ [fd] } := by
          rw [hadded.ofdev, lookup_insert_eq, if_pos rfl]
        refine .inr ⟨hok, ?_⟩
        simp only [hdev]

/-! ## Runs -/

inductive Op where
  | devRegister (key : DevKey) (maxOfver : Nat) (callbacks : Callbacks) (listenfd : Fd)
  | createChannel (key : DevKey) (ck : ChannelKey) (proto : L4Type) (clientfd : Fd)
      (block : SockAddr)
  | accept (connfd : Fd) (key : DevKey) (channKey : ChannelKey) (block : SockAddr)
  | udpServer (key : DevKey) (serverfd : Fd) (block : SockAddr)
  | datagram (udpSockfd : Fd) (src : SockAddr) (data : List UInt8)
  | setReal (dummyDpid : UInt64) (dummyAuxid : UInt8) (ck : ChannelKey)
  | destroyChannel (ck : ChannelKey) (closeRet : Int)
  | closeConn (sockfd : Fd) (closeRet : Int)
  | devFree (key : DevKey) (closeRet : Fd → Int)
  | devfreeIter (key : DevKey) (closeRet : Fd → Int)

/-- One call. The kernel gives out no descriptor that is open. -/
def step (s : Sys) : Op → Option Sys
  | .devRegister key maxOfver callbacks listenfd =>
    if listenfd ∈ s.own then none
    else (ccOfDevRegister s key maxOfver callbacks listenfd).map Prod.snd
  | .createChannel key ck proto clientfd block =>
    if clientfd ∈ s.own then none
    else (ccOfCreateChannel s key ck proto clientfd block).map Prod.snd
  | .accept connfd key channKey block =>
    if connfd ∈ s.own then none
    else (tcpAccept s connfd key channKey block).map Prod.snd
  | .udpServer key serverfd block =>
    if serverfd ∈ s.own then none
    else (udpOpenServerfd s key serverfd block).map Prod.snd
  | .datagram udpSockfd src data =>
    (processUdpfdPollinFunc ⟨s.g, s.random⟩ udpSockfd src data).map fun r =>
      { s with g := r.1.g, random := r.1.random }
  | .setReal dummyDpid dummyAuxid ck =>
    some { s with g := (Core.Api.ccOfSetRealDpidAuxid s.g dummyDpid dummyAuxid ck).2 }
  | .destroyChannel ck closeRet => (ccOfDestroyChannel s ck closeRet).map Prod.snd
  | .closeConn sockfd closeRet =>
    (s.g.ofrwHtbl.lookup sockfd).bind fun rwinfo =>
      (closeConn s rwinfo.layer4Proto sockfd closeRet).map Prod.snd
  | .devFree key closeRet => (ccOfDevFree s key closeRet).map Prod.snd
  | .devfreeIter key closeRet => ccOfDevfreeIter s key closeRet

/-! ## Without the log -/

/-- What a call of `Core.Api` would have returned. -/
def forget (r : Ret × Sys) : Ret × Global := (r.1, r.2.g)

theorem forget_ite {c : Prop} [Decidable c] (r q : Ret × Sys) :
    forget (if c then r else q) = if c then forget r else forget q := by
  split
  · rfl
  · rfl

theorem forget_delSockfd (s : Sys) (tmgr : Option MgrId) (fd : Fd) :
    (delSockfd s tmgr fd).map forget = ccDelSockfdRwPollthrLockfree s.g tmgr .deleteFd fd := by
  unfold delSockfd
  rw [Option.map_map]
  exact Option.map_id'

/-- `tcp_close` and `udp_close` from the manager on. -/
theorem forget_closeSockfd (s : Sys) (tmgr : Option MgrId) (fd : Fd) (closeRet : Int) :
    ((delSockfd s tmgr fd).map fun r => if r.1 < 0 then r else (closeRet, close r.2 fd)).map forget =
      (ccDelSockfdRwPollthrLockfree s.g tmgr .deleteFd fd).map fun r =>
        if r.1 < 0 then r else (closeRet, r.2) := by
  rw [← forget_delSockfd, Option.map_map, Option.map_map]
  congr 1
  funext r
  exact forget_ite _ _

theorem forget_closeConn (s : Sys) (proto : L4Type) (fd : Fd) (closeRet : Int) :
    (closeConn s proto fd closeRet).map forget = Core.Api.closeConn s.g proto fd closeRet := by
  cases proto with
  | tcp =>
    simp only [closeConn, tcpClose, Core.Api.closeConn, Core.Api.tcpClose]
    cases findThrmgrRwsocketLockfree s.g fd with
    | none => rfl
    | some tmgr => exact forget_closeSockfd s tmgr fd closeRet
  | udp => exact forget_closeSockfd _ _ _ _
  | tls => rfl
  | dtls => rfl

theorem forget_destroyChannel (s : Sys) (key : ChannelKey) (closeRet : Int) :
    (ccOfDestroyChannel s key closeRet).map forget =
      Core.Api.ccOfDestroyChannel s.g key closeRet := by
  unfold ccOfDestroyChannel Core.Api.ccOfDestroyChannel
  cases s.g.ofchannelHtbl.lookup key with
  | none => rfl
  | some chann =>
    dsimp only
    cases s.g.ofrwHtbl.lookup chann.rwSockfd with
    | none => rfl
    | some rwinfo => exact forget_closeConn s rwinfo.layer4Proto chann.rwSockfd closeRet

theorem forget_closeSockets (closeRet : Fd → Int) (l : List Fd) (s : Sys) :
    (closeSockets closeRet l s).map Sys.g = Core.Api.closeSockets closeRet l s.g := by
  induction l generalizing s with
  | nil => rfl
  | cons fd rest ih =>
    unfold closeSockets Core.Api.closeSockets
    cases s.g.ofrwHtbl.lookup fd with
    | none => rfl
    | some rwinfo =>
      dsimp only
      rw [← forget_closeConn, Option.map_bind, Option.bind_map]
      congr 1
      funext r
      exact ih r.2

theorem forget_devFreeLockfree (s : Sys) (key : DevKey) (closeRet : Fd → Int) :
    (ccOfDevFreeLockfree s key closeRet).map forget =
      Core.Api.ccOfDevFreeLockfree s.g key closeRet := by
  unfold ccOfDevFreeLockfree Core.Api.ccOfDevFreeLockfree
  cases s.g.ofdevHtbl.lookup key with
  | none => rfl
  | some dev =>
    dsimp only
    rw [← forget_closeSockets, Option.map_bind, Option.bind_map]
    rfl

theorem forget_devFree (s : Sys) (key : DevKey) (closeRet : Fd → Int) :
    (ccOfDevFree s key closeRet).map forget = Core.Api.ccOfDevFree s.g key closeRet := by
  unfold ccOfDevFree Core.Api.ccOfDevFree
  split
  · rw [← forget_devFreeLockfree, Option.map_map, Option.map_map]
    rfl
  · rfl

theorem forget_devfreeIter (s : Sys) (key : DevKey) (closeRet : Fd → Int) :
    (ccOfDevfreeIter s key closeRet).map Sys.g = Core.Api.ccOfDevfreeIter s.g key closeRet := by
  unfold ccOfDevfreeIter Core.Api.ccOfDevfreeIter
  rw [← forget_devFreeLockfree, Option.map_map, Option.map_map]
  congr 1
  funext r
  exact apply_ite Sys.g _ _ _

theorem forget_addSockfd (s : Sys) (fd : Fd) (key : DevKey) (proto : L4Type) (ck : ChannelKey)
    (block : SockAddr) :
    (addSockfd s fd key proto ck block).map forget =
      ccAddSockfdRwPollthrSafe s.g fd key proto ck block := by
  unfold addSockfd
  rw [Option.map_map]
  exact Option.map_id'

theorem forget_createChannel (s : Sys) (key : DevKey) (ck : ChannelKey) (proto : L4Type) (fd : Fd)
    (block : SockAddr) :
    (ccOfCreateChannel s key ck proto fd block).map forget =
      Core.Api.ccOfCreateChannel s.g key ck proto fd block := by
  have hopen : ∀ proto, (if fd < 0 then some (ccOfEmisc, s)
      else (addSockfd s fd key proto ck block).map fun r =>
        if r.1 < 0 then (ccOfEmisc, r.2) else (ccOfOk, r.2)).map forget =
      if fd < 0 then some (ccOfEmisc, s.g)
      else (ccAddSockfdRwPollthrSafe s.g fd key proto ck block).map fun r =>
        if r.1 < 0 then (ccOfEmisc, r.2) else (ccOfOk, r.2) := by
    intro proto
    split
    · rfl
    · rw [← forget_addSockfd, Option.map_map, Option.map_map]
      congr 1
      funext r
      exact forget_ite _ _
  cases proto with
  | tcp => exact hopen .tcp
  | udp => exact hopen .udp
  | tls => rfl
  | dtls => rfl

theorem forget_accept (s : Sys) (fd : Fd) (key : DevKey) (ck : ChannelKey) (block : SockAddr) :
    (tcpAccept s fd key ck block).map forget = Core.Api.tcpAccept s.g fd key ck block := by
  unfold tcpAccept Core.Api.tcpAccept
  split
  · rfl
  · rw [← forget_addSockfd, Option.map_map, Option.map_map]
    congr 1
    funext r
    show forget (if r.1 < 0 then r else _) = if r.1 < 0 then forget r else _
    rw [forget_ite]
    congr 1
    unfold forget
    cases r.2.g.ofdevHtbl.lookup key with
    | none => rfl
    | some dev => rfl

theorem forget_udpServer (s : Sys) (key : DevKey) (fd : Fd) (block : SockAddr) :
    (udpOpenServerfd s key fd block).map forget = Udp.Demux.udpOpenServerfd s.g key fd block := by
  unfold udpOpenServerfd Udp.Demux.udpOpenServerfd
  split
  · rfl
  · rw [← forget_addSockfd, Option.map_map, Option.map_map]
    congr 1
    funext r
    exact forget_ite _ _

theorem forget_devRegister (s : Sys) (key : DevKey) (ver : Nat) (cb : Callbacks) (fd : Fd) :
    (ccOfDevRegister s key ver cb fd).map forget = Core.Api.ccOfDevRegister s.g key ver cb fd := by
  unfold ccOfDevRegister
  rw [Option.map_map]
  exact Option.map_id'

/-- The call itself, with the counter of the dummy sockets that a datagram is given. -/
def call (g : Global) (random : UInt32) : Op → Option Global
  | .devRegister key maxOfver callbacks listenfd =>
    (Core.Api.ccOfDevRegister g key maxOfver callbacks listenfd).map Prod.snd
  | .createChannel key ck proto clientfd block =>
    (Core.Api.ccOfCreateChannel g key ck proto clientfd block).map Prod.snd
  | .accept connfd key channKey block =>
    (Core.Api.tcpAccept g connfd key channKey block).map Prod.snd
  | .udpServer key serverfd block =>
    (Udp.Demux.udpOpenServerfd g key serverfd block).map Prod.snd
  | .datagram udpSockfd src data =>
    (processUdpfdPollinFunc ⟨g, random⟩ udpSockfd src data).map fun r => r.1.g
  | .setReal dummyDpid dummyAuxid ck =>
    some (Core.Api.ccOfSetRealDpidAuxid g dummyDpid dummyAuxid ck).2
  | .destroyChannel ck closeRet => (Core.Api.ccOfDestroyChannel g ck closeRet).map Prod.snd
  | .closeConn sockfd closeRet =>
    (g.ofrwHtbl.lookup sockfd).bind fun rwinfo =>
      (Core.Api.closeConn g rwinfo.layer4Proto sockfd closeRet).map Prod.snd
  | .devFree key closeRet => (Core.Api.ccOfDevFree g key closeRet).map Prod.snd
  | .devfreeIter key closeRet => Core.Api.ccOfDevfreeIter g key closeRet

theorem call_of_forget {x : Option (Ret × Sys)} {y : Option (Ret × Global)} {s' : Sys}
    (h : x.map forget = y) (hs : x.map Prod.snd = some s') : y.map Prod.snd = some s'.g := by
  obtain ⟨r, hr, rfl⟩ := Option.map_eq_some_iff.mp hs
  rw [← h, hr]
  rfl

/-- What is traced does not change what the calls do to the tables. -/
theorem call_of_step {s s' : Sys} {op : Op} (hs : step s op = some s') :
    call s.g s.random op = some s'.g := by
  cases op with
  | devRegister key ver cb fd =>
    exact call_of_forget (forget_devRegister s key ver cb fd) (Option.ite_none_left_eq_some.mp hs).2
  | createChannel key ck proto fd block =>
    exact call_of_forget (forget_createChannel s key ck proto fd block)
      (Option.ite_none_left_eq_some.mp hs).2
  | accept fd key ck block =>
    exact call_of_forget (forget_accept s fd key ck block) (Option.ite_none_left_eq_some.mp hs).2
  | udpServer key fd block =>
    exact call_of_forget (forget_udpServer s key fd block) (Option.ite_none_left_eq_some.mp hs).2
  | datagram fd src data =>
    obtain ⟨r, hr, rfl⟩ := Option.map_eq_some_iff.mp hs
    simp only [call, hr, Option.map_some]
  | setReal d a ck =>
    obtain rfl := Option.some.inj hs
    rfl
  | destroyChannel ck closeRet => exact call_of_forget (forget_destroyChannel s ck closeRet) hs
  | closeConn fd closeRet =>
    obtain ⟨rwinfo, hl, hs⟩ := Option.bind_eq_some_iff.mp hs
    simp only [call, hl, Option.bind_some]
    exact call_of_forget (forget_closeConn s rwinfo.layer4Proto fd closeRet) hs
  | devFree key closeRet => exact call_of_forget (forget_devFree s key closeRet) hs
  | devfreeIter key closeRet =>
    simp only [call, ← forget_devfreeIter]
    rw [show ccOfDevfreeIter s key closeRet = some s' from hs]
    rfl

end OfConnect.Pool.Traced
