import OfConnect.Core.State

/-!
# The calls that open, rename and close channels

The functions of `cc_of_lib.c`, `cc_tcp_conn.c` and `cc_udp_conn.c` that change the
tables, each as one step: the locks they hold and what other threads do meanwhile are
not part of this module. What the kernel answers is an argument: a descriptor, negative
if one of the calls that obtain it failed, and the result of `close`.
-/

namespace OfConnect.Core.Api

open OfConnect.Lib.Tables OfConnect.PollThr.Thread OfConnect.Core.State

/-- The state `cc_of_lib_init` leaves behind: empty tables and one manager in the pool. -/
def ccOfLibInit (devType : DevType) : Global :=
  (ccCreateRwPollthrSafe
    { ofdevType := devType
      ofdevHtbl := ∅
      ofchannelHtbl := ∅
      ofrwHtbl := ∅
      oflistenPollthr := adpThrMgrNew maxPerThreadRwsockets
      ofrwPollthrList := []
      mgrs := fun _ => adpThrMgrNew maxPerThreadRwsockets
      nextMgr := 0 }).2

/-! ## Closing -/

def tcpClose (g : Global) (sockfd : Fd) (closeRet : Int) : Option (Ret × Global) :=
  match findThrmgrRwsocketLockfree g sockfd with
  | none => some (ccOfEhtbl, g)
  | some tmgr => (ccDelSockfdRwPollthrLockfree g tmgr .deleteFd sockfd).map fun r =>
      if r.1 < 0 then r else (closeRet, r.2)

/-- `udp_close` goes on where `tcp_close` returns: without an entry it has no manager. -/
def udpClose (g : Global) (sockfd : Fd) (closeRet : Int) : Option (Ret × Global) :=
  let tmgr := (findThrmgrRwsocketLockfree g sockfd).join
  (ccDelSockfdRwPollthrLockfree g tmgr .deleteFd sockfd).map fun r =>
    if r.1 < 0 then r else (closeRet, r.2)

/-- `NET_SVCS[proto].close_conn`; the table has no functions for TLS and DTLS. -/
def closeConn (g : Global) (proto : L4Type) (sockfd : Fd) (closeRet : Int) :
    Option (Ret × Global) :=
  match proto with
  | .tcp => tcpClose g sockfd closeRet
  | .udp => udpClose g sockfd closeRet
  | .tls => none
  | .dtls => none

def ccOfDestroyChannel (g : Global) (key : ChannelKey) (closeRet : Int) : Option (Ret × Global) :=
  match g.ofchannelHtbl.lookup key with
  | none => some (ccOfEinval, g)
  | some ofchannInfo =>
    match g.ofrwHtbl.lookup ofchannInfo.rwSockfd with
    | none => some (ccOfEinval, g)
    | some rwinfo => closeConn g rwinfo.layer4Proto ofchannInfo.rwSockfd closeRet

/-! ## Opening -/

/-- `cc_of_create_channel` with `tcp_open_clientfd` or `udp_open_clientfd`. `clientfd` is
the connected socket. -/
def ccOfCreateChannel (g : Global) (key : DevKey) (ofchannKey : ChannelKey) (proto : L4Type)
    (clientfd : Fd) (block : SockAddr) : Option (Ret × Global) :=
  match proto with
  | .tls => none
  | .dtls => none
  | .tcp | .udp =>
    if clientfd < 0 then some (ccOfEmisc, g)
    else (ccAddSockfdRwPollthrSafe g clientfd key proto ofchannKey block).map fun r =>
      if r.1 < 0 then (ccOfEmisc, r.2) else (ccOfOk, r.2)

/-- The last critical section of `tcp_accept`: the entry is copied, and put back `UP`. -/
def setRwUp (g : Global) (connfd : Fd) : Ret × Global :=
  match g.ofrwHtbl.lookup connfd with
  | none => (ccOfEhtbl, g)
  | some rwInfo =>
    (connfd.toInt, { g with
      ofrwHtbl := (updateGlobalHtblLockfree g.ofrwHtbl connfd (.add { rwInfo with state := .up })).2.1 })

/-- `tcp_accept` of the connection `connfd`; `channKey` is a local it never sets. -/
def tcpAccept (g : Global) (connfd : Fd) (key : DevKey) (channKey : ChannelKey)
    (block : SockAddr) : Option (Ret × Global) :=
  if connfd < 0 then some (connfd.toInt, g)
  else (ccAddSockfdRwPollthrSafe g connfd key .tcp channKey block).map fun r =>
    if r.1 < 0 then r
    else
      match r.2.ofdevHtbl.lookup key with
      | none => (ccOfEhtbl, r.2)
      | some _ => setRwUp r.2 connfd

/-- `cc_of_set_real_dpid_auxid`. The entry is found by its key and removed by its socket,
which is taken to be `(int)dummy_dpid`. -/
def ccOfSetRealDpidAuxid (g : Global) (dummyDpid : UInt64) (dummyAuxid : UInt8) (key : ChannelKey) :
    Ret × Global :=
  let found := (g.ofchannelHtbl.lookup ⟨dummyDpid, dummyAuxid⟩).or
    (g.ofchannelHtbl.lookup ⟨dummyDpid, dummyDpid.toUInt8⟩)
  match found with
  | none => (ccOfEinval, g)
  | some ofchannInfoOld =>
    let d := delOfchannRwsocketLockfree g dummyDpid.toUInt32.toInt32
    (d.1, { d.2 with
      ofchannelHtbl := (updateGlobalHtblLockfree d.2.ofchannelHtbl key (.add ofchannInfoOld)).2.1 })

/-! ## Devices -/

def maxOfverType : Nat := 3

/-- `tcp_open_listenfd` from the bound and listening socket on. -/
def tcpOpenListenfd (g : Global) (listenfd : Fd) : Option (Int × Global) :=
  if listenfd < 0 then some (listenfd.toInt, g)
  else (adpThrMgrAddDelFd g.oflistenPollthr .addFd listenfd).map fun r =>
    (r.1, { g with oflistenPollthr := r.2 })

/-- `cc_of_dev_register`. The record is in the table before the listening socket is
opened, and stays there if that fails. -/
def ccOfDevRegister (g : Global) (key : DevKey) (maxOfver : Nat) (callbacks : Callbacks)
    (listenfd : Fd) : Option (Ret × Global) :=
  if maxOfverType ≤ maxOfver then some (ccOfEinval, g)
  else
    let put (g : Global) (fd : Fd) : Global :=
      { g with ofdevHtbl := g.ofdevHtbl.insert key ⟨maxOfver, [], callbacks, fd, 0⟩ }
    match g.ofdevType with
    | .switch => some (ccOfOk, put g 0)
    | .controller => (tcpOpenListenfd (put g 0) listenfd).map fun r =>
        let fd := Int32.ofInt r.1
        if fd < 0 then (ccOfEmisc, put r.2 fd) else (ccOfOk, put r.2 fd)

/-- The loop of `cc_of_dev_free_lockfree` over the socket list as it was at the start: a
call of `close_conn` takes out the link that the loop has just left. A socket without an
entry in `ofrw_htbl` is looked at for ever. -/
def closeSockets (closeRet : Fd → Int) : List Fd → Global → Option Global
  | [], g => some g
  | fd :: rest, g =>
    match g.ofrwHtbl.lookup fd with
    | none => none
    | some rwinfo => (closeConn g rwinfo.layer4Proto fd (closeRet fd)).bind fun r =>
        closeSockets closeRet rest r.2

def ccOfDevFreeLockfree (g : Global) (key : DevKey) (closeRet : Fd → Int) :
    Option (Ret × Global) :=
  match g.ofdevHtbl.lookup key with
  | none => none
  | some htDinfo => (closeSockets closeRet htDinfo.ofrwSocketList g).bind fun g =>
      (adpThrMgrAddDelFd g.oflistenPollthr .deleteFd htDinfo.mainSockfdTcp).map fun r =>
        (closeRet htDinfo.mainSockfdTcp, { g with oflistenPollthr := r.2 })

/-- `cc_of_devfree_iter` and the removal of its entry by the walk that calls it. -/
def ccOfDevfreeIter (g : Global) (key : DevKey) (closeRet : Fd → Int) : Option Global :=
  (ccOfDevFreeLockfree g key closeRet).map fun r =>
    if r.1 < 0 then r.2 else { r.2 with ofdevHtbl := r.2.ofdevHtbl.erase key }

/-- `cc_of_dev_free`: the same walk, for the only registered device. -/
def ccOfDevFree (g : Global) (key : DevKey) (closeRet : Fd → Int) : Option (Ret × Global) :=
  if size g.ofdevHtbl = 1 then
    (ccOfDevFreeLockfree g key closeRet).map fun r =>
      let d := updateGlobalHtblLockfree r.2.ofdevHtbl key .del
      (d.1, { r.2 with ofdevHtbl := d.2.1 })
  else none

end OfConnect.Core.Api
