import Mathlib.Data.List.Sort
import OfConnect.PollThr.Thread

/-!
# The global tables and the pool of read/write threads

`cc_of_global_t` by value: `ofdev_htbl`, `ofchannel_htbl`, `ofrw_htbl` and
`ofrw_pollthr_list`, with the functions of `cc_of_util.c` that update them. Objects are
values here, so a table holds what was put into it and not a pointer: which object is
released when is not part of this state.

The result `none` is a call that does not return a value: an assertion fails, a pointer
that was never set is followed, or a loop never ends.
-/

namespace OfConnect.Core.State

open OfConnect.Lib.Tables OfConnect.PollThr.Thread

/-- `cc_of_ret` and the codes the functions below return. -/
abbrev Ret := Int

def ccOfOk : Ret := 0
def ccOfEinval : Ret := -2
def ccOfEhtbl : Ret := -6
def ccOfEmisc : Ret := -10

inductive DevType where
  | switch
  | controller
  deriving DecidableEq, Repr

inductive L4Type where
  | tcp
  | tls
  | udp
  | dtls
  deriving DecidableEq, Repr

inductive RwState where
  | down
  | up
  deriving DecidableEq, Repr

/-- `cc_ofdev_key_t`. -/
structure DevKey where
  controllerIpAddr : UInt32
  switchIpAddr : UInt32
  controllerL4Port : UInt16
  deriving DecidableEq, Repr

/-- `cc_ofchannel_key_t`. -/
structure ChannelKey where
  dpId : UInt64
  auxId : UInt8
  deriving DecidableEq, Repr

/-- The function pointers an application registers, as addresses. -/
structure Callbacks where
  recvFunc : Nat
  acceptChannFunc : Nat
  delChannFunc : Nat
  deriving DecidableEq, Repr

/-- `cc_ofdev_info_t`. -/
structure DevInfo where
  ofMaxVer : Nat
  ofrwSocketList : List Fd
  callbacks : Callbacks
  mainSockfdTcp : Fd
  mainSockfdUdp : Fd
  deriving DecidableEq, Repr

/-- `cc_ofchannel_info_t` with its `cc_ofstats_t`. -/
structure ChannelInfo where
  rwSockfd : Fd
  countRetries : Nat
  rxPkt : UInt32
  txPkt : UInt32
  txDrops : UInt32
  deriving DecidableEq, Repr

/-- The fields of `struct sockaddr_in` that the library reads. -/
structure SockAddr where
  sAddr : UInt32
  sinPort : UInt16
  deriving DecidableEq, Repr

abbrev MgrId := Nat

/-- `cc_ofrw_info_t`; a manager is named by the order of its creation. -/
structure RwInfo where
  state : RwState
  thrMgr : Option MgrId
  devKey : DevKey
  clientAddr : SockAddr
  layer4Proto : L4Type
  deriving DecidableEq, Repr

/-- The socket part of `adpoll_thread_mgr_t`, with the socket fds that its thread polls. -/
structure ThreadMgr where
  numSockets : UInt16
  maxSockets : UInt32
  fds : List Fd
  deriving DecidableEq, Repr

structure Global where
  ofdevType : DevType
  ofdevHtbl : Table DevKey DevInfo
  ofchannelHtbl : Table ChannelKey ChannelInfo
  ofrwHtbl : Table Fd RwInfo
  oflistenPollthr : ThreadMgr
  ofrwPollthrList : List MgrId
  mgrs : MgrId → ThreadMgr
  nextMgr : MgrId

/-! ## Tables -/

inductive HtblOp (V : Type) where
  | add (data : V)
  | del

/-- `update_global_htbl_lockfree` on one of the tables, with `new_entry`. An `ADD` of a
key that is present becomes an `UPD`, which inserts all the same. -/
def updateGlobalHtblLockfree {K V : Type} [DecidableEq K] (htbl : Table K V) (key : K) :
    HtblOp V → Ret × Table K V × Bool
  | .add data => (ccOfOk, htbl.insert key data, decide (size htbl < size (htbl.insert key data)))
  | .del => if key ∈ htbl then (ccOfOk, htbl.erase key, false) else (ccOfEhtbl, htbl, false)

def delOfrwRwsocketLockfree (g : Global) (delFd : Fd) : Ret × Global :=
  let r := updateGlobalHtblLockfree g.ofrwHtbl delFd .del
  (r.1, { g with ofrwHtbl := r.2.1 })

/-- `add_upd_ofrw_rwsocket`. `clientAddr` is the address that was passed or, for `NULL`,
what the allocated block held. -/
def addUpdOfrwRwsocket (g : Global) (addFd : Fd) (thrMgr : Option MgrId) (proto : L4Type)
    (key : DevKey) (clientAddr : SockAddr) : Ret × Global :=
  let r := updateGlobalHtblLockfree g.ofrwHtbl addFd (.add ⟨.down, thrMgr, key, clientAddr, proto⟩)
  (r.1, { g with ofrwHtbl := r.2.1 })

/-- `find_thrmgr_rwsocket_lockfree`; `none` is `CC_OF_EHTBL`. -/
def findThrmgrRwsocketLockfree (g : Global) (sockfd : Fd) : Option (Option MgrId) :=
  (g.ofrwHtbl.lookup sockfd).map RwInfo.thrMgr

def addUpdOfchannRwsocketLockfree (g : Global) (key : ChannelKey) (rwsock : Fd) : Ret × Global :=
  let r := updateGlobalHtblLockfree g.ofchannelHtbl key (.add ⟨rwsock, 0, 0, 0, 0⟩)
  (r.1, { g with ofchannelHtbl := r.2.1 })

/-- `del_ofchann_rwsocket_lockfree`: every entry that names the socket goes. -/
def delOfchannRwsocketLockfree (g : Global) (rwsock : Fd) : Ret × Global :=
  (ccOfOk, { g with
    ofchannelHtbl := foreachRemove (fun _ info => info.rwSockfd == rwsock) g.ofchannelHtbl })

/-- `find_ofchann_key_rwsocket_lockfree`; `none` is `CC_OF_EHTBL`. -/
def findOfchannKeyRwsocketLockfree (g : Global) (sockfd : Fd) : Option ChannelKey :=
  findKey? (fun _ info => info.rwSockfd == sockfd) g.ofchannelHtbl

/-- Replace the socket list of a device record in place. -/
def setSocketList (g : Global) (key : DevKey) (ofdev : DevInfo) (l : List Fd) : Global :=
  { g with ofdevHtbl := g.ofdevHtbl.insert key { ofdev with ofrwSocketList := l } }

def addOfdevRwsocketLockfree (g : Global) (key : DevKey) (rwsock : Fd) : Ret × Global :=
  match g.ofdevHtbl.lookup key with
  | none => (ccOfEinval, g)
  | some ofdev => (ccOfOk, setSocketList g key ofdev (ofdev.ofrwSocketList ++ [rwsock]))

def delOfdevRwsocketLockfree (g : Global) (key : DevKey) (rwsock : Fd) : Option (Ret × Global) :=
  match g.ofdevHtbl.lookup key with
  | none => none  -- ht_info is never set
  | some ofdev =>
    if rwsock ∈ ofdev.ofrwSocketList then
      some (ccOfOk, setSocketList g key ofdev (ofdev.ofrwSocketList.erase rwsock))
    else some (ccOfEmisc, g)

/-- The key a controller gives a socket until the real one is known. -/
def dummyKey (sockfd : Fd) : ChannelKey := ⟨sockfd.toInt64.toUInt64, sockfd.toUInt32.toUInt8⟩

/-- The key the socket is entered under. -/
def openKey (devType : DevType) (sockfd : Fd) (ofchannKey : ChannelKey) : ChannelKey :=
  match devType with
  | .controller => dummyKey sockfd
  | .switch => ofchannKey

def atomicAddUpdHtblsWithRwsocketLockfree (g : Global) (sockfd : Fd) (clientAddr : SockAddr)
    (thrMgr : Option MgrId) (key : DevKey) (proto : L4Type) (ofchannKey : ChannelKey) :
    Option (Ret × Global) :=
  let rw := addUpdOfrwRwsocket g sockfd thrMgr proto key clientAddr
  if rw.1 < 0 then some rw
  else
    let dev := addOfdevRwsocketLockfree rw.2 key sockfd
    if dev.1 < 0 then some (dev.1, (delOfrwRwsocketLockfree dev.2 sockfd).2)
    else
      let ch := addUpdOfchannRwsocketLockfree dev.2 (openKey g.ofdevType sockfd ofchannKey) sockfd
      if ch.1 < 0 then
        (delOfdevRwsocketLockfree ch.2 key sockfd).map fun r =>
          (ch.1, (delOfrwRwsocketLockfree r.2 sockfd).2)
      else some ch

/-! ## The pool -/

/-- `adp_thr_mgr_get_num_avail_sockfd`. -/
def ThreadMgr.numAvail (m : ThreadMgr) : UInt32 := m.maxSockets - m.numSockets.toUInt32

/-- `adp_thr_mgr_new` for a thread without additional pipes. -/
def adpThrMgrNew (maxSockets : UInt32) : ThreadMgr := ⟨0, maxSockets, []⟩

/-- `adp_thr_mgr_add_del_fd` for a socket, as the caller sees it: it returns when the
thread has handled the message. The thread asserts that an added fd is new to it. -/
def adpThrMgrAddDelFd (m : ThreadMgr) (fdAction : FdAction) (fd : Fd) : Option (Int × ThreadMgr) :=
  match fdAction with
  | .addFd =>
    if m.numSockets.toUInt32 = m.maxSockets then some (-1, m)
    else if fd ∈ m.fds then none
    else some (fd.toInt, { m with numSockets := m.numSockets + 1, fds := m.fds ++ [fd] })
  | .deleteFd => some (-1, { m with numSockets := m.numSockets - 1, fds := m.fds.erase fd })

def maxPerThreadRwsockets : UInt32 := 200

def ccCreateRwPollthrSafe (g : Global) : MgrId × Global :=
  (g.nextMgr, { g with
    mgrs := Function.update g.mgrs g.nextMgr (adpThrMgrNew maxPerThreadRwsockets)
    nextMgr := g.nextMgr + 1
    ofrwPollthrList := g.nextMgr :: g.ofrwPollthrList })

/-- The walk of `cc_find_or_create_rw_pollthr_safe`: on while the next manager has room. -/
def lastWithRoom (avail : MgrId → UInt32) (elem : MgrId) : List MgrId → MgrId
  | [] => elem
  | next :: rest => if avail next = 0 then elem else lastWithRoom avail next rest

def Global.avail (g : Global) (m : MgrId) : UInt32 := (g.mgrs m).numAvail

def ccFindOrCreateRwPollthrSafe (g : Global) : MgrId × Global :=
  match g.ofrwPollthrList with
  | [] => ccCreateRwPollthrSafe g
  | elem :: rest =>
    if g.avail elem = 0 then ccCreateRwPollthrSafe g
    else (lastWithRoom g.avail elem rest, g)

/-- `g_list_insert_sorted` with `cc_pollthr_list_compare_func`: before the first manager
that has no more room. -/
def insertSorted (g : Global) (m : MgrId) (l : List MgrId) : List MgrId :=
  l.orderedInsert (fun a b => g.avail b ≤ g.avail a) m

/-- Pass a socket message to a manager. -/
def Global.addDelFd (g : Global) (m : MgrId) (fdAction : FdAction) (fd : Fd) : Option Global :=
  (adpThrMgrAddDelFd (g.mgrs m) fdAction fd).map fun r =>
    { g with mgrs := Function.update g.mgrs m r.2 }

/-- The part of `cc_del_sockfd_rw_pollthr_lockfree` on the manager of the socket. -/
def delFromMgr (g : Global) (fd : Fd) : Option MgrId → Option (Ret × Global)
  | none => some (ccOfOk, g)
  | some tmgr => (g.addDelFd tmgr .deleteFd fd).map fun g =>
      if g.ofrwPollthrList.length = 1 then (ccOfOk, g)
      else if tmgr ∈ g.ofrwPollthrList then
        (ccOfOk, { g with ofrwPollthrList := insertSorted g tmgr (g.ofrwPollthrList.erase tmgr) })
      else (ccOfEmisc, g)

def ccDelSockfdRwPollthrLockfree (g : Global) (tmgr : Option MgrId) (fdAction : FdAction)
    (fd : Fd) : Option (Ret × Global) :=
  if fdAction ≠ .deleteFd then some (ccOfEinval, g)
  else (delFromMgr g fd tmgr).bind fun r =>
    if r.1 < 0 then some r
    else
      match r.2.ofrwHtbl.lookup fd with
      | none => none  -- rwht_info is never set
      | some rwinfo => (delOfdevRwsocketLockfree r.2 rwinfo.devKey fd).map fun d =>
          delOfchannRwsocketLockfree (delOfrwRwsocketLockfree d.2 fd).2 fd

/-- `cc_add_sockfd_rw_pollthr_safe` for an `ADD_FD` message. The rollback passes on the
`ADD_FD` message it was given. -/
def ccAddSockfdRwPollthrSafe (g : Global) (fd : Fd) (key : DevKey) (proto : L4Type)
    (ofchannKey : ChannelKey) (block : SockAddr) : Option (Ret × Global) :=
  let f := ccFindOrCreateRwPollthrSafe g
  (atomicAddUpdHtblsWithRwsocketLockfree f.2 fd block (some f.1) key proto ofchannKey).bind fun r =>
    if r.1 < 0 then
      (ccDelSockfdRwPollthrLockfree r.2 (some f.1) .addFd fd).map fun d => (r.1, d.2)
    else (r.2.addDelFd f.1 .addFd fd).map fun g => (r.1, g)

end OfConnect.Core.State
