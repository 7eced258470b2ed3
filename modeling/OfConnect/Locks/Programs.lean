import OfConnect.Lib.Monitor

/-!
# The locks of each function

What every function of the library does with the five kinds of mutexes, with the condition
variables of the thread managers and with the primary pipes, as a list of operations. The
contents of the tables are not modelled: where the source branches on them, or on what the
kernel answers, the branch is an argument. A callback of the application is a list of
operations too.

Left out are two mutexes that are never held while another one is taken by somebody else:
`oflog_lock`, taken inside every log line, and `send_msg_htbl_lock`, which only its own
poll thread takes.
-/

namespace OfConnect.Locks.Programs

open OfConnect.Lib

/-- `oflisten_pollthr_p`, and the managers of `ofrw_pollthr_list`. -/
inductive Mgr where
  | listen
  | rw (n : Nat)
  deriving DecidableEq, Repr

/-- An application thread, or the poll thread of a manager. -/
inductive Tid where
  | app (n : Nat)
  | poll (m : Mgr)
  deriving DecidableEq, Repr

inductive Lock where
  | ofdevHtbl
  | ofchannelHtbl
  | ofrwHtbl
  | ofrwPollthrList
  | addDelPipeCv (m : Mgr)
  | adpThrInitCv (m : Mgr)
  deriving DecidableEq, Repr

inductive Cond where
  | addDelPipe (m : Mgr)
  | adpThrInit (m : Mgr)
  deriving DecidableEq, Repr

/-- What a poll thread acknowledges: that it is up, a message to add or delete an fd, and
the message that deletes its primary pipe. -/
inductive Request where
  | up (m : Mgr)
  | fd (m : Mgr)
  | destruct (m : Mgr)
  deriving DecidableEq, Repr

abbrev Op := Monitor.Op Tid Lock Cond Request

def locked (l : Lock) (body : List Op) : List Op := .lock l :: (body ++ [.unlock l])

/-- The three table locks, in the order every function but `cc_of_lib_free` takes them. -/
def lockedTables (body : List Op) : List Op :=
  locked .ofdevHtbl (locked .ofchannelHtbl (locked .ofrwHtbl body))

/-! ## The thread managers -/

/-- `adp_thr_mgr_add_del_fd` from the lock before its `write` on. -/
def adpThrMgrAddDelFd (m : Mgr) (request : Request) : List Op :=
  [.lock (.addDelPipeCv m), .post request, .sleep (.addDelPipe m), .await (.addDelPipe m),
    .unlock (.addDelPipeCv m)]

/-- A manager without room for another socket returns before it takes the lock. -/
def addSocket (m : Mgr) (full : Bool) : List Op :=
  if full then [] else adpThrMgrAddDelFd m (.fd m)

/-- The thread is created first, and may signal before its creator waits. -/
def adpThrMgrNew (m : Mgr) : List Op :=
  [.post (.up m), .lock (.adpThrInitCv m), .sleep (.adpThrInit m), .await (.adpThrInit m),
    .unlock (.adpThrInitCv m)] ++ adpThrMgrAddDelFd m (.fd m)

def adpThrMgrFree (m : Mgr) : List Op :=
  adpThrMgrAddDelFd m (.destruct m) ++ [.join (.poll m)]

def ccGetCountRwPollthrSafe : List Op := locked .ofrwPollthrList []

/-- The last log line evaluates its arguments twice. -/
def ccCreateRwPollthrSafe (n : Nat) : List Op :=
  ccGetCountRwPollthrSafe ++ adpThrMgrNew (.rw n) ++ locked .ofrwPollthrList [] ++
    ccGetCountRwPollthrSafe ++ ccGetCountRwPollthrSafe

inductive Pool where
  | empty
  | exhausted
  | available
  deriving DecidableEq, Repr

def ccFindOrCreateRwPollthrSafe (n : Nat) : Pool → List Op
  | .empty => ccGetCountRwPollthrSafe ++ ccCreateRwPollthrSafe n
  | .exhausted =>
    ccGetCountRwPollthrSafe ++ locked .ofrwPollthrList [] ++ ccCreateRwPollthrSafe n
  | .available => ccGetCountRwPollthrSafe ++ locked .ofrwPollthrList []

/-! ## Opening and closing sockets -/

/-- How `cc_add_sockfd_rw_pollthr_safe` goes: the manager it finds or creates, whether the
tables took the socket, and whether the manager had room for it. -/
structure Opening where
  tmgr : Nat
  pool : Pool
  added : Bool
  full : Bool
  deriving DecidableEq, Repr

/-- After a failed update the tables are locked again, but `cc_del_sockfd_rw_pollthr_lockfree`
refuses a message that is not a `DELETE_FD`. -/
def ccAddSockfdRwPollthrSafe (o : Opening) : List Op :=
  ccFindOrCreateRwPollthrSafe o.tmgr o.pool ++ lockedTables [] ++
    if o.added then addSocket (.rw o.tmgr) o.full else lockedTables []

/-- How `tcp_close` or `udp_close` goes: the manager of the socket, none for the dummy
sockets of UDP, and whether it is alone in the pool. -/
structure Closing where
  tmgr : Option Nat
  alone : Bool
  deriving DecidableEq, Repr

/-- `close_conn`, with `cc_del_sockfd_rw_pollthr_lockfree`. -/
def closeConn (c : Closing) : List Op :=
  match c.tmgr with
  | none => []
  | some n =>
    adpThrMgrAddDelFd (.rw n) (.fd (.rw n)) ++ ccGetCountRwPollthrSafe ++
      if c.alone then [] else locked .ofrwPollthrList []

/-! ## The API -/

inductive Sending where
  | nullMsg
  | noChannel
  | found
  deriving DecidableEq, Repr

def ccOfSendPkt : Sending → List Op
  | .nullMsg => []
  | .noChannel => locked .ofchannelHtbl []
  | .found => locked .ofchannelHtbl (locked .ofrwHtbl [])

def ccOfSetRealDpidAuxid : List Op := locked .ofchannelHtbl []

inductive Destroying where
  | noChannel
  | noEntry
  | close (c : Closing)
  deriving DecidableEq, Repr

def ccOfDestroyChannel : Destroying → List Op
  | .noChannel => locked .ofdevHtbl (locked .ofchannelHtbl [])
  | .noEntry => lockedTables []
  | .close c => lockedTables (closeConn c)

/-- `none` where the socket could not be connected. -/
def ccOfCreateChannel : Option Opening → List Op
  | none => []
  | some o => ccAddSockfdRwPollthrSafe o

/-- The sockets of a device, then its listening socket. -/
def closeDevice (closings : List Closing) : List Op :=
  closings.flatMap closeConn ++ adpThrMgrAddDelFd .listen (.fd .listen)

def ccOfDevFree (closings : List Closing) : List Op := lockedTables (closeDevice closings)

def ccOfDevFreeLockfree (closings : List Closing) : List Op :=
  locked .ofchannelHtbl (locked .ofrwHtbl (closeDevice closings))

/-- For a controller, the listening socket goes to the listen thread. -/
def ccOfDevRegister (controller full : Bool) : List Op :=
  locked .ofdevHtbl [] ++ if controller then addSocket .listen full else []

/-- The devices, what is left in the tables, the listen thread, the pool. The second of
these takes `ofrw_htbl_lock` before `ofchannel_htbl_lock`, and the last one waits for
threads under `ofrw_pollthr_list_lock`. -/
def ccOfLibFree (devs : List (List Closing)) (pool : List Nat) : List Op :=
  locked .ofdevHtbl (devs.flatMap ccOfDevFreeLockfree) ++
    locked .ofrwHtbl (locked .ofchannelHtbl []) ++ adpThrMgrFree .listen ++
    locked .ofrwPollthrList (pool.flatMap fun n => adpThrMgrFree (.rw n))

/-! ## What the poll threads run -/

inductive Accepting where
  | failed
  | refused (o : Opening)
  | noDevice (o : Opening)
  | announced (o : Opening)
  deriving DecidableEq, Repr

def tcpAccept (acceptChannFunc : List Op) : Accepting → List Op
  | .failed => []
  | .refused o => ccAddSockfdRwPollthrSafe o
  | .noDevice o => ccAddSockfdRwPollthrSafe o ++ locked .ofdevHtbl []
  | .announced o =>
    ccAddSockfdRwPollthrSafe o ++ locked .ofdevHtbl acceptChannFunc ++ locked .ofrwHtbl []

/-- `none` where no device listens on the socket. The lock is given back before the call,
as `tcp_accept` takes it again. -/
def processListenfdPollinFunc (acceptChannFunc : List Op) : Option Accepting → List Op
  | none => locked .ofdevHtbl []
  | some a => locked .ofdevHtbl [] ++ tcpAccept acceptChannFunc a

inductive Reading where
  | failed
  | dropped
  | delivered
  deriving DecidableEq, Repr

def processTcpfdPollinFunc (recvFunc : List Op) : Reading → List Op
  | .failed => []
  | .dropped => lockedTables []
  | .delivered => lockedTables recvFunc

inductive UdpReading where
  | failed
  | dropped
  | delivered
  | announced
  deriving DecidableEq, Repr

/-- On a new connection both callbacks run in one critical section. The branch that returns
without unlocking looks up a socket that was found a few lines before under the same locks,
and is never taken. -/
def processUdpfdPollinFunc (acceptChannFunc recvFunc : List Op) : UdpReading → List Op
  | .failed => []
  | .dropped => lockedTables []
  | .delivered => lockedTables recvFunc
  | .announced => lockedTables (acceptChannFunc ++ recvFunc)

/-- `process_tcpfd_pollout_func` takes no lock. -/
def processUdpfdPolloutFunc : List Op := locked .ofchannelHtbl (locked .ofrwHtbl [])

/-- The end of `pollthr_pri_pipe_process_func`. -/
def pollthrPriPipeProcessFunc (m : Mgr) : List Op :=
  locked (.addDelPipeCv m) [.signal (.addDelPipe m)]

/-- The end of `adp_thr_mgr_poll_thread_func`, after a message that deletes the primary pipe. -/
def selfDestruct (m : Mgr) : List Op :=
  locked (.addDelPipeCv m) [.signal (.addDelPipe m)] ++ [.exit]

/-- The start of `adp_thr_mgr_poll_thread_func`. -/
def comeUp (m : Mgr) : List Op := locked (.adpThrInitCv m) [.signal (.adpThrInit m)]

/-! ## The threads -/

/-- The calls of the API that concern one channel. -/
inductive ApiCall where
  | ccOfSendPkt (s : Sending)
  | ccOfSetRealDpidAuxid
  | ccOfDestroyChannel (d : Destroying)
  deriving DecidableEq, Repr

def ApiCall.ops : ApiCall → List Op
  | .ccOfSendPkt s => Programs.ccOfSendPkt s
  | .ccOfSetRealDpidAuxid => Programs.ccOfSetRealDpidAuxid
  | .ccOfDestroyChannel d => Programs.ccOfDestroyChannel d

/-- A callback that makes these calls. -/
def callback (calls : List ApiCall) : List Op := .callback :: calls.flatMap ApiCall.ops

/-- One call by an application thread, or one callback of a poll thread. -/
inductive Job where
  | api (c : ApiCall)
  | ccOfCreateChannel (o : Option Opening)
  | ccOfDevRegister (controller full : Bool)
  | ccOfDevFree (closings : List Closing)
  | ccOfLibFree (devs : List (List Closing)) (pool : List Nat)
  | listenfdPollin (a : Option Accepting) (acceptChannFunc : List ApiCall)
  | tcpfdPollin (r : Reading) (recvFunc : List ApiCall)
  | udpfdPollin (r : UdpReading) (acceptChannFunc recvFunc : List ApiCall)
  | udpfdPollout
  | priPipe (m : Mgr)
  | selfDestruct (m : Mgr)
  | comeUp (m : Mgr)
  deriving DecidableEq, Repr

def Job.ops : Job → List Op
  | .api c => c.ops
  | .ccOfCreateChannel o => Programs.ccOfCreateChannel o
  | .ccOfDevRegister controller full => Programs.ccOfDevRegister controller full
  | .ccOfDevFree closings => Programs.ccOfDevFree closings
  | .ccOfLibFree devs pool => Programs.ccOfLibFree devs pool
  | .listenfdPollin a acceptChannFunc => processListenfdPollinFunc (callback acceptChannFunc) a
  | .tcpfdPollin r recvFunc => processTcpfdPollinFunc (callback recvFunc) r
  | .udpfdPollin r acceptChannFunc recvFunc =>
    processUdpfdPollinFunc (callback acceptChannFunc) (callback recvFunc) r
  | .udpfdPollout => processUdpfdPolloutFunc
  | .priPipe m => pollthrPriPipeProcessFunc m
  | .selfDestruct m => Programs.selfDestruct m
  | .comeUp m => Programs.comeUp m

/-- The listen thread polls listening sockets, the threads of the pool the others. -/
def runs : Tid → Job → Bool
  | .app _, .api _ | .app _, .ccOfCreateChannel _ | .app _, .ccOfDevRegister _ _
  | .app _, .ccOfDevFree _ | .app _, .ccOfLibFree _ _ => true
  | .poll .listen, .listenfdPollin _ _ => true
  | .poll (.rw _), .tcpfdPollin _ _ | .poll (.rw _), .udpfdPollin _ _ _
  | .poll (.rw _), .udpfdPollout => true
  | .poll m, .priPipe m' | .poll m, .selfDestruct m' | .poll m, .comeUp m' => decide (m = m')
  | _, _ => false

def request : Job → Option Request
  | .priPipe m => some (.fd m)
  | .selfDestruct m => some (.destruct m)
  | .comeUp m => some (.up m)
  | _ => none

def system : Monitor.System Tid Lock Cond Request Job where
  mutex
    | .addDelPipe m => .addDelPipeCv m
    | .adpThrInit m => .adpThrInitCv m
  server
    | .addDelPipe m => .poll m
    | .adpThrInit m => .poll m
  runs := runs
  request := request
  ops := Job.ops

end OfConnect.Locks.Programs
