import OfConnect.Core.Effects

/-!
# Accepting connections next to reading and closing them

The listen thread runs `process_listenfd_pollin_func` and `tcp_accept`, the threads of the
pool run `process_tcpfd_pollin_func`, and application threads close channels and register
devices. A step is what a thread does between two points at which the others can come in:
a system call, a critical section under the table locks, or a message that another thread
has to handle. The tables are those of `Core.State`.

A thread that closes sockets keeps the table locks while it waits for the poll threads, so
that at most one such thread is under way, and no other critical section runs meanwhile.
Each accepted connection has a number, which no function of the library sees: descriptors
are used again after `close`.
-/

namespace OfConnect.Accept.System

open OfConnect.Lib.Tables OfConnect.PollThr.Thread OfConnect.Core.State OfConnect.Core.Api
open OfConnect.Core.Effects

abbrev ConnId := Nat

/-- The connection `tcp_accept` is working on. -/
structure Accepting where
  connfd : Fd
  conn : ConnId
  key : DevKey
  deriving DecidableEq, Repr

/-- Where the listen thread is. -/
inductive ListenPc where
  | poll
  | called (key : DevKey)
  | accepted (a : Accepting)
  | found (a : Accepting) (tmgr : MgrId)
  | entered (a : Accepting) (tmgr : MgrId)
  | added (a : Accepting)
  | announced (a : Accepting)
  deriving DecidableEq, Repr

/-- What a thread of the pool has read, before it takes the table locks. -/
structure Packet where
  fd : Fd
  conn : ConnId
  buf : List UInt8
  deriving DecidableEq, Repr

/-- A thread with the table locks: the sockets it has still to close, and the device it is
to remove then. -/
structure Closing where
  fds : List Fd
  device : Option DevKey
  deriving DecidableEq, Repr

/-- `recv` is the call of `recv_func`, with the connection that is open on the socket. -/
inductive Event where
  | read (conn : ConnId) (buf : List UInt8)
  | dropped (conn : ConnId) (buf : List UInt8)
  | recv (fd : Fd) (open? : Option ConnId) (conn : ConnId) (key : ChannelKey) (buf : List UInt8)
  | announced (conn : ConnId)
  | up (conn : ConnId)
  deriving DecidableEq, Repr

structure Sys where
  g : Global
  conns : Fd → Option ConnId
  nextConn : ConnId
  listen : ListenPc
  reading : MgrId → Option Packet
  closing : Option Closing
  log : List Event

def start : Sys where
  g := ccOfLibInit .controller
  conns := fun _ => none
  nextConn := 0
  listen := .poll
  reading := fun _ => none
  closing := none
  log := []

/-! ## The listen thread -/

/-- `process_listenfd_pollin_func` up to the call of `accept_conn`. -/
def listenfdPollin (s : Sys) (listenfd : Fd) : Option Sys :=
  match s.listen, s.closing with
  | .poll, none =>
    match findKey? (fun _ dev => dev.mainSockfdTcp == listenfd) s.g.ofdevHtbl with
    | none => some s
    | some key => some { s with listen := .called key }
  | _, _ => none

/-- `accept`: the kernel returns a descriptor that is not open, or an error. -/
def accept (s : Sys) (connfd : Fd) : Option Sys :=
  match s.listen with
  | .called key =>
    if connfd < 0 then some { s with listen := .poll }
    else if s.conns connfd = none then
      some { s with
        conns := Function.update s.conns connfd (some s.nextConn)
        nextConn := s.nextConn + 1
        listen := .accepted ⟨connfd, s.nextConn, key⟩ }
    else none
  | _ => none

def findThread (s : Sys) : Option Sys :=
  match s.listen with
  | .accepted a =>
    let f := ccFindOrCreateRwPollthrSafe s.g
    some { s with g := f.2, listen := .found a f.1 }
  | _ => none

/-- The critical section of `cc_add_sockfd_rw_pollthr_safe`, and the `close` in `tcp_accept`
after it failed. `channKey` is a local that is never set, `block` what `malloc` returned. -/
def enterTables (s : Sys) (channKey : ChannelKey) (block : SockAddr) : Option Sys :=
  match s.listen, s.closing with
  | .found a tmgr, none =>
    (atomicAddUpdHtblsWithRwsocketLockfree s.g a.connfd block (some tmgr) a.key .tcp channKey).bind
      fun r =>
        if r.1 < 0 then
          (ccDelSockfdRwPollthrLockfree r.2 (some tmgr) .addFd a.connfd).map fun d =>
            { s with g := d.2, conns := Function.update s.conns a.connfd none, listen := .poll }
        else some { s with g := r.2, listen := .entered a tmgr }
  | _, _ => none

/-- A thread handles messages between callbacks. A full manager sends it none. -/
def addToThread (s : Sys) : Option Sys :=
  match s.listen with
  | .entered a tmgr =>
    if s.reading tmgr = none ∨ (s.g.mgrs tmgr).numSockets.toUInt32 = (s.g.mgrs tmgr).maxSockets then
      (s.g.addDelFd tmgr .addFd a.connfd).map fun g => { s with g := g, listen := .added a }
    else none
  | _ => none

/-- The critical section with `accept_chann_func`. -/
def announce (s : Sys) : Option Sys :=
  match s.listen, s.closing with
  | .added a, none =>
    match s.g.ofdevHtbl.lookup a.key with
    | none =>
      some { s with conns := Function.update s.conns a.connfd none, listen := .poll }
    | some _ =>
      some { s with listen := .announced a, log := s.log ++ [.announced a.conn] }
  | _, _ => none

/-- The last critical section of `tcp_accept`. -/
def setUp (s : Sys) : Option Sys :=
  match s.listen, s.closing with
  | .announced a, none =>
    match s.g.ofrwHtbl.lookup a.connfd with
    | none => some { s with listen := .poll }
    | some _ =>
      some { s with
        g := (setRwUp s.g a.connfd).2
        listen := .poll
        log := s.log ++ [.up a.conn] }
  | _, _ => none

/-! ## The threads of the pool -/

def maxBuf : Nat := 4096

/-- `tcp_read` in `process_tcpfd_pollin_func`. On an error the function returns. -/
def tcpRead (s : Sys) (m : MgrId) (fd : Fd) (buf : List UInt8) : Option Sys :=
  if fd ∈ (s.g.mgrs m).fds ∧ s.reading m = none ∧ buf.length ≤ maxBuf then
    (s.conns fd).map fun c =>
      { s with
        reading := Function.update s.reading m (some ⟨fd, c, buf⟩)
        log := s.log ++ [.read c buf] }
  else none

/-- What the critical section of `process_tcpfd_pollin_func` does with a packet. A
connection that is not up yet gets its packets dropped by a controller. -/
def handle (s : Sys) (p : Packet) : Event :=
  match findOfchannKeyRwsocketLockfree s.g p.fd with
  | none => .dropped p.conn p.buf
  | some fdChannKey =>
    match s.g.ofrwHtbl.lookup p.fd with
    | none => .dropped p.conn p.buf
    | some rwinfo =>
      if s.g.ofdevType = .controller ∧ rwinfo.state ≠ .up then .dropped p.conn p.buf
      else
        match s.g.ofdevHtbl.lookup rwinfo.devKey with
        | none => .dropped p.conn p.buf
        | some _ => .recv p.fd (s.conns p.fd) p.conn fdChannKey p.buf

def deliver (s : Sys) (m : MgrId) : Option Sys :=
  match s.reading m, s.closing with
  | some p, none =>
    some { s with
      reading := Function.update s.reading m none
      log := s.log ++ [handle s p] }
  | _, _ => none

/-! ## Application threads -/

/-- `cc_of_destroy_channel` up to the call of `close_conn`. -/
def destroyChannel (s : Sys) (key : ChannelKey) : Option Sys :=
  match s.closing with
  | some _ => none
  | none =>
    match s.g.ofchannelHtbl.lookup key with
    | none => some s
    | some info =>
      match s.g.ofrwHtbl.lookup info.rwSockfd with
      | none => some s
      | some _ => some { s with closing := some ⟨[info.rwSockfd], none⟩ }

/-- `cc_of_dev_free` up to its walk over the sockets. -/
def devFree (s : Sys) (key : DevKey) : Option Sys :=
  match s.closing with
  | some _ => none
  | none =>
    if size s.g.ofdevHtbl = 1 then
      (s.g.ofdevHtbl.lookup key).map fun dev =>
        { s with closing := some ⟨dev.ofrwSocketList, some key⟩ }
    else none

/-- `tcp_close` of the next socket. Its thread acknowledges the `DELETE_FD` between two
callbacks. -/
def closeNext (s : Sys) : Option Sys :=
  match s.closing with
  | some ⟨fd :: fds, device⟩ =>
    match s.g.ofrwHtbl.lookup fd with
    | none => none
    | some rwinfo =>
      if rwinfo.thrMgr.bind s.reading = none then
        (ccDelSockfdRwPollthrLockfree s.g rwinfo.thrMgr .deleteFd fd).map fun r =>
          { s with
            g := r.2
            conns := if r.1 < (0 : Int) then s.conns else Function.update s.conns fd none
            closing := some ⟨fds, device⟩ }
      else none
  | _ => none

/-- The end of either call. For a device the listen thread acknowledges first that it has
left the listening socket, which it does between two callbacks. -/
def closeEnd (s : Sys) : Option Sys :=
  match s.closing with
  | some ⟨[], none⟩ => some { s with closing := none }
  | some ⟨[], some key⟩ =>
    match s.listen with
    | .poll =>
      (s.g.ofdevHtbl.lookup key).bind fun dev =>
        (adpThrMgrAddDelFd s.g.oflistenPollthr .deleteFd dev.mainSockfdTcp).map fun r =>
          { s with
            g := { s.g with
              oflistenPollthr := r.2
              ofdevHtbl := (updateGlobalHtblLockfree s.g.ofdevHtbl key .del).2.1 }
            closing := none }
    | _ => none
  | _ => none

def setReal (s : Sys) (dummyDpid : UInt64) (dummyAuxid : UInt8) (key : ChannelKey) : Option Sys :=
  match s.closing with
  | some _ => none
  | none => some { s with g := (ccOfSetRealDpidAuxid s.g dummyDpid dummyAuxid key).2 }

/-- `cc_of_dev_register` as one step: the listen thread acknowledges the new socket. -/
def devRegister (s : Sys) (key : DevKey) (maxOfver : Nat) (callbacks : Callbacks)
    (listenfd : Fd) : Option Sys :=
  match s.listen, s.closing with
  | .poll, none =>
    (ccOfDevRegister s.g key maxOfver callbacks listenfd).map fun r => { s with g := r.2 }
  | _, _ => none

inductive Act where
  | listenfdPollin (listenfd : Fd)
  | accept (connfd : Fd)
  | findThread
  | enterTables (channKey : ChannelKey) (block : SockAddr)
  | addToThread
  | announce
  | setUp
  | tcpRead (m : MgrId) (fd : Fd) (buf : List UInt8)
  | deliver (m : MgrId)
  | destroyChannel (key : ChannelKey)
  | devFree (key : DevKey)
  | closeNext
  | closeEnd
  | setReal (dummyDpid : UInt64) (dummyAuxid : UInt8) (key : ChannelKey)
  | devRegister (key : DevKey) (maxOfver : Nat) (callbacks : Callbacks) (listenfd : Fd)

def step (s : Sys) : Act → Option Sys
  | .listenfdPollin listenfd => listenfdPollin s listenfd
  | .accept connfd => accept s connfd
  | .findThread => findThread s
  | .enterTables channKey block => enterTables s channKey block
  | .addToThread => addToThread s
  | .announce => announce s
  | .setUp => setUp s
  | .tcpRead m fd buf => tcpRead s m fd buf
  | .deliver m => deliver s m
  | .destroyChannel key => destroyChannel s key
  | .devFree key => devFree s key
  | .closeNext => closeNext s
  | .closeEnd => closeEnd s
  | .setReal dummyDpid dummyAuxid key => setReal s dummyDpid dummyAuxid key
  | .devRegister key maxOfver callbacks listenfd => devRegister s key maxOfver callbacks listenfd

/-! ## What the steps of the listen thread and of the pool do -/

theorem listenfdPollin_cases {s s' : Sys} {fd : Fd} (hs : listenfdPollin s fd = some s') :
    s' = s ∨ ∃ key ∈ s.g.ofdevHtbl, s' = { s with listen := .called key } := by
  unfold listenfdPollin at hs
  split at hs
  · split at hs
    · exact .inl (Option.some.inj hs).symm
    · rename_i key hkey
      obtain ⟨dev, hdev, -⟩ := findKey?_some hkey
      exact .inr ⟨key, mem_iff_lookup.mpr ⟨dev, hdev⟩, (Option.some.inj hs).symm⟩
  · cases hs

theorem accept_cases {s s' : Sys} {connfd : Fd} (hs : accept s connfd = some s') :
    s' = { s with listen := .poll } ∨
    ∃ key, s.listen = .called key ∧ s.conns connfd = none ∧
      s' = { s with
        conns := Function.update s.conns connfd (some s.nextConn)
        nextConn := s.nextConn + 1
        listen := .accepted ⟨connfd, s.nextConn, key⟩ } := by
  unfold accept at hs
  split at hs
  · rename_i key hpc
    split at hs
    · exact .inl (Option.some.inj hs).symm
    · split at hs
      · rename_i hclosed
        exact .inr ⟨key, hpc, hclosed, (Option.some.inj hs).symm⟩
      · cases hs
  · cases hs

theorem findThread_cases {s s' : Sys} (hs : findThread s = some s') :
    ∃ a, s.listen = .accepted a ∧
      s' = { s with
        g := (ccFindOrCreateRwPollthrSafe s.g).2
        listen := .found a (ccFindOrCreateRwPollthrSafe s.g).1 } := by
  unfold findThread at hs
  split at hs
  · rename_i a hpc
    exact ⟨a, hpc, (Option.some.inj hs).symm⟩
  · cases hs

/-- For a registered device the socket is entered, and as down. -/
theorem enterTables_cases {s s' : Sys} {ck : ChannelKey} {block : SockAddr}
    (hs : enterTables s ck block = some s') :
    ∃ a m, s.listen = .found a m ∧ (a.key ∈ s.g.ofdevHtbl → ∃ dev : DevInfo,
      s' = { s with
        g := { s.g with
          ofrwHtbl := s.g.ofrwHtbl.insert a.connfd ⟨.down, some m, a.key, block, .tcp⟩
          ofdevHtbl := s.g.ofdevHtbl.insert a.key
            { dev with ofrwSocketList := dev.ofrwSocketList ++ [a.connfd] }
          ofchannelHtbl := s.g.ofchannelHtbl.insert (openKey s.g.ofdevType a.connfd ck)
            ⟨a.connfd, 0, 0, 0, 0⟩ }
        listen := .entered a m }) := by
  unfold enterTables at hs
  split at hs
  · rename_i a m hpc _
    refine ⟨a, m, hpc, fun hkey => ?_⟩
    obtain ⟨dev, hdev⟩ := mem_iff_lookup.mp hkey
    have hret : ¬ccOfOk < 0 := by decide
    simp only [atomicAdd_of_registered a.connfd block (some m) .tcp ck hdev, Option.bind_some,
      if_neg hret] at hs
    exact ⟨dev, (Option.some.inj hs).symm⟩
  · cases hs

theorem addToThread_cases {s s' : Sys} (hs : addToThread s = some s') :
    ∃ a m g, s.listen = .entered a m ∧ s.g.addDelFd m .addFd a.connfd = some g ∧
      s' = { s with g := g, listen := .added a } := by
  unfold addToThread at hs
  split at hs
  · rename_i a m hpc
    split at hs
    · obtain ⟨g, hg, rfl⟩ := Option.map_eq_some_iff.mp hs
      exact ⟨a, m, g, hpc, hg, rfl⟩
    · cases hs
  · cases hs

theorem announce_cases {s s' : Sys} (hs : announce s = some s') :
    ∃ a, s.listen = .added a ∧ (a.key ∈ s.g.ofdevHtbl →
      s' = { s with listen := .announced a, log := s.log ++ [.announced a.conn] }) := by
  unfold announce at hs
  split at hs
  · rename_i a hpc _
    refine ⟨a, hpc, fun hkey => ?_⟩
    obtain ⟨dev, hdev⟩ := mem_iff_lookup.mp hkey
    rw [hdev] at hs
    exact (Option.some.inj hs).symm
  · cases hs

theorem setUp_cases {s s' : Sys} (hs : setUp s = some s') :
    ∃ a, s.listen = .announced a ∧
      (s' = { s with listen := .poll } ∨
      ∃ info, s.g.ofrwHtbl.lookup a.connfd = some info ∧
        s' = { s with
          g := { s.g with ofrwHtbl := s.g.ofrwHtbl.insert a.connfd { info with state := .up } }
          listen := .poll
          log := s.log ++ [.up a.conn] }) := by
  unfold setUp at hs
  split at hs
  · rename_i a hpc _
    refine ⟨a, hpc, ?_⟩
    split at hs
    · exact .inl (Option.some.inj hs).symm
    · rename_i info hl
      rw [setRwUp_of_entry hl] at hs
      exact .inr ⟨info, hl, (Option.some.inj hs).symm⟩
  · cases hs

theorem tcpRead_cases {s s' : Sys} {m : MgrId} {fd : Fd} {buf : List UInt8}
    (hs : tcpRead s m fd buf = some s') :
    ∃ c, fd ∈ (s.g.mgrs m).fds ∧ s.reading m = none ∧ s.conns fd = some c ∧
      s' = { s with
        reading := Function.update s.reading m (some ⟨fd, c, buf⟩)
        log := s.log ++ [.read c buf] } := by
  unfold tcpRead at hs
  split at hs
  · rename_i hguard
    obtain ⟨c, hc, rfl⟩ := Option.map_eq_some_iff.mp hs
    exact ⟨c, hguard.1, hguard.2.1, hc, rfl⟩
  · cases hs

theorem deliver_cases {s s' : Sys} {m : MgrId} (hs : deliver s m = some s') :
    ∃ p, s.reading m = some p ∧
      s' = { s with
        reading := Function.update s.reading m none
        log := s.log ++ [handle s p] } := by
  unfold deliver at hs
  split at hs
  · rename_i p hp _
    exact ⟨p, hp, (Option.some.inj hs).symm⟩
  · cases hs

/-- A device record may be replaced by one without sockets. -/
theorem register_cases {s s' : Sys} {key : DevKey} {ver : Nat} {cb : Callbacks} {fd : Fd}
    (hs : devRegister s key ver cb fd = some s') :
    s' = s ∨ s.listen = .poll ∧ ∃ tbl t, (∀ k, k ∈ s.g.ofdevHtbl → k ∈ tbl) ∧
      s' = { s with g := { s.g with oflistenPollthr := t, ofdevHtbl := tbl } } := by
  unfold devRegister at hs
  split at hs
  · rename_i hpc _
    obtain ⟨⟨ret, g'⟩, hr, rfl⟩ := Option.map_eq_some_iff.mp hs
    rcases devRegister_cases hr with ⟨-, rfl⟩ | ⟨-, d, t, -, hg, hlook⟩
    · exact .inl rfl
    · generalize g'.ofdevHtbl = tbl at hg hlook
      subst hg
      refine .inr ⟨hpc, tbl, t, fun k hk => ?_, rfl⟩
      obtain ⟨dev, hd⟩ := mem_iff_lookup.mp hk
      rw [mem_iff_lookup, hlook]
      split
      · exact ⟨d, rfl⟩
      · exact ⟨dev, hd⟩
  · cases hs

end OfConnect.Accept.System
