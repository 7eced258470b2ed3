import OfConnect.Core.Consistency
import OfConnect.Lib.Bytes

/-!
# Datagrams

A controller has one UDP socket for all switches. `process_udpfd_pollin_func` tells them
apart by the address a datagram comes from: it looks for it among the `client_addr` of all
sockets and, where it finds none, enters a dummy socket with this address, a channel for it
and no manager. The address is stored as it came, in network byte order, and it is looked
for in host byte order. On a switch nothing is looked for, and every datagram counts as the
first one of its connection.

The host is little-endian. The callbacks run with the locks of the tables held and leave
the tables alone.
-/

namespace OfConnect.Udp.Demux

open OfConnect.Lib.Bytes OfConnect.Lib.Tables OfConnect.Lib.Run OfConnect.PollThr.Thread
open OfConnect.Core.State OfConnect.Core.Api OfConnect.Core.Effects OfConnect.Core.Consistency

def maxbuf : Nat := 4096

def maxOpenFiles : UInt32 := 1024 * 1024

def ntohl (x : UInt32) : UInt32 := UInt32.ofNat (leNat (leBytes 4 x.toNat).reverse)

def ntohs (x : UInt16) : UInt16 := UInt16.ofNat (leNat (leBytes 2 x.toNat).reverse)

/-- A source address in host byte order. -/
def hostAddr (src : SockAddr) : SockAddr := ⟨ntohl src.sAddr, ntohs src.sinPort⟩

/-- A call of one of the functions that the device was registered with. -/
inductive Callback where
  | accept (func : Nat) (ck : ChannelKey) (ipAddr : UInt32) (port : UInt16)
  | recv (func : Nat) (ck : ChannelKey) (buf : List UInt8)
  deriving DecidableEq, Repr

/-- The tables and the counter that dummy sockets are numbered by. -/
structure State where
  g : Global
  random : UInt32

/-- The walk over `ofrw_htbl`: the last socket with this client address. -/
def oldConn (g : Global) (src : SockAddr) : Option Fd :=
  findLastKey? (fun _ rwInfo => rwInfo.clientAddr == hostAddr src) g.ofrwHtbl

/-- `process_udpfd_pollin_func` from the lookup of the channel on. -/
def deliver (g : Global) (udpSockfd : Fd) (newConn : Bool) (src : SockAddr) (buf : List UInt8) :
    Global × List Callback :=
  match findOfchannKeyRwsocketLockfree g udpSockfd, g.ofrwHtbl.lookup udpSockfd with
  | some ck, some rwinfo =>
    match g.ofdevHtbl.lookup rwinfo.devKey with
    | none => (g, [])
    | some devinfo =>
      let accepts := if newConn then
        [.accept devinfo.callbacks.acceptChannFunc ck (ntohl src.sAddr) (ntohs src.sinPort)] else []
      let recvs := [.recv devinfo.callbacks.recvFunc ck buf]
      match g.ofdevType with
      | .switch => (g, accepts ++ recvs)
      | .controller =>
        let g := if newConn then (setRwUp g udpSockfd).2 else g
        if (g.ofrwHtbl.lookup udpSockfd).map RwInfo.state = some .up then (g, accepts ++ recvs)
        else (g, accepts)
  | _, _ => (g, [])

/-- `process_udpfd_pollin_func` with a datagram that was read. -/
def processUdpfdPollinFunc (s : State) (udpSockfd : Fd) (src : SockAddr) (datagram : List UInt8) :
    Option (State × List Callback) :=
  let buf := datagram.take maxbuf
  if buf = [] then some (s, [])
  else
    match s.g.ofdevType with
    | .switch =>
      let r := deliver s.g udpSockfd true src buf
      some ({ s with g := r.1 }, r.2)
    | .controller =>
      match oldConn s.g src with
      | some dummyUdpSockfd =>
        let r := deliver s.g dummyUdpSockfd false src buf
        some ({ s with g := r.1 }, r.2)
      | none =>
        let random := s.random + 1
        let dummyUdpSockfd := random.toInt32
        match s.g.ofrwHtbl.lookup udpSockfd with
        | none => some ({ s with random := random }, [])
        | some tmpRwinfo =>
          (atomicAddUpdHtblsWithRwsocketLockfree s.g dummyUdpSockfd src none tmpRwinfo.devKey .udp
            (dummyKey dummyUdpSockfd)).map fun a =>
              let r := deliver a.2 dummyUdpSockfd true src buf
              (⟨r.1, random⟩, r.2)

/-- `udp_open_serverfd` from the bound socket on. -/
def udpOpenServerfd (g : Global) (key : DevKey) (serverfd : Fd) (block : SockAddr) :
    Option (Ret × Global) :=
  if serverfd < 0 then some (-1, g)
  else (ccAddSockfdRwPollthrSafe g serverfd key .udp (dummyKey serverfd) block).map fun r =>
    if r.1 < 0 then r else (serverfd.toInt, r.2)

/-! ## What is asked of it -/

/-- A datagram that was handled, with the tables before and after it. -/
structure Handled where
  src : SockAddr
  datagram : List UInt8
  before : Global
  after : Global
  calls : List Callback

/-- The keys that `accept_chann_func` was called with. -/
def accepted (calls : List Callback) : List ChannelKey :=
  calls.filterMap fun
    | .accept _ ck _ _ => some ck
    | .recv _ _ _ => none

/-- What was delivered to `recv_func`, and on which channel. -/
def delivered (calls : List Callback) : List (ChannelKey × List UInt8) :=
  calls.filterMap fun
    | .accept _ _ _ _ => none
    | .recv _ ck buf => some (ck, buf)

/-- The first datagram of a source: one dummy socket and one channel for it, announced
once, and the datagram delivered on it. -/
structure First (e : Handled) (fd : Fd) : Prop where
  freshSocket : fd ∉ e.before.ofrwHtbl
  freshChannel : dummyKey fd ∉ e.before.ofchannelHtbl
  ofrw : ∀ f, f ∈ e.after.ofrwHtbl ↔ f = fd ∨ f ∈ e.before.ofrwHtbl
  ofchannel : ∀ k, k ∈ e.after.ofchannelHtbl ↔ k = dummyKey fd ∨ k ∈ e.before.ofchannelHtbl
  ofdev : ∀ k, k ∈ e.after.ofdevHtbl ↔ k ∈ e.before.ofdevHtbl
  accepts : accepted e.calls = [dummyKey fd]
  delivers : delivered e.calls = [(dummyKey fd, e.datagram.take maxbuf)]

/-- A later one: the keys of the tables stay, nothing is announced, and it is delivered on
the channel `ck`. -/
structure Later (e : Handled) (ck : ChannelKey) : Prop where
  ofrw : ∀ f, f ∈ e.after.ofrwHtbl ↔ f ∈ e.before.ofrwHtbl
  ofchannel : ∀ k, k ∈ e.after.ofchannelHtbl ↔ k ∈ e.before.ofchannelHtbl
  ofdev : ∀ k, k ∈ e.after.ofdevHtbl ↔ k ∈ e.before.ofdevHtbl
  accepts : accepted e.calls = []
  delivers : delivered e.calls = [(ck, e.datagram.take maxbuf)]

/-- A datagram with the ones handled before it, on a controller. -/
def Demultiplexed (earlier : List Handled) (e : Handled) : Prop :=
  e.datagram ≠ [] →
    ((∀ e' ∈ earlier, e'.datagram ≠ [] → e'.src ≠ e.src) → ∃ fd, First e fd) ∧
    (∀ e' ∈ earlier, e'.datagram ≠ [] → e'.src = e.src →
      ∃ ck buf, delivered e'.calls = [(ck, buf)] ∧ Later e ck) ∧
    ∀ e' ∈ earlier, e'.src ≠ e.src → ∀ p ∈ delivered e'.calls, ∀ q ∈ delivered e.calls, p.1 ≠ q.1

/-! ## Runs -/

structure Sys where
  st : State
  log : List Handled

structure Datagram where
  src : SockAddr
  data : List UInt8
  deriving DecidableEq, Repr

def start (g : Global) (random : UInt32) : Sys := ⟨⟨g, random⟩, []⟩

def step (udpSockfd : Fd) (s : Sys) (d : Datagram) : Option Sys :=
  (processUdpfdPollinFunc s.st udpSockfd d.src d.data).map fun r =>
    ⟨r.1, s.log ++ [⟨d.src, d.data, s.st.g, r.1.g, r.2⟩]⟩

def DemuxOk (s : Sys) : Prop :=
  match s.st.g.ofdevType with
  | .controller => Justified Demultiplexed s.log
  | .switch => ∀ e ∈ s.log, accepted e.calls = []

/-- The channel, the entry and the device of the socket are there. -/
def Deliverable (g : Global) (udpSockfd : Fd) : Prop :=
  (∃ ck, Names g ck udpSockfd) ∧
    ∃ rwinfo, g.ofrwHtbl.lookup udpSockfd = some rwinfo ∧ rwinfo.devKey ∈ g.ofdevHtbl

/-- A dummy socket has this client address. -/
def Known (g : Global) (src : SockAddr) : Prop :=
  ∃ fd info, g.ofrwHtbl.lookup fd = some info ∧ info.thrMgr = none ∧ info.clientAddr = src

/-- On a controller: a source with a dummy socket reads the same in both byte orders, and no
socket with a manager has it for a `client_addr`; the byte-swapped address of a source
without one is nowhere in the table, and the next number and its key are not in use. On a
switch the datagram cannot be delivered. -/
def Recognisable (udpSockfd : Fd) (s : Sys) (d : Datagram) : Prop :=
  d.data ≠ [] →
    match s.st.g.ofdevType with
    | .controller =>
      (Known s.st.g d.src → hostAddr d.src = d.src ∧
        ∀ fd info, s.st.g.ofrwHtbl.lookup fd = some info → info.clientAddr = d.src →
          info.thrMgr = none) ∧
      (¬Known s.st.g d.src →
        (∀ fd info, s.st.g.ofrwHtbl.lookup fd = some info → info.clientAddr ≠ hostAddr d.src) ∧
        (s.st.random + 1).toInt32 ∉ s.st.g.ofrwHtbl ∧
        dummyKey (s.st.random + 1).toInt32 ∉ s.st.g.ofchannelHtbl)
    | .switch => ¬Deliverable s.st.g udpSockfd

/-! ## Finding the connection -/

theorem oldConn_some {g : Global} {src : SockAddr} {fd : Fd} (h : oldConn g src = some fd) :
    ∃ info, g.ofrwHtbl.lookup fd = some info ∧ info.clientAddr = hostAddr src := by
  obtain ⟨info, hl, hp⟩ := findLastKey?_some h
  exact ⟨info, hl, by simpa using hp⟩

theorem oldConn_eq_none_iff {g : Global} {src : SockAddr} :
    oldConn g src = none ↔
      ∀ fd info, g.ofrwHtbl.lookup fd = some info → info.clientAddr ≠ hostAddr src := by
  unfold oldConn
  rw [findLastKey?_eq_none_iff]
  simp

/-- The one channel that names a socket is found by it. -/
theorem findOfchannKey_of_named {g : Global} {fd : Fd} {ck : ChannelKey}
    (h : ∀ k, Names g k fd ↔ k = ck) : findOfchannKeyRwsocketLockfree g fd = some ck := by
  obtain ⟨info, hl, hfd⟩ := (h ck).mpr rfl
  obtain ⟨k, hk⟩ := findKey?_isSome (p := fun _ info => info.rwSockfd == fd) hl (by simpa using hfd)
  obtain ⟨info', hl', hp⟩ := findKey?_some hk
  have hname : Names g k fd := ⟨info', hl', by simpa using hp⟩
  rw [← (h k).mp hname]
  exact hk

/-- A dummy socket: its channel is the one it was given, its device is registered, and it
is up for data. -/
structure Dummy (g : Global) (fd : Fd) (info : RwInfo) : Prop where
  entry : g.ofrwHtbl.lookup fd = some info
  unmanaged : info.thrMgr = none
  up : info.state = .up
  device : info.devKey ∈ g.ofdevHtbl
  named : ∀ ck, Names g ck fd ↔ ck = dummyKey fd

/-- On a connection that is known a datagram is delivered and nothing else happens. -/
theorem deliver_old {g : Global} {fd : Fd} {info : RwInfo} (h : Dummy g fd info)
    (htype : g.ofdevType = .controller) (src : SockAddr) (buf : List UInt8) :
    (deliver g fd false src buf).1 = g ∧
    accepted (deliver g fd false src buf).2 = [] ∧
    delivered (deliver g fd false src buf).2 = [(dummyKey fd, buf)] := by
  obtain ⟨dev, hdev⟩ := mem_iff_lookup.mp h.device
  unfold deliver
  simp [findOfchannKey_of_named h.named, h.entry, hdev, htype, h.up, accepted, delivered]

/-- On a new one the channel is announced first, and the entry set to `UP`. -/
theorem deliver_new {g : Global} {fd : Fd} {info : RwInfo} (hl : g.ofrwHtbl.lookup fd = some info)
    (hdev : info.devKey ∈ g.ofdevHtbl) (hname : ∀ ck, Names g ck fd ↔ ck = dummyKey fd)
    (htype : g.ofdevType = .controller) (src : SockAddr) (buf : List UInt8) :
    (deliver g fd true src buf).1 =
      { g with ofrwHtbl := g.ofrwHtbl.insert fd { info with state := .up } } ∧
    accepted (deliver g fd true src buf).2 = [dummyKey fd] ∧
    delivered (deliver g fd true src buf).2 = [(dummyKey fd, buf)] := by
  obtain ⟨dev, hdev⟩ := mem_iff_lookup.mp hdev
  unfold deliver
  simp [findOfchannKey_of_named hname, hl, hdev, htype, setRwUp_of_entry hl, accepted, delivered]

/-! ## A controller -/

/-- The UDP socket of a controller before the first datagram: it is entered, its device is
registered, and no socket is a dummy. -/
structure Server (g : Global) (udpSockfd : Fd) : Prop where
  consistent : Consistent g
  entered : udpSockfd ∈ g.ofrwHtbl
  managed : ∀ fd info, g.ofrwHtbl.lookup fd = some info → info.thrMgr ≠ none

/-- `udp_open_serverfd` leaves such a socket. -/
theorem server_of_open {g g' : Global} {key : DevKey} {fd : Fd} {block : SockAddr} {ret : Ret}
    (h : Consistent g) (htype : g.ofdevType = .controller)
    (hman : ∀ f info, g.ofrwHtbl.lookup f = some info → info.thrMgr ≠ none)
    (hfd : fd ∉ g.ofrwHtbl) (hck : dummyKey fd ∉ g.ofchannelHtbl)
    (hopen : udpOpenServerfd g key fd block = some (ret, g')) (hret : 0 ≤ ret) :
    Server g' fd := by
  unfold udpOpenServerfd at hopen
  split at hopen
  · obtain ⟨rfl, -⟩ := Prod.mk.inj (Option.some.inj hopen)
    exact absurd hret (by decide)
  · obtain ⟨⟨r, g₁⟩, hr, hopen⟩ := Option.map_eq_some_iff.mp hopen
    rcases addSockfd_cases hr with ⟨rfl, -⟩ | ⟨dev, m, rfl, ha⟩
    · rw [if_pos (show ccOfEinval < 0 by decide)] at hopen
      obtain ⟨rfl, -⟩ := Prod.mk.inj hopen
      exact absurd hret (by decide)
    · rw [if_neg (show ¬ccOfOk < 0 by decide)] at hopen
      obtain ⟨-, rfl⟩ := Prod.mk.inj hopen
      refine ⟨consistent_added h hfd (by rw [htype]; exact hck) ha, ha.mem_iff.mpr (.inl rfl),
        fun f info hl => ?_⟩
      rw [ha.ofrw] at hl
      split at hl
      · obtain rfl := Option.some.inj hl
        nofun
      · exact hman f info hl

/-- Every source that was heard has a dummy socket of its own. -/
structure Clients (udpSockfd : Fd) (s : Sys) : Prop where
  type : s.st.g.ofdevType = .controller
  server : ∃ info, s.st.g.ofrwHtbl.lookup udpSockfd = some info ∧ info.devKey ∈ s.st.g.ofdevHtbl
  names : ∀ ck fd, Names s.st.g ck fd → fd ∈ s.st.g.ofrwHtbl
  dummy : ∀ fd info, s.st.g.ofrwHtbl.lookup fd = some info → info.thrMgr = none →
    Dummy s.st.g fd info ∧ ∃ e ∈ s.log, e.datagram ≠ [] ∧ e.src = info.clientAddr
  one : ∀ fd fd' info info', Dummy s.st.g fd info → Dummy s.st.g fd' info' →
    info.clientAddr = info'.clientAddr → fd = fd'
  heard : ∀ e ∈ s.log, e.datagram ≠ [] → ∃ fd info buf, Dummy s.st.g fd info ∧
    info.clientAddr = e.src ∧ delivered e.calls = [(dummyKey fd, buf)]
  silent : ∀ e ∈ s.log, e.datagram = [] → delivered e.calls = []

/-- One more datagram is handled, and if it is empty, nothing is delivered. -/
theorem Clients.silent_snoc {udpSockfd : Fd} {s : Sys} (h : Clients udpSockfd s) {e : Handled}
    (hnew : e.datagram = [] → delivered e.calls = []) :
    ∀ e' ∈ s.log ++ [e], e'.datagram = [] → delivered e'.calls = [] := by
  intro e' he' hempty
  rcases List.mem_append.mp he' with he' | he'
  · exact h.silent e' he' hempty
  · obtain rfl := List.mem_singleton.mp he'
    exact hnew hempty

/-- Sources with sockets of their own are delivered on channels of their own. -/
theorem Clients.keys_differ {udpSockfd : Fd} {s : Sys} (h : Clients udpSockfd s) {fd : Fd}
    {info : RwInfo} (hd : Dummy s.st.g fd info) {e : Handled} (he : e ∈ s.log)
    (hne : e.src ≠ info.clientAddr) :
    ∀ p ∈ delivered e.calls, p.1 ≠ dummyKey fd := by
  intro p hp
  by_cases hempty : e.datagram = []
  · rw [h.silent e he hempty] at hp
    cases hp
  · obtain ⟨fd', info', buf, hd', hsrc, hcalls⟩ := h.heard e he hempty
    rw [hcalls] at hp
    rw [List.mem_singleton.mp hp]
    intro hkey
    obtain rfl := dummyKey_injective hkey
    have hinfo := hd.entry
    rw [hd'.entry] at hinfo
    obtain rfl := Option.some.inj hinfo
    exact hne hsrc.symm

theorem clients_empty {udpSockfd : Fd} {s : Sys} (h : Clients udpSockfd s) (src : SockAddr) :
    Clients udpSockfd { s with log := s.log ++ [⟨src, [], s.st.g, s.st.g, []⟩] } := by
  refine ⟨h.type, h.server, h.names, fun fd info hl hthr => ?_, h.one, fun e he hne => ?_,
    fun e he hempty => ?_⟩
  · obtain ⟨hd, e, he, hcase⟩ := h.dummy fd info hl hthr
    exact ⟨hd, e, List.mem_append_left _ he, hcase⟩
  · rcases List.mem_append.mp he with he | he
    · exact h.heard e he hne
    · rw [List.mem_singleton.mp he] at hne
      exact absurd rfl hne
  · exact h.silent_snoc (fun _ => rfl) e he hempty

/-! ### A source that was heard before -/

section

variable {udpSockfd : Fd} {s : Sys} {d : Datagram}

/-- A dummy socket of the source is found. -/
theorem Clients.known (h : Clients udpSockfd s) (hhost : hostAddr d.src = d.src)
    (hun : ∀ fd info, s.st.g.ofrwHtbl.lookup fd = some info → info.clientAddr = d.src →
      info.thrMgr = none) (hk : Known s.st.g d.src) :
    ∃ fd info, oldConn s.st.g d.src = some fd ∧ Dummy s.st.g fd info ∧
      info.clientAddr = d.src := by
  cases hold : oldConn s.st.g d.src with
  | none =>
    obtain ⟨fd, info, hl, -, haddr⟩ := hk
    exact absurd (haddr.trans hhost.symm) (oldConn_eq_none_iff.mp hold fd info hl)
  | some fd =>
    obtain ⟨info, hl, haddr⟩ := oldConn_some hold
    rw [hhost] at haddr
    exact ⟨fd, info, rfl, (h.dummy fd info hl (hun fd info hl haddr)).1, haddr⟩

theorem clients_old (h : Clients udpSockfd s) {fd : Fd} {info : RwInfo}
    (hd : Dummy s.st.g fd info) (haddr : info.clientAddr = d.src) {calls : List Callback}
    {buf : List UInt8} (hcalls : delivered calls = [(dummyKey fd, buf)]) (hdata : d.data ≠ []) :
    Clients udpSockfd { s with log := s.log ++ [⟨d.src, d.data, s.st.g, s.st.g, calls⟩] } := by
  refine ⟨h.type, h.server, h.names, fun f i hl hthr => ?_, h.one, fun e he hne => ?_,
    fun e he hempty => ?_⟩
  · obtain ⟨hd, e, he, hcase⟩ := h.dummy f i hl hthr
    exact ⟨hd, e, List.mem_append_left _ he, hcase⟩
  · rcases List.mem_append.mp he with he | he
    · exact h.heard e he hne
    · rw [List.mem_singleton.mp he]
      exact ⟨fd, info, buf, hd, haddr, hcalls⟩
  · exact h.silent_snoc (fun hempty => absurd hempty hdata) e he hempty

theorem demultiplexed_old (h : Clients udpSockfd s) {fd : Fd} {info : RwInfo}
    (hd : Dummy s.st.g fd info) (haddr : info.clientAddr = d.src) {calls : List Callback}
    (haccept : accepted calls = [])
    (hcalls : delivered calls = [(dummyKey fd, d.data.take maxbuf)]) :
    Demultiplexed s.log ⟨d.src, d.data, s.st.g, s.st.g, calls⟩ := by
  refine fun _ => ⟨fun hfirst => ?_, fun e he hne hsrc => ?_, fun e he hsrc p hp q hq => ?_⟩
  · obtain ⟨e, he, hne, hsrc⟩ := (h.dummy fd info hd.entry hd.unmanaged).2
    exact absurd (hsrc.trans haddr) (hfirst e he hne)
  · obtain ⟨fd', info', buf, hd', haddr', hcalls'⟩ := h.heard e he hne
    obtain rfl := h.one fd' fd info' info hd' hd (haddr'.trans (hsrc.trans haddr.symm))
    exact ⟨_, buf, hcalls', fun _ => Iff.rfl, fun _ => Iff.rfl, fun _ => Iff.rfl, haccept, hcalls⟩
  · rw [show delivered _ = _ from hcalls] at hq
    rw [List.mem_singleton.mp hq]
    exact h.keys_differ hd he (haddr.symm ▸ hsrc) p hp

end

/-! ### A new source -/

/-- The tables after a dummy socket was entered and announced. -/
structure Opened (g g' : Global) (fd : Fd) (info : RwInfo) : Prop where
  type : g'.ofdevType = g.ofdevType
  ofrw : ∀ f, g'.ofrwHtbl.lookup f = if f = fd then some info else g.ofrwHtbl.lookup f
  names : ∀ ck f, Names g' ck f ↔ if ck = dummyKey fd then f = fd else Names g ck f
  ofchannel : ∀ k, k ∈ g'.ofchannelHtbl ↔ k = dummyKey fd ∨ k ∈ g.ofchannelHtbl
  ofdev : ∀ k, k ∈ g'.ofdevHtbl ↔ k ∈ g.ofdevHtbl

theorem Opened.mem_ofrw {g g' : Global} {fd : Fd} {info : RwInfo} (h : Opened g g' fd info)
    (f : Fd) : f ∈ g'.ofrwHtbl ↔ f = fd ∨ f ∈ g.ofrwHtbl := by
  rw [mem_iff_lookup, mem_iff_lookup, h.ofrw]
  by_cases hf : f = fd
  · simp [hf]
  · simp [hf]

theorem Opened.dummy {g g' : Global} {fd : Fd} {info : RwInfo} (h : Opened g g' fd info)
    (hfresh : fd ∉ g.ofrwHtbl) {f : Fd} {i : RwInfo} (hd : Dummy g f i) : Dummy g' f i := by
  have hne : f ≠ fd := fun hf => hfresh (hf ▸ mem_iff_lookup.mpr ⟨i, hd.entry⟩)
  refine ⟨?_, hd.unmanaged, hd.up, (h.ofdev _).mpr hd.device, fun ck => ?_⟩
  · rw [h.ofrw, if_neg hne]
    exact hd.entry
  · rw [h.names]
    split
    · rename_i hck
      rw [hck]
      exact iff_of_false hne fun heq => hne (dummyKey_injective heq).symm
    · exact hd.named ck

theorem pollin_new {g : Global} {random : UInt32} {udpSockfd : Fd} {d : Datagram} {info : RwInfo}
    (htype : g.ofdevType = .controller) (hserver : g.ofrwHtbl.lookup udpSockfd = some info)
    (hdev : info.devKey ∈ g.ofdevHtbl) (hnames : ∀ ck fd, Names g ck fd → fd ∈ g.ofrwHtbl)
    (hnew : oldConn g d.src = none) (hdata : d.data.take maxbuf ≠ [])
    (hfresh : (random + 1).toInt32 ∉ g.ofrwHtbl) :
    ∃ g' info' calls, processUdpfdPollinFunc ⟨g, random⟩ udpSockfd d.src d.data =
        some (⟨g', random + 1⟩, calls) ∧
      Opened g g' (random + 1).toInt32 info' ∧ Dummy g' (random + 1).toInt32 info' ∧
      info'.clientAddr = d.src ∧ accepted calls = [dummyKey (random + 1).toInt32] ∧
      delivered calls = [(dummyKey (random + 1).toInt32, d.data.take maxbuf)] := by
  obtain ⟨dev, hdev⟩ := mem_iff_lookup.mp hdev
  generalize hfd : (random + 1).toInt32 = fd at hfresh
  have hadd := atomicAdd_of_registered fd d.src none .udp (dummyKey fd) hdev
  generalize hg₁ : ({ g with
    ofrwHtbl := g.ofrwHtbl.insert fd ⟨.down, none, info.devKey, d.src, .udp⟩
    ofdevHtbl := g.ofdevHtbl.insert info.devKey
      { dev with ofrwSocketList := dev.ofrwSocketList ++ [fd] }
    ofchannelHtbl := g.ofchannelHtbl.insert (openKey g.ofdevType fd (dummyKey fd))
      ⟨fd, 0, 0, 0, 0⟩ } : Global) = g₁ at hadd
  have hl₁ : g₁.ofrwHtbl.lookup fd = some ⟨.down, none, info.devKey, d.src, .udp⟩ := by
    rw [← hg₁, lookup_insert_eq, if_pos rfl]
  have hdev₁ : ∀ k, k ∈ g₁.ofdevHtbl ↔ k ∈ g.ofdevHtbl := by
    intro k
    rw [← hg₁, AList.mem_insert]
    refine ⟨fun hk => hk.elim (fun hk => ?_) id, .inr⟩
    rw [hk]
    exact mem_iff_lookup.mpr ⟨dev, hdev⟩
  have htype₁ : g₁.ofdevType = g.ofdevType := by rw [← hg₁]
  have hch₁ : g₁.ofchannelHtbl = g.ofchannelHtbl.insert (dummyKey fd) ⟨fd, 0, 0, 0, 0⟩ := by
    rw [← hg₁, htype]
    rfl
  have hnames₁ : ∀ ck f, Names g₁ ck f ↔ if ck = dummyKey fd then f = fd else Names g ck f := by
    intro ck f
    unfold Names
    rw [hch₁, lookup_insert_eq]
    split
    · simp [eq_comm]
    · rfl
  have hname₁ : ∀ ck, Names g₁ ck fd ↔ ck = dummyKey fd := by
    intro ck
    rw [hnames₁]
    split
    · rename_i hck
      exact iff_of_true rfl hck
    · rename_i hck
      exact iff_of_false (fun hn => hfresh (hnames ck fd hn)) hck
  obtain ⟨hg', haccept, hdel⟩ := deliver_new hl₁
    ((hdev₁ _).mpr (mem_iff_lookup.mpr ⟨dev, hdev⟩)) hname₁ (htype₁.trans htype) d.src
    (d.data.take maxbuf)
  refine ⟨(deliver g₁ fd true d.src (d.data.take maxbuf)).1,
    ⟨.up, none, info.devKey, d.src, .udp⟩, _, ?_, ?_, ?_, rfl, haccept, hdel⟩
  · simp only [processUdpfdPollinFunc, if_neg hdata, htype, hnew, hserver, hfd, hadd,
      Option.map_some]
  · rw [hg']
    refine ⟨htype₁, fun f => ?_, hnames₁, fun k => ?_, hdev₁⟩
    · rw [lookup_insert_eq]
      by_cases hf : f = fd
      · rw [if_pos hf, if_pos hf]
      · rw [if_neg hf, if_neg hf, ← hg₁, lookup_insert_eq, if_neg hf]
    · show k ∈ g₁.ofchannelHtbl ↔ _
      rw [hch₁, AList.mem_insert]
  · rw [hg']
    refine ⟨?_, rfl, rfl, (hdev₁ _).mpr (mem_iff_lookup.mpr ⟨dev, hdev⟩), hname₁⟩
    rw [lookup_insert_eq, if_pos rfl]

section

variable {udpSockfd : Fd} {s : Sys} {d : Datagram} {g' : Global} {fd : Fd} {info : RwInfo}

theorem clients_opened (h : Clients udpSockfd s) (ho : Opened s.st.g g' fd info)
    (hd : Dummy g' fd info) (haddr : info.clientAddr = d.src) (hfresh : fd ∉ s.st.g.ofrwHtbl)
    (hnew : ¬Known s.st.g d.src)
    {calls : List Callback} {buf : List UInt8}
    (hcalls : delivered calls = [(dummyKey fd, buf)]) (hdata : d.data ≠ []) (random : UInt32) :
    Clients udpSockfd ⟨⟨g', random⟩, s.log ++ [⟨d.src, d.data, s.st.g, g', calls⟩]⟩ := by
  -- a dummy socket of the new tables is the new one, or was one before
  have hdummy : ∀ f i, Dummy g' f i → (f = fd ∧ i = info) ∨ Dummy s.st.g f i := by
    intro f i hf
    have hl := hf.entry
    rw [ho.ofrw] at hl
    split at hl
    · rename_i hfd
      exact .inl ⟨hfd, (Option.some.inj hl).symm⟩
    · exact .inr (h.dummy f i hl hf.unmanaged).1
  refine ⟨ho.type.trans h.type, ?_, fun ck f hn => ?_, fun f i hl hthr => ?_,
    fun f f' i i' hf hf' heq => ?_, fun e he hne => ?_, fun e he hempty => ?_⟩
  · obtain ⟨i, hl, hdev⟩ := h.server
    have hne : udpSockfd ≠ fd := fun hf => hfresh (hf ▸ mem_iff_lookup.mpr ⟨i, hl⟩)
    refine ⟨i, ?_, (ho.ofdev _).mpr hdev⟩
    show g'.ofrwHtbl.lookup udpSockfd = some i
    rw [ho.ofrw, if_neg hne]
    exact hl
  · have hn : Names g' ck f := hn
    rw [ho.names] at hn
    split at hn
    · exact (ho.mem_ofrw f).mpr (.inl hn)
    · exact (ho.mem_ofrw f).mpr (.inr (h.names ck f hn))
  · have hl : g'.ofrwHtbl.lookup f = some i := hl
    rw [ho.ofrw] at hl
    split at hl
    · rename_i hf
      obtain rfl := Option.some.inj hl
      rw [hf]
      exact ⟨hd, _, List.mem_append_right _ (List.mem_singleton_self _), hdata, haddr.symm⟩
    · obtain ⟨hd', e, he, hcase⟩ := h.dummy f i hl hthr
      exact ⟨ho.dummy hfresh hd', e, List.mem_append_left _ he, hcase⟩
  · rcases hdummy f i hf with ⟨rfl, rfl⟩ | hf
    · rcases hdummy f' i' hf' with ⟨rfl, -⟩ | hf'
      · rfl
      · exact absurd ⟨f', i', hf'.entry, hf'.unmanaged, heq.symm.trans haddr⟩ hnew
    · rcases hdummy f' i' hf' with ⟨rfl, rfl⟩ | hf'
      · exact absurd ⟨f, i, hf.entry, hf.unmanaged, heq.trans haddr⟩ hnew
      · exact h.one f f' i i' hf hf' heq
  · rcases List.mem_append.mp he with he | he
    · obtain ⟨f, i, b, hf, hcase⟩ := h.heard e he hne
      exact ⟨f, i, b, ho.dummy hfresh hf, hcase⟩
    · rw [List.mem_singleton.mp he]
      exact ⟨fd, info, buf, hd, haddr, hcalls⟩
  · exact h.silent_snoc (fun hempty => absurd hempty hdata) e he hempty

theorem demultiplexed_new (h : Clients udpSockfd s) (ho : Opened s.st.g g' fd info)
    (hfresh : fd ∉ s.st.g.ofrwHtbl) (hkey : dummyKey fd ∉ s.st.g.ofchannelHtbl)
    (hnew : ¬Known s.st.g d.src)
    {calls : List Callback} (haccept : accepted calls = [dummyKey fd])
    (hcalls : delivered calls = [(dummyKey fd, d.data.take maxbuf)]) :
    Demultiplexed s.log ⟨d.src, d.data, s.st.g, g', calls⟩ := by
  refine fun _ => ⟨fun _ => ⟨fd, hfresh, hkey, ho.mem_ofrw, ho.ofchannel, ho.ofdev, haccept, hcalls⟩,
    fun e he hne hsrc => ?_, fun e he _ p hp q hq => ?_⟩
  · obtain ⟨f, i, -, hf, haddr, -⟩ := h.heard e he hne
    exact absurd ⟨f, i, hf.entry, hf.unmanaged, haddr.trans hsrc⟩ hnew
  · rw [show delivered _ = _ from hcalls] at hq
    rw [List.mem_singleton.mp hq]
    intro hpq
    by_cases hempty : e.datagram = []
    · rw [h.silent e he hempty] at hp
      cases hp
    · obtain ⟨f, i, b, hf, -, hdel⟩ := h.heard e he hempty
      rw [hdel] at hp
      rw [List.mem_singleton.mp hp] at hpq
      exact hfresh (dummyKey_injective hpq ▸ mem_iff_lookup.mpr ⟨i, hf.entry⟩)

/-- One datagram. -/
theorem clients_step {s' : Sys} (h : Clients udpSockfd s) (hj : Justified Demultiplexed s.log)
    (hok : Recognisable udpSockfd s d) (hs : step udpSockfd s d = some s') :
    Clients udpSockfd s' ∧ Justified Demultiplexed s'.log := by
  obtain ⟨r, hr, rfl⟩ := Option.map_eq_some_iff.mp hs
  obtain ⟨src, data⟩ := d
  by_cases hdata : data = []
  · subst hdata
    rw [show processUdpfdPollinFunc s.st udpSockfd src [] = some (s.st, []) from rfl] at hr
    obtain rfl := Option.some.inj hr
    exact ⟨clients_empty h src, hj.snoc fun hne => absurd rfl hne⟩
  · have hbuf : data.take maxbuf ≠ [] := by
      simp [maxbuf, hdata]
    have hok := hok hdata
    rw [h.type] at hok
    by_cases hk : Known s.st.g src
    · obtain ⟨hhost, hun⟩ := hok.1 hk
      obtain ⟨fd, info, hold, hd, haddr⟩ := h.known (d := ⟨src, data⟩) hhost hun hk
      obtain ⟨hsame, haccept, hdel⟩ := deliver_old hd h.type src (data.take maxbuf)
      simp only [processUdpfdPollinFunc, if_neg hbuf, h.type, hold, hsame] at hr
      obtain rfl := Option.some.inj hr
      exact ⟨clients_old (d := ⟨src, data⟩) h hd haddr hdel hdata,
        hj.snoc (demultiplexed_old (d := ⟨src, data⟩) h hd haddr haccept hdel)⟩
    · obtain ⟨hnone, hfresh, hkey⟩ := hok.2 hk
      have hold := oldConn_eq_none_iff.mpr hnone
      obtain ⟨info, hl, hdev⟩ := h.server
      obtain ⟨g', info', calls, hpollin, ho, hd, haddr, haccept, hdel⟩ :=
        pollin_new (d := ⟨src, data⟩) h.type hl hdev h.names hold hbuf hfresh
      rw [show processUdpfdPollinFunc s.st udpSockfd src data = _ from hpollin] at hr
      obtain rfl := Option.some.inj hr
      exact ⟨clients_opened (d := ⟨src, data⟩) h ho hd haddr hfresh hk hdel hdata _,
        hj.snoc (demultiplexed_new (d := ⟨src, data⟩) h ho hfresh hkey hk haccept hdel)⟩

end

/-! ## A switch -/

/-- Without a channel, an entry or a device nothing is called. -/
theorem deliver_undeliverable {g : Global} {fd : Fd} (h : ¬Deliverable g fd) (newConn : Bool)
    (src : SockAddr) (buf : List UInt8) : deliver g fd newConn src buf = (g, []) := by
  unfold deliver
  split
  · rename_i ck rwinfo hfind hl
    split
    · rfl
    · rename_i dev hdev
      obtain ⟨info, hch, hfd⟩ := findKey?_some hfind
      exact absurd ⟨⟨ck, info, hch, by simpa using hfd⟩, rwinfo, hl,
        mem_iff_lookup.mpr ⟨dev, hdev⟩⟩ h
  · rfl

theorem switch_step {udpSockfd : Fd} {s s' : Sys} {d : Datagram}
    (htype : s.st.g.ofdevType = .switch) (h : ∀ e ∈ s.log, accepted e.calls = [])
    (hok : Recognisable udpSockfd s d) (hs : step udpSockfd s d = some s') :
    s'.st.g.ofdevType = .switch ∧ ∀ e ∈ s'.log, accepted e.calls = [] := by
  obtain ⟨r, hr, rfl⟩ := Option.map_eq_some_iff.mp hs
  have hquiet : r = (s.st, []) := by
    unfold processUdpfdPollinFunc at hr
    dsimp only at hr
    split at hr
    · exact (Option.some.inj hr).symm
    · rename_i hbuf
      have hok := hok fun hempty => hbuf (by rw [hempty]; rfl)
      rw [htype] at hok hr
      rw [deliver_undeliverable hok] at hr
      exact (Option.some.inj hr).symm
  rw [hquiet]
  refine ⟨htype, fun e he => ?_⟩
  rcases List.mem_append.mp he with he | he
  · exact h e he
  · rw [List.mem_singleton.mp he]
    rfl

/-! ## Both -/

def Inv (udpSockfd : Fd) (s : Sys) : Prop :=
  match s.st.g.ofdevType with
  | .controller => Clients udpSockfd s ∧ Justified Demultiplexed s.log
  | .switch => ∀ e ∈ s.log, accepted e.calls = []

theorem inv_step {udpSockfd : Fd} {s s' : Sys} {d : Datagram} (h : Inv udpSockfd s)
    (hok : Recognisable udpSockfd s d) (hs : step udpSockfd s d = some s') : Inv udpSockfd s' := by
  unfold Inv at h
  cases htype : s.st.g.ofdevType with
  | controller =>
    rw [htype] at h
    have hs' := clients_step h.1 h.2 hok hs
    unfold Inv
    rw [hs'.1.type]
    exact hs'
  | switch =>
    rw [htype] at h
    obtain ⟨htype', hlog⟩ := switch_step htype h hok hs
    unfold Inv
    rw [htype']
    exact hlog

theorem inv_start {g : Global} {udpSockfd : Fd} (random : UInt32)
    (hserver : g.ofdevType = .controller → Server g udpSockfd) : Inv udpSockfd (start g random) := by
  unfold Inv
  cases htype : g.ofdevType with
  | controller =>
    rw [show (start g random).st.g.ofdevType = _ from htype]
    have hsrv := hserver htype
    obtain ⟨info, hl⟩ := mem_iff_lookup.mp hsrv.entered
    obtain ⟨dev, hdev, -⟩ := hsrv.consistent.socket_listed udpSockfd info hl
    have hnone : ∀ fd i, ¬Dummy g fd i := fun fd i hd => hsrv.managed fd i hd.entry hd.unmanaged
    refine ⟨⟨htype, ⟨info, hl, mem_iff_lookup.mpr ⟨dev, hdev⟩⟩, hsrv.consistent.channel_socket,
      fun fd i hl hthr => ?_, fun fd fd' i i' hd => ?_, fun e he => ?_, fun e he => ?_⟩,
      justified_nil⟩
    · exact absurd hthr (hsrv.managed fd i hl)
    · exact absurd hd (hnone fd i)
    · cases he
    · cases he
  | switch =>
    rw [show (start g random).st.g.ofdevType = _ from htype]
    intro e he
    cases he

/-- A controller with a device and the UDP socket `7`. -/
def udpController : Option Global :=
  (ccOfDevRegister (ccOfLibInit .controller) ⟨1, 0, 6633⟩ 0 ⟨1, 2, 3⟩ 4).bind fun r =>
    (udpOpenServerfd r.2 ⟨1, 0, 6633⟩ 7 ⟨0, 0⟩).map Prod.snd

/-- A switch with a device and a UDP channel on the socket `7`. -/
def udpSwitch : Option Global :=
  (ccOfDevRegister (ccOfLibInit .switch) ⟨1, 2, 6633⟩ 0 ⟨1, 2, 3⟩ 0).bind fun r =>
    (ccOfCreateChannel r.2 ⟨1, 2, 6633⟩ ⟨5, 0⟩ .udp 7 ⟨0, 0⟩).map Prod.snd

theorem server_udpController {g : Global} (hg : udpController = some g) : Server g 7 := by
  obtain ⟨r, hr, hg⟩ := Option.bind_eq_some_iff.mp hg
  obtain ⟨q, hq, rfl⟩ := Option.map_eq_some_iff.mp hg
  have hsound : Sound r.2 := sound_devRegister (sound_libInit .controller) (by decide) hr
  obtain rfl := Option.some.inj hr
  have hempty : ∀ f, (ccOfLibInit .controller).ofrwHtbl.lookup f = none := fun _ => rfl
  refine server_of_open hsound.1 rfl (fun f info hl => ?_) (by decide) (by decide) hq ?_
  · cases hl.symm.trans (hempty f)
  · obtain rfl := Option.some.inj hq
    decide

/-- The condition on the entries of a table, entry by entry. -/
theorem forall_lookup_iff {K V : Type} [DecidableEq K] {t : Table K V} {P : K → V → Prop} :
    (∀ k v, t.lookup k = some v → P k v) ↔ ∀ e ∈ t.entries, P e.1 e.2 := by
  constructor
  · intro h e he
    exact h e.1 e.2 (lookup_eq_some_iff.mpr he)
  · intro h k v hl
    exact h ⟨k, v⟩ (lookup_eq_some_iff.mp hl)

theorem known_iff {g : Global} {src : SockAddr} :
    Known g src ↔ ∃ e ∈ g.ofrwHtbl.entries, e.2.thrMgr = none ∧ e.2.clientAddr = src := by
  constructor
  · rintro ⟨fd, info, hl, hcase⟩
    exact ⟨⟨fd, info⟩, lookup_eq_some_iff.mp hl, hcase⟩
  · rintro ⟨e, he, hcase⟩
    exact ⟨e.1, e.2, lookup_eq_some_iff.mpr he, hcase⟩

end OfConnect.Udp.Demux
