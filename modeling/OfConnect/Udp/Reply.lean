import OfConnect.PollThr.Framing
import OfConnect.Udp.Demux

/-!
# Replies to datagrams

A packet for a switch that speaks UDP goes from `cc_of_send_pkt` through the data pipe of a
thread to `process_udpfd_pollout_func`, which is to send it to the address the switch was
heard from. `cc_of_send_pkt` asks `ofrw_htbl` for the thread of the socket of the channel,
and the dummy socket of a switch has none.
-/

namespace OfConnect.Udp.Reply

open OfConnect.Lib.Bytes OfConnect.Lib.Tables OfConnect.Lib.Run OfConnect.PollThr.Thread
open OfConnect.PollThr.Framing OfConnect.Core.State OfConnect.Core.Api OfConnect.Core.Effects
open OfConnect.Udp.Demux

/-- What `pollthr_data_pipe_process_func` puts into its hash table. Of the allocated block
it sets neither `dp_id` nor `aux_id`. -/
def sendMsgInfo (block : ChannelKey) (e : Extracted) : SendMsgInfo :=
  ⟨block.dpId, block.auxId, e.data⟩

/-- A call of `sendto`. -/
structure Sendto where
  sockfd : Fd
  buf : List UInt8
  destAddr : SockAddr
  deriving DecidableEq, Repr

/-- `process_udpfd_pollout_func`; `peername` is the answer of `getpeername`. -/
def processUdpfdPolloutFunc (g : Global) (udpSockfd : Fd) (peername : Option SockAddr)
    (sendMsg : SendMsgInfo) : Option Sendto :=
  let destAddr : Option SockAddr := match g.ofdevType with
    | .controller => (g.ofchannelHtbl.lookup ⟨sendMsg.dpId, sendMsg.auxId⟩).bind fun cinfo =>
        (g.ofrwHtbl.lookup cinfo.rwSockfd).map RwInfo.clientAddr
    | .switch => peername
  destAddr.map fun destAddr => ⟨udpSockfd, sendMsg.data, destAddr⟩

/-- What the memory on the way holds, and what the kernel answers. -/
structure Env where
  sendMsgBuf : Mem
  stack : Mem
  block : ChannelKey
  peername : Fd → Option SockAddr

/-- `cc_of_send_pkt` on a UDP channel and, with nothing else in the data pipe, what its thread
sends. The thread asserts that it polls the socket that the message is for. -/
def reply (env : Env) (g : Global) (ck : ChannelKey) (ofMsg : List UInt8) : Ret × Option Sendto :=
  let r := ccOfSendPkt g ck.dpId ck.auxId (some ofMsg)
  (r.1, r.2.bind fun p =>
    (dataPipeRead (sendRecord env.sendMsgBuf p.fd p.payload) env.stack).bind fun e =>
      if e.1.fd ∈ (g.mgrs p.tmgr).fds then
        processUdpfdPolloutFunc g e.1.fd (env.peername e.1.fd) (sendMsgInfo env.block e.1)
      else none)

/-- The packet is taken, and goes out on the UDP socket to this address. -/
def Replied (env : Env) (g : Global) (udpSockfd : Fd) (ck : ChannelKey) (ofMsg : List UInt8)
    (clientAddr : SockAddr) : Prop :=
  reply env g ck ofMsg = (ccOfOk, some ⟨udpSockfd, ofMsg, clientAddr⟩)

/-! ## Runs -/

/-- The tables and the sockets in them that datagrams have entered. -/
structure Sys where
  st : State
  clients : List Fd

inductive Act where
  | datagram (udpSockfd : Fd) (src : SockAddr) (data : List UInt8)
  | setReal (dummyDpid : UInt64) (dummyAuxid : UInt8) (ck : ChannelKey)
  | call (op : Core.Consistency.Op)

def start (g : Global) (random : UInt32) : Sys := ⟨⟨g, random⟩, []⟩

/-- A client is one until its socket leaves the table. -/
def step (s : Sys) : Act → Option Sys
  | .datagram udpSockfd src data =>
    (processUdpfdPollinFunc s.st udpSockfd src data).map fun r =>
      ⟨r.1, s.clients.filter (fun fd => fd ∈ r.1.g.ofrwHtbl) ++
        r.1.g.ofrwHtbl.keys.filter fun fd => fd ∉ s.st.g.ofrwHtbl⟩
  | .setReal dummyDpid dummyAuxid ck =>
    some { s with st.g := (ccOfSetRealDpidAuxid s.st.g dummyDpid dummyAuxid ck).2 }
  | .call op => (Core.Consistency.step s.st.g op).map fun g =>
      ⟨{ s.st with g := g }, s.clients.filter fun fd => fd ∈ g.ofrwHtbl⟩

/-- No client that datagrams have entered is ever replied to, whatever the key of its
channel and whatever the packet. -/
def NoReply (s : Sys) : Prop :=
  ∀ fd ∈ s.clients, ∀ info, s.st.g.ofrwHtbl.lookup fd = some info → ∀ ck, Names s.st.g ck fd →
    ∀ env udpSockfd ofMsg, ¬Replied env s.st.g udpSockfd ck ofMsg info.clientAddr

/-! ## Sockets without a thread -/

/-- The socket is entered without a manager. -/
def Unmanaged (g : Global) (fd : Fd) : Prop := findThrmgrRwsocketLockfree g fd = some none

theorem unmanaged_iff {g : Global} {fd : Fd} :
    Unmanaged g fd ↔ ∃ info, g.ofrwHtbl.lookup fd = some info ∧ info.thrMgr = none :=
  Option.map_eq_some_iff

theorem reply_unmanaged {g : Global} {fd : Fd} {ck : ChannelKey} (h : Unmanaged g fd)
    (hck : Names g ck fd) (env : Env) (ofMsg : List UInt8) :
    reply env g ck ofMsg = (ccOfEinval, none) := by
  obtain ⟨info, hl, rfl⟩ := hck
  have hsock : sendSocket g ck.dpId ck.auxId = some info.rwSockfd := by
    unfold sendSocket
    rw [hl]
    rfl
  have hsend : ccOfSendPkt g ck.dpId ck.auxId (some ofMsg) = (ccOfEinval, none) := by
    simp only [ccOfSendPkt, hsock, show findThrmgrRwsocketLockfree g info.rwSockfd = _ from h,
      Option.join_some]
  simp only [reply, hsend, Option.bind_none]

/-- Sockets leave the table and nothing else happens to it. -/
def OnlyRemoves (g g' : Global) : Prop :=
  ∀ f info, g'.ofrwHtbl.lookup f = some info → g.ofrwHtbl.lookup f = some info

theorem OnlyRemoves.trans {g₁ g₂ g₃ : Global} (h : OnlyRemoves g₁ g₂) (h' : OnlyRemoves g₂ g₃) :
    OnlyRemoves g₁ g₃ :=
  fun f info hl => h f info (h' f info hl)

theorem OnlyRemoves.unmanaged {g g' : Global} (h : OnlyRemoves g g') {fd : Fd}
    (hu : Unmanaged g fd) (hmem : fd ∈ g'.ofrwHtbl) : Unmanaged g' fd := by
  obtain ⟨info, hl⟩ := mem_iff_lookup.mp hmem
  obtain ⟨info', hl', hthr⟩ := unmanaged_iff.mp hu
  rw [h fd info hl] at hl'
  obtain rfl := Option.some.inj hl'
  exact unmanaged_iff.mpr ⟨info, hl, hthr⟩

theorem onlyRemoves_of_eq {g g' : Global} (h : g'.ofrwHtbl = g.ofrwHtbl) : OnlyRemoves g g' :=
  fun _ _ hl => h ▸ hl

theorem onlyRemoves_delSockfd {g : Global} {fd : Fd} {tmgr : Option MgrId} {r : Ret × Global}
    (h : ccDelSockfdRwPollthrLockfree g tmgr .deleteFd fd = some r) : OnlyRemoves g r.2 := by
  obtain ⟨r₁, hr, h⟩ := delSockfd_inversion h
  have hfirst : r₁.2.ofrwHtbl = g.ofrwHtbl := by rw [delFromMgr_frame hr]
  rcases h with ⟨-, rfl⟩ | ⟨info', d, -, hd, rfl⟩
  · exact onlyRemoves_of_eq hfirst
  · intro f info hl
    have hl : (delOfrwRwsocketLockfree d.2 fd).2.ofrwHtbl.lookup f = some info := hl
    rw [lookup_delOfrw, delOfdev_frame hd] at hl
    split at hl
    · cases hl
    · exact hfirst ▸ hl

theorem onlyRemoves_closeConn {g : Global} {proto : L4Type} {fd : Fd} {closeRet : Int}
    {r : Ret × Global} (h : closeConn g proto fd closeRet = some r) : OnlyRemoves g r.2 := by
  have hmap : ∀ tmgr, (ccDelSockfdRwPollthrLockfree g tmgr .deleteFd fd).map
      (fun r => if r.1 < 0 then r else (closeRet, r.2)) = some r → OnlyRemoves g r.2 := by
    intro tmgr hmap
    obtain ⟨r₁, hr, rfl⟩ := Option.map_eq_some_iff.mp hmap
    have hdel := onlyRemoves_delSockfd hr
    split
    · exact hdel
    · exact hdel
  cases proto with
  | tcp =>
    simp only [closeConn, tcpClose] at h
    split at h
    · obtain rfl := Option.some.inj h
      exact onlyRemoves_of_eq rfl
    · exact hmap _ h
  | udp => exact hmap _ h
  | tls => cases h
  | dtls => cases h

theorem onlyRemoves_closeSockets {closeRet : Fd → Int} (l : List Fd) {g g' : Global}
    (h : closeSockets closeRet l g = some g') : OnlyRemoves g g' := by
  induction l generalizing g with
  | nil =>
    obtain rfl := Option.some.inj h
    exact onlyRemoves_of_eq rfl
  | cons fd rest ih =>
    unfold closeSockets at h
    split at h
    · cases h
    · obtain ⟨r, hr, h⟩ := Option.bind_eq_some_iff.mp h
      exact (onlyRemoves_closeConn hr).trans (ih h)

theorem onlyRemoves_devFreeLockfree {g : Global} {key : DevKey} {closeRet : Fd → Int}
    {r : Ret × Global} (h : ccOfDevFreeLockfree g key closeRet = some r) : OnlyRemoves g r.2 := by
  unfold ccOfDevFreeLockfree at h
  split at h
  · cases h
  · obtain ⟨g₁, hw, h⟩ := Option.bind_eq_some_iff.mp h
    obtain ⟨t, -, rfl⟩ := Option.map_eq_some_iff.mp h
    exact (onlyRemoves_closeSockets _ hw).trans (onlyRemoves_of_eq rfl)

/-- A socket that is opened is not the one of a client. -/
theorem unmanaged_opens {g g' : Global} {fd : Fd} {key : DevKey} {ck : ChannelKey}
    (h : Opens g g' fd key ck) (hfd : fd ∉ g.ofrwHtbl) {f : Fd} (hu : Unmanaged g f) :
    Unmanaged g' f := by
  obtain ⟨info, hl, hthr⟩ := unmanaged_iff.mp hu
  have hne : f ≠ fd := fun heq => hfd (heq ▸ mem_iff_lookup.mpr ⟨info, hl⟩)
  refine unmanaged_iff.mpr ⟨info, ?_, hthr⟩
  rcases h with ⟨-, rfl⟩ | ⟨-, -, hr⟩ | ⟨dev, info', -, -, ha⟩
  · exact hl
  · rw [hr.ofrw, if_neg hne, hl]
  · rw [ha.ofrw, if_neg hne, hl]

/-- The other calls of the library give no manager to a socket that has none. -/
theorem unmanaged_call {g g' : Global} {op : Core.Consistency.Op}
    (h : Core.Consistency.step g op = some g') {f : Fd} (hu : Unmanaged g f)
    (hmem : f ∈ g'.ofrwHtbl) : Unmanaged g' f := by
  cases op with
  | devRegister key ver cb fd =>
    simp only [Core.Consistency.step] at h
    split at h
    · cases h
    · obtain ⟨r, hr, rfl⟩ := Option.map_eq_some_iff.mp h
      rcases devRegister_cases hr with ⟨-, hsame⟩ | ⟨-, d, t, -, hg, -⟩
      · exact hsame ▸ hu
      · exact (onlyRemoves_of_eq (by rw [hg])).unmanaged hu hmem
  | accept fd key ck block =>
    simp only [Core.Consistency.step] at h
    split at h
    · rename_i hg
      obtain ⟨r, hr, rfl⟩ := Option.map_eq_some_iff.mp h
      exact unmanaged_opens (accept_opens hr) hg.2.1 hu
    · cases h
  | createChannel key ck proto fd block =>
    simp only [Core.Consistency.step] at h
    split at h
    · rename_i hg
      obtain ⟨r, hr, rfl⟩ := Option.map_eq_some_iff.mp h
      exact unmanaged_opens (createChannel_opens hr) hg.2.1 hu
    · cases h
  | setReal fd ck =>
    simp only [Core.Consistency.step] at h
    split at h
    · obtain rfl := Option.some.inj h
      exact (onlyRemoves_of_eq (Core.Consistency.setReal_tables g _ _ ck).2.1).unmanaged hu hmem
    · cases h
  | destroyChannel ck closeRet =>
    obtain ⟨r, hr, rfl⟩ := Option.map_eq_some_iff.mp h
    rcases destroyChannel_cases hr with ⟨hsame, -⟩ | ⟨fd, info, -, -, hr⟩
    · exact hsame ▸ hu
    · exact (onlyRemoves_closeConn hr).unmanaged hu hmem
  | closeConn fd closeRet =>
    obtain ⟨info, -, h⟩ := Option.bind_eq_some_iff.mp h
    obtain ⟨r, hr, rfl⟩ := Option.map_eq_some_iff.mp h
    exact (onlyRemoves_closeConn hr).unmanaged hu hmem
  | devFree key closeRet =>
    obtain ⟨q, hq, rfl⟩ := Option.map_eq_some_iff.mp h
    unfold ccOfDevFree at hq
    split at hq
    · obtain ⟨r, hr, rfl⟩ := Option.map_eq_some_iff.mp hq
      exact ((onlyRemoves_devFreeLockfree hr).trans (onlyRemoves_of_eq rfl)).unmanaged hu hmem
    · cases hq
  | devfreeIter key closeRet =>
    obtain ⟨r, hr, rfl⟩ := Option.map_eq_some_iff.mp h
    have hfree := onlyRemoves_devFreeLockfree hr
    split at hmem
    · rename_i hneg
      rw [if_pos hneg]
      exact hfree.unmanaged hu hmem
    · rename_i hneg
      rw [if_neg hneg]
      exact (hfree.trans (onlyRemoves_of_eq rfl)).unmanaged hu hmem

/-! ## Datagrams -/

theorem unmanaged_setRwUp {g : Global} {fd f : Fd} (hu : Unmanaged g f) :
    Unmanaged (setRwUp g fd).2 f := by
  obtain ⟨info, hl, hthr⟩ := unmanaged_iff.mp hu
  cases hfd : g.ofrwHtbl.lookup fd with
  | none =>
    unfold setRwUp
    rw [hfd]
    exact hu
  | some info' =>
    rw [setRwUp_of_entry hfd, unmanaged_iff]
    by_cases hf : f = fd
    · rw [hf, hfd] at hl
      obtain rfl := Option.some.inj hl
      refine ⟨{ info' with state := .up }, ?_, hthr⟩
      rw [lookup_insert_eq, if_pos hf]
    · exact ⟨info, by rw [lookup_insert_eq, if_neg hf, hl], hthr⟩

theorem mem_setRwUp {g : Global} {fd f : Fd} :
    f ∈ (setRwUp g fd).2.ofrwHtbl ↔ f ∈ g.ofrwHtbl := by
  cases hfd : g.ofrwHtbl.lookup fd with
  | none =>
    unfold setRwUp
    rw [hfd]
  | some info =>
    rw [setRwUp_of_entry hfd, AList.mem_insert]
    exact ⟨fun hf => hf.elim (fun hf => hf ▸ mem_iff_lookup.mpr ⟨info, hfd⟩) id, .inr⟩

/-- What a call of the application does to the table: nothing, or a socket is set `UP`. -/
theorem deliver_cases (g : Global) (fd : Fd) (newConn : Bool) (src : SockAddr) (buf : List UInt8) :
    (deliver g fd newConn src buf).1 = g ∨
      (deliver g fd newConn src buf).1 = (setRwUp g fd).2 := by
  unfold deliver
  split
  · split
    · exact .inl rfl
    · dsimp only
      cases g.ofdevType with
      | switch => exact .inl rfl
      | controller =>
        cases newConn with
        | false =>
          refine .inl ?_
          simp only [Bool.false_eq_true, if_false]
          split
          · rfl
          · rfl
        | true =>
          refine .inr ?_
          simp only [if_true]
          split
          · rfl
          · rfl
  · exact .inl rfl

theorem unmanaged_deliver {g : Global} {f : Fd} (hu : Unmanaged g f) (fd : Fd) (newConn : Bool)
    (src : SockAddr) (buf : List UInt8) : Unmanaged (deliver g fd newConn src buf).1 f := by
  rcases deliver_cases g fd newConn src buf with h | h
  · rw [h]
    exact hu
  · rw [h]
    exact unmanaged_setRwUp hu

theorem mem_deliver {g : Global} {f fd : Fd} {newConn : Bool} {src : SockAddr} {buf : List UInt8} :
    f ∈ (deliver g fd newConn src buf).1.ofrwHtbl ↔ f ∈ g.ofrwHtbl := by
  rcases deliver_cases g fd newConn src buf with h | h
  · rw [h]
  · rw [h, mem_setRwUp]

/-- A socket entered without a manager, where its device is registered. -/
theorem atomicAdd_unmanaged {g : Global} {fd : Fd} {src : SockAddr} {key : DevKey}
    {ck : ChannelKey} {a : Ret × Global}
    (h : atomicAddUpdHtblsWithRwsocketLockfree g fd src none key .udp ck = some a) :
    (∀ f, f ≠ fd → a.2.ofrwHtbl.lookup f = g.ofrwHtbl.lookup f) ∧
      (fd ∈ a.2.ofrwHtbl → Unmanaged a.2 fd) := by
  cases hd : g.ofdevHtbl.lookup key with
  | none =>
    rw [atomicAdd_of_unregistered fd src none .udp ck hd] at h
    obtain rfl := Option.some.inj h
    refine ⟨fun f hf => ?_, fun hmem => ?_⟩
    · rw [lookup_erase_eq, if_neg hf, lookup_insert_eq, if_neg hf]
    · exact absurd rfl (AList.mem_erase.mp hmem).1
  | some dev =>
    rw [atomicAdd_of_registered fd src none .udp ck hd] at h
    obtain rfl := Option.some.inj h
    refine ⟨fun f hf => ?_, fun _ => ?_⟩
    · rw [lookup_insert_eq, if_neg hf]
    · unfold Unmanaged findThrmgrRwsocketLockfree
      rw [lookup_insert_eq, if_pos rfl]
      rfl

/-- What a datagram does to the tables and to the counter: it is handed over, on a socket that
is there or on a dummy socket that is entered for it. -/
theorem pollin_cases {s : State} {udpSockfd : Fd} {src : SockAddr} {data : List UInt8}
    {r : State × List Callback} (h : processUdpfdPollinFunc s udpSockfd src data = some r) :
    (r.1.g = s.g ∧
      (r.1.random = s.random ∨ oldConn s.g src = none ∧ r.1.random = s.random + 1)) ∨
    (∃ fd newConn, r.1.g = (deliver s.g fd newConn src (data.take maxbuf)).1 ∧
      r.1.random = s.random) ∨
    ∃ key a, atomicAddUpdHtblsWithRwsocketLockfree s.g (s.random + 1).toInt32 src none key .udp
        (dummyKey (s.random + 1).toInt32) = some a ∧
      r.1.g = (deliver a.2 (s.random + 1).toInt32 true src (data.take maxbuf)).1 ∧
      oldConn s.g src = none ∧ r.1.random = s.random + 1 := by
  unfold processUdpfdPollinFunc at h
  dsimp only at h
  split at h
  · obtain rfl := Option.some.inj h
    exact .inl ⟨rfl, .inl rfl⟩
  · split at h
    · obtain rfl := Option.some.inj h
      exact .inr (.inl ⟨_, _, rfl, rfl⟩)
    · split at h
      · obtain rfl := Option.some.inj h
        exact .inr (.inl ⟨_, _, rfl, rfl⟩)
      · rename_i hnew
        split at h
        · obtain rfl := Option.some.inj h
          exact .inl ⟨rfl, .inr ⟨hnew, rfl⟩⟩
        · obtain ⟨a, ha, rfl⟩ := Option.map_eq_some_iff.mp h
          exact .inr (.inr ⟨_, a, ha, rfl, hnew, rfl⟩)

/-- After a datagram a client is still without a manager where it is still entered, and so
is every socket that is new. -/
theorem unmanaged_pollin {s : State} {udpSockfd : Fd} {src : SockAddr} {data : List UInt8}
    {r : State × List Callback} (h : processUdpfdPollinFunc s udpSockfd src data = some r) {f : Fd}
    (hold : f ∈ s.g.ofrwHtbl → Unmanaged s.g f) (hmem : f ∈ r.1.g.ofrwHtbl) :
    Unmanaged r.1.g f := by
  rcases pollin_cases h with ⟨heq, -⟩ | ⟨fd, newConn, heq, -⟩ | ⟨key, a, ha, heq, -⟩
  · rw [heq] at hmem ⊢
    exact hold hmem
  · rw [heq] at hmem ⊢
    exact unmanaged_deliver (hold (mem_deliver.mp hmem)) fd newConn src _
  · rw [heq, mem_deliver] at hmem
    rw [heq]
    obtain ⟨hother, hnew⟩ := atomicAdd_unmanaged ha
    refine unmanaged_deliver ?_ _ _ _ _
    by_cases hf : f = (s.random + 1).toInt32
    · rw [hf] at hmem ⊢
      exact hnew hmem
    · rw [mem_iff_lookup, hother f hf, ← mem_iff_lookup] at hmem
      unfold Unmanaged findThrmgrRwsocketLockfree
      rw [hother f hf]
      exact hold hmem

/-! ## Clients -/

def Clients (s : Sys) : Prop :=
  ∀ fd ∈ s.clients, Unmanaged s.st.g fd

theorem clients_step {s s' : Sys} {a : Act} (h : Clients s) (hs : step s a = some s') :
    Clients s' := by
  cases a with
  | datagram udpSockfd src data =>
    obtain ⟨r, hr, rfl⟩ := Option.map_eq_some_iff.mp hs
    intro fd hfd
    rcases List.mem_append.mp hfd with hfd | hfd
    · obtain ⟨hclient, hmem⟩ := List.mem_filter.mp hfd
      exact unmanaged_pollin hr (fun _ => h fd hclient) (of_decide_eq_true hmem)
    · obtain ⟨hmem, hnew⟩ := List.mem_filter.mp hfd
      exact unmanaged_pollin hr (fun hold => absurd hold (of_decide_eq_true hnew))
        (AList.mem_keys.mp hmem)
  | setReal d a ck =>
    obtain rfl := Option.some.inj hs
    intro fd hfd
    have hsame := (Core.Consistency.setReal_tables s.st.g d a ck).2.1
    unfold Unmanaged findThrmgrRwsocketLockfree
    rw [show AList.lookup fd _ = _ from congrArg (AList.lookup fd) hsame]
    exact h fd hfd
  | call op =>
    obtain ⟨g, hg, rfl⟩ := Option.map_eq_some_iff.mp hs
    intro fd hfd
    obtain ⟨hclient, hmem⟩ := List.mem_filter.mp hfd
    exact unmanaged_call hg (h fd hclient) (of_decide_eq_true hmem)

/-- In no state of any run is there a packet that reaches a client. -/
theorem no_reply_to_client (g : Global) (random : UInt32) (acts : List Act) :
    Always step NoReply (start g random) acts := by
  have hstart : Clients (start g random) := fun fd hfd => by cases hfd
  have hall : Always step Clients (start g random) acts :=
    always_of_step (fun _ _ _ h hs => clients_step h hs) hstart acts
  refine hall.mono fun s h fd hfd info _ ck hck env udpSockfd ofMsg hok => ?_
  unfold Replied at hok
  rw [reply_unmanaged (h fd hfd) hck] at hok
  cases hok

/-- A controller hears a datagram on its socket `7` and learns the key of the switch; a
packet under either key is refused. -/
theorem reply_refused :
    ∃ g s s', udpController = some g ∧
      run step (start g maxOpenFiles) [.datagram 7 ⟨0x0100007f, 0x8813⟩ [1]] = some s ∧
      run step s [.setReal 1048577 1 ⟨42, 0⟩] = some s' ∧
      1048577 ∈ s.clients ∧ Names s.st.g (dummyKey 1048577) 1048577 ∧
      1048577 ∈ s'.clients ∧ Names s'.st.g ⟨42, 0⟩ 1048577 ∧
      ∀ env, ¬Replied env s.st.g 7 (dummyKey 1048577) [9] ⟨0x0100007f, 0x8813⟩ ∧
        ¬Replied env s'.st.g 7 ⟨42, 0⟩ [9] ⟨0x0100007f, 0x8813⟩ := by
  have hname : ∀ {g : Global} {ck : ChannelKey} {fd : Fd},
      (g.ofchannelHtbl.lookup ck).map ChannelInfo.rwSockfd = some fd → Names g ck fd :=
    fun h => Option.map_eq_some_iff.mp h
  have hrefused : ∀ {g : Global} {ck : ChannelKey} (fd : Fd),
      findThrmgrRwsocketLockfree g fd = some none → Names g ck fd → ∀ env,
        ¬Replied env g 7 ck [9] ⟨0x0100007f, 0x8813⟩ := by
    intro g ck fd hu hck env hok
    unfold Replied at hok
    rw [reply_unmanaged hu hck] at hok
    cases hok
  refine ⟨_, _, _, rfl, rfl, rfl, by decide, hname (by decide), by decide, hname (by decide),
    fun env => ⟨?_, ?_⟩⟩
  · exact hrefused 1048577 (by decide) (hname (by decide)) env
  · exact hrefused 1048577 (by decide) (hname (by decide)) env

end OfConnect.Udp.Reply
