import OfConnect.Pool.Sorted
import OfConnect.Pool.Traced
import OfConnect.Udp.Reply

/-!
# Which descriptors are closed

Over every run of the traced calls: only descriptors that are open are closed, only sockets
that a thread polls are deleted from it, and the counters of the managers count what their
threads poll.

A device record is allocated as zeroes, and `main_sockfd_tcp` is set on a controller only. So
on a switch the listen thread, which polls nothing there, is told to drop descriptor 0, its
counter goes from 0 to 65535, and descriptor 0 is closed. The dummy socket of a UDP client is
a number, and closed as if it were a descriptor.
-/

namespace OfConnect.Pool.Descriptors

open OfConnect.Lib.Tables OfConnect.Lib.Run OfConnect.PollThr.Thread OfConnect.Core.State
open OfConnect.Core.Effects OfConnect.Pool.Moves OfConnect.Pool.Traced
open OfConnect.Pool.Sorted (Managed managed_new inv_add inv_del inv_libInit)
open OfConnect.Udp.Demux (State Callback deliver processUdpfdPollinFunc)

/-! ## What is asked of it -/

/-- Only open descriptors are closed, only polled sockets are deleted, and the counters of
the managers count what their threads poll. -/
structure DescriptorsOk (s : Sys) : Prop where
  known : ∀ e ∈ s.log, e.Known
  counted : ∀ m, m < s.g.nextMgr → (s.g.mgrs m).numSockets.toNat = (s.g.mgrs m).fds.length
  listen : s.g.oflistenPollthr.numSockets.toNat = s.g.oflistenPollthr.fds.length

/-- The socket has a thread, where it is entered at all. -/
def Threaded (g : Global) (fd : Fd) : Prop :=
  ∀ info, g.ofrwHtbl.lookup fd = some info → info.thrMgr ≠ none

/-- What is closed has a thread, and a device that is freed has a listening socket. -/
def ClosesSockets (s : Sys) : Op → Prop
  | .destroyChannel ck _ => ∀ fd, Names s.g ck fd → Threaded s.g fd
  | .closeConn sockfd _ => Threaded s.g sockfd
  | .devFree key _ | .devfreeIter key _ => ∀ dev, s.g.ofdevHtbl.lookup key = some dev →
      dev.mainSockfdTcp ∈ s.g.oflistenPollthr.fds ∧ ∀ fd ∈ dev.ofrwSocketList, Threaded s.g fd
  | _ => True

/-! ## What a run keeps -/

/-- Sockets with a manager and listening sockets are open, and no socket is both. -/
structure Inv (s : Sys) : Prop where
  pool : Sorted.Inv s.g
  listen : Managed s.g.oflistenPollthr
  owned : ∀ fd info, s.g.ofrwHtbl.lookup fd = some info → info.thrMgr ≠ none →
    fd ∈ s.own ∧ fd ∉ s.g.oflistenPollthr.fds
  listening : ∀ fd ∈ s.g.oflistenPollthr.fds, fd ∈ s.own
  known : ∀ e ∈ s.log, e.Known

theorem descriptorsOk_of_inv {s : Sys} (h : Inv s) : DescriptorsOk s :=
  ⟨h.known, fun m hm => (h.pool.managed m hm).counted, h.listen.counted⟩

/-- The managers are as they were, and no socket has got one. -/
structure SameManagers (g g' : Global) : Prop where
  pool : g'.ofrwPollthrList = g.ofrwPollthrList
  mgrs : g'.mgrs = g.mgrs
  next : g'.nextMgr = g.nextMgr
  listen : g'.oflistenPollthr = g.oflistenPollthr
  managed : ∀ fd info, g'.ofrwHtbl.lookup fd = some info → info.thrMgr ≠ none →
    ∃ info', g.ofrwHtbl.lookup fd = some info' ∧ info'.thrMgr = info.thrMgr

theorem SameManagers.refl (g : Global) : SameManagers g g :=
  ⟨rfl, rfl, rfl, rfl, fun _ info hl _ => ⟨info, hl, rfl⟩⟩

theorem SameManagers.trans {g₁ g₂ g₃ : Global} (h : SameManagers g₁ g₂) (h' : SameManagers g₂ g₃) :
    SameManagers g₁ g₃ := by
  refine ⟨h'.pool.trans h.pool, h'.mgrs.trans h.mgrs, h'.next.trans h.next,
    h'.listen.trans h.listen, fun fd info hl hthr => ?_⟩
  obtain ⟨info', hl', hthr'⟩ := h'.managed fd info hl hthr
  obtain ⟨info'', hl'', hthr''⟩ := h.managed fd info' hl' (by rw [hthr']; exact hthr)
  exact ⟨info'', hl'', hthr''.trans hthr'⟩

theorem inv_sameManagers {s : Sys} {g' : Global} (h : Inv s) (hsame : SameManagers s.g g')
    (random : UInt32) : Inv { s with g := g', random := random } := by
  have hpool := h.pool.of_pool hsame.pool hsame.mgrs hsame.next hsame.managed
  refine ⟨hpool, ?_, fun fd info hl hthr => ?_, ?_, h.known⟩
  · show Managed g'.oflistenPollthr
    rw [hsame.listen]
    exact h.listen
  · obtain ⟨info', hl', hthr'⟩ := hsame.managed fd info hl hthr
    show fd ∈ s.own ∧ fd ∉ g'.oflistenPollthr.fds
    rw [hsame.listen]
    exact h.owned fd info' hl' (by rw [hthr']; exact hthr)
  · show ∀ fd ∈ g'.oflistenPollthr.fds, fd ∈ s.own
    rw [hsame.listen]
    exact h.listening

/-! ## Closing -/

/-- An open descriptor that nothing refers to any more is closed. -/
theorem inv_close {s : Sys} {fd : Fd} (h : Inv s) (hown : fd ∈ s.own)
    (hrw : ∀ info, s.g.ofrwHtbl.lookup fd = some info → info.thrMgr = none)
    (hlisten : fd ∉ s.g.oflistenPollthr.fds) : Inv (close s fd) := by
  have hkeep : ∀ f, f ∈ s.own → f ≠ fd → f ∈ (close s fd).own := by
    intro f hf hne
    exact List.mem_filter.mpr ⟨hf, by simpa using hne⟩
  refine ⟨h.pool, h.listen, fun f info hl hthr => ?_, fun f hf => ?_, fun e he => ?_⟩
  · obtain ⟨hf, hnot⟩ := h.owned f info hl hthr
    refine ⟨hkeep f hf fun heq => hthr (hrw info (heq ▸ hl)), hnot⟩
  · exact hkeep f (h.listening f hf) fun heq => hlisten (heq ▸ hf)
  · rcases List.mem_append.mp he with he | he
    · exact h.known e he
    · rw [List.mem_singleton.mp he]
      exact hown

/-- `close_conn` of a socket that has a manager. -/
theorem inv_closeConn {s : Sys} {fd : Fd} {info : RwInfo} {closeRet : Int} {r : Ret × Sys}
    (h : Inv s) (hl : s.g.ofrwHtbl.lookup fd = some info) (hthr : info.thrMgr ≠ none)
    (hc : closeConn s info.layer4Proto fd closeRet = some r) :
    Inv r.2 ∧ r.2.g.oflistenPollthr = s.g.oflistenPollthr ∧
      ∀ f, r.2.g.ofrwHtbl.lookup f = if f = fd then none else s.g.ofrwHtbl.lookup f := by
  obtain ⟨q, hq, hr⟩ := closeConn_of_entry hl hc
  obtain ⟨d, hd, rfl⟩ := Option.map_eq_some_iff.mp hq
  obtain ⟨hok, dev, -, hclosed⟩ := delSockfd_spec h.pool.pooled hl hd
  rw [if_neg (by rw [hok]; decide)] at hr
  obtain rfl := hr
  have hlisten := delSockfd_listen hd
  obtain ⟨hown, hnot⟩ := h.owned fd info hl hthr
  refine ⟨inv_close ⟨inv_del h.pool hl hd, ?_, fun f i hf hi => ?_, ?_, fun e he => ?_⟩ hown ?_ ?_,
    hlisten, hclosed.ofrw⟩
  · show Managed d.2.oflistenPollthr
    rw [hlisten]
    exact h.listen
  · show f ∈ s.own ∧ f ∉ d.2.oflistenPollthr.fds
    rw [hlisten]
    have hf : d.2.ofrwHtbl.lookup f = some i := hf
    rw [hclosed.ofrw] at hf
    split at hf
    · cases hf
    · exact h.owned f i hf hi
  · show ∀ f ∈ d.2.oflistenPollthr.fds, f ∈ s.own
    rw [hlisten]
    exact h.listening
  · rcases List.mem_append.mp he with he | he
    · exact h.known e he
    · -- the thread of the socket polls it
      obtain ⟨m, hm, rfl⟩ := Option.map_eq_some_iff.mp (Option.mem_toList.mp he)
      exact (h.pool.polled fd info m hl hm).2
  · intro i hi
    have hi : d.2.ofrwHtbl.lookup fd = some i := hi
    rw [hclosed.ofrw, if_pos rfl] at hi
    cases hi
  · show fd ∉ d.2.oflistenPollthr.fds
    rw [hlisten]
    exact hnot

/-- The walk over the sockets of a device, all of which have managers. -/
theorem inv_closeSockets {closeRet : Fd → Int} (l : List Fd) {s s' : Sys} (h : Inv s)
    (hthr : ∀ fd ∈ l, Threaded s.g fd) (hw : closeSockets closeRet l s = some s') :
    Inv s' ∧ s'.g.oflistenPollthr = s.g.oflistenPollthr := by
  induction l generalizing s with
  | nil =>
    obtain rfl := Option.some.inj hw
    exact ⟨h, rfl⟩
  | cons fd rest ih =>
    unfold closeSockets at hw
    split at hw
    · cases hw
    · rename_i info hl
      obtain ⟨r, hr, hw⟩ := Option.bind_eq_some_iff.mp hw
      obtain ⟨hinv, hlisten, hlook⟩ := inv_closeConn h hl (hthr fd List.mem_cons_self info hl) hr
      have hrest : ∀ f ∈ rest, Threaded r.2.g f := by
        intro f hf i hi
        rw [hlook] at hi
        split at hi
        · cases hi
        · exact hthr f (List.mem_cons_of_mem _ hf) i hi
      obtain ⟨hinv', hlisten'⟩ := ih hinv hrest hw
      exact ⟨hinv', hlisten'.trans hlisten⟩

theorem inv_closeListenfd {s s' : Sys} {fd : Fd} (h : Inv s) (hfd : fd ∈ s.g.oflistenPollthr.fds)
    (hc : closeListenfd s fd = some s') : Inv s' := by
  obtain ⟨r, hr, rfl⟩ := Option.map_eq_some_iff.mp hc
  obtain rfl := Option.some.inj hr
  have hsub : ∀ f, f ∈ s.g.oflistenPollthr.fds.erase fd → f ∈ s.g.oflistenPollthr.fds :=
    fun f hf => List.mem_of_mem_erase hf
  refine inv_close ⟨?_, h.listen.delete hfd, fun f info hl hthr => ?_, fun f hf => ?_, fun e he => ?_⟩
    (h.listening fd hfd) (fun info hl => ?_) ?_
  · exact h.pool.of_pool rfl rfl rfl fun f info hl _ => ⟨info, hl, rfl⟩
  · obtain ⟨hown, hnot⟩ := h.owned f info hl hthr
    exact ⟨hown, fun hf => hnot (hsub f hf)⟩
  · exact h.listening f (hsub f hf)
  · rcases List.mem_append.mp he with he | he
    · exact h.known e he
    · rw [List.mem_singleton.mp he]
      exact hfd
  · by_contra hthr
    exact (h.owned fd info hl hthr).2 hfd
  · exact fun hf => h.listen.nodup.not_mem_erase hf

theorem inv_devFreeLockfree {closeRet : Fd → Int} {key : DevKey} {s : Sys} {r : Ret × Sys}
    (h : Inv s)
    (hok : ∀ dev, s.g.ofdevHtbl.lookup key = some dev →
      dev.mainSockfdTcp ∈ s.g.oflistenPollthr.fds ∧ ∀ fd ∈ dev.ofrwSocketList, Threaded s.g fd)
    (hf : ccOfDevFreeLockfree s key closeRet = some r) : Inv r.2 := by
  unfold ccOfDevFreeLockfree at hf
  split at hf
  · cases hf
  · rename_i dev hd
    obtain ⟨s₁, hw, hf⟩ := Option.bind_eq_some_iff.mp hf
    obtain ⟨s₂, hc, rfl⟩ := Option.map_eq_some_iff.mp hf
    obtain ⟨hmain, hthr⟩ := hok dev hd
    obtain ⟨hinv, hlisten⟩ := inv_closeSockets _ h hthr hw
    exact inv_closeListenfd hinv (by rw [hlisten]; exact hmain) hc

/-! ## Opening -/

theorem sameManagers_setRwUp (g : Global) (fd : Fd) :
    SameManagers g (Core.Api.setRwUp g fd).2 := by
  cases hl : g.ofrwHtbl.lookup fd with
  | none =>
    unfold Core.Api.setRwUp
    rw [hl]
    exact SameManagers.refl g
  | some info =>
    rw [setRwUp_of_entry hl]
    refine ⟨rfl, rfl, rfl, rfl, fun f i hi _ => ?_⟩
    rw [lookup_insert_eq] at hi
    split at hi
    · rename_i hf
      obtain rfl := Option.some.inj hi
      exact ⟨info, hf ▸ hl, rfl⟩
    · exact ⟨i, hi, rfl⟩

theorem addSockfd_listen {g : Global} {fd : Fd} {key : DevKey} {proto : L4Type} {ck : ChannelKey}
    {block : SockAddr} {r : Ret × Global}
    (h : ccAddSockfdRwPollthrSafe g fd key proto ck block = some r) :
    r.2.oflistenPollthr = g.oflistenPollthr := by
  have hfind : (ccFindOrCreateRwPollthrSafe g).2.oflistenPollthr = g.oflistenPollthr := by
    rcases findOrCreate_cases g with ⟨elem, rest, -, -, heq⟩ | ⟨-, heq⟩
    · rw [heq]
    · rw [heq]
      rfl
  generalize hf : ccFindOrCreateRwPollthrSafe g = found at hfind
  rcases addSockfd_inversion hf h with ⟨-, rfl⟩ | ⟨dev, t, -, -, rfl⟩
  · exact hfind
  · exact hfind

/-- A descriptor that was just obtained is entered, or closed again. -/
theorem inv_addSockfd {s : Sys} {fd : Fd} {key : DevKey} {proto : L4Type} {ck : ChannelKey}
    {block : SockAddr} {r : Ret × Sys} (h : Inv s) (hfd : fd ∉ s.own)
    (ha : addSockfd s fd key proto ck block = some r) : Inv r.2 := by
  obtain ⟨q, hq, rfl⟩ := Option.map_eq_some_iff.mp ha
  have hlisten := addSockfd_listen hq
  have hpool := inv_add h.pool hq
  obtain ⟨-, -, hmoves⟩ := addSockfd_moves hq
  have hmanaged : Managed q.2.oflistenPollthr := by
    rw [hlisten]
    exact h.listen
  rcases hmoves with ⟨hret, -, hlook⟩ | ⟨-, hret, -, -, hlook⟩
  · refine ⟨hpool, hmanaged, fun f info hl hthr => ?_, fun f hf => ?_, h.known⟩
    · have hl : q.2.ofrwHtbl.lookup f = some info := hl
      show f ∈ (if q.1 < 0 then s.own else fd :: s.own) ∧ f ∉ q.2.oflistenPollthr.fds
      rw [hret, if_pos (by decide), hlisten]
      rw [hlook] at hl
      split at hl
      · cases hl
      · exact h.owned f info hl hthr
    · have hf : f ∈ q.2.oflistenPollthr.fds := hf
      show f ∈ (if q.1 < 0 then s.own else fd :: s.own)
      rw [hlisten] at hf
      rw [hret, if_pos (by decide)]
      exact h.listening f hf
  · refine ⟨hpool, hmanaged, fun f info hl hthr => ?_, fun f hf => ?_, h.known⟩
    · have hl : q.2.ofrwHtbl.lookup f = some info := hl
      show f ∈ (if q.1 < 0 then s.own else fd :: s.own) ∧ f ∉ q.2.oflistenPollthr.fds
      rw [hret, if_neg (by decide), hlisten]
      rw [hlook] at hl
      split at hl
      · rename_i heq
        rw [heq]
        exact ⟨List.mem_cons_self, fun hmem => hfd (h.listening fd hmem)⟩
      · obtain ⟨hown, hnot⟩ := h.owned f info hl hthr
        exact ⟨List.mem_cons_of_mem _ hown, hnot⟩
    · have hf : f ∈ q.2.oflistenPollthr.fds := hf
      show f ∈ (if q.1 < 0 then s.own else fd :: s.own)
      rw [hlisten] at hf
      rw [hret, if_neg (by decide)]
      exact List.mem_cons_of_mem _ (h.listening f hf)

theorem inv_createChannel {s : Sys} {fd : Fd} {key : DevKey} {proto : L4Type} {ck : ChannelKey}
    {block : SockAddr} {r : Ret × Sys} (h : Inv s) (hfd : fd ∉ s.own)
    (hc : ccOfCreateChannel s key ck proto fd block = some r) : Inv r.2 := by
  rcases createChannel_adds hc with heq | ⟨q, hq, heq⟩
  · rw [heq]
    exact h
  · rw [heq]
    exact inv_addSockfd h hfd hq

theorem inv_udpServer {s : Sys} {fd : Fd} {key : DevKey} {block : SockAddr} {r : Ret × Sys}
    (h : Inv s) (hfd : fd ∉ s.own) (hc : udpOpenServerfd s key fd block = some r) : Inv r.2 := by
  rcases udpServer_adds hc with heq | ⟨q, hq, heq⟩
  · rw [heq]
    exact h
  · rw [heq]
    exact inv_addSockfd h hfd hq

theorem inv_accept {s : Sys} {fd : Fd} {key : DevKey} {ck : ChannelKey} {block : SockAddr}
    {r : Ret × Sys} (h : Inv s) (hfd : fd ∉ s.own) (hc : tcpAccept s fd key ck block = some r) :
    Inv r.2 := by
  rcases accept_adds hc with heq | ⟨q, hq, heq | ⟨-, heq⟩⟩
  · rw [heq]
    exact h
  · rw [heq]
    exact inv_addSockfd h hfd hq
  · rw [heq]
    exact inv_sameManagers (inv_addSockfd h hfd hq) (sameManagers_setRwUp q.2.g fd) q.2.random

/-! ## Tables only -/

theorem sameManagers_atomicAdd {g : Global} {fd : Fd} {src : SockAddr} {key : DevKey}
    {ck : ChannelKey} {a : Ret × Global}
    (h : atomicAddUpdHtblsWithRwsocketLockfree g fd src none key .udp ck = some a) :
    SameManagers g a.2 := by
  cases hd : g.ofdevHtbl.lookup key with
  | none =>
    rw [atomicAdd_of_unregistered fd src none .udp ck hd] at h
    obtain rfl := Option.some.inj h
    refine ⟨rfl, rfl, rfl, rfl, fun f info hl _ => ?_⟩
    rw [lookup_erase_eq] at hl
    split at hl
    · cases hl
    · rename_i hf
      rw [lookup_insert_eq, if_neg hf] at hl
      exact ⟨info, hl, rfl⟩
  | some dev =>
    rw [atomicAdd_of_registered fd src none .udp ck hd] at h
    obtain rfl := Option.some.inj h
    refine ⟨rfl, rfl, rfl, rfl, fun f info hl hthr => ?_⟩
    rw [lookup_insert_eq] at hl
    split at hl
    · obtain rfl := Option.some.inj hl
      exact absurd rfl hthr
    · exact ⟨info, hl, rfl⟩

theorem sameManagers_deliver (g : Global) (fd : Fd) (newConn : Bool) (src : SockAddr)
    (buf : List UInt8) : SameManagers g (deliver g fd newConn src buf).1 := by
  rcases Udp.Reply.deliver_cases g fd newConn src buf with h | h
  · rw [h]
    exact SameManagers.refl g
  · rw [h]
    exact sameManagers_setRwUp g fd

theorem sameManagers_pollin {s : State} {udpSockfd : Fd} {src : SockAddr} {data : List UInt8}
    {r : State × List Callback} (h : processUdpfdPollinFunc s udpSockfd src data = some r) :
    SameManagers s.g r.1.g := by
  rcases Udp.Reply.pollin_cases h with
    ⟨heq, -⟩ | ⟨fd, newConn, heq, -⟩ | ⟨key, a, ha, heq, -⟩
  · rw [heq]
    exact SameManagers.refl s.g
  · rw [heq]
    exact sameManagers_deliver s.g fd newConn src _
  · rw [heq]
    exact (sameManagers_atomicAdd ha).trans (sameManagers_deliver a.2 _ true src _)

theorem sameManagers_setReal (g : Global) (d : UInt64) (a : UInt8) (ck : ChannelKey) :
    SameManagers g (Core.Api.ccOfSetRealDpidAuxid g d a ck).2 := by
  unfold Core.Api.ccOfSetRealDpidAuxid
  dsimp only
  split
  · exact SameManagers.refl g
  · exact ⟨rfl, rfl, rfl, rfl, fun _ info hl _ => ⟨info, hl, rfl⟩⟩

theorem inv_ofdevHtbl {s : Sys} (h : Inv s) (t : Table DevKey DevInfo) :
    Inv { s with g := { s.g with ofdevHtbl := t } } := by
  have hsame : SameManagers s.g { s.g with ofdevHtbl := t } :=
    ⟨rfl, rfl, rfl, rfl, fun _ info hl _ => ⟨info, hl, rfl⟩⟩
  exact inv_sameManagers h hsame s.random

/-! ## Devices -/

/-- The listen thread takes the new socket, or refuses it where it has 200 already. -/
theorem inv_listen {s : Sys} {fd : Fd} {r : Int × Global} (h : Inv s) (hfd : fd ∉ s.own)
    (hl : Core.Api.tcpOpenListenfd s.g fd = some r) :
    Inv { s with g := r.2, own := if Int32.ofInt r.1 < 0 then s.own else fd :: s.own } := by
  unfold Core.Api.tcpOpenListenfd at hl
  split at hl
  · rename_i hneg
    obtain rfl := Option.some.inj hl
    rw [show Int32.ofInt fd.toInt = fd from Int32.ofInt_toInt fd, if_pos hneg]
    exact h
  · rename_i hpos
    obtain ⟨q, hq, rfl⟩ := Option.map_eq_some_iff.mp hl
    by_cases hroom : s.g.oflistenPollthr.fds.length < 200
    · obtain ⟨hret, hfds, hman⟩ := h.listen.add hroom hq
      rw [hret, Int32.ofInt_toInt, if_neg hpos]
      refine ⟨h.pool.of_pool rfl rfl rfl fun _ info hf _ => ⟨info, hf, rfl⟩, hman,
        fun f info hf hthr => ?_, fun f hf => ?_, h.known⟩
      · obtain ⟨hown, hnot⟩ := h.owned f info hf hthr
        refine ⟨List.mem_cons_of_mem _ hown, fun hmem => ?_⟩
        have hmem : f ∈ q.2.fds := hmem
        rw [hfds] at hmem
        rcases List.mem_append.mp hmem with hmem | hmem
        · exact hnot hmem
        · exact hfd (List.mem_singleton.mp hmem ▸ hown)
      · have hf : f ∈ q.2.fds := hf
        rw [hfds] at hf
        rcases List.mem_append.mp hf with hf | hf
        · exact List.mem_cons_of_mem _ (h.listening f hf)
        · rw [List.mem_singleton.mp hf]
          exact List.mem_cons_self
    · have hfull : s.g.oflistenPollthr.fds.length = 200 := by
        have hbound := h.listen.bounded
        omega
      simp only [adpThrMgrAddDelFd, if_pos (h.listen.full_iff.mpr hfull)] at hq
      obtain rfl := Option.some.inj hq
      exact h

theorem inv_devRegister {s : Sys} {key : DevKey} {ver : Nat} {cb : Callbacks} {fd : Fd}
    {r : Ret × Sys} (h : Inv s) (hfd : fd ∉ s.own)
    (hr : ccOfDevRegister s key ver cb fd = some r) : Inv r.2 := by
  obtain ⟨q, hq, rfl⟩ := Option.map_eq_some_iff.mp hr
  unfold Core.Api.ccOfDevRegister at hq
  dsimp only at hq
  split at hq
  · obtain rfl := Option.some.inj hq
    dsimp only
    rw [if_neg fun hc => hc.2 (by decide)]
    exact h
  · split at hq
    · rename_i hswitch
      obtain rfl := Option.some.inj hq
      dsimp only
      rw [if_neg fun hc => by rw [hswitch] at hc; cases hc.1]
      exact inv_ofdevHtbl h _
    · rename_i hcontroller
      obtain ⟨l, hl, rfl⟩ := Option.map_eq_some_iff.mp hq
      have hinv := inv_listen (inv_ofdevHtbl h (s.g.ofdevHtbl.insert key ⟨ver, [], cb, 0, 0⟩)) hfd hl
      by_cases hneg : Int32.ofInt l.1 < 0
      · simp only [if_pos hneg] at hinv ⊢
        rw [if_neg fun hc => hc.2 (by decide)]
        exact inv_ofdevHtbl hinv _
      · simp only [if_neg hneg] at hinv ⊢
        rw [if_pos ⟨hcontroller, by decide⟩]
        exact inv_ofdevHtbl hinv _

/-! ## Runs -/

theorem inv_step {s s' : Sys} {op : Op} (h : Inv s) (hok : ClosesSockets s op)
    (hs : step s op = some s') : Inv s' := by
  cases op with
  | devRegister key ver cb fd =>
    obtain ⟨hfd, hs⟩ := Option.ite_none_left_eq_some.mp hs
    obtain ⟨r, hr, rfl⟩ := Option.map_eq_some_iff.mp hs
    exact inv_devRegister h hfd hr
  | createChannel key ck proto fd block =>
    obtain ⟨hfd, hs⟩ := Option.ite_none_left_eq_some.mp hs
    obtain ⟨r, hr, rfl⟩ := Option.map_eq_some_iff.mp hs
    exact inv_createChannel h hfd hr
  | accept fd key ck block =>
    obtain ⟨hfd, hs⟩ := Option.ite_none_left_eq_some.mp hs
    obtain ⟨r, hr, rfl⟩ := Option.map_eq_some_iff.mp hs
    exact inv_accept h hfd hr
  | udpServer key fd block =>
    obtain ⟨hfd, hs⟩ := Option.ite_none_left_eq_some.mp hs
    obtain ⟨r, hr, rfl⟩ := Option.map_eq_some_iff.mp hs
    exact inv_udpServer h hfd hr
  | datagram fd src data =>
    obtain ⟨r, hr, rfl⟩ := Option.map_eq_some_iff.mp hs
    exact inv_sameManagers h (sameManagers_pollin hr) r.1.random
  | setReal d a ck =>
    obtain rfl := Option.some.inj hs
    exact inv_sameManagers h (sameManagers_setReal s.g d a ck) s.random
  | destroyChannel ck closeRet =>
    obtain ⟨r, hr, rfl⟩ := Option.map_eq_some_iff.mp hs
    unfold ccOfDestroyChannel at hr
    split at hr
    · obtain rfl := Option.some.inj hr
      exact h
    · rename_i chann hck
      split at hr
      · obtain rfl := Option.some.inj hr
        exact h
      · rename_i info hl
        exact (inv_closeConn h hl (hok _ ⟨chann, hck, rfl⟩ info hl) hr).1
  | closeConn fd closeRet =>
    obtain ⟨info, hl, hs⟩ := Option.bind_eq_some_iff.mp hs
    obtain ⟨r, hr, rfl⟩ := Option.map_eq_some_iff.mp hs
    exact (inv_closeConn h hl (hok info hl) hr).1
  | devFree key closeRet =>
    obtain ⟨r, hr, rfl⟩ := Option.map_eq_some_iff.mp hs
    unfold ccOfDevFree at hr
    split at hr
    · obtain ⟨q, hq, rfl⟩ := Option.map_eq_some_iff.mp hr
      exact inv_ofdevHtbl (inv_devFreeLockfree h hok hq) _
    · cases hr
  | devfreeIter key closeRet =>
    obtain ⟨q, hq, rfl⟩ := Option.map_eq_some_iff.mp hs
    have hinv := inv_devFreeLockfree h hok hq
    split
    · exact hinv
    · exact inv_ofdevHtbl hinv _

theorem inv_start (devType : DevType) : Inv (start devType) := by
  refine ⟨inv_libInit devType, managed_new, fun fd info hl => ?_, fun fd hfd => ?_, fun e he => ?_⟩
  · cases hl
  · cases hfd
  · cases he

/-- A device with a listening socket and a connection comes and goes. -/
def freesDevice : List Op :=
  [.devRegister ⟨1, 2, 6633⟩ 0 ⟨0, 0, 0⟩ 4, .accept 5 ⟨1, 2, 6633⟩ ⟨0, 0⟩ ⟨0, 0⟩,
    .devFree ⟨1, 2, 6633⟩ fun _ => 0]

/-- As long as what is closed has a thread, and what is freed a listening socket, the library
closes its own descriptors only, and deletes from its threads only what they poll. -/
theorem descriptors_ok_of_closes_sockets (devType : DevType) (ops : List Op)
    (h : Guarded step ClosesSockets (start devType) ops) :
    Always step DescriptorsOk (start devType) ops := by
  have hall : Always step Inv (start devType) ops :=
    always_of_guarded (fun _ _ _ hinv hok hs => inv_step hinv hok hs) (inv_start devType) h
  exact hall.mono fun _ => descriptorsOk_of_inv

/-- A controller registers a device with the listening socket `4`, accepts a connection on
`5`, and frees the device: it closes both, and nothing else. -/
theorem descriptors_ok_of_closes_sockets_controller :
    Always step DescriptorsOk (start .controller) freesDevice ∧
      ∃ s, run step (start .controller) freesDevice = some s ∧ s.own = [] ∧
        s.log = [.deleteFd 5 [5], .close 5 [5, 4], .deleteFd 4 [4], .close 4 [4]] := by
  have hguard : Guarded step ClosesSockets (start .controller) freesDevice := by
    refine guarded_cons.mpr fun s₁ h₁ => ⟨trivial, guarded_cons.mpr fun s₂ h₂ => ⟨trivial,
      guarded_cons.mpr fun s₃ _ => ⟨?_, guarded_nil⟩⟩⟩
    obtain rfl := Option.some.inj h₁
    obtain rfl := Option.some.inj h₂
    intro dev hdev
    obtain rfl := Option.some.inj hdev
    refine ⟨by decide, fun fd hfd info hl => ?_⟩
    obtain rfl := List.mem_singleton.mp hfd
    obtain rfl := Option.some.inj hl
    nofun
  exact ⟨descriptors_ok_of_closes_sockets .controller freesDevice hguard, _, rfl, by decide, by decide⟩

/-- A switch has no listening socket: when it frees its device the listen thread, which polls
nothing, is told to drop descriptor `0`, its counter wraps, and `0` is closed. A controller
that destroys the channel of a UDP client closes its dummy socket. -/
theorem foreign_descriptor_closed :
    (∃ s, run step (start .switch) [.devRegister ⟨1, 2, 6633⟩ 0 ⟨0, 0, 0⟩ 0,
        .devFree ⟨1, 2, 6633⟩ fun _ => 0] = some s ∧
      s.log = [.deleteFd 0 [], .close 0 []] ∧ s.g.oflistenPollthr.numSockets = 65535 ∧
      s.g.oflistenPollthr.fds = [] ∧ ¬DescriptorsOk s) ∧
    (∃ s, run step (start .controller) [.devRegister ⟨1, 2, 6633⟩ 0 ⟨0, 0, 0⟩ 4,
        .udpServer ⟨1, 2, 6633⟩ 7 ⟨0, 0⟩, .datagram 7 ⟨0x0100007f, 0x8813⟩ [1],
        .destroyChannel (dummyKey 1048577) 0] = some s ∧
      s.log = [.close 1048577 [7, 4]] ∧ ¬DescriptorsOk s) := by
  refine ⟨⟨_, rfl, by decide, by decide, by decide, fun h => ?_⟩, ⟨_, rfl, by decide, fun h => ?_⟩⟩
  · exact absurd (h.known (.close 0 []) (by decide)) (by decide)
  · exact absurd (h.known (.close 1048577 [7, 4]) (by decide)) (by decide)

end OfConnect.Pool.Descriptors
