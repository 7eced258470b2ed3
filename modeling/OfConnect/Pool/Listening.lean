import OfConnect.Pool.Descriptors

/-!
# Which device a new connection is for

`process_listenfd_pollin_func` walks `ofdev_htbl` for the device whose listening socket is the one
that became readable, lets go of `ofdev_htbl_lock` where it finds one, since `accept_conn` takes
the lock itself, and goes on with the walk; after the walk it unlocks if it has found none. With
two devices on one descriptor it would accept twice and unlock a mutex that it does not hold. The
loop is taken as it stands here, and compared with one accepted connection for one device, in
every state that calls lead to. Nothing else runs between two steps of the loop.
-/

namespace OfConnect.Pool.Listening

open OfConnect.Lib.Tables OfConnect.Lib.Run OfConnect.PollThr.Thread OfConnect.Core.State
open OfConnect.Core.Effects OfConnect.Pool.Traced OfConnect.Pool.Descriptors
open OfConnect.Pool.Moves (delSockfd_listen)

/-- What the kernel and the allocator have for a call of `accept_conn`. -/
structure Answer where
  connfd : Fd
  channKey : ChannelKey
  block : SockAddr

/-- The walk: the lock, `found`, whether the lock was unlocked by one that did not hold it, and the
devices that `accept_conn` was called for. -/
structure Loop where
  sys : Sys
  held : Bool
  found : Bool
  misused : Bool
  calls : List DevKey

def unlock (l : Loop) : Loop := { l with held := false, misused := l.misused || !l.held }

/-- `accept_conn` takes the lock: a thread that holds it waits for itself. -/
def acceptConn (l : Loop) (a : Answer) (key : DevKey) : Option Loop :=
  if l.held then none
  else (step l.sys (.accept a.connfd key a.channKey a.block)).map fun s =>
    { l with sys := s, calls := l.calls ++ [key] }

/-- The body of the loop for one entry of `ofdev_htbl`. -/
def visit (listenfd : Fd) (answer : Nat → Answer) (l : Loop) (devKey : DevKey) : Option Loop :=
  match l.sys.g.ofdevHtbl.lookup devKey with
  | none => some l
  | some devInfo =>
    if devInfo.mainSockfdTcp = listenfd then
      acceptConn (unlock { l with found := true }) (answer l.calls.length) devKey
    else some l

/-- `order` is how the table holds its entries. -/
def processListenfdPollinFunc (s : Sys) (order : List DevKey) (listenfd : Fd)
    (answer : Nat → Answer) : Option Loop :=
  (run (visit listenfd answer) ⟨s, true, false, false, []⟩ order).map fun l =>
    if l.found then l else unlock l

/-! ## The listening sockets of the devices -/

def mainOf (g : Global) (key : DevKey) : Option Fd :=
  (g.ofdevHtbl.lookup key).map DevInfo.mainSockfdTcp

/-- Nothing has changed for the listen thread. -/
structure SameListening (g g' : Global) : Prop where
  ofdevType : g'.ofdevType = g.ofdevType
  main : ∀ key, mainOf g' key = mainOf g key
  listen : g'.oflistenPollthr = g.oflistenPollthr

theorem SameListening.refl (g : Global) : SameListening g g := ⟨rfl, fun _ => rfl, rfl⟩

theorem SameListening.trans {g₁ g₂ g₃ : Global} (h : SameListening g₁ g₂)
    (h' : SameListening g₂ g₃) : SameListening g₁ g₃ :=
  ⟨h'.ofdevType.trans h.ofdevType, fun key => (h'.main key).trans (h.main key),
    h'.listen.trans h.listen⟩

/-- A device keeps its listening socket when its list changes. -/
theorem mainOf_insert {g : Global} {key : DevKey} {dev : DevInfo} (l : List Fd)
    (hd : g.ofdevHtbl.lookup key = some dev) (k : DevKey) :
    ((g.ofdevHtbl.insert key { dev with ofrwSocketList := l }).lookup k).map
      DevInfo.mainSockfdTcp = mainOf g k := by
  unfold mainOf
  rw [lookup_insert_eq]
  split
  · rename_i hk
    rw [hk, hd]
    rfl
  · rfl

theorem sameListening_setRwUp (g : Global) (fd : Fd) :
    SameListening g (Core.Api.setRwUp g fd).2 := by
  unfold Core.Api.setRwUp
  split
  · exact SameListening.refl g
  · exact ⟨rfl, fun _ => rfl, rfl⟩

theorem sameListening_addSockfd {s : Sys} {fd : Fd} {key : DevKey} {proto : L4Type}
    {ck : ChannelKey} {block : SockAddr} {q : Ret × Sys}
    (h : addSockfd s fd key proto ck block = some q) : SameListening s.g q.2.g := by
  obtain ⟨a, ha, rfl⟩ := Option.map_eq_some_iff.mp h
  have hlisten := addSockfd_listen ha
  rcases addSockfd_cases ha with ⟨-, -, hr⟩ | ⟨dev, m, -, hadded⟩
  · exact ⟨hr.ofdevType, fun k => by rw [mainOf, hr.ofdev]; rfl, hlisten⟩
  · refine ⟨hadded.ofdevType, fun k => ?_, hlisten⟩
    show (a.2.ofdevHtbl.lookup k).map DevInfo.mainSockfdTcp = mainOf s.g k
    rw [hadded.ofdev]
    exact mainOf_insert _ hadded.registered k

theorem sameListening_accept {s s' : Sys} {fd : Fd} {key : DevKey} {ck : ChannelKey}
    {block : SockAddr} (h : step s (.accept fd key ck block) = some s') :
    SameListening s.g s'.g := by
  obtain ⟨-, h⟩ := Option.ite_none_left_eq_some.mp h
  obtain ⟨r, hr, rfl⟩ := Option.map_eq_some_iff.mp h
  rcases accept_adds hr with heq | ⟨q, hq, heq | ⟨-, heq⟩⟩
  · rw [heq]
    exact SameListening.refl s.g
  · rw [heq]
    exact sameListening_addSockfd hq
  · rw [heq]
    exact (sameListening_addSockfd hq).trans (sameListening_setRwUp q.2.g fd)

theorem sameListening_atomicAdd {g : Global} {fd : Fd} {src : SockAddr} {key : DevKey}
    {ck : ChannelKey} {a : Ret × Global}
    (h : atomicAddUpdHtblsWithRwsocketLockfree g fd src none key .udp ck = some a) :
    SameListening g a.2 := by
  cases hd : g.ofdevHtbl.lookup key with
  | none =>
    rw [atomicAdd_of_unregistered fd src none .udp ck hd] at h
    obtain rfl := Option.some.inj h
    exact ⟨rfl, fun _ => rfl, rfl⟩
  | some dev =>
    rw [atomicAdd_of_registered fd src none .udp ck hd] at h
    obtain rfl := Option.some.inj h
    exact ⟨rfl, mainOf_insert _ hd, rfl⟩

theorem sameListening_deliver (g : Global) (fd : Fd) (newConn : Bool) (src : SockAddr)
    (buf : List UInt8) : SameListening g (Udp.Demux.deliver g fd newConn src buf).1 := by
  rcases Udp.Reply.deliver_cases g fd newConn src buf with h | h
  · rw [h]
    exact SameListening.refl g
  · rw [h]
    exact sameListening_setRwUp g fd

theorem sameListening_pollin {s : Udp.Demux.State} {udpSockfd : Fd} {src : SockAddr}
    {data : List UInt8} {r : Udp.Demux.State × List Udp.Demux.Callback}
    (h : Udp.Demux.processUdpfdPollinFunc s udpSockfd src data = some r) :
    SameListening s.g r.1.g := by
  rcases Udp.Reply.pollin_cases h with
    ⟨heq, -⟩ | ⟨fd, newConn, heq, -⟩ | ⟨key, a, ha, heq, -⟩
  · rw [heq]
    exact SameListening.refl s.g
  · rw [heq]
    exact sameListening_deliver s.g fd newConn src _
  · rw [heq]
    exact (sameListening_atomicAdd ha).trans (sameListening_deliver a.2 _ true src _)

theorem sameListening_setReal (g : Global) (d : UInt64) (a : UInt8) (ck : ChannelKey) :
    SameListening g (Core.Api.ccOfSetRealDpidAuxid g d a ck).2 := by
  unfold Core.Api.ccOfSetRealDpidAuxid
  dsimp only
  split
  · exact SameListening.refl g
  · exact ⟨rfl, fun _ => rfl, rfl⟩

theorem sameListening_closeConn {s : Sys} {fd : Fd} {info : RwInfo} {closeRet : Int}
    {r : Ret × Sys} (hp : Pooled s.g) (hl : s.g.ofrwHtbl.lookup fd = some info)
    (hc : closeConn s info.layer4Proto fd closeRet = some r) : SameListening s.g r.2.g := by
  obtain ⟨q, hq, hr⟩ := closeConn_of_entry hl hc
  obtain ⟨d, hd, rfl⟩ := Option.map_eq_some_iff.mp hq
  obtain ⟨hok, dev, hdev, hclosed⟩ := delSockfd_spec hp hl hd
  rw [if_neg (by rw [hok]; decide)] at hr
  obtain rfl := hr
  refine ⟨hclosed.ofdevType, fun k => ?_, delSockfd_listen hd⟩
  show (d.2.ofdevHtbl.lookup k).map DevInfo.mainSockfdTcp = mainOf s.g k
  rw [hclosed.ofdev, mainOf]
  split
  · rename_i hk
    rw [hk, hdev]
    rfl
  · rfl

theorem sameListening_closeSockets {closeRet : Fd → Int} (l : List Fd) {s s' : Sys}
    (h : Inv s) (hthr : ∀ fd ∈ l, Threaded s.g fd) (hw : closeSockets closeRet l s = some s') :
    SameListening s.g s'.g := by
  induction l generalizing s with
  | nil =>
    obtain rfl := Option.some.inj hw
    exact SameListening.refl s.g
  | cons fd rest ih =>
    unfold closeSockets at hw
    split at hw
    · cases hw
    · rename_i info hl
      obtain ⟨r, hr, hw⟩ := Option.bind_eq_some_iff.mp hw
      obtain ⟨hinv, -, hlook⟩ := inv_closeConn h hl (hthr fd List.mem_cons_self info hl) hr
      have hrest : ∀ f ∈ rest, Threaded r.2.g f := by
        intro f hf i hi
        rw [hlook] at hi
        split at hi
        · cases hi
        · exact hthr f (List.mem_cons_of_mem _ hf) i hi
      exact (sameListening_closeConn h.pool.pooled hl hr).trans (ih hinv hrest hw)

/-! ## What calls keep -/

/-- On a controller, every device listens on a socket of its own or has none. -/
structure Heard (s : Sys) : Prop where
  controller : s.g.ofdevType = .controller
  nonneg : ∀ fd ∈ s.g.oflistenPollthr.fds, ¬fd < 0
  main : ∀ key fd, mainOf s.g key = some fd → fd < 0 ∨ fd ∈ s.g.oflistenPollthr.fds
  unique : ∀ key key' fd, mainOf s.g key = some fd → mainOf s.g key' = some fd →
    fd ∈ s.g.oflistenPollthr.fds → key = key'

theorem Heard.same {s s' : Sys} (h : Heard s) (hsame : SameListening s.g s'.g) : Heard s' := by
  refine ⟨hsame.ofdevType.trans h.controller, ?_, fun key fd => ?_, fun key key' fd => ?_⟩
  · rw [hsame.listen]
    exact h.nonneg
  · rw [hsame.main, hsame.listen]
    exact h.main key fd
  · rw [hsame.main, hsame.main, hsame.listen]
    exact h.unique key key' fd

/-- A socket that is listened on is added to the listen thread, or there is no socket. -/
theorem openListenfd_cases {g : Global} {fd : Fd} {r : Int × Global}
    (h : Sorted.Managed g.oflistenPollthr) (hr : Core.Api.tcpOpenListenfd g fd = some r) :
    (Int32.ofInt r.1 < 0 ∧ r.2 = g) ∨
      (¬fd < 0 ∧ Int32.ofInt r.1 = fd ∧ r.2 = { g with oflistenPollthr := r.2.oflistenPollthr } ∧
        r.2.oflistenPollthr.fds = g.oflistenPollthr.fds ++ [fd]) := by
  unfold Core.Api.tcpOpenListenfd at hr
  split at hr
  · rename_i hneg
    obtain rfl := Option.some.inj hr
    refine .inl ⟨?_, rfl⟩
    rw [Int32.ofInt_toInt]
    exact hneg
  · rename_i hpos
    obtain ⟨q, hq, rfl⟩ := Option.map_eq_some_iff.mp hr
    by_cases hroom : g.oflistenPollthr.fds.length < 200
    · obtain ⟨hret, hfds, -⟩ := h.add hroom hq
      refine .inr ⟨hpos, ?_, rfl, hfds⟩
      rw [hret, Int32.ofInt_toInt]
    · have hfull : g.oflistenPollthr.fds.length = 200 := by
        have hbound := h.bounded
        omega
      simp only [adpThrMgrAddDelFd, if_pos (h.full_iff.mpr hfull)] at hq
      obtain rfl := Option.some.inj hq
      exact .inl ⟨show Int32.ofInt (-1) < 0 by decide, rfl⟩

/-- The record that a controller puts into the table has a new socket or a negative number. -/
theorem devRegister_listens {g : Global} {key : DevKey} {ver : Nat} {cb : Callbacks} {fd : Fd}
    {q : Ret × Global} (h : Sorted.Managed g.oflistenPollthr) (htype : g.ofdevType = .controller)
    (hq : Core.Api.ccOfDevRegister g key ver cb fd = some q) :
    q.2 = g ∨ ∃ main, q.2.ofdevType = .controller ∧
      (∀ k, mainOf q.2 k = if k = key then some main else mainOf g k) ∧
      ((main < 0 ∧ q.2.oflistenPollthr = g.oflistenPollthr) ∨
        (main = fd ∧ ¬fd < 0 ∧ q.2.oflistenPollthr.fds = g.oflistenPollthr.fds ++ [fd])) := by
  unfold Core.Api.ccOfDevRegister at hq
  dsimp only at hq
  split at hq
  · obtain rfl := Option.some.inj hq
    exact .inl rfl
  · split at hq
    · rename_i hswitch
      rw [htype] at hswitch
      cases hswitch
    · obtain ⟨l, hl, hq⟩ := Option.map_eq_some_iff.mp hq
      have hput : q.2 = { l.2 with
          ofdevHtbl := l.2.ofdevHtbl.insert key (DevInfo.mk ver [] cb (Int32.ofInt l.1) 0) } := by
        rw [← hq]
        split
        · rfl
        · rfl
      -- the record was in the table before, with zero
      have hmain : ∀ k, l.2.ofdevHtbl = g.ofdevHtbl.insert key (DevInfo.mk ver [] cb 0 0) →
          mainOf q.2 k = if k = key then some (Int32.ofInt l.1) else mainOf g k := by
        intro k htbl
        rw [hput, mainOf, mainOf, htbl, lookup_insert_eq, lookup_insert_eq]
        split
        · rfl
        · rfl
      refine .inr ⟨Int32.ofInt l.1, ?_⟩
      rcases openListenfd_cases (by exact h) hl with ⟨hneg, heq⟩ | ⟨hpos, hret, heq, hfds⟩
      · refine ⟨?_, fun k => hmain k (by rw [heq]), .inl ⟨hneg, ?_⟩⟩
        · rw [hput, heq]
          exact htype
        · rw [hput, heq]
      · refine ⟨?_, fun k => hmain k (by rw [heq]), .inr ⟨hret, hpos, ?_⟩⟩
        · rw [hput, heq]
          exact htype
        · rw [hput]
          exact hfds

theorem heard_devRegister {s : Sys} {key : DevKey} {ver : Nat} {cb : Callbacks} {fd : Fd}
    {r : Ret × Sys} (h : Heard s) (hinv : Inv s) (hfd : fd ∉ s.own)
    (hr : ccOfDevRegister s key ver cb fd = some r) : Heard r.2 := by
  obtain ⟨q, hq, rfl⟩ := Option.map_eq_some_iff.mp hr
  have hnew : fd ∉ s.g.oflistenPollthr.fds := fun hf => hfd (hinv.listening fd hf)
  rcases devRegister_listens hinv.listen h.controller hq with
    heq | ⟨main, htype, hmain, ⟨hneg, hlisten⟩ | ⟨rfl, hpos, hfds⟩⟩
  · have hsame : SameListening s.g q.2 := by
      rw [heq]
      exact SameListening.refl s.g
    exact h.same hsame
  · refine ⟨htype, ?_, fun k f hk => ?_, fun k k' f hk hk' hf => ?_⟩
    · show ∀ f ∈ q.2.oflistenPollthr.fds, ¬f < 0
      rw [hlisten]
      exact h.nonneg
    · show f < 0 ∨ f ∈ q.2.oflistenPollthr.fds
      rw [hlisten]
      rw [hmain] at hk
      split at hk
      · obtain rfl := Option.some.inj hk
        exact .inl hneg
      · exact h.main k f hk
    · rw [hlisten] at hf
      rw [hmain] at hk hk'
      split at hk
      · obtain rfl := Option.some.inj hk
        exact absurd hneg (h.nonneg _ hf)
      · split at hk'
        · obtain rfl := Option.some.inj hk'
          exact absurd hneg (h.nonneg _ hf)
        · exact h.unique k k' f hk hk' hf
  · -- no other device has the number of the new socket
    have hother : ∀ k, mainOf s.g k ≠ some main := by
      intro k hk
      rcases h.main k main hk with hneg | hmem
      · exact hpos hneg
      · exact hnew hmem
    refine ⟨htype, fun f hf => ?_, fun k f hk => ?_, fun k k' f hk hk' hf => ?_⟩
    · rw [hfds] at hf
      rcases List.mem_append.mp hf with hf | hf
      · exact h.nonneg f hf
      · rw [List.mem_singleton.mp hf]
        exact hpos
    · show f < 0 ∨ f ∈ q.2.oflistenPollthr.fds
      rw [hfds]
      rw [hmain] at hk
      split at hk
      · obtain rfl := Option.some.inj hk
        exact .inr (List.mem_append_right _ List.mem_cons_self)
      · exact (h.main k f hk).imp_right (List.mem_append_left _)
    · rw [hfds] at hf
      rw [hmain] at hk hk'
      split at hk
      · rename_i hkey
        obtain rfl := Option.some.inj hk
        split at hk'
        · rename_i hkey'
          rw [hkey, hkey']
        · exact absurd hk' (hother k')
      · split at hk'
        · obtain rfl := Option.some.inj hk'
          exact absurd hk (hother k)
        · rcases List.mem_append.mp hf with hf | hf
          · exact h.unique k k' f hk hk' hf
          · rw [List.mem_singleton.mp hf] at hk
            exact absurd hk (hother k)

/-- A device is freed: the listen thread drops its socket. -/
theorem devFreeLockfree_listens {closeRet : Fd → Int} {key : DevKey} {s : Sys} {r : Ret × Sys}
    (h : Inv s)
    (hok : ∀ dev, s.g.ofdevHtbl.lookup key = some dev →
      dev.mainSockfdTcp ∈ s.g.oflistenPollthr.fds ∧ ∀ fd ∈ dev.ofrwSocketList, Threaded s.g fd)
    (hf : ccOfDevFreeLockfree s key closeRet = some r) :
    ∃ main, mainOf s.g key = some main ∧ main ∈ s.g.oflistenPollthr.fds ∧
      r.1 = closeRet main ∧ r.2.g.ofdevType = s.g.ofdevType ∧
      (∀ k, mainOf r.2.g k = mainOf s.g k) ∧
      r.2.g.oflistenPollthr.fds = s.g.oflistenPollthr.fds.erase main := by
  unfold ccOfDevFreeLockfree at hf
  split at hf
  · cases hf
  · rename_i dev hd
    obtain ⟨s₁, hw, hf⟩ := Option.bind_eq_some_iff.mp hf
    obtain ⟨s₂, hc, rfl⟩ := Option.map_eq_some_iff.mp hf
    obtain ⟨hmain, hthr⟩ := hok dev hd
    have hsame := sameListening_closeSockets _ h hthr hw
    obtain ⟨a, ha, rfl⟩ := Option.map_eq_some_iff.mp hc
    obtain rfl := Option.some.inj ha
    refine ⟨dev.mainSockfdTcp, by rw [mainOf, hd]; rfl, hmain, rfl, hsame.ofdevType, hsame.main, ?_⟩
    show s₁.g.oflistenPollthr.fds.erase dev.mainSockfdTcp =
      s.g.oflistenPollthr.fds.erase dev.mainSockfdTcp
    rw [hsame.listen]

theorem heard_freed {s s' : Sys} {key : DevKey} {main : Fd} (h : Heard s)
    (hmain : mainOf s.g key = some main) (hmem : main ∈ s.g.oflistenPollthr.fds)
    (htype : s'.g.ofdevType = s.g.ofdevType)
    (hmains : ∀ k, mainOf s'.g k = if k = key then none else mainOf s.g k)
    (hfds : s'.g.oflistenPollthr.fds = s.g.oflistenPollthr.fds.erase main) : Heard s' := by
  refine ⟨htype.trans h.controller, fun f hf => ?_, fun k f hk => ?_, fun k k' f hk hk' hf => ?_⟩
  · rw [hfds] at hf
    exact h.nonneg f (List.mem_of_mem_erase hf)
  · rw [hmains] at hk
    split at hk
    · cases hk
    · rename_i hne
      rw [hfds]
      have hdiff : f ≠ main := by
        rintro rfl
        exact hne (h.unique k key f hk hmain hmem)
      exact (h.main k f hk).imp_right (List.mem_erase_of_ne hdiff).mpr
  · rw [hfds] at hf
    rw [hmains] at hk hk'
    split at hk
    · cases hk
    · split at hk'
      · cases hk'
      · exact h.unique k k' f hk hk' (List.mem_of_mem_erase hf)

theorem mainOf_erase (g : Global) (key k : DevKey) :
    mainOf { g with ofdevHtbl := g.ofdevHtbl.erase key } k =
      if k = key then none else mainOf g k := by
  unfold mainOf
  rw [lookup_erase_eq]
  split
  · rfl
  · rfl

/-- What is closed has a thread, and a device that is freed has a listening socket, which `close`
closes. -/
def FreesCleanly (s : Sys) (op : Op) : Prop :=
  ClosesSockets s op ∧ ∀ key closeRet, op = .devfreeIter key closeRet →
    ∀ main ∈ mainOf s.g key, ¬closeRet main < 0

theorem heard_step {s s' : Sys} {op : Op} (h : Heard s) (hinv : Inv s) (hok : FreesCleanly s op)
    (hs : step s op = some s') : Heard s' := by
  cases op with
  | devRegister key ver cb fd =>
    obtain ⟨hfd, hs⟩ := Option.ite_none_left_eq_some.mp hs
    obtain ⟨r, hr, rfl⟩ := Option.map_eq_some_iff.mp hs
    exact heard_devRegister h hinv hfd hr
  | createChannel key ck proto fd block =>
    obtain ⟨-, hs⟩ := Option.ite_none_left_eq_some.mp hs
    obtain ⟨r, hr, rfl⟩ := Option.map_eq_some_iff.mp hs
    rcases createChannel_adds hr with heq | ⟨q, hq, heq⟩
    · rw [heq]
      exact h
    · rw [heq]
      exact h.same (sameListening_addSockfd hq)
  | accept fd key ck block => exact h.same (sameListening_accept hs)
  | udpServer key fd block =>
    obtain ⟨-, hs⟩ := Option.ite_none_left_eq_some.mp hs
    obtain ⟨r, hr, rfl⟩ := Option.map_eq_some_iff.mp hs
    rcases udpServer_adds hr with heq | ⟨q, hq, heq⟩
    · rw [heq]
      exact h
    · rw [heq]
      exact h.same (sameListening_addSockfd hq)
  | datagram fd src data =>
    obtain ⟨r, hr, rfl⟩ := Option.map_eq_some_iff.mp hs
    exact h.same (sameListening_pollin hr)
  | setReal d a ck =>
    obtain rfl := Option.some.inj hs
    exact h.same (sameListening_setReal s.g d a ck)
  | destroyChannel ck closeRet =>
    obtain ⟨r, hr, rfl⟩ := Option.map_eq_some_iff.mp hs
    unfold ccOfDestroyChannel at hr
    split at hr
    · obtain rfl := Option.some.inj hr
      exact h
    · split at hr
      · obtain rfl := Option.some.inj hr
        exact h
      · rename_i info hl
        exact h.same (sameListening_closeConn hinv.pool.pooled hl hr)
  | closeConn fd closeRet =>
    obtain ⟨info, hl, hs⟩ := Option.bind_eq_some_iff.mp hs
    obtain ⟨r, hr, rfl⟩ := Option.map_eq_some_iff.mp hs
    exact h.same (sameListening_closeConn hinv.pool.pooled hl hr)
  | devFree key closeRet =>
    obtain ⟨r, hr, rfl⟩ := Option.map_eq_some_iff.mp hs
    unfold ccOfDevFree at hr
    split at hr
    · obtain ⟨q, hq, rfl⟩ := Option.map_eq_some_iff.mp hr
      obtain ⟨main, hmain, hmem, -, htype, hmains, hfds⟩ := devFreeLockfree_listens hinv hok.1 hq
      have hreg : key ∈ q.2.g.ofdevHtbl := by
        have hsome := hmains key
        rw [hmain] at hsome
        obtain ⟨dev, hd, -⟩ := Option.map_eq_some_iff.mp hsome
        exact mem_iff_lookup.mpr ⟨dev, hd⟩
      simp only [updateGlobalHtblLockfree, if_pos hreg]
      refine heard_freed h hmain hmem htype (fun k => ?_) hfds
      rw [mainOf_erase, hmains]
    · cases hr
  | devfreeIter key closeRet =>
    obtain ⟨q, hq, rfl⟩ := Option.map_eq_some_iff.mp hs
    obtain ⟨main, hmain, hmem, hret, htype, hmains, hfds⟩ := devFreeLockfree_listens hinv hok.1 hq
    rw [if_neg (by rw [hret]; exact hok.2 key closeRet rfl main hmain)]
    refine heard_freed h hmain hmem htype (fun k => ?_) hfds
    rw [mainOf_erase, hmains]

/-! ## The walk -/

theorem visit_other {listenfd : Fd} {answer : Nat → Answer} {l : Loop} {key : DevKey}
    (h : mainOf l.sys.g key ≠ some listenfd) : visit listenfd answer l key = some l := by
  unfold visit
  split
  · rfl
  · rename_i dev hd
    rw [if_neg]
    intro heq
    apply h
    rw [mainOf, hd, Option.map_some, heq]

theorem visit_others {listenfd : Fd} {answer : Nat → Answer} {l : Loop} (keys : List DevKey)
    (h : ∀ key ∈ keys, mainOf l.sys.g key ≠ some listenfd) :
    run (visit listenfd answer) l keys = some l := by
  induction keys with
  | nil => rfl
  | cons key keys ih =>
    rw [run_cons, visit_other (h key List.mem_cons_self), Option.bind_some]
    exact ih fun k hk => h k (List.mem_cons_of_mem _ hk)

/-- Where one device has the socket, the walk is one call of `accept_conn`. -/
theorem walk_once {s : Sys} {order : List DevKey} {listenfd : Fd} {key : DevKey}
    (answer : Nat → Answer) (hkey : mainOf s.g key = some listenfd) (hmem : key ∈ order)
    (hnodup : order.Nodup) (huniq : ∀ k, mainOf s.g k = some listenfd → k = key) :
    processListenfdPollinFunc s order listenfd answer =
      (step s (.accept (answer 0).connfd key (answer 0).channKey (answer 0).block)).map
        fun s' => ⟨s', false, true, false, [key]⟩ := by
  obtain ⟨before, after, rfl⟩ := List.append_of_mem hmem
  obtain ⟨-, hafter, hdisjoint⟩ := List.nodup_append.mp hnodup
  have hbefore : ∀ k ∈ before, mainOf s.g k ≠ some listenfd := by
    intro k hk heq
    exact hdisjoint k hk key List.mem_cons_self (huniq k heq)
  have hrest : ∀ k ∈ after, mainOf s.g k ≠ some listenfd := by
    intro k hk heq
    rw [huniq k heq] at hk
    exact (List.nodup_cons.mp hafter).1 hk
  obtain ⟨dev, hd, hmain⟩ := Option.map_eq_some_iff.mp hkey
  unfold processListenfdPollinFunc
  rw [run_append, visit_others before hbefore, Option.bind_some, run_cons]
  simp only [visit, hd, if_pos hmain, acceptConn, unlock, List.length_nil]
  cases hs : step s (.accept (answer 0).connfd key (answer 0).channKey (answer 0).block) with
  | none => rfl
  | some s' =>
    -- the devices listen where they did
    have hsame := sameListening_accept hs
    have hafter' : ∀ k ∈ after, mainOf s'.g k ≠ some listenfd := by
      intro k hk
      rw [hsame.main]
      exact hrest k hk
    simp only [Bool.false_eq_true, if_false, Option.map_some, Option.bind_some]
    rw [visit_others (l := ⟨s', false, true, false || !true, [] ++ [key]⟩) after hafter']
    rfl

theorem walk_none {s : Sys} {order : List DevKey} {listenfd : Fd} (answer : Nat → Answer)
    (hnone : ∀ k, mainOf s.g k ≠ some listenfd) :
    processListenfdPollinFunc s order listenfd answer = some ⟨s, false, false, false, []⟩ := by
  unfold processListenfdPollinFunc
  rw [visit_others order fun k _ => hnone k]
  rfl

theorem heard_start : Heard (start .controller) := by
  refine ⟨rfl, ?_, fun key fd hk => ?_, fun key key' fd hk => ?_⟩
  · intro fd hf
    cases hf
  · cases hk
  · cases hk

/-- When a socket of the listen thread is readable, exactly one connection is accepted, for the
device that listens there, and the lock is free again; or, where the device has been registered
again meanwhile, the socket is nobody's and nothing happens. -/
theorem listener_accepts_once (ops : List Op)
    (h : Guarded step FreesCleanly (start .controller) ops) :
    Always step (fun s => ∀ listenfd ∈ s.g.oflistenPollthr.fds, ∀ order answer,
      order.Perm s.g.ofdevHtbl.keys →
        (∃ key, mainOf s.g key = some listenfd ∧
          processListenfdPollinFunc s order listenfd answer =
            (step s (.accept (answer 0).connfd key (answer 0).channKey (answer 0).block)).map
              fun s' => ⟨s', false, true, false, [key]⟩) ∨
        ((∀ key, mainOf s.g key ≠ some listenfd) ∧
          processListenfdPollinFunc s order listenfd answer = some ⟨s, false, false, false, []⟩))
      (start .controller) ops := by
  have hall : Always step (fun s => Heard s ∧ Inv s) (start .controller) ops :=
    always_of_guarded
      (fun _ _ _ hinv hok hs => ⟨heard_step hinv.1 hinv.2 hok hs, inv_step hinv.2 hok.1 hs⟩)
      ⟨heard_start, inv_start .controller⟩ h
  refine hall.mono fun s hinv listenfd hfd order answer horder => ?_
  by_cases hkey : ∃ key, mainOf s.g key = some listenfd
  · obtain ⟨key, hkey⟩ := hkey
    obtain ⟨dev, hd, -⟩ := Option.map_eq_some_iff.mp hkey
    have hmem : key ∈ order :=
      horder.mem_iff.mpr (AList.mem_keys.mp (mem_iff_lookup.mpr ⟨dev, hd⟩))
    refine .inl ⟨key, hkey, walk_once answer hkey hmem
      (horder.nodup_iff.mpr s.g.ofdevHtbl.nodupKeys) fun k hk => ?_⟩
    exact hinv.1.unique k key listenfd hk hkey hfd
  · have hnone : ∀ key, mainOf s.g key ≠ some listenfd := fun key heq => hkey ⟨key, heq⟩
    exact .inr ⟨hnone, walk_none answer hnone⟩

/-- A device goes, and the kernel gives its listening socket to another one. -/
def reusesListenfd : List Op :=
  [.devRegister ⟨1, 2, 6633⟩ 0 ⟨0, 0, 0⟩ 4, .devRegister ⟨3, 2, 6634⟩ 0 ⟨0, 0, 0⟩ 6,
    .devfreeIter ⟨1, 2, 6633⟩ (fun _ => 0), .devRegister ⟨5, 2, 6635⟩ 0 ⟨0, 0, 0⟩ 4]

theorem listener_accepts_once_reused :
    ∃ s l, run step (start .controller) reusesListenfd = some s ∧
      s.g.oflistenPollthr.fds = [6, 4] ∧
      processListenfdPollinFunc s [⟨5, 2, 6635⟩, ⟨3, 2, 6634⟩] 4
        (fun _ => ⟨5, ⟨0, 0⟩, ⟨0, 0⟩⟩) = some l ∧
      l.calls.length = 1 ∧ l.misused = false ∧ l.held = false := by
  have hguard : Guarded step FreesCleanly (start .controller) reusesListenfd := by
    refine guarded_cons.mpr fun s₁ h₁ => ⟨⟨trivial, nofun⟩, guarded_cons.mpr fun s₂ h₂ =>
      ⟨⟨trivial, nofun⟩, guarded_cons.mpr fun s₃ h₃ => ⟨⟨?_, ?_⟩, guarded_cons.mpr fun s₄ h₄ =>
        ⟨⟨trivial, nofun⟩, guarded_nil⟩⟩⟩⟩
    · obtain rfl := Option.some.inj h₁
      obtain rfl := Option.some.inj h₂
      intro dev hdev
      obtain rfl := Option.some.inj hdev
      exact ⟨by decide, nofun⟩
    · intro key closeRet heq main _
      obtain ⟨-, rfl⟩ := Op.devfreeIter.inj heq
      exact show ¬(0 : Int) < 0 by decide
  have hrun : ((run step (start .controller) reusesListenfd).bind fun s =>
      (step s (.accept 5 ⟨5, 2, 6635⟩ ⟨0, 0⟩ ⟨0, 0⟩)).map fun _ =>
        (s.g.oflistenPollthr.fds, s.g.ofdevHtbl.keys, mainOf s.g ⟨5, 2, 6635⟩,
          mainOf s.g ⟨3, 2, 6634⟩)) =
      some ([6, 4], [⟨5, 2, 6635⟩, ⟨3, 2, 6634⟩], some 4, some 6) := by
    decide +kernel
  obtain ⟨s, hs, hrun⟩ := Option.bind_eq_some_iff.mp hrun
  obtain ⟨s', hs', hrun⟩ := Option.map_eq_some_iff.mp hrun
  obtain ⟨hfds, hrun⟩ := Prod.mk.inj hrun
  obtain ⟨hkeys, hrun⟩ := Prod.mk.inj hrun
  obtain ⟨hmain, hother⟩ := Prod.mk.inj hrun
  rcases (listener_accepts_once reusesListenfd hguard).last hs 4 (by rw [hfds]; decide)
      [⟨5, 2, 6635⟩, ⟨3, 2, 6634⟩] (fun _ => ⟨5, ⟨0, 0⟩, ⟨0, 0⟩⟩) (by rw [hkeys]) with
    ⟨key, hkey, hwalk⟩ | ⟨hnone, -⟩
  · have hreg : key ∈ s.g.ofdevHtbl.keys := by
      obtain ⟨dev, hd, -⟩ := Option.map_eq_some_iff.mp hkey
      exact AList.mem_keys.mp (mem_iff_lookup.mpr ⟨dev, hd⟩)
    rw [hkeys] at hreg
    obtain rfl : key = ⟨5, 2, 6635⟩ := by
      rcases List.mem_cons.mp hreg with heq | hreg
      · exact heq
      · rw [List.mem_singleton.mp hreg, hother] at hkey
        exact absurd (Option.some.inj hkey) (by decide)
    rw [hs', Option.map_some] at hwalk
    exact ⟨s, _, hs, hfds, hwalk, rfl, rfl, rfl⟩
  · exact absurd hmain (hnone _)

-- `close` fails for the listening socket of a device, which stays registered, and the next device
-- gets the descriptor: two connections are accepted, and the lock is unlocked twice.
example :
    ((run step (start .controller) [.devRegister ⟨1, 2, 6633⟩ 0 ⟨0, 0, 0⟩ 4,
      .devfreeIter ⟨1, 2, 6633⟩ (fun _ => -1), .devRegister ⟨3, 2, 6634⟩ 0 ⟨0, 0, 0⟩ 4]).bind fun s =>
        (processListenfdPollinFunc s s.g.ofdevHtbl.keys 4 fun n =>
          ⟨if n = 0 then 5 else 6, ⟨0, 0⟩, ⟨0, 0⟩⟩).map fun l => (l.calls.length, l.misused)) =
      some (2, true) := by
  decide +kernel

end OfConnect.Pool.Listening
