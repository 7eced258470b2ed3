import OfConnect.Pool.Moves
import OfConnect.Pool.Traced
import OfConnect.Udp.Reply

/-!
# Closing a socket, in every state that calls lead to

`Core.Effects` has what `close_conn` does to the tables and `Pool.Moves` what it does to the
pool. Here the two stand together, with the converse: when the call returns at all. What it
relies on is kept by every call, also by one that loses a socket or a device.
-/

namespace OfConnect.Pool.Closing

open OfConnect.Lib.Tables OfConnect.Lib.Run OfConnect.PollThr.Thread OfConnect.Core.State
open OfConnect.Core.Api OfConnect.Core.Effects OfConnect.Pool.Moves
open OfConnect.Udp.Demux (State Callback deliver processUdpfdPollinFunc udpOpenServerfd)
open OfConnect.Pool.Traced (Op Sys call call_of_step start)

/-! ## The effect of `close_conn` -/

/-- The managers after the one of the socket, if it has one, was told to drop it. -/
def dropped (g : Global) (fd : Fd) : Option MgrId → MgrId → ThreadMgr
  | none => g.mgrs
  | some m => (deleted g m fd).mgrs

theorem dropped_self (g : Global) (fd : Fd) (m : MgrId) :
    dropped g fd (some m) m = { g.mgrs m with
      numSockets := (g.mgrs m).numSockets - 1, fds := (g.mgrs m).fds.erase fd } := by
  simp only [dropped, deleted, Function.update_self]

theorem dropped_of_ne (g : Global) (fd : Fd) {tmgr : Option MgrId} {m : MgrId}
    (h : tmgr ≠ some m) : dropped g fd tmgr m = g.mgrs m := by
  cases tmgr with
  | none => rfl
  | some m' =>
    have hne : m ≠ m' := fun heq => h (heq ▸ rfl)
    simp only [dropped, deleted, Function.update_of_ne hne]

theorem nodup_dropped {g : Global} (h : ∀ m, (g.mgrs m).fds.Nodup) (fd : Fd) (tmgr : Option MgrId)
    (m : MgrId) : (dropped g fd tmgr m).fds.Nodup := by
  by_cases hm : tmgr = some m
  · subst hm
    rw [dropped_self]
    exact (h m).erase fd
  · rw [dropped_of_ne g fd hm]
    exact h m

/-- The thread of the socket polls all it did but the socket, and another thread polls what
it did. -/
theorem mem_dropped {g : Global} (h : ∀ m, (g.mgrs m).fds.Nodup) {fd f : Fd}
    {tmgr : Option MgrId} {m : MgrId} :
    f ∈ (dropped g fd tmgr m).fds ↔ f ∈ (g.mgrs m).fds ∧ ¬(f = fd ∧ tmgr = some m) := by
  by_cases hm : tmgr = some m
  · subst hm
    rw [dropped_self, (h m).mem_erase_iff]
    tauto
  · rw [dropped_of_ne g fd hm]
    tauto

theorem closeConn_inversion {g : Global} {fd : Fd} {info : RwInfo} {closeRet : Int}
    {r : Ret × Global} (hl : g.ofrwHtbl.lookup fd = some info)
    (h : closeConn g info.layer4Proto fd closeRet = some r) :
    ∃ d, ccDelSockfdRwPollthrLockfree g info.thrMgr .deleteFd fd = some d ∧
      r = if d.1 < 0 then d else (closeRet, d.2) := by
  have hfind : findThrmgrRwsocketLockfree g fd = some info.thrMgr := by
    simp only [findThrmgrRwsocketLockfree, hl, Option.map_some]
  have hdel : (ccDelSockfdRwPollthrLockfree g info.thrMgr .deleteFd fd).map
      (fun r => if r.1 < 0 then r else (closeRet, r.2)) = some r := by
    unfold closeConn tcpClose udpClose at h
    rw [hfind] at h
    split at h
    · exact h
    · exact h
    · cases h
    · cases h
  obtain ⟨d, hd, hr⟩ := Option.map_eq_some_iff.mp hdel
  exact ⟨d, hd, hr.symm⟩

theorem delFromMgr_mgrs {g : Global} {fd : Fd} {tmgr : Option MgrId} {q : Ret × Global}
    (h : delFromMgr g fd tmgr = some q) : q.2.mgrs = dropped g fd tmgr := by
  cases tmgr with
  | none =>
    obtain rfl := Option.some.inj h
    rfl
  | some m => exact (delFromMgr_moves h).1

/-- What becomes of the managers, next to what `closeConn_spec` says of the tables. -/
theorem closeConn_moves {g g' : Global} {fd : Fd} {info : RwInfo} {ret : Ret} {closeRet : Int}
    (hp : Pooled g) (hl : g.ofrwHtbl.lookup fd = some info)
    (h : closeConn g info.layer4Proto fd closeRet = some (ret, g')) :
    ∃ q, delFromMgr g fd info.thrMgr = some q ∧ g'.mgrs = q.2.mgrs ∧
      g'.ofrwPollthrList = q.2.ofrwPollthrList := by
  obtain ⟨d, hd, hr⟩ := closeConn_inversion hl h
  obtain ⟨hok, -⟩ := delSockfd_spec hp hl hd
  rw [if_neg (by rw [hok]; decide)] at hr
  obtain ⟨-, rfl⟩ := Prod.mk.inj hr
  obtain ⟨q, hq, hmgrs, -, hpool, -⟩ := delSockfd_moves (fun m hm => hp fd info m hl hm) hd
  exact ⟨q, hq, hmgrs, hpool⟩

theorem closeConn_mgrs {g g' : Global} {fd : Fd} {info : RwInfo} {ret : Ret} {closeRet : Int}
    (hp : Pooled g) (hl : g.ofrwHtbl.lookup fd = some info)
    (h : closeConn g info.layer4Proto fd closeRet = some (ret, g')) :
    g'.mgrs = dropped g fd info.thrMgr := by
  obtain ⟨q, hq, hmgrs, -⟩ := closeConn_moves hp hl h
  rw [hmgrs, delFromMgr_mgrs hq]

/-- `close_conn` has a function for the transport of the socket. -/
def Closable (info : RwInfo) : Prop := info.layer4Proto = .tcp ∨ info.layer4Proto = .udp

/-- An entered socket is closed if its device is registered, and otherwise the call follows
a pointer that was never set. -/
theorem closeConn_returns {g : Global} {fd : Fd} {info : RwInfo} (closeRet : Int) (hp : Pooled g)
    (hl : g.ofrwHtbl.lookup fd = some info) (hproto : Closable info)
    (hdev : info.devKey ∈ g.ofdevHtbl) :
    ∃ g', closeConn g info.layer4Proto fd closeRet = some (closeRet, g') := by
  have hfind : findThrmgrRwsocketLockfree g fd = some info.thrMgr := by
    simp only [findThrmgrRwsocketLockfree, hl, Option.map_some]
  obtain ⟨d, hd⟩ := delSockfd_returns (fun m hm => hp fd info m hl hm) hl hdev
  obtain ⟨hok, -⟩ := delSockfd_spec hp hl hd
  have hpos : ¬d.1 < 0 := by
    rw [hok]
    decide
  refine ⟨d.2, ?_⟩
  rcases hproto with hproto | hproto
  · simp only [closeConn, tcpClose, hproto, hfind, hd, Option.map_some, if_neg hpos]
  · simp only [closeConn, udpClose, hproto, hfind, Option.join_some, hd, Option.map_some,
      if_neg hpos]

/-! ## What every call keeps -/

/-- What closing relies on: managers of sockets are in the pool, the transport of a socket
can be closed, and no thread polls a socket twice. -/
structure Workable (g : Global) : Prop where
  pooled : Pooled g
  closable : ∀ fd info, g.ofrwHtbl.lookup fd = some info → Closable info
  nodup : ∀ m, (g.mgrs m).fds.Nodup

/-- The entries of `ofrw_htbl` are old ones, in all that matters here, or new ones with a
manager of the pool. -/
theorem Workable.of_entries {g g' : Global} (h : Workable g)
    (hpool : g.ofrwPollthrList ⊆ g'.ofrwPollthrList) (hmgrs : ∀ m, (g'.mgrs m).fds.Nodup)
    (hrw : ∀ fd info, g'.ofrwHtbl.lookup fd = some info →
      (∃ old, g.ofrwHtbl.lookup fd = some old ∧ old.thrMgr = info.thrMgr ∧
        old.layer4Proto = info.layer4Proto) ∨
      (Closable info ∧ ∀ m, info.thrMgr = some m → m ∈ g'.ofrwPollthrList)) : Workable g' := by
  constructor
  · intro fd info m hl hm
    rcases hrw fd info hl with ⟨old, hold, hthr, -⟩ | ⟨-, hnew⟩
    · exact hpool (h.pooled fd old m hold (hthr.trans hm))
    · exact hnew m hm
  · intro fd info hl
    rcases hrw fd info hl with ⟨old, hold, -, hproto⟩ | ⟨hnew, -⟩
    · have hclos := h.closable fd old hold
      unfold Closable at hclos ⊢
      rw [← hproto]
      exact hclos
    · exact hnew
  · exact hmgrs

/-- The table has lost entries at most. -/
theorem Workable.of_removes {g g' : Global} (h : Workable g)
    (hpool : g.ofrwPollthrList ⊆ g'.ofrwPollthrList) (hmgrs : ∀ m, (g'.mgrs m).fds.Nodup)
    (hrw : Udp.Reply.OnlyRemoves g g') : Workable g' :=
  h.of_entries hpool hmgrs fun fd info hl => .inl ⟨info, hrw fd info hl, rfl, rfl⟩

theorem nodup_findOrCreate {g : Global} (h : ∀ m, (g.mgrs m).fds.Nodup) (m : MgrId) :
    ((ccFindOrCreateRwPollthrSafe g).2.mgrs m).fds.Nodup := by
  rcases findOrCreate_cases g with ⟨elem, rest, -, -, heq⟩ | ⟨-, heq⟩
  · rw [heq]
    exact h m
  · rw [heq]
    by_cases hm : m = g.nextMgr
    · simp only [ccCreateRwPollthrSafe, hm, Function.update_self, adpThrMgrNew, List.nodup_nil]
    · simp only [ccCreateRwPollthrSafe, Function.update_of_ne hm]
      exact h m

/-- A thread asserts that it does not poll a socket that is added to it. -/
theorem nodup_addFd {t : ThreadMgr} {fd : Fd} {r : Int × ThreadMgr} (h : t.fds.Nodup)
    (ha : adpThrMgrAddDelFd t .addFd fd = some r) : r.2.fds.Nodup := by
  simp only [adpThrMgrAddDelFd] at ha
  split at ha
  · obtain rfl := Option.some.inj ha
    exact h
  · split at ha
    · cases ha
    · rename_i hfd
      obtain rfl := Option.some.inj ha
      exact List.nodup_append'.mpr ⟨h, List.nodup_singleton fd, List.disjoint_singleton.mpr hfd⟩

theorem workable_addSockfd {g g' : Global} {fd : Fd} {key : DevKey} {proto : L4Type}
    {ck : ChannelKey} {block : SockAddr} {ret : Ret} (h : Workable g)
    (hproto : proto = .tcp ∨ proto = .udp)
    (ha : ccAddSockfdRwPollthrSafe g fd key proto ck block = some (ret, g')) : Workable g' := by
  obtain ⟨hsame, hin⟩ := findOrCreate_spec g
  obtain ⟨hpool, -, hrest⟩ := addSockfd_moves ha
  have hnodup := nodup_findOrCreate h.nodup
  have hsub : g.ofrwPollthrList ⊆ g'.ofrwPollthrList := by
    rw [hpool]
    exact hsame.pool
  rcases hrest with ⟨-, hmgrs, hrw⟩ | ⟨t, -, ht, hmgrs, hrw⟩
  · refine h.of_removes hsub (fun m => by rw [hmgrs]; exact hnodup m) fun f info hl => ?_
    rw [hrw] at hl
    split at hl
    · cases hl
    · exact hl
  · refine h.of_entries hsub (fun m => ?_) fun f info hl => ?_
    · rw [hmgrs]
      by_cases hm : m = (ccFindOrCreateRwPollthrSafe g).1
      · rw [hm, Function.update_self]
        exact nodup_addFd (hnodup _) ht
      · rw [Function.update_of_ne hm]
        exact hnodup m
    · rw [hrw] at hl
      split at hl
      · obtain rfl := Option.some.inj hl
        refine .inr ⟨hproto, fun m hm => ?_⟩
        obtain rfl := Option.some.inj hm
        rw [hpool]
        exact hin
      · exact .inl ⟨info, hl, rfl, rfl⟩

theorem workable_setRwUp {g : Global} (h : Workable g) (fd : Fd) : Workable (setRwUp g fd).2 := by
  cases hl : g.ofrwHtbl.lookup fd with
  | none =>
    unfold setRwUp
    rw [hl]
    exact h
  | some info =>
    rw [setRwUp_of_entry hl]
    refine h.of_entries (fun _ hm => hm) h.nodup fun f i hi => .inl ?_
    rw [lookup_insert_eq] at hi
    split at hi
    · rename_i hf
      obtain rfl := Option.some.inj hi
      exact ⟨info, hf ▸ hl, rfl, rfl⟩
    · exact ⟨i, hi, rfl, rfl⟩

theorem workable_deliver {g : Global} (h : Workable g) (fd : Fd) (newConn : Bool) (src : SockAddr)
    (buf : List UInt8) : Workable (deliver g fd newConn src buf).1 := by
  rcases Udp.Reply.deliver_cases g fd newConn src buf with heq | heq
  · rw [heq]
    exact h
  · rw [heq]
    exact workable_setRwUp h fd

/-- A dummy socket has no manager. -/
theorem workable_atomicAdd {g : Global} {fd : Fd} {src : SockAddr} {key : DevKey}
    {ck : ChannelKey} {a : Ret × Global} (h : Workable g)
    (ha : atomicAddUpdHtblsWithRwsocketLockfree g fd src none key .udp ck = some a) :
    Workable a.2 := by
  cases hd : g.ofdevHtbl.lookup key with
  | none =>
    rw [atomicAdd_of_unregistered fd src none .udp ck hd] at ha
    obtain rfl := Option.some.inj ha
    refine h.of_removes (fun _ hm => hm) h.nodup fun f info hl => ?_
    rw [lookup_erase_eq] at hl
    split at hl
    · cases hl
    · rename_i hf
      rw [lookup_insert_eq, if_neg hf] at hl
      exact hl
  | some dev =>
    rw [atomicAdd_of_registered fd src none .udp ck hd] at ha
    obtain rfl := Option.some.inj ha
    refine h.of_entries (fun _ hm => hm) h.nodup fun f info hl => ?_
    rw [lookup_insert_eq] at hl
    split at hl
    · obtain rfl := Option.some.inj hl
      exact .inr ⟨.inr rfl, nofun⟩
    · exact .inl ⟨info, hl, rfl, rfl⟩

theorem workable_pollin {s : State} {udpSockfd : Fd} {src : SockAddr} {data : List UInt8}
    {r : State × List Callback} (h : Workable s.g)
    (hp : processUdpfdPollinFunc s udpSockfd src data = some r) : Workable r.1.g := by
  rcases Udp.Reply.pollin_cases hp with
    ⟨heq, -⟩ | ⟨fd, newConn, heq, -⟩ | ⟨key, a, ha, heq, -⟩
  · rw [heq]
    exact h
  · rw [heq]
    exact workable_deliver h fd newConn src _
  · rw [heq]
    exact workable_deliver (workable_atomicAdd h ha) _ true src _

theorem workable_closeConn {g g' : Global} {fd : Fd} {info : RwInfo} {ret : Ret} {closeRet : Int}
    (h : Workable g) (hl : g.ofrwHtbl.lookup fd = some info)
    (hc : closeConn g info.layer4Proto fd closeRet = some (ret, g')) : Workable g' := by
  obtain ⟨-, dev, -, hclosed⟩ := closeConn_spec h.pooled hl hc
  have hmgrs := closeConn_mgrs h.pooled hl hc
  refine h.of_removes (fun m hm => (hclosed.pool m).mpr hm) (fun m => ?_)
    (Udp.Reply.onlyRemoves_closeConn hc)
  rw [hmgrs]
  exact nodup_dropped h.nodup fd info.thrMgr m

theorem workable_closeSockets {closeRet : Fd → Int} (l : List Fd) {g g' : Global}
    (h : Workable g) (hw : closeSockets closeRet l g = some g') : Workable g' := by
  induction l generalizing g with
  | nil =>
    obtain rfl := Option.some.inj hw
    exact h
  | cons fd rest ih =>
    unfold closeSockets at hw
    split at hw
    · cases hw
    · rename_i info hl
      obtain ⟨r, hr, hw⟩ := Option.bind_eq_some_iff.mp hw
      exact ih (workable_closeConn h hl hr) hw

/-- The listen thread and the device table are not looked at. -/
theorem Workable.of_devices {g : Global} (h : Workable g) (t : ThreadMgr)
    (d : Table DevKey DevInfo) : Workable { g with oflistenPollthr := t, ofdevHtbl := d } :=
  ⟨h.pooled, h.closable, h.nodup⟩

theorem workable_devFreeLockfree {g : Global} {key : DevKey} {closeRet : Fd → Int}
    {r : Ret × Global} (h : Workable g) (hf : ccOfDevFreeLockfree g key closeRet = some r) :
    Workable r.2 := by
  unfold ccOfDevFreeLockfree at hf
  split at hf
  · cases hf
  · obtain ⟨g₁, hw, hf⟩ := Option.bind_eq_some_iff.mp hf
    obtain ⟨t, -, rfl⟩ := Option.map_eq_some_iff.mp hf
    exact (workable_closeSockets _ h hw).of_devices t.2 g₁.ofdevHtbl

theorem workable_devRegister {g g' : Global} {key : DevKey} {ver : Nat} {cb : Callbacks} {fd : Fd}
    {ret : Ret} (h : Workable g) (hr : ccOfDevRegister g key ver cb fd = some (ret, g')) :
    Workable g' := by
  rcases devRegister_cases hr with ⟨-, rfl⟩ | ⟨-, d, t, -, hg, -⟩
  · exact h
  · rw [hg]
    exact h.of_devices t g'.ofdevHtbl

theorem workable_createChannel {g : Global} {fd : Fd} {key : DevKey} {proto : L4Type}
    {ck : ChannelKey} {block : SockAddr} {r : Ret × Global} (h : Workable g)
    (hc : ccOfCreateChannel g key ck proto fd block = some r) : Workable r.2 := by
  rcases createChannel_cases hc with ⟨-, rfl⟩ | ⟨-, hproto, q, hq, rfl⟩
  · exact h
  · exact workable_addSockfd h hproto hq

theorem workable_accept {g : Global} {fd : Fd} {key : DevKey} {ck : ChannelKey}
    {block : SockAddr} {r : Ret × Global} (h : Workable g)
    (hc : tcpAccept g fd key ck block = some r) : Workable r.2 := by
  unfold tcpAccept at hc
  split at hc
  · obtain rfl := Option.some.inj hc
    exact h
  · obtain ⟨q, hq, rfl⟩ := Option.map_eq_some_iff.mp hc
    have hadd := workable_addSockfd h (.inl rfl) hq
    split
    · exact hadd
    · split
      · exact hadd
      · exact workable_setRwUp hadd fd

theorem workable_udpServer {g : Global} {fd : Fd} {key : DevKey} {block : SockAddr}
    {r : Ret × Global} (h : Workable g) (hc : udpOpenServerfd g key fd block = some r) :
    Workable r.2 := by
  unfold udpOpenServerfd at hc
  split at hc
  · obtain rfl := Option.some.inj hc
    exact h
  · obtain ⟨q, hq, rfl⟩ := Option.map_eq_some_iff.mp hc
    have hadd := workable_addSockfd h (.inr rfl) hq
    split
    · exact hadd
    · exact hadd

theorem workable_call {g g' : Global} {random : UInt32} {op : Op} (h : Workable g)
    (hc : call g random op = some g') : Workable g' := by
  cases op with
  | devRegister key ver cb fd =>
    obtain ⟨r, hr, rfl⟩ := Option.map_eq_some_iff.mp hc
    exact workable_devRegister h hr
  | createChannel key ck proto fd block =>
    obtain ⟨r, hr, rfl⟩ := Option.map_eq_some_iff.mp hc
    exact workable_createChannel h hr
  | accept fd key ck block =>
    obtain ⟨r, hr, rfl⟩ := Option.map_eq_some_iff.mp hc
    exact workable_accept h hr
  | udpServer key fd block =>
    obtain ⟨r, hr, rfl⟩ := Option.map_eq_some_iff.mp hc
    exact workable_udpServer h hr
  | datagram fd src data =>
    obtain ⟨r, hr, rfl⟩ := Option.map_eq_some_iff.mp hc
    exact workable_pollin h hr
  | setReal d a ck =>
    obtain rfl := Option.some.inj hc
    unfold ccOfSetRealDpidAuxid
    dsimp only
    split
    · exact h
    · exact ⟨h.pooled, h.closable, h.nodup⟩
  | destroyChannel ck closeRet =>
    obtain ⟨r, hr, rfl⟩ := Option.map_eq_some_iff.mp hc
    rcases destroyChannel_cases hr with ⟨hsame, -⟩ | ⟨fd, info, -, hl, hr⟩
    · rw [hsame]
      exact h
    · exact workable_closeConn h hl hr
  | closeConn fd closeRet =>
    obtain ⟨info, hl, hc⟩ := Option.bind_eq_some_iff.mp hc
    obtain ⟨r, hr, rfl⟩ := Option.map_eq_some_iff.mp hc
    exact workable_closeConn h hl hr
  | devFree key closeRet =>
    obtain ⟨r, hr, rfl⟩ := Option.map_eq_some_iff.mp hc
    unfold ccOfDevFree at hr
    split at hr
    · obtain ⟨q, hq, rfl⟩ := Option.map_eq_some_iff.mp hr
      exact (workable_devFreeLockfree h hq).of_devices q.2.oflistenPollthr _
    · cases hr
  | devfreeIter key closeRet =>
    obtain ⟨q, hq, rfl⟩ := Option.map_eq_some_iff.mp hc
    have hfree := workable_devFreeLockfree h hq
    split
    · exact hfree
    · exact hfree.of_devices q.2.oflistenPollthr _

theorem workable_libInit (devType : DevType) : Workable (ccOfLibInit devType) := by
  refine ⟨(Core.Consistency.sound_libInit devType).2, fun fd info hl => ?_, fun m => ?_⟩
  · cases hl
  · simp only [ccOfLibInit, ccCreateRwPollthrSafe, Function.update_apply]
    split
    · exact List.nodup_nil
    · exact List.nodup_nil

/-- Whatever was called before, a socket that is entered can be closed. -/
theorem workable_of_run {devType : DevType} {ops : List Op} {s : Sys}
    (h : run Traced.step (start devType) ops = some s) : Workable s.g := by
  have hall : Always Traced.step (fun t => Workable t.g) (start devType) ops :=
    always_of_step (fun _ _ _ hw hs => workable_call hw (call_of_step hs))
      (workable_libInit devType) ops
  exact hall.last h

end OfConnect.Pool.Closing
