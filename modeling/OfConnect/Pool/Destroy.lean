import OfConnect.Pool.Devices
import OfConnect.Pool.Sorted

/-!
# Destroying a channel

`cc_of_destroy_channel` finds the socket of a key and closes it: the thread of the socket, the
pool, the list of its device and the other two tables all change, and `close` comes last. With
tables that are consistent and a `close` that succeeds exactly one channel goes. A `close` that
fails is reported when the channel is gone already.
-/

namespace OfConnect.Pool.Destroy

open OfConnect.Lib.Tables OfConnect.Lib.Run OfConnect.Lib.Ranked OfConnect.PollThr.Thread
open OfConnect.Core.State OfConnect.Core.Api OfConnect.Core.Effects OfConnect.Core.Consistency
open OfConnect.Pool.Moves OfConnect.Pool.Closing OfConnect.Pool.Devices
open OfConnect.Pool.Sorted (delFromMgr_sorted room_congr)
open OfConnect.Pool.Traced (start)

theorem destroyChannel_of_socket {g : Global} {ck : ChannelKey} {fd : Fd} {info : RwInfo}
    (closeRet : Int) (hn : Names g ck fd) (hl : g.ofrwHtbl.lookup fd = some info) :
    ccOfDestroyChannel g ck closeRet = closeConn g info.layer4Proto fd closeRet := by
  obtain ⟨ci, hci, rfl⟩ := hn
  simp only [ccOfDestroyChannel, hci, hl]

/-! ## A `close` that succeeds -/

/-- Consistent tables, and a sorted pool whose managers poll the sockets that name them. A
pool lists a manager once, and a thread polls a set of sockets. -/
structure Orderly (g : Global) : Prop where
  consistent : Consistent g
  polled : ∀ fd info m, g.ofrwHtbl.lookup fd = some info → info.thrMgr = some m →
    m ∈ g.ofrwPollthrList ∧ fd ∈ (g.mgrs m).fds
  sorted : Descending (room g) g.ofrwPollthrList
  pool_nodup : g.ofrwPollthrList.Nodup
  fds_nodup : ∀ m ∈ g.ofrwPollthrList, (g.mgrs m).fds.Nodup

theorem Orderly.pooled {g : Global} (h : Orderly g) : Pooled g :=
  fun fd info m hl hm => (h.polled fd info m hl hm).1

/-- Calls that keep to the rules of `Core.Consistency`, and to those of the pool, lead to such
states. -/
theorem orderly_of_runs {devType : DevType} {ops : List Core.Consistency.Op}
    {ops' : List Sorted.Op} {g : Global}
    (htables : run Core.Consistency.step (ccOfLibInit devType) ops = some g)
    (hpool : run Sorted.step (ccOfLibInit devType) ops' = some g) : Orderly g := by
  have hsound : Always Core.Consistency.step Sound (ccOfLibInit devType) ops :=
    always_of_step (fun _ _ _ h hs => sound_step h hs) (sound_libInit devType) ops
  have hsorted : Always Sorted.step Sorted.Inv (ccOfLibInit devType) ops' :=
    always_of_step (fun _ _ _ h hs => Sorted.inv_step h hs) (Sorted.inv_libInit devType) ops'
  have hinv := hsorted.last hpool
  refine ⟨(hsound.last htables).1, fun fd info m hl hm => ?_, hinv.sorted, hinv.nodup,
    fun m hm => ?_⟩
  · obtain ⟨hlt, hpolled⟩ := hinv.polled fd info m hl hm
    exact ⟨(hinv.complete m).mpr hlt, hpolled⟩
  · exact (hinv.managed m ((hinv.complete m).mp hm)).nodup

/-- The socket `fd` with the key `ck` is gone from the tables, and nothing else is. -/
structure Removed (g g' : Global) (ck : ChannelKey) (fd : Fd) (info : RwInfo) : Prop where
  ofchannel : ∀ k, g'.ofchannelHtbl.lookup k = if k = ck then none else g.ofchannelHtbl.lookup k
  ofrw : ∀ f, g'.ofrwHtbl.lookup f = if f = fd then none else g.ofrwHtbl.lookup f
  ofdev : ∃ dev, g.ofdevHtbl.lookup info.devKey = some dev ∧ fd ∈ dev.ofrwSocketList ∧
    ∀ k, g'.ofdevHtbl.lookup k =
      if k = info.devKey then
        some { dev with ofrwSocketList := dev.ofrwSocketList.filter fun f => f ≠ fd }
      else g.ofdevHtbl.lookup k

/-- And the manager of the socket, if it has one, has dropped it and gone to its place in the
pool. -/
structure Destroyed (g g' : Global) (ck : ChannelKey) (fd : Fd) (info : RwInfo) : Prop
    extends Removed g g' ck fd info where
  mgrs : ∀ m, g'.mgrs m =
    if info.thrMgr = some m then { g.mgrs m with
      numSockets := (g.mgrs m).numSockets - 1, fds := (g.mgrs m).fds.filter fun f => f ≠ fd }
    else g.mgrs m
  pool : List.Perm g'.ofrwPollthrList g.ofrwPollthrList
  sorted : Descending (room g') g'.ofrwPollthrList
  listen : g'.oflistenPollthr = g.oflistenPollthr

/-- What `close_conn` does to consistent tables. -/
theorem removed_of_closed {g g' : Global} {ck : ChannelKey} {fd : Fd} {info : RwInfo} {dev : DevInfo}
    (h : Consistent g) (hn : Names g ck fd) (hl : g.ofrwHtbl.lookup fd = some info)
    (hd : g.ofdevHtbl.lookup info.devKey = some dev) (hc : Closed g g' fd info.devKey dev) :
    Removed g g' ck fd info := by
  obtain ⟨dev', hd', hnodup, hmem⟩ :=
    listsSockets_of_consistent h (mem_iff_lookup.mpr ⟨dev, hd⟩)
  rw [hd] at hd'
  obtain rfl := Option.some.inj hd'
  refine ⟨fun k => ?_, hc.ofrw, dev, hd, (hmem fd).mpr ⟨info, hl, rfl⟩, fun k => ?_⟩
  · -- `ck` is the only key of the socket
    obtain ⟨c, -, huniq⟩ := h.socket_named fd (mem_iff_lookup.mpr ⟨info, hl⟩)
    apply Option.ext
    intro ci
    rw [hc.ofchannel]
    split
    · rename_i hk
      subst hk
      obtain ⟨ci', hci', hfd⟩ := hn
      refine iff_of_false ?_ nofun
      rintro ⟨hci, hne⟩
      rw [hci'] at hci
      obtain rfl := Option.some.inj hci
      exact hne hfd
    · rename_i hk
      refine and_iff_left_of_imp fun hci hfd => hk ?_
      rw [huniq k ⟨ci, hci, hfd⟩, huniq ck hn]
  · rw [hc.ofdev, hnodup.erase_eq_filter]
    simp only [decide_not, ne_eq]
    rfl

theorem closeConn_listen {g : Global} {fd : Fd} {info : RwInfo} {closeRet : Int} {r : Ret × Global}
    (hl : g.ofrwHtbl.lookup fd = some info)
    (h : closeConn g info.layer4Proto fd closeRet = some r) :
    r.2.oflistenPollthr = g.oflistenPollthr := by
  obtain ⟨d, hd, rfl⟩ := closeConn_inversion hl h
  have hlisten := delSockfd_listen hd
  split
  · exact hlisten
  · exact hlisten

theorem mgrs_of_dropped {g : Global} {fd : Fd} {tmgr : Option MgrId}
    (hnodup : ∀ m, tmgr = some m → (g.mgrs m).fds.Nodup) (m : MgrId) :
    dropped g fd tmgr m =
      if tmgr = some m then { g.mgrs m with
        numSockets := (g.mgrs m).numSockets - 1, fds := (g.mgrs m).fds.filter fun f => f ≠ fd }
      else g.mgrs m := by
  split
  · rename_i hm
    subst hm
    rw [dropped_self, (hnodup m rfl).erase_eq_filter]
    simp only [decide_not, ne_eq]
    rfl
  · rename_i hm
    exact dropped_of_ne g fd hm

/-- In consistent tables a channel with a TCP socket can be destroyed. -/
theorem destroyChannel_removed {g : Global} {ck : ChannelKey} {fd : Fd} {info : RwInfo}
    (h : Sound g) (hn : Names g ck fd) (hl : g.ofrwHtbl.lookup fd = some info)
    (hproto : info.layer4Proto = .tcp) :
    ∃ g', ccOfDestroyChannel g ck 0 = some (ccOfOk, g') ∧
      closeConn g info.layer4Proto fd 0 = some (ccOfOk, g') ∧ Removed g g' ck fd info := by
  obtain ⟨dev, hd, -⟩ := h.1.socket_listed fd info hl
  obtain ⟨g', hclose⟩ :=
    closeConn_returns 0 h.2 hl (.inl hproto) (mem_iff_lookup.mpr ⟨dev, hd⟩)
  obtain ⟨-, dev', hd', hc⟩ := closeConn_spec h.2 hl hclose
  refine ⟨g', ?_, hclose, removed_of_closed h.1 hn hl hd' hc⟩
  rw [destroyChannel_of_socket 0 hn hl]
  exact hclose

theorem destroyed_of_orderly {g : Global} {ck : ChannelKey} {fd : Fd} {info : RwInfo}
    (h : Orderly g) (hn : Names g ck fd) (hl : g.ofrwHtbl.lookup fd = some info)
    (hproto : info.layer4Proto = .tcp) :
    ∃ g', ccOfDestroyChannel g ck 0 = some (ccOfOk, g') ∧ Destroyed g g' ck fd info := by
  obtain ⟨g', hdestroy, hclose, hremoved⟩ :=
    destroyChannel_removed ⟨h.consistent, h.pooled⟩ hn hl hproto
  obtain ⟨q, hq, hmgrs, hpool⟩ := closeConn_moves h.pooled hl hclose
  have hin : ∀ m, info.thrMgr = some m → m ∈ g.ofrwPollthrList := fun m => h.pooled fd info m hl
  obtain ⟨hperm, hsorted⟩ := delFromMgr_sorted hin h.sorted h.pool_nodup hq
  have hroom : room g' = room q.2 := funext fun m => room_congr (by rw [hmgrs])
  refine ⟨g', hdestroy, ⟨hremoved, fun m => ?_, ?_, ?_, closeConn_listen hl hclose⟩⟩
  · rw [hmgrs, delFromMgr_mgrs hq]
    exact mgrs_of_dropped (fun m hm => h.fds_nodup m (hin m hm)) m
  · rw [hpool]
    exact hperm
  · rw [hpool, hroom]
    exact hsorted

/-- `cc_of_create_channel` that succeeds has entered the socket in the tables. -/
theorem createChannel_added {g g₁ : Global} {key : DevKey} {ck : ChannelKey} {fd : Fd}
    {block : SockAddr} (hcreate : ccOfCreateChannel g key ck .tcp fd block = some (ccOfOk, g₁)) :
    ∃ dev m, Added g g₁ fd dev (openKey g.ofdevType fd ck)
      ⟨.down, some m, key, block, .tcp⟩ := by
  rcases createChannel_cases hcreate with ⟨-, heq⟩ | ⟨-, -, q, hq, heq⟩
  · cases (Prod.mk.inj heq).1
  · obtain ⟨hret, rfl⟩ := Prod.mk.inj heq
    rcases addSockfd_cases hq with ⟨hneg, -, -⟩ | ⟨dev, m, -, ha⟩
    · rw [hneg, if_pos (by decide)] at hret
      cases hret
    · exact ⟨dev, m, ha⟩

/-- A list to which a new element was appended, without it. -/
theorem filter_ne_append_singleton {l : List Fd} {fd : Fd} (h : fd ∉ l) :
    (l ++ [fd]).filter (fun f => f ≠ fd) = l := by
  have hkept : l.filter (fun f => f ≠ fd) = l := by
    rw [List.filter_eq_self]
    intro f hf
    exact decide_eq_true fun heq => h (heq ▸ hf)
  rw [List.filter_append, hkept, List.filter_cons_of_neg (by simp), List.filter_nil,
    List.append_nil]

/-- A new channel that is destroyed again leaves the tables as they were. -/
theorem create_destroy_restores {g g₁ : Global} {key : DevKey} {ck : ChannelKey} {fd : Fd}
    {block : SockAddr} (h : Sound g) (hfd : fd ∉ g.ofrwHtbl)
    (hck : openKey g.ofdevType fd ck ∉ g.ofchannelHtbl)
    (hcreate : ccOfCreateChannel g key ck .tcp fd block = some (ccOfOk, g₁)) :
    ∃ g₂, ccOfDestroyChannel g₁ (openKey g.ofdevType fd ck) 0 = some (ccOfOk, g₂) ∧
      (∀ k, g₂.ofdevHtbl.lookup k = g.ofdevHtbl.lookup k) ∧
      (∀ k, g₂.ofchannelHtbl.lookup k = g.ofchannelHtbl.lookup k) ∧
      ∀ f, g₂.ofrwHtbl.lookup f = g.ofrwHtbl.lookup f := by
  obtain ⟨dev, m, ha⟩ := createChannel_added hcreate
  have hl : g₁.ofrwHtbl.lookup fd = some ⟨.down, some m, key, block, .tcp⟩ := by
    rw [ha.ofrw, if_pos rfl]
  have hsound : Sound g₁ := ⟨consistent_added h.1 hfd hck ha, ha.pooled h.2⟩
  obtain ⟨g₂, hdestroy, -, hremoved⟩ :=
    destroyChannel_removed hsound (ha.names_iff.mpr (.inl ⟨rfl, rfl⟩)) hl rfl
  refine ⟨g₂, hdestroy, fun k => ?_, fun k => ?_, fun f => ?_⟩
  · -- the list is the old one with `fd` at its end
    obtain ⟨dev', hd', -, hlookup⟩ := hremoved.ofdev
    have hnew := h.1.listed.not_listed hfd ha.registered
    rw [ha.ofdev, lookup_insert_eq, if_pos rfl] at hd'
    obtain rfl := Option.some.inj hd'
    rw [hlookup]
    split
    · rename_i hk
      rw [hk, ha.registered]
      simp only [filter_ne_append_singleton hnew]
    · rename_i hk
      rw [ha.ofdev, lookup_insert_eq, if_neg hk]
  · rw [hremoved.ofchannel]
    split
    · rename_i hk
      rw [hk, AList.lookup_eq_none.mpr hck]
    · rename_i hk
      rw [ha.ofchannel, lookup_insert_eq, if_neg hk]
  · rw [hremoved.ofrw]
    split
    · rename_i hf
      rw [hf, AList.lookup_eq_none.mpr hfd]
    · rename_i hf
      rw [ha.ofrw, if_neg hf]

/-- Where the tables are consistent, every manager of a socket is in the pool and polls it,
and the pool is sorted, destroying a TCP channel removes that channel and nothing else; and a
channel that was just created leaves the tables as they were before. -/
theorem destroyChannel_removes_one {g : Global} (h : Orderly g) :
    (∀ ck fd info, Names g ck fd → g.ofrwHtbl.lookup fd = some info → info.layer4Proto = .tcp →
      ∃ g', ccOfDestroyChannel g ck 0 = some (ccOfOk, g') ∧ Destroyed g g' ck fd info) ∧
    ∀ key ck fd block g₁, fd ∉ g.ofrwHtbl → openKey g.ofdevType fd ck ∉ g.ofchannelHtbl →
      ccOfCreateChannel g key ck .tcp fd block = some (ccOfOk, g₁) →
      ∃ g₂, ccOfDestroyChannel g₁ (openKey g.ofdevType fd ck) 0 = some (ccOfOk, g₂) ∧
        (∀ k, g₂.ofdevHtbl.lookup k = g.ofdevHtbl.lookup k) ∧
        (∀ k, g₂.ofchannelHtbl.lookup k = g.ofchannelHtbl.lookup k) ∧
        ∀ f, g₂.ofrwHtbl.lookup f = g.ofrwHtbl.lookup f :=
  ⟨fun _ _ _ hn hl hproto => destroyed_of_orderly h hn hl hproto,
    fun _ _ _ _ _ hfd hck hcreate =>
      create_destroy_restores ⟨h.consistent, h.pooled⟩ hfd hck hcreate⟩

/-- A switch with two channels to its controller destroys the first. -/
theorem destroyChannel_first_of_two :
    ∃ g g', run Core.Consistency.step (ccOfLibInit .switch)
        [.devRegister ⟨1, 2, 6633⟩ 0 ⟨7, 8, 9⟩ 0,
          .createChannel ⟨1, 2, 6633⟩ ⟨42, 0⟩ .tcp 5 ⟨0, 0⟩,
          .createChannel ⟨1, 2, 6633⟩ ⟨42, 1⟩ .tcp 6 ⟨0, 0⟩] = some g ∧
      ccOfDestroyChannel g ⟨42, 0⟩ 0 = some (ccOfOk, g') ∧
      Destroyed g g' ⟨42, 0⟩ 5 ⟨.down, some 0, ⟨1, 2, 6633⟩, ⟨0, 0⟩, .tcp⟩ := by
  obtain ⟨g, hg⟩ : ∃ g, run Core.Consistency.step (ccOfLibInit .switch)
      [.devRegister ⟨1, 2, 6633⟩ 0 ⟨7, 8, 9⟩ 0,
        .createChannel ⟨1, 2, 6633⟩ ⟨42, 0⟩ .tcp 5 ⟨0, 0⟩,
        .createChannel ⟨1, 2, 6633⟩ ⟨42, 1⟩ .tcp 6 ⟨0, 0⟩] = some g := ⟨_, rfl⟩
  have hsorted : run Sorted.step (ccOfLibInit .switch)
      [.devRegister ⟨1, 2, 6633⟩ 0 ⟨7, 8, 9⟩ 0, .add 5 ⟨1, 2, 6633⟩ .tcp ⟨42, 0⟩ ⟨0, 0⟩,
        .add 6 ⟨1, 2, 6633⟩ .tcp ⟨42, 1⟩ ⟨0, 0⟩] = some g := hg
  have hentries := congrArg (Option.map fun g : Global =>
    (g.ofchannelHtbl.lookup ⟨42, 0⟩, g.ofrwHtbl.lookup 5)) hg
  obtain ⟨hck, hl⟩ := Prod.mk.inj (Option.some.inj hentries)
  obtain ⟨g', hdestroy, hdestroyed⟩ := (destroyChannel_removes_one (orderly_of_runs hg hsorted)).1
    ⟨42, 0⟩ 5 ⟨.down, some 0, ⟨1, 2, 6633⟩, ⟨0, 0⟩, .tcp⟩ ⟨⟨5, 0, 0, 0, 0⟩, hck.symm, rfl⟩ hl.symm rfl
  exact ⟨g, g', hg, hdestroy, hdestroyed⟩

/-! ## A `close` that fails -/

/-- The tables and the threads are as they were. -/
structure Unchanged (g g' : Global) : Prop where
  ofdev : ∀ k, g'.ofdevHtbl.lookup k = g.ofdevHtbl.lookup k
  ofchannel : ∀ k, g'.ofchannelHtbl.lookup k = g.ofchannelHtbl.lookup k
  ofrw : ∀ f, g'.ofrwHtbl.lookup f = g.ofrwHtbl.lookup f
  mgrs : g'.mgrs = g.mgrs
  pool : g'.ofrwPollthrList = g.ofrwPollthrList
  listen : g'.oflistenPollthr = g.oflistenPollthr

/-- A call that fails changes nothing. -/
def FailsClean (g : Global) (ck : ChannelKey) (closeRet : Int) : Prop :=
  ∀ ret g', ccOfDestroyChannel g ck closeRet = some (ret, g') → ret < 0 → Unchanged g g'

/-- In every state that calls lead to, a failed call changes nothing exactly if `close` does
not fail, or is not reached: the key names no socket that is entered, or the device of the
socket is not registered, and then the call does not return. -/
theorem destroyChannel_failsClean_iff {devType : DevType} {ops : List Traced.Op} {s : Traced.Sys}
    (h : run Traced.step (start devType) ops = some s) (ck : ChannelKey) (closeRet : Int) :
    FailsClean s.g ck closeRet ↔
      0 ≤ closeRet ∨ ∀ fd info, Names s.g ck fd → s.g.ofrwHtbl.lookup fd = some info →
        info.devKey ∉ s.g.ofdevHtbl := by
  have hw := workable_of_run h
  constructor
  · intro hclean
    by_contra hnot
    push Not at hnot
    obtain ⟨hneg, fd, info, hn, hl, hdev⟩ := hnot
    obtain ⟨g', hclose⟩ := closeConn_returns closeRet hw.pooled hl (hw.closable fd info hl) hdev
    obtain ⟨-, dev, -, hc⟩ := closeConn_spec hw.pooled hl hclose
    rw [← destroyChannel_of_socket closeRet hn hl] at hclose
    have hsame := (hclean closeRet g' hclose hneg).ofrw fd
    rw [hc.ofrw, if_pos rfl, hl] at hsame
    cases hsame
  · intro hcond ret g' hr hneg
    rcases destroyChannel_cases hr with ⟨hsame, -⟩ | ⟨fd, info, hn, hl, hclose⟩
    · have hsame : g' = s.g := hsame
      rw [hsame]
      exact ⟨fun _ => rfl, fun _ => rfl, fun _ => rfl, rfl, rfl, rfl⟩
    · obtain ⟨rfl, dev, hd, -⟩ := closeConn_spec hw.pooled hl hclose
      rcases hcond with hpos | hdev
      · exact absurd hneg (not_lt.mpr hpos)
      · exact absurd (mem_iff_lookup.mpr ⟨dev, hd⟩) (hdev fd info hn hl)

/-- A controller accepts a connection, and a `close` that succeeds is no failure. -/
theorem destroyChannel_failsClean_accepted :
    ∃ s, run Traced.step (start .controller)
        [.devRegister ⟨1, 0, 6633⟩ 0 ⟨7, 8, 9⟩ 4, .accept 5 ⟨1, 0, 6633⟩ ⟨0, 0⟩ ⟨0, 0⟩] = some s ∧
      FailsClean s.g (dummyKey 5) 0 := by
  obtain ⟨s, hs⟩ : ∃ s, run Traced.step (start .controller)
      [.devRegister ⟨1, 0, 6633⟩ 0 ⟨7, 8, 9⟩ 4, .accept 5 ⟨1, 0, 6633⟩ ⟨0, 0⟩ ⟨0, 0⟩] = some s :=
    ⟨_, rfl⟩
  exact ⟨s, hs, (destroyChannel_failsClean_iff hs _ _).mpr (.inl le_rfl)⟩

/-- The dummy socket of a UDP client is no descriptor, so that `close` refuses it: the call
fails, and the channel is gone. So it is with a TCP connection if `close` is interrupted. -/
theorem destroyChannel_fails_unclean :
    (∃ s, run Traced.step (start .controller) [.devRegister ⟨1, 0, 6633⟩ 0 ⟨7, 8, 9⟩ 4,
        .udpServer ⟨1, 0, 6633⟩ 7 ⟨0, 0⟩, .datagram 7 ⟨0x0100007f, 0x8813⟩ [1]] = some s ∧
      ¬FailsClean s.g (dummyKey 1048577) (-1)) ∧
    (∃ s, run Traced.step (start .controller)
        [.devRegister ⟨1, 0, 6633⟩ 0 ⟨7, 8, 9⟩ 4, .accept 5 ⟨1, 0, 6633⟩ ⟨0, 0⟩ ⟨0, 0⟩] = some s ∧
      ¬FailsClean s.g (dummyKey 5) (-1)) := by
  refine ⟨⟨_, rfl, fun h => ?_⟩, ⟨_, rfl, fun h => ?_⟩⟩
  · exact absurd ((h _ _ rfl (by decide)).ofchannel (dummyKey 1048577)) (by decide)
  · exact absurd ((h _ _ rfl (by decide)).ofchannel (dummyKey 5)) (by decide)

end OfConnect.Pool.Destroy
