import OfConnect.Core.SocketLists
import OfConnect.Lib.Run

/-!
# Sockets that nothing leads to

`cc_of_dev_register` and `ofchannel_htbl` replace what is there: a device that is
registered again starts with an empty socket list, and a channel key that is used again
names the new socket only. A socket that was on the old list, or under the old key, is
still polled and still has its entry in `ofrw_htbl`. The runs without such a socket are
exactly those in which neither happens while there is something to lose.
-/

namespace OfConnect.Core.Orphans

open OfConnect.Lib.Tables OfConnect.Lib.Run OfConnect.PollThr.Thread
open OfConnect.Core.State OfConnect.Core.Api OfConnect.Core.Effects OfConnect.Core.SocketLists

/-- Every socket is on the list of its device, and a channel key names it. -/
def NoOrphan (g : Global) : Prop :=
  ∀ fd info, g.ofrwHtbl.lookup fd = some info →
    (∃ dev, g.ofdevHtbl.lookup info.devKey = some dev ∧ fd ∈ dev.ofrwSocketList) ∧
    ∃ ck, Names g ck fd

/-- What holds with and without orphans: lists and keys lead to sockets, and to a socket
by one way only. -/
structure Indexed (g : Global) : Prop where
  listed_socket : ∀ key dev fd, g.ofdevHtbl.lookup key = some dev → fd ∈ dev.ofrwSocketList →
    ∃ info, g.ofrwHtbl.lookup fd = some info ∧ info.devKey = key
  listed_nodup : ∀ key dev, g.ofdevHtbl.lookup key = some dev → dev.ofrwSocketList.Nodup
  channel_socket : ∀ ck fd, Names g ck fd → fd ∈ g.ofrwHtbl
  named_once : ∀ c c' fd, Names g c fd → Names g c' fd → c = c'
  pooled : Pooled g

theorem Indexed.listed {g : Global} (h : Indexed g) : Listed g := ⟨h.listed_socket, h.listed_nodup⟩

inductive Op where
  | devRegister (key : DevKey) (maxOfver : Nat) (callbacks : Callbacks) (listenfd : Fd)
  | createChannel (key : DevKey) (ck : ChannelKey) (proto : L4Type) (clientfd : Fd)
      (block : SockAddr)
  | accept (connfd : Fd) (key : DevKey) (channKey : ChannelKey) (block : SockAddr)
  | destroyChannel (ck : ChannelKey) (closeRet : Int)

/-- One call. The kernel hands out descriptors that are not open, so none that has an
entry; a connection is accepted by a controller. -/
def step (g : Global) : Op → Option Global
  | .devRegister key maxOfver callbacks listenfd =>
    (ccOfDevRegister g key maxOfver callbacks listenfd).map Prod.snd
  | .createChannel key ck proto clientfd block =>
    if clientfd ∈ g.ofrwHtbl then none
    else (ccOfCreateChannel g key ck proto clientfd block).map Prod.snd
  | .accept connfd key channKey block =>
    if connfd ∈ g.ofrwHtbl ∨ g.ofdevType ≠ .controller then none
    else (tcpAccept g connfd key channKey block).map Prod.snd
  | .destroyChannel ck closeRet => (ccOfDestroyChannel g ck closeRet).map Prod.snd

/-- A socket that gets a descriptor and a registered device finds its key unused. -/
def OpensSafely (g : Global) (fd : Fd) (key : DevKey) (ck : ChannelKey) : Prop :=
  ¬fd < 0 → key ∈ g.ofdevHtbl → openKey g.ofdevType fd ck ∉ g.ofchannelHtbl

/-- The call replaces nothing that a socket depends on. -/
def ReplacesNothing (g : Global) : Op → Prop
  | .devRegister key maxOfver _ _ => maxOfver < maxOfverType →
      ∀ dev, g.ofdevHtbl.lookup key = some dev → dev.ofrwSocketList = []
  | .createChannel key ck _ clientfd _ => OpensSafely g clientfd key ck
  | .accept connfd key channKey _ => OpensSafely g connfd key channKey
  | .destroyChannel _ _ => True

/-! ## Opening -/

theorem noOrphan_congr {g g' : Global} (h : NoOrphan g) (hd : g'.ofdevHtbl = g.ofdevHtbl)
    (hc : g'.ofchannelHtbl = g.ofchannelHtbl)
    (hr : ∀ f info, g'.ofrwHtbl.lookup f = some info → g.ofrwHtbl.lookup f = some info) :
    NoOrphan g' := by
  intro fd info hl
  unfold Names
  rw [hd, hc]
  exact h fd info (hr fd info hl)

theorem noOrphan_added_iff {g g' : Global} {fd : Fd} {dev : DevInfo} {ck : ChannelKey}
    {info : RwInfo} (hi : Indexed g) (h : NoOrphan g) (hfd : fd ∉ g.ofrwHtbl)
    (ha : Added g g' fd dev ck info) : NoOrphan g' ↔ ck ∉ g.ofchannelHtbl := by
  constructor
  · -- the socket the key named before has lost its only name
    intro h' hck
    obtain ⟨ci, hci⟩ := mem_iff_lookup.mp hck
    have hname : Names g ck ci.rwSockfd := ⟨ci, hci, rfl⟩
    obtain ⟨fi, hfi⟩ := mem_iff_lookup.mp (hi.channel_socket ck _ hname)
    have hne : ci.rwSockfd ≠ fd := by
      intro he
      rw [he] at hfi
      exact hfd (mem_iff_lookup.mpr ⟨fi, hfi⟩)
    obtain ⟨-, c, hc⟩ := h' ci.rwSockfd fi (by rw [ha.ofrw, if_neg hne]; exact hfi)
    rcases ha.names_iff.mp hc with ⟨-, he⟩ | ⟨hck', hc⟩
    · exact hne he
    · exact hck' (hi.named_once c ck _ hc hname)
  · intro hck f fi hl
    rw [ha.ofrw] at hl
    split at hl
    · rename_i hf
      obtain rfl := Option.some.inj hl
      refine ⟨⟨_, by rw [ha.ofdev, lookup_insert_eq, if_pos rfl], by simp [hf]⟩, ck, ?_⟩
      exact ha.names_iff.mpr (Or.inl ⟨rfl, hf⟩)
    · obtain ⟨⟨d, hd, hmem⟩, c, hc⟩ := h f fi hl
      refine ⟨?_, c, ha.names_iff.mpr (Or.inr ⟨?_, hc⟩)⟩
      · rw [ha.ofdev, lookup_insert_eq]
        by_cases hk : fi.devKey = info.devKey
        · rw [hk, ha.registered] at hd
          obtain rfl := Option.some.inj hd
          exact ⟨_, if_pos hk, by simp [hmem]⟩
        · exact ⟨d, by rw [if_neg hk]; exact hd, hmem⟩
      · rintro rfl
        exact hck hc.mem

theorem noOrphan_opens_iff {g g' : Global} {fd : Fd} {key : DevKey} {ck : ChannelKey}
    (hi : Indexed g) (h : NoOrphan g) (hfd : fd ∉ g.ofrwHtbl) (ho : Opens g g' fd key ck) :
    NoOrphan g' ↔ OpensSafely g fd key ck := by
  unfold OpensSafely
  rcases ho with ⟨hneg, rfl⟩ | ⟨-, hnone, hr⟩ | ⟨dev, info, hneg, rfl, ha⟩
  · exact iff_of_true h fun hn => absurd hneg hn
  · refine iff_of_true (noOrphan_congr h hr.ofdev hr.ofchannel fun f info hl => ?_) fun _ hk => ?_
    · rw [hr.ofrw] at hl
      split at hl
      · cases hl
      · exact hl
    · exact absurd hk (AList.lookup_eq_none.mp hnone)
  · have hmem : info.devKey ∈ g.ofdevHtbl := mem_iff_lookup.mpr ⟨dev, ha.registered⟩
    rw [noOrphan_added_iff hi h hfd ha]
    exact ⟨fun hck _ _ => hck, fun hck => hck hneg hmem⟩

theorem indexed_opens {g g' : Global} {fd : Fd} {key : DevKey} {ck : ChannelKey}
    (hi : Indexed g) (hfd : fd ∉ g.ofrwHtbl) (ho : Opens g g' fd key ck) : Indexed g' := by
  have hlisted := hi.listed.opens hfd ho
  rcases ho with ⟨-, rfl⟩ | ⟨-, -, hr⟩ | ⟨dev, info, -, -, ha⟩
  · exact hi
  · refine ⟨hlisted.socket, hlisted.nodup, fun c f hn => ?_, ?_, hr.pooled hi.pooled⟩
    · rw [mem_iff_lookup, hr.lookup_ofrw hfd, ← mem_iff_lookup]
      exact hi.channel_socket c f (by simpa only [Names, hr.ofchannel] using hn)
    · simpa only [Names, hr.ofchannel] using hi.named_once
  · refine ⟨hlisted.socket, hlisted.nodup, fun c f hn => ?_, fun c c' f hn hn' => ?_,
      ha.pooled hi.pooled⟩
    · rw [ha.mem_iff]
      rcases ha.names_iff.mp hn with ⟨-, hf⟩ | ⟨-, hn⟩
      · exact Or.inl hf
      · exact Or.inr (hi.channel_socket c f hn)
    · -- the new socket had no name before
      have hnew : ∀ c, Names g c fd → False := fun c hn => hfd (hi.channel_socket c fd hn)
      rcases ha.names_iff.mp hn with ⟨rfl, rfl⟩ | ⟨-, hn⟩
      · rcases ha.names_iff.mp hn' with ⟨rfl, -⟩ | ⟨-, hn'⟩
        · rfl
        · exact absurd hn' (hnew c')
      · rcases ha.names_iff.mp hn' with ⟨-, rfl⟩ | ⟨-, hn'⟩
        · exact absurd hn (hnew c)
        · exact hi.named_once c c' f hn hn'

/-! ## Closing and registering -/

theorem noOrphan_closed {g g' : Global} {fd : Fd} {key : DevKey} {dev : DevInfo}
    (h : NoOrphan g) (hd : g.ofdevHtbl.lookup key = some dev) (hc : Closed g g' fd key dev) :
    NoOrphan g' := by
  intro f fi hl
  rw [hc.ofrw] at hl
  split at hl
  · cases hl
  · rename_i hne
    obtain ⟨⟨d, hdev, hmem⟩, c, hn⟩ := h f fi hl
    refine ⟨?_, c, hc.names_iff.mpr ⟨hn, hne⟩⟩
    rw [hc.ofdev]
    by_cases hk : fi.devKey = key
    · rw [hk, hd] at hdev
      obtain rfl := Option.some.inj hdev
      exact ⟨_, if_pos hk, (List.mem_erase_of_ne hne).mpr hmem⟩
    · exact ⟨d, by rw [if_neg hk]; exact hdev, hmem⟩

theorem indexed_closed {g g' : Global} {fd : Fd} {info : RwInfo} {dev : DevInfo}
    (hi : Indexed g) (hl : g.ofrwHtbl.lookup fd = some info)
    (hd : g.ofdevHtbl.lookup info.devKey = some dev) (hc : Closed g g' fd info.devKey dev) :
    Indexed g' := by
  have hlisted := hi.listed.closed hl hd hc
  refine ⟨hlisted.socket, hlisted.nodup, fun c f hn => ?_, fun c c' f hn hn' => ?_,
    hc.pooled hi.pooled⟩
  · obtain ⟨hn, hne⟩ := hc.names_iff.mp hn
    exact hc.mem_iff.mpr ⟨hi.channel_socket c f hn, hne⟩
  · exact hi.named_once c c' f (hc.names_iff.mp hn).1 (hc.names_iff.mp hn').1

theorem noOrphan_register_iff {g g' : Global} {key : DevKey} {d : DevInfo} (hi : Indexed g)
    (h : NoOrphan g) (hempty : d.ofrwSocketList = []) (hc : g'.ofchannelHtbl = g.ofchannelHtbl)
    (hr : g'.ofrwHtbl = g.ofrwHtbl)
    (hd : ∀ k, g'.ofdevHtbl.lookup k = if k = key then some d else g.ofdevHtbl.lookup k) :
    NoOrphan g' ↔ ∀ dev, g.ofdevHtbl.lookup key = some dev → dev.ofrwSocketList = [] := by
  constructor
  · intro h' dev hdev
    rw [List.eq_nil_iff_forall_not_mem]
    intro fd hf
    obtain ⟨info, hl, hk⟩ := hi.listed_socket key dev fd hdev hf
    obtain ⟨⟨d', hd', hmem⟩, -⟩ := h' fd info (by rw [hr]; exact hl)
    rw [hd, if_pos hk] at hd'
    obtain rfl := Option.some.inj hd'
    rw [hempty] at hmem
    cases hmem
  · intro hnone fd info hl
    rw [hr] at hl
    obtain ⟨⟨dev, hdev, hmem⟩, hn⟩ := h fd info hl
    refine ⟨⟨dev, ?_, hmem⟩, by simpa only [Names, hc] using hn⟩
    rw [hd]
    split
    · rename_i hk
      rw [hk] at hdev
      rw [hnone dev hdev] at hmem
      cases hmem
    · exact hdev

theorem indexed_register {g g' : Global} {key : DevKey} {d : DevInfo} (hi : Indexed g)
    (hempty : d.ofrwSocketList = []) (hc : g'.ofchannelHtbl = g.ofchannelHtbl)
    (hr : g'.ofrwHtbl = g.ofrwHtbl) (hpl : g'.ofrwPollthrList = g.ofrwPollthrList)
    (hd : ∀ k, g'.ofdevHtbl.lookup k = if k = key then some d else g.ofdevHtbl.lookup k) :
    Indexed g' := by
  have hlisted := hi.listed.register hempty hr hd
  refine ⟨hlisted.socket, hlisted.nodup, fun c f hn => ?_, ?_, ?_⟩
  · rw [hr]
    exact hi.channel_socket c f (by simpa only [Names, hc] using hn)
  · simpa only [Names, hc] using hi.named_once
  · unfold Pooled
    rw [hr, hpl]
    exact hi.pooled

/-! ## Runs -/

theorem step_cases {g g' : Global} {op : Op} (hs : step g op = some g') :
    (∃ key ver cb fd ret, op = .devRegister key ver cb fd ∧
      ccOfDevRegister g key ver cb fd = some (ret, g')) ∨
    (∃ fd key ck, fd ∉ g.ofrwHtbl ∧ Opens g g' fd key ck ∧
      (ReplacesNothing g op ↔ OpensSafely g fd key ck)) ∨
    (∃ ck closeRet, op = .destroyChannel ck closeRet ∧
      (g' = g ∨ ∃ fd info ret, g.ofrwHtbl.lookup fd = some info ∧
        closeConn g info.layer4Proto fd closeRet = some (ret, g'))) := by
  cases op with
  | devRegister key ver cb fd =>
    obtain ⟨r, hr, rfl⟩ := Option.map_eq_some_iff.mp hs
    exact Or.inl ⟨key, ver, cb, fd, r.1, rfl, hr⟩
  | createChannel key ck proto fd block =>
    simp only [step] at hs
    split at hs
    · cases hs
    · rename_i hfd
      obtain ⟨r, hr, rfl⟩ := Option.map_eq_some_iff.mp hs
      exact Or.inr (Or.inl ⟨fd, key, ck, hfd, createChannel_opens hr, Iff.rfl⟩)
  | accept fd key ck block =>
    simp only [step] at hs
    split at hs
    · cases hs
    · rename_i hno
      obtain ⟨r, hr, rfl⟩ := Option.map_eq_some_iff.mp hs
      exact Or.inr (Or.inl ⟨fd, key, ck, fun hm => hno (Or.inl hm), accept_opens hr, Iff.rfl⟩)
  | destroyChannel ck closeRet =>
    obtain ⟨r, hr, rfl⟩ := Option.map_eq_some_iff.mp hs
    refine Or.inr (Or.inr ⟨ck, closeRet, rfl, ?_⟩)
    rcases destroyChannel_cases hr with ⟨hsame, -⟩ | ⟨fd, info, -, hl, hr⟩
    · exact Or.inl hsame
    · exact Or.inr ⟨fd, info, r.1, hl, hr⟩

theorem indexed_step {g g' : Global} {op : Op} (hi : Indexed g) (hs : step g op = some g') :
    Indexed g' := by
  rcases step_cases hs with ⟨key, ver, cb, fd, ret, -, hreg⟩ | ⟨fd, key, ck, hfd, ho, -⟩ |
    ⟨ck, closeRet, -, rfl | ⟨fd, info, ret, hl, hc⟩⟩
  · rcases devRegister_cases hreg with ⟨-, rfl⟩ | ⟨-, d, t, hempty, hg, hd⟩
    · exact hi
    · exact indexed_register hi hempty (by rw [hg]) (by rw [hg]) (by rw [hg]) hd
  · exact indexed_opens hi hfd ho
  · exact hi
  · obtain ⟨-, dev, hd, hc⟩ := closeConn_spec hi.pooled hl hc
    exact indexed_closed hi hl hd hc

theorem noOrphan_step_iff {g g' : Global} {op : Op} (hi : Indexed g) (h : NoOrphan g)
    (hs : step g op = some g') : NoOrphan g' ↔ ReplacesNothing g op := by
  rcases step_cases hs with ⟨key, ver, cb, fd, ret, rfl, hreg⟩ | ⟨fd, key, ck, hfd, ho, hiff⟩ |
    ⟨ck, closeRet, rfl, rfl | ⟨fd, info, ret, hl, hc⟩⟩
  · rcases devRegister_cases hreg with ⟨hver, rfl⟩ | ⟨hver, d, t, hempty, hg, hd⟩
    · exact iff_of_true h fun hlt => absurd hver (Nat.not_le_of_lt hlt)
    · rw [noOrphan_register_iff hi h hempty (by rw [hg]) (by rw [hg]) hd]
      exact ⟨fun hnone _ => hnone, fun hnone => hnone hver⟩
  · rw [hiff]
    exact noOrphan_opens_iff hi h hfd ho
  · exact iff_of_true h trivial
  · obtain ⟨-, dev, hd, hc⟩ := closeConn_spec hi.pooled hl hc
    exact iff_of_true (noOrphan_closed h hd hc) trivial

theorem indexed_libInit (devType : DevType) : Indexed (ccOfLibInit devType) := by
  refine ⟨fun key dev fd hd => ?_, fun key dev hd => ?_, fun ck fd hn => ?_, fun c c' fd hn => ?_,
    fun fd info m hl => ?_⟩
  · cases hd
  · cases hd
  · obtain ⟨info, hi, -⟩ := hn; cases hi
  · obtain ⟨info, hi, -⟩ := hn; cases hi
  · cases hl

/-- A run never orphans a socket exactly if no call of it registers over a device that has
sockets or opens a socket under a channel key that is in use. -/
theorem no_orphan_iff_replaces_nothing (devType : DevType) (ops : List Op) :
    Always step NoOrphan (ccOfLibInit devType) ops ↔
      Guarded step ReplacesNothing (ccOfLibInit devType) ops :=
  always_iff_guarded_of_invariant (fun _ _ _ hi hs => indexed_step hi hs)
    (fun _ _ _ hi h hs => noOrphan_step_iff hi h hs) (indexed_libInit devType)
    (fun fd info hl => by cases hl) ops

/-- A switch registers a device again while a channel of it is open. -/
theorem register_again_orphans :
    ∃ g, run step (ccOfLibInit .switch)
        [.devRegister ⟨1, 2, 6633⟩ 0 ⟨0, 0, 0⟩ 0, .createChannel ⟨1, 2, 6633⟩ ⟨7, 0⟩ .tcp 5 ⟨0, 0⟩,
          .devRegister ⟨1, 2, 6633⟩ 0 ⟨0, 0, 0⟩ 0] = some g ∧
      ¬NoOrphan g := by
  refine ⟨_, rfl, fun h => ?_⟩
  obtain ⟨⟨dev, hd, hmem⟩, -⟩ := h 5 ⟨.down, some 0, ⟨1, 2, 6633⟩, ⟨0, 0⟩, .tcp⟩ (by decide)
  have hlist : dev.ofrwSocketList = [] := by
    obtain rfl := Option.some.inj hd
    rfl
  rw [hlist] at hmem
  cases hmem

end OfConnect.Core.Orphans
