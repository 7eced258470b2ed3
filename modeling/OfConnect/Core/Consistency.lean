import OfConnect.Core.SocketLists
import OfConnect.Lib.Run

/-!
# Consistency of the three tables

A socket has an entry in `ofrw_htbl`, a place in the list of its device and a key in
`ofchannel_htbl`, and no two of these come apart in any sequence of calls. The step
function lets a call through where its caller keeps to what the kernel and the
application promise: a new device key, a descriptor that is not in use, a channel key
that is not in use. What the calls answer is not restricted.
-/

namespace OfConnect.Core.Consistency

open OfConnect.Lib.Tables OfConnect.Lib.Run OfConnect.PollThr.Thread
open OfConnect.Core.State OfConnect.Core.Api OfConnect.Core.Effects OfConnect.Core.SocketLists

structure Consistent (g : Global) : Prop where
  /-- A socket is once in the list of its device, which is registered. -/
  socket_listed : ∀ fd info, g.ofrwHtbl.lookup fd = some info →
    ∃ dev, g.ofdevHtbl.lookup info.devKey = some dev ∧ dev.ofrwSocketList.count fd = 1
  /-- What a device lists is a socket, and one of that device. -/
  listed_socket : ∀ key dev fd, g.ofdevHtbl.lookup key = some dev → fd ∈ dev.ofrwSocketList →
    ∃ info, g.ofrwHtbl.lookup fd = some info ∧ info.devKey = key
  /-- A channel key names a socket. -/
  channel_socket : ∀ ck fd, Names g ck fd → fd ∈ g.ofrwHtbl
  /-- One key names the socket. -/
  socket_named : ∀ fd, fd ∈ g.ofrwHtbl → ∃! ck, Names g ck fd

theorem Consistent.listed {g : Global} (h : Consistent g) : Listed g := by
  refine ⟨h.listed_socket, fun key dev hd => List.nodup_iff_count_le_one.mpr fun fd => ?_⟩
  by_cases hf : fd ∈ dev.ofrwSocketList
  · obtain ⟨info, hl, rfl⟩ := h.listed_socket key dev fd hd hf
    obtain ⟨dev', hd', hcount⟩ := h.socket_listed fd info hl
    obtain rfl := Option.some.inj (hd.symm.trans hd')
    exact hcount.le
  · rw [List.count_eq_zero_of_not_mem hf]
    exact Nat.zero_le 1

/-- No fd is in the lists of two devices. -/
theorem Consistent.listed_once {g : Global} (h : Consistent g) {k k' : DevKey} {d d' : DevInfo}
    {fd : Fd} (hd : g.ofdevHtbl.lookup k = some d) (hd' : g.ofdevHtbl.lookup k' = some d')
    (hf : fd ∈ d.ofrwSocketList) (hf' : fd ∈ d'.ofrwSocketList) : k = k' := by
  obtain ⟨info, hl, rfl⟩ := h.listed_socket k d fd hd hf
  obtain ⟨info', hl', rfl⟩ := h.listed_socket k' d' fd hd' hf'
  rw [hl] at hl'
  rw [Option.some.inj hl']

/-! ## Opening -/

theorem consistent_congr {g g' : Global} (h : Consistent g)
    (hd : ∀ k, g'.ofdevHtbl.lookup k = g.ofdevHtbl.lookup k)
    (hc : ∀ k, g'.ofchannelHtbl.lookup k = g.ofchannelHtbl.lookup k)
    (hr : ∀ f, g'.ofrwHtbl.lookup f = g.ofrwHtbl.lookup f) : Consistent g' := by
  have hmem : ∀ f, f ∈ g'.ofrwHtbl ↔ f ∈ g.ofrwHtbl := fun f => by
    rw [mem_iff_lookup, mem_iff_lookup, hr]
  have hname : ∀ ck fd, Names g' ck fd ↔ Names g ck fd := fun ck fd => by
    simp only [Names, hc]
  constructor
  · intro fd info hl
    rw [hr] at hl
    rw [hd]
    exact h.socket_listed fd info hl
  · intro key dev fd hl hf
    rw [hd] at hl
    rw [hr]
    exact h.listed_socket key dev fd hl hf
  · intro ck fd hn
    exact (hmem fd).mpr (h.channel_socket ck fd ((hname ck fd).mp hn))
  · intro fd hf
    simp only [hname]
    exact h.socket_named fd ((hmem fd).mp hf)

theorem consistent_rolledBack {g g' : Global} {fd : Fd} (h : Consistent g)
    (hfd : fd ∉ g.ofrwHtbl) (hr : RolledBack g g' fd) : Consistent g' := by
  refine consistent_congr h (fun k => by rw [hr.ofdev]) (fun k => by rw [hr.ofchannel]) ?_
  exact hr.lookup_ofrw hfd

theorem consistent_added {g g' : Global} {fd : Fd} {dev : DevInfo} {ck : ChannelKey}
    {info : RwInfo} (h : Consistent g) (hfd : fd ∉ g.ofrwHtbl) (hck : ck ∉ g.ofchannelHtbl)
    (ha : Added g g' fd dev ck info) : Consistent g' := by
  have hdev := ha.registered
  have hname : ∀ c f, Names g' c f ↔ (c = ck ∧ f = fd) ∨ Names g c f := by
    intro c f
    rw [ha.names_iff]
    refine or_congr_right (and_iff_right_of_imp fun hn => ?_)
    rintro rfl
    exact hck hn.mem
  constructor
  · intro f fi hl
    rw [ha.ofrw] at hl
    rw [ha.ofdev, lookup_insert_eq]
    split at hl
    · rename_i hf
      obtain rfl := Option.some.inj hl
      refine ⟨_, if_pos rfl, ?_⟩
      simp [hf, List.count_eq_zero_of_not_mem (h.listed.not_listed hfd hdev)]
    · rename_i hf
      obtain ⟨d, hd, hcount⟩ := h.socket_listed f fi hl
      by_cases hk : fi.devKey = info.devKey
      · rw [hk, hdev] at hd
        obtain rfl := Option.some.inj hd
        refine ⟨_, if_pos hk, ?_⟩
        simp [List.count_append, hcount, Ne.symm hf]
      · exact ⟨d, by rw [if_neg hk]; exact hd, hcount⟩
  · exact (h.listed.added hfd ha).socket
  · intro c f hn
    rw [ha.mem_iff]
    rcases (hname c f).mp hn with ⟨-, rfl⟩ | hn
    · exact Or.inl rfl
    · exact Or.inr (h.channel_socket c f hn)
  · intro f hf
    rw [ha.mem_iff] at hf
    simp only [hname]
    by_cases hff : f = fd
    · subst hff
      refine ⟨ck, Or.inl ⟨rfl, rfl⟩, ?_⟩
      rintro c (⟨rfl, -⟩ | hn)
      · rfl
      · exact absurd (h.channel_socket c f hn) hfd
    · obtain ⟨c, hn, huniq⟩ := h.socket_named f (hf.resolve_left hff)
      refine ⟨c, Or.inr hn, ?_⟩
      rintro c' (⟨-, hf'⟩ | hn')
      · exact absurd hf' hff
      · exact huniq c' hn'

/-! ## Closing, renaming, devices -/

theorem consistent_closed {g g' : Global} {fd : Fd} {info : RwInfo} {dev : DevInfo}
    (h : Consistent g) (hl : g.ofrwHtbl.lookup fd = some info)
    (hdev : g.ofdevHtbl.lookup info.devKey = some dev) (hc : Closed g g' fd info.devKey dev) :
    Consistent g' := by
  constructor
  · intro f fi hf
    rw [hc.ofrw] at hf
    split at hf
    · cases hf
    · rename_i hne
      obtain ⟨d, hd, hcount⟩ := h.socket_listed f fi hf
      rw [hc.ofdev]
      by_cases hk : fi.devKey = info.devKey
      · rw [hk, hdev] at hd
        obtain rfl := Option.some.inj hd
        exact ⟨_, if_pos hk, by rw [List.count_erase_of_ne hne, hcount]⟩
      · exact ⟨d, by rw [if_neg hk]; exact hd, hcount⟩
  · exact (h.listed.closed hl hdev hc).socket
  · intro c f hn
    obtain ⟨hn, hne⟩ := hc.names_iff.mp hn
    exact hc.mem_iff.mpr ⟨h.channel_socket c f hn, hne⟩
  · intro f hf
    obtain ⟨hf, hne⟩ := hc.mem_iff.mp hf
    simp only [hc.names_iff, and_iff_left hne]
    exact h.socket_named f hf

/-- The socket number survives the way through the dummy key. -/
theorem dummyKey_sockfd (fd : Fd) : (dummyKey fd).dpId.toUInt32.toInt32 = fd := by
  apply Int32.toBitVec.inj
  show BitVec.setWidth 32 (BitVec.signExtend 64 fd.toBitVec) = fd.toBitVec
  ext i hi
  rw [BitVec.getElem_setWidth, BitVec.getLsbD_signExtend, if_pos hi, BitVec.getLsbD_eq_getElem hi]
  simp only [Bool.and_eq_right_iff_imp, decide_eq_true_eq]
  omega

/-- Different sockets have different dummy keys. -/
theorem dummyKey_injective {fd fd' : Fd} (h : dummyKey fd = dummyKey fd') : fd = fd' := by
  have hfds := congrArg (fun k : ChannelKey => k.dpId.toUInt32.toInt32) h
  rwa [dummyKey_sockfd, dummyKey_sockfd] at hfds

theorem lookup_setReal {g : Global} {fd : Fd} {info : ChannelInfo} (ck : ChannelKey)
    (hold : g.ofchannelHtbl.lookup (dummyKey fd) = some info) (c : ChannelKey) :
    (ccOfSetRealDpidAuxid g (dummyKey fd).dpId (dummyKey fd).auxId ck).2.ofchannelHtbl.lookup c =
      if c = ck then some info
      else (foreachRemove (fun _ ci => ci.rwSockfd == fd) g.ofchannelHtbl).lookup c := by
  have hfound : (g.ofchannelHtbl.lookup ⟨(dummyKey fd).dpId, (dummyKey fd).auxId⟩).or
      (g.ofchannelHtbl.lookup ⟨(dummyKey fd).dpId, (dummyKey fd).dpId.toUInt8⟩) = some info := by
    rw [hold, Option.some_or]
  simp only [ccOfSetRealDpidAuxid, hfound, updateGlobalHtblLockfree, delOfchannRwsocketLockfree,
    dummyKey_sockfd, lookup_insert_eq]

theorem setReal_tables (g : Global) (d : UInt64) (a : UInt8) (ck : ChannelKey) :
    (ccOfSetRealDpidAuxid g d a ck).2.ofdevHtbl = g.ofdevHtbl ∧
    (ccOfSetRealDpidAuxid g d a ck).2.ofrwHtbl = g.ofrwHtbl ∧
    (ccOfSetRealDpidAuxid g d a ck).2.ofrwPollthrList = g.ofrwPollthrList := by
  unfold ccOfSetRealDpidAuxid
  dsimp only
  split
  · exact ⟨rfl, rfl, rfl⟩
  · exact ⟨rfl, rfl, rfl⟩

/-- A channel key is replaced by one that is not in use. -/
theorem consistent_setReal {g : Global} {fd : Fd} {info : ChannelInfo} {ck : ChannelKey}
    (h : Consistent g) (hold : g.ofchannelHtbl.lookup (dummyKey fd) = some info)
    (hfd : info.rwSockfd = fd) (hck : ck ∉ g.ofchannelHtbl) :
    Consistent (ccOfSetRealDpidAuxid g (dummyKey fd).dpId (dummyKey fd).auxId ck).2 := by
  obtain ⟨hdev, hrw, -⟩ := setReal_tables g (dummyKey fd).dpId (dummyKey fd).auxId ck
  have hname : ∀ c f,
      Names (ccOfSetRealDpidAuxid g (dummyKey fd).dpId (dummyKey fd).auxId ck).2 c f ↔
        (c = ck ∧ f = fd) ∨ (Names g c f ∧ f ≠ fd) := by
    intro c f
    unfold Names
    rw [lookup_setReal ck hold]
    by_cases hc : c = ck
    · subst hc
      simp [AList.lookup_eq_none.mpr hck, hfd, eq_comm]
    · rw [if_neg hc]
      simp only [lookup_foreachRemove_iff, hc, false_and, false_or]
      constructor
      · rintro ⟨ci, ⟨hci, hne⟩, rfl⟩
        exact ⟨⟨ci, hci, rfl⟩, by simpa using hne⟩
      · rintro ⟨⟨ci, hci, rfl⟩, hne⟩
        exact ⟨ci, ⟨hci, by simpa using hne⟩, rfl⟩
  have hsock : fd ∈ g.ofrwHtbl := h.channel_socket (dummyKey fd) fd ⟨info, hold, hfd⟩
  constructor
  · rw [hdev, hrw]
    exact h.socket_listed
  · rw [hdev, hrw]
    exact h.listed_socket
  · intro c f hn
    rw [hrw]
    rcases (hname c f).mp hn with ⟨-, rfl⟩ | ⟨hn, -⟩
    · exact hsock
    · exact h.channel_socket c f hn
  · intro f hf
    rw [hrw] at hf
    simp only [hname]
    by_cases hff : f = fd
    · refine ⟨ck, Or.inl ⟨rfl, hff⟩, ?_⟩
      rintro c (⟨rfl, -⟩ | ⟨-, hne⟩)
      · rfl
      · exact absurd hff hne
    · obtain ⟨c, hn, huniq⟩ := h.socket_named f hf
      refine ⟨c, Or.inr ⟨hn, hff⟩, ?_⟩
      rintro c' (⟨-, hf'⟩ | ⟨hn', -⟩)
      · exact absurd hf' hff
      · exact huniq c' hn'

/-- A record without sockets is put under a key that had none. -/
theorem consistent_insert_empty {g g' : Global} {key : DevKey} {d : DevInfo} (h : Consistent g)
    (hkey : key ∉ g.ofdevHtbl) (hempty : d.ofrwSocketList = [])
    (hd : ∀ k, g'.ofdevHtbl.lookup k = if k = key then some d else g.ofdevHtbl.lookup k)
    (hc : g'.ofchannelHtbl = g.ofchannelHtbl) (hr : g'.ofrwHtbl = g.ofrwHtbl) : Consistent g' := by
  constructor
  · intro fd info hl
    rw [hr] at hl
    obtain ⟨dev, hdev, hcount⟩ := h.socket_listed fd info hl
    have hne : info.devKey ≠ key := by
      rintro rfl
      exact hkey (mem_iff_lookup.mpr ⟨dev, hdev⟩)
    exact ⟨dev, by rw [hd, if_neg hne, hdev], hcount⟩
  · exact (h.listed.register hempty hr hd).socket
  · intro ck fd hn
    rw [hr]
    exact h.channel_socket ck fd (by simpa only [Names, hc] using hn)
  · intro fd hf
    rw [hr] at hf
    simpa only [Names, hc] using h.socket_named fd hf

/-- A device that lists no socket can go. -/
theorem consistent_erase_empty {g : Global} {key : DevKey} {d : DevInfo} (h : Consistent g)
    (hd : g.ofdevHtbl.lookup key = some d) (hempty : d.ofrwSocketList = []) :
    Consistent { g with ofdevHtbl := g.ofdevHtbl.erase key } := by
  constructor
  · intro fd info hl
    obtain ⟨dev, hdev, hcount⟩ := h.socket_listed fd info hl
    have hne : info.devKey ≠ key := by
      intro he
      rw [he, hd] at hdev
      obtain rfl := Option.some.inj hdev
      rw [hempty] at hcount
      cases hcount
    exact ⟨dev, by rw [lookup_erase_eq, if_neg hne, hdev], hcount⟩
  · intro k dev fd hdev hf
    simp only [lookup_erase_eq] at hdev
    split at hdev
    · cases hdev
    · exact h.listed_socket k dev fd hdev hf
  · exact h.channel_socket
  · exact h.socket_named

/-- The walk over the sockets of a device empties its list. -/
theorem closeSockets_spec {closeRet : Fd → Int} {key : DevKey} (l : List Fd) {g g' : Global}
    {dev : DevInfo} (h : Consistent g) (hp : Pooled g) (hd : g.ofdevHtbl.lookup key = some dev)
    (hlist : dev.ofrwSocketList = l) (hw : closeSockets closeRet l g = some g') :
    Consistent g' ∧ Pooled g' ∧
      ∃ dev', g'.ofdevHtbl.lookup key = some dev' ∧ dev'.ofrwSocketList = [] := by
  induction l generalizing g dev with
  | nil =>
    obtain rfl := Option.some.inj hw
    exact ⟨h, hp, dev, hd, hlist⟩
  | cons fd rest ih =>
    -- the head of the list is a socket of this device, and closing it leaves the rest
    obtain ⟨info, hl, rfl⟩ := h.listed_socket key dev fd hd (by simp [hlist])
    simp only [closeSockets, hl] at hw
    obtain ⟨r, hr, hw⟩ := Option.bind_eq_some_iff.mp hw
    obtain ⟨-, dev', hd', hc⟩ := closeConn_spec hp hl hr
    rw [hd] at hd'
    obtain rfl := Option.some.inj hd'
    have hrest : r.2.ofdevHtbl.lookup info.devKey = some { dev with ofrwSocketList := rest } := by
      rw [hc.ofdev, if_pos rfl, hlist, List.erase_cons_head]
    exact ih (consistent_closed h hl hd hc) (hc.pooled hp) hrest rfl hw

theorem devFreeLockfree_spec {closeRet : Fd → Int} {key : DevKey} {g : Global} {r : Ret × Global}
    (h : Consistent g) (hp : Pooled g) (hf : ccOfDevFreeLockfree g key closeRet = some r) :
    Consistent r.2 ∧ Pooled r.2 ∧
      ∃ dev, r.2.ofdevHtbl.lookup key = some dev ∧ dev.ofrwSocketList = [] := by
  unfold ccOfDevFreeLockfree at hf
  cases hd : g.ofdevHtbl.lookup key with
  | none => rw [hd] at hf; cases hf
  | some dev =>
    simp only [hd] at hf
    obtain ⟨g₁, hw, hf⟩ := Option.bind_eq_some_iff.mp hf
    obtain ⟨t, -, rfl⟩ := Option.map_eq_some_iff.mp hf
    obtain ⟨hc, hp₁, hlast⟩ := closeSockets_spec _ h hp hd rfl hw
    exact ⟨⟨hc.socket_listed, hc.listed_socket, hc.channel_socket, hc.socket_named⟩, hp₁, hlast⟩

/-! ## Runs -/

inductive Op where
  | devRegister (key : DevKey) (maxOfver : Nat) (callbacks : Callbacks) (listenfd : Fd)
  | accept (connfd : Fd) (key : DevKey) (channKey : ChannelKey) (block : SockAddr)
  | createChannel (key : DevKey) (ck : ChannelKey) (proto : L4Type) (clientfd : Fd)
      (block : SockAddr)
  | setReal (sockfd : Fd) (ck : ChannelKey)
  | destroyChannel (ck : ChannelKey) (closeRet : Int)
  | closeConn (sockfd : Fd) (closeRet : Int)
  | devFree (key : DevKey) (closeRet : Fd → Int)
  | devfreeIter (key : DevKey) (closeRet : Fd → Int)

/-- One call, where its caller keeps to the rules: `none` where it does not, and where the
call does not return. -/
def step (g : Global) : Op → Option Global
  | .devRegister key maxOfver callbacks listenfd =>
    if key ∈ g.ofdevHtbl then none
    else (ccOfDevRegister g key maxOfver callbacks listenfd).map Prod.snd
  | .accept connfd key channKey block =>
    if g.ofdevType = .controller ∧ connfd ∉ g.ofrwHtbl ∧ dummyKey connfd ∉ g.ofchannelHtbl then
      (tcpAccept g connfd key channKey block).map Prod.snd
    else none
  | .createChannel key ck proto clientfd block =>
    if g.ofdevType = .switch ∧ clientfd ∉ g.ofrwHtbl ∧ ck ∉ g.ofchannelHtbl then
      (ccOfCreateChannel g key ck proto clientfd block).map Prod.snd
    else none
  | .setReal sockfd ck =>
    if (g.ofchannelHtbl.lookup (dummyKey sockfd)).map ChannelInfo.rwSockfd = some sockfd ∧
        ck ∉ g.ofchannelHtbl then
      some (ccOfSetRealDpidAuxid g (dummyKey sockfd).dpId (dummyKey sockfd).auxId ck).2
    else none
  | .destroyChannel ck closeRet => (ccOfDestroyChannel g ck closeRet).map Prod.snd
  | .closeConn sockfd closeRet =>
    (g.ofrwHtbl.lookup sockfd).bind fun rwinfo =>
      (closeConn g rwinfo.layer4Proto sockfd closeRet).map Prod.snd
  | .devFree key closeRet => (ccOfDevFree g key closeRet).map Prod.snd
  | .devfreeIter key closeRet => ccOfDevfreeIter g key closeRet

/-- What the calls rely on beside the tables: managers of sockets stay in the pool. -/
def Sound (g : Global) : Prop := Consistent g ∧ Pooled g

theorem sound_opens {g g' : Global} {fd : Fd} {key : DevKey} {ck : ChannelKey} (h : Sound g)
    (hfd : fd ∉ g.ofrwHtbl) (hck : openKey g.ofdevType fd ck ∉ g.ofchannelHtbl)
    (ho : Opens g g' fd key ck) : Sound g' := by
  rcases ho with ⟨-, rfl⟩ | ⟨-, -, hr⟩ | ⟨dev, info, -, -, ha⟩
  · exact h
  · exact ⟨consistent_rolledBack h.1 hfd hr, hr.pooled h.2⟩
  · exact ⟨consistent_added h.1 hfd hck ha, ha.pooled h.2⟩

theorem sound_closeConn {g g' : Global} {fd : Fd} {info : RwInfo} {ret : Ret} {closeRet : Int}
    (h : Sound g) (hl : g.ofrwHtbl.lookup fd = some info)
    (hc : closeConn g info.layer4Proto fd closeRet = some (ret, g')) : Sound g' := by
  obtain ⟨-, dev, hd, hc⟩ := closeConn_spec h.2 hl hc
  exact ⟨consistent_closed h.1 hl hd hc, hc.pooled h.2⟩

theorem sound_devRegister {g g' : Global} {key : DevKey} {ver : Nat} {cb : Callbacks} {fd : Fd}
    {ret : Ret} (h : Sound g) (hkey : key ∉ g.ofdevHtbl)
    (hreg : ccOfDevRegister g key ver cb fd = some (ret, g')) : Sound g' := by
  rcases devRegister_cases hreg with ⟨-, rfl⟩ | ⟨-, d, t, hempty, hg, hd⟩
  · exact h
  · have hc : g'.ofchannelHtbl = g.ofchannelHtbl := by rw [hg]
    have hr : g'.ofrwHtbl = g.ofrwHtbl := by rw [hg]
    have hpl : g'.ofrwPollthrList = g.ofrwPollthrList := by rw [hg]
    refine ⟨consistent_insert_empty h.1 hkey hempty hd hc hr, fun f info m hl hm => ?_⟩
    rw [hr] at hl
    rw [hpl]
    exact h.2 f info m hl hm

theorem sound_erase {g : Global} {key : DevKey} {d : DevInfo} (h : Sound g)
    (hd : g.ofdevHtbl.lookup key = some d) (hempty : d.ofrwSocketList = []) :
    Sound { g with ofdevHtbl := g.ofdevHtbl.erase key } :=
  ⟨consistent_erase_empty h.1 hd hempty, h.2⟩

theorem sound_step {g g' : Global} {op : Op} (h : Sound g) (hs : step g op = some g') :
    Sound g' := by
  cases op with
  | devRegister key ver cb fd =>
    simp only [step] at hs
    split at hs
    · cases hs
    · rename_i hkey
      obtain ⟨r, hr, rfl⟩ := Option.map_eq_some_iff.mp hs
      exact sound_devRegister h hkey hr
  | accept fd key ck block =>
    simp only [step] at hs
    split at hs
    · rename_i hg
      obtain ⟨r, hr, rfl⟩ := Option.map_eq_some_iff.mp hs
      exact sound_opens h hg.2.1 (by rw [hg.1]; exact hg.2.2) (accept_opens hr)
    · cases hs
  | createChannel key ck proto fd block =>
    simp only [step] at hs
    split at hs
    · rename_i hg
      obtain ⟨r, hr, rfl⟩ := Option.map_eq_some_iff.mp hs
      exact sound_opens h hg.2.1 (by rw [hg.1]; exact hg.2.2) (createChannel_opens hr)
    · cases hs
  | setReal fd ck =>
    simp only [step] at hs
    split at hs
    · rename_i hg
      obtain ⟨info, hold, hfd⟩ := Option.map_eq_some_iff.mp hg.1
      obtain rfl := Option.some.inj hs
      obtain ⟨-, hrw, hpl⟩ := setReal_tables g (dummyKey fd).dpId (dummyKey fd).auxId ck
      refine ⟨consistent_setReal h.1 hold hfd hg.2, ?_⟩
      unfold Pooled
      rw [hrw, hpl]
      exact h.2
    · cases hs
  | destroyChannel ck closeRet =>
    obtain ⟨r, hr, rfl⟩ := Option.map_eq_some_iff.mp hs
    rcases destroyChannel_cases hr with ⟨hsame, -⟩ | ⟨fd, info, -, hl, hr⟩
    · rw [hsame]
      exact h
    · exact sound_closeConn h hl hr
  | closeConn fd closeRet =>
    obtain ⟨info, hl, hs⟩ := Option.bind_eq_some_iff.mp hs
    obtain ⟨r, hr, rfl⟩ := Option.map_eq_some_iff.mp hs
    exact sound_closeConn h hl hr
  | devFree key closeRet =>
    obtain ⟨q, hq, rfl⟩ := Option.map_eq_some_iff.mp hs
    unfold ccOfDevFree at hq
    split at hq
    · obtain ⟨r, hr, rfl⟩ := Option.map_eq_some_iff.mp hq
      obtain ⟨hc, hp, dev, hd, hempty⟩ := devFreeLockfree_spec h.1 h.2 hr
      have hmem : key ∈ r.2.ofdevHtbl := mem_iff_lookup.mpr ⟨dev, hd⟩
      simp only [updateGlobalHtblLockfree, if_pos hmem]
      exact sound_erase ⟨hc, hp⟩ hd hempty
    · cases hq
  | devfreeIter key closeRet =>
    obtain ⟨r, hr, rfl⟩ := Option.map_eq_some_iff.mp hs
    obtain ⟨hc, hp, dev, hd, hempty⟩ := devFreeLockfree_spec h.1 h.2 hr
    split
    · exact ⟨hc, hp⟩
    · exact sound_erase ⟨hc, hp⟩ hd hempty

theorem sound_libInit (devType : DevType) : Sound (ccOfLibInit devType) := by
  have hempty : ∀ fd, (ccOfLibInit devType).ofrwHtbl.lookup fd = none := fun _ => rfl
  refine ⟨⟨fun fd info hl => ?_, fun key dev fd hd => ?_, fun ck fd hn => ?_, fun fd hf => ?_⟩,
    fun fd info m hl => ?_⟩
  · rw [hempty] at hl; cases hl
  · cases hd
  · obtain ⟨info, hi, -⟩ := hn; cases hi
  · obtain ⟨info, hi⟩ := mem_iff_lookup.mp hf; cases hi
  · rw [hempty] at hl; cases hl

/-- From the empty tables, the tables are consistent after every call of every sequence. -/
theorem tables_consistent (devType : DevType) (ops : List Op) :
    Always step Consistent (ccOfLibInit devType) ops :=
  (always_of_step (fun _ _ _ h hs => sound_step h hs) (sound_libInit devType) ops).mono
    fun _ h => h.1

-- A controller registers a device, accepts two connections and learns the key of one.
example :
    (run step (ccOfLibInit .controller)
      [.devRegister ⟨1, 0, 6633⟩ 0 ⟨0, 0, 0⟩ 4, .accept 5 ⟨1, 0, 6633⟩ ⟨0, 0⟩ ⟨0, 0⟩,
        .accept 6 ⟨1, 0, 6633⟩ ⟨0, 0⟩ ⟨0, 0⟩, .setReal 6 ⟨42, 0⟩]).map
      (fun g => (g.ofchannelHtbl.keys, g.ofrwHtbl.keys)) =
        some ([⟨42, 0⟩, dummyKey 5], [6, 5]) := by
  decide

end OfConnect.Core.Consistency
