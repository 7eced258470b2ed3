import OfConnect.Core.Api

/-!
# What a call does to the tables

One inversion lemma for adding a socket and one for closing one. Each says everything
the call can do to the three tables and to membership in the pool, so that the
invariants proved later need not look inside the calls again.
-/

namespace OfConnect.Core.Effects

open OfConnect.Lib.Tables OfConnect.PollThr.Thread OfConnect.Core.State OfConnect.Core.Api

/-- The key `ck` names the socket `fd`. -/
def Names (g : Global) (ck : ChannelKey) (fd : Fd) : Prop :=
  ∃ info, g.ofchannelHtbl.lookup ck = some info ∧ info.rwSockfd = fd

theorem mem_iff_lookup {K V : Type} [DecidableEq K] {t : Table K V} {k : K} :
    k ∈ t ↔ ∃ v, t.lookup k = some v := by
  rw [← AList.lookup_isSome, Option.isSome_iff_exists]

theorem Names.mem {g : Global} {ck : ChannelKey} {fd : Fd} (h : Names g ck fd) :
    ck ∈ g.ofchannelHtbl := by
  obtain ⟨info, hl, -⟩ := h
  exact mem_iff_lookup.mpr ⟨info, hl⟩

/-- Every manager that an entry of `ofrw_htbl` names is in the pool. -/
def Pooled (g : Global) : Prop :=
  ∀ fd info m, g.ofrwHtbl.lookup fd = some info → info.thrMgr = some m → m ∈ g.ofrwPollthrList

/-- The same tables, and no manager has left the pool. -/
structure SameTables (g g' : Global) : Prop where
  ofdevType : g'.ofdevType = g.ofdevType
  ofdev : g'.ofdevHtbl = g.ofdevHtbl
  ofchannel : g'.ofchannelHtbl = g.ofchannelHtbl
  ofrw : g'.ofrwHtbl = g.ofrwHtbl
  pool : g.ofrwPollthrList ⊆ g'.ofrwPollthrList

theorem SameTables.pooled {g g' : Global} (h : SameTables g g') (hp : Pooled g) : Pooled g' := by
  intro fd info m hl hm
  rw [h.ofrw] at hl
  exact h.pool (hp fd info m hl hm)

theorem sameTables_create (g : Global) : SameTables g (ccCreateRwPollthrSafe g).2 :=
  ⟨rfl, rfl, rfl, rfl, fun _ hm => List.mem_cons_of_mem _ hm⟩

theorem lastWithRoom_mem (avail : MgrId → UInt32) (elem : MgrId) (l : List MgrId) :
    lastWithRoom avail elem l ∈ elem :: l := by
  induction l generalizing elem with
  | nil => exact List.mem_cons_self
  | cons next rest ih =>
    unfold lastWithRoom
    split
    · exact List.mem_cons_self
    · exact List.mem_cons_of_mem _ (ih next)

theorem findOrCreate_spec (g : Global) :
    SameTables g (ccFindOrCreateRwPollthrSafe g).2 ∧
    (ccFindOrCreateRwPollthrSafe g).1 ∈ (ccFindOrCreateRwPollthrSafe g).2.ofrwPollthrList := by
  have hnew : (ccCreateRwPollthrSafe g).1 ∈ (ccCreateRwPollthrSafe g).2.ofrwPollthrList :=
    List.mem_cons_self
  have hself : SameTables g g := ⟨rfl, rfl, rfl, rfl, fun _ hm => hm⟩
  unfold ccFindOrCreateRwPollthrSafe
  split
  · exact ⟨sameTables_create g, hnew⟩
  · rename_i elem rest hl
    split
    · exact ⟨sameTables_create g, hnew⟩
    · refine ⟨hself, ?_⟩
      rw [hl]
      exact lastWithRoom_mem g.avail elem rest

theorem addDelFd_spec {g g' : Global} {m : MgrId} {a : FdAction} {fd : Fd}
    (h : g.addDelFd m a fd = some g') : ∃ t, g' = { g with mgrs := Function.update g.mgrs m t } := by
  obtain ⟨r, -, rfl⟩ := Option.map_eq_some_iff.mp h
  exact ⟨r.2, rfl⟩

/-! ## Adding a socket -/

/-- `fd` is entered with `info` for a registered device, under the key `ck`. -/
structure Added (g g' : Global) (fd : Fd) (dev : DevInfo) (ck : ChannelKey) (info : RwInfo) :
    Prop where
  registered : g.ofdevHtbl.lookup info.devKey = some dev
  ofdevType : g'.ofdevType = g.ofdevType
  ofdev : g'.ofdevHtbl =
    g.ofdevHtbl.insert info.devKey { dev with ofrwSocketList := dev.ofrwSocketList ++ [fd] }
  ofchannel : g'.ofchannelHtbl = g.ofchannelHtbl.insert ck ⟨fd, 0, 0, 0, 0⟩
  ofrw : ∀ f, g'.ofrwHtbl.lookup f = if f = fd then some info else g.ofrwHtbl.lookup f
  pool : g.ofrwPollthrList ⊆ g'.ofrwPollthrList
  managed : ∃ m ∈ g'.ofrwPollthrList, info.thrMgr = some m

theorem Added.names_iff {g g' : Global} {fd : Fd} {dev : DevInfo} {ck : ChannelKey}
    {info : RwInfo} (h : Added g g' fd dev ck info) {c : ChannelKey} {f : Fd} :
    Names g' c f ↔ (c = ck ∧ f = fd) ∨ (c ≠ ck ∧ Names g c f) := by
  simp only [Names, h.ofchannel, lookup_insert_eq]
  by_cases hc : c = ck
  · simp [hc, eq_comm]
  · simp [hc]

theorem Added.mem_iff {g g' : Global} {fd : Fd} {dev : DevInfo} {ck : ChannelKey}
    {info : RwInfo} (h : Added g g' fd dev ck info) {f : Fd} :
    f ∈ g'.ofrwHtbl ↔ f = fd ∨ f ∈ g.ofrwHtbl := by
  rw [mem_iff_lookup, mem_iff_lookup, h.ofrw]
  by_cases hf : f = fd
  · simp [hf]
  · simp [hf]

theorem Added.pooled {g g' : Global} {fd : Fd} {dev : DevInfo} {ck : ChannelKey}
    {info : RwInfo} (h : Added g g' fd dev ck info) (hp : Pooled g) : Pooled g' := by
  intro f fi m hl hm
  rw [h.ofrw] at hl
  split at hl
  · obtain rfl := Option.some.inj hl
    obtain ⟨m', hm', heq⟩ := h.managed
    rw [hm] at heq
    exact Option.some.inj heq ▸ hm'
  · exact h.pool (hp f fi m hl hm)

/-- Nothing is left of an attempt to enter `fd`, and nothing of an older entry for it. -/
structure RolledBack (g g' : Global) (fd : Fd) : Prop where
  ofdevType : g'.ofdevType = g.ofdevType
  ofdev : g'.ofdevHtbl = g.ofdevHtbl
  ofchannel : g'.ofchannelHtbl = g.ofchannelHtbl
  ofrw : ∀ f, g'.ofrwHtbl.lookup f = if f = fd then none else g.ofrwHtbl.lookup f
  pool : g.ofrwPollthrList ⊆ g'.ofrwPollthrList

theorem RolledBack.pooled {g g' : Global} {fd : Fd} (h : RolledBack g g' fd) (hp : Pooled g) :
    Pooled g' := by
  intro f info m hl hm
  rw [h.ofrw] at hl
  split at hl
  · cases hl
  · exact h.pool (hp f info m hl hm)

/-- A descriptor that had no entry has none again. -/
theorem RolledBack.lookup_ofrw {g g' : Global} {fd : Fd} (h : RolledBack g g' fd)
    (hfd : fd ∉ g.ofrwHtbl) (f : Fd) : g'.ofrwHtbl.lookup f = g.ofrwHtbl.lookup f := by
  rw [h.ofrw]
  split
  · rename_i hf
    rw [hf, AList.lookup_eq_none.mpr hfd]
  · rfl

theorem atomicAdd_of_registered {g : Global} {key : DevKey} {dev : DevInfo} (fd : Fd)
    (addr : SockAddr) (m : Option MgrId) (proto : L4Type) (ck : ChannelKey)
    (hd : g.ofdevHtbl.lookup key = some dev) :
    atomicAddUpdHtblsWithRwsocketLockfree g fd addr m key proto ck = some (ccOfOk, { g with
      ofrwHtbl := g.ofrwHtbl.insert fd ⟨.down, m, key, addr, proto⟩
      ofdevHtbl := g.ofdevHtbl.insert key { dev with ofrwSocketList := dev.ofrwSocketList ++ [fd] }
      ofchannelHtbl := g.ofchannelHtbl.insert (openKey g.ofdevType fd ck) ⟨fd, 0, 0, 0, 0⟩ }) := by
  have hok : ¬ ccOfOk < 0 := by decide
  simp only [atomicAddUpdHtblsWithRwsocketLockfree, addUpdOfrwRwsocket, updateGlobalHtblLockfree,
    addOfdevRwsocketLockfree, hd, addUpdOfchannRwsocketLockfree, setSocketList, if_neg hok]

theorem atomicAdd_of_unregistered {g : Global} {key : DevKey} (fd : Fd) (addr : SockAddr)
    (m : Option MgrId) (proto : L4Type) (ck : ChannelKey) (hd : g.ofdevHtbl.lookup key = none) :
    atomicAddUpdHtblsWithRwsocketLockfree g fd addr m key proto ck = some (ccOfEinval, { g with
      ofrwHtbl := (g.ofrwHtbl.insert fd ⟨.down, m, key, addr, proto⟩).erase fd }) := by
  have hok : ¬ ccOfOk < 0 := by decide
  have hneg : ccOfEinval < 0 := by decide
  have hmem : fd ∈ g.ofrwHtbl.insert fd ⟨.down, m, key, addr, proto⟩ := by simp
  simp only [atomicAddUpdHtblsWithRwsocketLockfree, addUpdOfrwRwsocket, updateGlobalHtblLockfree,
    addOfdevRwsocketLockfree, hd, if_neg hok, if_pos hneg, delOfrwRwsocketLockfree, if_pos hmem]

/-- The rollback says `ADD_FD`, and is refused. -/
theorem delSockfd_of_addFd (g : Global) (tmgr : Option MgrId) (fd : Fd) :
    ccDelSockfdRwPollthrLockfree g tmgr .addFd fd = some (ccOfEinval, g) :=
  if_pos (by decide)

/-- An addition, from the manager that was chosen: without a device the entry is taken out
again, and otherwise the manager is told. What it answers is not looked at. -/
theorem addSockfd_inversion {g : Global} {fd : Fd} {key : DevKey} {proto : L4Type}
    {ck : ChannelKey} {block : SockAddr} {r : Ret × Global} {m : MgrId} {g₀ : Global}
    (hf : ccFindOrCreateRwPollthrSafe g = (m, g₀))
    (h : ccAddSockfdRwPollthrSafe g fd key proto ck block = some r) :
    (g₀.ofdevHtbl.lookup key = none ∧ r = (ccOfEinval, { g₀ with
      ofrwHtbl := (g₀.ofrwHtbl.insert fd ⟨.down, some m, key, block, proto⟩).erase fd })) ∨
    ∃ dev t, g₀.ofdevHtbl.lookup key = some dev ∧
      adpThrMgrAddDelFd (g₀.mgrs m) .addFd fd = some t ∧ r = (ccOfOk, { g₀ with
        mgrs := Function.update g₀.mgrs m t.2
        ofrwHtbl := g₀.ofrwHtbl.insert fd ⟨.down, some m, key, block, proto⟩
        ofdevHtbl := g₀.ofdevHtbl.insert key
          { dev with ofrwSocketList := dev.ofrwSocketList ++ [fd] }
        ofchannelHtbl :=
          g₀.ofchannelHtbl.insert (openKey g₀.ofdevType fd ck) ⟨fd, 0, 0, 0, 0⟩ }) := by
  unfold ccAddSockfdRwPollthrSafe at h
  simp only [hf] at h
  cases hd : g₀.ofdevHtbl.lookup key with
  | none =>
    rw [atomicAdd_of_unregistered fd block _ proto ck hd, Option.bind_some,
      if_pos (show ccOfEinval < 0 by decide), delSockfd_of_addFd] at h
    exact .inl ⟨rfl, (Option.some.inj h).symm⟩
  | some dev =>
    rw [atomicAdd_of_registered fd block _ proto ck hd, Option.bind_some,
      if_neg (show ¬ccOfOk < 0 by decide)] at h
    obtain ⟨g₁, hg, rfl⟩ := Option.map_eq_some_iff.mp h
    obtain ⟨t, ht, rfl⟩ := Option.map_eq_some_iff.mp hg
    exact .inr ⟨dev, t, rfl, ht, rfl⟩

/-- A socket is added exactly if the device is registered; otherwise it is rolled back. -/
theorem addSockfd_cases {g g' : Global} {fd : Fd} {key : DevKey} {proto : L4Type}
    {ck : ChannelKey} {block : SockAddr} {ret : Ret}
    (h : ccAddSockfdRwPollthrSafe g fd key proto ck block = some (ret, g')) :
    (ret = ccOfEinval ∧ g.ofdevHtbl.lookup key = none ∧ RolledBack g g' fd) ∨
    ∃ dev m, ret = ccOfOk ∧ Added g g' fd dev (openKey g.ofdevType fd ck)
      ⟨.down, some m, key, block, proto⟩ := by
  obtain ⟨hsame, hin⟩ := findOrCreate_spec g
  generalize hf : ccFindOrCreateRwPollthrSafe g = found at hsame hin
  rcases addSockfd_inversion hf h with ⟨hd, heq⟩ | ⟨dev, t, hd, -, heq⟩
  · obtain ⟨rfl, rfl⟩ := Prod.mk.inj heq
    rw [hsame.ofdev] at hd
    refine Or.inl ⟨rfl, hd, ⟨hsame.ofdevType, hsame.ofdev, hsame.ofchannel, fun f => ?_,
      hsame.pool⟩⟩
    by_cases hf : f = fd
    · rw [lookup_erase_eq, if_pos hf, if_pos hf]
    · rw [lookup_erase_eq, if_neg hf, if_neg hf, lookup_insert_eq, if_neg hf, hsame.ofrw]
  · obtain ⟨rfl, rfl⟩ := Prod.mk.inj heq
    rw [hsame.ofdev] at hd
    refine Or.inr ⟨dev, found.1, rfl,
      ⟨hd, hsame.ofdevType, ?_, ?_, fun f => ?_, hsame.pool, ⟨_, hin, rfl⟩⟩⟩
    · simp only [hsame.ofdev]
    · simp only [hsame.ofchannel, hsame.ofdevType]
    · simp only [lookup_insert_eq, hsame.ofrw]

/-- What opening a socket does to the tables: nothing without a descriptor, and otherwise
what `cc_add_sockfd_rw_pollthr_safe` does. -/
def Opens (g g' : Global) (fd : Fd) (key : DevKey) (ck : ChannelKey) : Prop :=
  (fd < 0 ∧ g' = g) ∨
  (¬fd < 0 ∧ g.ofdevHtbl.lookup key = none ∧ RolledBack g g' fd) ∨
  ∃ dev info, ¬fd < 0 ∧ info.devKey = key ∧ Added g g' fd dev (openKey g.ofdevType fd ck) info

/-- A channel has a descriptor or not; where it has one it is TCP or UDP, and is added. -/
theorem createChannel_cases {g : Global} {fd : Fd} {key : DevKey} {proto : L4Type}
    {ck : ChannelKey} {block : SockAddr} {r : Ret × Global}
    (h : ccOfCreateChannel g key ck proto fd block = some r) :
    (fd < 0 ∧ r = (ccOfEmisc, g)) ∨
    (¬fd < 0 ∧ (proto = .tcp ∨ proto = .udp) ∧
      ∃ q, ccAddSockfdRwPollthrSafe g fd key proto ck block = some q ∧
        r = (if q.1 < 0 then ccOfEmisc else ccOfOk, q.2)) := by
  have hopen : (proto = .tcp ∨ proto = .udp) ∧ (if fd < 0 then some (ccOfEmisc, g)
      else (ccAddSockfdRwPollthrSafe g fd key proto ck block).map fun r =>
        if r.1 < 0 then (ccOfEmisc, r.2) else (ccOfOk, r.2)) = some r := by
    cases proto with
    | tcp => exact ⟨.inl rfl, h⟩
    | udp => exact ⟨.inr rfl, h⟩
    | tls => cases h
    | dtls => cases h
  obtain ⟨hproto, hopen⟩ := hopen
  split at hopen
  · rename_i hneg
    exact .inl ⟨hneg, (Option.some.inj hopen).symm⟩
  · rename_i hpos
    obtain ⟨q, hq, rfl⟩ := Option.map_eq_some_iff.mp hopen
    refine .inr ⟨hpos, hproto, q, hq, ?_⟩
    split
    · rfl
    · rfl

theorem createChannel_opens {g g' : Global} {fd : Fd} {key : DevKey} {proto : L4Type}
    {ck : ChannelKey} {block : SockAddr} {ret : Ret}
    (h : ccOfCreateChannel g key ck proto fd block = some (ret, g')) : Opens g g' fd key ck := by
  rcases createChannel_cases h with ⟨hneg, heq⟩ | ⟨hpos, -, q, hq, heq⟩
  · exact .inl ⟨hneg, (Prod.mk.inj heq).2⟩
  · obtain rfl := (Prod.mk.inj heq).2
    rcases addSockfd_cases hq with ⟨-, hnone, hrb⟩ | ⟨dev, m, -, ha⟩
    · exact .inr (.inl ⟨hpos, hnone, hrb⟩)
    · exact .inr (.inr ⟨dev, _, hpos, rfl, ha⟩)

theorem setRwUp_of_entry {g : Global} {fd : Fd} {info : RwInfo}
    (hl : g.ofrwHtbl.lookup fd = some info) :
    (setRwUp g fd).2 =
      { g with ofrwHtbl := g.ofrwHtbl.insert fd { info with state := .up } } := by
  unfold setRwUp
  simp only [hl, updateGlobalHtblLockfree]

theorem added_setRwUp {g g' : Global} {fd : Fd} {dev : DevInfo} {ck : ChannelKey}
    {info : RwInfo} (h : Added g g' fd dev ck info) :
    Added g (setRwUp g' fd).2 fd dev ck { info with state := .up } := by
  have hl : g'.ofrwHtbl.lookup fd = some info := by rw [h.ofrw, if_pos rfl]
  rw [setRwUp_of_entry hl]
  refine ⟨h.registered, h.ofdevType, h.ofdev, h.ofchannel, fun f => ?_, h.pool, h.managed⟩
  by_cases hf : f = fd
  · rw [lookup_insert_eq, if_pos hf, if_pos hf]
  · rw [lookup_insert_eq, if_neg hf, if_neg hf, h.ofrw, if_neg hf]

theorem accept_opens {g g' : Global} {fd : Fd} {key : DevKey} {ck : ChannelKey}
    {block : SockAddr} {ret : Ret} (h : tcpAccept g fd key ck block = some (ret, g')) :
    Opens g g' fd key ck := by
  unfold tcpAccept at h
  split at h
  · rename_i hneg
    obtain ⟨-, rfl⟩ := Prod.mk.inj (Option.some.inj h)
    exact Or.inl ⟨hneg, rfl⟩
  · rename_i hneg
    obtain ⟨⟨ret', g₁⟩, hr, hret⟩ := Option.map_eq_some_iff.mp h
    rcases addSockfd_cases hr with ⟨rfl, hnone, hrb⟩ | ⟨dev, m, rfl, ha⟩
    · have hneg' : ccOfEinval < 0 := by decide
      rw [if_pos hneg'] at hret
      obtain ⟨-, rfl⟩ := Prod.mk.inj hret
      exact Or.inr (Or.inl ⟨hneg, hnone, hrb⟩)
    · have hdev : g₁.ofdevHtbl.lookup key =
          some { dev with ofrwSocketList := dev.ofrwSocketList ++ [fd] } := by
        rw [ha.ofdev, lookup_insert_eq, if_pos rfl]
      simp only [if_neg (show ¬ ccOfOk < 0 by decide), hdev] at hret
      have hg : (setRwUp g₁ fd).2 = g' := congrArg Prod.snd hret
      subst hg
      exact Or.inr (Or.inr ⟨dev, _, hneg, rfl, added_setRwUp ha⟩)

/-! ## Closing a socket -/

/-- `fd` is gone from the three tables and from the list of its device. -/
structure Closed (g g' : Global) (fd : Fd) (key : DevKey) (dev : DevInfo) : Prop where
  ofdevType : g'.ofdevType = g.ofdevType
  ofdev : ∀ k, g'.ofdevHtbl.lookup k =
    if k = key then some { dev with ofrwSocketList := dev.ofrwSocketList.erase fd }
    else g.ofdevHtbl.lookup k
  ofchannel : ∀ k info, g'.ofchannelHtbl.lookup k = some info ↔
    g.ofchannelHtbl.lookup k = some info ∧ info.rwSockfd ≠ fd
  ofrw : ∀ f, g'.ofrwHtbl.lookup f = if f = fd then none else g.ofrwHtbl.lookup f
  pool : ∀ m, m ∈ g'.ofrwPollthrList ↔ m ∈ g.ofrwPollthrList

theorem Closed.names_iff {g g' : Global} {fd : Fd} {key : DevKey} {dev : DevInfo}
    (h : Closed g g' fd key dev) {c : ChannelKey} {f : Fd} :
    Names g' c f ↔ Names g c f ∧ f ≠ fd := by
  simp only [Names, h.ofchannel]
  constructor
  · rintro ⟨ci, ⟨hci, hne⟩, rfl⟩
    exact ⟨⟨ci, hci, rfl⟩, hne⟩
  · rintro ⟨⟨ci, hci, rfl⟩, hne⟩
    exact ⟨ci, ⟨hci, hne⟩, rfl⟩

theorem Closed.mem_iff {g g' : Global} {fd : Fd} {key : DevKey} {dev : DevInfo}
    (h : Closed g g' fd key dev) {f : Fd} : f ∈ g'.ofrwHtbl ↔ f ∈ g.ofrwHtbl ∧ f ≠ fd := by
  rw [mem_iff_lookup, mem_iff_lookup, h.ofrw]
  by_cases hf : f = fd
  · simp [hf]
  · simp [hf]

theorem mem_insertSorted_erase {g : Global} {m : MgrId} {l : List MgrId} (h : m ∈ l) (a : MgrId) :
    a ∈ insertSorted g m (l.erase m) ↔ a ∈ l := by
  have hperm : List.Perm (insertSorted g m (l.erase m)) l :=
    (List.perm_orderedInsert _ _ _).trans (List.perm_cons_erase h).symm
  exact hperm.mem_iff

theorem lookup_delOfrw (g : Global) (fd f : Fd) :
    (delOfrwRwsocketLockfree g fd).2.ofrwHtbl.lookup f =
      if f = fd then none else g.ofrwHtbl.lookup f := by
  simp only [delOfrwRwsocketLockfree, updateGlobalHtblLockfree]
  by_cases hmem : fd ∈ g.ofrwHtbl
  · rw [if_pos hmem, lookup_erase_eq]
  · rw [if_neg hmem]
    by_cases hf : f = fd
    · rw [if_pos hf, hf, AList.lookup_eq_none.mpr hmem]
    · rw [if_neg hf]

/-- With its manager in the pool, or without a manager, the first part of a deletion
succeeds and leaves the tables alone. -/
theorem delFromMgr_spec {g : Global} {fd : Fd} {tmgr : Option MgrId} {r : Ret × Global}
    (hm : ∀ m, tmgr = some m → m ∈ g.ofrwPollthrList) (h : delFromMgr g fd tmgr = some r) :
    r.1 = ccOfOk ∧ SameTables g r.2 ∧ ∀ m, m ∈ r.2.ofrwPollthrList ↔ m ∈ g.ofrwPollthrList := by
  cases tmgr with
  | none =>
    obtain rfl := Option.some.inj h
    exact ⟨rfl, ⟨rfl, rfl, rfl, rfl, fun _ hm => hm⟩, fun _ => Iff.rfl⟩
  | some tmgr =>
    have hin := hm tmgr rfl
    simp only [delFromMgr] at h
    obtain ⟨g₁, hg, rfl⟩ := Option.map_eq_some_iff.mp h
    obtain ⟨t, rfl⟩ := addDelFd_spec hg
    dsimp only
    split
    · exact ⟨rfl, ⟨rfl, rfl, rfl, rfl, fun _ hm => hm⟩, fun _ => Iff.rfl⟩
    · have hmem := mem_insertSorted_erase (g := { g with mgrs := Function.update g.mgrs tmgr t }) hin
      exact ⟨rfl, ⟨rfl, rfl, rfl, rfl, fun a ha => (hmem a).mpr ha⟩, hmem⟩

/-- On the manager nothing but the pool changes. -/
theorem delFromMgr_frame {g : Global} {fd : Fd} {tmgr : Option MgrId} {r : Ret × Global}
    (h : delFromMgr g fd tmgr = some r) :
    r.2 = { g with mgrs := r.2.mgrs, ofrwPollthrList := r.2.ofrwPollthrList } := by
  cases tmgr with
  | none =>
    obtain rfl := Option.some.inj h
    rfl
  | some m =>
    simp only [delFromMgr] at h
    obtain ⟨g₁, hg, rfl⟩ := Option.map_eq_some_iff.mp h
    obtain ⟨t, rfl⟩ := addDelFd_spec hg
    split
    · rfl
    · split
      · rfl
      · rfl

theorem delOfdev_frame {g : Global} {key : DevKey} {fd : Fd} {d : Ret × Global}
    (h : delOfdevRwsocketLockfree g key fd = some d) :
    d.2 = { g with ofdevHtbl := d.2.ofdevHtbl } := by
  unfold delOfdevRwsocketLockfree at h
  split at h
  · cases h
  · split at h
    · obtain rfl := Option.some.inj h
      rfl
    · obtain rfl := Option.some.inj h
      rfl

/-- A deletion: first the manager, and where that succeeds the tables. -/
theorem delSockfd_inversion {g : Global} {fd : Fd} {tmgr : Option MgrId} {r : Ret × Global}
    (h : ccDelSockfdRwPollthrLockfree g tmgr .deleteFd fd = some r) :
    ∃ r₁, delFromMgr g fd tmgr = some r₁ ∧ ((r₁.1 < 0 ∧ r = r₁) ∨
      ∃ info d, r₁.2.ofrwHtbl.lookup fd = some info ∧
        delOfdevRwsocketLockfree r₁.2 info.devKey fd = some d ∧
        r = delOfchannRwsocketLockfree (delOfrwRwsocketLockfree d.2 fd).2 fd) := by
  unfold ccDelSockfdRwPollthrLockfree at h
  rw [if_neg (by decide)] at h
  obtain ⟨r₁, hr, h⟩ := Option.bind_eq_some_iff.mp h
  refine ⟨r₁, hr, ?_⟩
  split at h
  · rename_i hneg
    exact .inl ⟨hneg, (Option.some.inj h).symm⟩
  · split at h
    · cases h
    · rename_i info hl
      obtain ⟨d, hd, rfl⟩ := Option.map_eq_some_iff.mp h
      exact .inr ⟨info, d, hl, hd, rfl⟩

theorem delSockfd_spec {g g' : Global} {fd : Fd} {info : RwInfo} {ret : Ret} (hp : Pooled g)
    (hl : g.ofrwHtbl.lookup fd = some info)
    (h : ccDelSockfdRwPollthrLockfree g info.thrMgr .deleteFd fd = some (ret, g')) :
    ret = ccOfOk ∧ ∃ dev, g.ofdevHtbl.lookup info.devKey = some dev ∧
      Closed g g' fd info.devKey dev := by
  obtain ⟨r, hr, h⟩ := delSockfd_inversion h
  obtain ⟨hok, hsame, hpool⟩ := delFromMgr_spec (fun m hm => hp fd info m hl hm) hr
  rcases h with ⟨hneg, -⟩ | ⟨info', d, hl', hd, h⟩
  · rw [hok] at hneg
    exact absurd hneg (by decide)
  rw [hsame.ofrw, hl] at hl'
  obtain rfl := Option.some.inj hl'
  obtain ⟨rfl, rfl⟩ := Prod.mk.inj h
  refine ⟨rfl, ?_⟩
  unfold delOfdevRwsocketLockfree at hd
  rw [hsame.ofdev] at hd
  cases hdev : g.ofdevHtbl.lookup info.devKey with
  | none => rw [hdev] at hd; cases hd
  | some dev =>
    refine ⟨dev, rfl, ?_⟩
    simp only [hdev] at hd
    -- the last two functions, whatever became of the list
    have hrest : ∀ g₁ : Global, g₁.ofdevType = g.ofdevType → g₁.ofchannelHtbl = g.ofchannelHtbl →
        g₁.ofrwHtbl = g.ofrwHtbl → (∀ m, m ∈ g₁.ofrwPollthrList ↔ m ∈ g.ofrwPollthrList) →
        (∀ k, g₁.ofdevHtbl.lookup k =
          if k = info.devKey then some { dev with ofrwSocketList := dev.ofrwSocketList.erase fd }
          else g.ofdevHtbl.lookup k) →
        Closed g (delOfchannRwsocketLockfree (delOfrwRwsocketLockfree g₁ fd).2 fd).2 fd
          info.devKey dev := by
      intro g₁ ht hc hrw hpl hdv
      refine ⟨ht, hdv, fun k ci => ?_, fun f => ?_, hpl⟩
      · simp only [delOfchannRwsocketLockfree, delOfrwRwsocketLockfree, lookup_foreachRemove_iff, hc]
        simp
      · show (delOfrwRwsocketLockfree g₁ fd).2.ofrwHtbl.lookup f = _
        rw [lookup_delOfrw, hrw]
    split at hd
    · obtain rfl := Option.some.inj hd
      refine hrest _ hsame.ofdevType hsame.ofchannel hsame.ofrw hpool fun k => ?_
      simp only [setSocketList, lookup_insert_eq, hsame.ofdev]
    · rename_i hnot
      obtain rfl := Option.some.inj hd
      refine hrest _ hsame.ofdevType hsame.ofchannel hsame.ofrw hpool fun k => ?_
      rw [List.erase_of_not_mem hnot, hsame.ofdev]
      by_cases hk : k = info.devKey
      · rw [if_pos hk, hk, hdev]
      · rw [if_neg hk]

/-- `close_conn` of an entered socket takes it out of the tables, whatever `close` says. -/
theorem closeConn_spec {g g' : Global} {fd : Fd} {info : RwInfo} {ret : Ret} {closeRet : Int}
    (hp : Pooled g) (hl : g.ofrwHtbl.lookup fd = some info)
    (h : closeConn g info.layer4Proto fd closeRet = some (ret, g')) :
    ret = closeRet ∧ ∃ dev, g.ofdevHtbl.lookup info.devKey = some dev ∧
      Closed g g' fd info.devKey dev := by
  have hfind : findThrmgrRwsocketLockfree g fd = some info.thrMgr := by
    simp [findThrmgrRwsocketLockfree, hl]
  have hdel : (ccDelSockfdRwPollthrLockfree g info.thrMgr .deleteFd fd).map
      (fun r => if r.1 < 0 then r else (closeRet, r.2)) = some (ret, g') := by
    unfold closeConn tcpClose udpClose at h
    rw [hfind] at h
    split at h
    · exact h
    · exact h
    · cases h
    · cases h
  obtain ⟨r, hr, hret⟩ := Option.map_eq_some_iff.mp hdel
  obtain ⟨hok, hclosed⟩ := delSockfd_spec hp hl hr
  rw [if_neg (by rw [hok]; decide)] at hret
  obtain ⟨rfl, rfl⟩ := Prod.mk.inj hret
  exact ⟨rfl, hclosed⟩

theorem Closed.pooled {g g' : Global} {fd : Fd} {key : DevKey} {dev : DevInfo}
    (h : Closed g g' fd key dev) (hp : Pooled g) : Pooled g' := by
  intro f info m hl hm
  rw [h.ofrw] at hl
  split at hl
  · cases hl
  · exact (h.pool m).mpr (hp f info m hl hm)

theorem Names.unique {g : Global} {ck : ChannelKey} {fd fd' : Fd} (h : Names g ck fd)
    (h' : Names g ck fd') : fd = fd' := by
  obtain ⟨info, hl, rfl⟩ := h
  obtain ⟨info', hl', rfl⟩ := h'
  rw [hl] at hl'
  rw [Option.some.inj hl']

/-- A channel without a socket is left alone. -/
theorem destroyChannel_cases {g : Global} {ck : ChannelKey} {closeRet : Int} {r : Ret × Global}
    (h : ccOfDestroyChannel g ck closeRet = some r) :
    (r.2 = g ∧ ∀ fd, Names g ck fd → fd ∉ g.ofrwHtbl) ∨
    ∃ fd info, Names g ck fd ∧ g.ofrwHtbl.lookup fd = some info ∧
      closeConn g info.layer4Proto fd closeRet = some r := by
  unfold ccOfDestroyChannel at h
  split at h
  · rename_i hnone
    obtain rfl := Option.some.inj h
    exact .inl ⟨rfl, fun fd hn => absurd hn.mem (AList.lookup_eq_none.mp hnone)⟩
  · rename_i ci hci
    have hn : Names g ck ci.rwSockfd := ⟨ci, hci, rfl⟩
    split at h
    · rename_i hnone
      obtain rfl := Option.some.inj h
      exact .inl ⟨rfl, fun fd hn' => hn.unique hn' ▸ AList.lookup_eq_none.mp hnone⟩
    · rename_i info hl
      exact .inr ⟨_, info, hn, hl, h⟩

/-! ## Registering a device -/

theorem tcpOpenListenfd_spec {g : Global} {fd : Fd} {r : Int × Global}
    (h : tcpOpenListenfd g fd = some r) : ∃ t, r.2 = { g with oflistenPollthr := t } := by
  unfold tcpOpenListenfd at h
  split at h
  · obtain rfl := Option.some.inj h
    exact ⟨g.oflistenPollthr, rfl⟩
  · obtain ⟨a, -, rfl⟩ := Option.map_eq_some_iff.mp h
    exact ⟨a.2, rfl⟩

/-- Registration puts a record without sockets under the key, or does nothing. -/
theorem devRegister_cases {g g' : Global} {key : DevKey} {ver : Nat} {cb : Callbacks} {fd : Fd}
    {ret : Ret} (h : ccOfDevRegister g key ver cb fd = some (ret, g')) :
    (maxOfverType ≤ ver ∧ g' = g) ∨
    (ver < maxOfverType ∧ ∃ d t, d.ofrwSocketList = [] ∧
      g' = { g with oflistenPollthr := t, ofdevHtbl := g'.ofdevHtbl } ∧
      ∀ k, g'.ofdevHtbl.lookup k = if k = key then some d else g.ofdevHtbl.lookup k) := by
  unfold ccOfDevRegister at h
  dsimp only at h
  split at h
  · rename_i hver
    obtain ⟨-, rfl⟩ := Prod.mk.inj (Option.some.inj h)
    exact Or.inl ⟨hver, rfl⟩
  · rename_i hver
    refine Or.inr ⟨Nat.lt_of_not_le hver, ?_⟩
    split at h
    · obtain ⟨-, rfl⟩ := Prod.mk.inj (Option.some.inj h)
      exact ⟨⟨ver, [], cb, 0, 0⟩, g.oflistenPollthr, rfl, rfl, fun k => lookup_insert_eq _ _ _ _⟩
    · obtain ⟨r, hr, h⟩ := Option.map_eq_some_iff.mp h
      obtain ⟨t, ht⟩ := tcpOpenListenfd_spec hr
      have hg : g' = { r.2 with
          ofdevHtbl := r.2.ofdevHtbl.insert key ⟨ver, [], cb, Int32.ofInt r.1, 0⟩ } := by
        split at h
        · exact (Prod.mk.inj h).2.symm
        · exact (Prod.mk.inj h).2.symm
      subst hg
      refine ⟨⟨ver, [], cb, Int32.ofInt r.1, 0⟩, t, rfl, by rw [ht], fun k => ?_⟩
      simp only [ht, lookup_insert_eq]
      split
      · rfl
      · rfl

end OfConnect.Core.Effects
