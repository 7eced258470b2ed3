import OfConnect.Pool.Closing

/-!
# Registering and freeing a device

Two calls on `ofdev_htbl`. A registration puts its record into the table before it opens the
listening socket, and does not take it out again where that fails. Freeing a device closes the
sockets in its list, one after the other, and each call takes its socket out of the list that
is walked; before all that the call asserts that the device is the only one.
-/

namespace OfConnect.Pool.Devices

open OfConnect.Lib.Tables OfConnect.Lib.Run OfConnect.PollThr.Thread OfConnect.Core.State
open OfConnect.Core.Api OfConnect.Core.Effects OfConnect.Core.Consistency OfConnect.Pool.Closing
open OfConnect.Pool.Traced (start)

/-! ## Registering -/

/-- A registration that fails leaves `ofdev_htbl` as it was. -/
def LeavesNoTrace (g : Global) (key : DevKey) (maxOfver : Nat) (callbacks : Callbacks)
    (listenfd : Fd) : Prop :=
  ∀ ret g', ccOfDevRegister g key maxOfver callbacks listenfd = some (ret, g') → ret < 0 →
    ∀ k, g'.ofdevHtbl.lookup k = g.ofdevHtbl.lookup k

/-- What `open_serverfd` returns where it fails: no listening socket was obtained, or the
listen thread polls as many as it may. -/
def listenError (listen : ThreadMgr) (listenfd : Fd) : Option Fd :=
  if listenfd < 0 then some listenfd
  else if listen.numSockets.toUInt32 = listen.maxSockets then some (-1)
  else none

theorem openListenfd_of_error {g : Global} {listenfd fd : Fd}
    (h : listenError g.oflistenPollthr listenfd = some fd) :
    fd < 0 ∧ tcpOpenListenfd g listenfd = some (fd.toInt, g) := by
  unfold listenError at h
  split at h
  · rename_i hneg
    obtain rfl := Option.some.inj h
    exact ⟨hneg, by rw [tcpOpenListenfd, if_pos hneg]⟩
  · rename_i hneg
    split at h
    · rename_i hfull
      obtain rfl := Option.some.inj h
      refine ⟨by decide, ?_⟩
      simp only [tcpOpenListenfd, if_neg hneg, adpThrMgrAddDelFd, if_pos hfull, Option.map_some]
      rfl
    · cases h

theorem openListenfd_of_no_error {g : Global} {listenfd : Fd} {r : Int × Global}
    (h : listenError g.oflistenPollthr listenfd = none) (hr : tcpOpenListenfd g listenfd = some r) :
    ¬Int32.ofInt r.1 < 0 := by
  unfold listenError at h
  split at h
  · cases h
  · rename_i hneg
    split at h
    · cases h
    · rename_i hroom
      simp only [tcpOpenListenfd, if_neg hneg, adpThrMgrAddDelFd, if_neg hroom] at hr
      split at hr
      · cases hr
      · obtain rfl := Option.some.inj hr
        rw [Int32.ofInt_toInt]
        exact hneg

/-- The record that a controller leaves behind when `open_serverfd` fails. -/
theorem devRegister_of_error {g : Global} {ver : Nat} {listenfd fd : Fd} (key : DevKey)
    (cb : Callbacks) (hver : ver < maxOfverType) (htype : g.ofdevType = .controller)
    (herr : listenError g.oflistenPollthr listenfd = some fd) :
    ∃ g', ccOfDevRegister g key ver cb listenfd = some (ccOfEmisc, g') ∧
      ∀ k, g'.ofdevHtbl.lookup k =
        if k = key then some ⟨ver, [], cb, fd, 0⟩ else g.ofdevHtbl.lookup k := by
  have hopen := fun d => openListenfd_of_error (g := { g with ofdevHtbl := d }) herr
  unfold ccOfDevRegister
  rw [if_neg (Nat.not_le.mpr hver)]
  dsimp only
  split
  · rename_i hswitch
    rw [htype] at hswitch
    cases hswitch
  · rw [(hopen _).2, Option.map_some, Int32.ofInt_toInt, if_pos (hopen g.ofdevHtbl).1]
    refine ⟨_, rfl, fun k => ?_⟩
    simp only [lookup_insert_eq]
    split
    · rfl
    · rfl

/-- A failed registration leaves no trace exactly if it fails for its version, or nothing can
fail after the record is in the table, or the table holds that very record already. -/
theorem devRegister_leavesNoTrace_iff (g : Global) (key : DevKey) (maxOfver : Nat)
    (callbacks : Callbacks) (listenfd : Fd) :
    LeavesNoTrace g key maxOfver callbacks listenfd ↔
      maxOfverType ≤ maxOfver ∨ g.ofdevType = .switch ∨
        ∀ fd, listenError g.oflistenPollthr listenfd = some fd →
          g.ofdevHtbl.lookup key = some ⟨maxOfver, [], callbacks, fd, 0⟩ := by
  by_cases hver : maxOfverType ≤ maxOfver
  · refine iff_of_true (fun ret g' hr _ k => ?_) (.inl hver)
    rw [ccOfDevRegister, if_pos hver] at hr
    obtain ⟨-, rfl⟩ := Prod.mk.inj (Option.some.inj hr)
    rfl
  cases htype : g.ofdevType with
  | switch =>
    refine iff_of_true (fun ret g' hr hneg => ?_) (.inr (.inl rfl))
    simp only [ccOfDevRegister, if_neg hver, htype] at hr
    obtain ⟨rfl, -⟩ := Prod.mk.inj (Option.some.inj hr)
    exact absurd hneg (by decide)
  | controller =>
    simp only [hver, reduceCtorEq, false_or]
    cases herr : listenError g.oflistenPollthr listenfd with
    | none =>
      refine iff_of_true (fun ret g' hr hneg => ?_) nofun
      simp only [ccOfDevRegister, if_neg hver, htype] at hr
      obtain ⟨r, hopen, hr⟩ := Option.map_eq_some_iff.mp hr
      rw [if_neg (openListenfd_of_no_error (by exact herr) hopen)] at hr
      obtain ⟨rfl, -⟩ := Prod.mk.inj hr
      exact absurd hneg (by decide)
    | some fd =>
      obtain ⟨g', hr, hlookup⟩ :=
        devRegister_of_error key callbacks (Nat.lt_of_not_le hver) htype herr
      constructor
      · intro h fd' heq
        obtain rfl := Option.some.inj heq
        rw [← h _ _ hr (by decide) key, hlookup, if_pos rfl]
      · intro h ret g'' hr' hneg k
        rw [hr] at hr'
        obtain ⟨-, rfl⟩ := Prod.mk.inj (Option.some.inj hr')
        rw [hlookup]
        split
        · rename_i hk
          rw [hk, h fd rfl]
        · rfl

/-- The address is in use: a key that was absent is registered afterwards, and a device that
has a connection loses its record. -/
theorem devRegister_trace_left :
    ¬LeavesNoTrace (ccOfLibInit .controller) ⟨1, 0, 6633⟩ 0 ⟨7, 8, 9⟩ (-1) ∧
    ∃ g, run Core.Consistency.step (ccOfLibInit .controller)
        [.devRegister ⟨1, 0, 6633⟩ 0 ⟨7, 8, 9⟩ 4, .accept 5 ⟨1, 0, 6633⟩ ⟨0, 0⟩ ⟨0, 0⟩] = some g ∧
      ¬LeavesNoTrace g ⟨1, 0, 6633⟩ 0 ⟨7, 8, 9⟩ (-1) := by
  refine ⟨fun h => ?_, _, rfl, fun h => ?_⟩
  · exact absurd (h _ _ rfl (by decide) ⟨1, 0, 6633⟩) (by decide)
  · exact absurd (h _ _ rfl (by decide) ⟨1, 0, 6633⟩) (by decide)

/-! ## Freeing -/

/-- The socket is entered for the device. -/
def OfDevice (g : Global) (key : DevKey) (fd : Fd) : Prop :=
  ∃ info, g.ofrwHtbl.lookup fd = some info ∧ info.devKey = key

/-- The device and its sockets are gone, and everything else is as it was. -/
structure Freed (g g' : Global) (key : DevKey) : Prop where
  ofdev : ∀ k, g'.ofdevHtbl.lookup k = if k = key then none else g.ofdevHtbl.lookup k
  ofrw : ∀ fd info, g'.ofrwHtbl.lookup fd = some info ↔
    g.ofrwHtbl.lookup fd = some info ∧ info.devKey ≠ key
  ofchannel : ∀ ck info, g'.ofchannelHtbl.lookup ck = some info ↔
    g.ofchannelHtbl.lookup ck = some info ∧ ¬OfDevice g key info.rwSockfd
  polled : ∀ m fd, fd ∈ (g'.mgrs m).fds ↔ fd ∈ (g.mgrs m).fds ∧
    ¬∃ info, g.ofrwHtbl.lookup fd = some info ∧ info.devKey = key ∧ info.thrMgr = some m

/-- What is asked of `cc_of_dev_free`: it returns, and frees the device or refuses the key. -/
def FreesOne (g : Global) (key : DevKey) (closeRet : Fd → Int) : Prop :=
  (key ∈ g.ofdevHtbl → ∃ g', ccOfDevFree g key closeRet = some (ccOfOk, g') ∧ Freed g g' key) ∧
  (key ∉ g.ofdevHtbl → ccOfDevFree g key closeRet = some (ccOfEinval, g))

/-- The list of the device holds its sockets, each of them once. -/
def ListsSockets (g : Global) (key : DevKey) : Prop :=
  ∃ dev, g.ofdevHtbl.lookup key = some dev ∧ dev.ofrwSocketList.Nodup ∧
    ∀ fd, fd ∈ dev.ofrwSocketList ↔ OfDevice g key fd

/-- Consistent tables are so for every device. -/
theorem listsSockets_of_consistent {g : Global} {key : DevKey} (h : Consistent g)
    (hkey : key ∈ g.ofdevHtbl) : ListsSockets g key := by
  obtain ⟨dev, hd⟩ := mem_iff_lookup.mp hkey
  have honce : ∀ fd, OfDevice g key fd → dev.ofrwSocketList.count fd = 1 := by
    rintro fd ⟨info, hl, rfl⟩
    obtain ⟨dev', hd', hcount⟩ := h.socket_listed fd info hl
    rw [hd] at hd'
    obtain rfl := Option.some.inj hd'
    exact hcount
  refine ⟨dev, hd, h.listed.nodup key dev hd, fun fd => ⟨fun hf => ?_, fun hf => ?_⟩⟩
  · exact h.listed_socket key dev fd hd hf
  · rw [← List.count_pos_iff, honce fd hf]
    exact Nat.one_pos

/-- What the walk over the sockets `l` of a device does. -/
structure Walked (g g' : Global) (key : DevKey) (l : List Fd) : Prop where
  ofdev : ∀ k, k ≠ key → g'.ofdevHtbl.lookup k = g.ofdevHtbl.lookup k
  registered : key ∈ g'.ofdevHtbl
  ofrw : ∀ fd, g'.ofrwHtbl.lookup fd = if fd ∈ l then none else g.ofrwHtbl.lookup fd
  ofchannel : ∀ ck info, g'.ofchannelHtbl.lookup ck = some info ↔
    g.ofchannelHtbl.lookup ck = some info ∧ info.rwSockfd ∉ l
  polled : ∀ m fd, fd ∈ (g'.mgrs m).fds ↔ fd ∈ (g.mgrs m).fds ∧
    ¬(fd ∈ l ∧ ∃ info, g.ofrwHtbl.lookup fd = some info ∧ info.thrMgr = some m)

theorem walked_nil {g : Global} {key : DevKey} (hkey : key ∈ g.ofdevHtbl) : Walked g g key [] :=
  ⟨fun _ _ => rfl, hkey, fun _ => by simp, fun _ _ => by simp, fun _ _ => by simp⟩

/-- The walk closes its first socket, and then goes on from the state that this leaves. -/
theorem walked_cons {g g₁ g' : Global} {key : DevKey} {fd : Fd} {info : RwInfo} {dev : DevInfo}
    {l : List Fd} (hnodup : ∀ m, (g.mgrs m).fds.Nodup) (hl : g.ofrwHtbl.lookup fd = some info)
    (hkey : info.devKey = key) (hc : Closed g g₁ fd info.devKey dev)
    (hm : g₁.mgrs = dropped g fd info.thrMgr) (hw : Walked g₁ g' key l) :
    Walked g g' key (fd :: l) := by
  subst hkey
  refine ⟨fun k hk => ?_, hw.registered, fun f => ?_, fun ck ci => ?_, fun m f => ?_⟩
  · rw [hw.ofdev k hk, hc.ofdev, if_neg hk]
  · rw [hw.ofrw, hc.ofrw]
    by_cases hf : f = fd
    · simp [hf]
    · simp [hf]
  · rw [hw.ofchannel, hc.ofchannel, List.mem_cons]
    tauto
  · rw [hw.polled, hm, mem_dropped hnodup, hc.ofrw, List.mem_cons]
    by_cases hf : f = fd
    · subst hf
      simp [hl]
    · simp [hf]

/-- A walk over sockets of the device, each once, comes to its end. -/
theorem closeSockets_returns (closeRet : Fd → Int) {key : DevKey} (l : List Fd) {g : Global}
    (h : Workable g) (hkey : key ∈ g.ofdevHtbl) (hl : l.Nodup) (hdev : ∀ fd ∈ l, OfDevice g key fd) :
    ∃ g', closeSockets closeRet l g = some g' ∧ Walked g g' key l := by
  induction l generalizing g with
  | nil => exact ⟨g, rfl, walked_nil hkey⟩
  | cons fd rest ih =>
    obtain ⟨hnew, hrest⟩ := List.nodup_cons.mp hl
    obtain ⟨info, hfd, rfl⟩ := hdev fd List.mem_cons_self
    obtain ⟨g₁, hclose⟩ := closeConn_returns (closeRet fd) h.pooled hfd (h.closable fd info hfd) hkey
    obtain ⟨-, dev, -, hc⟩ := closeConn_spec h.pooled hfd hclose
    have hm := closeConn_mgrs h.pooled hfd hclose
    have hkey₁ : info.devKey ∈ g₁.ofdevHtbl := mem_iff_lookup.mpr ⟨_, by rw [hc.ofdev, if_pos rfl]⟩
    -- the sockets still to come are entered as they were
    have hdev₁ : ∀ f ∈ rest, OfDevice g₁ info.devKey f := by
      intro f hf
      obtain ⟨fi, hfi, hfkey⟩ := hdev f (List.mem_cons_of_mem _ hf)
      have hne : f ≠ fd := fun heq => hnew (heq ▸ hf)
      exact ⟨fi, by rw [hc.ofrw, if_neg hne]; exact hfi, hfkey⟩
    obtain ⟨g', hw, hwalked⟩ := ih (workable_closeConn h hfd hclose) hkey₁ hrest hdev₁
    refine ⟨g', ?_, walked_cons h.nodup hfd rfl hc hm hwalked⟩
    simp only [closeSockets, hfd, hclose, Option.bind_some]
    exact hw

/-- And with no other device a walk that comes to its end was one over sockets of the device. -/
theorem closeSockets_inversion {closeRet : Fd → Int} {key : DevKey} (l : List Fd) {g g' : Global}
    (h : Workable g) (honly : ∀ k ∈ g.ofdevHtbl, k = key)
    (hw : closeSockets closeRet l g = some g') : l.Nodup ∧ ∀ fd ∈ l, OfDevice g key fd := by
  induction l generalizing g with
  | nil => exact ⟨List.nodup_nil, nofun⟩
  | cons fd rest ih =>
    unfold closeSockets at hw
    split at hw
    · cases hw
    · rename_i info hl
      obtain ⟨r, hr, hw⟩ := Option.bind_eq_some_iff.mp hw
      obtain ⟨-, dev, hd, hc⟩ := closeConn_spec h.pooled hl hr
      have hkey : info.devKey = key := honly _ (mem_iff_lookup.mpr ⟨dev, hd⟩)
      have honly₁ : ∀ k ∈ r.2.ofdevHtbl, k = key := by
        intro k hk
        obtain ⟨d, hkd⟩ := mem_iff_lookup.mp hk
        rw [hc.ofdev] at hkd
        split at hkd
        · rename_i heq
          exact heq.trans hkey
        · exact honly k (mem_iff_lookup.mpr ⟨d, hkd⟩)
      obtain ⟨hnodup, hrest⟩ := ih (workable_closeConn h hl hr) honly₁ hw
      have hold : ∀ f ∈ rest, f ≠ fd ∧ OfDevice g key f := by
        intro f hf
        obtain ⟨fi, hfi, hfkey⟩ := hrest f hf
        rw [hc.ofrw] at hfi
        split at hfi
        · cases hfi
        · rename_i hne
          exact ⟨hne, fi, hfi, hfkey⟩
      refine ⟨List.nodup_cons.mpr ⟨fun hf => (hold fd hf).1 rfl, hnodup⟩, fun f hf => ?_⟩
      rcases List.mem_cons.mp hf with rfl | hf
      · exact ⟨info, hl, hkey⟩
      · exact (hold f hf).2

theorem eq_of_size_one {K V : Type} [DecidableEq K] {t : Table K V} (h : size t = 1) {k k' : K}
    (hk : k ∈ t) (hk' : k' ∈ t) : k = k' := by
  obtain ⟨e, he⟩ := List.length_eq_one_iff.mp h
  obtain ⟨v, hv⟩ := mem_iff_lookup.mp hk
  obtain ⟨v', hv'⟩ := mem_iff_lookup.mp hk'
  rw [lookup_eq_some_iff, he, List.mem_singleton] at hv hv'
  exact congrArg Sigma.fst (hv.trans hv'.symm)

/-- The walk of `cc_of_dev_free`, and what comes after it. -/
theorem devFree_inversion {g : Global} {key : DevKey} {closeRet : Fd → Int} {r : Ret × Global}
    (h : ccOfDevFree g key closeRet = some r) :
    size g.ofdevHtbl = 1 ∧ ∃ dev g₁ t, g.ofdevHtbl.lookup key = some dev ∧
      closeSockets closeRet dev.ofrwSocketList g = some g₁ ∧
      r = ((updateGlobalHtblLockfree g₁.ofdevHtbl key .del).1, { g₁ with
        oflistenPollthr := t
        ofdevHtbl := (updateGlobalHtblLockfree g₁.ofdevHtbl key .del).2.1 }) := by
  unfold ccOfDevFree at h
  split at h
  · rename_i hsize
    obtain ⟨q, hq, rfl⟩ := Option.map_eq_some_iff.mp h
    unfold ccOfDevFreeLockfree at hq
    split at hq
    · cases hq
    · rename_i dev hd
      obtain ⟨g₁, hw, hq⟩ := Option.bind_eq_some_iff.mp hq
      obtain ⟨t, -, rfl⟩ := Option.map_eq_some_iff.mp hq
      exact ⟨hsize, dev, g₁, t.2, hd, hw, rfl⟩
  · cases h

theorem freesOne_of_sole {g : Global} {key : DevKey} (closeRet : Fd → Int) (h : Workable g)
    (hsize : size g.ofdevHtbl = 1) (hlist : ListsSockets g key) : FreesOne g key closeRet := by
  obtain ⟨dev, hd, hnodup, hmem⟩ := hlist
  have hkey : key ∈ g.ofdevHtbl := mem_iff_lookup.mpr ⟨dev, hd⟩
  refine ⟨fun _ => ?_, fun hnot => absurd hkey hnot⟩
  obtain ⟨g₁, hw, hwalked⟩ := closeSockets_returns closeRet dev.ofrwSocketList h hkey
    hnodup fun fd hf => (hmem fd).mp hf
  have hfree : ccOfDevFree g key closeRet = some (ccOfOk, { g₁ with
      oflistenPollthr := { g₁.oflistenPollthr with
        numSockets := g₁.oflistenPollthr.numSockets - 1
        fds := g₁.oflistenPollthr.fds.erase dev.mainSockfdTcp }
      ofdevHtbl := g₁.ofdevHtbl.erase key }) := by
    simp only [ccOfDevFree, if_pos hsize, ccOfDevFreeLockfree, hd, hw, Option.bind_some,
      adpThrMgrAddDelFd, Option.map_some, updateGlobalHtblLockfree, if_pos hwalked.registered]
  refine ⟨_, hfree, fun k => ?_, fun fd info => ?_, fun ck info => ?_, fun m fd => ?_⟩
  · rw [lookup_erase_eq]
    split
    · rfl
    · rename_i hk
      exact hwalked.ofdev k hk
  · show g₁.ofrwHtbl.lookup fd = some info ↔ _
    rw [hwalked.ofrw]
    split
    · rename_i hdev
      obtain ⟨old, hold, hkey⟩ := (hmem fd).mp hdev
      refine iff_of_false (Option.some_ne_none info).symm ?_
      rintro ⟨hl, hne⟩
      rw [hold] at hl
      obtain rfl := Option.some.inj hl
      exact hne hkey
    · rename_i hdev
      exact ⟨fun hl => ⟨hl, fun hkey => hdev ((hmem fd).mpr ⟨info, hl, hkey⟩)⟩, And.left⟩
  · show g₁.ofchannelHtbl.lookup ck = some info ↔ _
    rw [hwalked.ofchannel, hmem]
  · show fd ∈ (g₁.mgrs m).fds ↔ _
    rw [hwalked.polled, hmem]
    refine and_congr_right fun _ => not_congr ⟨?_, ?_⟩
    · rintro ⟨⟨old, hold, hkey⟩, info, hl, hthr⟩
      rw [hold] at hl
      obtain rfl := Option.some.inj hl
      exact ⟨old, hold, hkey, hthr⟩
    · rintro ⟨info, hl, hkey, hthr⟩
      exact ⟨⟨info, hl, hkey⟩, info, hl, hthr⟩

theorem sole_of_freesOne {g : Global} {key : DevKey} {closeRet : Fd → Int} (h : Workable g)
    (hf : FreesOne g key closeRet) : size g.ofdevHtbl = 1 ∧ ListsSockets g key := by
  have hkey : key ∈ g.ofdevHtbl := by
    by_contra hnot
    obtain ⟨-, dev, -, -, hd, -⟩ := devFree_inversion (hf.2 hnot)
    exact hnot (mem_iff_lookup.mpr ⟨dev, hd⟩)
  obtain ⟨g', hfree, hfreed⟩ := hf.1 hkey
  obtain ⟨hsize, dev, g₁, t, hd, hw, heq⟩ := devFree_inversion hfree
  obtain ⟨hnodup, hlisted⟩ := closeSockets_inversion dev.ofrwSocketList h
    (fun k hk => eq_of_size_one hsize hk hkey) hw
  refine ⟨hsize, dev, hd, hnodup, fun fd => ⟨hlisted fd, ?_⟩⟩
  rintro ⟨info, hl, hdev⟩
  by_contra hunlisted
  -- a socket that is not in the list is still entered
  obtain ⟨g₂, hw₂, hwalked⟩ := closeSockets_returns closeRet dev.ofrwSocketList h hkey
    hnodup hlisted
  rw [hw] at hw₂
  obtain rfl := Option.some.inj hw₂
  have hstill : g'.ofrwHtbl.lookup fd = some info := by
    rw [(Prod.mk.inj heq).2]
    show g₁.ofrwHtbl.lookup fd = some info
    rw [hwalked.ofrw, if_neg hunlisted, hl]
  exact ((hfreed.ofrw fd info).mp hstill).2 hdev

/-- A controller registers a device and accepts two connections for it. -/
def twoConnections : List Traced.Op :=
  [.devRegister ⟨1, 0, 6633⟩ 0 ⟨7, 8, 9⟩ 4, .accept 5 ⟨1, 0, 6633⟩ ⟨0, 0⟩ ⟨0, 0⟩,
    .accept 6 ⟨1, 0, 6633⟩ ⟨0, 0⟩ ⟨0, 0⟩]

theorem ofDevice_iff {g : Global} {key : DevKey} {fd : Fd} :
    OfDevice g key fd ↔
      fd ∈ (g.ofrwHtbl.entries.filter fun e => e.2.devKey = key).map Sigma.fst := by
  simp only [OfDevice, lookup_eq_some_iff, List.mem_map, List.mem_filter, decide_eq_true_eq]
  constructor
  · rintro ⟨info, hmem, hkey⟩
    exact ⟨⟨fd, info⟩, ⟨hmem, hkey⟩, rfl⟩
  · rintro ⟨⟨f, info⟩, ⟨hmem, hkey⟩, rfl⟩
    exact ⟨info, hmem, hkey⟩

end OfConnect.Pool.Devices
