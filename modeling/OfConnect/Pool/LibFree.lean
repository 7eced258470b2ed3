import OfConnect.Core.Fresh
import OfConnect.Pool.DevWalk
import OfConnect.Pool.Devices

/-!
# Taking the library down

`cc_of_lib_free` frees every device that is registered, one after the other, then destroys
`ofchannel_htbl` and `ofrw_htbl` with what is left in them, and stops the threads. A comment in it
says that freeing the devices should have emptied both tables. What is left of the sockets, of
the open descriptors and of what the threads poll is said here for every state that calls lead
to, and that nothing is left where no device was registered over another.
-/

namespace OfConnect.Pool.LibFree

open OfConnect.Lib.Tables OfConnect.Lib.Run OfConnect.PollThr.Thread OfConnect.Core.State
open OfConnect.Core.Effects OfConnect.Core.SocketLists OfConnect.Pool.Closing
open OfConnect.Pool.Devices (Walked OfDevice closeSockets_returns)
open OfConnect.Pool.Traced

/-- `g_hash_table_foreach_remove` with `cc_of_devfree_iter`, over the devices as the table holds
them. -/
def freeDevices (closeRet : Fd → Int) : List DevKey → Sys → Option Sys
  | [], s => some s
  | key :: keys, s => (ccOfDevfreeIter s key closeRet).bind (freeDevices closeRet keys)

/-- What `cc_of_lib_free` finds after the devices are freed, when it destroys the tables, and the
managers it then stops and releases. -/
structure Down where
  left : Sys
  stopped : List MgrId

def ccOfLibFree (s : Sys) (order : List DevKey) (closeRet : Fd → Int) : Option Down :=
  (freeDevices closeRet order s).map fun left => ⟨left, left.g.ofrwPollthrList⟩

/-! ## One device -/

/-- The device, its sockets and its listening socket are dealt with, and nothing else. -/
structure Gone (s s' : Sys) (key : DevKey) (dev : DevInfo) : Prop where
  ofdev : ∀ k, k ≠ key → s'.g.ofdevHtbl.lookup k = s.g.ofdevHtbl.lookup k
  own : ∀ fd, fd ∈ s'.own ↔
    fd ∈ s.own ∧ fd ∉ dev.ofrwSocketList ∧ fd ≠ dev.mainSockfdTcp
  ofrw : ∀ fd, s'.g.ofrwHtbl.lookup fd =
    if fd ∈ dev.ofrwSocketList then none else s.g.ofrwHtbl.lookup fd
  ofchannel : ∀ ck info, s'.g.ofchannelHtbl.lookup ck = some info ↔
    s.g.ofchannelHtbl.lookup ck = some info ∧ info.rwSockfd ∉ dev.ofrwSocketList
  polled : ∀ m fd, fd ∈ (s'.g.mgrs m).fds ↔ fd ∈ (s.g.mgrs m).fds ∧
    ¬(fd ∈ dev.ofrwSocketList ∧ ∃ info, s.g.ofrwHtbl.lookup fd = some info ∧ info.thrMgr = some m)
  pool : ∀ m, m ∈ s'.g.ofrwPollthrList ↔ m ∈ s.g.ofrwPollthrList
  random : s'.random = s.random

theorem closeConn_own {s : Sys} {fd : Fd} {info : RwInfo} {closeRet : Int} {r : Ret × Sys}
    (hw : Workable s.g) (hl : s.g.ofrwHtbl.lookup fd = some info)
    (hc : closeConn s info.layer4Proto fd closeRet = some r) :
    (∀ f, f ∈ r.2.own ↔ f ∈ s.own ∧ f ≠ fd) ∧ r.2.random = s.random := by
  obtain ⟨q, hq, hr⟩ := closeConn_of_entry hl hc
  obtain ⟨d, hd, rfl⟩ := Option.map_eq_some_iff.mp hq
  obtain ⟨hok, -⟩ := delSockfd_spec hw.pooled hl hd
  rw [if_neg (by rw [hok]; decide)] at hr
  obtain rfl := hr
  refine ⟨fun f => ?_, rfl⟩
  simp only [close, List.mem_filter, decide_eq_true_eq]

/-- The calls of `Core.Api` come to the end of their walk, and so do these. -/
theorem closeSockets_traced {closeRet : Fd → Int} (l : List Fd) {s : Sys} {g : Global}
    (hlisted : Listed s.g) (hw : Workable s.g)
    (h : Core.Api.closeSockets closeRet l s.g = some g) :
    ∃ s', closeSockets closeRet l s = some s' ∧ s'.g = g ∧ Listed g ∧
      (∀ f, f ∈ s'.own ↔ f ∈ s.own ∧ f ∉ l) ∧
      (∀ m, m ∈ g.ofrwPollthrList ↔ m ∈ s.g.ofrwPollthrList) ∧ s'.random = s.random := by
  induction l generalizing s with
  | nil =>
    obtain rfl := Option.some.inj h
    exact ⟨s, rfl, rfl, hlisted, fun f => by simp, fun m => Iff.rfl, rfl⟩
  | cons fd rest ih =>
    unfold Core.Api.closeSockets at h
    split at h
    · cases h
    · rename_i info hl
      obtain ⟨r, hr, h⟩ := Option.bind_eq_some_iff.mp h
      rw [← forget_closeConn] at hr
      obtain ⟨q, hq, rfl⟩ := Option.map_eq_some_iff.mp hr
      have hr : Core.Api.closeConn s.g info.layer4Proto fd (closeRet fd) = some (forget q) := by
        rw [← forget_closeConn, hq, Option.map_some]
      obtain ⟨-, dev, hdev, hclosed⟩ := closeConn_spec hw.pooled hl hr
      obtain ⟨hown, hrandom⟩ := closeConn_own hw hl hq
      obtain ⟨s', hs', hg, hlisted', hown', hpool, hrandom'⟩ :=
        ih (hlisted.closed hl hdev hclosed) (workable_closeConn hw hl hr) h
      refine ⟨s', ?_, hg, hlisted', fun f => ?_, fun m => ?_, hrandom'.trans hrandom⟩
      · simp only [closeSockets, hl, hq, Option.bind_some]
        exact hs'
      · rw [hown', hown, List.mem_cons, not_or, and_assoc]
      · rw [hpool]
        exact hclosed.pool m

theorem listed_erase {g g' : Global} {key : DevKey} (h : Listed g)
    (hd : g'.ofdevHtbl = g.ofdevHtbl.erase key) (hr : g'.ofrwHtbl = g.ofrwHtbl) : Listed g' := by
  have hold : ∀ k d, g'.ofdevHtbl.lookup k = some d → g.ofdevHtbl.lookup k = some d := by
    intro k d hk
    rw [hd, lookup_erase_eq] at hk
    split at hk
    · cases hk
    · exact hk
  constructor
  · intro k d fd hk hf
    rw [hr]
    exact h.socket k d fd (hold k d hk) hf
  · intro k d hk
    exact h.nodup k d (hold k d hk)

/-- In a state as calls leave it, freeing a device comes to its end. -/
theorem devFreeLockfree_returns {s : Sys} {key : DevKey} {dev : DevInfo} (closeRet : Fd → Int)
    (hlisted : Listed s.g) (hw : Workable s.g) (hd : s.g.ofdevHtbl.lookup key = some dev) :
    ∃ s', ccOfDevFreeLockfree s key closeRet = some (closeRet dev.mainSockfdTcp, s') ∧
      Gone s s' key dev ∧ Listed s'.g ∧ Workable s'.g := by
  have hkey : key ∈ s.g.ofdevHtbl := mem_iff_lookup.mpr ⟨dev, hd⟩
  obtain ⟨g, hg, hwalked⟩ := closeSockets_returns closeRet dev.ofrwSocketList hw hkey
    (hlisted.nodup key dev hd) fun fd hf => hlisted.socket key dev fd hd hf
  obtain ⟨s₁, hs₁, rfl, hlisted₁, hown, hpool, hrandom⟩ := closeSockets_traced _ hlisted hw hg
  have hw₁ := workable_closeSockets _ hw hg
  have hfree : ccOfDevFreeLockfree s key closeRet = some (closeRet dev.mainSockfdTcp,
      close { s₁ with
        g := { s₁.g with oflistenPollthr := { s₁.g.oflistenPollthr with
          numSockets := s₁.g.oflistenPollthr.numSockets - 1
          fds := s₁.g.oflistenPollthr.fds.erase dev.mainSockfdTcp } }
        log := s₁.log ++ [.deleteFd dev.mainSockfdTcp s₁.g.oflistenPollthr.fds] }
      dev.mainSockfdTcp) := by
    simp only [ccOfDevFreeLockfree, hd, hs₁, Option.bind_some, closeListenfd, adpThrMgrAddDelFd,
      Option.map_some]
  refine ⟨_, hfree, ⟨hwalked.ofdev, fun fd => ?_, hwalked.ofrw, hwalked.ofchannel, hwalked.polled,
    hpool, hrandom⟩, hlisted₁.congr rfl fun fd info hl => ⟨info, hl, rfl⟩,
    hw₁.of_devices _ s₁.g.ofdevHtbl⟩
  simp only [close, List.mem_filter, hown, decide_eq_true_eq, and_assoc]

/-- The record of the device is taken out of the table. -/
def unregister (s : Sys) (key : DevKey) : Sys :=
  { s with g := { s.g with ofdevHtbl := s.g.ofdevHtbl.erase key } }

theorem Gone.unregister {s s₁ : Sys} {key : DevKey} {dev : DevInfo} (h : Gone s s₁ key dev) :
    Gone s (unregister s₁ key) key dev := by
  refine ⟨fun k hk => ?_, h.own, h.ofrw, h.ofchannel, h.polled, h.pool, h.random⟩
  show (s₁.g.ofdevHtbl.erase key).lookup k = s.g.ofdevHtbl.lookup k
  rw [lookup_erase_eq, if_neg hk]
  exact h.ofdev k hk

theorem devfreeIter_returns {s : Sys} {key : DevKey} {dev : DevInfo} (closeRet : Fd → Int)
    (hlisted : Listed s.g) (hw : Workable s.g) (hd : s.g.ofdevHtbl.lookup key = some dev) :
    ∃ s', ccOfDevfreeIter s key closeRet = some s' ∧ Gone s s' key dev ∧ Listed s'.g ∧
      Workable s'.g := by
  obtain ⟨s₁, hfree, hgone, hlisted₁, hw₁⟩ := devFreeLockfree_returns closeRet hlisted hw hd
  unfold ccOfDevfreeIter
  rw [hfree, Option.map_some]
  dsimp only
  split
  · exact ⟨s₁, rfl, hgone, hlisted₁, hw₁⟩
  · exact ⟨unregister s₁ key, rfl, hgone.unregister, listed_erase hlisted₁ rfl rfl,
      hw₁.of_devices _ _⟩

/-! ## All of them -/

/-- One of the devices lists the socket. -/
def ListedIn (g : Global) (keys : List DevKey) (fd : Fd) : Prop :=
  ∃ key ∈ keys, ∃ dev, g.ofdevHtbl.lookup key = some dev ∧ fd ∈ dev.ofrwSocketList

/-- It is the listening socket of one of them. -/
def ListensIn (g : Global) (keys : List DevKey) (fd : Fd) : Prop :=
  ∃ key ∈ keys, ∃ dev, g.ofdevHtbl.lookup key = some dev ∧ fd = dev.mainSockfdTcp

/-- What becomes of a state when these devices are freed. -/
structure Emptied (s s' : Sys) (keys : List DevKey) : Prop where
  own : ∀ fd, fd ∈ s'.own ↔
    fd ∈ s.own ∧ ¬ListedIn s.g keys fd ∧ ¬ListensIn s.g keys fd
  ofrw : ∀ fd info, s'.g.ofrwHtbl.lookup fd = some info ↔
    s.g.ofrwHtbl.lookup fd = some info ∧ ¬ListedIn s.g keys fd
  ofchannel : ∀ ck info, s'.g.ofchannelHtbl.lookup ck = some info ↔
    s.g.ofchannelHtbl.lookup ck = some info ∧ ¬ListedIn s.g keys info.rwSockfd
  polled : ∀ m fd, fd ∈ (s'.g.mgrs m).fds ↔ fd ∈ (s.g.mgrs m).fds ∧
    ¬(ListedIn s.g keys fd ∧ ∃ info, s.g.ofrwHtbl.lookup fd = some info ∧ info.thrMgr = some m)
  pool : ∀ m, m ∈ s'.g.ofrwPollthrList ↔ m ∈ s.g.ofrwPollthrList

theorem emptied_nil (s : Sys) : Emptied s s [] := by
  refine ⟨fun fd => ?_, fun fd info => ?_, fun ck info => ?_, fun m fd => ?_, fun m => Iff.rfl⟩
  · simp [ListedIn, ListensIn]
  · simp [ListedIn]
  · simp [ListedIn]
  · simp [ListedIn]

/-- Freeing a device leaves the lists of the others alone. -/
theorem Gone.listedIn_iff {s s₁ : Sys} {key : DevKey} {dev : DevInfo} (h : Gone s s₁ key dev)
    {keys : List DevKey} (hkey : key ∉ keys) (fd : Fd) :
    ListedIn s₁.g keys fd ↔ ListedIn s.g keys fd := by
  unfold ListedIn
  refine exists_congr fun k => and_congr_right fun hk => ?_
  rw [h.ofdev k fun heq => hkey (heq ▸ hk)]

theorem Gone.listensIn_iff {s s₁ : Sys} {key : DevKey} {dev : DevInfo} (h : Gone s s₁ key dev)
    {keys : List DevKey} (hkey : key ∉ keys) (fd : Fd) :
    ListensIn s₁.g keys fd ↔ ListensIn s.g keys fd := by
  unfold ListensIn
  refine exists_congr fun k => and_congr_right fun hk => ?_
  rw [h.ofdev k fun heq => hkey (heq ▸ hk)]

theorem listedIn_cons {g : Global} {key : DevKey} {dev : DevInfo} {keys : List DevKey} {fd : Fd}
    (hd : g.ofdevHtbl.lookup key = some dev) :
    ListedIn g (key :: keys) fd ↔ fd ∈ dev.ofrwSocketList ∨ ListedIn g keys fd := by
  simp only [ListedIn, List.exists_mem_cons_iff, hd, Option.some.injEq, exists_eq_left']

theorem listensIn_cons {g : Global} {key : DevKey} {dev : DevInfo} {keys : List DevKey} {fd : Fd}
    (hd : g.ofdevHtbl.lookup key = some dev) :
    ListensIn g (key :: keys) fd ↔ fd = dev.mainSockfdTcp ∨ ListensIn g keys fd := by
  simp only [ListensIn, List.exists_mem_cons_iff, hd, Option.some.injEq, exists_eq_left']

theorem emptied_cons {s s₁ s' : Sys} {key : DevKey} {dev : DevInfo} {keys : List DevKey}
    (hd : s.g.ofdevHtbl.lookup key = some dev) (hkey : key ∉ keys) (hg : Gone s s₁ key dev)
    (he : Emptied s₁ s' keys) : Emptied s s' (key :: keys) := by
  have hlist := hg.listedIn_iff hkey
  have hlisten := hg.listensIn_iff hkey
  refine ⟨fun fd => ?_, fun fd info => ?_, fun ck info => ?_, fun m fd => ?_, fun m => ?_⟩
  · rw [he.own, hg.own, hlist, hlisten, listedIn_cons hd, listensIn_cons hd]
    tauto
  · rw [he.ofrw, hg.ofrw, hlist, listedIn_cons hd]
    by_cases hf : fd ∈ dev.ofrwSocketList
    · simp [hf]
    · simp [hf]
  · rw [he.ofchannel, hg.ofchannel, hlist, listedIn_cons hd]
    tauto
  · rw [he.polled, hg.polled, hg.ofrw, hlist, listedIn_cons hd]
    by_cases hf : fd ∈ dev.ofrwSocketList
    · simp [hf]
    · simp [hf]
  · rw [he.pool, hg.pool]

theorem freeDevices_returns (closeRet : Fd → Int) (keys : List DevKey) {s : Sys}
    (hlisted : Listed s.g) (hw : Workable s.g) (hnodup : keys.Nodup)
    (hreg : ∀ key ∈ keys, key ∈ s.g.ofdevHtbl) :
    ∃ s', freeDevices closeRet keys s = some s' ∧ Emptied s s' keys := by
  induction keys generalizing s with
  | nil => exact ⟨s, rfl, emptied_nil s⟩
  | cons key keys ih =>
    obtain ⟨hkey, hrest⟩ := List.nodup_cons.mp hnodup
    obtain ⟨dev, hd⟩ := mem_iff_lookup.mp (hreg key List.mem_cons_self)
    obtain ⟨s₁, hs₁, hg, hlisted₁, hw₁⟩ := devfreeIter_returns closeRet hlisted hw hd
    have hreg₁ : ∀ k ∈ keys, k ∈ s₁.g.ofdevHtbl := by
      intro k hk
      obtain ⟨d, hkd⟩ := mem_iff_lookup.mp (hreg k (List.mem_cons_of_mem _ hk))
      rw [← hg.ofdev k fun heq => hkey (heq ▸ hk)] at hkd
      exact mem_iff_lookup.mpr ⟨d, hkd⟩
    obtain ⟨s', hs', he⟩ := ih hlisted₁ hw₁ hrest hreg₁
    refine ⟨s', ?_, emptied_cons hd hkey hg he⟩
    simp only [freeDevices, hs₁, Option.bind_some]
    exact hs'

/-- The devices are those of the table, in whichever order it holds them. -/
theorem libFree_returns {s : Sys} {order : List DevKey} (closeRet : Fd → Int)
    (hlisted : Listed s.g) (hw : Workable s.g) (horder : order.Perm s.g.ofdevHtbl.keys) :
    ∃ down, ccOfLibFree s order closeRet = some down ∧ Emptied s down.left order ∧
      down.stopped = down.left.g.ofrwPollthrList := by
  have hnodup : order.Nodup := horder.nodup_iff.mpr s.g.ofdevHtbl.nodupKeys
  have hreg : ∀ key ∈ order, key ∈ s.g.ofdevHtbl := by
    intro key hk
    exact AList.mem_keys.mpr (horder.mem_iff.mp hk)
  obtain ⟨s', hs', he⟩ := freeDevices_returns closeRet order hlisted hw hnodup hreg
  exact ⟨⟨s', s'.g.ofrwPollthrList⟩, by rw [ccOfLibFree, hs', Option.map_some], he, rfl⟩

/-! ## What calls keep -/

/-- The device that a call frees. -/
def freed : Op → Option DevKey
  | .devFree key _ | .devfreeIter key _ => some key
  | _ => none

/-- A device that is freed listens on a socket whose number no entered socket has; the other calls
are those of `DevWalk.Apart`. -/
def Tidy (s : Sys) (op : Op) : Prop :=
  (∀ key ∈ freed op, ∀ dev ∈ s.g.ofdevHtbl.lookup key, dev.mainSockfdTcp ∉ s.g.ofrwHtbl) ∧
    (freed op = none → DevWalk.Apart s op)

instance (s : Sys) (op : Op) : Decidable (Tidy s op) := inferInstanceAs (Decidable (_ ∧ _))

/-- What freeing a device leaves to the walks over the others. -/
theorem inv_gone {s s' : Sys} {key : DevKey} {dev : DevInfo} (h : DevWalk.Inv s)
    (hmain : dev.mainSockfdTcp ∉ s.g.ofrwHtbl) (hg : Gone s s' key dev) (hl : Listed s'.g) :
    DevWalk.Inv s' := by
  have hold : ∀ fd info, s'.g.ofrwHtbl.lookup fd = some info →
      fd ∉ dev.ofrwSocketList ∧ s.g.ofrwHtbl.lookup fd = some info := by
    intro fd info hfd
    rw [hg.ofrw] at hfd
    split at hfd
    · cases hfd
    · rename_i hnot
      exact ⟨hnot, hfd⟩
  refine ⟨hl, fun fd info hfd hthr => ?_, fun fd info hfd hthr => ?_⟩
  · obtain ⟨hnot, hfd⟩ := hold fd info hfd
    refine (hg.own fd).mpr ⟨h.owned fd info hfd hthr, hnot, fun heq => hmain ?_⟩
    exact heq ▸ mem_iff_lookup.mpr ⟨info, hfd⟩
  · rw [hg.random]
    exact h.numbered fd info (hold fd info hfd).2 hthr

theorem freed_cases {op : Op} {key : DevKey} (h : freed op = some key) :
    ∃ closeRet, op = .devFree key closeRet ∨ op = .devfreeIter key closeRet := by
  cases op with
  | devFree k closeRet =>
    obtain rfl := Option.some.inj h
    exact ⟨closeRet, .inl rfl⟩
  | devfreeIter k closeRet =>
    obtain rfl := Option.some.inj h
    exact ⟨closeRet, .inr rfl⟩
  | _ => cases h

/-- Either way to free a device does to it what `Gone` says. -/
theorem freed_gone {s s' : Sys} {op : Op} {key : DevKey} (hop : freed op = some key)
    (hlisted : Listed s.g) (hw : Workable s.g) (hs : step s op = some s') :
    ∃ dev, s.g.ofdevHtbl.lookup key = some dev ∧ Gone s s' key dev ∧ Listed s'.g := by
  obtain ⟨closeRet, hop⟩ := freed_cases hop
  cases hd : s.g.ofdevHtbl.lookup key with
  | none =>
    have hnone : ccOfDevFreeLockfree s key closeRet = none := by simp only [ccOfDevFreeLockfree, hd]
    rcases hop with rfl | rfl
    · simp only [step, ccOfDevFree, hnone, Option.map_none, ite_self] at hs
      cases hs
    · simp only [step, ccOfDevfreeIter, hnone, Option.map_none] at hs
      cases hs
  | some dev =>
    refine ⟨dev, rfl, ?_⟩
    rcases hop with rfl | rfl
    · obtain ⟨s₁, hfree, hgone, hlisted₁, -⟩ := devFreeLockfree_returns closeRet hlisted hw hd
      obtain ⟨r, hr, rfl⟩ := Option.map_eq_some_iff.mp hs
      unfold ccOfDevFree at hr
      split at hr
      · rw [hfree, Option.map_some] at hr
        obtain rfl := Option.some.inj hr
        simp only [updateGlobalHtblLockfree]
        split
        · exact ⟨hgone.unregister, listed_erase hlisted₁ rfl rfl⟩
        · exact ⟨hgone, hlisted₁⟩
      · cases hr
    · obtain ⟨s₁, hfree, hgone, hlisted₁, -⟩ := devfreeIter_returns closeRet hlisted hw hd
      obtain rfl := Option.some.inj (hfree.symm.trans hs)
      exact ⟨hgone, hlisted₁⟩

theorem inv_step {s s' : Sys} {op : Op} (h : DevWalk.Inv s) (hw : Workable s.g) (hok : Tidy s op)
    (hs : step s op = some s') : DevWalk.Inv s' := by
  cases hop : freed op with
  | none => exact DevWalk.inv_step h hw (hok.2 hop) hs
  | some key =>
    obtain ⟨dev, hd, hg, hl⟩ := freed_gone hop h.listed hw hs
    exact inv_gone h (hok.1 key hop dev hd) hg hl

theorem always_workable {devType : DevType} {ops : List Op}
    (h : Guarded step Tidy (start devType) ops) :
    Always step (fun s => DevWalk.Inv s ∧ Workable s.g) (start devType) ops :=
  always_of_guarded
    (fun _ _ _ hinv hok hs => ⟨inv_step hinv.1 hinv.2 hok hs,
      workable_call hinv.2 (call_of_step hs)⟩)
    ⟨DevWalk.inv_start devType, workable_libInit devType⟩ h

/-- Every socket is listed by its device, every open descriptor is a socket or a listening
socket, a channel names a socket, and a thread polls its own sockets only. -/
structure Accounted (s : Sys) : Prop where
  listed : ∀ fd info, s.g.ofrwHtbl.lookup fd = some info →
    ∃ dev, s.g.ofdevHtbl.lookup info.devKey = some dev ∧ fd ∈ dev.ofrwSocketList
  owned : ∀ fd ∈ s.own, fd ∈ s.g.ofrwHtbl ∨
    ∃ key dev, s.g.ofdevHtbl.lookup key = some dev ∧ fd = dev.mainSockfdTcp
  named : ∀ ck fd, Names s.g ck fd → fd ∈ s.g.ofrwHtbl
  polled : ∀ m fd, fd ∈ (s.g.mgrs m).fds →
    ∃ info, s.g.ofrwHtbl.lookup fd = some info ∧ info.thrMgr = some m

theorem accounted_start (devType : DevType) : Accounted (start devType) := by
  refine ⟨nofun, nofun, fun ck fd hn => ?_, fun m fd hf => ?_⟩
  · obtain ⟨info, hl, -⟩ := hn
    cases hl
  · have hnil : ((start devType).g.mgrs m).fds = [] := by
      simp only [start, Core.Api.ccOfLibInit, ccCreateRwPollthrSafe, Function.update_apply]
      split
      · rfl
      · rfl
    rw [hnil] at hf
    cases hf

/-- The same sockets, devices and descriptors. -/
structure Unchanged (g g' : Global) : Prop where
  ofdev : ∀ k, g'.ofdevHtbl.lookup k = g.ofdevHtbl.lookup k
  ofrw : ∀ fd info', g'.ofrwHtbl.lookup fd = some info' →
    ∃ info, g.ofrwHtbl.lookup fd = some info ∧ info.devKey = info'.devKey
  kept : ∀ fd info, g.ofrwHtbl.lookup fd = some info →
    ∃ info', g'.ofrwHtbl.lookup fd = some info' ∧ info'.thrMgr = info.thrMgr
  names : ∀ ck fd, Names g' ck fd → ∃ ck', Names g ck' fd
  polled : ∀ m fd, fd ∈ (g'.mgrs m).fds → fd ∈ (g.mgrs m).fds

theorem Accounted.unchanged {s : Sys} {g' : Global} (h : Accounted s) (hu : Unchanged s.g g')
    (random : UInt32) : Accounted { s with g := g', random := random } := by
  have hmem : ∀ fd, fd ∈ s.g.ofrwHtbl → fd ∈ g'.ofrwHtbl := by
    intro fd hf
    obtain ⟨info, hl⟩ := mem_iff_lookup.mp hf
    obtain ⟨info', hl', -⟩ := hu.kept fd info hl
    exact mem_iff_lookup.mpr ⟨info', hl'⟩
  refine ⟨fun fd info' hl' => ?_, fun fd hf => ?_, fun ck fd hn => ?_, fun m fd hf => ?_⟩
  · obtain ⟨info, hl, hkey⟩ := hu.ofrw fd info' hl'
    obtain ⟨dev, hd, hf⟩ := h.listed fd info hl
    refine ⟨dev, ?_, hf⟩
    rw [← hkey]
    exact (hu.ofdev info.devKey).trans hd
  · rcases h.owned fd hf with hrw | ⟨key, dev, hd, hmain⟩
    · exact .inl (hmem fd hrw)
    · exact .inr ⟨key, dev, (hu.ofdev key).trans hd, hmain⟩
  · obtain ⟨ck', hn'⟩ := hu.names ck fd hn
    exact hmem fd (h.named ck' fd hn')
  · obtain ⟨info, hl, hthr⟩ := h.polled m fd (hu.polled m fd hf)
    obtain ⟨info', hl', hthr'⟩ := hu.kept fd info hl
    exact ⟨info', hl', hthr'.trans hthr⟩

/-- A new socket is entered for a device, with a manager or without one. -/
structure Entered (g g' : Global) (fd : Fd) (dev : DevInfo) (info : RwInfo) : Prop where
  fresh : fd ∉ g.ofrwHtbl
  registered : g.ofdevHtbl.lookup info.devKey = some dev
  ofdev : g'.ofdevHtbl =
    g.ofdevHtbl.insert info.devKey { dev with ofrwSocketList := dev.ofrwSocketList ++ [fd] }
  ofrw : ∀ f, g'.ofrwHtbl.lookup f = if f = fd then some info else g.ofrwHtbl.lookup f
  names : ∀ ck f, Names g' ck f → f = fd ∨ Names g ck f
  polled : ∀ m f, f ∈ (g'.mgrs m).fds → f ∈ (g.mgrs m).fds ∨ (f = fd ∧ info.thrMgr = some m)

theorem Entered.old {g g' : Global} {fd : Fd} {dev : DevInfo} {info : RwInfo}
    (h : Entered g g' fd dev info) {f : Fd} {i : RwInfo} (hl : g.ofrwHtbl.lookup f = some i) :
    g'.ofrwHtbl.lookup f = some i := by
  have hne : f ≠ fd := fun heq => h.fresh (heq ▸ mem_iff_lookup.mpr ⟨i, hl⟩)
  rw [h.ofrw, if_neg hne]
  exact hl

/-- The device has a longer list, and is otherwise what it was. -/
theorem Entered.device {g g' : Global} {fd : Fd} {dev : DevInfo} {info : RwInfo}
    (h : Entered g g' fd dev info) {key : DevKey} {d : DevInfo}
    (hd : g.ofdevHtbl.lookup key = some d) :
    ∃ d', g'.ofdevHtbl.lookup key = some d' ∧ d'.mainSockfdTcp = d.mainSockfdTcp ∧
      ∀ f, f ∈ d.ofrwSocketList → f ∈ d'.ofrwSocketList := by
  rw [h.ofdev, lookup_insert_eq]
  by_cases hk : key = info.devKey
  · rw [hk, h.registered] at hd
    obtain rfl := Option.some.inj hd
    exact ⟨_, if_pos hk, rfl, fun f hf => List.mem_append_left _ hf⟩
  · exact ⟨d, by rw [if_neg hk, hd], rfl, fun f hf => hf⟩

theorem Accounted.entered {s : Sys} {g' : Global} {fd : Fd} {dev : DevInfo} {info : RwInfo}
    (h : Accounted s) (he : Entered s.g g' fd dev info) {own : List Fd}
    (hown : ∀ f ∈ own, f = fd ∨ f ∈ s.own) (random : UInt32) :
    Accounted { s with g := g', own := own, random := random } := by
  have hself : g'.ofrwHtbl.lookup fd = some info := by rw [he.ofrw, if_pos rfl]
  have hmem : ∀ f, f ∈ s.g.ofrwHtbl → f ∈ g'.ofrwHtbl := by
    intro f hf
    obtain ⟨i, hl⟩ := mem_iff_lookup.mp hf
    exact mem_iff_lookup.mpr ⟨i, he.old hl⟩
  refine ⟨fun f i hl => ?_, fun f hf => ?_, fun ck f hn => ?_, fun m f hf => ?_⟩
  · have hl : g'.ofrwHtbl.lookup f = some i := hl
    rw [he.ofrw] at hl
    split at hl
    · rename_i hf
      obtain rfl := Option.some.inj hl
      refine ⟨{ dev with ofrwSocketList := dev.ofrwSocketList ++ [fd] }, ?_, ?_⟩
      · show g'.ofdevHtbl.lookup info.devKey = _
        rw [he.ofdev, lookup_insert_eq, if_pos rfl]
      · rw [hf]
        simp
    · obtain ⟨d, hd, hf⟩ := h.listed f i hl
      obtain ⟨d', hd', -, hsub⟩ := he.device hd
      exact ⟨d', hd', hsub f hf⟩
  · rcases hown f hf with rfl | hf
    · exact .inl (mem_iff_lookup.mpr ⟨info, hself⟩)
    · rcases h.owned f hf with hrw | ⟨key, d, hd, hmain⟩
      · exact .inl (hmem f hrw)
      · obtain ⟨d', hd', hsame, -⟩ := he.device hd
        exact .inr ⟨key, d', hd', hmain.trans hsame.symm⟩
  · rcases he.names ck f hn with rfl | hn
    · exact mem_iff_lookup.mpr ⟨info, hself⟩
    · exact hmem f (h.named ck f hn)
  · rcases he.polled m f hf with hf | ⟨rfl, hthr⟩
    · obtain ⟨i, hl, hthr⟩ := h.polled m f hf
      exact ⟨i, he.old hl, hthr⟩
    · exact ⟨info, hself, hthr⟩

/-! ### Opening -/

theorem findOrCreate_polls {g : Global} {m : MgrId} {fd : Fd}
    (h : fd ∈ ((ccFindOrCreateRwPollthrSafe g).2.mgrs m).fds) : fd ∈ (g.mgrs m).fds := by
  rcases Moves.findOrCreate_cases g with ⟨elem, rest, -, -, heq⟩ | ⟨-, heq⟩
  · rw [heq] at h
    exact h
  · rw [heq] at h
    by_cases hm : m = g.nextMgr
    · simp only [ccCreateRwPollthrSafe, hm, Function.update_self, adpThrMgrNew] at h
      cases h
    · simpa only [ccCreateRwPollthrSafe, Function.update_of_ne hm] using h

theorem addFd_polls {t : ThreadMgr} {fd f : Fd} {r : Int × ThreadMgr}
    (h : adpThrMgrAddDelFd t .addFd fd = some r) (hf : f ∈ r.2.fds) : f ∈ t.fds ∨ f = fd := by
  simp only [adpThrMgrAddDelFd] at h
  split at h
  · obtain rfl := Option.some.inj h
    exact .inl hf
  · split at h
    · cases h
    · obtain rfl := Option.some.inj h
      simpa using hf

theorem unchanged_rolledBack {g g' : Global} {fd : Fd} (hfd : fd ∉ g.ofrwHtbl)
    (hr : RolledBack g g' fd) (hp : ∀ m f, f ∈ (g'.mgrs m).fds → f ∈ (g.mgrs m).fds) :
    Unchanged g g' := by
  have hsame := hr.lookup_ofrw hfd
  refine ⟨fun k => by rw [hr.ofdev], fun f info' hl => ⟨info', hsame f ▸ hl, rfl⟩,
    fun f info hl => ⟨info, (hsame f).trans hl, rfl⟩, fun ck f hn => ⟨ck, ?_⟩, hp⟩
  unfold Names at hn ⊢
  rw [hr.ofchannel] at hn
  exact hn

/-- An addition of a descriptor that is not entered. -/
theorem addSockfd_effect {g g' : Global} {fd : Fd} {key : DevKey} {proto : L4Type}
    {ck : ChannelKey} {block : SockAddr} {ret : Ret} (hfd : fd ∉ g.ofrwHtbl)
    (h : ccAddSockfdRwPollthrSafe g fd key proto ck block = some (ret, g')) :
    (ret < 0 ∧ Unchanged g g') ∨ (¬ret < 0 ∧ ∃ dev info, Entered g g' fd dev info) := by
  obtain ⟨-, -, hmoves⟩ := Moves.addSockfd_moves h
  rcases addSockfd_cases h with ⟨hret, -, hrolled⟩ | ⟨dev, m, hret, hadded⟩
  · have hneg : ret < 0 := by rw [hret]; decide
    refine .inl ⟨hneg, unchanged_rolledBack hfd hrolled fun m f hf => ?_⟩
    rcases hmoves with ⟨-, hmgrs, -⟩ | ⟨r, hok, -⟩
    · rw [hmgrs] at hf
      exact findOrCreate_polls hf
    · rw [hok] at hret
      cases hret
  · have hpos : ¬ret < 0 := by rw [hret]; decide
    refine .inr ⟨hpos, dev, _, hfd, hadded.registered, hadded.ofdev, hadded.ofrw, ?_, ?_⟩
    · intro c f hn
      rcases hadded.names_iff.mp hn with ⟨-, hf⟩ | ⟨-, hn⟩
      · exact .inl hf
      · exact .inr hn
    · intro m' f hf
      rcases hmoves with ⟨hbad, -⟩ | ⟨r, -, hr, hmgrs, hrw⟩
      · rw [hret] at hbad
        cases hbad
      · -- the manager that was chosen is the one of the entry
        have hchosen : some m = some (ccFindOrCreateRwPollthrSafe g).1 := by
          have hentry := (hadded.ofrw fd).symm.trans (hrw fd)
          rw [if_pos rfl, if_pos rfl] at hentry
          exact congrArg RwInfo.thrMgr (Option.some.inj hentry)
        rw [hmgrs] at hf
        by_cases hm : m' = (ccFindOrCreateRwPollthrSafe g).1
        · rw [hm, Function.update_self] at hf
          rcases addFd_polls hr hf with hf | hf
          · exact .inl (hm ▸ findOrCreate_polls hf)
          · exact .inr ⟨hf, hm ▸ hchosen⟩
        · rw [Function.update_of_ne hm] at hf
          exact .inl (findOrCreate_polls hf)

theorem accounted_addSockfd {s : Sys} {fd : Fd} {key : DevKey} {proto : L4Type} {ck : ChannelKey}
    {block : SockAddr} {q : Ret × Sys} (h : Accounted s) (hfd : fd ∉ s.g.ofrwHtbl)
    (hq : addSockfd s fd key proto ck block = some q) : Accounted q.2 := by
  obtain ⟨a, ha, rfl⟩ := Option.map_eq_some_iff.mp hq
  rcases addSockfd_effect hfd ha with ⟨hneg, hu⟩ | ⟨hpos, dev, info, he⟩
  · simp only [if_pos hneg]
    exact h.unchanged hu s.random
  · simp only [if_neg hpos]
    exact h.entered he (fun f hf => List.mem_cons.mp hf) s.random

theorem unchanged_setRwUp (g : Global) (fd : Fd) : Unchanged g (Core.Api.setRwUp g fd).2 := by
  cases hl : g.ofrwHtbl.lookup fd with
  | none =>
    unfold Core.Api.setRwUp
    rw [hl]
    exact ⟨fun k => rfl, fun f i hi => ⟨i, hi, rfl⟩, fun f i hi => ⟨i, hi, rfl⟩,
      fun ck f hn => ⟨ck, hn⟩, fun m f hf => hf⟩
  | some info =>
    rw [setRwUp_of_entry hl]
    refine ⟨fun k => rfl, fun f i hi => ?_, fun f i hi => ?_, fun ck f hn => ⟨ck, hn⟩,
      fun m f hf => hf⟩
    · rw [lookup_insert_eq] at hi
      split at hi
      · rename_i hf
        obtain rfl := Option.some.inj hi
        exact ⟨info, hf ▸ hl, rfl⟩
      · exact ⟨i, hi, rfl⟩
    · rw [lookup_insert_eq]
      by_cases hf : f = fd
      · rw [hf, hl] at hi
        obtain rfl := Option.some.inj hi
        exact ⟨_, if_pos hf, rfl⟩
      · exact ⟨i, by rw [if_neg hf, hi], rfl⟩

theorem accounted_setRwUp {s : Sys} (h : Accounted s) (fd : Fd) :
    Accounted { s with g := (Core.Api.setRwUp s.g fd).2 } :=
  h.unchanged (unchanged_setRwUp s.g fd) s.random

theorem accounted_accept {s : Sys} {fd : Fd} {key : DevKey} {ck : ChannelKey} {block : SockAddr}
    {r : Ret × Sys} (h : Accounted s) (hfd : fd ∉ s.g.ofrwHtbl)
    (hr : tcpAccept s fd key ck block = some r) : Accounted r.2 := by
  rcases accept_adds hr with heq | ⟨q, hq, heq | ⟨-, heq⟩⟩
  · rw [heq]
    exact h
  · rw [heq]
    exact accounted_addSockfd h hfd hq
  · rw [heq]
    exact accounted_setRwUp (accounted_addSockfd h hfd hq) fd

/-- A dummy socket is entered, and no thread gets it. -/
theorem accounted_atomicAdd {s : Sys} {fd : Fd} {src : SockAddr} {key : DevKey} {ck : ChannelKey}
    {a : Ret × Global} (h : Accounted s) (hfd : fd ∉ s.g.ofrwHtbl) (random : UInt32)
    (ha : atomicAddUpdHtblsWithRwsocketLockfree s.g fd src none key .udp ck = some a) :
    Accounted { s with g := a.2, random := random } := by
  cases hd : s.g.ofdevHtbl.lookup key with
  | none =>
    rw [atomicAdd_of_unregistered fd src none .udp ck hd] at ha
    obtain rfl := Option.some.inj ha
    have hrolled : RolledBack s.g { s.g with
        ofrwHtbl := (s.g.ofrwHtbl.insert fd ⟨.down, none, key, src, .udp⟩).erase fd } fd := by
      refine ⟨rfl, rfl, rfl, fun f => ?_, fun m hm => hm⟩
      rw [lookup_erase_eq]
      split
      · rfl
      · rename_i hf
        rw [lookup_insert_eq, if_neg hf]
    exact h.unchanged (unchanged_rolledBack hfd hrolled fun m f hf => hf) random
  | some dev =>
    rw [atomicAdd_of_registered fd src none .udp ck hd] at ha
    obtain rfl := Option.some.inj ha
    have hentered : Entered s.g { s.g with
        ofrwHtbl := s.g.ofrwHtbl.insert fd ⟨.down, none, key, src, .udp⟩
        ofdevHtbl := s.g.ofdevHtbl.insert key
          { dev with ofrwSocketList := dev.ofrwSocketList ++ [fd] }
        ofchannelHtbl := s.g.ofchannelHtbl.insert (openKey s.g.ofdevType fd ck) ⟨fd, 0, 0, 0, 0⟩ }
        fd dev ⟨.down, none, key, src, .udp⟩ := by
      refine ⟨hfd, hd, rfl, fun f => lookup_insert_eq _ _ _ _, fun c f hn => ?_,
        fun m f hf => .inl hf⟩
      obtain ⟨ci, hci, rfl⟩ := hn
      rw [lookup_insert_eq] at hci
      split at hci
      · obtain rfl := Option.some.inj hci
        exact .inl rfl
      · exact .inr ⟨ci, hci, rfl⟩
    exact h.entered hentered (fun f hf => .inr hf) random

theorem accounted_deliver {s : Sys} (h : Accounted s) (fd : Fd) (newConn : Bool) (src : SockAddr)
    (buf : List UInt8) :
    Accounted { s with g := (Udp.Demux.deliver s.g fd newConn src buf).1 } := by
  rcases Udp.Reply.deliver_cases s.g fd newConn src buf with heq | heq
  · rw [heq]
    exact h
  · rw [heq]
    exact accounted_setRwUp h fd

/-- The number that the next dummy socket gets is not in use. -/
theorem dummy_fresh {s : Sys} (hinv : DevWalk.Inv s) (hwrap : s.random.toNat + 1 < 2 ^ 32)
    (hown : (s.random + 1).toInt32 ∉ s.own) : (s.random + 1).toInt32 ∉ s.g.ofrwHtbl := by
  intro hmem
  obtain ⟨info, hl⟩ := mem_iff_lookup.mp hmem
  by_cases hthr : info.thrMgr = none
  · have hle := hinv.numbered _ info hl hthr
    have hnumber : (s.random + 1).toInt32.toUInt32.toNat = s.random.toNat + 1 :=
      DevWalk.toNat_succ hwrap
    omega
  · exact hown (hinv.owned _ info hl hthr)

theorem accounted_datagram {s : Sys} {udpSockfd : Fd} {src : SockAddr} {data : List UInt8}
    {r : Udp.Demux.State × List Udp.Demux.Callback} (h : Accounted s) (hinv : DevWalk.Inv s)
    (hok : Udp.Demux.oldConn s.g src = none →
      s.random.toNat + 1 < 2 ^ 32 ∧ (s.random + 1).toInt32 ∉ s.own)
    (hp : Udp.Demux.processUdpfdPollinFunc ⟨s.g, s.random⟩ udpSockfd src data = some r) :
    Accounted { s with g := r.1.g, random := r.1.random } := by
  rcases Udp.Reply.pollin_cases hp with
    ⟨hg, -⟩ | ⟨fd, newConn, hg, -⟩ | ⟨key, a, ha, hg, hnew, -⟩
  · rw [hg]
    exact ⟨h.listed, h.owned, h.named, h.polled⟩
  · rw [hg]
    have hd := accounted_deliver h fd newConn src (data.take Udp.Demux.maxbuf)
    exact ⟨hd.listed, hd.owned, hd.named, hd.polled⟩
  · rw [hg]
    obtain ⟨hwrap, hown⟩ := hok hnew
    have hfresh := dummy_fresh hinv hwrap hown
    exact accounted_deliver (accounted_atomicAdd h hfresh r.1.random ha) _ true src _

/-! ### The other calls -/

theorem accounted_setReal {s : Sys} (h : Accounted s) (d : UInt64) (a : UInt8) (ck : ChannelKey) :
    Accounted { s with g := (Core.Api.ccOfSetRealDpidAuxid s.g d a ck).2 } := by
  cases hk : Core.Keys.matchedKey s.g d a with
  | none =>
    rw [Core.Keys.setReal_of_unmatched ck hk]
    exact h
  | some k =>
    obtain ⟨info, hl⟩ := mem_iff_lookup.mp (Core.Keys.matchedKey_mem hk)
    obtain ⟨hdev, hrw, -⟩ := Core.Consistency.setReal_tables s.g d a ck
    refine h.unchanged ⟨fun k => by rw [hdev], fun f i hi => ⟨i, by rw [← hrw]; exact hi, rfl⟩,
      fun f i hi => ⟨i, by rw [hrw]; exact hi, rfl⟩, fun c f hn => ?_, fun m f hf => ?_⟩ s.random
    · rcases Core.Fresh.names_setReal hk hl hn with ⟨-, hn⟩ | hn
      · exact ⟨k, hn⟩
      · exact ⟨c, hn⟩
    · unfold Core.Api.ccOfSetRealDpidAuxid at hf
      dsimp only at hf
      split at hf
      · exact hf
      · exact hf

theorem accounted_closeConn {s : Sys} {fd : Fd} {info : RwInfo} {closeRet : Int} {r : Ret × Sys}
    (h : Accounted s) (hw : Workable s.g) (hl : s.g.ofrwHtbl.lookup fd = some info)
    (hc : closeConn s info.layer4Proto fd closeRet = some r) : Accounted r.2 := by
  have hg : Core.Api.closeConn s.g info.layer4Proto fd closeRet = some (forget r) := by
    rw [← forget_closeConn, hc, Option.map_some]
  obtain ⟨-, dev, hdev, hclosed⟩ := closeConn_spec hw.pooled hl hg
  have hmgrs := closeConn_mgrs hw.pooled hl hg
  obtain ⟨hown, -⟩ := closeConn_own hw hl hc
  refine ⟨fun f i hf => ?_, fun f hf => ?_, fun ck f hn => ?_, fun m f hf => ?_⟩
  · rw [hclosed.ofrw] at hf
    split at hf
    · cases hf
    · rename_i hne
      obtain ⟨d, hd, hmem⟩ := h.listed f i hf
      rw [hclosed.ofdev]
      by_cases hk : i.devKey = info.devKey
      · rw [hk, hdev] at hd
        obtain rfl := Option.some.inj hd
        exact ⟨_, if_pos hk, (List.mem_erase_of_ne hne).mpr hmem⟩
      · exact ⟨d, by rw [if_neg hk, hd], hmem⟩
  · obtain ⟨hf, hne⟩ := (hown f).mp hf
    rcases h.owned f hf with hrw | ⟨key, d, hd, hmain⟩
    · exact .inl (hclosed.mem_iff.mpr ⟨hrw, hne⟩)
    · refine .inr ?_
      by_cases hk : key = info.devKey
      · rw [hk, hdev] at hd
        obtain rfl := Option.some.inj hd
        exact ⟨key, { dev with ofrwSocketList := dev.ofrwSocketList.erase fd },
          by rw [hclosed.ofdev, if_pos hk], hmain⟩
      · exact ⟨key, d, by rw [hclosed.ofdev, if_neg hk, hd], hmain⟩
  · obtain ⟨hn, hne⟩ := hclosed.names_iff.mp hn
    exact hclosed.mem_iff.mpr ⟨h.named ck f hn, hne⟩
  · rw [hmgrs, mem_dropped hw.nodup] at hf
    obtain ⟨i, hi, hthr⟩ := h.polled m f hf.1
    have hne : f ≠ fd := by
      rintro rfl
      rw [hl] at hi
      obtain rfl := Option.some.inj hi
      exact hf.2 ⟨rfl, hthr⟩
    refine ⟨i, ?_, hthr⟩
    rw [hclosed.ofrw, if_neg hne]
    exact hi

/-- A controller that registers a device successfully listens on the socket of the record. -/
theorem devRegister_main {g g' : Global} {key : DevKey} {ver : Nat} {cb : Callbacks} {fd : Fd}
    {ret : Ret} (hr : Core.Api.ccOfDevRegister g key ver cb fd = some (ret, g'))
    (htype : g.ofdevType = .controller) (hok : ¬ret < 0) :
    ∃ dev, g'.ofdevHtbl.lookup key = some dev ∧ fd = dev.mainSockfdTcp := by
  unfold Core.Api.ccOfDevRegister at hr
  dsimp only at hr
  split at hr
  · obtain ⟨rfl, -⟩ := Prod.mk.inj (Option.some.inj hr)
    exact absurd (by decide) hok
  · split at hr
    · rename_i hswitch
      rw [htype] at hswitch
      cases hswitch
    · obtain ⟨r, hopen, hr⟩ := Option.map_eq_some_iff.mp hr
      split at hr
      · obtain ⟨rfl, -⟩ := Prod.mk.inj hr
        exact absurd (by decide) hok
      · rename_i hpos
        obtain ⟨-, rfl⟩ := Prod.mk.inj hr
        refine ⟨_, by rw [lookup_insert_eq, if_pos rfl], ?_⟩
        show fd = Int32.ofInt r.1
        unfold Core.Api.tcpOpenListenfd at hopen
        split at hopen
        · obtain rfl := Option.some.inj hopen
          rw [Int32.ofInt_toInt]
        · obtain ⟨a, ha, rfl⟩ := Option.map_eq_some_iff.mp hopen
          simp only [adpThrMgrAddDelFd] at ha
          split at ha
          · obtain rfl := Option.some.inj ha
            exact absurd (show Int32.ofInt (-1) < 0 by decide) hpos
          · split at ha
            · cases ha
            · obtain rfl := Option.some.inj ha
              rw [Int32.ofInt_toInt]

theorem accounted_devRegister {s : Sys} {key : DevKey} {ver : Nat} {cb : Callbacks} {fd : Fd}
    {r : Ret × Sys} (h : Accounted s) (hkey : key ∉ s.g.ofdevHtbl)
    (hr : ccOfDevRegister s key ver cb fd = some r) : Accounted r.2 := by
  obtain ⟨q, hq, rfl⟩ := Option.map_eq_some_iff.mp hr
  have hnew := devRegister_main hq
  have hframe : q.2.ofrwHtbl = s.g.ofrwHtbl ∧ q.2.ofchannelHtbl = s.g.ofchannelHtbl ∧
      q.2.mgrs = s.g.mgrs ∧ ∀ k d, s.g.ofdevHtbl.lookup k = some d →
        q.2.ofdevHtbl.lookup k = some d := by
    rcases devRegister_cases hq with ⟨-, heq⟩ | ⟨-, d, t, -, heq, hd⟩
    · rw [heq]
      exact ⟨rfl, rfl, rfl, fun k d hk => hk⟩
    · refine ⟨by rw [heq], by rw [heq], by rw [heq], fun k d' hk => ?_⟩
      have hne : k ≠ key := fun heq => hkey (heq ▸ mem_iff_lookup.mpr ⟨d', hk⟩)
      rw [hd, if_neg hne]
      exact hk
  obtain ⟨hrw, hch, hmgrs, hdev⟩ := hframe
  refine ⟨fun f i hl => ?_, fun f hf => ?_, fun ck f hn => ?_, fun m f hf => ?_⟩
  · have hl : q.2.ofrwHtbl.lookup f = some i := hl
    rw [hrw] at hl
    obtain ⟨d, hd, hmem⟩ := h.listed f i hl
    exact ⟨d, hdev _ d hd, hmem⟩
  · have hold : f ∈ s.own → f ∈ q.2.ofrwHtbl ∨
        ∃ key dev, q.2.ofdevHtbl.lookup key = some dev ∧ f = dev.mainSockfdTcp := by
      intro hf
      rcases h.owned f hf with hmem | ⟨k, d, hd, hmain⟩
      · exact .inl (by rw [hrw]; exact hmem)
      · exact .inr ⟨k, d, hdev k d hd, hmain⟩
    dsimp only at hf
    split at hf
    · rename_i hcond
      rcases List.mem_cons.mp hf with rfl | hf
      · obtain ⟨dev, hd, hmain⟩ := hnew hcond.1 hcond.2
        exact .inr ⟨key, dev, hd, hmain⟩
      · exact hold hf
    · exact hold hf
  · have hn : Names q.2 ck f := hn
    unfold Names at hn
    rw [hch] at hn
    show f ∈ q.2.ofrwHtbl
    rw [hrw]
    exact h.named ck f hn
  · have hf : f ∈ (q.2.mgrs m).fds := hf
    rw [hmgrs] at hf
    obtain ⟨i, hi, hthr⟩ := h.polled m f hf
    exact ⟨i, by rw [hrw]; exact hi, hthr⟩

/-- What is left when a device is freed has nothing to do with it. -/
theorem accounted_gone {s s' : Sys} {key : DevKey} {dev : DevInfo} (h : Accounted s)
    (hd : s.g.ofdevHtbl.lookup key = some dev) (hg : Gone s s' key dev) : Accounted s' := by
  have hkept : ∀ f i, s.g.ofrwHtbl.lookup f = some i → f ∉ dev.ofrwSocketList →
      s'.g.ofrwHtbl.lookup f = some i := by
    intro f i hl hnot
    rw [hg.ofrw, if_neg hnot]
    exact hl
  refine ⟨fun f i hl => ?_, fun f hf => ?_, fun ck f hn => ?_, fun m f hf => ?_⟩
  · rw [hg.ofrw] at hl
    split at hl
    · cases hl
    · rename_i hnot
      obtain ⟨d, hdd, hmem⟩ := h.listed f i hl
      have hne : i.devKey ≠ key := by
        intro heq
        rw [heq, hd] at hdd
        obtain rfl := Option.some.inj hdd
        exact hnot hmem
      exact ⟨d, by rw [hg.ofdev _ hne]; exact hdd, hmem⟩
  · obtain ⟨hf, hnot, hmain⟩ := (hg.own f).mp hf
    rcases h.owned f hf with hmem | ⟨k, d, hkd, heq⟩
    · obtain ⟨i, hl⟩ := mem_iff_lookup.mp hmem
      exact .inl (mem_iff_lookup.mpr ⟨i, hkept f i hl hnot⟩)
    · have hne : k ≠ key := by
        intro hk
        rw [hk, hd] at hkd
        obtain rfl := Option.some.inj hkd
        exact hmain heq
      exact .inr ⟨k, d, by rw [hg.ofdev k hne]; exact hkd, heq⟩
  · obtain ⟨ci, hci, rfl⟩ := hn
    obtain ⟨hci, hnot⟩ := (hg.ofchannel ck ci).mp hci
    obtain ⟨i, hl⟩ := mem_iff_lookup.mp (h.named ck ci.rwSockfd ⟨ci, hci, rfl⟩)
    exact mem_iff_lookup.mpr ⟨i, hkept _ i hl hnot⟩
  · obtain ⟨hf, hnot⟩ := (hg.polled m f).mp hf
    obtain ⟨i, hl, hthr⟩ := h.polled m f hf
    exact ⟨i, hkept f i hl fun hmem => hnot ⟨hmem, i, hl, hthr⟩, hthr⟩

/-! ### Runs -/

def registered : Op → Option DevKey
  | .devRegister key _ _ _ => some key
  | _ => none

/-- No device is registered over another either. -/
def Orderly (s : Sys) (op : Op) : Prop :=
  Tidy s op ∧ ∀ key ∈ registered op, key ∉ s.g.ofdevHtbl

instance (s : Sys) (op : Op) : Decidable (Orderly s op) := inferInstanceAs (Decidable (_ ∧ _))

theorem accounted_step {s s' : Sys} {op : Op} (h : Accounted s) (hinv : DevWalk.Inv s)
    (hw : Workable s.g) (hok : Orderly s op) (hs : step s op = some s') : Accounted s' := by
  have hfreed : ∀ key, freed op = some key → Accounted s' := by
    intro key hop
    obtain ⟨dev, hd, hg, -⟩ := freed_gone hop hinv.listed hw hs
    exact accounted_gone h hd hg
  cases op with
  | devRegister key ver cb fd =>
    obtain ⟨-, hs⟩ := Option.ite_none_left_eq_some.mp hs
    obtain ⟨r, hr, rfl⟩ := Option.map_eq_some_iff.mp hs
    exact accounted_devRegister h (hok.2 key rfl) hr
  | createChannel key ck proto fd block =>
    obtain ⟨hfd, hs⟩ := Option.ite_none_left_eq_some.mp hs
    obtain ⟨r, hr, rfl⟩ := Option.map_eq_some_iff.mp hs
    rcases createChannel_adds hr with heq | ⟨q, hq, heq⟩
    · rw [heq]
      exact h
    · rw [heq]
      exact accounted_addSockfd h (hinv.fresh hfd (hok.1.2 rfl)) hq
  | accept fd key ck block =>
    obtain ⟨hfd, hs⟩ := Option.ite_none_left_eq_some.mp hs
    obtain ⟨r, hr, rfl⟩ := Option.map_eq_some_iff.mp hs
    exact accounted_accept h (hinv.fresh hfd (hok.1.2 rfl)) hr
  | udpServer key fd block =>
    obtain ⟨hfd, hs⟩ := Option.ite_none_left_eq_some.mp hs
    obtain ⟨r, hr, rfl⟩ := Option.map_eq_some_iff.mp hs
    rcases udpServer_adds hr with heq | ⟨q, hq, heq⟩
    · rw [heq]
      exact h
    · rw [heq]
      exact accounted_addSockfd h (hinv.fresh hfd (hok.1.2 rfl)) hq
  | datagram fd src data =>
    obtain ⟨r, hr, rfl⟩ := Option.map_eq_some_iff.mp hs
    exact accounted_datagram h hinv (hok.1.2 rfl) hr
  | setReal d a ck =>
    obtain rfl := Option.some.inj hs
    exact accounted_setReal h d a ck
  | destroyChannel ck closeRet =>
    obtain ⟨r, hr, rfl⟩ := Option.map_eq_some_iff.mp hs
    unfold ccOfDestroyChannel at hr
    split at hr
    · obtain rfl := Option.some.inj hr
      exact h
    · split at hr
      · obtain rfl := Option.some.inj hr
        exact h
      · rename_i info hl
        exact accounted_closeConn h hw hl hr
  | closeConn fd closeRet =>
    obtain ⟨info, hl, hs⟩ := Option.bind_eq_some_iff.mp hs
    obtain ⟨r, hr, rfl⟩ := Option.map_eq_some_iff.mp hs
    exact accounted_closeConn h hw hl hr
  | devFree key closeRet => exact hfreed key rfl
  | devfreeIter key closeRet => exact hfreed key rfl

/-- Where everything is accounted for, freeing all devices leaves nothing. -/
theorem emptied_all {s s' : Sys} {order : List DevKey} (h : Accounted s)
    (horder : order.Perm s.g.ofdevHtbl.keys) (he : Emptied s s' order) :
    s'.own = [] ∧ (∀ fd, s'.g.ofrwHtbl.lookup fd = none) ∧
      (∀ ck, s'.g.ofchannelHtbl.lookup ck = none) ∧ ∀ m, (s'.g.mgrs m).fds = [] := by
  have hkeys : ∀ key dev, s.g.ofdevHtbl.lookup key = some dev → key ∈ order := by
    intro key dev hd
    exact horder.mem_iff.mpr (AList.mem_keys.mp (mem_iff_lookup.mpr ⟨dev, hd⟩))
  have hlisted : ∀ fd, fd ∈ s.g.ofrwHtbl → ListedIn s.g order fd := by
    intro fd hf
    obtain ⟨info, hl⟩ := mem_iff_lookup.mp hf
    obtain ⟨dev, hd, hmem⟩ := h.listed fd info hl
    exact ⟨info.devKey, hkeys _ dev hd, dev, hd, hmem⟩
  refine ⟨List.eq_nil_iff_forall_not_mem.mpr fun fd hf => ?_, fun fd => ?_, fun ck => ?_,
    fun m => List.eq_nil_iff_forall_not_mem.mpr fun fd hf => ?_⟩
  · obtain ⟨hf, hnot, hlisten⟩ := (he.own fd).mp hf
    rcases h.owned fd hf with hmem | ⟨key, dev, hd, hmain⟩
    · exact hnot (hlisted fd hmem)
    · exact hlisten ⟨key, hkeys key dev hd, dev, hd, hmain⟩
  · apply Option.eq_none_iff_forall_ne_some.mpr
    intro info hl
    obtain ⟨hl, hnot⟩ := (he.ofrw fd info).mp hl
    exact hnot (hlisted fd (mem_iff_lookup.mpr ⟨info, hl⟩))
  · apply Option.eq_none_iff_forall_ne_some.mpr
    intro info hl
    obtain ⟨hl, hnot⟩ := (he.ofchannel ck info).mp hl
    exact hnot (hlisted _ (h.named ck _ ⟨info, hl, rfl⟩))
  · obtain ⟨hf, hnot⟩ := (he.polled m fd).mp hf
    obtain ⟨info, hl, hthr⟩ := h.polled m fd hf
    exact hnot ⟨hlisted fd (mem_iff_lookup.mpr ⟨info, hl⟩), info, hl, hthr⟩

/-- Two devices, one with a connection and one with a UDP server and a client of it; a third one
comes and goes. -/
def servesTwo : List Op :=
  [.devRegister ⟨1, 2, 6633⟩ 0 ⟨0, 0, 0⟩ 4, .accept 5 ⟨1, 2, 6633⟩ ⟨0, 0⟩ ⟨0, 0⟩,
    .devRegister ⟨3, 2, 6634⟩ 0 ⟨0, 0, 0⟩ 6, .devfreeIter ⟨3, 2, 6634⟩ (fun _ => 0),
    .devRegister ⟨5, 2, 6635⟩ 0 ⟨0, 0, 0⟩ 6, .udpServer ⟨5, 2, 6635⟩ 7 ⟨0, 0⟩,
    .datagram 7 ⟨0x0100007f, 0x8813⟩ [1]]

end OfConnect.Pool.LibFree
