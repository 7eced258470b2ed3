import OfConnect.Lib.Run
import OfConnect.Core.Api
import OfConnect.Pool.Moves

/-!
# The pool stays sorted

`ofrw_pollthr_list` is sorted by the room that is left, most of it first. Deleting a socket
puts its manager into its place again; adding one does not. An addition takes the last
manager with room, and with the list sorted all managers after that one are full, so the
list is sorted afterwards; and with the list sorted a full first manager means that all of
them are full.
-/

namespace OfConnect.Pool.Sorted

open OfConnect.Lib.Run OfConnect.Lib.Tables OfConnect.Lib.Ranked OfConnect.PollThr.Thread
open OfConnect.Core.State OfConnect.Core.Api OfConnect.Core.Effects OfConnect.Pool.Moves

/-! ## One manager -/

/-- The counter is the number of sockets that the thread polls, and within the limit. -/
structure Managed (t : ThreadMgr) : Prop where
  max : t.maxSockets = maxPerThreadRwsockets
  counted : t.numSockets.toNat = t.fds.length
  bounded : t.fds.length ≤ 200
  nodup : t.fds.Nodup

theorem managed_new : Managed (adpThrMgrNew maxPerThreadRwsockets) :=
  ⟨rfl, rfl, Nat.zero_le _, List.nodup_nil⟩

theorem Managed.le_max {t : ThreadMgr} (h : Managed t) :
    t.numSockets.toUInt32 ≤ t.maxSockets := by
  rw [UInt32.le_iff_toNat_le, UInt16.toNat_toUInt32, h.counted, h.max]
  exact h.bounded

theorem Managed.numAvail {t : ThreadMgr} (h : Managed t) :
    t.numAvail.toNat = 200 - t.fds.length := by
  unfold ThreadMgr.numAvail
  rw [UInt32.toNat_sub_of_le _ _ h.le_max, UInt16.toNat_toUInt32, h.counted, h.max]
  rfl

theorem Managed.full_iff {t : ThreadMgr} (h : Managed t) :
    t.numSockets.toUInt32 = t.maxSockets ↔ t.fds.length = 200 := by
  rw [← UInt32.toNat_inj, UInt16.toNat_toUInt32, h.counted, h.max]
  rfl

/-- With room a socket is taken in. -/
theorem Managed.add {t : ThreadMgr} (h : Managed t) (hroom : t.fds.length < 200) {fd : Fd}
    {r : Int × ThreadMgr} (hr : adpThrMgrAddDelFd t .addFd fd = some r) :
    r.1 = fd.toInt ∧ r.2.fds = t.fds ++ [fd] ∧ Managed r.2 := by
  simp only [adpThrMgrAddDelFd] at hr
  rw [if_neg fun hfull => absurd (h.full_iff.mp hfull) (by omega)] at hr
  split at hr
  · cases hr
  · rename_i hnew
    obtain rfl := Option.some.inj hr
    refine ⟨rfl, rfl, h.max, ?_, ?_, ?_⟩
    · show (t.numSockets + 1).toNat = (t.fds ++ [fd]).length
      have hcount := h.counted
      rw [UInt16.toNat_add, List.length_append]
      simp only [UInt16.toNat_one, List.length_singleton]
      omega
    · simp only [List.length_append, List.length_singleton]
      omega
    · exact List.nodup_append.mpr ⟨h.nodup, List.nodup_singleton _, fun a ha b hb hab =>
        hnew (by rw [← List.mem_singleton.mp hb, ← hab]; exact ha)⟩

/-- A socket that the thread polls can be dropped without the counter wrapping. -/
theorem Managed.delete {t : ThreadMgr} (h : Managed t) {fd : Fd} (hfd : fd ∈ t.fds) :
    Managed { t with numSockets := t.numSockets - 1, fds := t.fds.erase fd } := by
  have hpos : 0 < t.fds.length := List.length_pos_of_mem hfd
  have hlen : (t.fds.erase fd).length = t.fds.length - 1 := List.length_erase_of_mem hfd
  have hcount := h.counted
  have hone : (1 : UInt16) ≤ t.numSockets := by
    rw [UInt16.le_iff_toNat_le, hcount]
    exact hpos
  refine ⟨h.max, ?_, ?_, h.nodup.erase fd⟩
  · show (t.numSockets - 1).toNat = (t.fds.erase fd).length
    rw [UInt16.toNat_sub_of_le _ _ hone, hlen, hcount]
    rfl
  · show (t.fds.erase fd).length ≤ 200
    have hbound := h.bounded
    omega

/-! ## The pool -/

/-- What `cc_find_or_create_rw_pollthr_safe` relies on and what it gives. -/
structure PoolSound (g : Global) : Prop where
  sorted : Descending (room g) g.ofrwPollthrList
  nodup : g.ofrwPollthrList.Nodup
  complete : ∀ m, m ∈ g.ofrwPollthrList ↔ m < g.nextMgr
  bounded : ∀ m ∈ g.ofrwPollthrList, (g.mgrs m).numSockets.toUInt32 ≤ (g.mgrs m).maxSockets
  chosen : ∀ f, ccFindOrCreateRwPollthrSafe g = f →
    f.1 ∈ f.2.ofrwPollthrList ∧ (f.2.mgrs f.1).numSockets.toUInt32 ≠ (f.2.mgrs f.1).maxSockets
  created : ∀ f, ccFindOrCreateRwPollthrSafe g = f → f.2.nextMgr ≠ g.nextMgr →
    ∀ m ∈ g.ofrwPollthrList, (g.mgrs m).numSockets.toUInt32 = (g.mgrs m).maxSockets

structure Inv (g : Global) : Prop where
  sorted : Descending (room g) g.ofrwPollthrList
  nodup : g.ofrwPollthrList.Nodup
  complete : ∀ m, m ∈ g.ofrwPollthrList ↔ m < g.nextMgr
  managed : ∀ m, m < g.nextMgr → Managed (g.mgrs m)
  polled : ∀ fd info m, g.ofrwHtbl.lookup fd = some info → info.thrMgr = some m →
    m < g.nextMgr ∧ fd ∈ (g.mgrs m).fds

theorem Inv.room_eq {g : Global} (h : Inv g) {m : MgrId} (hm : m < g.nextMgr) :
    room g m = 200 - (g.mgrs m).fds.length :=
  (h.managed m hm).numAvail

theorem Inv.pooled {g : Global} (h : Inv g) : Pooled g :=
  fun fd info m hl hm => (h.complete m).mpr (h.polled fd info m hl hm).1

/-- In a sorted pool whose first manager is full, all are. -/
theorem Inv.full {g : Global} (h : Inv g)
    (hhead : ∀ elem rest, g.ofrwPollthrList = elem :: rest → room g elem = 0) :
    ∀ m ∈ g.ofrwPollthrList, room g m = 0 := by
  intro m hm
  cases hl : g.ofrwPollthrList with
  | nil =>
    rw [hl] at hm
    cases hm
  | cons elem rest =>
    have hzero := hhead elem rest hl
    have hsorted := h.sorted
    rw [hl] at hm hsorted
    rcases List.mem_cons.mp hm with rfl | hm
    · exact hzero
    · have hle := (List.pairwise_cons.mp hsorted).1 m hm
      omega

theorem Inv.full_iff {g : Global} (h : Inv g) {m : MgrId} (hm : m < g.nextMgr) :
    room g m = 0 ↔ (g.mgrs m).numSockets.toUInt32 = (g.mgrs m).maxSockets := by
  rw [h.room_eq hm, (h.managed m hm).full_iff]
  have hbound := (h.managed m hm).bounded
  omega

/-! ## Choosing -/

theorem room_create (g : Global) {m : MgrId} (hm : m ≠ g.nextMgr) :
    room (ccCreateRwPollthrSafe g).2 m = room g m := by
  show (Function.update g.mgrs g.nextMgr _ m).numAvail.toNat = _
  rw [Function.update_of_ne hm]
  rfl

/-- A new manager stands first, before managers with no more room than it has. -/
theorem inv_create {g : Global} (h : Inv g) : Inv (ccCreateRwPollthrSafe g).2 := by
  have hold : ∀ m ∈ g.ofrwPollthrList, m ≠ g.nextMgr := by
    intro m hm
    exact Nat.ne_of_lt ((h.complete m).mp hm)
  have hnew : (ccCreateRwPollthrSafe g).2.mgrs g.nextMgr = adpThrMgrNew maxPerThreadRwsockets :=
    Function.update_self _ _ _
  refine ⟨?_, ?_, ?_, ?_, ?_⟩
  · refine (descending_congr h.sorted fun m hm => room_create g (hold m hm)).cons_of_max ?_
    intro m hm
    rw [room_create g (hold m hm), h.room_eq ((h.complete m).mp hm)]
    show _ ≤ ((ccCreateRwPollthrSafe g).2.mgrs g.nextMgr).numAvail.toNat
    rw [hnew]
    exact Nat.sub_le _ _
  · exact List.nodup_cons.mpr ⟨fun hm => hold _ hm rfl, h.nodup⟩
  · intro m
    show m ∈ g.nextMgr :: g.ofrwPollthrList ↔ m < g.nextMgr + 1
    rw [List.mem_cons, h.complete, or_comm]
    exact Nat.lt_succ_iff_lt_or_eq.symm
  · intro m hm
    by_cases hmn : m = g.nextMgr
    · rw [hmn, hnew]
      exact managed_new
    · have hm' : m < g.nextMgr + 1 := hm
      show Managed (Function.update g.mgrs g.nextMgr _ m)
      rw [Function.update_of_ne hmn]
      exact h.managed m (Nat.lt_of_le_of_ne (Nat.lt_succ_iff.mp hm') hmn)
  · intro fd info m hl hm
    obtain ⟨hlt, hfd⟩ := h.polled fd info m hl hm
    refine ⟨Nat.lt_succ_of_lt hlt, ?_⟩
    show fd ∈ (Function.update g.mgrs g.nextMgr _ m).fds
    rw [Function.update_of_ne (Nat.ne_of_lt hlt)]
    exact hfd

/-- The manager that is chosen has room, and may take a socket where it stands. -/
theorem findOrCreate_inv {g : Global} (h : Inv g) {f : MgrId × Global}
    (hf : ccFindOrCreateRwPollthrSafe g = f) :
    Inv f.2 ∧ f.1 < f.2.nextMgr ∧ (f.2.mgrs f.1).fds.length < 200 ∧
    ∀ u : MgrId → Nat, u f.1 ≤ room f.2 f.1 → (∀ m, m ≠ f.1 → u m = room f.2 m) →
      Descending u f.2.ofrwPollthrList := by
  rcases findOrCreate_cases g with ⟨elem, rest, hl, hroom, heq⟩ | ⟨hhead, heq⟩
  · rw [heq] at hf
    obtain rfl := hf
    have hmem : lastNonzero (room g) elem rest < g.nextMgr := by
      rw [← h.complete, hl]
      exact lastNonzero_mem _ _ _
    refine ⟨h, hmem, ?_, fun u hlow hother => ?_⟩
    · have hne := lastNonzero_ne_zero rest hroom
      rw [h.room_eq hmem] at hne
      dsimp only
      omega
    · have hsorted := h.sorted
      have hnodup := h.nodup
      dsimp only at hlow hother ⊢
      rw [hl] at hsorted hnodup ⊢
      exact hsorted.lower_lastNonzero Nat.zero_le hnodup hlow hother
  · rw [heq] at hf
    obtain rfl := hf
    have hnew : (ccCreateRwPollthrSafe g).2.mgrs g.nextMgr = adpThrMgrNew maxPerThreadRwsockets :=
      Function.update_self _ _ _
    refine ⟨inv_create h, Nat.lt_succ_self _, ?_, fun u _ hother => ?_⟩
    · show ((ccCreateRwPollthrSafe g).2.mgrs g.nextMgr).fds.length < 200
      rw [hnew]
      exact Nat.zero_lt_succ _
    · -- all others are full
      have hold : ∀ m ∈ g.ofrwPollthrList, u m = room g m := by
        intro m hm
        have hne : m ≠ g.nextMgr := Nat.ne_of_lt ((h.complete m).mp hm)
        rw [hother m hne, room_create g hne]
      refine (descending_congr h.sorted hold).cons_of_max fun m hm => ?_
      rw [hold m hm, h.full hhead m hm]
      exact Nat.zero_le _

theorem poolSound_of_inv {g : Global} (h : Inv g) : PoolSound g := by
  refine ⟨h.sorted, h.nodup, h.complete, fun m hm => ?_, fun f hf => ?_, fun f hf hne m hm => ?_⟩
  · exact (h.managed m ((h.complete m).mp hm)).le_max
  · obtain ⟨hinv, hlt, hlen, -⟩ := findOrCreate_inv h hf
    refine ⟨(hinv.complete _).mpr hlt, fun hfull => ?_⟩
    have hlen' := (hinv.managed _ hlt).full_iff.mp hfull
    omega
  · rcases findOrCreate_cases g with ⟨elem, rest, -, -, heq⟩ | ⟨hhead, -⟩
    · rw [heq] at hf
      obtain rfl := hf
      exact absurd rfl hne
    · exact (h.full_iff ((h.complete m).mp hm)).mp (h.full hhead m hm)

/-! ## Steps -/

theorem room_congr {g g' : Global} {m : MgrId} (h : g'.mgrs m = g.mgrs m) :
    room g' m = room g m := by
  unfold room Global.avail
  rw [h]

/-- The invariant speaks of the pool and of the managers that the entries name. -/
theorem Inv.of_pool {g g' : Global} (h : Inv g) (hl : g'.ofrwPollthrList = g.ofrwPollthrList)
    (hm : g'.mgrs = g.mgrs) (hn : g'.nextMgr = g.nextMgr)
    (hr : ∀ fd info, g'.ofrwHtbl.lookup fd = some info → info.thrMgr ≠ none →
      ∃ info', g.ofrwHtbl.lookup fd = some info' ∧ info'.thrMgr = info.thrMgr) :
    Inv g' := by
  have hroom : room g' = room g := funext fun m => room_congr (by rw [hm])
  refine ⟨?_, ?_, fun m => ?_, fun m hlt => ?_, fun fd info m hlook hthr => ?_⟩
  · rw [hroom, hl]
    exact h.sorted
  · rw [hl]
    exact h.nodup
  · rw [hl, hn]
    exact h.complete m
  · rw [hm]
    exact h.managed m (hn ▸ hlt)
  · obtain ⟨info', hlook', hthr'⟩ := hr fd info hlook (by rw [hthr]; nofun)
    rw [hm, hn]
    exact h.polled fd info' m hlook' (hthr'.trans hthr)

theorem inv_add {g g' : Global} {fd : Fd} {key : DevKey} {proto : L4Type} {ck : ChannelKey}
    {block : SockAddr} {ret : Ret} (h : Inv g)
    (hs : ccAddSockfdRwPollthrSafe g fd key proto ck block = some (ret, g')) : Inv g' := by
  obtain ⟨hsame, -⟩ := findOrCreate_spec g
  obtain ⟨hlist, hnext, hadd⟩ := addSockfd_moves hs
  generalize hf : ccFindOrCreateRwPollthrSafe g = f at hsame hlist hnext hadd
  obtain ⟨hinv, hlt, hlen, hsorted⟩ := findOrCreate_inv h hf
  rcases hadd with ⟨-, hmgrs, hlook⟩ | ⟨r, -, hr, hmgrs, hlook⟩
  · refine hinv.of_pool hlist hmgrs hnext fun f' info hl _ => ?_
    rw [hlook] at hl
    split at hl
    · cases hl
    · rw [hsame.ofrw]
      exact ⟨info, hl, rfl⟩
  · obtain ⟨-, hfds, hman⟩ := (hinv.managed _ hlt).add hlen hr
    have hself : g'.mgrs f.1 = r.2 := by
      rw [hmgrs]
      exact Function.update_self _ _ _
    have hother : ∀ m, m ≠ f.1 → g'.mgrs m = f.2.mgrs m := by
      intro m hm
      rw [hmgrs]
      exact Function.update_of_ne hm _ _
    refine ⟨?_, ?_, fun m => ?_, fun m hm => ?_, fun f' info m hl hthr => ?_⟩
    · rw [hlist]
      refine hsorted _ ?_ fun m hm => room_congr (hother m hm)
      have hnum : room g' f.1 = 200 - r.2.fds.length := by
        unfold room Global.avail
        rw [hself]
        exact hman.numAvail
      rw [hnum, hfds, hinv.room_eq hlt, List.length_append]
      omega
    · rw [hlist]
      exact hinv.nodup
    · rw [hlist, hnext]
      exact hinv.complete m
    · by_cases hmf : m = f.1
      · rw [hmf, hself]
        exact hman
      · rw [hother m hmf]
        exact hinv.managed m (hnext ▸ hm)
    · rw [hlook] at hl
      split at hl
      · rename_i hfd
        obtain rfl := Option.some.inj hl
        obtain rfl := Option.some.inj hthr
        rw [hself, hfds, hfd]
        exact ⟨hnext ▸ hlt, List.mem_append_right _ (List.mem_singleton_self _)⟩
      · obtain ⟨hm, hpoll⟩ := hinv.polled f' info m (hsame.ofrw ▸ hl) hthr
        refine ⟨hnext ▸ hm, ?_⟩
        by_cases hmf : m = f.1
        · rw [hmf, hself, hfds]
          exact List.mem_append_left _ (hmf ▸ hpoll)
        · rw [hother m hmf]
          exact hpoll

/-- The manager that drops a socket goes to its place, and no other is moved. -/
theorem delFromMgr_sorted {g : Global} {fd : Fd} {tmgr : Option MgrId} {r : Ret × Global}
    (hm : ∀ m, tmgr = some m → m ∈ g.ofrwPollthrList)
    (hsorted : Descending (room g) g.ofrwPollthrList) (hnodup : g.ofrwPollthrList.Nodup)
    (h : delFromMgr g fd tmgr = some r) :
    List.Perm r.2.ofrwPollthrList g.ofrwPollthrList ∧
      Descending (room r.2) r.2.ofrwPollthrList := by
  cases tmgr with
  | none =>
    obtain rfl := Option.some.inj h
    exact ⟨List.Perm.refl _, hsorted⟩
  | some m =>
    obtain ⟨hmgrs, -, -, hlist⟩ := delFromMgr_moves h
    have hroom : room r.2 = room (deleted g m fd) := funext fun m' => room_congr (by rw [hmgrs])
    have hmem := hm m rfl
    rw [hlist, hroom, if_pos hmem]
    split
    · rename_i hone
      obtain ⟨a, ha⟩ := List.length_eq_one_iff.mp hone
      rw [ha]
      exact ⟨List.Perm.refl _, List.pairwise_singleton _ a⟩
    · rw [insertSorted_eq]
      refine ⟨(List.perm_orderedInsert _ _ _).trans (List.perm_cons_erase hmem).symm,
        hsorted.reinsert hnodup fun m' hm' => ?_⟩
      exact room_congr (Function.update_of_ne hm' _ _)

/-- The manager of the socket drops it, and goes to its place. -/
theorem inv_del {g g' : Global} {fd : Fd} {info : RwInfo} {ret : Ret} (h : Inv g)
    (hl : g.ofrwHtbl.lookup fd = some info)
    (hs : ccDelSockfdRwPollthrLockfree g info.thrMgr .deleteFd fd = some (ret, g')) : Inv g' := by
  obtain ⟨r, hr, hmgrs, hnext, hlist, hlook⟩ :=
    delSockfd_moves (fun m hm => h.pooled fd info m hl hm) hs
  have hsub : ∀ f' i, g'.ofrwHtbl.lookup f' = some i → f' ≠ fd ∧ g.ofrwHtbl.lookup f' = some i := by
    intro f' i hi
    rw [hlook] at hi
    split at hi
    · cases hi
    · rename_i hne
      exact ⟨hne, hi⟩
  cases hthr : info.thrMgr with
  | none =>
    rw [hthr] at hr
    obtain rfl := Option.some.inj hr
    exact h.of_pool hlist hmgrs hnext fun f' i hi _ => ⟨i, (hsub f' i hi).2, rfl⟩
  | some m =>
    obtain ⟨hlt, hfd⟩ := h.polled fd info m hl hthr
    rw [hthr] at hr
    obtain ⟨hrm, hrn, -, hrl⟩ := delFromMgr_moves hr
    have hself : g'.mgrs m = { g.mgrs m with
        numSockets := (g.mgrs m).numSockets - 1, fds := (g.mgrs m).fds.erase fd } := by
      rw [hmgrs, hrm]
      exact Function.update_self _ _ _
    have hother : ∀ m', m' ≠ m → g'.mgrs m' = g.mgrs m' := by
      intro m' hm'
      rw [hmgrs, hrm]
      exact Function.update_of_ne hm' _ _
    have hroom : room g' = room r.2 := funext fun m' => room_congr (by rw [hmgrs])
    obtain ⟨hperm, hsorted⟩ := delFromMgr_sorted (fun m' hm' => by
      obtain rfl := Option.some.inj hm'
      exact (h.complete m).mpr hlt) h.sorted h.nodup hr
    rw [← hlist] at hperm
    rw [← hlist, ← hroom] at hsorted
    refine ⟨hsorted, hperm.nodup_iff.mpr h.nodup, fun m' => ?_, fun m' hm' => ?_,
      fun f' i m' hi hthr' => ?_⟩
    · rw [hperm.mem_iff, hnext, hrn]
      exact h.complete m'
    · rw [hnext, hrn] at hm'
      by_cases hmm : m' = m
      · rw [hmm, hself]
        exact (h.managed m hlt).delete hfd
      · rw [hother m' hmm]
        exact h.managed m' hm'
    · obtain ⟨hne, hi⟩ := hsub f' i hi
      obtain ⟨hlt', hpoll⟩ := h.polled f' i m' hi hthr'
      rw [hnext, hrn]
      refine ⟨hlt', ?_⟩
      by_cases hmm : m' = m
      · rw [hmm, hself]
        exact (List.mem_erase_of_ne hne).mpr (hmm ▸ hpoll)
      · rw [hother m' hmm]
        exact hpoll

/-! ## Runs -/

/-- Sockets are added for devices, so devices are registered meanwhile. A socket is deleted
with the manager that its entry names. -/
inductive Op where
  | devRegister (key : DevKey) (maxOfver : Nat) (callbacks : Callbacks) (listenfd : Fd)
  | add (fd : Fd) (key : DevKey) (proto : L4Type) (ofchannKey : ChannelKey) (block : SockAddr)
  | del (fd : Fd)

def step (g : Global) : Op → Option Global
  | .devRegister key maxOfver callbacks listenfd =>
    (ccOfDevRegister g key maxOfver callbacks listenfd).map Prod.snd
  | .add fd key proto ofchannKey block =>
    (ccAddSockfdRwPollthrSafe g fd key proto ofchannKey block).map Prod.snd
  | .del fd =>
    (g.ofrwHtbl.lookup fd).bind fun rwinfo =>
      (ccDelSockfdRwPollthrLockfree g rwinfo.thrMgr .deleteFd fd).map Prod.snd

theorem inv_register {g g' : Global} {key : DevKey} {ver : Nat} {cb : Callbacks} {fd : Fd}
    {ret : Ret} (h : Inv g) (hs : ccOfDevRegister g key ver cb fd = some (ret, g')) : Inv g' := by
  rcases devRegister_cases hs with ⟨-, rfl⟩ | ⟨-, d, t, -, hg, -⟩
  · exact h
  · refine h.of_pool ?_ ?_ ?_ fun f' info hl _ => ?_
    · rw [hg]
    · rw [hg]
    · rw [hg]
    · rw [hg] at hl
      exact ⟨info, hl, rfl⟩

theorem inv_step {g g' : Global} {op : Op} (h : Inv g) (hs : step g op = some g') : Inv g' := by
  cases op with
  | devRegister key ver cb fd =>
    obtain ⟨r, hr, rfl⟩ := Option.map_eq_some_iff.mp hs
    exact inv_register h hr
  | add fd key proto ck block =>
    obtain ⟨r, hr, rfl⟩ := Option.map_eq_some_iff.mp hs
    exact inv_add h hr
  | del fd =>
    obtain ⟨info, hl, hs⟩ := Option.bind_eq_some_iff.mp hs
    obtain ⟨r, hr, rfl⟩ := Option.map_eq_some_iff.mp hs
    exact inv_del h hl hr

theorem inv_libInit (devType : DevType) : Inv (ccOfLibInit devType) := by
  refine inv_create ⟨List.Pairwise.nil, List.nodup_nil, fun m => ?_, fun m hm => ?_,
    fun fd info m hl => ?_⟩
  · exact iff_of_false List.not_mem_nil (Nat.not_lt_zero m)
  · exact absurd hm (Nat.not_lt_zero m)
  · cases hl

/-- From `cc_of_lib_init` on, after every sequence of additions and deletions, the pool is
sorted and complete, no manager is over its limit, the manager an addition would take has
room, and a new one would be created only if all are full. -/
theorem pool_sound (devType : DevType) (ops : List Op) :
    Always step PoolSound (ccOfLibInit devType) ops := by
  have hall : Always step Inv (ccOfLibInit devType) ops :=
    always_of_step (fun g op g' => inv_step) (inv_libInit devType) ops
  exact hall.mono fun g => poolSound_of_inv

/-! ## Filling the first manager -/

/-- One manager, with the sockets `fds` of a registered device. -/
structure Filled (g : Global) (key : DevKey) (fds : List Fd) : Prop where
  inv : Inv g
  list : g.ofrwPollthrList = [0]
  fds_eq : (g.mgrs 0).fds = fds
  registered : key ∈ g.ofdevHtbl
  entries : ∀ fd ∈ fds, ∃ info, g.ofrwHtbl.lookup fd = some info ∧ info.thrMgr = some 0 ∧
    info.devKey = key

theorem Filled.next {g : Global} {key : DevKey} {fds : List Fd} (h : Filled g key fds) :
    0 < g.nextMgr := by
  rw [← h.inv.complete, h.list]
  exact List.mem_singleton_self 0

theorem Filled.find {g : Global} {key : DevKey} {fds : List Fd} (h : Filled g key fds)
    (hlen : fds.length < 200) : ccFindOrCreateRwPollthrSafe g = (0, g) := by
  rcases findOrCreate_cases g with ⟨elem, rest, hl, -, heq⟩ | ⟨hhead, -⟩
  · rw [h.list] at hl
    obtain ⟨rfl, rfl⟩ := List.cons.inj hl
    exact heq
  · have hzero := hhead 0 [] h.list
    rw [h.inv.room_eq h.next, h.fds_eq] at hzero
    omega

theorem Filled.add {g : Global} {key : DevKey} {fds : List Fd} (h : Filled g key fds)
    (hlen : fds.length < 200) {fd : Fd} (hfd : fd ∉ fds) (proto : L4Type) (ck : ChannelKey)
    (block : SockAddr) :
    ∃ g', step g (.add fd key proto ck block) = some g' ∧ Filled g' key (fds ++ [fd]) := by
  obtain ⟨dev, hdev⟩ := mem_iff_lookup.mp h.registered
  have hnot : ¬(g.mgrs 0).numSockets.toUInt32 = (g.mgrs 0).maxSockets := by
    rw [(h.inv.managed 0 h.next).full_iff, h.fds_eq]
    omega
  have hret : ¬ccOfOk < 0 := by decide
  obtain ⟨g', hg'⟩ : ∃ g', ccAddSockfdRwPollthrSafe g fd key proto ck block = some (ccOfOk, g') := by
    unfold ccAddSockfdRwPollthrSafe
    simp only [h.find hlen, atomicAdd_of_registered fd block _ proto ck hdev, Option.bind_some,
      if_neg hret, Global.addDelFd, adpThrMgrAddDelFd, if_neg hnot, h.fds_eq, if_neg hfd,
      Option.map_some]
    exact ⟨_, rfl⟩
  refine ⟨g', ?_, inv_add h.inv hg', ?_, ?_, ?_, ?_⟩
  · simp only [step, hg', Option.map_some]
  · obtain ⟨hlist, -, -⟩ := addSockfd_moves hg'
    rw [hlist, h.find hlen]
    exact h.list
  · obtain ⟨-, -, hadd⟩ := addSockfd_moves hg'
    rw [h.find hlen] at hadd
    rcases hadd with ⟨hneg, -⟩ | ⟨r, -, hr, hmgrs, -⟩
    · cases hneg
    · obtain ⟨-, hfds, -⟩ := (h.inv.managed 0 h.next).add (by rw [h.fds_eq]; exact hlen) hr
      rw [hmgrs, Function.update_self, hfds, h.fds_eq]
  · rcases addSockfd_cases hg' with ⟨hneg, -⟩ | ⟨dev', m, -, ha⟩
    · cases hneg
    · rw [ha.ofdev]
      exact AList.mem_insert _ |>.mpr (.inr h.registered)
  · obtain ⟨-, -, hadd⟩ := addSockfd_moves hg'
    rw [h.find hlen] at hadd
    rcases hadd with ⟨hneg, -⟩ | ⟨r, -, -, -, hlook⟩
    · cases hneg
    · intro f hf
      rw [hlook]
      split
      · exact ⟨_, rfl, rfl, rfl⟩
      · rename_i hne
        rcases List.mem_append.mp hf with hf | hf
        · exact h.entries f hf
        · exact absurd (List.mem_singleton.mp hf) hne

/-- The additions that fill a manager with `fds`, each under a key of its own. -/
def fill (key : DevKey) (fds : List Fd) : List Op :=
  fds.map fun fd => .add fd key .tcp (dummyKey fd) ⟨0, 0⟩

theorem filled_run {g : Global} {key : DevKey} (more : List Fd) {fds : List Fd}
    (h : Filled g key fds) (hlen : (fds ++ more).length ≤ 200) (hnodup : (fds ++ more).Nodup) :
    ∃ g', run step g (fill key more) = some g' ∧ Filled g' key (fds ++ more) := by
  induction more generalizing g fds with
  | nil =>
    rw [List.append_nil]
    exact ⟨g, rfl, h⟩
  | cons fd more ih =>
    have hfd : fd ∉ fds := fun hmem =>
      (List.nodup_append.mp hnodup).2.2 fd hmem fd List.mem_cons_self rfl
    have hroom : fds.length < 200 := by
      simp only [List.length_append, List.length_cons] at hlen
      omega
    obtain ⟨g₁, hg₁, hfill⟩ := h.add hroom hfd .tcp (dummyKey fd) ⟨0, 0⟩
    rw [List.append_cons] at hlen hnodup ⊢
    obtain ⟨g', hg', hfill'⟩ := ih hfill hlen hnodup
    refine ⟨g', ?_, hfill'⟩
    show run step g (_ :: fill key more) = some g'
    rw [run_cons, hg₁]
    exact hg'

/-- The sockets `10`, `11` and so on, `n` of them. -/
def sockets (n : Nat) : List Fd := (List.range n).map fun i => Int32.ofNat (i + 10)

/-- A switch registers a device and opens `n` sockets of it. -/
def openSockets (n : Nat) : List Op :=
  .devRegister ⟨1, 2, 6633⟩ 0 ⟨0, 0, 0⟩ 0 :: fill ⟨1, 2, 6633⟩ (sockets n)

theorem filled_switch (n : Nat) (hn : n ≤ 200) :
    ∃ g, run step (ccOfLibInit .switch) (openSockets n) = some g ∧
      Filled g ⟨1, 2, 6633⟩ (sockets n) := by
  obtain ⟨g₀, hg₀, hempty⟩ :
      ∃ g₀, step (ccOfLibInit .switch) (.devRegister ⟨1, 2, 6633⟩ 0 ⟨0, 0, 0⟩ 0) = some g₀ ∧
        Filled g₀ ⟨1, 2, 6633⟩ [] := by
    have hinv : ∀ g₀, step (ccOfLibInit .switch) (.devRegister ⟨1, 2, 6633⟩ 0 ⟨0, 0, 0⟩ 0) = some g₀ →
        Inv g₀ := fun g₀ hstep => inv_step (inv_libInit .switch) hstep
    refine ⟨_, rfl, hinv _ rfl, rfl, rfl, ?_, ?_⟩
    · exact AList.mem_insert _ |>.mpr (.inl rfl)
    · intro fd hfd
      cases hfd
  have hnodup : (sockets n).Nodup := by
    refine List.Nodup.map_on (fun i hi j hj hij => ?_) List.nodup_range
    have hi := List.mem_range.mp hi
    have hj := List.mem_range.mp hj
    have heq := congrArg Int32.toInt hij
    rw [Int32.toInt_ofNat_of_lt (by omega), Int32.toInt_ofNat_of_lt (by omega)] at heq
    omega
  have hlen : (sockets n).length ≤ 200 := by simpa [sockets] using hn
  obtain ⟨g, hg, hfill⟩ := filled_run (sockets n) hempty hlen hnodup
  refine ⟨g, ?_, hfill⟩
  show run step _ (_ :: fill _ _) = some g
  rw [run_cons, hg₀]
  exact hg

/-- With the first manager full the next socket gets a new one. -/
theorem Filled.overflow {g : Global} {key : DevKey} {fds : List Fd} (h : Filled g key fds)
    (hlen : fds.length = 200) (fd : Fd) (proto : L4Type) (ck : ChannelKey) (block : SockAddr) :
    ∃ g', step g (.add fd key proto ck block) = some g' ∧ Inv g' ∧
      g'.ofrwPollthrList.length = 2 ∧ key ∈ g'.ofdevHtbl ∧
      ∀ f, f ≠ fd → g'.ofrwHtbl.lookup f = g.ofrwHtbl.lookup f := by
  obtain ⟨dev, hdev⟩ := mem_iff_lookup.mp h.registered
  have hfind : ccFindOrCreateRwPollthrSafe g = ccCreateRwPollthrSafe g := by
    rcases findOrCreate_cases g with ⟨elem, rest, hl, hroom, -⟩ | ⟨-, heq⟩
    · rw [h.list] at hl
      obtain ⟨rfl, rfl⟩ := List.cons.inj hl
      rw [h.inv.room_eq h.next, h.fds_eq, hlen] at hroom
      exact absurd rfl hroom
    · exact heq
  have hnew : (ccCreateRwPollthrSafe g).2.mgrs g.nextMgr = adpThrMgrNew maxPerThreadRwsockets :=
    Function.update_self _ _ _
  have hret : ¬ccOfOk < 0 := by decide
  obtain ⟨g', hg'⟩ : ∃ g', ccAddSockfdRwPollthrSafe g fd key proto ck block = some (ccOfOk, g') := by
    unfold ccAddSockfdRwPollthrSafe
    have hreg : (ccCreateRwPollthrSafe g).2.ofdevHtbl.lookup key = some dev := hdev
    simp only [hfind, atomicAdd_of_registered fd block _ proto ck hreg, Option.bind_some,
      if_neg hret, Global.addDelFd]
    rw [show (ccCreateRwPollthrSafe g).1 = g.nextMgr from rfl, hnew]
    exact ⟨_, rfl⟩
  obtain ⟨hlist, -, hadd⟩ := addSockfd_moves hg'
  refine ⟨g', ?_, inv_add h.inv hg', ?_, ?_, ?_⟩
  · simp only [step, hg', Option.map_some]
  · rw [hlist, hfind]
    show (g.nextMgr :: g.ofrwPollthrList).length = 2
    rw [h.list]
    rfl
  · rcases addSockfd_cases hg' with ⟨hneg, -⟩ | ⟨dev', m, -, ha⟩
    · cases hneg
    · rw [ha.ofdev]
      exact AList.mem_insert _ |>.mpr (.inr h.registered)
  · intro f hf
    rcases hadd with ⟨hneg, -⟩ | ⟨r, -, -, -, hlook⟩
    · cases hneg
    · rw [hlook, if_neg hf]

end OfConnect.Pool.Sorted
