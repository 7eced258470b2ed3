import OfConnect.Lib.Run
import OfConnect.PollThr.Thread

/-!
# Which slot an entry of `fd_list` points to

`fd_list` and the live part of `pollfd_arr` list the same fds in the same order
whatever is added and deleted (`synced_step`). The `pollfd_entry_p` of an entry is set
once, when the entry is added, and no later message moves it. So the entries own their
slots as long as the array is only shortened at its end, and a compaction that moves
any slot leaves an entry on a slot that is not its own.
-/

namespace OfConnect.PollThr.Ownership

open OfConnect.Lib.Slots OfConnect.Lib.Run OfConnect.PollThr.Thread

/-- The list and the array agree, and the administrative pipes have the first two slots. -/
structure Synced (p : AdminPipes) (t : PollthrPrivate) : Prop where
  fds_eq : t.fds = t.polled
  nodup : t.fds.Nodup
  two_le : 2 ≤ t.numPollfds
  pri : (t.pollfdArr 0).fd = p.priRd
  data : (t.pollfdArr 1).fd = p.dataRd

theorem synced_newThread (arr : Nat → PollFd) (p : AdminPipes) : Synced p (newThread arr p) := by
  have hd := p.distinct
  constructor
  · simp [PollthrPrivate.fds, PollthrPrivate.polled, newThread, live, pollThreadInit,
      List.range_succ]
  · simp [PollthrPrivate.fds, newThread, hd.symm]
  · simp [newThread]
  · simp [newThread, pollThreadInit]
  · simp [newThread]

theorem Synced.length_fdList {p : AdminPipes} {t : PollthrPrivate} (h : Synced p t) :
    t.fdList.length = t.numPollfds := by
  have hl := congrArg List.length h.fds_eq
  simpa [PollthrPrivate.fds] using hl

theorem Synced.fd_at {p : AdminPipes} {t : PollthrPrivate} (h : Synced p t) {i : Nat}
    (hi : i < t.fdList.length) : t.fdList[i].fd = (t.pollfdArr i).fd := by
  have hn : i < t.numPollfds := by rw [← h.length_fdList]; exact hi
  have he : t.fds[i]? = t.polled[i]? := by rw [h.fds_eq]
  rw [polled_eq_live, getElem?_live _ hn] at he
  simpa [PollthrPrivate.fds, List.getElem?_eq_getElem hi] using he

/-- Distinct live slots hold distinct fds. -/
theorem Synced.slot_inj {p : AdminPipes} {t : PollthrPrivate} (h : Synced p t) {i j : Nat}
    (hi : i < t.numPollfds) (hj : j < t.numPollfds)
    (he : (t.pollfdArr i).fd = (t.pollfdArr j).fd) : i = j := by
  have hnd : t.polled.Nodup := h.fds_eq ▸ h.nodup
  have hli : i < t.polled.length := by simpa using hi
  have hlj : j < t.polled.length := by simpa using hj
  have hinj : t.polled[i] = t.polled[j] ↔ i = j := hnd.getElem_inj_iff
  exact hinj.mp (by simpa [PollthrPrivate.polled, live] using he)

/-- The list loses the entry whose slot the array loses. -/
theorem Synced.eraseP_eq {p : AdminPipes} {t : PollthrPrivate} (h : Synced p t) {d : Nat} {fd : Fd}
    (hd : d < t.numPollfds) (hfd : (t.pollfdArr d).fd = fd) :
    t.fdList.eraseP (fun e => e.fd == fd) = t.fdList.eraseIdx d := by
  have hl := h.length_fdList
  have hdl : d < t.fdList.length := by omega
  have hidx : t.fdList.findIdx? (fun e => e.fd == fd) = some d := by
    rw [List.findIdx?_eq_some_iff_getElem]
    refine ⟨hdl, by simp [h.fd_at hdl, hfd], fun j hj => ?_⟩
    have hjl : j < t.fdList.length := by omega
    simp only [h.fd_at hjl, beq_iff_eq]
    intro he
    have := h.slot_inj (by omega) hd (he.trans hfd.symm)
    omega
  rw [List.eraseP_eq_eraseIdx, hidx]

theorem priPipeStep_cases {p : AdminPipes} {t t' : PollthrPrivate} {msg : ThrMsg}
    (h : Synced p t) (hs : priPipeStep p t msg = some t') :
    (msg.fdAction = .addFd ∧ addFd t msg = some t') ∨
    (msg.fdAction = .deleteFd ∧ msg.fd ∉ t.polled ∧ t' = t) ∨
    ∃ d, msg.fdAction = .deleteFd ∧ 2 ≤ d ∧ d < t.numPollfds ∧ (t.pollfdArr d).fd = msg.fd ∧
      t' = { t with
        pollfdArr := shiftDown t.pollfdArr d t.numPollfds
        numPollfds := t.numPollfds - 1
        fdList := t.fdList.eraseIdx d } := by
  unfold priPipeStep pollthrPriPipeProcessFunc at hs
  split at hs
  · cases hs
  · rename_i hoff
    cases ha : msg.fdAction with
    | addFd =>
      rw [ha] at hs
      exact Or.inl ⟨rfl, hs⟩
    | deleteFd =>
      rw [ha] at hs hoff
      obtain rfl := Option.some.inj hs
      have hoff' : OffPipes t msg := by
        constructor
        · intro he; exact hoff ⟨rfl, Or.inl (he.trans h.pri)⟩
        · intro he; exact hoff ⟨rfl, Or.inr (he.trans h.data)⟩
      rcases deleteFd_cases hoff' with ⟨hm, he⟩ | ⟨d, h1, hd, hfd, he⟩
      · exact Or.inr (Or.inl ⟨rfl, hm, he⟩)
      · have hd1 : d ≠ 1 := by
          rintro rfl
          exact hoff'.2 hfd.symm
        rw [h.eraseP_eq hd hfd] at he
        exact Or.inr (Or.inr ⟨d, rfl, by omega, hd, hfd, he⟩)

theorem synced_addFd {p : AdminPipes} {t t' : PollthrPrivate} {msg : ThrMsg}
    (h : Synced p t) (ha : addFd t msg = some t') : Synced p t' := by
  obtain ⟨hfresh, hn, harr, -, -⟩ := addFd_eq_some ha
  have h2 := h.two_le
  constructor
  · rw [fds_addFd ha, polled_addFd ha, h.fds_eq]
  · rw [fds_addFd ha]
    exact h.nodup.append (by simp) (by simpa using hfresh)
  · omega
  · rw [harr, Function.update_of_ne (by omega)]; exact h.pri
  · rw [harr, Function.update_of_ne (by omega)]; exact h.data

theorem synced_compact {p : AdminPipes} {t : PollthrPrivate} {d : Nat} (h : Synced p t)
    (h2 : 2 ≤ d) (hd : d < t.numPollfds) :
    Synced p { t with
      pollfdArr := shiftDown t.pollfdArr d t.numPollfds
      numPollfds := t.numPollfds - 1
      fdList := t.fdList.eraseIdx d } := by
  have hfds : (t.fdList.eraseIdx d).map FdInfo.fd = t.fds.eraseIdx d := by
    rw [PollthrPrivate.fds, List.eraseIdx_map]
  constructor
  · show (t.fdList.eraseIdx d).map FdInfo.fd =
      (live (shiftDown t.pollfdArr d t.numPollfds) (t.numPollfds - 1)).map PollFd.fd
    rw [hfds, live_shiftDown _ hd, ← List.eraseIdx_map, h.fds_eq]
    rfl
  · show ((t.fdList.eraseIdx d).map FdInfo.fd).Nodup
    rw [hfds]
    exact h.nodup.eraseIdx d
  · show 2 ≤ t.numPollfds - 1
    omega
  · show (shiftDown t.pollfdArr d t.numPollfds 0).fd = p.priRd
    rw [shiftDown_apply, if_neg (by omega)]
    exact h.pri
  · show (shiftDown t.pollfdArr d t.numPollfds 1).fd = p.dataRd
    rw [shiftDown_apply, if_neg (by omega)]
    exact h.data

theorem synced_step {p : AdminPipes} {t t' : PollthrPrivate} {msg : ThrMsg}
    (h : Synced p t) (hs : priPipeStep p t msg = some t') : Synced p t' := by
  rcases priPipeStep_cases h hs with ⟨-, ha⟩ | ⟨-, -, rfl⟩ | ⟨d, -, h2, hd, -, rfl⟩
  · exact synced_addFd h ha
  · exact h
  · exact synced_compact h h2 hd

/-! ## The list and the array, message by message -/

/-- The messages a manager sends to a running thread: the fd of an `ADD_FD` is new, that of a
`DELETE_FD` may be any fd but those of the two pipes. -/
def Expected (p : AdminPipes) (t : PollthrPrivate) (msg : ThrMsg) : Prop :=
  match msg.fdAction with
  | .addFd => msg.fd ∉ t.fds
  | .deleteFd => msg.fd ≠ p.priRd ∧ msg.fd ≠ p.dataRd

/-- The branch of `DELETE_FD` that logs an inconsistent database: the search of `pollfd_arr`
finds the fd, and the search of `fd_list` does not. -/
def InconsistentDatabase (t : PollthrPrivate) (msg : ThrMsg) : Prop :=
  msg.fdAction = .deleteFd ∧ OffPipes t msg ∧
    (findFrom (fun s => s.fd == msg.fd) t.pollfdArr 1 t.numPollfds).isSome ∧
    (t.fdList.find? fun e => e.fd == msg.fd) = none

/-- The slots that are live after a message. One is added at the end; or those of another fd
than the deleted one are left, each with the `events` and `revents` it had; or, if no slot has
the deleted fd, nothing at all has changed. -/
def SlotsKept (t : PollthrPrivate) (msg : ThrMsg) (t' : PollthrPrivate) : Prop :=
  match msg.fdAction with
  | .addFd => ∃ slot, slot.fd = msg.fd ∧
      live t'.pollfdArr t'.numPollfds = live t.pollfdArr t.numPollfds ++ [slot]
  | .deleteFd =>
      live t'.pollfdArr t'.numPollfds =
        (live t.pollfdArr t.numPollfds).filter (fun slot => slot.fd ≠ msg.fd) ∧
      (msg.fd ∉ t.fds → t' = t)

theorem Synced.not_inconsistent {p : AdminPipes} {t : PollthrPrivate} (h : Synced p t)
    (msg : ThrMsg) : ¬InconsistentDatabase t msg := by
  rintro ⟨-, -, hfound, hmissed⟩
  obtain ⟨d, hd⟩ := Option.isSome_iff_exists.mp hfound
  obtain ⟨-, hlt, hfd⟩ := findFrom_some hd
  have hdl : d < t.fdList.length := by rw [h.length_fdList]; exact hlt
  have hno := List.find?_eq_none.mp hmissed _ (List.getElem_mem hdl)
  rw [h.fd_at hdl] at hno
  exact hno hfd

theorem Synced.slotsKept {p : AdminPipes} {t t' : PollthrPrivate} {msg : ThrMsg}
    (h : Synced p t) (hs : priPipeStep p t msg = some t') : SlotsKept t msg t' := by
  unfold SlotsKept
  rcases priPipeStep_cases h hs with ⟨ha, hadd⟩ | ⟨ha, hm, rfl⟩ | ⟨d, ha, h2, hd, hfd, rfl⟩
  · obtain ⟨-, hn, harr, -, -⟩ := addFd_eq_some hadd
    rw [ha, hn, harr, live_update]
    exact ⟨_, rfl, rfl⟩
  · rw [ha]
    refine ⟨(List.filter_eq_self.mpr ?_).symm, fun _ => rfl⟩
    intro slot hslot
    rw [decide_eq_true_iff]
    intro he
    exact hm (he ▸ List.mem_map_of_mem hslot)
  · rw [ha]
    constructor
    · have hnd : ((live t.pollfdArr t.numPollfds).map PollFd.fd).Nodup := by
        have := h.nodup
        rwa [h.fds_eq] at this
      have hdl : d < (live t.pollfdArr t.numPollfds).length := by rw [length_live]; exact hd
      have hslot : (live t.pollfdArr t.numPollfds)[d].fd = msg.fd := by
        rw [← hfd]
        simp [live]
      rw [live_shiftDown _ hd, eraseIdx_eq_filter hnd hdl, hslot]
    · intro habsent
      have hmem : (t.pollfdArr d).fd ∈ t.polled := by
        rw [polled_eq_live, mem_live]
        exact ⟨d, hd, rfl⟩
      rw [hfd, ← h.fds_eq] at hmem
      exact absurd hmem habsent

theorem priPipeStep_of_expected {p : AdminPipes} {t : PollthrPrivate} {msg : ThrMsg}
    (he : Expected p t msg) :
    ∃ t', pollthrPriPipeProcessFunc t msg = some t' ∧ priPipeStep p t msg = some t' := by
  unfold Expected at he
  unfold priPipeStep pollthrPriPipeProcessFunc
  cases ha : msg.fdAction with
  | addFd =>
    rw [ha] at he
    have hnew : msg.fd ∉ t.fds := he
    simp [addFd, hnew]
  | deleteFd =>
    rw [ha] at he
    have hoff : ¬(msg.fd = p.priRd ∨ msg.fd = p.dataRd) := not_or.mpr he
    simp [hoff]

/-- What the thread makes of any message it may be sent next. -/
def Handles (p : AdminPipes) (t : PollthrPrivate) : Prop :=
  ∀ msg, Expected p t msg → ∃ t', pollthrPriPipeProcessFunc t msg = some t' ∧
    SlotsKept t msg t' ∧ ¬InconsistentDatabase t msg

/-- Whatever is added and deleted, `fd_list` and `pollfd_arr` list the same fds, each once and
the two pipes first, and the next message is handled in both alike. -/
theorem lists_agree (arr : Nat → PollFd) (p : AdminPipes) (msgs : List ThrMsg) :
    Always (priPipeStep p) (fun t => Synced p t ∧ Handles p t) (newThread arr p) msgs := by
  have hsynced : Always (priPipeStep p) (Synced p) (newThread arr p) msgs :=
    always_of_step (fun _ _ _ h hs => synced_step h hs) (synced_newThread arr p) msgs
  refine hsynced.mono fun t h => ⟨h, fun msg he => ?_⟩
  obtain ⟨t', hfunc, hstep⟩ := priPipeStep_of_expected he
  exact ⟨t', hfunc, h.slotsKept hstep, h.not_inconsistent msg⟩

/-! ## The slot an entry points to -/

/-- Every entry of `fd_list` points to a live slot that holds the entry's own fd. -/
def EntriesOwned (t : PollthrPrivate) : Prop :=
  ∀ e ∈ t.fdList, e.pollfdEntry < t.numPollfds ∧ (t.pollfdArr e.pollfdEntry).fd = e.fd

instance (t : PollthrPrivate) : Decidable (EntriesOwned t) :=
  inferInstanceAs (Decidable (∀ e ∈ t.fdList, _))

/-- In step with the array, owning entries point to the slots in list order. -/
theorem entriesOwned_iff_range {p : AdminPipes} {t : PollthrPrivate} (h : Synced p t) :
    EntriesOwned t ↔ t.fdList.map FdInfo.pollfdEntry = List.range t.numPollfds := by
  have hl := h.length_fdList
  constructor
  · intro ho
    apply List.ext_getElem
    · simp [hl]
    · intro i hi _
      have hi' : i < t.fdList.length := by simpa using hi
      obtain ⟨hlt, hfd⟩ := ho _ (List.getElem_mem hi')
      have he := h.slot_inj hlt (by omega) (hfd.trans (h.fd_at hi'))
      simpa using he
  · intro hr e he
    obtain ⟨i, hi, rfl⟩ := List.getElem_of_mem he
    have hpe : (t.fdList[i]).pollfdEntry = i := by
      have hg : (t.fdList.map FdInfo.pollfdEntry)[i]? = (List.range t.numPollfds)[i]? := by rw [hr]
      rw [List.getElem?_range (by omega)] at hg
      simpa [List.getElem?_eq_getElem hi] using hg
    rw [hpe]
    exact ⟨by omega, (h.fd_at hi).symm⟩

/-- Erasing an index from an interval leaves an interval only at its end. -/
theorem eraseIdx_range_eq {n d : Nat} (hd : d < n) :
    (List.range n).eraseIdx d = List.range (n - 1) ↔ d + 1 = n := by
  constructor
  · intro h
    by_contra hne
    have hg : ((List.range n).eraseIdx d)[d]? = (List.range (n - 1))[d]? := by rw [h]
    rw [List.getElem?_eraseIdx_of_ge (le_refl d)] at hg
    simp only [List.getElem?_range (show d + 1 < n by omega),
      List.getElem?_range (show d < n - 1 by omega), Option.some.injEq] at hg
    omega
  · intro h
    rw [List.eraseIdx_eq_dropLast (by simpa using h)]
    obtain rfl : n = d + 1 := h.symm
    simp [List.range_succ]

/-- A `DELETE_FD` that closes no gap: the fd is not polled, or it has the last live slot. -/
def DeletesLastSlot (t : PollthrPrivate) (msg : ThrMsg) : Prop :=
  msg.fdAction = .deleteFd →
    ∀ d < t.numPollfds, (t.pollfdArr d).fd = msg.fd → d + 1 = t.numPollfds

theorem entriesOwned_step_iff {p : AdminPipes} {t t' : PollthrPrivate} {msg : ThrMsg}
    (h : Synced p t) (ho : EntriesOwned t) (hs : priPipeStep p t msg = some t') :
    EntriesOwned t' ↔ DeletesLastSlot t msg := by
  have hr := (entriesOwned_iff_range h).mp ho
  have h' := synced_step h hs
  rw [entriesOwned_iff_range h']
  rcases priPipeStep_cases h hs with ⟨hadd, ha⟩ | ⟨-, hm, rfl⟩ | ⟨d, hdel, h2, hd, hfd, rfl⟩
  · obtain ⟨-, hn, -, hlist, -⟩ := addFd_eq_some ha
    have hgood : t'.fdList.map FdInfo.pollfdEntry = List.range t'.numPollfds := by
      rw [hlist, hn, List.map_append, hr, List.range_succ]
      rfl
    exact ⟨fun _ hdel => absurd (hadd.symm.trans hdel) (by decide), fun _ => hgood⟩
  · refine ⟨fun _ _ d hd hfd => absurd ?_ hm, fun _ => hr⟩
    rw [polled_eq_live, mem_live]
    exact ⟨d, hd, hfd⟩
  · show (t.fdList.eraseIdx d).map FdInfo.pollfdEntry = List.range (t.numPollfds - 1) ↔ _
    rw [← List.eraseIdx_map, hr, eraseIdx_range_eq hd]
    constructor
    · intro hlast _ i hi hfi
      obtain rfl := h.slot_inj hi hd (hfi.trans hfd.symm)
      exact hlast
    · intro hok
      exact hok hdel d hd hfd

theorem entriesOwned_newThread (arr : Nat → PollFd) (p : AdminPipes) :
    EntriesOwned (newThread arr p) := by
  rw [entriesOwned_iff_range (synced_newThread arr p)]
  rfl

/-- The entries own their slots throughout a run of primary-pipe messages exactly if no
`DELETE_FD` of the run closes a gap in the array. -/
theorem entries_owned_iff_deletes_last (arr : Nat → PollFd) (p : AdminPipes) (msgs : List ThrMsg) :
    Always (priPipeStep p) EntriesOwned (newThread arr p) msgs ↔
      Guarded (priPipeStep p) DeletesLastSlot (newThread arr p) msgs :=
  always_iff_guarded_of_invariant (fun _ _ _ h hs => synced_step h hs)
    (fun _ _ _ h ho hs => entriesOwned_step_iff h ho hs)
    (synced_newThread arr p) (entriesOwned_newThread arr p) msgs

/-- Two sockets are added and the first is deleted: the entry of the second points past
the live slots. -/
theorem delete_strands_later_entry :
    ∃ t, run (priPipeStep ⟨3, 5, by decide⟩)
        (newThread (fun _ => ⟨0, ⟨false, false⟩, ⟨false, false⟩⟩) ⟨3, 5, by decide⟩)
        [tcpAddMsg 10, tcpAddMsg 11, socketDeleteMsg 10] = some t ∧
      ¬EntriesOwned t := by
  refine ⟨_, rfl, ?_⟩
  decide

end OfConnect.PollThr.Ownership
