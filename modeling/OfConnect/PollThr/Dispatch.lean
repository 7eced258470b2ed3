import OfConnect.PollThr.Rounds

/-!
# Calls are for what `poll` reported

`poll` fills the live slots only, so a slot past them keeps the `revents` it last had, and
`ADD_FD` does not clear them. The entry is appended to the list that is being walked, so it is
served in the same round, by what was reported for another fd in an earlier one. As long as the
slots that are given out have nothing of the kind left, and no gap is closed, every call of a
`pollin_func` or a `pollout_func` is for what the last `poll` reported of its fd.
-/

namespace OfConnect.PollThr.Dispatch

open OfConnect.Lib.Slots OfConnect.Lib.Tables OfConnect.Lib.Run OfConnect.PollThr.Thread
open OfConnect.PollThr.Conservation (takesData)
open OfConnect.PollThr.Rounds

/-! ## What is asked of the loop -/

/-- A function that is about to be called for an fd is called for what the last `poll` reported
of that fd. -/
def ReportsOnly (s : Loop) : Prop :=
  match s.cursor with
  | .poll => True
  | .pollin e _ => pollinSet s.thr e = true → e.pollinFunc ≠ none →
      ∃ q ∈ s.reported, q.fd = e.fd ∧ q.revents.pollin = true
  | .pollout e _ => polloutSet s.thr e = true → e.polloutFunc ≠ none →
      ∃ q ∈ s.reported, q.fd = e.fd ∧ q.revents.pollout = true

/-- An entry that is appended to a list that is being walked gets a slot that was not left with
a `POLLIN` that the entry asks for; and no message is queued, in the round in which its fd was
added, for a slot that was left with `POLLOUT`. -/
def SlotsAreClear (s : Loop) (a : Act) : Prop :=
  match s.cursor, a with
  | .pollin e rest, .pollin r =>
    (takesPri s.thr e = true → r.pri.fdAction = .addFd → rest ≠ [] →
      (s.thr.pollfdArr s.thr.numPollfds).revents.pollin = true →
      r.pri.pollEvents.pollin = true → r.pri.pollinFunc = none) ∧
    (takesData s.thr e = true → ∀ e' ∈ s.thr.fdList, e'.fd = r.dataFd →
      s.reported.length ≤ e'.pollfdEntry →
      (s.thr.pollfdArr e'.pollfdEntry).revents.pollout = true → e'.polloutFunc = none)
  | _, _ => True

/-! ## The walk -/

/-- An entry that the walk will come to: `poll` has filled its slot, or it is new and nothing
will be called for it. -/
def Settled (reported : List PollFd) (t : PollthrPrivate) (e : FdInfo) : Prop :=
  (∃ q, reported[e.pollfdEntry]? = some q ∧ q.fd = e.fd ∧
    q.revents = (t.pollfdArr e.pollfdEntry).revents) ∨
  (reported.length ≤ e.pollfdEntry ∧ (pollinSet t e = true → e.pollinFunc = none) ∧
    (polloutSet t e = true → e.polloutFunc = none))

theorem Settled.pollin {reported : List PollFd} {t : PollthrPrivate} {e : FdInfo}
    (h : Settled reported t e) (hset : pollinSet t e = true) (hfunc : e.pollinFunc ≠ none) :
    ∃ q ∈ reported, q.fd = e.fd ∧ q.revents.pollin = true := by
  rcases h with ⟨q, hq, hfd, hrev⟩ | ⟨-, hquiet, -⟩
  · unfold pollinSet at hset
    rw [Bool.and_eq_true, ← hrev] at hset
    exact ⟨q, List.mem_of_getElem? hq, hfd, hset.1⟩
  · exact absurd (hquiet hset) hfunc

theorem Settled.pollout {reported : List PollFd} {t : PollthrPrivate} {e : FdInfo}
    (h : Settled reported t e) (hset : polloutSet t e = true) (hfunc : e.polloutFunc ≠ none) :
    ∃ q ∈ reported, q.fd = e.fd ∧ q.revents.pollout = true := by
  rcases h with ⟨q, hq, hfd, hrev⟩ | ⟨-, -, hquiet⟩
  · unfold polloutSet at hset
    rw [Bool.and_eq_true, ← hrev] at hset
    exact ⟨q, List.mem_of_getElem? hq, hfd, hset.1⟩
  · exact absurd (hquiet hset) hfunc

theorem Settled.frame {reported : List PollFd} {t t' : PollthrPrivate} {e : FdInfo}
    (h : Settled reported t e)
    (hr : (t'.pollfdArr e.pollfdEntry).revents = (t.pollfdArr e.pollfdEntry).revents)
    (hin : (t'.pollfdArr e.pollfdEntry).events.pollin = (t.pollfdArr e.pollfdEntry).events.pollin)
    (hout : reported.length ≤ e.pollfdEntry → (polloutSet t e = true → e.polloutFunc = none) →
      polloutSet t' e = true → e.polloutFunc = none) :
    Settled reported t' e := by
  rcases h with ⟨q, hq, hfd, hrev⟩ | ⟨hnew, hquiet, hno⟩
  · exact .inl ⟨q, hq, hfd, hrev.trans hr.symm⟩
  · exact .inr ⟨hnew, by rw [pollinSet_congr hr hin]; exact hquiet, hout hnew hno⟩

/-- What the walk has still to serve is settled. -/
def Quiet (s : Loop) : Prop := ∀ e ∈ s.cursor.todo, Settled s.reported s.thr e

theorem reportsOnly_of_quiet {s : Loop} (h : Quiet s) : ReportsOnly s := by
  unfold ReportsOnly
  split
  · trivial
  · rename_i e rest hcur
    have hsettled := h e (by rw [hcur]; exact List.mem_cons_self)
    exact hsettled.pollin
  · rename_i e rest hcur
    have hsettled := h e (by rw [hcur]; exact List.mem_cons_self)
    exact hsettled.pollout

/-! ## Steps -/

theorem settled_setPollout {t : PollthrPrivate} {k : Nat} {b : Bool} {htbl : Table Fd SendMsgInfo}
    {reported : List PollFd} {e : FdInfo} (h : Settled reported t e)
    (hout : e.pollfdEntry = k → b = true → reported.length ≤ e.pollfdEntry →
      (t.pollfdArr e.pollfdEntry).revents.pollout = true → e.polloutFunc = none) :
    Settled reported { t with sendMsgHtbl := htbl, pollfdArr := setPollout t.pollfdArr k b } e := by
  refine h.frame (setPollout_revents _ _ _ _) (setPollout_pollin _ _ _ _) fun hnew hquiet hset => ?_
  simp only [polloutSet, setPollout_revents, setPollout_pollout, Bool.and_eq_true] at hset
  obtain ⟨hrev, hev⟩ := hset
  split at hev
  · rename_i hk
    exact hout hk hev hnew hrev
  · exact hquiet (by rw [polloutSet, hrev, hev]; rfl)

/-- What `poll` has filled is settled. -/
theorem settled_poll {t : PollthrPrivate} (h : Slots t) (hnum : t.numPollfds ≠ 0)
    (rev : Nat → PollEvents) {e : FdInfo} (he : e ∈ t.fdList) :
    Settled (live (poll t rev).pollfdArr t.numPollfds) (poll t rev) e := by
  obtain ⟨hlt, hfd⟩ := h.of_mem he
  rw [← h.count.resolve_right hnum] at hlt
  exact .inl ⟨_, getElem?_live _ hlt, (Conservation.poll_fd t rev _).trans hfd, rfl⟩

/-- An entry that was there before keeps its slot when another is added. -/
theorem settled_addFd {t t' : PollthrPrivate} {msg : ThrMsg} {reported : List PollFd} {e : FdInfo}
    (h : Settled reported t e) (hslot : e.pollfdEntry ≠ t.numPollfds)
    (ha : addFd t msg = some t') : Settled reported t' e := by
  obtain ⟨-, -, harr, -, -⟩ := addFd_eq_some ha
  have hsame : t'.pollfdArr e.pollfdEntry = t.pollfdArr e.pollfdEntry := by
    rw [harr, Function.update_of_ne hslot]
  refine h.frame ?_ ?_ fun _ hquiet hset => ?_
  · rw [hsame]
  · rw [hsame]
  · rw [polloutSet, hsame] at hset
    exact hquiet hset

/-- The entry that is added is settled if its slot was left without a `POLLIN` it asks for. -/
theorem settled_addedEntry {t t' : PollthrPrivate} {msg : ThrMsg} {reported : List PollFd}
    (hlen : reported.length = t.numPollfds)
    (hclear : (t.pollfdArr t.numPollfds).revents.pollin = true →
      msg.pollEvents.pollin = true → msg.pollinFunc = none)
    (ha : addFd t msg = some t') : Settled reported t' (addedEntry t msg) := by
  obtain ⟨-, -, harr, -, -⟩ := addFd_eq_some ha
  refine .inr ⟨hlen.le, fun hset => ?_, fun hset => ?_⟩
  · simp only [pollinSet, addedEntry, harr, Function.update_self, Bool.and_eq_true] at hset
    exact hclear hset.1 hset.2
  · simp only [polloutSet, addedEntry, harr, Function.update_self, Bool.and_false] at hset
    cases hset

theorem quiet_step {s s' : Loop} {a : Act} (h : Placed s) (hq : Quiet s)
    (hclear : SlotsAreClear s a) (heff : Effect s a s') : Quiet s' := by
  intro e' he'
  cases heff with
  | poll rev hnum hmem => exact settled_poll h.slots hnum rev (hmem e' he')
  | skip hsub => exact hq e' (hsub e' he')
  | @queue r _ e e₀ rest hcur htakes he₀ hfd hsub =>
    simp only [SlotsAreClear, hcur] at hclear
    refine settled_setPollout (hq e' (hsub e' he')) fun hslot _ hnew hrev => ?_
    obtain rfl := h.slots.eq_of_slot (h.mem e' (hsub e' he')) he₀ hslot
    exact hclear.2 htakes e' he₀ hfd hnew hrev
  | @add r _ e rest t hcur hb htakes hact hfunc ha hsub =>
    simp only [SlotsAreClear, hcur] at hclear
    rcases hsub e' he' with hin | ⟨hrest, rfl⟩
    · refine settled_addFd (hq e' hin) ?_ ha
      rw [hb.count]
      exact Nat.ne_of_lt (h.slots.of_mem (h.mem e' hin)).1
    · exact settled_addedEntry hb.reported (hclear.1 htakes hact hrest) ha
  | destruct hsub => exact hq e' (hsub e' he')
  | delete hcur hb htakes hact hoff hd hfd hmem =>
    apply hq e'
    rw [hcur]
    have hin := List.mem_of_mem_dropLast (hmem e' he')
    rw [hb.list] at hin
    exact hin
  | take hcur hset hl hsub =>
    exact settled_setPollout (hq e' (hsub e' he')) fun _ htrue => by cases htrue

/-- As long as `DELETE_FD` closes no gap and `ADD_FD` finds its slot clear, functions are called
for what `poll` has reported in the same round, and for nothing else. -/
theorem calls_reported_of_slots_clear (arr : Nat → PollFd) (priPipe : Fd) (acts : List Act)
    (h : Guarded step (fun s a => ClosesNoGap s a ∧ SlotsAreClear s a) (start arr priPipe) acts) :
    Always step ReportsOnly (start arr priPipe) acts := by
  have hall : Always step (fun s => Placed s ∧ Quiet s) (start arr priPipe) acts := by
    refine always_of_guarded (fun s a s' hinv hok hs => ?_) ⟨placed_start arr priPipe, nofun⟩ h
    exact ⟨placed_step hinv.1 hok.1 hs,
      quiet_step hinv.1 hinv.2 hok.2 (effect_of_step hinv.1 hok.1 hs)⟩
  exact hall.mono fun _ hinv => reportsOnly_of_quiet hinv.2

instance : (s : Loop) → (a : Act) → Decidable (SlotsAreClear s a)
  | ⟨t, .pollin e rest, reported⟩, .pollin r =>
    have : Decidable (takesPri t e = true → r.pri.fdAction = .addFd → rest ≠ [] →
        (t.pollfdArr t.numPollfds).revents.pollin = true →
        r.pri.pollEvents.pollin = true → r.pri.pollinFunc = none) := inferInstance
    have : Decidable (takesData t e = true → ∀ e' ∈ t.fdList, e'.fd = r.dataFd →
        reported.length ≤ e'.pollfdEntry →
        (t.pollfdArr e'.pollfdEntry).revents.pollout = true → e'.polloutFunc = none) :=
      inferInstance
    inferInstanceAs (Decidable (_ ∧ _))
  | ⟨_, .pollin _ _, _⟩, .poll _ => isTrue trivial
  | ⟨_, .pollin _ _, _⟩, .pollout => isTrue trivial
  | ⟨_, .pollin _ _, _⟩, .timeout => isTrue trivial
  | ⟨_, .poll, _⟩, _ => isTrue trivial
  | ⟨_, .pollout _ _, _⟩, _ => isTrue trivial

instance : (s : Loop) → Decidable (ReportsOnly s)
  | ⟨_, .poll, _⟩ => isTrue trivial
  | ⟨t, .pollin e _, reported⟩ =>
    inferInstanceAs (Decidable (pollinSet t e = true → e.pollinFunc ≠ none →
      ∃ q ∈ reported, q.fd = e.fd ∧ q.revents.pollin = true))
  | ⟨t, .pollout e _, reported⟩ =>
    inferInstanceAs (Decidable (polloutSet t e = true → e.polloutFunc ≠ none →
      ∃ q ∈ reported, q.fd = e.fd ∧ q.revents.pollout = true))

/-- The data pipe and a socket are added, and then the socket is readable. -/
theorem calls_reported_socket_added :
    Always step ReportsOnly (start zeroed 3)
      (round [0] (dataPipeMsg 5) 1 ++ round [0] (tcpAddMsg 10) 3 ++ round [2] (tcpAddMsg 11) 3) :=
  calls_reported_of_slots_clear zeroed 3 _ (by decide)

/-- Socket 10 is readable in the round that deletes it. Its slot keeps `POLLIN`, and socket 11,
which gets the slot in the next round, is served in that round. -/
theorem added_socket_served_by_stale_revents :
    ¬Always step ReportsOnly (start zeroed 3)
      (round [0] (dataPipeMsg 5) 1 ++ round [0] (tcpAddMsg 10) 3 ++
        round [0, 2] (socketDeleteMsg 10) 2 ++ round [0] (tcpAddMsg 11) 2) := by
  decide +kernel

end OfConnect.PollThr.Dispatch
