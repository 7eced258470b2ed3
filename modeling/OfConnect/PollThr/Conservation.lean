import OfConnect.PollThr.Ownership

/-!
# Outgoing messages inside a poll thread

A thread takes messages off the data pipe, keeps them in `send_msg_htbl` until their
fd is writable and hands them to the fd's `pollout_func`. The log of a run records both
ends. `send_msg_htbl` has one message for an fd, so a second message that arrives before
the first is handed over replaces it: the run conserves messages exactly if that never
happens, and if no message is taken out of the table for an entry that has nothing to
hand it to.

The two halves of `poll_fd_process` are separate steps, in any order and on any entry;
a call of the function is one after the other (`run_pollFdProcess`). No step deletes an
fd, and a read of the data pipe yields one whole message.
-/

namespace OfConnect.PollThr.Conservation

open OfConnect.Lib.Slots OfConnect.Lib.Tables OfConnect.Lib.Run
open OfConnect.PollThr.Thread OfConnect.PollThr.Ownership

/-- A thread with what it received on the data pipe and what it passed to the
`pollout_func` of each fd, oldest first. -/
structure Logged where
  thr : PollthrPrivate
  received : List (Fd × List UInt8)
  passed : List (Fd × List UInt8)

inductive Act where
  | poll (rev : Nat → PollEvents)
  | pollin (i : Nat) (r : PipeReads)
  | pollout (i : Nat)

/-- The entry is served by the data pipe function in this step. -/
def takesData (t : PollthrPrivate) (e : FdInfo) : Bool :=
  pollinSet t e && e.pollinFunc == some .dataPipe

/-- The entry is served by the primary pipe function, with a `DELETE_FD`. -/
def takesDelete (t : PollthrPrivate) (e : FdInfo) (r : PipeReads) : Bool :=
  pollinSet t e && e.pollinFunc == some .priPipe && r.pri.fdAction == .deleteFd

def pollinStep (h : Logged) (e : FdInfo) (r : PipeReads) : Option Logged :=
  if takesDelete h.thr e r then none
  else (pollinProcess h.thr e r).map fun t =>
    { h with
      thr := t
      received := h.received ++ if takesData h.thr e then [(r.dataFd, r.dataInfo.data)] else [] }

def polloutStep (h : Logged) (e : FdInfo) : Option Logged :=
  (polloutProcess h.thr e).map fun q =>
    { h with thr := q.1, passed := h.passed ++ (q.2.map fun info => (e.fd, info.data)).toList }

/-- One step of a thread whose fds are not deleted. -/
def step (h : Logged) : Act → Option Logged
  | .poll rev => some { h with thr := poll h.thr rev }
  | .pollin i r => (h.thr.fdList[i]?).bind fun e => pollinStep h e r
  | .pollout i => (h.thr.fdList[i]?).bind fun e => polloutStep h e

/-- The payloads logged for one fd. -/
def forFd (l : List (Fd × List UInt8)) (fd : Fd) : List (List UInt8) :=
  (l.filter fun x => x.1 == fd).map Prod.snd

/-- The payload still stored for one fd. -/
def pending (t : PollthrPrivate) (fd : Fd) : List (List UInt8) :=
  ((t.sendMsgHtbl.lookup fd).map SendMsgInfo.data).toList

/-- For every fd, what was passed on and then what is stored is what was received. -/
def Conserved (h : Logged) : Prop :=
  ∀ fd, forFd h.passed fd ++ pending h.thr fd = forFd h.received fd

/-- A data-pipe message finds nothing stored for its fd, and a message is taken out of
the table only for an entry with a `pollout_func`. -/
def SendsSafely (h : Logged) : Act → Prop
  | .poll _ => True
  | .pollin i r => ∀ e, h.thr.fdList[i]? = some e →
      takesData h.thr e = true → r.dataFd ∉ h.thr.sendMsgHtbl
  | .pollout i => ∀ e, h.thr.fdList[i]? = some e →
      polloutSet h.thr e = true → e.polloutFunc ≠ none

/-! ## The polled set and the slots of a thread that deletes nothing -/

theorem synced_frame {p : AdminPipes} {t t' : PollthrPrivate} (h : Synced p t)
    (hl : t'.fdList = t.fdList) (hn : t'.numPollfds = t.numPollfds)
    (hfd : ∀ k, (t'.pollfdArr k).fd = (t.pollfdArr k).fd) : Synced p t' := by
  have hp : t'.polled = t.polled := by
    rw [polled_eq_live, polled_eq_live, hn]
    exact live_congr fun i _ => hfd i
  have hf : t'.fds = t.fds := by simp only [PollthrPrivate.fds, hl]
  exact ⟨by rw [hf, hp]; exact h.fds_eq, by rw [hf]; exact h.nodup, by rw [hn]; exact h.two_le,
    by rw [hfd]; exact h.pri, by rw [hfd]; exact h.data⟩

theorem entriesOwned_frame {t t' : PollthrPrivate} (h : EntriesOwned t)
    (hl : t'.fdList = t.fdList) (hn : t'.numPollfds = t.numPollfds)
    (hfd : ∀ k, (t'.pollfdArr k).fd = (t.pollfdArr k).fd) : EntriesOwned t' := by
  intro e he
  rw [hl] at he
  rw [hn, hfd]
  exact h e he

theorem setPollout_apply (arr : Nat → PollFd) (k : Nat) (b : Bool) (i : Nat) :
    setPollout arr k b i =
      if i = k then { arr i with events := { (arr i).events with pollout := b } } else arr i := by
  unfold setPollout
  by_cases h : i = k
  · subst h
    rw [Function.update_self, if_pos rfl]
  · rw [Function.update_of_ne h, if_neg h]

theorem setPollout_fd (arr : Nat → PollFd) (k : Nat) (b : Bool) (i : Nat) :
    (setPollout arr k b i).fd = (arr i).fd := by
  rw [setPollout_apply]
  split <;> rfl

theorem poll_fd (t : PollthrPrivate) (rev : Nat → PollEvents) (i : Nat) :
    ((poll t rev).pollfdArr i).fd = (t.pollfdArr i).fd := by
  simp only [poll]
  split <;> rfl

/-- What the first half of `poll_fd_process` does when it deletes nothing. -/
theorem pollinProcess_cases {t t' : PollthrPrivate} {e : FdInfo} {r : PipeReads}
    (hd : takesDelete t e r = false) (h : pollinProcess t e r = some t') :
    (takesData t e = false ∧ t' = t) ∨
    (takesData t e = false ∧ addFd t r.pri = some t') ∨
    (takesData t e = true ∧ pollthrDataPipeProcessFunc t r.dataFd r.dataInfo = some t') := by
  unfold pollinProcess at h
  unfold takesDelete at hd
  unfold takesData
  cases hset : pollinSet t e with
  | false =>
    rw [hset] at h
    exact Or.inl ⟨rfl, (Option.some.inj h).symm⟩
  | true =>
    rw [hset, if_pos rfl] at h
    rw [hset] at hd
    split at h
    · rename_i hf
      refine Or.inr (Or.inl ⟨by rw [hf]; rfl, ?_⟩)
      cases ha : r.pri.fdAction with
      | addFd => simpa only [pollthrPriPipeProcessFunc, ha] using h
      | deleteFd => simp [hf, ha] at hd
    · rename_i hf
      exact Or.inr (Or.inr ⟨by rw [hf]; rfl, h⟩)
    · rename_i hpri hdata
      refine Or.inl ⟨?_, (Option.some.inj h).symm⟩
      simpa using hdata

theorem dataPipe_eq_some {t t' : PollthrPrivate} {fd : Fd} {info : SendMsgInfo}
    (h : pollthrDataPipeProcessFunc t fd info = some t') :
    ∃ e ∈ t.fdList, e.fd = fd ∧ t' = { t with
      sendMsgHtbl := t.sendMsgHtbl.insert fd info
      pollfdArr := setPollout t.pollfdArr e.pollfdEntry true } := by
  unfold pollthrDataPipeProcessFunc at h
  split at h
  · cases h
  · rename_i e he
    have hfd := List.find?_some he
    exact ⟨e, List.mem_of_find?_eq_some he, by simpa using hfd, (Option.some.inj h).symm⟩

/-- Where the message is found, it is handed over and taken out of the table. -/
theorem polloutProcess_found {t : PollthrPrivate} {e : FdInfo} {info : SendMsgInfo}
    (hset : polloutSet t e = true)
    (hl : t.sendMsgHtbl.lookup (t.pollfdArr e.pollfdEntry).fd = some info) :
    polloutProcess t e = some ({ t with
      sendMsgHtbl := t.sendMsgHtbl.erase (t.pollfdArr e.pollfdEntry).fd
      pollfdArr := setPollout t.pollfdArr e.pollfdEntry false },
      e.polloutFunc.map fun _ => info) := by
  have hgone : (t.pollfdArr e.pollfdEntry).fd ∉
      t.sendMsgHtbl.erase (t.pollfdArr e.pollfdEntry).fd := by simp
  rw [polloutProcess, if_pos hset]
  simp only [hl, if_neg hgone]

/-- What the second half does: nothing, or it takes the message of the slot's fd. -/
theorem polloutProcess_cases {t : PollthrPrivate} {e : FdInfo}
    {q : PollthrPrivate × Option SendMsgInfo} (h : polloutProcess t e = some q) :
    (polloutSet t e = false ∧ q = (t, none)) ∨
    ∃ info, polloutSet t e = true ∧
      t.sendMsgHtbl.lookup (t.pollfdArr e.pollfdEntry).fd = some info ∧
      q = ({ t with
        sendMsgHtbl := t.sendMsgHtbl.erase (t.pollfdArr e.pollfdEntry).fd
        pollfdArr := setPollout t.pollfdArr e.pollfdEntry false },
        e.polloutFunc.map fun _ => info) := by
  cases hset : polloutSet t e with
  | false =>
    rw [polloutProcess, hset] at h
    exact Or.inl ⟨rfl, (Option.some.inj h).symm⟩
  | true =>
    cases hl : t.sendMsgHtbl.lookup (t.pollfdArr e.pollfdEntry).fd with
    | none =>
      rw [polloutProcess, if_pos hset] at h
      simp only [hl] at h
      cases h
    | some info =>
      rw [polloutProcess_found hset hl] at h
      exact Or.inr ⟨info, rfl, rfl, (Option.some.inj h).symm⟩

/-! ## Steps -/

/-- The list and the array agree and every entry owns its slot. -/
def Sound (p : AdminPipes) (h : Logged) : Prop := Synced p h.thr ∧ EntriesOwned h.thr

theorem sound_frame {p : AdminPipes} {h h' : Logged} (hs : Sound p h)
    (hl : h'.thr.fdList = h.thr.fdList) (hn : h'.thr.numPollfds = h.thr.numPollfds)
    (hfd : ∀ k, (h'.thr.pollfdArr k).fd = (h.thr.pollfdArr k).fd) : Sound p h' :=
  ⟨synced_frame hs.1 hl hn hfd, entriesOwned_frame hs.2 hl hn hfd⟩

theorem sound_pollinStep {p : AdminPipes} {h h' : Logged} {e : FdInfo} {r : PipeReads}
    (hs : Sound p h) (hstep : pollinStep h e r = some h') : Sound p h' := by
  unfold pollinStep at hstep
  split at hstep
  · cases hstep
  · rename_i hd
    obtain ⟨t', ht, rfl⟩ := Option.map_eq_some_iff.mp hstep
    rcases pollinProcess_cases (by simpa using hd) ht with ⟨-, rfl⟩ | ⟨-, ha⟩ | ⟨-, hdata⟩
    · exact hs
    · have hsync := synced_addFd hs.1 ha
      refine ⟨hsync, ?_⟩
      obtain ⟨-, hn, -, hlist, -⟩ := addFd_eq_some ha
      have hr := (entriesOwned_iff_range hs.1).mp hs.2
      rw [entriesOwned_iff_range hsync]
      show t'.fdList.map FdInfo.pollfdEntry = List.range t'.numPollfds
      rw [hlist, hn, List.map_append, hr, List.range_succ]
      rfl
    · obtain ⟨e', -, -, rfl⟩ := dataPipe_eq_some hdata
      exact sound_frame hs rfl rfl fun k => setPollout_fd _ _ _ _

theorem sound_polloutStep {p : AdminPipes} {h h' : Logged} {e : FdInfo}
    (hs : Sound p h) (hstep : polloutStep h e = some h') : Sound p h' := by
  obtain ⟨q, hq, rfl⟩ := Option.map_eq_some_iff.mp hstep
  rcases polloutProcess_cases hq with ⟨-, rfl⟩ | ⟨info, -, -, rfl⟩
  · exact hs
  · exact sound_frame hs rfl rfl fun k => setPollout_fd _ _ _ _

theorem sound_step {p : AdminPipes} {h h' : Logged} {a : Act}
    (hs : Sound p h) (hstep : step h a = some h') : Sound p h' := by
  cases a with
  | poll rev =>
    obtain rfl := Option.some.inj hstep
    exact sound_frame hs rfl rfl fun k => poll_fd _ _ _
  | pollin i r =>
    obtain ⟨e, -, hstep⟩ := Option.bind_eq_some_iff.mp hstep
    exact sound_pollinStep hs hstep
  | pollout i =>
    obtain ⟨e, -, hstep⟩ := Option.bind_eq_some_iff.mp hstep
    exact sound_polloutStep hs hstep

theorem forFd_append (l m : List (Fd × List UInt8)) (fd : Fd) :
    forFd (l ++ m) fd = forFd l fd ++ forFd m fd := by
  simp [forFd]

theorem forFd_single (fd fd' : Fd) (d : List UInt8) :
    forFd [(fd', d)] fd = if fd = fd' then [d] else [] := by
  by_cases h : fd = fd'
  · simp [forFd, h]
  · simp [forFd, h, Ne.symm h]

theorem pending_nil {t : PollthrPrivate} {fd : Fd} (h : fd ∉ t.sendMsgHtbl) : pending t fd = [] := by
  simp [pending, AList.lookup_eq_none.mpr h]

/-- A message that arrives keeps the count exactly if nothing was stored for its fd. -/
theorem conserved_receive_iff {h h' : Logged} (fd : Fd) (info : SendMsgInfo) (hc : Conserved h)
    (hp : h'.passed = h.passed) (hr : h'.received = h.received ++ [(fd, info.data)])
    (ht : h'.thr.sendMsgHtbl = h.thr.sendMsgHtbl.insert fd info) :
    Conserved h' ↔ fd ∉ h.thr.sendMsgHtbl := by
  have hnew : ∀ f, pending h'.thr f = if f = fd then [info.data] else pending h.thr f := by
    intro f
    unfold pending
    rw [ht, lookup_insert_eq]
    split <;> rfl
  constructor
  · intro hc' hmem
    obtain ⟨old, hold⟩ := Option.isSome_iff_exists.mp (AList.lookup_isSome.mpr hmem)
    have h1 := congrArg List.length (hc fd)
    have h2 := congrArg List.length (hc' fd)
    rw [hp, hr, forFd_append, forFd_single, if_pos rfl, hnew, if_pos rfl] at h2
    simp only [pending, hold, List.length_append, Option.map_some, Option.toList_some,
      List.length_singleton] at h1 h2
    omega
  · intro hmem f
    rw [hp, hr, forFd_append, forFd_single, hnew, ← hc f]
    by_cases hf : f = fd
    · subst hf
      rw [if_pos rfl, if_pos rfl, pending_nil hmem, List.append_nil]
    · rw [if_neg hf, if_neg hf, List.append_nil]

/-- A message that leaves the table keeps the count exactly if it was passed on. -/
theorem conserved_take_iff {h h' : Logged} {fd : Fd} {info : SendMsgInfo}
    {f : Option FdProcessFunc} (hc : Conserved h)
    (hl : h.thr.sendMsgHtbl.lookup fd = some info) (hr : h'.received = h.received)
    (hp : h'.passed = h.passed ++ ((f.map fun _ => info).map fun i => (fd, i.data)).toList)
    (ht : h'.thr.sendMsgHtbl = h.thr.sendMsgHtbl.erase fd) :
    Conserved h' ↔ f ≠ none := by
  have hnew : ∀ g, pending h'.thr g = if g = fd then [] else pending h.thr g := by
    intro g
    unfold pending
    rw [ht, lookup_erase_eq]
    split <;> rfl
  have hold : pending h.thr fd = [info.data] := by simp [pending, hl]
  cases f with
  | none =>
    refine ⟨fun hc' => ?_, fun hne => absurd rfl hne⟩
    have h1 := congrArg List.length (hc fd)
    have h2 := congrArg List.length (hc' fd)
    rw [hold] at h1
    rw [hr, hp, hnew, if_pos rfl] at h2
    simp only [Option.map_none, Option.toList_none, List.append_nil, List.length_append,
      List.length_singleton] at h1 h2
    omega
  | some f =>
    refine ⟨fun _ => by simp, fun _ g => ?_⟩
    rw [hr, hp, ← hc g, hnew]
    simp only [Option.map_some, Option.toList_some, forFd_append, forFd_single]
    by_cases hg : g = fd
    · subst hg
      rw [if_pos rfl, if_pos rfl, hold, List.append_nil]
    · rw [if_neg hg, if_neg hg, List.append_nil]

theorem conserved_congr {h h' : Logged} (hp : h'.passed = h.passed)
    (hr : h'.received = h.received) (ht : h'.thr.sendMsgHtbl = h.thr.sendMsgHtbl) :
    Conserved h' ↔ Conserved h := by
  unfold Conserved pending
  rw [hp, hr, ht]

theorem conserved_pollin_iff {h h' : Logged} {e : FdInfo} {r : PipeReads} (hc : Conserved h)
    (hstep : pollinStep h e r = some h') :
    Conserved h' ↔ (takesData h.thr e = true → r.dataFd ∉ h.thr.sendMsgHtbl) := by
  unfold pollinStep at hstep
  split at hstep
  · cases hstep
  · rename_i hd
    obtain ⟨t', ht, rfl⟩ := Option.map_eq_some_iff.mp hstep
    rcases pollinProcess_cases (by simpa using hd) ht with ⟨hno, rfl⟩ | ⟨hno, ha⟩ | ⟨hyes, hdata⟩
    · refine iff_of_true ((conserved_congr (h := h) ?_ ?_ ?_).mpr hc) (by simp [hno])
      · rfl
      · simp [hno]
      · rfl
    · obtain ⟨-, -, -, -, htbl⟩ := addFd_eq_some ha
      refine iff_of_true ((conserved_congr (h := h) ?_ ?_ htbl).mpr hc) (by simp [hno])
      · rfl
      · simp [hno]
    · obtain ⟨e', -, -, rfl⟩ := dataPipe_eq_some hdata
      refine (conserved_receive_iff r.dataFd r.dataInfo hc ?_ ?_ ?_).trans (by simp [hyes])
      · rfl
      · simp [hyes]
      · rfl

theorem conserved_pollout_iff {p : AdminPipes} {h h' : Logged} {e : FdInfo} (hs : Sound p h)
    (he : e ∈ h.thr.fdList) (hc : Conserved h) (hstep : polloutStep h e = some h') :
    Conserved h' ↔ (polloutSet h.thr e = true → e.polloutFunc ≠ none) := by
  obtain ⟨q, hq, rfl⟩ := Option.map_eq_some_iff.mp hstep
  -- the slot the message is looked up under is the entry's own
  have hown := (hs.2 e he).2
  rcases polloutProcess_cases hq with ⟨hno, rfl⟩ | ⟨info, hyes, hl, rfl⟩
  · refine iff_of_true ((conserved_congr (h := h) ?_ ?_ ?_).mpr hc) (by simp [hno])
    · simp
    · rfl
    · rfl
  · rw [hown] at hl
    refine (conserved_take_iff (h := h) (f := e.polloutFunc) hc hl ?_ ?_ ?_).trans (by simp [hyes])
    · rfl
    · rfl
    · simp only [hown]

theorem conserved_step_iff {p : AdminPipes} {h h' : Logged} {a : Act} (hs : Sound p h)
    (hc : Conserved h) (hstep : step h a = some h') : Conserved h' ↔ SendsSafely h a := by
  cases a with
  | poll rev =>
    obtain rfl := Option.some.inj hstep
    exact iff_of_true ((conserved_congr rfl rfl rfl).mpr hc) trivial
  | pollin i r =>
    obtain ⟨e, he, hstep⟩ := Option.bind_eq_some_iff.mp hstep
    rw [conserved_pollin_iff hc hstep]
    simp [SendsSafely, he]
  | pollout i =>
    obtain ⟨e, he, hstep⟩ := Option.bind_eq_some_iff.mp hstep
    rw [conserved_pollout_iff hs (List.mem_of_getElem? he) hc hstep]
    simp [SendsSafely, he]

/-- A new thread, with empty logs. -/
def start (arr : Nat → PollFd) (p : AdminPipes) : Logged := ⟨newThread arr p, [], []⟩

/-- Every message is passed on once and in order, or still stored, throughout a run exactly
if no message arrives for an fd that has one stored and none is taken for an entry without a
`pollout_func`. -/
theorem messages_conserved_iff_sends_safely (arr : Nat → PollFd) (p : AdminPipes)
    (acts : List Act) :
    Always step Conserved (start arr p) acts ↔ Guarded step SendsSafely (start arr p) acts :=
  always_iff_guarded_of_invariant (fun _ _ _ hs hstep => sound_step hs hstep)
    (fun _ _ _ hs hc hstep => conserved_step_iff hs hc hstep)
    ⟨synced_newThread arr p, entriesOwned_newThread arr p⟩ (fun _ => rfl) acts

/-- `POLLIN` on the slots `p` picks out. -/
def pollinOn (p : Nat → Bool) : Act := .poll fun k => ⟨p k, false⟩

/-- Two messages for fd 10 are read before it is writable: the first is gone. -/
theorem second_send_replaces_first :
    ∃ h, run step (start (fun _ => ⟨0, ⟨false, false⟩, ⟨false, false⟩⟩) ⟨3, 5, by decide⟩)
        [pollinOn (· == 0), .pollin 0 ⟨tcpAddMsg 10, 0, ⟨0, 0, []⟩⟩,
          pollinOn (· == 1), .pollin 1 ⟨tcpAddMsg 0, 10, ⟨0, 0, [1]⟩⟩,
          pollinOn (· == 1), .pollin 1 ⟨tcpAddMsg 0, 10, ⟨0, 0, [2]⟩⟩] = some h ∧
      ¬Conserved h := by
  refine ⟨_, rfl, fun hc => ?_⟩
  have h10 := hc 10
  revert h10
  decide

/-- One call of `poll_fd_process` is its two halves on the same entry. -/
theorem run_pollFdProcess {h : Logged} {i : Nat} {e : FdInfo} {r : PipeReads}
    {q : PollthrPrivate × Option SendMsgInfo} (he : h.thr.fdList[i]? = some e)
    (hd : takesDelete h.thr e r = false) (hq : pollFdProcess h.thr e r = some q) :
    ∃ h', run step h [.pollin i r, .pollout i] = some h' ∧ h'.thr = q.1 := by
  obtain ⟨t, ht, hq⟩ := Option.bind_eq_some_iff.mp hq
  -- an entry keeps its place: additions go to the end of the list
  have he' : t.fdList[i]? = some e := by
    rcases pollinProcess_cases hd ht with ⟨-, rfl⟩ | ⟨-, ha⟩ | ⟨-, hdata⟩
    · exact he
    · obtain ⟨-, -, -, hlist, -⟩ := addFd_eq_some ha
      obtain ⟨hi, hget⟩ := List.getElem?_eq_some_iff.mp he
      rw [hlist, List.getElem?_append_left hi, he]
    · obtain ⟨e', -, -, rfl⟩ := dataPipe_eq_some hdata
      exact he
  have hin : ∃ h₁, step h (.pollin i r) = some h₁ ∧ h₁.thr = t := by
    simp [step, he, pollinStep, hd, ht]
  obtain ⟨h₁, hin, rfl⟩ := hin
  have hout : ∃ h₂, step h₁ (.pollout i) = some h₂ ∧ h₂.thr = q.1 := by
    simp [step, he', polloutStep, hq]
  obtain ⟨h₂, hout, hthr⟩ := hout
  refine ⟨h₂, ?_, hthr⟩
  rw [run_cons, hin, Option.bind_some, run_cons, hout, Option.bind_some, run_nil]

end OfConnect.PollThr.Conservation
