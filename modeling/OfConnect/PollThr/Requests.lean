import OfConnect.PollThr.Ownership

/-!
# Requests and their acknowledgement

`adp_thr_mgr_add_del_fd` writes its message to the primary pipe and waits on the condition
variable of the manager, with the mutex held from before the write on. The poll thread
applies a message and then signals. All callers wait on the one condition variable, and
nothing tells a caller whose message the signal is for: with two of them waiting, it is the
scheduler that decides which one returns.

A message is shorter than `PIPE_BUF`, so that it is written and read as a whole.
-/

namespace OfConnect.PollThr.Requests

open OfConnect.Lib.Slots OfConnect.Lib.Run OfConnect.PollThr.Thread OfConnect.PollThr.Ownership

/-- A message for a socket. The kernel gives no socket the number of an open pipe. -/
structure SocketRequest (p : AdminPipes) where
  msg : ThrMsg
  socket : msg.fdType = .socket
  offPri : msg.fd ≠ p.priRd
  offData : msg.fd ≠ p.dataRd

/-- Where a call of `adp_thr_mgr_add_del_fd` stands, named by what it does next. -/
inductive Pc where
  | call
  | lock
  | write
  | wait
  | waiting
  | relock
  | unlock
  | leave
  | returned
  | refused
  deriving DecidableEq, Repr

/-- Where the poll thread stands: at `poll`, or on its way to acknowledge a message. -/
inductive PollPc where
  | poll
  | lock
  | signal
  | unlock
  deriving DecidableEq, Repr

inductive Owner (ι : Type) where
  | caller (i : ι)
  | pollThr
  deriving DecidableEq, Repr

/-- A manager, its thread and the calls. `pipe` is the primary pipe, each message under the
name of its call. `applied` and `returns` record which messages have been applied, and the
thread as each call found it on return. -/
structure Sys (ι : Type) where
  numSockets : UInt16
  maxSockets : UInt32
  thr : PollthrPrivate
  pipe : List ι
  mutex : Option (Owner ι)
  waiters : List ι
  pc : ι → Pc
  poll : PollPc
  applied : List ι
  returns : List (ι × PollthrPrivate)

inductive Act (ι : Type) where
  | call (i : ι)
  | lock (i : ι)
  | write (i : ι)
  | wait (i : ι)
  | relock (i : ι)
  | unlock (i : ι)
  | leave (i : ι)
  | apply
  | pollLock
  | signal (woken : Option ι)
  | pollUnlock
  deriving DecidableEq, Repr

section

variable {ι : Type} [DecidableEq ι]

def Sys.goto (s : Sys ι) (i : ι) (pc : Pc) : Sys ι := { s with pc := Function.update s.pc i pc }

def start (arr : Nat → PollFd) (p : AdminPipes) (maxSockets : UInt32) : Sys ι where
  numSockets := 0
  maxSockets := maxSockets
  thr := newThread arr p
  pipe := []
  mutex := none
  waiters := []
  pc := fun _ => .call
  poll := .poll
  applied := []
  returns := []

variable {p : AdminPipes} (reqs : ι → SocketRequest p)

/-- `adp_thr_mgr_add_del_fd` up to `g_mutex_lock`. -/
def enterCall (s : Sys ι) (i : ι) : Sys ι :=
  match (reqs i).msg.fdAction with
  | .addFd =>
    if s.numSockets.toUInt32 = s.maxSockets then s.goto i .refused
    else { s with numSockets := s.numSockets + 1 }.goto i .lock
  | .deleteFd => s.goto i .lock

/-- `adp_thr_mgr_add_del_fd` after `g_mutex_unlock`. -/
def leaveCall (s : Sys ι) (i : ι) : Sys ι :=
  let numSockets :=
    match (reqs i).msg.fdAction with
    | .addFd => s.numSockets
    | .deleteFd => s.numSockets - 1
  { s with numSockets := numSockets, returns := s.returns ++ [(i, s.thr)] }.goto i .returned

def step (s : Sys ι) : Act ι → Option (Sys ι)
  | .call i => if s.pc i = .call then some (enterCall reqs s i) else none
  | .lock i =>
    if s.pc i = .lock ∧ s.mutex = none then
      some ({ s with mutex := some (.caller i) }.goto i .write)
    else none
  | .write i =>
    if s.pc i = .write then some ({ s with pipe := s.pipe ++ [i] }.goto i .wait) else none
  | .wait i =>  -- `g_cond_wait` gives the mutex back
    if s.pc i = .wait then
      some ({ s with mutex := none, waiters := s.waiters ++ [i] }.goto i .waiting)
    else none
  | .relock i =>  -- and takes it again before it returns
    if s.pc i = .relock ∧ s.mutex = none then
      some ({ s with mutex := some (.caller i) }.goto i .unlock)
    else none
  | .unlock i =>
    if s.pc i = .unlock then some ({ s with mutex := none }.goto i .leave) else none
  | .leave i => if s.pc i = .leave then some (leaveCall reqs s i) else none
  | .apply =>
    match s.poll, s.pipe with
    | .poll, i :: rest => (pollthrPriPipeProcessFunc s.thr (reqs i).msg).map fun t =>
        { s with thr := t, pipe := rest, applied := s.applied ++ [i], poll := .lock }
    | _, _ => none
  | .pollLock =>
    if s.poll = .lock ∧ s.mutex = none then
      some { s with mutex := some .pollThr, poll := .signal }
    else none
  | .signal woken =>
    if s.poll = .signal then
      match woken with
      | none => if s.waiters = [] then some { s with poll := .unlock } else none
      | some w =>
        if w ∈ s.waiters then
          some ({ s with waiters := s.waiters.erase w, poll := .unlock }.goto w .relock)
        else none
    else none
  | .pollUnlock =>
    if s.poll = .unlock then some { s with mutex := none, poll := .poll } else none

/-- What a request is for: the thread polls the socket after `ADD_FD` and does not after
`DELETE_FD`. -/
def Effect (msg : ThrMsg) (t : PollthrPrivate) : Prop :=
  match msg.fdAction with
  | .addFd => msg.fd ∈ t.fds ∧ msg.fd ∈ t.polled
  | .deleteFd => msg.fd ∉ t.fds ∧ msg.fd ∉ t.polled

/-- A call has returned only after its own message was applied, and found its effect. -/
def Matched (s : Sys ι) : Prop :=
  (∀ i, s.pc i = .returned → i ∈ s.applied) ∧ ∀ r ∈ s.returns, Effect (reqs r.1).msg r.2

/-- The call has been woken and has not returned. -/
def Pc.returning : Pc → Bool
  | .relock | .unlock | .leave => true
  | _ => false

/-- A message is written while no other call waits for its acknowledgement, and none for
the same socket is on its way back. -/
def NoOverlap (s : Sys ι) : Act ι → Prop
  | .write i => s.waiters = [] ∧
      ∀ j, j ≠ i → (s.pc j).returning = true → (reqs j).msg.fd ≠ (reqs i).msg.fd
  | _ => True

omit [DecidableEq ι] in
theorem effect_iff {t : PollthrPrivate} (h : Synced p t) (msg : ThrMsg) :
    Effect msg t ↔ (msg.fd ∈ t.fds ↔ msg.fdAction = .addFd) := by
  unfold Effect
  rw [← h.fds_eq, and_self, and_self]
  cases msg.fdAction with
  | addFd => simp
  | deleteFd => simp

/-- A message does what it is for, and leaves the other sockets alone. -/
theorem apply_spec {t t' : PollthrPrivate} (r : SocketRequest p) (h : Synced p t)
    (ha : pollthrPriPipeProcessFunc t r.msg = some t') :
    Synced p t' ∧ Effect r.msg t' ∧ ∀ fd, fd ≠ r.msg.fd → (fd ∈ t'.fds ↔ fd ∈ t.fds) := by
  have hs : priPipeStep p t r.msg = some t' := by
    unfold priPipeStep
    rw [if_neg fun hadmin => hadmin.2.elim r.offPri r.offData]
    exact ha
  have hsync := synced_step h hs
  refine ⟨hsync, ?_⟩
  rw [effect_iff hsync]
  rcases priPipeStep_cases h hs with ⟨hact, hadd⟩ | ⟨hact, hnot, rfl⟩ | ⟨d, hact, -, hd, hfd, rfl⟩
  · rw [fds_addFd hadd, hact]
    refine ⟨by simp, fun fd hne => ?_⟩
    simp [hne]
  · rw [← h.fds_eq] at hnot
    rw [hact]
    exact ⟨iff_of_false hnot nofun, fun _ _ => Iff.rfl⟩
  · have hlen : d < t.fds.length := by
      rw [h.fds_eq, length_polled]
      exact hd
    have hget : t.fds[d] = r.msg.fd := by
      have hpol : t.polled[d]? = some r.msg.fd := by
        rw [polled_eq_live, getElem?_live _ hd, hfd]
      rw [← h.fds_eq, List.getElem?_eq_getElem hlen] at hpol
      exact Option.some.inj hpol
    have hmem : ∀ fd, fd ∈ (t.fdList.eraseIdx d).map FdInfo.fd ↔ fd ∈ t.fds ∧ fd ≠ r.msg.fd := by
      intro fd
      rw [← List.eraseIdx_map, ← hget, and_comm]
      show fd ∈ t.fds.eraseIdx d ↔ _
      rw [← h.nodup.erase_getElem d hlen]
      exact h.nodup.mem_erase_iff
    rw [hact]
    refine ⟨iff_of_false (fun hin => ((hmem _).mp hin).2 rfl) nofun, fun fd hne => ?_⟩
    exact (hmem fd).trans (and_iff_left hne)

/-! ## Steps -/

/-- What each step finds and what it does. -/
def Steps (s s' : Sys ι) : Act ι → Prop
  | .call i => s.pc i = .call ∧
      ∃ n pc, (pc = .lock ∨ pc = .refused) ∧ s' = { s with numSockets := n }.goto i pc
  | .lock i => s.pc i = .lock ∧ s.mutex = none ∧
      s' = { s with mutex := some (.caller i) }.goto i .write
  | .write i => s.pc i = .write ∧ s' = { s with pipe := s.pipe ++ [i] }.goto i .wait
  | .wait i => s.pc i = .wait ∧
      s' = { s with mutex := none, waiters := s.waiters ++ [i] }.goto i .waiting
  | .relock i => s.pc i = .relock ∧ s.mutex = none ∧
      s' = { s with mutex := some (.caller i) }.goto i .unlock
  | .unlock i => s.pc i = .unlock ∧ s' = { s with mutex := none }.goto i .leave
  | .leave i => s.pc i = .leave ∧ ∃ n,
      s' = { s with numSockets := n, returns := s.returns ++ [(i, s.thr)] }.goto i .returned
  | .apply => s.poll = .poll ∧ ∃ i rest t, s.pipe = i :: rest ∧
      pollthrPriPipeProcessFunc s.thr (reqs i).msg = some t ∧
      s' = { s with thr := t, pipe := rest, applied := s.applied ++ [i], poll := .lock }
  | .pollLock => s.poll = .lock ∧ s.mutex = none ∧
      s' = { s with mutex := some .pollThr, poll := .signal }
  | .signal none => s.poll = .signal ∧ s.waiters = [] ∧ s' = { s with poll := .unlock }
  | .signal (some w) => s.poll = .signal ∧ w ∈ s.waiters ∧
      s' = { s with waiters := s.waiters.erase w, poll := .unlock }.goto w .relock
  | .pollUnlock => s.poll = .unlock ∧ s' = { s with mutex := none, poll := .poll }

theorem step_cases {s s' : Sys ι} {a : Act ι} (hs : step reqs s a = some s') :
    Steps reqs s s' a := by
  cases a with
  | call i =>
    simp only [step, enterCall, Option.ite_none_right_eq_some, Option.some.injEq] at hs
    obtain ⟨hpc, rfl⟩ := hs
    refine ⟨hpc, ?_⟩
    split
    · split
      · exact ⟨_, _, .inr rfl, rfl⟩
      · exact ⟨_, _, .inl rfl, rfl⟩
    · exact ⟨_, _, .inl rfl, rfl⟩
  | lock i =>
    simp only [step, Option.ite_none_right_eq_some, Option.some.injEq] at hs
    exact ⟨hs.1.1, hs.1.2, hs.2.symm⟩
  | write i =>
    simp only [step, Option.ite_none_right_eq_some, Option.some.injEq] at hs
    exact ⟨hs.1, hs.2.symm⟩
  | wait i =>
    simp only [step, Option.ite_none_right_eq_some, Option.some.injEq] at hs
    exact ⟨hs.1, hs.2.symm⟩
  | relock i =>
    simp only [step, Option.ite_none_right_eq_some, Option.some.injEq] at hs
    exact ⟨hs.1.1, hs.1.2, hs.2.symm⟩
  | unlock i =>
    simp only [step, Option.ite_none_right_eq_some, Option.some.injEq] at hs
    exact ⟨hs.1, hs.2.symm⟩
  | leave i =>
    simp only [step, Option.ite_none_right_eq_some, Option.some.injEq] at hs
    exact ⟨hs.1, _, hs.2.symm⟩
  | apply =>
    simp only [step] at hs
    split at hs
    · rename_i i rest hpoll hpipe
      obtain ⟨t, ht, rfl⟩ := Option.map_eq_some_iff.mp hs
      exact ⟨hpoll, i, rest, t, hpipe, ht, rfl⟩
    · cases hs
  | pollLock =>
    simp only [step, Option.ite_none_right_eq_some, Option.some.injEq] at hs
    exact ⟨hs.1.1, hs.1.2, hs.2.symm⟩
  | signal woken =>
    cases woken with
    | none =>
      simp only [step, Option.ite_none_right_eq_some, Option.some.injEq] at hs
      exact ⟨hs.1, hs.2.1, hs.2.2.symm⟩
    | some w =>
      simp only [step, Option.ite_none_right_eq_some, Option.some.injEq] at hs
      exact ⟨hs.1, hs.2.1, hs.2.2.symm⟩
  | pollUnlock =>
    simp only [step, Option.ite_none_right_eq_some, Option.some.injEq] at hs
    exact ⟨hs.1, hs.2.symm⟩

theorem pc_goto (s : Sys ι) (i j : ι) (pc : Pc) :
    (s.goto i pc).pc j = if j = i then pc else s.pc j :=
  Function.update_apply _ _ _ _

/-! ## The mutex and the waiters -/

def Pc.holds : Pc → Bool
  | .write | .wait | .unlock => true
  | _ => false

def PollPc.holds : PollPc → Bool
  | .signal | .unlock => true
  | _ => false

/-- The mutex has the owner that the threads take it to have, and a call is among the
waiters exactly while it waits. -/
structure Locked (s : Sys ι) : Prop where
  caller : ∀ i, (s.pc i).holds = true ↔ s.mutex = some (.caller i)
  pollThr : s.poll.holds = true ↔ s.mutex = some .pollThr
  waiting : ∀ i, i ∈ s.waiters ↔ s.pc i = .waiting
  nodup : s.waiters.Nodup

/-- A call goes on: it keeps the mutex or its absence, takes it where it is free, or releases
it. -/
theorem Locked.goto {s s' : Sys ι} (h : Locked s) {i : ι} {pc : Pc}
    (hpoll : s'.poll = s.poll) (hpc : ∀ j, s'.pc j = if j = i then pc else s.pc j)
    (hmutex : (s'.mutex = s.mutex ∧ pc.holds = (s.pc i).holds) ∨
      (s.mutex = none ∧ s'.mutex = some (.caller i) ∧ pc.holds = true) ∨
      (s.mutex = some (.caller i) ∧ s'.mutex = none ∧ pc.holds = false))
    (hwaiting : ∀ j, j ∈ s'.waiters ↔ s'.pc j = .waiting) (hnodup : s'.waiters.Nodup) :
    Locked s' := by
  refine ⟨fun j => ?_, ?_, hwaiting, hnodup⟩
  · rw [hpc]
    by_cases hj : j = i
    · rw [if_pos hj, hj]
      rcases hmutex with ⟨hm, hh⟩ | ⟨-, hm, hh⟩ | ⟨-, hm, hh⟩
      · rw [hm, hh]
        exact h.caller i
      · exact iff_of_true hh hm
      · rw [hm, hh]
        exact iff_of_false nofun nofun
    · have hother : ¬(some (Owner.caller i) = some (Owner.caller j)) :=
        fun heq => hj (Owner.caller.inj (Option.some.inj heq)).symm
      rw [if_neg hj, h.caller j]
      rcases hmutex with ⟨hm, -⟩ | ⟨hfree, hm, -⟩ | ⟨hmine, hm, -⟩
      · rw [hm]
      · rw [hfree, hm]
        exact iff_of_false nofun hother
      · rw [hmine, hm]
        exact iff_of_false hother nofun
  · rw [hpoll, h.pollThr]
    rcases hmutex with ⟨hm, -⟩ | ⟨hfree, hm, -⟩ | ⟨hmine, hm, -⟩
    · rw [hm]
    · rw [hfree, hm]
      exact iff_of_false nofun nofun
    · rw [hmine, hm]
      exact iff_of_false nofun nofun

/-- The waiters stay where a call goes on that neither waits nor begins to. -/
theorem Locked.waiting_goto {s : Sys ι} (h : Locked s) {i : ι} {pc : Pc} (hold : s.pc i ≠ .waiting)
    (hnew : pc ≠ .waiting) (j : ι) : j ∈ s.waiters ↔ (s.goto i pc).pc j = .waiting := by
  rw [h.waiting, pc_goto]
  by_cases hj : j = i
  · rw [if_pos hj, hj]
    exact iff_of_false hold hnew
  · rw [if_neg hj]

theorem locked_step {s s' : Sys ι} {a : Act ι} (h : Locked s) (hs : step reqs s a = some s') :
    Locked s' := by
  have hs := step_cases reqs hs
  cases a with
  | call i =>
    obtain ⟨hpc, n, pc, hor, rfl⟩ := hs
    have hnew : pc.holds = false ∧ pc ≠ .waiting := by
      rcases hor with rfl | rfl
      · exact ⟨rfl, nofun⟩
      · exact ⟨rfl, nofun⟩
    refine h.goto rfl (pc_goto _ i · pc) (.inl ⟨rfl, ?_⟩)
      (h.waiting_goto (by rw [hpc]; nofun) hnew.2) h.nodup
    rw [hnew.1, hpc]
    rfl
  | lock i =>
    obtain ⟨hpc, hfree, rfl⟩ := hs
    exact h.goto rfl (pc_goto _ i · .write) (.inr (.inl ⟨hfree, rfl, rfl⟩))
      (h.waiting_goto (by rw [hpc]; nofun) nofun) h.nodup
  | write i =>
    obtain ⟨hpc, rfl⟩ := hs
    exact h.goto rfl (pc_goto _ i · .wait) (.inl ⟨rfl, by rw [hpc]; rfl⟩)
      (h.waiting_goto (by rw [hpc]; nofun) nofun) h.nodup
  | wait i =>
    obtain ⟨hpc, rfl⟩ := hs
    have hmine := (h.caller i).mp (by rw [hpc]; rfl)
    have hnew : i ∉ s.waiters := by
      rw [h.waiting, hpc]
      nofun
    refine h.goto rfl (pc_goto _ i · .waiting) (.inr (.inr ⟨hmine, rfl, rfl⟩)) (fun j => ?_) ?_
    · rw [pc_goto]
      show j ∈ s.waiters ++ [i] ↔ _
      rw [List.mem_append, List.mem_singleton, h.waiting]
      by_cases hj : j = i
      · rw [if_pos hj]
        exact iff_of_true (.inr hj) rfl
      · rw [if_neg hj]
        exact or_iff_left hj
    · show (s.waiters ++ [i]).Nodup
      rw [← List.concat_eq_append]
      exact h.nodup.concat hnew
  | relock i =>
    obtain ⟨hpc, hfree, rfl⟩ := hs
    exact h.goto rfl (pc_goto _ i · .unlock) (.inr (.inl ⟨hfree, rfl, rfl⟩))
      (h.waiting_goto (by rw [hpc]; nofun) nofun) h.nodup
  | unlock i =>
    obtain ⟨hpc, rfl⟩ := hs
    have hmine := (h.caller i).mp (by rw [hpc]; rfl)
    exact h.goto rfl (pc_goto _ i · .leave) (.inr (.inr ⟨hmine, rfl, rfl⟩))
      (h.waiting_goto (by rw [hpc]; nofun) nofun) h.nodup
  | leave i =>
    obtain ⟨hpc, n, rfl⟩ := hs
    exact h.goto rfl (pc_goto _ i · .returned) (.inl ⟨rfl, by rw [hpc]; rfl⟩)
      (h.waiting_goto (by rw [hpc]; nofun) nofun) h.nodup
  | apply =>
    obtain ⟨hpoll, i, rest, t, -, -, rfl⟩ := hs
    have hp := h.pollThr
    rw [hpoll] at hp
    exact ⟨h.caller, hp, h.waiting, h.nodup⟩
  | pollLock =>
    obtain ⟨hpoll, hfree, rfl⟩ := hs
    refine ⟨fun j => ?_, iff_of_true rfl rfl, h.waiting, h.nodup⟩
    rw [h.caller, hfree]
    exact iff_of_false nofun nofun
  | signal woken =>
    have hp := h.pollThr
    cases woken with
    | none =>
      obtain ⟨hpoll, -, rfl⟩ := hs
      rw [hpoll] at hp
      exact ⟨h.caller, hp, h.waiting, h.nodup⟩
    | some w =>
      obtain ⟨hpoll, hwait, rfl⟩ := hs
      rw [hpoll] at hp
      have hw := (h.waiting w).mp hwait
      -- the poll thread goes on first, and then the call that it wakes
      have hgone : Locked { s with poll := .unlock } := ⟨h.caller, hp, h.waiting, h.nodup⟩
      refine hgone.goto rfl (pc_goto _ w · .relock) (.inl ⟨rfl, ?_⟩) (fun j => ?_) (h.nodup.erase w)
      · show Pc.holds .relock = (s.pc w).holds
        rw [hw]
        rfl
      · rw [pc_goto]
        show j ∈ s.waiters.erase w ↔ _
        rw [h.nodup.mem_erase_iff, h.waiting]
        by_cases hj : j = w
        · rw [if_pos hj]
          exact iff_of_false (fun hne => hne.1 hj) nofun
        · rw [if_neg hj]
          exact and_iff_right hj
  | pollUnlock =>
    obtain ⟨hpoll, rfl⟩ := hs
    have hp := h.pollThr
    rw [hpoll] at hp
    have hmine := hp.mp rfl
    refine ⟨fun j => ?_, iff_of_false nofun nofun, h.waiting, h.nodup⟩
    rw [h.caller, hmine]
    exact iff_of_false nofun nofun

/-! ## One exchange at a time -/

/-- The message is written and the call has not been woken. -/
def Pc.sent : Pc → Bool
  | .wait | .waiting => true
  | _ => false

/-- At most one message is under way, and it is that of the only call that waits. -/
structure Exchange (s : Sys ι) : Prop where
  synced : Synced p s.thr
  one : ∀ i j, (s.pc i).sent = true → (s.pc j).sent = true → i = j
  quiet : (∀ i, (s.pc i).sent = false) → s.pipe = [] ∧ (s.poll = .poll ∨ s.poll = .unlock)
  sent : ∀ i, (s.pc i).sent = true →
    (s.pipe = [i] ∧ s.poll = .poll ∧
      ∀ j, (s.pc j).returning = true → (reqs j).msg.fd ≠ (reqs i).msg.fd) ∨
    (s.pipe = [] ∧ (s.poll = .lock ∨ s.poll = .signal) ∧ i ∈ s.applied ∧
      Effect (reqs i).msg s.thr)
  back : ∀ i, (s.pc i).returning = true → i ∈ s.applied ∧ Effect (reqs i).msg s.thr
  returned : ∀ i, s.pc i = .returned → i ∈ s.applied
  effects : ∀ r ∈ s.returns, Effect (reqs r.1).msg r.2

/-- A call that goes on without crossing the exchange. -/
theorem Exchange.goto {s s' : Sys ι} (h : Exchange reqs s) {i : ι} {pc : Pc}
    (hthr : s'.thr = s.thr) (hpipe : s'.pipe = s.pipe) (hpoll : s'.poll = s.poll)
    (happ : s'.applied = s.applied) (hret : s'.returns = s.returns)
    (hpc : ∀ j, s'.pc j = if j = i then pc else s.pc j)
    (hsent : pc.sent = (s.pc i).sent) (hback : pc.returning = (s.pc i).returning)
    (hdone : pc ≠ .returned) : Exchange reqs s' := by
  have hsame : ∀ j, (s'.pc j).sent = (s.pc j).sent ∧ (s'.pc j).returning = (s.pc j).returning := by
    intro j
    rw [hpc]
    by_cases hj : j = i
    · rw [if_pos hj, hj]
      exact ⟨hsent, hback⟩
    · rw [if_neg hj]
      exact ⟨rfl, rfl⟩
  refine ⟨?_, ?_, ?_, ?_, ?_, ?_, ?_⟩
  · rw [hthr]
    exact h.synced
  · intro j k hj hk
    rw [(hsame _).1] at hj hk
    exact h.one j k hj hk
  · intro hnone
    rw [hpipe, hpoll]
    exact h.quiet fun j => (hsame j).1 ▸ hnone j
  · intro j hj
    rw [(hsame j).1] at hj
    rw [hpipe, hpoll, happ, hthr]
    rcases h.sent j hj with ⟨hp, hq, hfds⟩ | hother
    · exact .inl ⟨hp, hq, fun k hk => hfds k ((hsame k).2 ▸ hk)⟩
    · exact .inr hother
  · intro j hj
    rw [(hsame j).2] at hj
    rw [happ, hthr]
    exact h.back j hj
  · intro j hj
    rw [happ]
    rw [hpc] at hj
    split at hj
    · exact absurd hj hdone
    · exact h.returned j hj
  · rw [hret]
    exact h.effects

omit [DecidableEq ι] in
/-- Something is under way, so a call waits for it. -/
theorem Exchange.exists_sent {s : Sys ι} (h : Exchange reqs s)
    (hbusy : ¬(s.pipe = [] ∧ (s.poll = .poll ∨ s.poll = .unlock))) :
    ∃ i, (s.pc i).sent = true := by
  by_contra hnone
  refine hbusy (h.quiet fun i => ?_)
  by_contra hi
  exact hnone ⟨i, by simpa using hi⟩

omit [DecidableEq ι] in
/-- With nobody waiting, a call that holds the mutex finds the pipe and the thread quiet. -/
theorem Exchange.quiet_of_write {s : Sys ι} (hl : Locked s) (h : Exchange reqs s) {i : ι}
    (hpc : s.pc i = .write) (hnone : s.waiters = []) :
    (∀ j, (s.pc j).sent = false) ∧ s.pipe = [] ∧ s.poll = .poll := by
  have hmine : s.mutex = some (.caller i) := (hl.caller i).mp (by rw [hpc]; rfl)
  have hsent : ∀ j, (s.pc j).sent = false := by
    intro j
    cases hj : s.pc j with
    | wait =>
      have hother := (hl.caller j).mp (by rw [hj]; rfl)
      rw [hmine] at hother
      obtain rfl := Owner.caller.inj (Option.some.inj hother)
      rw [hpc] at hj
      cases hj
    | waiting =>
      have hin := (hl.waiting j).mpr hj
      rw [hnone] at hin
      cases hin
    | _ => rfl
  obtain ⟨hpipe, hpoll⟩ := h.quiet hsent
  refine ⟨hsent, hpipe, hpoll.resolve_right fun hun => ?_⟩
  have hother := hl.pollThr.mp (by rw [hun]; rfl)
  rw [hmine] at hother
  cases hother

theorem exchange_write {s : Sys ι} (hl : Locked s) (h : Exchange reqs s) {i : ι}
    (hpc : s.pc i = .write) (hok : NoOverlap reqs s (.write i)) :
    Exchange reqs ({ s with pipe := s.pipe ++ [i] }.goto i .wait) := by
  obtain ⟨hsent, hpipe, hpoll⟩ := h.quiet_of_write reqs hl hpc hok.1
  have hpc' : ∀ j, ({ s with pipe := s.pipe ++ [i] }.goto i .wait : Sys ι).pc j =
      if j = i then .wait else s.pc j := fun j => pc_goto _ i j _
  have honly : ∀ j, ((({ s with pipe := s.pipe ++ [i] }.goto i .wait : Sys ι).pc j).sent = true ↔
      j = i) := by
    intro j
    rw [hpc']
    split
    · rename_i hj
      exact iff_of_true rfl hj
    · rename_i hj
      exact iff_of_false (by rw [hsent j]; nofun) hj
  have hback : ∀ j, ((({ s with pipe := s.pipe ++ [i] }.goto i .wait : Sys ι).pc j).returning =
      true ↔ (s.pc j).returning = true) := by
    intro j
    rw [hpc']
    split
    · rename_i hj
      rw [hj, hpc]
      rfl
    · rfl
  refine ⟨h.synced, fun j k hj hk => ?_, fun hnone => ?_, fun j hj => ?_, fun j hj => ?_,
    fun j hj => ?_, h.effects⟩
  · rw [(honly j).mp hj, (honly k).mp hk]
  · have hi := (honly i).mpr rfl
    rw [hnone i] at hi
    cases hi
  · obtain rfl := (honly j).mp hj
    refine .inl ⟨by show s.pipe ++ [j] = [j]; rw [hpipe]; rfl, hpoll, fun k hk => ?_⟩
    have hk := (hback k).mp hk
    refine hok.2 k (fun hkj => ?_) hk
    rw [hkj, hpc] at hk
    cases hk
  · exact h.back j ((hback j).mp hj)
  · rw [hpc'] at hj
    split at hj
    · cases hj
    · exact h.returned j hj

omit [DecidableEq ι] in
theorem exchange_apply {s : Sys ι} (h : Exchange reqs s) {i : ι} {rest : List ι}
    {t : PollthrPrivate} (hpipe : s.pipe = i :: rest)
    (ht : pollthrPriPipeProcessFunc s.thr (reqs i).msg = some t) :
    Exchange reqs { s with thr := t, pipe := rest, applied := s.applied ++ [i], poll := .lock } := by
  obtain ⟨hsync, heff, hframe⟩ := apply_spec (reqs i) h.synced ht
  -- the message is that of the call that waits
  obtain ⟨k, hk⟩ := h.exists_sent reqs (by simp [hpipe])
  obtain ⟨hone, -, hfds⟩ : s.pipe = [k] ∧ s.poll = .poll ∧
      ∀ j, (s.pc j).returning = true → (reqs j).msg.fd ≠ (reqs k).msg.fd := by
    rcases h.sent k hk with hcase | ⟨hnil, -⟩
    · exact hcase
    · rw [hpipe] at hnil
      cases hnil
  rw [hpipe] at hone
  obtain ⟨rfl, rfl⟩ := List.cons.inj hone
  have hkeep : ∀ j, (s.pc j).returning = true → Effect (reqs j).msg t := by
    intro j hj
    rw [effect_iff hsync, hframe _ (hfds j hj), ← effect_iff h.synced]
    exact (h.back j hj).2
  refine ⟨hsync, h.one, fun hnone => ?_, fun j hj => ?_, fun j hj => ?_, fun j hj => ?_, h.effects⟩
  · rw [show (s.pc i).sent = false from hnone i] at hk
    cases hk
  · obtain rfl := h.one j i hj hk
    exact .inr ⟨rfl, .inl rfl, List.mem_append_right _ (List.mem_singleton_self _), heff⟩
  · exact ⟨List.mem_append_left _ (h.back j hj).1, hkeep j hj⟩
  · exact List.mem_append_left _ (h.returned j hj)

/-- The signal wakes the call whose message has just been applied, as no other one waits. -/
theorem exchange_signal {s : Sys ι} (hl : Locked s) (h : Exchange reqs s)
    (hpoll : s.poll = .signal) :
    ∃ i, (∀ w ∈ s.waiters, w = i) ∧ i ∈ s.waiters ∧
      Exchange reqs ({ s with waiters := s.waiters.erase i, poll := .unlock }.goto i .relock) := by
  have hmine : s.mutex = some .pollThr := hl.pollThr.mp (by rw [hpoll]; rfl)
  obtain ⟨i, hi⟩ := h.exists_sent reqs (by simp [hpoll])
  obtain ⟨hpipe, -, happ, heff⟩ : s.pipe = [] ∧ (s.poll = .lock ∨ s.poll = .signal) ∧
      i ∈ s.applied ∧ Effect (reqs i).msg s.thr := by
    rcases h.sent i hi with ⟨-, hp, -⟩ | hcase
    · rw [hpoll] at hp
      cases hp
    · exact hcase
  have hwaiting : s.pc i = .waiting := by
    cases hpc : s.pc i with
    | waiting => rfl
    | wait =>
      have hother := (hl.caller i).mp (by rw [hpc]; rfl)
      rw [hmine] at hother
      cases hother
    | _ =>
      rw [hpc] at hi
      cases hi
  have honly : ∀ w ∈ s.waiters, w = i := by
    intro w hw
    have hw := (hl.waiting w).mp hw
    exact h.one w i (by rw [hw]; rfl) hi
  have hpc' : ∀ j, ({ s with waiters := s.waiters.erase i, poll := .unlock }.goto i .relock :
      Sys ι).pc j = if j = i then .relock else s.pc j := fun j => pc_goto _ i j _
  refine ⟨i, honly, (hl.waiting i).mpr hwaiting, h.synced, fun j k hj hk => ?_,
    fun _ => ⟨hpipe, .inr rfl⟩, fun j hj => ?_, fun j hj => ?_, fun j hj => ?_, h.effects⟩
  · rw [hpc'] at hj hk
    split at hj
    · cases hj
    · split at hk
      · cases hk
      · exact h.one j k hj hk
  · rw [hpc'] at hj
    split at hj
    · cases hj
    · rename_i hne
      exact absurd (h.one j i hj hi) hne
  · rw [hpc'] at hj
    split at hj
    · rename_i hji
      rw [hji]
      exact ⟨happ, heff⟩
    · exact h.back j hj
  · rw [hpc'] at hj
    split at hj
    · cases hj
    · exact h.returned j hj

theorem exchange_leave {s : Sys ι} (h : Exchange reqs s) {i : ι} (hpc : s.pc i = .leave)
    (n : UInt16) :
    Exchange reqs
      ({ s with numSockets := n, returns := s.returns ++ [(i, s.thr)] }.goto i .returned) := by
  have hback : (s.pc i).returning = true := by
    rw [hpc]
    rfl
  have hpc' : ∀ j, ({ s with numSockets := n, returns := s.returns ++ [(i, s.thr)] }.goto i
      .returned : Sys ι).pc j = if j = i then .returned else s.pc j := fun j => pc_goto _ i j _
  have hsent : ∀ j, ((({ s with numSockets := n, returns := s.returns ++ [(i, s.thr)] }.goto i
      .returned : Sys ι).pc j).sent = (s.pc j).sent) := by
    intro j
    rw [hpc']
    split
    · rename_i hj
      rw [hj, hpc]
      rfl
    · rfl
  have hold : ∀ j, (({ s with numSockets := n, returns := s.returns ++ [(i, s.thr)] }.goto i
      .returned : Sys ι).pc j).returning = true → (s.pc j).returning = true := by
    intro j hj
    rw [hpc'] at hj
    split at hj
    · cases hj
    · exact hj
  refine ⟨h.synced, fun j k hj hk => ?_, fun hnone => ?_, fun j hj => ?_, fun j hj => ?_,
    fun j hj => ?_, fun r hr => ?_⟩
  · rw [hsent] at hj hk
    exact h.one j k hj hk
  · exact h.quiet fun j => hsent j ▸ hnone j
  · rw [hsent] at hj
    rcases h.sent j hj with ⟨hp, hq, hfds⟩ | hcase
    · exact .inl ⟨hp, hq, fun k hk => hfds k (hold k hk)⟩
    · exact .inr hcase
  · exact h.back j (hold j hj)
  · rw [hpc'] at hj
    split at hj
    · rename_i hji
      rw [hji]
      exact (h.back i hback).1
    · exact h.returned j hj
  · rcases List.mem_append.mp hr with hr | hr
    · exact h.effects r hr
    · rw [List.mem_singleton.mp hr]
      exact (h.back i hback).2

theorem exchange_step {s s' : Sys ι} {a : Act ι} (hl : Locked s) (h : Exchange reqs s)
    (hok : NoOverlap reqs s a) (hs : step reqs s a = some s') : Exchange reqs s' := by
  have hs := step_cases reqs hs
  cases a with
  | call i =>
    obtain ⟨hpc, n, pc, hor, rfl⟩ := hs
    refine h.goto reqs rfl rfl rfl rfl rfl (fun j => pc_goto _ i j pc) ?_ ?_ ?_
    · rw [hpc]
      rcases hor with rfl | rfl <;> rfl
    · rw [hpc]
      rcases hor with rfl | rfl <;> rfl
    · rcases hor with rfl | rfl <;> nofun
  | lock i =>
    obtain ⟨hpc, -, rfl⟩ := hs
    exact h.goto reqs rfl rfl rfl rfl rfl (fun j => pc_goto _ i j _) (by rw [hpc]; rfl)
      (by rw [hpc]; rfl) nofun
  | write i =>
    obtain ⟨hpc, rfl⟩ := hs
    exact exchange_write reqs hl h hpc hok
  | wait i =>
    obtain ⟨hpc, rfl⟩ := hs
    exact h.goto reqs rfl rfl rfl rfl rfl (fun j => pc_goto _ i j _) (by rw [hpc]; rfl)
      (by rw [hpc]; rfl) nofun
  | relock i =>
    obtain ⟨hpc, -, rfl⟩ := hs
    exact h.goto reqs rfl rfl rfl rfl rfl (fun j => pc_goto _ i j _) (by rw [hpc]; rfl)
      (by rw [hpc]; rfl) nofun
  | unlock i =>
    obtain ⟨hpc, rfl⟩ := hs
    exact h.goto reqs rfl rfl rfl rfl rfl (fun j => pc_goto _ i j _) (by rw [hpc]; rfl)
      (by rw [hpc]; rfl) nofun
  | leave i =>
    obtain ⟨hpc, n, rfl⟩ := hs
    exact exchange_leave reqs h hpc n
  | apply =>
    obtain ⟨-, i, rest, t, hpipe, ht, rfl⟩ := hs
    exact exchange_apply reqs h hpipe ht
  | pollLock =>
    obtain ⟨hpoll, -, rfl⟩ := hs
    refine ⟨h.synced, h.one, fun hnone => ?_, fun i hi => ?_, h.back, h.returned, h.effects⟩
    · have hq := (h.quiet hnone).2
      rw [hpoll] at hq
      simp at hq
    · rcases h.sent i hi with ⟨-, hp, -⟩ | ⟨hpipe, -, hcase⟩
      · rw [hpoll] at hp
        cases hp
      · exact .inr ⟨hpipe, .inr rfl, hcase⟩
  | signal woken =>
    cases woken with
    | none =>
      obtain ⟨hpoll, hnone, rfl⟩ := hs
      obtain ⟨i, -, hin, -⟩ := exchange_signal reqs hl h hpoll
      rw [hnone] at hin
      cases hin
    | some w =>
      obtain ⟨hpoll, hw, rfl⟩ := hs
      obtain ⟨i, honly, -, hex⟩ := exchange_signal reqs hl h hpoll
      rw [honly w hw]
      exact hex
  | pollUnlock =>
    obtain ⟨hpoll, rfl⟩ := hs
    refine ⟨h.synced, h.one, fun hnone => ⟨(h.quiet hnone).1, .inl rfl⟩, fun i hi => ?_, h.back,
      h.returned, h.effects⟩
    rcases h.sent i hi with ⟨-, hp, -⟩ | ⟨-, hp, -⟩
    · rw [hpoll] at hp
      cases hp
    · rw [hpoll] at hp
      simp at hp

omit [DecidableEq ι] in
theorem locked_start (arr : Nat → PollFd) (maxSockets : UInt32) :
    Locked (start arr p maxSockets : Sys ι) :=
  ⟨fun _ => iff_of_false nofun nofun, iff_of_false nofun nofun, fun _ => iff_of_false nofun nofun,
    List.nodup_nil⟩

omit [DecidableEq ι] in
theorem exchange_start (arr : Nat → PollFd) (maxSockets : UInt32) :
    Exchange reqs (start arr p maxSockets) :=
  ⟨synced_newThread arr p, nofun, fun _ => ⟨rfl, .inl rfl⟩, nofun, nofun, nofun, nofun⟩

/-- Requests that do not overlap each get the acknowledgement of their own message,
whatever the schedule. -/
theorem requests_matched_of_no_overlap (arr : Nat → PollFd) (maxSockets : UInt32)
    (acts : List (Act ι)) (hok : Guarded (step reqs) (NoOverlap reqs) (start arr p maxSockets) acts) :
    Always (step reqs) (Matched reqs) (start arr p maxSockets) acts := by
  have hall : Always (step reqs) (fun s => Locked s ∧ Exchange reqs s) (start arr p maxSockets)
      acts := by
    refine always_of_guarded (fun s a t h hok hs => ?_)
      ⟨locked_start arr maxSockets, exchange_start reqs arr maxSockets⟩ hok
    exact ⟨locked_step reqs h.1 hs, exchange_step reqs h.1 h.2 hok hs⟩
  exact hall.mono fun s h => ⟨h.2.returned, h.2.effects⟩

end

/-- The administrative pipes `3` and `5`, and requests to add the sockets `10` and `11`. -/
def pipes : AdminPipes := ⟨3, 5, by decide⟩

def addTwo : Bool → SocketRequest pipes
  | false => ⟨tcpAddMsg 10, rfl, by decide, by decide⟩
  | true => ⟨tcpAddMsg 11, rfl, by decide, by decide⟩

/-- A whole call with nobody else about. -/
def aloneSchedule (i : Bool) : List (Act Bool) :=
  [.call i, .lock i, .write i, .wait i, .apply, .pollLock, .signal (some i), .pollUnlock, .relock i,
    .unlock i, .leave i]

def emptySlots : Nat → PollFd := fun _ => ⟨0, ⟨false, false⟩, ⟨false, false⟩⟩

theorem requests_matched_of_no_overlap_one :
    Always (step addTwo) (Matched addTwo) (start emptySlots pipes 200) (aloneSchedule false) ∧
      ∃ s, run (step addTwo) (start emptySlots pipes 200) (aloneSchedule false) = some s ∧
        s.pc false = .returned := by
  refine ⟨requests_matched_of_no_overlap addTwo emptySlots 200 _ ?_, _, rfl, rfl⟩
  refine guarded_cons.mpr fun s hs => ⟨trivial, ?_⟩
  obtain rfl := Option.some.inj hs
  refine guarded_cons.mpr fun s hs => ⟨trivial, ?_⟩
  obtain rfl := Option.some.inj hs
  refine guarded_cons.mpr fun s hs => ⟨⟨rfl, by decide⟩, ?_⟩
  -- nothing is written after this
  intro pre a t t' hpre _ _
  have ha := hpre.subset (List.mem_append_right pre (List.mem_singleton_self a))
  cases a with
  | write i => cases i <;> exact absurd ha (by decide)
  | _ => trivial

/-- Both calls wait, the message of the first one is applied, and the second one is woken. -/
theorem signal_wakes_other_call :
    ¬Always (step addTwo) (Matched addTwo) (start emptySlots pipes 200)
      [.call false, .lock false, .write false, .wait false, .call true, .lock true, .write true,
        .wait true, .apply, .pollLock, .signal (some true), .pollUnlock, .relock true, .unlock true,
        .leave true] := by
  intro hall
  have happ := (hall.last rfl).1 true rfl
  exact absurd happ (by decide)

end OfConnect.PollThr.Requests
