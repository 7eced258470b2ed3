import OfConnect.PollThr.Requests

/-!
# The handshakes of a manager and its thread

`adp_thr_mgr_new` creates the thread and waits until it is up; every request waits until the
thread has applied it; `adp_thr_mgr_free` waits until the thread has left its loop. None of
the three waits tests a predicate, so a signal that comes before the wait is lost.

A request is safe: the mutex is held from before the write until the wait gives it back, and
the thread takes it before it signals. So is the end of the thread, which signals after its
loop and not for the message. The first handshake has no such order, as the thread runs from
`g_thread_new` on and the mutex is taken only after that.

What the thread does for other fds between two messages does not touch its manager.
-/

namespace OfConnect.PollThr.Handshake

open OfConnect.Lib.Run OfConnect.PollThr.Thread OfConnect.PollThr.Requests

inductive Side where
  | mgr
  | poll
  deriving DecidableEq, Repr

/-- Where the thread stands that creates, uses and frees the manager: in `adp_thr_mgr_new`,
between two calls, in `adp_thr_mgr_add_del_fd` with a message, or in `adp_thr_mgr_free`. -/
inductive MgrPc where
  | initLock
  | initWait
  | initWaiting
  | initRelock
  | initUnlock
  | addDataPipe
  | ready
  | lock (msg : ThrMsg)
  | write (msg : ThrMsg)
  | wait (msg : ThrMsg)
  | waiting (msg : ThrMsg)
  | relock (msg : ThrMsg)
  | unlock (msg : ThrMsg)
  | join
  | joined
  deriving DecidableEq, Repr

/-- Where `adp_thr_mgr_poll_thread_func` stands: before its loop, at the top of it, on its
way to acknowledge a message, or behind it. -/
inductive PollPc where
  | initLock
  | initSignal
  | initUnlock
  | loop
  | ackLock
  | ackSignal
  | ackUnlock
  | endLock
  | endSignal
  | endUnlock
  | exited
  deriving DecidableEq, Repr

structure Sys where
  mgr : MgrPc
  poll : PollPc
  initMutex : Option Side
  addDelMutex : Option Side
  numSockets : UInt16
  maxSockets : UInt32
  pipe : List ThrMsg
  thr : PollthrPrivate

/-- Both threads run: `g_thread_new` has returned. -/
def start (arr : Nat → PollFd) (p : AdminPipes) (maxSockets : UInt32) : Sys where
  mgr := .initLock
  poll := .initLock
  initMutex := none
  addDelMutex := none
  numSockets := 0
  maxSockets := maxSockets
  pipe := []
  thr := pollThreadInit arr p.priRd

/-- The message of `adp_thr_mgr_free`. -/
def destructMsg (priRd : Fd) : ThrMsg := ⟨priRd, .pipe, .deleteFd, ⟨false, false⟩, none, none⟩

/-- `adp_thr_mgr_add_del_fd` after it has been woken: the end of the thread is joined, and a
socket that was deleted is no longer counted. -/
def afterUnlock (s : Sys) (msg : ThrMsg) : Sys :=
  match msg.fdAction, msg.fdType with
  | .addFd, _ => { s with addDelMutex := none, mgr := .ready }
  | .deleteFd, .pipe => { s with addDelMutex := none, mgr := .join }
  | .deleteFd, .socket =>
    { s with addDelMutex := none, mgr := .ready, numSockets := s.numSockets - 1 }

/-- The next step of the manager side, where there is one that is not a new request. -/
def mgrStep (p : AdminPipes) (s : Sys) : Option Sys :=
  match s.mgr with
  | .initLock =>
    if s.initMutex = none then some { s with initMutex := some .mgr, mgr := .initWait } else none
  | .initWait => some { s with initMutex := none, mgr := .initWaiting }
  | .initWaiting => none
  | .initRelock =>
    if s.initMutex = none then some { s with initMutex := some .mgr, mgr := .initUnlock } else none
  | .initUnlock => some { s with initMutex := none, mgr := .addDataPipe }
  | .addDataPipe => some { s with mgr := .lock (dataPipeMsg p.dataRd) }
  | .ready => none
  | .lock msg =>
    if s.addDelMutex = none then some { s with addDelMutex := some .mgr, mgr := .write msg }
    else none
  | .write msg => some { s with pipe := s.pipe ++ [msg], mgr := .wait msg }
  | .wait msg => some { s with addDelMutex := none, mgr := .waiting msg }
  | .waiting _ => none
  | .relock msg =>
    if s.addDelMutex = none then some { s with addDelMutex := some .mgr, mgr := .unlock msg }
    else none
  | .unlock msg => some (afterUnlock s msg)
  | .join => if s.poll = .exited then some { s with mgr := .joined } else none
  | .joined => none

/-- A call of `adp_thr_mgr_add_del_fd` for a socket, up to its lock. -/
def request (s : Sys) (msg : ThrMsg) : Sys :=
  match msg.fdAction with
  | .addFd =>
    if s.numSockets.toUInt32 = s.maxSockets then s
    else { s with numSockets := s.numSockets + 1, mgr := .lock msg }
  | .deleteFd => { s with mgr := .lock msg }

/-- `g_cond_signal` on the condition of `adp_thr_mgr_new`. -/
def signalInit : MgrPc → MgrPc
  | .initWaiting => .initRelock
  | pc => pc

/-- `g_cond_signal` on the condition of `adp_thr_mgr_add_del_fd`. -/
def signalAddDel : MgrPc → MgrPc
  | .waiting msg => .relock msg
  | pc => pc

/-- The message that makes `pollthr_pri_pipe_process_func` return without a signal. -/
def SelfDestruct (t : PollthrPrivate) (msg : ThrMsg) : Prop :=
  msg.fdAction = .deleteFd ∧ (msg.fd = (t.pollfdArr 0).fd ∨ msg.fd = (t.pollfdArr 1).fd)

instance (t : PollthrPrivate) (msg : ThrMsg) : Decidable (SelfDestruct t msg) :=
  inferInstanceAs (Decidable (_ ∧ _))

/-- The next step of the poll thread. In the loop it waits in `poll` until a message is
there. -/
def pollStep (s : Sys) : Option Sys :=
  match s.poll with
  | .initLock =>
    if s.initMutex = none then some { s with initMutex := some .poll, poll := .initSignal }
    else none
  | .initSignal => some { s with mgr := signalInit s.mgr, poll := .initUnlock }
  | .initUnlock => some { s with initMutex := none, poll := .loop }
  | .loop =>
    if s.thr.numPollfds = 0 then some { s with poll := .endLock }
    else
      match s.pipe with
      | [] => none
      | msg :: rest => (pollthrPriPipeProcessFunc s.thr msg).map fun t =>
          { s with
            thr := t
            pipe := rest
            poll := if SelfDestruct s.thr msg then .loop else .ackLock }
  | .ackLock =>
    if s.addDelMutex = none then some { s with addDelMutex := some .poll, poll := .ackSignal }
    else none
  | .ackSignal => some { s with mgr := signalAddDel s.mgr, poll := .ackUnlock }
  | .ackUnlock => some { s with addDelMutex := none, poll := .loop }
  | .endLock =>
    if s.addDelMutex = none then some { s with addDelMutex := some .poll, poll := .endSignal }
    else none
  | .endSignal => some { s with mgr := signalAddDel s.mgr, poll := .endUnlock }
  | .endUnlock => some { s with addDelMutex := none, poll := .exited }
  | .exited => none

/-- `pollFails`: `poll` returns `-1`, and the thread leaves its loop. -/
inductive Act (p : AdminPipes) where
  | mgr
  | request (r : SocketRequest p)
  | free
  | poll
  | pollFails

def step (p : AdminPipes) (s : Sys) : Act p → Option Sys
  | .mgr => mgrStep p s
  | .request r => if s.mgr = .ready then some (request s r.msg) else none
  | .free => if s.mgr = .ready then some { s with mgr := .lock (destructMsg p.priRd) } else none
  | .poll => pollStep s
  | .pollFails =>
    if s.poll = .loop ∧ s.thr.numPollfds ≠ 0 then some { s with poll := .endLock } else none

/-! ## Lost wake-ups -/

/-- The thread has issued the signal that `adp_thr_mgr_new` waits for. -/
def PollPc.initSignalled : PollPc → Bool
  | .initLock | .initSignal => false
  | _ => true

/-- The thread will issue a signal for `adp_thr_mgr_add_del_fd`: it is on its way to one, or
it goes through its loop with a message to read or on its way out. -/
def WillSignal (s : Sys) : Prop :=
  match s.poll with
  | .ackLock | .ackSignal | .endLock | .endSignal => True
  | .endUnlock | .exited => False
  | _ => s.pipe ≠ [] ∨ s.thr.numPollfds = 0

/-- The manager side sleeps, and the signal it sleeps for has been issued. -/
def LostWakeup (s : Sys) : Prop :=
  (s.mgr = .initWaiting ∧ s.poll.initSignalled = true) ∨
    ∃ msg, s.mgr = .waiting msg ∧ ¬WillSignal s

/-- `adp_thr_mgr_new` goes to sleep before the thread signals, and no request goes to sleep
after `poll` has failed and the thread has ended. -/
def InTime (p : AdminPipes) (s : Sys) : Act p → Prop
  | .mgr => (s.mgr = .initWait → s.poll.initSignalled = false) ∧
      ∀ msg, s.mgr = .wait msg → s.poll ≠ .endUnlock ∧ s.poll ≠ .exited
  | _ => True

/-! ## Who holds the mutexes -/

def MgrPc.holdsInit : MgrPc → Bool
  | .initWait | .initUnlock => true
  | _ => false

def MgrPc.holdsAddDel : MgrPc → Bool
  | .write _ | .wait _ | .unlock _ => true
  | _ => false

def PollPc.holdsInit : PollPc → Bool
  | .initSignal | .initUnlock => true
  | _ => false

def PollPc.holdsAddDel : PollPc → Bool
  | .ackSignal | .ackUnlock | .endSignal | .endUnlock => true
  | _ => false

/-- A mutex is held by the side that takes itself to hold it. -/
structure Owned (mgr poll : Bool) (mutex : Option Side) : Prop where
  byMgr : mgr = true ↔ mutex = some .mgr
  byPoll : poll = true ↔ mutex = some .poll

theorem Owned.not_both {mutex : Option Side} : ¬Owned true true mutex := by
  intro h
  have hpoll := h.byPoll.mp rfl
  rw [h.byMgr.mp rfl] at hpoll
  cases hpoll

theorem Owned.mgrTakes {mgr poll : Bool} {mutex : Option Side} (h : Owned mgr poll mutex)
    (hfree : mutex = none) : Owned true poll (some .mgr) := by
  rw [hfree] at h
  exact ⟨iff_of_true rfl rfl, iff_of_false (fun hp => nomatch h.byPoll.mp hp) nofun⟩

theorem Owned.pollTakes {mgr poll : Bool} {mutex : Option Side} (h : Owned mgr poll mutex)
    (hfree : mutex = none) : Owned mgr true (some .poll) := by
  rw [hfree] at h
  exact ⟨iff_of_false (fun hm => nomatch h.byMgr.mp hm) nofun, iff_of_true rfl rfl⟩

theorem Owned.mgrGives {poll : Bool} {mutex : Option Side} (h : Owned true poll mutex) :
    Owned false poll none :=
  ⟨iff_of_false nofun nofun, iff_of_false (fun hp => by rw [hp] at h; exact not_both h) nofun⟩

theorem Owned.pollGives {mgr : Bool} {mutex : Option Side} (h : Owned mgr true mutex) :
    Owned mgr false none :=
  ⟨iff_of_false (fun hm => by rw [hm] at h; exact not_both h) nofun, iff_of_false nofun nofun⟩

structure Locked (s : Sys) : Prop where
  init : Owned s.mgr.holdsInit s.poll.holdsInit s.initMutex
  addDel : Owned s.mgr.holdsAddDel s.poll.holdsAddDel s.addDelMutex

theorem holds_signalInit (pc : MgrPc) :
    (signalInit pc).holdsInit = pc.holdsInit ∧ (signalInit pc).holdsAddDel = pc.holdsAddDel := by
  cases pc <;> exact ⟨rfl, rfl⟩

theorem holds_signalAddDel (pc : MgrPc) :
    (signalAddDel pc).holdsInit = pc.holdsInit ∧
      (signalAddDel pc).holdsAddDel = pc.holdsAddDel := by
  cases pc <;> exact ⟨rfl, rfl⟩

theorem locked_mgrStep {p : AdminPipes} {s s' : Sys} (h : Locked s)
    (hs : mgrStep p s = some s') : Locked s' := by
  obtain ⟨hi, ha⟩ := h
  unfold mgrStep at hs
  cases hpc : s.mgr with
  | initWaiting | ready | waiting | joined =>
    rw [hpc] at hs
    cases hs
  | initLock | initRelock =>
    simp only [hpc, Option.ite_none_right_eq_some, Option.some.injEq] at hs hi ha
    obtain ⟨hfree, rfl⟩ := hs
    exact ⟨hi.mgrTakes hfree, ha⟩
  | initWait | initUnlock =>
    simp only [hpc, Option.some.injEq] at hs hi ha
    obtain rfl := hs
    exact ⟨hi.mgrGives, ha⟩
  | lock | relock =>
    simp only [hpc, Option.ite_none_right_eq_some, Option.some.injEq] at hs hi ha
    obtain ⟨hfree, rfl⟩ := hs
    exact ⟨hi, ha.mgrTakes hfree⟩
  | wait =>
    simp only [hpc, Option.some.injEq] at hs hi ha
    obtain rfl := hs
    exact ⟨hi, ha.mgrGives⟩
  | unlock =>
    simp only [hpc, Option.some.injEq] at hs hi ha
    obtain rfl := hs
    unfold afterUnlock
    split
    · exact ⟨hi, ha.mgrGives⟩
    · exact ⟨hi, ha.mgrGives⟩
    · exact ⟨hi, ha.mgrGives⟩
  | addDataPipe | write =>
    simp only [hpc, Option.some.injEq] at hs hi ha
    obtain rfl := hs
    exact ⟨hi, ha⟩
  | join =>
    simp only [hpc, Option.ite_none_right_eq_some, Option.some.injEq] at hs hi ha
    obtain ⟨-, rfl⟩ := hs
    exact ⟨hi, ha⟩

theorem locked_pollStep {s s' : Sys} (h : Locked s) (hs : pollStep s = some s') : Locked s' := by
  obtain ⟨hi, ha⟩ := h
  unfold pollStep at hs
  cases hpc : s.poll with
  | initLock =>
    simp only [hpc, Option.ite_none_right_eq_some, Option.some.injEq] at hs hi ha
    obtain ⟨hfree, rfl⟩ := hs
    exact ⟨hi.pollTakes hfree, ha⟩
  | initSignal =>
    simp only [hpc, Option.some.injEq] at hs hi ha
    obtain rfl := hs
    exact ⟨(holds_signalInit s.mgr).1 ▸ hi, (holds_signalInit s.mgr).2 ▸ ha⟩
  | initUnlock =>
    simp only [hpc, Option.some.injEq] at hs hi ha
    obtain rfl := hs
    exact ⟨hi.pollGives, ha⟩
  | loop =>
    simp only [hpc] at hs hi ha
    split at hs
    · obtain rfl := Option.some.inj hs
      exact ⟨hi, ha⟩
    · split at hs
      · cases hs
      · rename_i msg rest _
        obtain ⟨t, -, rfl⟩ := Option.map_eq_some_iff.mp hs
        by_cases hself : SelfDestruct s.thr msg
        · simp only [if_pos hself]
          exact ⟨hi, ha⟩
        · simp only [if_neg hself]
          exact ⟨hi, ha⟩
  | ackLock | endLock =>
    simp only [hpc, Option.ite_none_right_eq_some, Option.some.injEq] at hs hi ha
    obtain ⟨hfree, rfl⟩ := hs
    exact ⟨hi, ha.pollTakes hfree⟩
  | ackSignal | endSignal =>
    simp only [hpc, Option.some.injEq] at hs hi ha
    obtain rfl := hs
    exact ⟨(holds_signalAddDel s.mgr).1 ▸ hi, (holds_signalAddDel s.mgr).2 ▸ ha⟩
  | ackUnlock | endUnlock =>
    simp only [hpc, Option.some.injEq] at hs hi ha
    obtain rfl := hs
    exact ⟨hi, ha.pollGives⟩
  | exited =>
    rw [hpc] at hs
    cases hs

theorem locked_step {p : AdminPipes} {s s' : Sys} {a : Act p} (h : Locked s)
    (hs : step p s a = some s') : Locked s' := by
  cases a with
  | mgr => exact locked_mgrStep h hs
  | request r =>
    simp only [step, Option.ite_none_right_eq_some, Option.some.injEq] at hs
    obtain ⟨hpc, rfl⟩ := hs
    obtain ⟨hi, ha⟩ := h
    have hready : Locked s := ⟨hi, ha⟩
    rw [hpc] at hi ha
    unfold request
    split
    · split
      · exact hready
      · exact ⟨hi, ha⟩
    · exact ⟨hi, ha⟩
  | free =>
    simp only [step, Option.ite_none_right_eq_some, Option.some.injEq] at hs
    obtain ⟨hpc, rfl⟩ := hs
    obtain ⟨hi, ha⟩ := h
    rw [hpc] at hi ha
    exact ⟨hi, ha⟩
  | poll => exact locked_pollStep h hs
  | pollFails =>
    simp only [step, Option.ite_none_right_eq_some, Option.some.injEq] at hs
    obtain ⟨⟨hpc, -⟩, rfl⟩ := hs
    obtain ⟨hi, ha⟩ := h
    rw [hpc] at hi ha
    exact ⟨hi, ha⟩

/-! ## What the thread still has to do -/

/-- The message that ends the thread leaves it with nothing to poll. -/
theorem numPollfds_of_selfDestruct {t t' : PollthrPrivate} {msg : ThrMsg}
    (hself : SelfDestruct t msg) (h : pollthrPriPipeProcessFunc t msg = some t') :
    t'.numPollfds = 0 := by
  unfold pollthrPriPipeProcessFunc at h
  rw [hself.1] at h
  obtain rfl := Option.some.inj h
  unfold deleteFd
  rw [if_pos hself.2]

/-- The thread goes on towards its signal until it issues one. -/
theorem willSignal_pollStep {s s' : Sys} (h : WillSignal s) (hs : pollStep s = some s') :
    WillSignal s' ∨ s.poll = .ackSignal ∨ s.poll = .endSignal := by
  unfold pollStep at hs
  unfold WillSignal at h
  cases hpc : s.poll with
  | initLock =>
    simp only [hpc, Option.ite_none_right_eq_some, Option.some.injEq] at hs h
    obtain ⟨-, rfl⟩ := hs
    exact .inl h
  | initSignal | initUnlock | ackUnlock =>
    simp only [hpc, Option.some.injEq] at hs h
    obtain rfl := hs
    exact .inl h
  | loop =>
    simp only [hpc] at hs
    split at hs
    · obtain rfl := Option.some.inj hs
      exact .inl trivial
    · split at hs
      · cases hs
      · rename_i msg rest _
        obtain ⟨t, ht, rfl⟩ := Option.map_eq_some_iff.mp hs
        by_cases hself : SelfDestruct s.thr msg
        · simp only [if_pos hself]
          exact .inl (.inr (numPollfds_of_selfDestruct hself ht))
        · simp only [if_neg hself]
          exact .inl trivial
  | ackLock | endLock =>
    simp only [hpc, Option.ite_none_right_eq_some, Option.some.injEq] at hs
    obtain ⟨-, rfl⟩ := hs
    exact .inl trivial
  | ackSignal => exact .inr (.inl rfl)
  | endSignal => exact .inr (.inr rfl)
  | endUnlock | exited =>
    rw [hpc] at h
    cases h

/-- What a step of the thread does to the manager side: nothing, or it wakes it. -/
theorem mgr_pollStep {s s' : Sys} (hs : pollStep s = some s') :
    (s'.mgr = signalInit s.mgr ∧ s.poll = .initSignal) ∨
    (s'.mgr = signalAddDel s.mgr ∧ (s.poll = .ackSignal ∨ s.poll = .endSignal)) ∨
    (s'.mgr = s.mgr ∧ s.poll ≠ .initSignal ∧ s.poll ≠ .ackSignal ∧ s.poll ≠ .endSignal) := by
  unfold pollStep at hs
  cases hpc : s.poll with
  | initSignal =>
    simp only [hpc, Option.some.injEq] at hs
    obtain rfl := hs
    exact .inl ⟨rfl, rfl⟩
  | ackSignal =>
    simp only [hpc, Option.some.injEq] at hs
    obtain rfl := hs
    exact .inr (.inl ⟨rfl, .inl rfl⟩)
  | endSignal =>
    simp only [hpc, Option.some.injEq] at hs
    obtain rfl := hs
    exact .inr (.inl ⟨rfl, .inr rfl⟩)
  | loop =>
    simp only [hpc] at hs
    refine .inr (.inr ⟨?_, nofun, nofun, nofun⟩)
    split at hs
    · obtain rfl := Option.some.inj hs
      rfl
    · split at hs
      · cases hs
      · obtain ⟨t, -, rfl⟩ := Option.map_eq_some_iff.mp hs
        rfl
  | exited =>
    rw [hpc] at hs
    cases hs
  | initLock | ackLock | endLock =>
    simp only [hpc, Option.ite_none_right_eq_some, Option.some.injEq] at hs
    obtain ⟨-, rfl⟩ := hs
    exact .inr (.inr ⟨rfl, nofun, nofun, nofun⟩)
  | initUnlock | ackUnlock | endUnlock =>
    simp only [hpc, Option.some.injEq] at hs
    obtain rfl := hs
    exact .inr (.inr ⟨rfl, nofun, nofun, nofun⟩)

theorem initSignalled_pollStep {s s' : Sys} (hs : pollStep s = some s')
    (hpc : s.poll.initSignalled = false) (hne : s.poll ≠ .initSignal) :
    s'.poll.initSignalled = false := by
  unfold pollStep at hs
  cases hp : s.poll with
  | initLock =>
    simp only [hp, Option.ite_none_right_eq_some, Option.some.injEq] at hs
    obtain ⟨-, rfl⟩ := hs
    rfl
  | initSignal => exact absurd hp hne
  | _ =>
    rw [hp] at hpc
    cases hpc

/-- A message that has been written will be acknowledged, unless the thread has ended. -/
def Answered (s : Sys) : Prop :=
  ∀ msg, s.mgr = .wait msg → WillSignal s ∨ s.poll = .endUnlock ∨ s.poll = .exited

theorem signalInit_eq_wait {pc : MgrPc} {msg : ThrMsg} (h : signalInit pc = .wait msg) :
    pc = .wait msg := by
  cases pc with
  | initWaiting => cases h
  | _ => exact h

theorem signalAddDel_eq_wait {pc : MgrPc} {msg : ThrMsg} (h : signalAddDel pc = .wait msg) :
    pc = .wait msg := by
  cases pc with
  | waiting msg => cases h
  | _ => exact h

theorem answered_pollStep {s s' : Sys} (hl : Locked s) (h : Answered s)
    (hs : pollStep s = some s') : Answered s' := by
  intro msg hmsg
  have hwait : s.mgr = .wait msg := by
    rcases mgr_pollStep hs with ⟨heq, -⟩ | ⟨heq, -⟩ | ⟨heq, -⟩
    · exact signalInit_eq_wait (heq ▸ hmsg)
    · exact signalAddDel_eq_wait (heq ▸ hmsg)
    · exact heq ▸ hmsg
  -- the manager side holds the mutex, so that the thread cannot signal now
  have hnot : s.poll.holdsAddDel ≠ true := by
    intro hholds
    have hboth := hl.addDel
    rw [hwait, hholds] at hboth
    exact Owned.not_both hboth
  rcases h msg hwait with hwill | hend | hend
  · rcases willSignal_pollStep hwill hs with hwill' | hsig | hsig
    · exact .inl hwill'
    · rw [hsig] at hnot
      exact absurd rfl hnot
    · rw [hsig] at hnot
      exact absurd rfl hnot
  · rw [hend] at hnot
    exact absurd rfl hnot
  · simp only [pollStep, hend] at hs
    cases hs

/-- Neither in one of the two waits, nor about to wait for an acknowledgement. -/
def MgrPc.awake : MgrPc → Bool
  | .initWaiting | .wait _ | .waiting _ => false
  | _ => true

/-- About to wait. -/
def MgrPc.drowsy : MgrPc → Bool
  | .initWait | .wait _ => true
  | _ => false

theorem mgrStep_cases {p : AdminPipes} {s s' : Sys} (hs : mgrStep p s = some s') :
    s'.poll = s.poll ∧ s'.thr = s.thr ∧
    ((s.mgr = .initWait ∧ s'.mgr = .initWaiting) ∨
      (∃ msg, s.mgr = .write msg ∧ s'.mgr = .wait msg ∧ s'.pipe = s.pipe ++ [msg]) ∨
      (∃ msg, s.mgr = .wait msg ∧ s'.mgr = .waiting msg ∧ s'.pipe = s.pipe) ∨
      (s.mgr.drowsy = false ∧ s'.mgr.awake = true)) := by
  unfold mgrStep at hs
  cases hpc : s.mgr with
  | initWaiting | ready | waiting | joined =>
    rw [hpc] at hs
    cases hs
  | initLock | initRelock | lock | relock | join =>
    simp only [hpc, Option.ite_none_right_eq_some, Option.some.injEq] at hs
    obtain ⟨-, rfl⟩ := hs
    exact ⟨rfl, rfl, .inr (.inr (.inr ⟨rfl, rfl⟩))⟩
  | initUnlock | addDataPipe =>
    simp only [hpc, Option.some.injEq] at hs
    obtain rfl := hs
    exact ⟨rfl, rfl, .inr (.inr (.inr ⟨rfl, rfl⟩))⟩
  | initWait =>
    simp only [hpc, Option.some.injEq] at hs
    obtain rfl := hs
    exact ⟨rfl, rfl, .inl ⟨rfl, rfl⟩⟩
  | write msg =>
    simp only [hpc, Option.some.injEq] at hs
    obtain rfl := hs
    exact ⟨rfl, rfl, .inr (.inl ⟨msg, rfl, rfl, rfl⟩)⟩
  | wait msg =>
    simp only [hpc, Option.some.injEq] at hs
    obtain rfl := hs
    exact ⟨rfl, rfl, .inr (.inr (.inl ⟨msg, rfl, rfl, rfl⟩))⟩
  | unlock msg =>
    simp only [hpc, Option.some.injEq] at hs
    obtain rfl := hs
    unfold afterUnlock
    split
    · exact ⟨rfl, rfl, .inr (.inr (.inr ⟨rfl, rfl⟩))⟩
    · exact ⟨rfl, rfl, .inr (.inr (.inr ⟨rfl, rfl⟩))⟩
    · exact ⟨rfl, rfl, .inr (.inr (.inr ⟨rfl, rfl⟩))⟩

theorem not_lostWakeup_of_awake {s : Sys} (h : s.mgr.awake = true) : ¬LostWakeup s := by
  rintro (⟨hpc, -⟩ | ⟨msg, hpc, -⟩)
  · rw [hpc] at h
    cases h
  · rw [hpc] at h
    cases h

theorem answered_of_awake {s : Sys} (h : s.mgr.awake = true) : Answered s := by
  intro msg hpc
  rw [hpc] at h
  cases h

theorem willSignal_congr {s s' : Sys} (hpoll : s'.poll = s.poll) (hthr : s'.thr = s.thr)
    (hpipe : s'.pipe = s.pipe) : WillSignal s' ↔ WillSignal s := by
  unfold WillSignal
  rw [hpoll, hthr, hpipe]

theorem not_willSignal_of_ended {s : Sys} (h : s.poll = .endUnlock ∨ s.poll = .exited) :
    ¬WillSignal s := by
  unfold WillSignal
  rcases h with h | h <;> rw [h] <;> exact id

/-- With a message in the pipe only the end of the thread keeps it from signalling. -/
theorem willSignal_of_message {s : Sys} (h : s.pipe ≠ []) :
    WillSignal s ∨ s.poll = .endUnlock ∨ s.poll = .exited := by
  unfold WillSignal
  cases s.poll with
  | endUnlock => exact .inr (.inl rfl)
  | exited => exact .inr (.inr rfl)
  | ackLock | ackSignal | endLock | endSignal => exact .inl trivial
  | initLock | initSignal | initUnlock | loop | ackUnlock => exact .inl (.inl h)

theorem answered_mgrStep {p : AdminPipes} {s s' : Sys} (hs : mgrStep p s = some s') :
    Answered s' := by
  obtain ⟨-, -, ⟨-, hpc⟩ | ⟨msg, -, hpc, hpipe⟩ | ⟨msg, -, hpc, -⟩ | ⟨-, hawake⟩⟩ :=
    mgrStep_cases hs
  · intro msg' hmsg
    rw [hpc] at hmsg
    cases hmsg
  · intro msg' _
    apply willSignal_of_message
    rw [hpipe]
    exact List.concat_ne_nil msg s.pipe
  · intro msg' hmsg
    rw [hpc] at hmsg
    cases hmsg
  · exact answered_of_awake hawake

/-- The manager side loses a wake-up exactly if it goes to sleep too late. -/
theorem lostWakeup_mgrStep_iff {p : AdminPipes} {s s' : Sys} (ha : Answered s)
    (hs : mgrStep p s = some s') : ¬LostWakeup s' ↔ InTime p s .mgr := by
  obtain ⟨hpoll, hthr, hcase⟩ := mgrStep_cases hs
  rcases hcase with ⟨hpc, hpc'⟩ | ⟨msg, hpc, hpc', -⟩ | ⟨msg, hpc, hpc', hpipe⟩ | ⟨hpc, hawake⟩
  · simp [LostWakeup, InTime, hpc, hpc', hpoll]
  · refine iff_of_true ?_ ⟨fun h => ?_, fun msg' h => ?_⟩
    · simp [LostWakeup, hpc']
    · rw [hpc] at h
      cases h
    · rw [hpc] at h
      cases h
  · have hlost : ¬LostWakeup s' ↔ WillSignal s := by
      rw [← willSignal_congr hpoll hthr hpipe]
      simp [LostWakeup, hpc']
    rw [hlost]
    constructor
    · intro hwill
      refine ⟨fun h => ?_, fun msg' _ => ⟨fun hend => ?_, fun hend => ?_⟩⟩
      · rw [hpc] at h
        cases h
      · exact not_willSignal_of_ended (.inl hend) hwill
      · exact not_willSignal_of_ended (.inr hend) hwill
    · intro hok
      obtain ⟨hend, hexit⟩ := hok.2 msg hpc
      exact (ha msg hpc).resolve_right fun h => h.elim hend hexit
  · refine iff_of_true (not_lostWakeup_of_awake hawake) ⟨fun h => ?_, fun msg h => ?_⟩
    · rw [h] at hpc
      cases hpc
    · rw [h] at hpc
      cases hpc

theorem not_lostWakeup_pollStep {s s' : Sys} (h : ¬LostWakeup s) (hs : pollStep s = some s') :
    ¬LostWakeup s' := by
  have hmgr := mgr_pollStep hs
  rintro (⟨hpc, hsig⟩ | ⟨msg, hpc, hwill⟩)
  · -- still asleep in `adp_thr_mgr_new`, so that this step is not the signal
    have hbefore : s.mgr = .initWaiting ∧ s.poll ≠ .initSignal := by
      rcases hmgr with ⟨heq, -⟩ | ⟨heq, hp⟩ | ⟨heq, hne, -⟩
      · rw [heq] at hpc
        cases hm : s.mgr <;> rw [hm] at hpc <;> cases hpc
      · rw [heq] at hpc
        refine ⟨?_, fun hp' => ?_⟩
        · cases hm : s.mgr with
          | initWaiting => rfl
          | _ =>
            rw [hm] at hpc
            cases hpc
        · rw [hp'] at hp
          rcases hp with hp | hp <;> cases hp
      · exact ⟨heq ▸ hpc, hne⟩
    have hnot : s.poll.initSignalled = false := by
      by_contra hne
      exact h (.inl ⟨hbefore.1, by simpa using hne⟩)
    rw [initSignalled_pollStep hs hnot hbefore.2] at hsig
    cases hsig
  · have hbefore : s.mgr = .waiting msg ∧ s.poll ≠ .ackSignal ∧ s.poll ≠ .endSignal := by
      rcases hmgr with ⟨heq, hp⟩ | ⟨heq, -⟩ | ⟨heq, -, hne⟩
      · rw [heq] at hpc
        refine ⟨?_, by rw [hp]; nofun, by rw [hp]; nofun⟩
        cases hm : s.mgr with
        | waiting msg' =>
          rw [hm] at hpc
          exact hpc
        | _ =>
          rw [hm] at hpc
          cases hpc
      · rw [heq] at hpc
        cases hm : s.mgr <;> rw [hm] at hpc <;> cases hpc
      · exact ⟨heq ▸ hpc, hne⟩
    have hwas : WillSignal s := by
      by_contra hne
      exact h (.inr ⟨msg, hbefore.1, hne⟩)
    rcases willSignal_pollStep hwas hs with hw | hp | hp
    · exact hwill hw
    · exact hbefore.2.1 hp
    · exact hbefore.2.2 hp

/-! ## Runs -/

def Background (s : Sys) : Prop := Locked s ∧ Answered s

theorem awake_request {s : Sys} (hpc : s.mgr = .ready) (msg : ThrMsg) :
    (request s msg).mgr.awake = true := by
  unfold request
  split
  · split
    · rw [hpc]
      rfl
    · rfl
  · rfl

theorem background_step {p : AdminPipes} {s s' : Sys} {a : Act p} (h : Background s)
    (hs : step p s a = some s') : Background s' := by
  refine ⟨locked_step h.1 hs, ?_⟩
  cases a with
  | mgr => exact answered_mgrStep hs
  | request r =>
    simp only [step, Option.ite_none_right_eq_some, Option.some.injEq] at hs
    obtain ⟨hpc, rfl⟩ := hs
    exact answered_of_awake (awake_request hpc r.msg)
  | free =>
    simp only [step, Option.ite_none_right_eq_some, Option.some.injEq] at hs
    obtain ⟨-, rfl⟩ := hs
    exact answered_of_awake rfl
  | poll => exact answered_pollStep h.1 h.2 hs
  | pollFails =>
    simp only [step, Option.ite_none_right_eq_some, Option.some.injEq] at hs
    obtain ⟨-, rfl⟩ := hs
    exact fun _ _ => .inl trivial

theorem lostWakeup_step_iff {p : AdminPipes} {s s' : Sys} {a : Act p} (hb : Background s)
    (h : ¬LostWakeup s) (hs : step p s a = some s') : ¬LostWakeup s' ↔ InTime p s a := by
  cases a with
  | mgr => exact lostWakeup_mgrStep_iff hb.2 hs
  | request r =>
    simp only [step, Option.ite_none_right_eq_some, Option.some.injEq] at hs
    obtain ⟨hpc, rfl⟩ := hs
    exact iff_of_true (not_lostWakeup_of_awake (awake_request hpc r.msg)) trivial
  | free =>
    simp only [step, Option.ite_none_right_eq_some, Option.some.injEq] at hs
    obtain ⟨-, rfl⟩ := hs
    exact iff_of_true (not_lostWakeup_of_awake rfl) trivial
  | poll => exact iff_of_true (not_lostWakeup_pollStep h hs) trivial
  | pollFails =>
    simp only [step, Option.ite_none_right_eq_some, Option.some.injEq] at hs
    obtain ⟨⟨hloop, -⟩, rfl⟩ := hs
    refine iff_of_true ?_ trivial
    rintro (⟨hpc, -⟩ | ⟨msg, -, hwill⟩)
    · exact h (.inl ⟨hpc, by rw [hloop]; rfl⟩)
    · exact hwill trivial

/-- A wake-up is lost exactly if `adp_thr_mgr_new` goes to sleep after the thread has
signalled that it is up, or a request does after `poll` has failed and the thread has ended.
Requests and the end of the thread lose none. -/
theorem no_lost_wakeup_iff_in_time (arr : Nat → PollFd) (p : AdminPipes) (maxSockets : UInt32)
    (acts : List (Act p)) :
    Always (step p) (fun s => ¬LostWakeup s) (start arr p maxSockets) acts ↔
      Guarded (step p) (InTime p) (start arr p maxSockets) acts := by
  have hstart : Background (start arr p maxSockets) := by
    refine ⟨⟨⟨?_, ?_⟩, ?_, ?_⟩, answered_of_awake rfl⟩
    · exact iff_of_false nofun nofun
    · exact iff_of_false nofun nofun
    · exact iff_of_false nofun nofun
    · exact iff_of_false nofun nofun
  exact always_iff_guarded_of_invariant (fun _ _ _ h hs => background_step h hs)
    (fun _ _ _ hb h hs => lostWakeup_step_iff hb h hs) hstart (not_lostWakeup_of_awake rfl) acts

/-- The thread is up and has signalled before `adp_thr_mgr_new` waits for it. -/
theorem init_signal_lost :
    ¬Always (step pipes) (fun s => ¬LostWakeup s) (start emptySlots pipes 200)
      [.poll, .poll, .poll, .mgr, .mgr] := by
  intro hall
  exact hall.last rfl (.inl ⟨rfl, rfl⟩)

-- With `adp_thr_mgr_new` asleep in time, a manager lives through a request to its end.
example : (run (step pipes) (start emptySlots pipes 200)
    [.mgr, .mgr, .poll, .poll, .poll, .mgr, .mgr,
      .mgr, .mgr, .mgr, .mgr, .poll, .poll, .poll, .poll, .mgr, .mgr,
      .request (addTwo false), .mgr, .mgr, .mgr, .poll, .poll, .poll, .poll, .mgr, .mgr,
      .free, .mgr, .mgr, .mgr, .poll, .poll, .poll, .poll, .poll, .mgr, .mgr, .mgr]).map Sys.mgr =
    some .joined := by
  rfl

end OfConnect.PollThr.Handshake
