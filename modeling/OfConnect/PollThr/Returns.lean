import OfConnect.PollThr.Handshake

/-!
# Every call of a manager returns

The calls of a manager wait for its thread and for nothing else, and the thread has only so
much to do for them. Left to themselves the two come to rest within a bounded number of
steps, whatever the order, and a call that is then still under way has lost its wake-up.
Such a call never returns: nothing signals a second time.

The thread handles a message for as long as the assertion of `ADD_FD` holds, that is, as
long as no socket is added that it polls already.
-/

namespace OfConnect.PollThr.Returns

open OfConnect.Lib.Slots OfConnect.Lib.Run OfConnect.PollThr.Thread
open OfConnect.PollThr.Requests (SocketRequest addTwo emptySlots pipes)
open OfConnect.PollThr.Handshake

variable {p : AdminPipes} {s s' : Sys}

/-- The steps that are taken without a new call. -/
def ownStep (p : AdminPipes) (s : Sys) : Side → Option Sys
  | .mgr => mgrStep p s
  | .poll => pollStep s

/-- No call of the manager is under way. -/
def Idle (s : Sys) : Prop := s.mgr = .ready ∨ s.mgr = .joined

/-- A socket is added while the thread does not poll it. -/
def AddsNew (p : AdminPipes) (s : Sys) : Act p → Prop
  | .request r => r.msg.fdAction = .addFd → r.msg.fd ∉ s.thr.fds
  | _ => True

instance : (a : Act p) → Decidable (AddsNew p s a)
  | .request _ => inferInstanceAs (Decidable (_ → _))
  | .mgr | .free | .poll | .pollFails => isTrue trivial

/-- What becomes of the calls from a state on. -/
structure Settles (p : AdminPipes) (s : Sys) : Prop where
  bounded : ∀ sides t, run (ownStep p) s sides = some t → sides.length ≤ 72
  returns : ∀ sides t, run (ownStep p) s sides = some t → (∀ side, ownStep p t side = none) →
    Idle t ∨ LostWakeup t
  asleep : LostWakeup s → ∀ acts t, run (step p) s acts = some t → t.mgr = s.mgr

/-! ## How much is left to do -/

def mgrTodo : MgrPc → Nat
  | .initLock => 13
  | .initWait => 12
  | .initWaiting => 11
  | .initRelock => 10
  | .initUnlock => 9
  | .addDataPipe => 8
  | .lock _ => 7
  | .write _ => 6
  | .wait _ => 5
  | .waiting _ => 4
  | .relock _ => 3
  | .unlock _ => 2
  | .join => 1
  | .ready | .joined => 0

/-- What is left for the thread with `n` messages in the pipe: each is read and acknowledged,
and the loop is left once. -/
def pollTodo (n : Nat) : PollPc → Nat
  | .initLock | .ackLock => 7 + 4 * n
  | .initSignal | .ackSignal => 6 + 4 * n
  | .initUnlock | .ackUnlock => 5 + 4 * n
  | .loop => 4 + 4 * n
  | .endLock => 3
  | .endSignal => 2
  | .endUnlock => 1
  | .exited => 0

def work (s : Sys) : Nat := 5 * mgrTodo s.mgr + pollTodo s.pipe.length s.poll

theorem mgrTodo_signalInit (pc : MgrPc) : mgrTodo (signalInit pc) ≤ mgrTodo pc := by
  cases pc <;> simp [signalInit, mgrTodo]

theorem mgrTodo_signalAddDel (pc : MgrPc) : mgrTodo (signalAddDel pc) ≤ mgrTodo pc := by
  cases pc <;> simp [signalAddDel, mgrTodo]

theorem pollTodo_succ (n : Nat) (pc : PollPc) : pollTodo (n + 1) pc ≤ pollTodo n pc + 4 := by
  cases pc <;> simp only [pollTodo] <;> omega

theorem work_mgrStep (hs : mgrStep p s = some s') : work s' < work s := by
  unfold mgrStep at hs
  unfold work
  cases hpc : s.mgr with
  | initWaiting | ready | waiting | joined =>
    rw [hpc] at hs
    cases hs
  | initLock | initRelock | lock | relock | join =>
    simp only [hpc, Option.ite_none_right_eq_some, Option.some.injEq] at hs
    obtain ⟨-, rfl⟩ := hs
    simp only [mgrTodo]
    omega
  | initWait | initUnlock | addDataPipe | wait =>
    simp only [hpc, Option.some.injEq] at hs
    obtain rfl := hs
    simp only [mgrTodo]
    omega
  | write msg =>
    simp only [hpc, Option.some.injEq] at hs
    obtain rfl := hs
    -- the message more is less than the step of the manager side
    have hmore := pollTodo_succ s.pipe.length s.poll
    simp only [mgrTodo, List.length_append, List.length_singleton]
    omega
  | unlock msg =>
    simp only [hpc, Option.some.injEq] at hs
    obtain rfl := hs
    unfold afterUnlock
    split <;> simp only [mgrTodo] <;> omega

theorem work_pollStep (hs : pollStep s = some s') : work s' < work s := by
  unfold pollStep at hs
  unfold work
  cases hpc : s.poll with
  | initLock | ackLock | endLock =>
    simp only [hpc, Option.ite_none_right_eq_some, Option.some.injEq] at hs
    obtain ⟨-, rfl⟩ := hs
    simp only [pollTodo]
    omega
  | initSignal =>
    simp only [hpc, Option.some.injEq] at hs
    obtain rfl := hs
    have hmgr := mgrTodo_signalInit s.mgr
    simp only [pollTodo]
    omega
  | ackSignal | endSignal =>
    simp only [hpc, Option.some.injEq] at hs
    obtain rfl := hs
    have hmgr := mgrTodo_signalAddDel s.mgr
    simp only [pollTodo]
    omega
  | initUnlock | ackUnlock | endUnlock =>
    simp only [hpc, Option.some.injEq] at hs
    obtain rfl := hs
    simp only [pollTodo]
    omega
  | loop =>
    simp only [hpc] at hs
    split at hs
    · obtain rfl := Option.some.inj hs
      simp only [pollTodo]
      omega
    · split at hs
      · cases hs
      · rename_i msg rest hpipe
        obtain ⟨t, -, rfl⟩ := Option.map_eq_some_iff.mp hs
        rw [hpipe]
        by_cases hself : SelfDestruct s.thr msg
        · simp only [if_pos hself, pollTodo, List.length_cons]
          omega
        · simp only [if_neg hself, pollTodo, List.length_cons]
          omega
  | exited =>
    rw [hpc] at hs
    cases hs

theorem work_ownStep {side : Side} (hs : ownStep p s side = some s') : work s' < work s := by
  cases side with
  | mgr => exact work_mgrStep hs
  | poll => exact work_pollStep hs

/-! ## Where the two stand together -/

/-- The message after which the manager side joins the thread. -/
def Ends (msg : ThrMsg) : Prop := msg.fdAction = .deleteFd ∧ msg.fdType = .pipe

/-- The thread can handle the message, and takes it for its end if the manager side does. -/
structure Fits (p : AdminPipes) (t : PollthrPrivate) (msg : ThrMsg) : Prop where
  fresh : msg.fdAction = .addFd → msg.fd ∉ t.fds
  ends : Ends msg → msg.fd = p.priRd

/-- The pipe and the thread, as the manager side finds them while the thread is at work and
owes no acknowledgement. -/
def Turn (p : AdminPipes) (s : Sys) : Prop :=
  match s.mgr with
  | .initLock | .initWait | .initWaiting | .initRelock | .initUnlock | .addDataPipe =>
    s.pipe = [] ∧ s.thr.fds = [p.priRd]
  | .lock msg | .write msg => s.pipe = [] ∧ Fits p s.thr msg
  | .wait msg | .waiting msg =>
    (s.pipe = [msg] ∧ Fits p s.thr msg) ∨ (s.pipe = [] ∧ s.thr.numPollfds = 0)
  | .ready | .relock _ | .unlock _ | .join | .joined => s.pipe = []

/-- Before the loop or in it, with no acknowledgement to give. -/
def serving : PollPc → Bool
  | .initLock | .initSignal | .initUnlock | .loop | .ackUnlock => true
  | _ => false

/-- The manager side has been woken for the last time. -/
def Ending : MgrPc → Prop
  | .relock msg | .unlock msg => Ends msg
  | .join | .joined => True
  | _ => False

structure Stage (p : AdminPipes) (s : Sys) : Prop where
  head : (s.thr.pollfdArr 0).fd = p.priRd
  turn : serving s.poll = true → Turn p s
  ack : s.poll = .ackLock ∨ s.poll = .ackSignal →
    s.pipe = [] ∧ ∃ msg, (s.mgr = .wait msg ∨ s.mgr = .waiting msg) ∧ ¬Ends msg
  ending : Ending s.mgr → s.poll = .endUnlock ∨ s.poll = .exited

theorem stage_start (arr : Nat → PollFd) (p : AdminPipes) (maxSockets : UInt32) :
    Stage p (start arr p maxSockets) := by
  refine ⟨?_, fun _ => ⟨rfl, rfl⟩, ?_, False.elim⟩
  · simp [start, pollThreadInit]
  · intro hack
    rcases hack with hack | hack <;> cases hack

theorem fits_dataPipeMsg {t : PollthrPrivate} (h : t.fds = [p.priRd]) :
    Fits p t (dataPipeMsg p.dataRd) := by
  constructor
  · intro _
    rw [h]
    simpa [dataPipeMsg] using p.distinct
  · intro hends
    cases hends.1

theorem fits_request {t : PollthrPrivate} (r : SocketRequest p)
    (h : r.msg.fdAction = .addFd → r.msg.fd ∉ t.fds) : Fits p t r.msg := by
  refine ⟨h, fun hends => ?_⟩
  rw [Ends, r.socket] at hends
  cases hends.2

theorem fits_destructMsg (t : PollthrPrivate) : Fits p t (destructMsg p.priRd) :=
  ⟨nofun, fun _ => rfl⟩

/-- The primary pipe keeps its slot. -/
theorem head_kept {t t' : PollthrPrivate} {msg : ThrMsg} (hpos : t.numPollfds ≠ 0)
    (h : pollthrPriPipeProcessFunc t msg = some t') :
    (t'.pollfdArr 0).fd = (t.pollfdArr 0).fd := by
  unfold pollthrPriPipeProcessFunc at h
  split at h
  · unfold addFd at h
    split at h
    · cases h
    · obtain rfl := Option.some.inj h
      simp only
      rw [Function.update_of_ne hpos.symm]
  · obtain rfl := Option.some.inj h
    unfold deleteFd
    split
    · rfl
    · split
      · rfl
      · rename_i d hd
        have hle := (findFrom_some hd).1
        simp only
        rw [shiftDown_apply, if_neg (by omega)]

/-- The manager side goes on by itself, and the thread stays where it is. -/
theorem Stage.mgr_moves (h : Stage p s) (hpoll : s'.poll = s.poll) (hthr : s'.thr = s.thr)
    (hidle : ∀ msg, s.mgr ≠ .wait msg ∧ s.mgr ≠ .waiting msg)
    (hturn : Turn p s → Turn p s') (hending : Ending s'.mgr → Ending s.mgr) : Stage p s' := by
  constructor
  · rw [hthr]
    exact h.head
  · intro hserving
    rw [hpoll] at hserving
    exact hturn (h.turn hserving)
  · intro hack
    rw [hpoll] at hack
    obtain ⟨-, msg, hmgr, -⟩ := h.ack hack
    exact absurd hmgr (not_or.mpr (hidle msg))
  · intro hend
    rw [hpoll]
    exact h.ending (hending hend)

theorem stage_mgrStep (h : Stage p s) (hs : mgrStep p s = some s') : Stage p s' := by
  unfold mgrStep at hs
  cases hpc : s.mgr with
  | initWaiting | ready | waiting | joined =>
    rw [hpc] at hs
    cases hs
  | initLock | initRelock | lock =>
    simp only [hpc, Option.ite_none_right_eq_some, Option.some.injEq] at hs
    obtain ⟨-, rfl⟩ := hs
    refine h.mgr_moves rfl rfl (by simp [hpc]) ?_ False.elim
    simp only [Turn, hpc]
    exact id
  | relock | join =>
    simp only [hpc, Option.ite_none_right_eq_some, Option.some.injEq] at hs
    obtain ⟨-, rfl⟩ := hs
    refine h.mgr_moves rfl rfl (by simp [hpc]) ?_ ?_
    · simp only [Turn, hpc]
      exact id
    · rw [hpc]
      exact id
  | initWait | initUnlock =>
    simp only [hpc, Option.some.injEq] at hs
    obtain rfl := hs
    refine h.mgr_moves rfl rfl (by simp [hpc]) ?_ False.elim
    simp only [Turn, hpc]
    exact id
  | addDataPipe =>
    simp only [hpc, Option.some.injEq] at hs
    obtain rfl := hs
    refine h.mgr_moves rfl rfl (by simp [hpc]) ?_ False.elim
    simp only [Turn, hpc]
    intro hturn
    exact ⟨hturn.1, fits_dataPipeMsg hturn.2⟩
  | write msg =>
    simp only [hpc, Option.some.injEq] at hs
    obtain rfl := hs
    refine h.mgr_moves rfl rfl (by simp [hpc]) ?_ False.elim
    simp only [Turn, hpc]
    intro hturn
    rw [hturn.1]
    exact .inl ⟨rfl, hturn.2⟩
  | wait msg =>
    simp only [hpc, Option.some.injEq] at hs
    obtain rfl := hs
    refine ⟨h.head, fun hserving => ?_, fun hack => ?_, False.elim⟩
    · have hturn := h.turn hserving
      simp only [Turn, hpc] at hturn
      exact hturn
    · obtain ⟨hpipe, msg', hmgr, hends⟩ := h.ack hack
      rw [hpc] at hmgr
      rcases hmgr with hmgr | hmgr <;> cases hmgr
      exact ⟨hpipe, msg, .inr rfl, hends⟩
  | unlock msg =>
    simp only [hpc, Option.some.injEq] at hs
    obtain rfl := hs
    unfold afterUnlock
    split
    · refine h.mgr_moves rfl rfl (by simp [hpc]) ?_ False.elim
      simp only [Turn, hpc]
      exact id
    · rename_i hact htype
      refine h.mgr_moves rfl rfl (by simp [hpc]) ?_ ?_
      · simp only [Turn, hpc]
        exact id
      · rw [hpc]
        exact fun _ => ⟨hact, htype⟩
    · refine h.mgr_moves rfl rfl (by simp [hpc]) ?_ False.elim
      simp only [Turn, hpc]
      exact id

/-- With a message in the pipe the manager side is in its wait, or on its way into it. -/
theorem Turn.of_message {msg : ThrMsg} {rest : List ThrMsg} (h : Turn p s)
    (hpipe : s.pipe = msg :: rest) :
    (s.mgr = .wait msg ∨ s.mgr = .waiting msg) ∧ rest = [] ∧ Fits p s.thr msg := by
  unfold Turn at h
  cases hmgr : s.mgr with
  | initLock | initWait | initWaiting | initRelock | initUnlock | addDataPipe | lock | write =>
    simp only [hmgr, hpipe] at h
    cases h.1
  | ready | relock | unlock | join | joined =>
    simp only [hmgr, hpipe] at h
    cases h
  | wait msg' | waiting msg' =>
    simp only [hmgr, hpipe] at h
    rcases h with ⟨hmsg, hfits⟩ | ⟨hnil, -⟩
    · obtain ⟨rfl, rfl⟩ := List.cons.inj hmsg
      exact ⟨by simp, rfl, hfits⟩
    · cases hnil

theorem turn_signalInit (h : Turn p s) {poll : PollPc} :
    Turn p { s with mgr := signalInit s.mgr, poll := poll } := by
  unfold Turn at h ⊢
  cases hpc : s.mgr <;> simpa only [hpc, signalInit] using h

theorem ending_signalInit {pc : MgrPc} (h : Ending (signalInit pc)) : Ending pc := by
  cases pc with
  | initWaiting => cases h
  | _ => exact h

/-- The thread goes on and leaves everything else as it is. -/
theorem Stage.poll_moves (h : Stage p s) (hmgr : s'.mgr = s.mgr) (hpipe : s'.pipe = s.pipe)
    (hthr : s'.thr = s.thr) (hserving : serving s'.poll = true → serving s.poll = true)
    (hack : s'.poll = .ackLock ∨ s'.poll = .ackSignal → s.poll = .ackLock ∨ s.poll = .ackSignal)
    (hend : s.poll = .endUnlock ∨ s.poll = .exited → s'.poll = .endUnlock ∨ s'.poll = .exited) :
    Stage p s' := by
  constructor
  · rw [hthr]
    exact h.head
  · intro hnow
    have hturn := h.turn (hserving hnow)
    unfold Turn at hturn ⊢
    rw [hmgr, hpipe, hthr]
    exact hturn
  · intro hnow
    rw [hmgr, hpipe]
    exact h.ack (hack hnow)
  · intro hnow
    rw [hmgr] at hnow
    exact hend (h.ending hnow)

/-- The thread has read a message. -/
theorem stage_message {msg : ThrMsg} {rest : List ThrMsg} {t : PollthrPrivate}
    (h : Stage p s) (hpc : s.poll = .loop) (hpos : s.thr.numPollfds ≠ 0)
    (hpipe : s.pipe = msg :: rest) (ht : pollthrPriPipeProcessFunc s.thr msg = some t) :
    Stage p { s with
      thr := t
      pipe := rest
      poll := if SelfDestruct s.thr msg then .loop else .ackLock } := by
  obtain ⟨hmgr, rfl, hfits⟩ := (h.turn (by rw [hpc]; rfl)).of_message hpipe
  have hhead : (t.pollfdArr 0).fd = p.priRd := (head_kept hpos ht).trans h.head
  have hnot : ¬Ending s.mgr := by
    rcases hmgr with hmgr | hmgr <;> rw [hmgr] <;> exact id
  by_cases hself : SelfDestruct s.thr msg
  · simp only [if_pos hself]
    refine ⟨hhead, fun _ => ?_, by simp, fun hend => absurd hend hnot⟩
    have hzero := numPollfds_of_selfDestruct hself ht
    unfold Turn
    rcases hmgr with hmgr | hmgr <;> simp only [hmgr] <;> exact .inr ⟨trivial, hzero⟩
  · simp only [if_neg hself]
    refine ⟨hhead, by simp [serving], fun _ => ⟨rfl, msg, hmgr, fun hends => ?_⟩,
      fun hend => absurd hend hnot⟩
    exact hself ⟨hends.1, .inl ((hfits.ends hends).trans h.head.symm)⟩

/-- The acknowledgement finds the manager side asleep: up to its wait it holds the mutex. -/
theorem Stage.asleep_of_ackSignal (hl : Locked s) (h : Stage p s) (hpc : s.poll = .ackSignal) :
    s.pipe = [] ∧ ∃ msg, s.mgr = .waiting msg ∧ ¬Ends msg := by
  obtain ⟨hpipe, msg, hmgr | hmgr, hends⟩ := h.ack (.inr hpc)
  · have hboth := hl.addDel
    rw [hmgr, hpc] at hboth
    exact absurd hboth Owned.not_both
  · exact ⟨hpipe, msg, hmgr, hends⟩

theorem stage_pollStep (hl : Locked s) (h : Stage p s) (hs : pollStep s = some s') :
    Stage p s' := by
  unfold pollStep at hs
  cases hpc : s.poll with
  | initLock | ackLock | endLock =>
    simp only [hpc, Option.ite_none_right_eq_some, Option.some.injEq] at hs
    obtain ⟨-, rfl⟩ := hs
    refine h.poll_moves rfl rfl rfl ?_ ?_ ?_ <;> simp [hpc, serving]
  | initUnlock | ackUnlock | endUnlock =>
    simp only [hpc, Option.some.injEq] at hs
    obtain rfl := hs
    refine h.poll_moves rfl rfl rfl ?_ ?_ ?_ <;> simp [hpc, serving]
  | initSignal =>
    simp only [hpc, Option.some.injEq] at hs
    obtain rfl := hs
    refine ⟨h.head, fun _ => turn_signalInit (h.turn (by rw [hpc]; rfl)), by simp, fun hend => ?_⟩
    have hwas := h.ending (ending_signalInit hend)
    rw [hpc] at hwas
    rcases hwas with hwas | hwas <;> cases hwas
  | loop =>
    simp only [hpc] at hs
    split at hs
    · obtain rfl := Option.some.inj hs
      refine h.poll_moves rfl rfl rfl ?_ ?_ ?_ <;> simp [hpc, serving]
    · rename_i hpos
      split at hs
      · cases hs
      · rename_i msg rest hpipe
        obtain ⟨t, ht, rfl⟩ := Option.map_eq_some_iff.mp hs
        exact stage_message h hpc hpos hpipe ht
  | ackSignal =>
    simp only [hpc, Option.some.injEq] at hs
    obtain rfl := hs
    obtain ⟨hpipe, msg, hmgr, hends⟩ := h.asleep_of_ackSignal hl hpc
    refine ⟨h.head, fun _ => ?_, by simp, fun hend => ?_⟩
    · simp only [Turn, hmgr, signalAddDel]
      exact hpipe
    · rw [hmgr] at hend
      exact absurd hend hends
  | endSignal =>
    simp only [hpc, Option.some.injEq] at hs
    obtain rfl := hs
    exact ⟨h.head, by simp [serving], by simp, fun _ => .inl rfl⟩
  | exited =>
    rw [hpc] at hs
    cases hs

theorem stage_request {msg : ThrMsg} (h : Stage p s) (hpc : s.mgr = .ready)
    (hfits : Fits p s.thr msg) : Stage p (request s msg) := by
  have hlock : ∀ n, Stage p { s with numSockets := n, mgr := .lock msg } := by
    intro n
    refine h.mgr_moves rfl rfl (by simp [hpc]) ?_ False.elim
    simp only [Turn, hpc]
    exact fun hpipe => ⟨hpipe, hfits⟩
  unfold request
  split
  · split
    · exact h
    · exact hlock _
  · exact hlock _

def Good (p : AdminPipes) (s : Sys) : Prop := Locked s ∧ Stage p s

theorem good_step {a : Act p} (h : Good p s) (hok : AddsNew p s a)
    (hs : step p s a = some s') : Good p s' := by
  refine ⟨locked_step h.1 hs, ?_⟩
  cases a with
  | mgr => exact stage_mgrStep h.2 hs
  | request r =>
    simp only [step, Option.ite_none_right_eq_some, Option.some.injEq] at hs
    obtain ⟨hpc, rfl⟩ := hs
    exact stage_request h.2 hpc (fits_request r hok)
  | free =>
    simp only [step, Option.ite_none_right_eq_some, Option.some.injEq] at hs
    obtain ⟨hpc, rfl⟩ := hs
    refine h.2.mgr_moves rfl rfl (by simp [hpc]) ?_ False.elim
    simp only [Turn, hpc]
    exact fun hpipe => ⟨hpipe, fits_destructMsg s.thr⟩
  | poll => exact stage_pollStep h.1 h.2 hs
  | pollFails =>
    simp only [step, Option.ite_none_right_eq_some, Option.some.injEq] at hs
    obtain ⟨⟨hpc, -⟩, rfl⟩ := hs
    refine h.2.poll_moves rfl rfl rfl ?_ ?_ ?_ <;> simp [hpc, serving]

theorem good_start (arr : Nat → PollFd) (p : AdminPipes) (maxSockets : UInt32) :
    Good p (start arr p maxSockets) := by
  have hfree : Owned false false none := ⟨iff_of_false nofun nofun, iff_of_false nofun nofun⟩
  exact ⟨⟨hfree, hfree⟩, stage_start arr p maxSockets⟩

theorem good_ownStep {side : Side} (h : Good p s) (hs : ownStep p s side = some s') :
    Good p s' := by
  cases side with
  | mgr => exact good_step (a := .mgr) h trivial hs
  | poll => exact good_step (a := .poll) h trivial hs

/-! ## At rest -/

/-- A side that holds a mutex goes on. -/
theorem free_of_stuck (hl : Locked s) (hm : mgrStep p s = none) (hp : pollStep s = none) :
    s.initMutex = none ∧ s.addDelMutex = none := by
  have hmgr : s.mgr.holdsInit = false ∧ s.mgr.holdsAddDel = false := by
    unfold mgrStep at hm
    cases hpc : s.mgr with
    | initWait | initUnlock | write | wait | unlock =>
      rw [hpc] at hm
      cases hm
    | _ => exact ⟨rfl, rfl⟩
  have hpoll : s.poll.holdsInit = false ∧ s.poll.holdsAddDel = false := by
    unfold pollStep at hp
    cases hpc : s.poll with
    | initSignal | initUnlock | ackSignal | ackUnlock | endSignal | endUnlock =>
      rw [hpc] at hp
      cases hp
    | _ => exact ⟨rfl, rfl⟩
  have hnone : ∀ mutex, Owned false false mutex → mutex = none := by
    intro mutex h
    rcases mutex with _ | side
    · rfl
    · cases side with
      | mgr => cases h.byMgr.mpr rfl
      | poll => cases h.byPoll.mpr rfl
  have hi := hl.init
  have ha := hl.addDel
  rw [hmgr.1, hpoll.1] at hi
  rw [hmgr.2, hpoll.2] at ha
  exact ⟨hnone _ hi, hnone _ ha⟩

/-- The thread is at rest in its loop without a message it could handle, or it has ended. -/
theorem poll_of_stuck (hl : Locked s) (hm : mgrStep p s = none) (hp : pollStep s = none) :
    s.poll = .exited ∨ (s.poll = .loop ∧ s.thr.numPollfds ≠ 0 ∧
      ∀ msg rest, s.pipe = msg :: rest → pollthrPriPipeProcessFunc s.thr msg = none) := by
  obtain ⟨hi, ha⟩ := free_of_stuck hl hm hp
  unfold pollStep at hp
  cases hpc : s.poll with
  | initLock | ackLock | endLock =>
    simp only [hpc, hi, ha, if_true] at hp
    cases hp
  | initSignal | initUnlock | ackSignal | ackUnlock | endSignal | endUnlock =>
    rw [hpc] at hp
    cases hp
  | loop =>
    simp only [hpc] at hp
    split at hp
    · cases hp
    · rename_i hpos
      refine .inr ⟨rfl, hpos, fun msg rest hpipe => ?_⟩
      simp only [hpipe, Option.map_eq_none_iff] at hp
      exact hp
  | exited => exact .inl rfl

/-- At rest no call is under way that has not lost its wake-up. -/
theorem idle_or_lost_of_stuck (h : Good p s) (hm : mgrStep p s = none)
    (hp : pollStep s = none) : Idle s ∨ LostWakeup s := by
  obtain ⟨hi, ha⟩ := free_of_stuck h.1 hm hp
  have hrest := poll_of_stuck h.1 hm hp
  unfold mgrStep at hm
  cases hpc : s.mgr with
  | initLock | initRelock | lock | relock =>
    simp only [hpc, hi, ha, if_true] at hm
    cases hm
  | initWait | initUnlock | addDataPipe | write | wait | unlock =>
    rw [hpc] at hm
    cases hm
  | ready => exact .inl (.inl hpc)
  | joined => exact .inl (.inr hpc)
  | initWaiting =>
    refine .inr (.inl ⟨hpc, ?_⟩)
    rcases hrest with hpoll | ⟨hpoll, -⟩ <;> rw [hpoll] <;> rfl
  | waiting msg =>
    rcases hrest with hpoll | ⟨hpoll, hpos, hstuck⟩
    · exact .inr (.inr ⟨msg, hpc, not_willSignal_of_ended (.inr hpoll)⟩)
    · -- its message is in the pipe, and the thread can handle it
      have hturn := h.2.turn (by rw [hpoll]; rfl)
      simp only [Turn, hpc] at hturn
      rcases hturn with ⟨hpipe, hfits⟩ | ⟨-, hzero⟩
      · obtain ⟨t, ht⟩ := handled_of_unpolled hfits.fresh
        rw [hstuck msg [] hpipe] at ht
        cases ht
      · exact absurd hzero hpos
  | join =>
    have hend := h.2.ending (by rw [hpc]; trivial)
    have hexit : s.poll = .exited := by
      rcases hrest with hpoll | ⟨hpoll, -⟩
      · exact hpoll
      · rw [hpoll] at hend
        rcases hend with hend | hend <;> cases hend
    rw [hpc] at hm
    simp only [hexit, if_true] at hm
    cases hm

/-! ## Asleep for good -/

/-- The manager side sleeps, and no signal comes that it sleeps for. -/
def Forgotten (s : Sys) : Prop :=
  (s.mgr = .initWaiting ∧ s.poll.initSignalled = true) ∨
    ((∃ msg, s.mgr = .waiting msg) ∧ (s.poll = .endUnlock ∨ s.poll = .exited))

/-- A wake-up for a request is lost only to a thread that has ended. -/
theorem forgotten_of_lost (h : Stage p s) (hlost : LostWakeup s) : Forgotten s := by
  rcases hlost with hinit | ⟨msg, hpc, hwill⟩
  · exact .inl hinit
  · refine .inr ⟨⟨msg, hpc⟩, ?_⟩
    have hturn : serving s.poll = true → WillSignal s := by
      intro hserving
      have hturn := h.turn hserving
      simp only [Turn, hpc] at hturn
      have hmore : s.pipe ≠ [] ∨ s.thr.numPollfds = 0 := by
        rcases hturn with ⟨hpipe, -⟩ | ⟨-, hzero⟩
        · exact .inl (by simp [hpipe])
        · exact .inr hzero
      unfold WillSignal
      cases hpoll : s.poll with
      | initLock | initSignal | initUnlock | loop | ackUnlock => exact hmore
      | _ =>
        rw [hpoll] at hserving
        cases hserving
    cases hpoll : s.poll with
    | endUnlock => exact .inl rfl
    | exited => exact .inr rfl
    | initLock | initSignal | initUnlock | loop | ackUnlock =>
      exact absurd (hturn (by rw [hpoll]; rfl)) hwill
    | ackLock | ackSignal | endLock | endSignal =>
      refine absurd ?_ hwill
      simp only [WillSignal, hpoll]

theorem initSignalled_kept (hs : pollStep s = some s') (h : s.poll.initSignalled = true) :
    s'.poll.initSignalled = true := by
  unfold pollStep at hs
  cases hpc : s.poll with
  | initLock | initSignal =>
    rw [hpc] at h
    cases h
  | initUnlock | ackSignal | ackUnlock | endSignal | endUnlock =>
    simp only [hpc, Option.some.injEq] at hs
    obtain rfl := hs
    rfl
  | ackLock | endLock =>
    simp only [hpc, Option.ite_none_right_eq_some, Option.some.injEq] at hs
    obtain ⟨-, rfl⟩ := hs
    rfl
  | loop =>
    simp only [hpc] at hs
    split at hs
    · obtain rfl := Option.some.inj hs
      rfl
    · split at hs
      · cases hs
      · obtain ⟨t, -, rfl⟩ := Option.map_eq_some_iff.mp hs
        simp only
        split <;> rfl
  | exited =>
    rw [hpc] at hs
    cases hs

theorem forgotten_pollStep (h : Forgotten s) (hs : pollStep s = some s') :
    Forgotten s' ∧ s'.mgr = s.mgr := by
  rcases h with ⟨hpc, hsig⟩ | ⟨⟨msg, hpc⟩, hend⟩
  · have hmgr : s'.mgr = s.mgr := by
      rcases mgr_pollStep hs with ⟨-, hpoll⟩ | ⟨heq, -⟩ | ⟨heq, -⟩
      · rw [hpoll] at hsig
        cases hsig
      · rw [heq, hpc]
        rfl
      · exact heq
    exact ⟨.inl ⟨hmgr.trans hpc, initSignalled_kept hs hsig⟩, hmgr⟩
  · unfold pollStep at hs
    rcases hend with hend | hend
    · simp only [hend, Option.some.injEq] at hs
      obtain rfl := hs
      exact ⟨.inr ⟨⟨msg, hpc⟩, .inr rfl⟩, rfl⟩
    · rw [hend] at hs
      cases hs

/-- Neither the manager side nor a new call gets it out of its sleep. -/
theorem forgotten_step {a : Act p} (h : Forgotten s) (hs : step p s a = some s') :
    Forgotten s' ∧ s'.mgr = s.mgr := by
  have hpc : s.mgr = .initWaiting ∨ ∃ msg, s.mgr = .waiting msg := by
    rcases h with ⟨hpc, -⟩ | ⟨hpc, -⟩
    · exact .inl hpc
    · exact .inr hpc
  have hready : s.mgr ≠ .ready := by
    rcases hpc with hpc | ⟨msg, hpc⟩ <;> rw [hpc] <;> nofun
  cases a with
  | mgr =>
    simp only [step, mgrStep] at hs
    rcases hpc with hpc | ⟨msg, hpc⟩ <;> rw [hpc] at hs <;> cases hs
  | request r =>
    simp only [step, if_neg hready] at hs
    cases hs
  | free =>
    simp only [step, if_neg hready] at hs
    cases hs
  | poll => exact forgotten_pollStep h hs
  | pollFails =>
    simp only [step, Option.ite_none_right_eq_some, Option.some.injEq] at hs
    obtain ⟨⟨hloop, -⟩, rfl⟩ := hs
    rcases h with ⟨hpc, -⟩ | ⟨-, hend⟩
    · exact ⟨.inl ⟨hpc, rfl⟩, rfl⟩
    · rw [hloop] at hend
      rcases hend with hend | hend <;> cases hend

/-! ## Calls -/

/-- A message is in the pipe only while its call is in the wait or about to be. -/
theorem work_le (h : Stage p s) : work s ≤ 72 := by
  have hmgr : mgrTodo s.mgr ≤ 13 := by
    cases s.mgr <;> simp [mgrTodo]
  have hmessage : serving s.poll = true →
      s.pipe = [] ∨ (mgrTodo s.mgr ≤ 5 ∧ s.pipe.length = 1) := by
    intro hserving
    cases hpipe : s.pipe with
    | nil => exact .inl rfl
    | cons msg rest =>
      obtain ⟨hpc, rfl, -⟩ := (h.turn hserving).of_message hpipe
      rcases hpc with hpc | hpc <;> simp [hpc, mgrTodo]
  unfold work
  cases hpoll : s.poll with
  | initLock | initSignal | initUnlock | loop | ackUnlock =>
    rcases hmessage (by rw [hpoll]; rfl) with hpipe | ⟨hle, hlen⟩
    · rw [hpipe]
      simp only [pollTodo, List.length_nil]
      omega
    · rw [hlen]
      simp only [pollTodo]
      omega
  | ackLock | ackSignal =>
    rw [(h.ack (by simp [hpoll])).1]
    simp only [pollTodo, List.length_nil]
    omega
  | endLock | endSignal | endUnlock | exited =>
    simp only [pollTodo]
    omega

theorem settles_of_good (h : Good p s) : Settles p s := by
  have hgood : ∀ sides t, run (ownStep p) s sides = some t → Good p t := fun sides t ht =>
    (always_of_step (fun _ _ _ h hs => good_ownStep h hs) h sides).last ht
  constructor
  · intro sides t ht
    have hlen := length_le_of_decreasing (fun _ _ _ h hs => good_ownStep h hs)
      (fun _ _ _ _ hs => work_ownStep hs) h ht
    have hle := work_le h.2
    omega
  · intro sides t ht hstuck
    exact idle_or_lost_of_stuck (hgood sides t ht) (hstuck .mgr) (hstuck .poll)
  · intro hlost acts t ht
    have hstay : ∀ u a u', Forgotten u ∧ u.mgr = s.mgr → step p u a = some u' →
        Forgotten u' ∧ u'.mgr = s.mgr := by
      intro u a u' hu hs
      obtain ⟨hnext, hmgr⟩ := forgotten_step hu.1 hs
      exact ⟨hnext, hmgr.trans hu.2⟩
    exact ((always_of_step hstay ⟨forgotten_of_lost h.2 hlost, rfl⟩ acts).last ht).2

/-- Left to themselves, the manager side and its thread come to rest within 72 steps, in any
order, from every state of every run in which no socket is added twice. No call is under way
then that has not lost its wake-up, and one that has never returns. -/
theorem calls_return (arr : Nat → PollFd) (p : AdminPipes) (maxSockets : UInt32)
    (acts : List (Act p)) (h : Guarded (step p) (AddsNew p) (start arr p maxSockets) acts) :
    Always (step p) (Settles p) (start arr p maxSockets) acts := by
  have hgood : Always (step p) (Good p) (start arr p maxSockets) acts :=
    always_of_guarded (fun _ _ _ h hok hs => good_step h hok hs) (good_start arr p maxSockets) h
  exact hgood.mono fun _ => settles_of_good

/-- A manager is created, a socket is added, `poll` fails, and the manager is freed. -/
def failedPoll : List (Act pipes) :=
  [.mgr, .mgr, .poll, .poll, .poll, .mgr, .mgr,
    .mgr, .mgr, .mgr, .mgr, .poll, .poll, .poll, .poll, .mgr, .mgr,
    .request (addTwo false), .mgr, .mgr, .mgr, .poll, .poll, .poll, .poll, .mgr, .mgr,
    .pollFails, .poll, .poll, .poll, .free, .mgr, .mgr, .mgr]

theorem calls_return_failed_poll :
    Always (step pipes) (Settles pipes) (start emptySlots pipes 200) failedPoll ∧
      ∃ s, run (step pipes) (start emptySlots pipes 200) failedPoll = some s ∧
        s.mgr = .waiting (destructMsg pipes.priRd) ∧ s.poll = .exited := by
  refine ⟨calls_return emptySlots pipes 200 failedPoll (by decide +kernel), ?_⟩
  exact ⟨_, rfl, rfl, rfl⟩

end OfConnect.PollThr.Returns
