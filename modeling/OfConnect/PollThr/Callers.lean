import Mathlib.Algebra.BigOperators.Group.Finset.Basic
import Mathlib.Data.Fintype.Card
import OfConnect.PollThr.Requests

/-!
# Calls that wait together

A signal may wake another call than the one whose message it is for, and several calls may wait
at once. Still no call is left behind: the thread owes as many signals as there are calls that
wait or are about to, so that none is issued to nobody. Calls for different sockets return, all
of them, in at most eleven steps each, in whatever order the threads come.
-/

namespace OfConnect.PollThr.Callers

open OfConnect.Lib.Run OfConnect.PollThr.Thread OfConnect.PollThr.Ownership
open OfConnect.PollThr.Requests

section

variable {ι : Type} [DecidableEq ι] {p : AdminPipes} {reqs : ι → SocketRequest p}
variable {s s' : Sys ι} {a : Act ι}

/-! ## Signals and sleepers -/

/-- The thread has applied a message and not signalled yet. -/
def acking : PollPc → Nat
  | .lock | .signal => 1
  | .poll | .unlock => 0

/-- The signals that the thread has still to issue for what was written. -/
def owed (s : Sys ι) : Nat := s.pipe.length + acking s.poll

/-- The call that holds the mutex has written its message, and will wait. -/
def drowsy (pc : ι → Pc) : Option (Owner ι) → Nat
  | some (.caller i) => if pc i = .wait then 1 else 0
  | some .pollThr | none => 0

def sleeping (s : Sys ι) : Nat := s.waiters.length + drowsy s.pc s.mutex

/-- A call that does not hold the mutex goes on. -/
theorem drowsy_update (hl : Locked s) {i : ι} (pc : Pc) (hold : (s.pc i).holds = false) :
    drowsy (Function.update s.pc i pc) s.mutex = drowsy s.pc s.mutex := by
  cases hm : s.mutex with
  | none => rfl
  | some owner =>
    cases owner with
    | pollThr => rfl
    | caller j =>
      have hne : j ≠ i := by
        intro heq
        rw [← heq, (hl.caller j).mpr hm] at hold
        cases hold
      simp only [drowsy, Function.update_of_ne hne]

/-- The thread owes a signal to every call that waits or is about to, and to no other. -/
theorem balanced_step (hl : Locked s) (h : owed s = sleeping s) (hs : step reqs s a = some s') :
    owed s' = sleeping s' := by
  unfold owed sleeping at h ⊢
  have hs := step_cases reqs hs
  cases a with
  | call i =>
    obtain ⟨hpc, n, pc, -, rfl⟩ := hs
    simp only [Sys.goto, drowsy_update hl pc (by rw [hpc]; rfl : (s.pc i).holds = false)]
    exact h
  | lock i | relock i =>
    obtain ⟨-, hfree, rfl⟩ := hs
    simp only [hfree, drowsy, Sys.goto, Function.update_self, reduceCtorEq, if_false] at h ⊢
    exact h
  | write i =>
    obtain ⟨hpc, rfl⟩ := hs
    have hmine := (hl.caller i).mp (by rw [hpc]; rfl)
    simp only [hmine, drowsy, hpc, Sys.goto, Function.update_self, reduceCtorEq, if_false,
      if_true, List.length_append, List.length_singleton] at h ⊢
    omega
  | wait i =>
    obtain ⟨hpc, rfl⟩ := hs
    have hmine := (hl.caller i).mp (by rw [hpc]; rfl)
    simp only [hmine, drowsy, hpc, Sys.goto, if_true, List.length_append,
      List.length_singleton] at h ⊢
    omega
  | unlock i =>
    obtain ⟨hpc, rfl⟩ := hs
    have hmine := (hl.caller i).mp (by rw [hpc]; rfl)
    simp only [hmine, drowsy, hpc, Sys.goto, reduceCtorEq, if_false] at h ⊢
    exact h
  | leave i =>
    obtain ⟨hpc, n, rfl⟩ := hs
    simp only [Sys.goto, drowsy_update hl .returned (by rw [hpc]; rfl : (s.pc i).holds = false)]
    exact h
  | apply =>
    obtain ⟨hpoll, i, rest, t, hpipe, -, rfl⟩ := hs
    simp only [hpoll, hpipe, acking, List.length_cons] at h ⊢
    exact h
  | pollLock =>
    obtain ⟨hpoll, hfree, rfl⟩ := hs
    simp only [hpoll, hfree, acking, drowsy] at h ⊢
    exact h
  | signal woken =>
    cases woken with
    | none =>
      obtain ⟨hpoll, hnobody, rfl⟩ := hs
      have hmine := hl.pollThr.mp (by rw [hpoll]; rfl)
      simp only [hpoll, hmine, hnobody, acking, drowsy, List.length_nil] at h
      omega
    | some w =>
      obtain ⟨hpoll, hwait, rfl⟩ := hs
      have hmine := hl.pollThr.mp (by rw [hpoll]; rfl)
      have hlen := List.length_erase_of_mem hwait
      have hpos := List.length_pos_of_mem hwait
      simp only [hpoll, hmine, acking, drowsy, Sys.goto] at h ⊢
      omega
  | pollUnlock =>
    obtain ⟨hpoll, rfl⟩ := hs
    have hmine := hl.pollThr.mp (by rw [hpoll]; rfl)
    simp only [hpoll, hmine, acking, drowsy] at h ⊢
    exact h

/-! ## Each message is applied once -/

/-- The message is not written yet. -/
def unsent : Pc → Bool
  | .call | .lock | .write => true
  | _ => false

/-- A message that is not written is nowhere, and one in the pipe is there once and not applied. -/
structure Once (s : Sys ι) : Prop where
  unwritten : ∀ i, unsent (s.pc i) = true → i ∉ s.pipe ∧ i ∉ s.applied
  nodup : s.pipe.Nodup
  pending : ∀ i ∈ s.pipe, i ∉ s.applied

theorem Once.goto (h : Once s) {i : ι} {pc : Pc} (hpipe : s'.pipe = s.pipe)
    (happlied : s'.applied = s.applied) (hpc : s'.pc = Function.update s.pc i pc)
    (hunsent : unsent pc = true → unsent (s.pc i) = true) : Once s' := by
  refine ⟨fun j hj => ?_, by rw [hpipe]; exact h.nodup, by rw [hpipe, happlied]; exact h.pending⟩
  rw [hpipe, happlied]
  apply h.unwritten j
  rw [hpc, Function.update_apply] at hj
  split at hj
  · rename_i heq
    rw [heq]
    exact hunsent hj
  · exact hj

theorem once_step (h : Once s) (hs : step reqs s a = some s') : Once s' := by
  have hs := step_cases reqs hs
  cases a with
  | call i =>
    obtain ⟨hpc, n, pc, -, rfl⟩ := hs
    exact h.goto rfl rfl rfl fun _ => by rw [hpc]; rfl
  | lock i =>
    obtain ⟨hpc, -, rfl⟩ := hs
    exact h.goto rfl rfl rfl fun _ => by rw [hpc]; rfl
  | write i =>
    obtain ⟨hpc, rfl⟩ := hs
    obtain ⟨hpipe, happlied⟩ := h.unwritten i (by rw [hpc]; rfl)
    refine ⟨fun j hj => ?_, h.nodup.append (List.nodup_singleton i) (by simpa using hpipe),
      fun j hj => ?_⟩
    · have hne : j ≠ i := by
        intro heq
        simp [Sys.goto, heq, unsent] at hj
      simp only [Sys.goto, Function.update_of_ne hne] at hj
      obtain ⟨hj₁, hj₂⟩ := h.unwritten j hj
      exact ⟨by simpa [Sys.goto, hne] using hj₁, hj₂⟩
    · rcases List.mem_append.mp hj with hj | hj
      · exact h.pending j hj
      · rw [List.mem_singleton.mp hj]
        exact happlied
  | wait i =>
    obtain ⟨-, rfl⟩ := hs
    exact h.goto rfl rfl rfl nofun
  | relock i =>
    obtain ⟨-, -, rfl⟩ := hs
    exact h.goto rfl rfl rfl nofun
  | unlock i =>
    obtain ⟨-, rfl⟩ := hs
    exact h.goto rfl rfl rfl nofun
  | leave i =>
    obtain ⟨-, n, rfl⟩ := hs
    exact h.goto rfl rfl rfl nofun
  | apply =>
    obtain ⟨-, i, rest, t, hpipe, -, rfl⟩ := hs
    have hnodup := h.nodup
    rw [hpipe] at hnodup
    obtain ⟨hnew, hrest⟩ := List.nodup_cons.mp hnodup
    refine ⟨fun j hj => ?_, hrest, fun j hj => ?_⟩
    · obtain ⟨hj₁, hj₂⟩ := h.unwritten j hj
      rw [hpipe, List.mem_cons, not_or] at hj₁
      exact ⟨hj₁.2, by simp [hj₁.1, hj₂]⟩
    · have hold := h.pending j (by rw [hpipe]; exact List.mem_cons_of_mem i hj)
      have hne : j ≠ i := by
        intro heq
        exact hnew (heq ▸ hj)
      simp [hold, hne]
  | pollLock =>
    obtain ⟨-, -, rfl⟩ := hs
    exact ⟨h.unwritten, h.nodup, h.pending⟩
  | signal woken =>
    cases woken with
    | none =>
      obtain ⟨-, -, rfl⟩ := hs
      exact ⟨h.unwritten, h.nodup, h.pending⟩
    | some w =>
      obtain ⟨-, -, rfl⟩ := hs
      exact h.goto rfl rfl rfl nofun
  | pollUnlock =>
    obtain ⟨-, rfl⟩ := hs
    exact ⟨h.unwritten, h.nodup, h.pending⟩

/-- The thread polls no socket of a message that it has not applied. -/
structure Unpolled (reqs : ι → SocketRequest p) (s : Sys ι) : Prop where
  synced : Synced p s.thr
  fresh : ∀ i, i ∉ s.applied → (reqs i).msg.fd ∉ s.thr.fds

/-- Only an applied message changes what the thread polls. -/
theorem thr_kept (hs : step reqs s a = some s') (ha : a ≠ .apply) :
    s'.thr = s.thr ∧ s'.applied = s.applied := by
  have hs := step_cases reqs hs
  cases a with
  | apply => exact absurd rfl ha
  | call i =>
    obtain ⟨-, n, pc, -, rfl⟩ := hs
    exact ⟨rfl, rfl⟩
  | leave i =>
    obtain ⟨-, n, rfl⟩ := hs
    exact ⟨rfl, rfl⟩
  | write i | wait i | unlock i | pollUnlock =>
    obtain ⟨-, rfl⟩ := hs
    exact ⟨rfl, rfl⟩
  | lock i | relock i | pollLock =>
    obtain ⟨-, -, rfl⟩ := hs
    exact ⟨rfl, rfl⟩
  | signal woken =>
    cases woken with
    | none | some w =>
      obtain ⟨-, -, rfl⟩ := hs
      exact ⟨rfl, rfl⟩

theorem unpolled_step (hfd : Function.Injective fun i => (reqs i).msg.fd) (h : Unpolled reqs s)
    (hs : step reqs s a = some s') : Unpolled reqs s' := by
  by_cases ha : a = .apply
  · subst ha
    obtain ⟨-, i, rest, t, -, ht, rfl⟩ := step_cases reqs hs
    obtain ⟨hsync, -, hothers⟩ := apply_spec (reqs i) h.synced ht
    refine ⟨hsync, fun j hj => ?_⟩
    simp only [List.mem_append, List.mem_singleton, not_or] at hj
    rw [hothers _ fun heq => hj.2 (hfd heq)]
    exact h.fresh j hj.1
  · obtain ⟨hthr, happlied⟩ := thr_kept hs ha
    refine ⟨by rw [hthr]; exact h.synced, fun j hj => ?_⟩
    rw [hthr]
    exact h.fresh j (happlied ▸ hj)

structure Good (reqs : ι → SocketRequest p) (s : Sys ι) : Prop where
  locked : Locked s
  balanced : owed s = sleeping s
  once : Once s
  unpolled : Unpolled reqs s

omit [DecidableEq ι] in
theorem good_start (reqs : ι → SocketRequest p) (arr : Nat → PollFd) (maxSockets : UInt32) :
    Good reqs (start arr p maxSockets) := by
  refine ⟨locked_start arr maxSockets, rfl, ⟨?_, List.nodup_nil, nofun⟩,
    ⟨synced_newThread arr p, ?_⟩⟩
  · exact fun i _ => ⟨List.not_mem_nil, List.not_mem_nil⟩
  · intro i _
    simp [start, newThread, PollthrPrivate.fds, (reqs i).offPri, (reqs i).offData]

theorem good_step (hfd : Function.Injective fun i => (reqs i).msg.fd) (h : Good reqs s)
    (hs : step reqs s a = some s') : Good reqs s' :=
  ⟨locked_step reqs h.locked hs, balanced_step h.locked h.balanced hs, once_step h.once hs,
    unpolled_step hfd h.unpolled hs⟩

/-! ## At rest -/

/-- A thread that holds the mutex goes on. -/
theorem free_of_stuck (hl : Locked s) (hstuck : ∀ a, step reqs s a = none) : s.mutex = none := by
  cases hm : s.mutex with
  | none => rfl
  | some owner =>
    cases owner with
    | caller i =>
      have hholds := (hl.caller i).mpr hm
      cases hpc : s.pc i with
      | write => simpa [step, hpc] using hstuck (.write i)
      | wait => simpa [step, hpc] using hstuck (.wait i)
      | unlock => simpa [step, hpc] using hstuck (.unlock i)
      | _ =>
        rw [hpc] at hholds
        cases hholds
    | pollThr =>
      have hholds := hl.pollThr.mpr hm
      cases hpoll : s.poll with
      | signal =>
        cases hw : s.waiters with
        | nil => simpa [step, hpoll, hw] using hstuck (.signal none)
        | cons w ws => simpa [step, hpoll, hw] using hstuck (.signal (some w))
      | unlock => simpa [step, hpoll] using hstuck .pollUnlock
      | _ =>
        rw [hpoll] at hholds
        cases hholds

/-- At rest no call is under way: there is no signal to come, and so nobody waits for one. -/
theorem done_of_stuck (h : Good reqs s) (hstuck : ∀ a, step reqs s a = none) (i : ι) :
    s.pc i = .returned ∨ s.pc i = .refused := by
  have hfree := free_of_stuck h.locked hstuck
  have hpoll : s.poll = .poll := by
    cases hpoll : s.poll with
    | poll => rfl
    | lock => simpa [step, hpoll, hfree] using hstuck .pollLock
    | signal | unlock =>
      have hheld := h.locked.pollThr.mp (by rw [hpoll]; rfl)
      rw [hfree] at hheld
      cases hheld
  have hpipe : s.pipe = [] := by
    cases hpipe : s.pipe with
    | nil => rfl
    | cons j rest =>
      have hnew := h.once.pending j (by rw [hpipe]; exact List.mem_cons_self)
      obtain ⟨t, ht⟩ := handled_of_unpolled fun _ => h.unpolled.fresh j hnew
      simpa [step, hpoll, hpipe, ht] using hstuck .apply
  have hnobody : s.waiters = [] := by
    have hbalanced := h.balanced
    simp only [owed, sleeping, hpipe, hpoll, hfree, acking, drowsy, List.length_nil] at hbalanced
    exact List.length_eq_zero_iff.mp hbalanced.symm
  cases hpc : s.pc i with
  | call => simpa [step, hpc] using hstuck (.call i)
  | lock => simpa [step, hpc, hfree] using hstuck (.lock i)
  | relock => simpa [step, hpc, hfree] using hstuck (.relock i)
  | leave => simpa [step, hpc] using hstuck (.leave i)
  | write | wait | unlock =>
    have hheld := (h.locked.caller i).mp (by rw [hpc]; rfl)
    rw [hfree] at hheld
    cases hheld
  | waiting =>
    have hin := (h.locked.waiting i).mpr hpc
    rw [hnobody] at hin
    cases hin
  | returned => exact .inl rfl
  | refused => exact .inr rfl

/-! ## Calls -/

def todo : Pc → Nat
  | .call => 11
  | .lock => 10
  | .write => 9
  | .wait => 4
  | .waiting | .relock => 3
  | .unlock => 2
  | .leave => 1
  | .returned | .refused => 0

def pollTodo : PollPc → Nat
  | .lock => 3
  | .signal => 2
  | .unlock => 1
  | .poll => 0

variable [Fintype ι]

/-- A message makes four steps of the thread. -/
def work (s : Sys ι) : Nat := ∑ i, todo (s.pc i) + 4 * s.pipe.length + pollTodo s.poll

theorem sum_todo_update (f : ι → Pc) (i : ι) (pc : Pc) :
    ∑ j, todo (Function.update f i pc j) + todo (f i) = ∑ j, todo (f j) + todo pc := by
  have hrest : ∑ j ∈ Finset.univ.erase i, todo (Function.update f i pc j) =
      ∑ j ∈ Finset.univ.erase i, todo (f j) := by
    apply Finset.sum_congr rfl
    intro j hj
    rw [Function.update_of_ne (Finset.ne_of_mem_erase hj)]
  have hnew := Finset.add_sum_erase Finset.univ (fun j => todo (Function.update f i pc j))
    (Finset.mem_univ i)
  have hold := Finset.add_sum_erase Finset.univ (fun j => todo (f j)) (Finset.mem_univ i)
  simp only [Function.update_self] at hnew
  omega

/-- A call that goes on has so much less to do. -/
theorem sum_todo_le (f : ι → Pc) (i : ι) (pc : Pc) {k : Nat} (h : todo pc + k ≤ todo (f i)) :
    ∑ j, todo (Function.update f i pc j) + k ≤ ∑ j, todo (f j) := by
  have hsum := sum_todo_update f i pc
  omega

theorem work_step (hl : Locked s) (hs : step reqs s a = some s') : work s' < work s := by
  have hs := step_cases reqs hs
  unfold work
  cases a with
  | call i =>
    obtain ⟨hpc, n, pc, hor, rfl⟩ := hs
    have hle : todo pc + 1 ≤ todo (s.pc i) := by
      rw [hpc]
      rcases hor with rfl | rfl <;> decide
    have hsum := sum_todo_le s.pc i pc hle
    simp only [Sys.goto]
    omega
  | lock i =>
    obtain ⟨hpc, -, rfl⟩ := hs
    have hsum := sum_todo_le s.pc i .write (k := 1) (by rw [hpc]; decide)
    simp only [Sys.goto]
    omega
  | write i =>
    obtain ⟨hpc, rfl⟩ := hs
    -- what the thread has to do for the message is left to it
    have hsum := sum_todo_le s.pc i .wait (k := 5) (by rw [hpc]; decide)
    simp only [Sys.goto, List.length_append, List.length_singleton]
    omega
  | wait i =>
    obtain ⟨hpc, rfl⟩ := hs
    have hsum := sum_todo_le s.pc i .waiting (k := 1) (by rw [hpc]; decide)
    simp only [Sys.goto]
    omega
  | relock i =>
    obtain ⟨hpc, -, rfl⟩ := hs
    have hsum := sum_todo_le s.pc i .unlock (k := 1) (by rw [hpc]; decide)
    simp only [Sys.goto]
    omega
  | unlock i =>
    obtain ⟨hpc, rfl⟩ := hs
    have hsum := sum_todo_le s.pc i .leave (k := 1) (by rw [hpc]; decide)
    simp only [Sys.goto]
    omega
  | leave i =>
    obtain ⟨hpc, n, rfl⟩ := hs
    have hsum := sum_todo_le s.pc i .returned (k := 1) (by rw [hpc]; decide)
    simp only [Sys.goto]
    omega
  | apply =>
    obtain ⟨hpoll, i, rest, t, hpipe, -, rfl⟩ := hs
    simp only [hpoll, hpipe, pollTodo, List.length_cons]
    omega
  | pollLock =>
    obtain ⟨hpoll, -, rfl⟩ := hs
    simp only [hpoll, pollTodo]
    omega
  | signal woken =>
    cases woken with
    | none =>
      obtain ⟨hpoll, -, rfl⟩ := hs
      simp only [hpoll, pollTodo]
      omega
    | some w =>
      obtain ⟨hpoll, hwait, rfl⟩ := hs
      have hsum := sum_todo_le s.pc w .relock (k := 0) (by rw [(hl.waiting w).mp hwait]; decide)
      simp only [hpoll, pollTodo, Sys.goto]
      omega
  | pollUnlock =>
    obtain ⟨hpoll, rfl⟩ := hs
    simp only [hpoll, pollTodo]
    omega

/-- However many calls for different sockets there are and however they interleave: the thread
owes as many signals as there are calls that wait for one, the calls take at most eleven steps
each with those of the thread, and when nothing is left to do, each of them has returned, or was
refused by a manager that is full. -/
theorem callers_return (hfd : Function.Injective fun i => (reqs i).msg.fd) (arr : Nat → PollFd)
    (maxSockets : UInt32) {acts : List (Act ι)}
    (hr : run (step reqs) (start arr p maxSockets) acts = some s) :
    owed s = sleeping s ∧ acts.length ≤ 11 * Fintype.card ι ∧
      ((∀ a, step reqs s a = none) → ∀ i, s.pc i = .returned ∨ s.pc i = .refused) := by
  have hstart := good_start reqs arr maxSockets
  have hgood : Good reqs s :=
    (always_of_step (fun _ _ _ h hs => good_step hfd h hs) hstart acts).last hr
  refine ⟨hgood.balanced, ?_, done_of_stuck hgood⟩
  have hlen := length_le_of_decreasing (fun _ _ _ h hs => good_step hfd h hs)
    (fun _ _ _ h hs => work_step h.locked hs) hstart hr
  have hwork : work (start arr p maxSockets : Sys ι) = 11 * Fintype.card ι := by
    simp [work, start, todo, pollTodo, Finset.card_univ, Nat.mul_comm]
  omega

end

/-- Both calls wait, and each is woken by the signal for the message of the other. -/
def crossed : List (Act Bool) :=
  [.call false, .lock false, .write false, .wait false, .call true, .lock true, .write true,
    .wait true, .apply, .pollLock, .signal (some true), .pollUnlock, .relock true, .unlock true,
    .leave true, .apply, .pollLock, .signal (some false), .pollUnlock, .relock false, .unlock false,
    .leave false]

theorem callers_return_crossed :
    ∃ s, run (step addTwo) (start emptySlots pipes 200) crossed = some s ∧ owed s = sleeping s ∧
      crossed.length = 11 * Fintype.card Bool ∧ ∀ i, s.pc i = .returned := by
  have hfd : Function.Injective fun i => (addTwo i).msg.fd := by decide
  obtain ⟨s, hr, hpc⟩ : ∃ s, run (step addTwo) (start emptySlots pipes 200) crossed = some s ∧
      ∀ i, s.pc i = .returned := ⟨_, rfl, by decide⟩
  obtain ⟨hbalanced, -, -⟩ := callers_return hfd emptySlots 200 hr
  exact ⟨s, hr, hbalanced, rfl, hpc⟩

end OfConnect.PollThr.Callers
