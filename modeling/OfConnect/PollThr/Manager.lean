import OfConnect.PollThr.Ownership

/-!
# A manager and its thread

`adp_thr_mgr_new` and `adp_thr_mgr_add_del_fd` with pipes: the manager keeps the ends of
its pipes in `pipes_arr` and counts sockets and pipe fds, the thread keeps `fd_list` and
`pollfd_arr`, and a message on the primary pipe is all that goes between them. A call
returns when the thread has handled its message, so a call is one step of both.
-/

namespace OfConnect.PollThr.Manager

open OfConnect.Lib.Slots OfConnect.Lib.Run OfConnect.PollThr.Thread OfConnect.PollThr.Ownership

/-- `adpoll_thread_mgr_t` without its mutexes and condition variables. -/
structure ThreadMgr where
  numSockets : UInt16
  numPipes : UInt16
  maxSockets : UInt32
  maxPipes : UInt32
  pipesArr : Nat → Fd

/-- The index of the read end in `pipes_arr`, from the index of either end. -/
def delRdFdIndex (i : Nat) : Nat := if i % 2 = 1 then i - 1 else i

/-- `adp_thr_mgr_add_del_fd`; `newPipe` is what `pipe` stores. A call that deletes a pipe
which is not there goes on with an index that was never set, and has no result. -/
def adpThrMgrAddDelFd (this : ThreadMgr) (t : PollthrPrivate) (msg : ThrMsg) (newPipe : Fd × Fd) :
    Option (Int × ThreadMgr × PollthrPrivate) :=
  match msg.fdType, msg.fdAction with
  | .pipe, .addFd =>
    if this.maxPipes ≤ this.numPipes.toUInt32 then some (-1, this, t)
    else
      let k := this.numPipes.toNat
      let this := { this with
        pipesArr := Function.update (Function.update this.pipesArr k newPipe.1) (k + 1) newPipe.2
        numPipes := this.numPipes + 2 }
      (pollthrPriPipeProcessFunc t { msg with fd := newPipe.1 }).map fun t =>
        (newPipe.2.toInt, this, t)
  | .pipe, .deleteFd =>
    if msg.fd = this.pipesArr 0 ∨ msg.fd = this.pipesArr 1 then
      (pollthrPriPipeProcessFunc t { msg with fd := this.pipesArr 0 }).map fun t => (-1, this, t)
    else if msg.fd = this.pipesArr 2 ∨ msg.fd = this.pipesArr 3 then
      (pollthrPriPipeProcessFunc t { msg with fd := this.pipesArr 2 }).map fun t => (-1, this, t)
    else
      match findFrom (fun fd => fd == msg.fd) this.pipesArr 0 this.numPipes.toNat with
      | none => none
      | some i =>
        let rd := delRdFdIndex i
        (pollthrPriPipeProcessFunc t { msg with fd := this.pipesArr rd }).map fun t =>
          (-1, { this with
            pipesArr := shiftDownBy 2 this.pipesArr rd this.numPipes.toNat
            numPipes := this.numPipes - 2 }, t)
  | .socket, .addFd =>
    if this.numSockets.toUInt32 = this.maxSockets then some (-1, this, t)
    else (pollthrPriPipeProcessFunc t msg).map fun t =>
      (msg.fd.toInt, { this with numSockets := this.numSockets + 1 }, t)
  | .socket, .deleteFd =>
    (pollthrPriPipeProcessFunc t msg).map fun t =>
      (-1, { this with numSockets := this.numSockets - 1 }, t)

def adpThrMgrGetNumAvailSockfd (this : ThreadMgr) : UInt32 :=
  this.maxSockets - this.numSockets.toUInt32

/-- `adp_thr_mgr_new` with the thread it starts and the size of that thread's `pollfd_arr`.
`pipesArr` and `pollfdArr` are the allocated blocks, `pri` and `data` what `pipe` stores. -/
def adpThrMgrNew (maxSockets maxPipes : UInt32) (pipesArr : Nat → Fd) (pollfdArr : Nat → PollFd)
    (pri data : Fd × Fd) : Option (ThreadMgr × PollthrPrivate × UInt32) :=
  let this : ThreadMgr :=
    { numSockets := 0
      numPipes := 2
      maxSockets := maxSockets
      maxPipes := maxPipes * 2 + 4
      pipesArr := Function.update (Function.update pipesArr 0 pri.1) 1 pri.2 }
  (adpThrMgrAddDelFd this (pollThreadInit pollfdArr pri.1) (dataPipeMsg data.1) data).map fun r =>
    (r.2.1, r.2.2, maxSockets + this.maxPipes)

/-! ## Runs -/

/-- A manager, its thread, and the pipes that are there, in the order of their creation. -/
structure Sys where
  mgr : ThreadMgr
  thr : PollthrPrivate
  maxPollfds : UInt32
  pipes : List (Fd × Fd)

structure Call where
  msg : ThrMsg
  newPipe : Fd × Fd

def start (maxSockets maxPipes : UInt32) (pipesArr : Nat → Fd) (pollfdArr : Nat → PollFd)
    (pri data : Fd × Fd) : Option Sys :=
  (adpThrMgrNew maxSockets maxPipes pipesArr pollfdArr pri data).map fun r =>
    ⟨r.1, r.2.1, r.2.2, [pri, data]⟩

/-- Read end and write end of each pipe. -/
def ends (pipes : List (Fd × Fd)) : List Fd := pipes.flatMap fun p => [p.1, p.2]

/-- A socket that is added is not polled, one that is deleted is polled as a socket, a pipe
that is deleted is named by one of its ends and is not one of the first two, and `pipe`
returns descriptors that are not in use. -/
def AllowedFor (s : Sys) (c : Call) : FdType → FdAction → Prop
  | .socket, .addFd => c.msg.fd ∉ s.thr.fds
  | .socket, .deleteFd => ∃ e ∈ s.thr.fdList, e.fd = c.msg.fd ∧ e.fdType = .socket
  | .pipe, .deleteFd => ∃ p ∈ s.pipes.drop 2, c.msg.fd = p.1 ∨ c.msg.fd = p.2
  | .pipe, .addFd => 0 ≤ c.newPipe.2 ∧ (ends (s.pipes ++ [c.newPipe])).Nodup ∧
      c.newPipe.1 ∉ s.thr.fds ∧ c.newPipe.2 ∉ s.thr.fds

def Allowed (s : Sys) (c : Call) : Prop := AllowedFor s c c.msg.fdType c.msg.fdAction

instance (s : Sys) (c : Call) : (ty : FdType) → (a : FdAction) → Decidable (AllowedFor s c ty a)
  | .socket, .addFd => inferInstanceAs (Decidable (_ ∉ _))
  | .socket, .deleteFd => inferInstanceAs (Decidable (∃ e ∈ s.thr.fdList, _))
  | .pipe, .deleteFd => inferInstanceAs (Decidable (∃ p ∈ s.pipes.drop 2, _))
  | .pipe, .addFd => inferInstanceAs (Decidable (_ ∧ _))

instance (s : Sys) (c : Call) : Decidable (Allowed s c) :=
  inferInstanceAs (Decidable (AllowedFor s c c.msg.fdType c.msg.fdAction))

/-- What a call with the result `ret` makes of the list of pipes. -/
def pipesAfter (c : Call) (ret : Int) (pipes : List (Fd × Fd)) : List (Fd × Fd) :=
  match c.msg.fdType, c.msg.fdAction with
  | .pipe, .addFd => if ret < 0 then pipes else pipes ++ [c.newPipe]
  | .pipe, .deleteFd => pipes.filter fun p => c.msg.fd ≠ p.1 ∧ c.msg.fd ≠ p.2
  | .socket, _ => pipes

def step (s : Sys) (c : Call) : Option Sys :=
  if Allowed s c then
    (adpThrMgrAddDelFd s.mgr s.thr c.msg c.newPipe).map fun r =>
      { s with mgr := r.2.1, thr := r.2.2, pipes := pipesAfter c r.1 s.pipes }
  else none

/-- The entries of `fd_list` of one type. -/
def ofType (ty : FdType) (t : PollthrPrivate) : List FdInfo :=
  t.fdList.filter fun e => e.fdType = ty

/-- The manager and its thread are in step. -/
structure InStep (maxSockets maxPipes : UInt32) (pri data : Fd × Fd) (s : Sys) : Prop where
  pipes_arr : live s.mgr.pipesArr s.mgr.numPipes.toNat = ends s.pipes
  admin_pipes : s.pipes.take 2 = [pri, data]
  read_ends : (ofType .pipe s.thr).map FdInfo.fd = s.pipes.map Prod.fst
  num_sockets : s.mgr.numSockets.toNat = (ofType .socket s.thr).length
  num_pollfds : s.thr.numPollfds = s.mgr.numPipes.toNat / 2 + s.mgr.numSockets.toNat
  even : 2 ∣ s.mgr.numPipes.toNat
  num_pipes_le : s.mgr.numPipes.toNat ≤ 2 * maxPipes.toNat + 4
  num_sockets_le : s.mgr.numSockets.toNat ≤ maxSockets.toNat
  num_avail : (adpThrMgrGetNumAvailSockfd s.mgr).toNat = maxSockets.toNat - s.mgr.numSockets.toNat
  num_pollfds_le : s.thr.numPollfds ≤ s.maxPollfds.toNat

/-! ## The ends of the pipes -/

@[simp] theorem ends_append (l l' : List (Fd × Fd)) : ends (l ++ l') = ends l ++ ends l' :=
  List.flatMap_append

@[simp] theorem ends_cons (p : Fd × Fd) (l : List (Fd × Fd)) : ends (p :: l) = p.1 :: p.2 :: ends l :=
  rfl

@[simp] theorem length_ends (l : List (Fd × Fd)) : (ends l).length = 2 * l.length := by
  induction l with
  | nil => rfl
  | cons p l ih =>
    simp only [ends_cons, List.length_cons, ih]
    omega

theorem mem_ends {l : List (Fd × Fd)} {fd : Fd} :
    fd ∈ ends l ↔ ∃ p ∈ l, fd = p.1 ∨ fd = p.2 := by
  simp [ends]

theorem map_fst_sublist_ends (l : List (Fd × Fd)) : (l.map Prod.fst).Sublist (ends l) := by
  induction l with
  | nil => exact List.Sublist.refl _
  | cons p l ih => exact (ih.cons p.2).cons_cons p.1

theorem filter_ne_middle {α : Type} [DecidableEq α] {l r : List α} {x : α}
    (h : (l ++ x :: r).Nodup) : (l ++ x :: r).filter (fun y => y ≠ x) = l ++ r := by
  have hl : x ∉ l := fun hx => (List.nodup_append'.mp h).2.2 hx List.mem_cons_self
  have herase := h.erase_eq_filter x
  rw [List.erase_append_right _ hl, List.erase_cons_head] at herase
  rw [herase]
  refine List.filter_congr fun y _ => ?_
  by_cases hy : y = x
  · simp [hy]
  · simp [hy]

/-- A pipe is named by either of its ends and by no other descriptor. -/
theorem filter_ends {l r : List (Fd × Fd)} {p : Fd × Fd} {fd : Fd}
    (hnd : (ends (l ++ p :: r)).Nodup) (hfd : fd = p.1 ∨ fd = p.2) :
    (l ++ p :: r).filter (fun q => fd ≠ q.1 ∧ fd ≠ q.2) = l ++ r := by
  rw [ends_append, ends_cons] at hnd
  obtain ⟨-, hr, hdis⟩ := List.nodup_append'.mp hnd
  have hp : fd ∈ p.1 :: p.2 :: ends r := by
    rcases hfd with rfl | rfl
    · exact List.mem_cons_self
    · exact List.mem_cons_of_mem _ List.mem_cons_self
  have hnotr : fd ∉ ends r := by
    simp only [List.nodup_cons, List.mem_cons, not_or] at hr
    rcases hfd with rfl | rfl
    · exact hr.1.2
    · exact hr.2.1
  have hnotl : fd ∉ ends l := fun hl => hdis hl hp
  have hall : ∀ {k : List (Fd × Fd)}, fd ∉ ends k → k.filter (fun q => fd ≠ q.1 ∧ fd ≠ q.2) = k := by
    intro k hk
    refine List.filter_eq_self.mpr fun q hq => ?_
    simp only [decide_eq_true_eq]
    exact ⟨fun h => hk (mem_ends.mpr ⟨q, hq, .inl h⟩), fun h => hk (mem_ends.mpr ⟨q, hq, .inr h⟩)⟩
  have hself : ¬(fd ≠ p.1 ∧ fd ≠ p.2) := by
    rintro ⟨h1, h2⟩
    exact hfd.elim h1 h2
  rw [List.filter_append, List.filter_cons_of_neg (by simpa using hself), hall hnotl, hall hnotr]

section

variable {arr : Nat → Fd} {n : Nat} {l r : List (Fd × Fd)} {p : Fd × Fd} {fd : Fd}

theorem arr_pipe (h : live arr n = ends (l ++ p :: r)) :
    2 * l.length + 2 ≤ n ∧ arr (2 * l.length) = p.1 ∧ arr (2 * l.length + 1) = p.2 := by
  have hn : n = 2 * (l.length + (r.length + 1)) := by
    have hlen := congrArg List.length h
    rwa [length_live, length_ends, List.length_append, List.length_cons] at hlen
  have hlen : (ends l).length = 2 * l.length := length_ends l
  refine ⟨by omega, Option.some.inj ?_, Option.some.inj ?_⟩
  · rw [← getElem?_live arr (show 2 * l.length < n by omega), h, ends_append,
      List.getElem?_append_right (by omega), hlen, Nat.sub_self]
    rfl
  · rw [← getElem?_live arr (show 2 * l.length + 1 < n by omega), h, ends_append,
      List.getElem?_append_right (by omega), hlen, show 2 * l.length + 1 - 2 * l.length = 1 by omega]
    rfl

/-- The search for either end stops in the pipe, and goes back to its read end. -/
theorem find_pipe (h : live arr n = ends (l ++ p :: r)) (hnd : (ends (l ++ p :: r)).Nodup)
    (hfd : fd = p.1 ∨ fd = p.2) :
    ∃ i, findFrom (fun f => f == fd) arr 0 n = some i ∧ delRdFdIndex i = 2 * l.length ∧
      ∀ j < 2 * l.length, fd ≠ arr j := by
  obtain ⟨hn, hrd, hwr⟩ := arr_pipe h
  rw [← h] at hnd
  obtain ⟨k, hk, hkn, hkfd⟩ : ∃ k, delRdFdIndex k = 2 * l.length ∧ k < n ∧ arr k = fd := by
    rcases hfd with rfl | rfl
    · refine ⟨2 * l.length, ?_, by omega, hrd⟩
      unfold delRdFdIndex
      rw [if_neg (by omega)]
    · refine ⟨2 * l.length + 1, ?_, by omega, hwr⟩
      unfold delRdFdIndex
      rw [if_pos (by omega)]
      omega
  have hge : 2 * l.length ≤ k := by
    unfold delRdFdIndex at hk
    split at hk
    · omega
    · omega
  cases hf : findFrom (fun f => f == fd) arr 0 n with
  | none =>
    have hnone := findFrom_none hf k (Nat.zero_le k) hkn
    rw [hkfd] at hnone
    simp at hnone
  | some i =>
    obtain ⟨-, hin, hi⟩ := findFrom_some hf
    obtain rfl := eq_of_live_nodup hnd hin hkn ((beq_iff_eq.mp hi).trans hkfd.symm)
    refine ⟨i, rfl, hk, fun j hj heq => ?_⟩
    have hij := eq_of_live_nodup hnd hin (by omega) (hkfd.trans heq)
    omega

theorem live_closeUp (h : live arr n = ends (l ++ p :: r)) :
    live (shiftDownBy 2 arr (2 * l.length) n) (n - 2) = ends (l ++ r) := by
  have hlen : (ends l).length = 2 * l.length := length_ends l
  rw [live_shiftDownBy Nat.two_pos arr (arr_pipe h).1, h, ends_append, ends_append, ends_cons,
    List.take_left' hlen, ← hlen, List.drop_append]
  simp

end

/-! ## One message in the thread -/

theorem eraseP_eq_filter {α β : Type} [DecidableEq β] {f : α → β} {l : List α}
    (h : (l.map f).Nodup) (b : β) :
    l.eraseP (fun e => f e == b) = l.filter (fun e => f e ≠ b) := by
  induction l with
  | nil => rfl
  | cons a l ih =>
    rw [List.map_cons, List.nodup_cons] at h
    by_cases ha : f a = b
    · rw [List.eraseP_cons_of_pos (by simpa using ha), List.filter_cons_of_neg (by simpa using ha)]
      refine (List.filter_eq_self.mpr fun e he => ?_).symm
      have hne : f e ≠ b := fun heq => h.1 (List.mem_map.mpr ⟨e, he, heq.trans ha.symm⟩)
      simpa using hne
    · rw [List.eraseP_cons_of_neg (by simpa using ha), List.filter_cons_of_pos (by simpa using ha),
        ih h.2]

/-- An added fd is the last entry. -/
theorem process_add {p : AdminPipes} {t : PollthrPrivate} {m : ThrMsg} (h : Synced p t)
    (hadd : m.fdAction = .addFd) (hfd : m.fd ∉ t.fds) :
    ∃ t' e, pollthrPriPipeProcessFunc t m = some t' ∧ Synced p t' ∧ e.fd = m.fd ∧
      e.fdType = m.fdType ∧ t'.fdList = t.fdList ++ [e] := by
  have hstep : ∃ t', addFd t m = some t' := by
    unfold addFd
    rw [if_neg hfd]
    exact ⟨_, rfl⟩
  obtain ⟨t', ht⟩ := hstep
  obtain ⟨-, -, -, hl, -⟩ := addFd_eq_some ht
  refine ⟨t', _, ?_, synced_addFd h ht, rfl, rfl, hl⟩
  rw [pollthrPriPipeProcessFunc, hadd]
  exact ht

/-- The entry of a deleted fd is gone. -/
theorem process_delete {p : AdminPipes} {t : PollthrPrivate} {m : ThrMsg} (h : Synced p t)
    (hdel : m.fdAction = .deleteFd) (hfd : m.fd ∈ t.fds) (hpri : m.fd ≠ p.priRd)
    (hdata : m.fd ≠ p.dataRd) :
    ∃ t', pollthrPriPipeProcessFunc t m = some t' ∧ Synced p t' ∧
      t'.fdList = t.fdList.filter fun e => e.fd ≠ m.fd := by
  have hoff : OffPipes t m := ⟨by rw [h.pri]; exact hpri, by rw [h.data]; exact hdata⟩
  have hproc : pollthrPriPipeProcessFunc t m = some (deleteFd t m) := by
    rw [pollthrPriPipeProcessFunc, hdel]
  have hstep : priPipeStep p t m = some (deleteFd t m) := by
    unfold priPipeStep
    rw [if_neg (fun hbad => hbad.2.elim hpri hdata), hproc]
  refine ⟨_, hproc, synced_step h hstep, ?_⟩
  rcases deleteFd_cases hoff with ⟨hnot, -⟩ | ⟨d, -, -, -, he⟩
  · rw [h.fds_eq] at hfd
    exact absurd hfd hnot
  · rw [he]
    exact eraseP_eq_filter h.nodup m.fd

section

variable {t t' : PollthrPrivate} {e : FdInfo} {ty : FdType} {fd : Fd}

theorem ofType_add (h : t'.fdList = t.fdList ++ [e]) (hty : e.fdType = ty) :
    ofType ty t' = ofType ty t ++ [e] := by
  unfold ofType
  rw [h, List.filter_append, List.filter_cons_of_pos (by simpa using hty), List.filter_nil]

theorem ofType_add_other (h : t'.fdList = t.fdList ++ [e]) (hty : e.fdType ≠ ty) :
    ofType ty t' = ofType ty t := by
  unfold ofType
  rw [h, List.filter_append, List.filter_cons_of_neg (by simpa using hty), List.filter_nil,
    List.append_nil]

theorem ofType_delete (h : t'.fdList = t.fdList.filter fun e => e.fd ≠ fd) :
    ofType ty t' = (ofType ty t).filter fun e => e.fd ≠ fd := by
  unfold ofType
  rw [h, List.filter_comm]

/-- The entries of the other type stay when an entry goes. -/
theorem ofType_delete_other (h : t'.fdList = t.fdList.filter fun e => e.fd ≠ fd)
    (hnd : (t.fdList.map FdInfo.fd).Nodup) (he : e ∈ t.fdList) (hfd : e.fd = fd)
    (hne : e.fdType ≠ ty) : ofType ty t' = ofType ty t := by
  unfold ofType
  rw [h, List.filter_filter]
  refine List.filter_congr fun a ha => ?_
  by_cases hty' : a.fdType = ty
  · have hafd : a.fd ≠ fd := by
      intro heq
      obtain rfl := List.inj_on_of_nodup_map hnd ha he (heq.trans hfd.symm)
      exact hne hty'
    simp [hty', hafd]
  · simp [hty']

end

/-! ## In step -/

section

variable {maxSockets maxPipes : UInt32} {pri data : Fd × Fd} {hd : data.1 ≠ pri.1} {s : Sys}

/-- What a call keeps: the thread's list and array agree, and the array of the manager holds
the ends of the pipes, all of them different. -/
structure Inv (maxSockets maxPipes : UInt32) (pri data : Fd × Fd) (hd : data.1 ≠ pri.1)
    (s : Sys) : Prop where
  pipes_arr : live s.mgr.pipesArr s.mgr.numPipes.toNat = ends s.pipes
  admin_pipes : ∃ rest, s.pipes = pri :: data :: rest
  nodup : (ends s.pipes).Nodup
  read_ends : (ofType .pipe s.thr).map FdInfo.fd = s.pipes.map Prod.fst
  num_sockets : s.mgr.numSockets.toNat = (ofType .socket s.thr).length
  synced : Synced ⟨pri.1, data.1, hd⟩ s.thr
  max_sockets : s.mgr.maxSockets = maxSockets
  max_pipes : s.mgr.maxPipes = maxPipes * 2 + 4
  max_pollfds : s.maxPollfds = maxSockets + (maxPipes * 2 + 4)
  num_pipes_le : s.mgr.numPipes.toNat ≤ 2 * maxPipes.toNat + 4
  num_sockets_le : s.mgr.numSockets.toNat ≤ maxSockets.toNat

theorem toNat_maxPipes (hp : 2 * maxPipes.toNat + 4 ≤ 65535) :
    (maxPipes * 2 + 4 : UInt32).toNat = 2 * maxPipes.toNat + 4 := by
  rw [UInt32.toNat_add, UInt32.toNat_mul]
  simp only [show (2 : UInt32).toNat = 2 from rfl, show (4 : UInt32).toNat = 4 from rfl]
  omega

theorem Inv.numPipes_eq (h : Inv maxSockets maxPipes pri data hd s) :
    s.mgr.numPipes.toNat = 2 * s.pipes.length := by
  have hlen := congrArg List.length h.pipes_arr
  rwa [length_live, length_ends] at hlen

theorem Inv.numPollfds_eq (h : Inv maxSockets maxPipes pri data hd s) :
    s.thr.numPollfds = s.pipes.length + s.mgr.numSockets.toNat := by
  have hpipes := congrArg List.length h.read_ends
  rw [List.length_map, List.length_map] at hpipes
  have hsplit := List.length_eq_length_filter_add (l := s.thr.fdList)
    (fun e => decide (e.fdType = .pipe))
  have hother : s.thr.fdList.filter (fun e => !decide (e.fdType = .pipe)) = ofType .socket s.thr := by
    refine List.filter_congr fun e _ => ?_
    cases e.fdType with
    | pipe => rfl
    | socket => rfl
  rw [hother, ← h.num_sockets] at hsplit
  rw [← h.synced.length_fdList, hsplit, ← hpipes]
  rfl

/-- The read end of a pipe has an entry. -/
theorem Inv.pipe_entry (h : Inv maxSockets maxPipes pri data hd s) {p : Fd × Fd}
    (hp : p ∈ s.pipes) : ∃ e ∈ s.thr.fdList, e.fd = p.1 ∧ e.fdType = .pipe := by
  have hmem : p.1 ∈ (ofType .pipe s.thr).map FdInfo.fd := by
    rw [h.read_ends]
    exact List.mem_map.mpr ⟨p, hp, rfl⟩
  obtain ⟨e, he, hfd⟩ := List.mem_map.mp hmem
  obtain ⟨hel, hty⟩ := List.mem_filter.mp he
  exact ⟨e, hel, hfd, of_decide_eq_true hty⟩

theorem Inv.heads_nodup (h : Inv maxSockets maxPipes pri data hd s) {l r : List (Fd × Fd)}
    {p : Fd × Fd} (hpipes : s.pipes = (pri :: data :: l) ++ p :: r) :
    ((pri :: data :: l).map Prod.fst ++ p.1 :: r.map Prod.fst).Nodup := by
  have hsub := map_fst_sublist_ends s.pipes
  rw [hpipes, List.map_append] at hsub
  exact (hpipes ▸ h.nodup).sublist hsub

/-- A later pipe is not an administrative one. -/
theorem Inv.not_admin (h : Inv maxSockets maxPipes pri data hd s) {l r : List (Fd × Fd)}
    {p : Fd × Fd} (hpipes : s.pipes = (pri :: data :: l) ++ p :: r) :
    p.1 ≠ pri.1 ∧ p.1 ≠ data.1 := by
  have hdiffer := h.heads_nodup hpipes
  simp only [List.cons_append, List.map_cons, List.nodup_cons, List.mem_cons, List.mem_append,
    not_or] at hdiffer
  exact ⟨Ne.symm hdiffer.1.2.2.1, Ne.symm hdiffer.2.1.2.1⟩

theorem inStep_of_inv (hs : maxSockets.toNat ≤ 65535) (hp : 2 * maxPipes.toNat + 4 ≤ 65535)
    (h : Inv maxSockets maxPipes pri data hd s) : InStep maxSockets maxPipes pri data s := by
  have hnum := h.numPipes_eq
  have hpoll := h.numPollfds_eq
  have hle := h.num_pipes_le
  have hsock := h.num_sockets_le
  refine ⟨h.pipes_arr, ?_, h.read_ends, h.num_sockets, by omega, by omega, hle, hsock, ?_, ?_⟩
  · obtain ⟨rest, hrest⟩ := h.admin_pipes
    rw [hrest]
    rfl
  · unfold adpThrMgrGetNumAvailSockfd
    have hconv : s.mgr.numSockets.toUInt32.toNat = s.mgr.numSockets.toNat := by simp
    rw [h.max_sockets, UInt32.toNat_sub_of_le _ _ (UInt32.le_iff_toNat_le.mpr (by omega)), hconv]
  · have hmax : s.maxPollfds.toNat = maxSockets.toNat + (2 * maxPipes.toNat + 4) := by
      rw [h.max_pollfds, UInt32.toNat_add, toNat_maxPipes hp]
      omega
    omega

/-- A pipe is added. -/
theorem inv_addPipe (hp : 2 * maxPipes.toNat + 4 ≤ 65535)
    (h : Inv maxSockets maxPipes pri data hd s) {c : Call} (hty : c.msg.fdType = .pipe)
    (hact : c.msg.fdAction = .addFd) (hok : Allowed s c) :
    ∃ s', step s c = some s' ∧ Inv maxSockets maxPipes pri data hd s' := by
  have hok' := hok
  unfold Allowed at hok'
  rw [hty, hact] at hok'
  obtain ⟨hpos, hnd, hrd, -⟩ := hok'
  unfold step
  rw [if_pos hok]
  simp only [adpThrMgrAddDelFd, pipesAfter, hty, hact]
  split
  · exact ⟨s, rfl, h⟩
  · rename_i hroom
    obtain ⟨t', e, ht, hsync, hfd, hety, hlist⟩ :=
      process_add (m := { c.msg with fd := c.newPipe.1 }) h.synced hact hrd
    simp only [hty, hact] at ht
    simp only [ht, Option.map_some]
    have hret : ¬c.newPipe.2.toInt < 0 := by
      rw [Int32.le_iff_toInt_le] at hpos
      have hzero : (0 : Int32).toInt = 0 := rfl
      omega
    rw [if_neg hret]
    have hnum := h.numPipes_eq
    have hlt : s.mgr.numPipes.toNat < 2 * maxPipes.toNat + 4 := by
      rw [UInt32.le_iff_toNat_le, h.max_pipes, toNat_maxPipes hp] at hroom
      have hconv : s.mgr.numPipes.toUInt32.toNat = s.mgr.numPipes.toNat := by simp
      omega
    have hnext : (s.mgr.numPipes + 2).toNat = s.mgr.numPipes.toNat + 1 + 1 := by
      rw [UInt16.toNat_add]
      simp only [show (2 : UInt16).toNat = 2 from rfl]
      omega
    refine ⟨_, rfl, ?_, ?_, hnd, ?_, ?_, hsync, h.max_sockets, h.max_pipes, h.max_pollfds, ?_,
      h.num_sockets_le⟩
    · simp only [hnext, live_update, h.pipes_arr, ends_append, ends_cons]
      rw [List.append_assoc]
      rfl
    · obtain ⟨rest, hrest⟩ := h.admin_pipes
      exact ⟨rest ++ [c.newPipe], by rw [hrest]; rfl⟩
    · rw [ofType_add hlist (hety.trans hty), List.map_append, List.map_append, h.read_ends]
      simp only [List.map_cons, List.map_nil, hfd]
    · rw [ofType_add_other hlist (by rw [hety, hty]; decide)]
      exact h.num_sockets
    · simp only [hnext]
      omega

/-- A socket is added. -/
theorem inv_addSocket (hs : maxSockets.toNat ≤ 65535)
    (h : Inv maxSockets maxPipes pri data hd s) {c : Call} (hty : c.msg.fdType = .socket)
    (hact : c.msg.fdAction = .addFd) (hok : Allowed s c) :
    ∃ s', step s c = some s' ∧ Inv maxSockets maxPipes pri data hd s' := by
  have hok' := hok
  unfold Allowed at hok'
  rw [hty, hact] at hok'
  unfold step
  rw [if_pos hok]
  simp only [adpThrMgrAddDelFd, pipesAfter, hty, hact]
  split
  · exact ⟨s, rfl, h⟩
  · rename_i hroom
    obtain ⟨t', e, ht, hsync, hfd, hety, hlist⟩ := process_add h.synced hact hok'
    simp only [ht, Option.map_some]
    have hlt : s.mgr.numSockets.toNat < maxSockets.toNat := by
      refine lt_of_le_of_ne h.num_sockets_le fun heq => hroom (UInt32.toNat_inj.mp ?_)
      rw [h.max_sockets]
      simpa using heq
    have hnext : (s.mgr.numSockets + 1).toNat = s.mgr.numSockets.toNat + 1 := by
      rw [UInt16.toNat_add]
      simp only [show (1 : UInt16).toNat = 1 from rfl]
      omega
    refine ⟨_, rfl, h.pipes_arr, h.admin_pipes, h.nodup, ?_, ?_, hsync, h.max_sockets, h.max_pipes,
      h.max_pollfds, h.num_pipes_le, ?_⟩
    · rw [ofType_add_other hlist (by rw [hety, hty]; decide)]
      exact h.read_ends
    · rw [ofType_add hlist (hety.trans hty), List.length_append, ← h.num_sockets]
      exact hnext
    · simp only [hnext]
      omega

/-- A pipe that is deleted is found by either end, and its two slots are closed up. -/
theorem inv_deletePipe (h : Inv maxSockets maxPipes pri data hd s) {c : Call}
    (hty : c.msg.fdType = .pipe) (hact : c.msg.fdAction = .deleteFd) (hok : Allowed s c) :
    ∃ s', step s c = some s' ∧ Inv maxSockets maxPipes pri data hd s' := by
  have hok' := hok
  unfold Allowed at hok'
  rw [hty, hact] at hok'
  obtain ⟨p, hp, hfd⟩ := hok'
  obtain ⟨rest, hrest⟩ := h.admin_pipes
  rw [hrest] at hp
  obtain ⟨l, r, rfl⟩ := List.append_of_mem (show p ∈ rest from hp)
  have hpipes : s.pipes = (pri :: data :: l) ++ p :: r := hrest
  have hnd := h.nodup
  have hread := h.read_ends
  have harr := h.pipes_arr
  have hnum := h.numPipes_eq
  rw [hpipes] at hnd hread harr hnum
  obtain ⟨i, hfind, hrd, hother⟩ := find_pipe harr hnd hfd
  obtain ⟨hfits, hfst, -⟩ := arr_pipe harr
  have hfirst : ∀ j < 4, c.msg.fd ≠ s.mgr.pipesArr j := by
    intro j hj
    apply hother j
    rw [List.length_cons, List.length_cons]
    omega
  -- the entry of its read end
  obtain ⟨e, hel, hefd, hety⟩ := h.pipe_entry
    (show p ∈ s.pipes by rw [hpipes]; exact List.mem_append_right _ List.mem_cons_self)
  obtain ⟨hpri, hdata⟩ := h.not_admin hpipes
  obtain ⟨t', ht, hsync, hlist⟩ := process_delete (m := { c.msg with fd := p.1 }) h.synced hact
    (List.mem_map.mpr ⟨e, hel, hefd⟩) hpri hdata
  simp only [hty, hact] at ht
  have hstep : step s c = some { s with
      mgr := { s.mgr with
        pipesArr := shiftDownBy 2 s.mgr.pipesArr (2 * (pri :: data :: l).length) s.mgr.numPipes.toNat
        numPipes := s.mgr.numPipes - 2 }
      thr := t'
      pipes := (pri :: data :: l) ++ r } := by
    unfold step
    rw [if_pos hok]
    simp only [adpThrMgrAddDelFd, pipesAfter, hty, hact]
    rw [if_neg (not_or.mpr ⟨hfirst 0 (by omega), hfirst 1 (by omega)⟩),
      if_neg (not_or.mpr ⟨hfirst 2 (by omega), hfirst 3 (by omega)⟩)]
    simp only [hfind, hrd, hfst, ht, Option.map_some]
    rw [hpipes, filter_ends hnd hfd]
  have hnext : (s.mgr.numPipes - 2).toNat = s.mgr.numPipes.toNat - 2 := by
    refine UInt16.toNat_sub_of_le _ _ (UInt16.le_iff_toNat_le.mpr ?_)
    show 2 ≤ s.mgr.numPipes.toNat
    omega
  have hclosed := live_closeUp harr
  refine ⟨_, hstep, ?_, ⟨l ++ r, rfl⟩, ?_, ?_, ?_, hsync, h.max_sockets, h.max_pipes, h.max_pollfds,
    ?_, h.num_sockets_le⟩
  · simp only [hnext]
    exact hclosed
  · refine hnd.sublist ?_
    rw [ends_append, ends_append, ends_cons]
    exact (List.Sublist.refl _).append ((List.sublist_cons_self _ _).trans (List.sublist_cons_self _ _))
  · have hmap : (ofType .pipe t').map FdInfo.fd =
        ((ofType .pipe s.thr).map FdInfo.fd).filter fun fd => fd ≠ p.1 := by
      rw [ofType_delete hlist, List.filter_map]
      rfl
    rw [hmap, hread, List.map_append]
    exact (filter_ne_middle (h.heads_nodup hpipes)).trans List.map_append.symm
  · rw [ofType_delete_other hlist h.synced.nodup hel hefd (by rw [hety]; decide)]
    exact h.num_sockets
  · simp only [hnext]
    have hle := h.num_pipes_le
    omega

/-- A socket is deleted. -/
theorem inv_deleteSocket (h : Inv maxSockets maxPipes pri data hd s) {c : Call}
    (hty : c.msg.fdType = .socket) (hact : c.msg.fdAction = .deleteFd) (hok : Allowed s c) :
    ∃ s', step s c = some s' ∧ Inv maxSockets maxPipes pri data hd s' := by
  have hok' := hok
  unfold Allowed at hok'
  rw [hty, hact] at hok'
  obtain ⟨e, hel, hefd, hety⟩ := hok'
  -- the read ends of the administrative pipes have entries of the other type
  have hpipe : ∀ p ∈ s.pipes, c.msg.fd ≠ p.1 := by
    intro p hp heq
    obtain ⟨a, hal, hafd, haty⟩ := h.pipe_entry hp
    obtain rfl := List.inj_on_of_nodup_map h.synced.nodup hal hel
      (hafd.trans (heq.symm.trans hefd.symm))
    rw [hety] at haty
    cases haty
  obtain ⟨rest, hrest⟩ := h.admin_pipes
  have hpri := hpipe pri (by rw [hrest]; exact List.mem_cons_self)
  have hdata := hpipe data (by rw [hrest]; exact List.mem_cons_of_mem _ List.mem_cons_self)
  obtain ⟨t', ht, hsync, hlist⟩ := process_delete h.synced hact (List.mem_map.mpr ⟨e, hel, hefd⟩)
    hpri hdata
  unfold step
  rw [if_pos hok]
  simp only [adpThrMgrAddDelFd, pipesAfter, hty, hact, ht, Option.map_some]
  have hmem : e ∈ ofType .socket s.thr := List.mem_filter.mpr ⟨hel, by simpa using hety⟩
  have hnodup : ((ofType .socket s.thr).map FdInfo.fd).Nodup :=
    h.synced.nodup.sublist ((List.filter_sublist).map _)
  have hless : (ofType .socket t').length + 1 = (ofType .socket s.thr).length := by
    rw [ofType_delete hlist, ← eraseP_eq_filter hnodup,
      List.length_eraseP_of_mem hmem (by simpa using hefd)]
    have hpos := List.length_pos_of_mem hmem
    omega
  have hnum := h.num_sockets
  have hnext : (s.mgr.numSockets - 1).toNat = s.mgr.numSockets.toNat - 1 := by
    refine UInt16.toNat_sub_of_le _ _ (UInt16.le_iff_toNat_le.mpr ?_)
    show 1 ≤ s.mgr.numSockets.toNat
    omega
  refine ⟨_, rfl, h.pipes_arr, h.admin_pipes, h.nodup, ?_, ?_, hsync, h.max_sockets, h.max_pipes,
    h.max_pollfds, h.num_pipes_le, ?_⟩
  · rw [ofType_delete_other hlist h.synced.nodup hel hefd (by rw [hety]; decide)]
    exact h.read_ends
  · simp only [hnext]
    omega
  · simp only [hnext]
    have hle := h.num_sockets_le
    omega

theorem inv_step (hs : maxSockets.toNat ≤ 65535) (hp : 2 * maxPipes.toNat + 4 ≤ 65535)
    (h : Inv maxSockets maxPipes pri data hd s) {c : Call} (hok : Allowed s c) :
    ∃ s', step s c = some s' ∧ Inv maxSockets maxPipes pri data hd s' := by
  cases hty : c.msg.fdType with
  | pipe =>
    cases hact : c.msg.fdAction with
    | addFd => exact inv_addPipe hp h hty hact hok
    | deleteFd => exact inv_deletePipe h hty hact hok
  | socket =>
    cases hact : c.msg.fdAction with
    | addFd => exact inv_addSocket hs h hty hact hok
    | deleteFd => exact inv_deleteSocket h hty hact hok

/-- `adp_thr_mgr_new` leaves the two administrative pipes. -/
theorem inv_start (maxSockets : UInt32) (hp : 2 * maxPipes.toNat + 4 ≤ 65535)
    (pipesArr : Nat → Fd) (pollfdArr : Nat → PollFd) (hd : data.1 ≠ pri.1) (hfds : (ends [pri, data]).Nodup) :
    ∃ s, start maxSockets maxPipes pipesArr pollfdArr pri data = some s ∧
      Inv maxSockets maxPipes pri data hd s := by
  have hroom : ¬(maxPipes * 2 + 4 : UInt32) ≤ (2 : UInt16).toUInt32 := by
    rw [UInt32.le_iff_toNat_le, toNat_maxPipes hp]
    show ¬2 * maxPipes.toNat + 4 ≤ 2
    omega
  have hthr := newThread_eq pollfdArr ⟨pri.1, data.1, hd⟩
  let arr := Function.update (Function.update pipesArr 0 pri.1) 1 pri.2
  refine ⟨⟨⟨0, 4, maxSockets, maxPipes * 2 + 4,
    Function.update (Function.update arr 2 data.1) 3 data.2⟩,
    newThread pollfdArr ⟨pri.1, data.1, hd⟩, maxSockets + (maxPipes * 2 + 4), [pri, data]⟩, ?_, ?_⟩
  · unfold start adpThrMgrNew
    simp only [dataPipeMsg] at hthr
    simp only [adpThrMgrAddDelFd, dataPipeMsg]
    rw [if_neg hroom, hthr]
    rfl
  · refine ⟨?_, ⟨[], rfl⟩, hfds, rfl, rfl, synced_newThread pollfdArr _, rfl, rfl, rfl, ?_, ?_⟩
    · rfl
    · show 4 ≤ 2 * maxPipes.toNat + 4
      omega
    · exact Nat.zero_le _

end

/-- Whatever sequence of calls a manager gets, after each of them it is in step with its
thread, and the next call that is allowed returns. -/
theorem manager_in_step {maxSockets maxPipes : UInt32} (hs : maxSockets.toNat ≤ 65535)
    (hp : 2 * maxPipes.toNat + 4 ≤ 65535) (pipesArr : Nat → Fd) (pollfdArr : Nat → PollFd)
    {pri data : Fd × Fd} (hfds : (ends [pri, data]).Nodup) (calls : List Call) :
    ∃ s, start maxSockets maxPipes pipesArr pollfdArr pri data = some s ∧
      Always step (fun t => InStep maxSockets maxPipes pri data t ∧
        ∀ c, Allowed t c → ∃ t', step t c = some t') s calls := by
  have hd : data.1 ≠ pri.1 := by
    simp only [ends_cons, List.nodup_cons, List.mem_cons, not_or] at hfds
    exact Ne.symm hfds.1.2.1
  obtain ⟨s, hstart, hinv⟩ := inv_start maxSockets hp pipesArr pollfdArr hd hfds
  refine ⟨s, hstart, ?_⟩
  have hall : Always step (Inv maxSockets maxPipes pri data hd) s calls := by
    refine always_of_step (fun t c t' h ht => ?_) hinv calls
    have hok : Allowed t c := by
      by_contra hnot
      unfold step at ht
      rw [if_neg hnot] at ht
      cases ht
    obtain ⟨t'', ht'', h''⟩ := inv_step hs hp h hok
    rw [ht] at ht''
    exact Option.some.inj ht'' ▸ h''
  refine hall.mono fun t h => ⟨inStep_of_inv hs hp h, fun c hok => ?_⟩
  obtain ⟨t', ht', -⟩ := inv_step hs hp h hok
  exact ⟨t', ht'⟩

/-- A pipe and two sockets are added, of which one is refused, and the pipe is deleted by
its write end. -/
theorem manager_in_step_one_socket :
    ∃ s, start 1 1 (fun _ => 0) (fun _ => ⟨0, ⟨false, false⟩, ⟨false, false⟩⟩) (3, 4) (5, 6) = some s ∧
      Always step (fun t => InStep 1 1 (3, 4) (5, 6) t ∧
        ∀ c, Allowed t c → ∃ t', step t c = some t') s
        [⟨⟨0, .pipe, .addFd, ⟨true, false⟩, none, none⟩, (7, 8)⟩, ⟨tcpAddMsg 10, (0, 0)⟩,
          ⟨tcpAddMsg 11, (0, 0)⟩, ⟨⟨8, .pipe, .deleteFd, ⟨false, false⟩, none, none⟩, (0, 0)⟩] :=
  manager_in_step (by decide) (by decide) _ _ (by decide) _

end OfConnect.PollThr.Manager
