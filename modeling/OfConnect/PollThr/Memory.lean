import OfConnect.Lib.Refine
import OfConnect.PollThr.Requests
import OfConnect.PollThr.Walk

/-!
# The life of `fd_list` in memory

The loop of `adp_thr_mgr_poll_thread_func` round after round, with `fd_list` as nodes in memory
that requests allocate and free. Each round is a run of the rounds of the thread, in which the
list is a list of entries, and the memory stands for the thread that this run leaves. No round
meets a node that is not allocated, whatever has been added and deleted before.
-/

namespace OfConnect.PollThr.Memory

open OfConnect.Lib.Run OfConnect.Lib.Refine OfConnect.Lib.Links OfConnect.Lib.Slots
open OfConnect.Lib.Tables
open OfConnect.PollThr.Thread OfConnect.PollThr.Ownership OfConnect.PollThr.Walk
open OfConnect.PollThr.Conservation (synced_frame setPollout_fd poll_fd polloutProcess_cases)

/-- What `poll` reports in a round, what the pipe functions would read for each node, and the
address for a node. The primary pipe function is `static`, and no message carries it. The
thread is not told to end. -/
structure Round (p : AdminPipes) where
  revents : Nat → PollEvents
  reads : Addr → PipeReads
  node : Addr
  func : ∀ a, (reads a).pri.pollinFunc ≠ some .priPipe
  running : ∀ a, (reads a).pri.fdAction = .deleteFd →
    (reads a).pri.fd ≠ p.priRd ∧ (reads a).pri.fd ≠ p.dataRd

/-- `poll`. -/
def pollMem (m : PollthrMem) (revents : Nat → PollEvents) : PollthrMem :=
  { m with pollfdArr := (poll (m.view []) revents).pollfdArr }

section

variable {p : AdminPipes} {m : PollthrMem} {l : List (Addr × FdInfo)} {t t' : PollthrPrivate}

/-- A turn of the loop. A walk that comes to an end visits the nodes once, and one that may have
been added. -/
def turn (m : PollthrMem) (r : Round p) : Except Fault PollthrMem :=
  (pollRound r.reads r.node (size m.nodes + 2) (pollMem m r.revents)).map Prod.fst

/-- A round of a thread that goes on. An address in use is not allocated again. -/
def step (m : PollthrMem) (r : Round p) : Option PollthrMem :=
  if m.numPollfds = 0 ∨ r.node ∈ m.nodes then none else (turn m r).toOption

/-- The memory before the loop, with the node of the primary pipe. -/
def initMem (arr : Nat → PollFd) (priPipe : Fd) (node : Addr) : PollthrMem where
  numPollfds := 1
  pollfdArr := (pollThreadInit arr priPipe).pollfdArr
  sendMsgHtbl := ∅
  fdList := some node
  nodes := (∅ : Heap FdInfo).insert node ⟨⟨priPipe, .pipe, some .priPipe, none, 0⟩, none, none⟩

/-- The memory as `adp_thr_mgr_new` leaves it. -/
def newMem (arr : Nat → PollFd) (p : AdminPipes) (priNode dataNode : Addr) :
    Except Fault PollthrMem :=
  Walk.addFd (initMem arr p.priRd priNode) (dataPipeMsg p.dataRd) dataNode

/-- The thread gets from `t` to `t'` in the steps of this round. -/
def Serves (t : PollthrPrivate) (r : Round p) (t' : PollthrPrivate) : Prop :=
  ∃ visited : List Addr, ∀ reported, ∃ reported',
    run Rounds.step ⟨t, .poll, reported⟩ (.poll r.revents :: visited.flatMap (actsOf r.reads)) =
      some ⟨t', .poll, reported'⟩

/-- The memory stands for the thread. -/
structure Stands (p : AdminPipes) (m : PollthrMem) (l : List (Addr × FdInfo))
    (t : PollthrPrivate) : Prop where
  represents : Represents m l t
  synced : Synced p t
  later : ∀ n ∈ l.tail, n.2.pollinFunc ≠ some .priPipe

theorem synced_poll (h : Synced p t) (revents : Nat → PollEvents) : Synced p (poll t revents) :=
  synced_frame h rfl rfl (poll_fd t revents)

theorem synced_pollinProcess {e : FdInfo} {r : PipeReads} (h : Synced p t)
    (hmsg : r.pri.fdAction = .deleteFd → r.pri.fd ≠ p.priRd ∧ r.pri.fd ≠ p.dataRd)
    (hs : Thread.pollinProcess t e r = some t') : Synced p t' := by
  unfold Thread.pollinProcess at hs
  split at hs
  · split at hs
    · have hpri : priPipeStep p t r.pri = some t' := by
        unfold priPipeStep
        rw [if_neg fun hadmin => hadmin.2.elim (hmsg hadmin.1).1 (hmsg hadmin.1).2]
        exact hs
      exact synced_step h hpri
    · unfold Thread.pollthrDataPipeProcessFunc at hs
      split at hs
      · cases hs
      · obtain rfl := Option.some.inj hs
        exact synced_frame h rfl rfl (setPollout_fd _ _ _)
    · obtain rfl := Option.some.inj hs
      exact h
  · obtain rfl := Option.some.inj hs
    exact h

theorem synced_pollFdProcess {e : FdInfo} {r : PipeReads} (h : Synced p t)
    (hmsg : r.pri.fdAction = .deleteFd → r.pri.fd ≠ p.priRd ∧ r.pri.fd ≠ p.dataRd)
    (hs : (Thread.pollFdProcess t e r).map Prod.fst = some t') : Synced p t' := by
  rw [pollFdProcess_eq] at hs
  obtain ⟨t₁, hpollin, hpollout⟩ := Option.bind_eq_some_iff.mp hs
  have h₁ := synced_pollinProcess h hmsg hpollin
  obtain ⟨q, hq, rfl⟩ := Option.map_eq_some_iff.mp hpollout
  rcases polloutProcess_cases hq with ⟨-, rfl⟩ | ⟨info, -, -, rfl⟩
  · exact h₁
  · exact synced_frame h₁ rfl rfl (setPollout_fd _ _ _)

theorem synced_serveEntries (r : Round p) (h : Synced p t)
    (hs : serveEntries r.reads l t = some t') : Synced p t' := by
  induction l generalizing t with
  | nil =>
    obtain rfl := Option.some.inj hs
    exact h
  | cons n l ih =>
    obtain ⟨t₁, hhead, hrest⟩ := Option.bind_eq_some_iff.mp hs
    exact ih (synced_pollFdProcess h (r.running n.1) hhead) hrest

/-- The list has the two pipes in front. -/
theorem Stands.front (h : Stands p m l t) : ∃ a₀ a₁ e₀ e₁ rest,
    l = (a₀, e₀) :: (a₁, e₁) :: rest ∧ e₀.fd = p.priRd ∧ e₁.fd = p.dataRd := by
  have hlist : t.fdList = l.map Prod.snd := by
    rw [h.represents.eq]
    rfl
  have hlen : 2 ≤ l.length := by
    have htwo := h.synced.two_le
    rw [← h.synced.length_fdList, hlist, List.length_map] at htwo
    exact htwo
  obtain ⟨⟨a₀, e₀⟩, ⟨a₁, e₁⟩, rest, rfl⟩ : ∃ n₀ n₁ rest, l = n₀ :: n₁ :: rest := by
    match l, hlen with
    | n₀ :: n₁ :: rest, _ => exact ⟨n₀, n₁, rest, rfl⟩
  have hfirst : e₀.fd = (t.pollfdArr 0).fd := by
    simpa [hlist] using h.synced.fd_at (i := 0) (by simp [hlist])
  have hsecond : e₁.fd = (t.pollfdArr 1).fd := by
    simpa [hlist] using h.synced.fd_at (i := 1) (by simp [hlist])
  exact ⟨a₀, a₁, e₀, e₁, rest, rfl, hfirst.trans h.synced.pri, hsecond.trans h.synced.data⟩

theorem represents_pollMem (h : Represents m l t) (revents : Nat → PollEvents) :
    Represents (pollMem m revents) l (poll t revents) :=
  ⟨h.chain, by rw [h.eq]; rfl⟩

/-- A memory and the thread it stands for determine each other's list. -/
theorem represents_unique {l' : List (Addr × FdInfo)} (h : Represents m l t)
    (h' : Represents m l' t') : l = l' ∧ t = t' := by
  obtain rfl := h.chain.unique h'.chain
  exact ⟨rfl, h.eq.trans h'.eq.symm⟩

/-- The steps of the walk, after those of `poll`. -/
theorem serves_of_walk {r : Round p} (visited : List Addr) (hnum : t.numPollfds ≠ 0)
    (hwalk : ∀ reported, run Rounds.step ⟨poll t r.revents, .walk (poll t r.revents).fdList, reported⟩
      (visited.flatMap (actsOf r.reads)) = some ⟨t', .poll, reported⟩) : Serves t r t' := by
  refine ⟨visited, fun reported => ⟨live (poll t r.revents).pollfdArr t.numPollfds, ?_⟩⟩
  rw [run_cons]
  simp only [Rounds.step, if_neg hnum, Option.bind_some]
  exact hwalk _

/-- A round fails at an assertion, or it is a round of the thread. -/
theorem turn_spec (h : Stands p m l t) (r : Round p) (hnode : m.nodes.lookup r.node = none) :
    turn m r = .error .assertFailed ∨
      ∃ m' l' t', turn m r = .ok m' ∧ Stands p m' l' t' ∧ Serves t r t' := by
  obtain ⟨a₀, a₁, e₀, e₁, rest, rfl, hpri, hdata⟩ := h.front
  have hrep := represents_pollMem h.represents r.revents
  have hmsg : (r.reads a₀).pri.fdAction = .deleteFd →
      (r.reads a₀).pri.fd ≠ e₀.fd ∧ (r.reads a₀).pri.fd ≠ e₁.fd := by
    rw [hpri, hdata]
    exact r.running a₀
  have hfuel : rest.length + 3 ≤ size m.nodes + 2 := by
    have hsize : rest.length + 2 ≤ size m.nodes := h.represents.chain.length_le
    omega
  obtain ⟨l', hmod, hwalk⟩ := walk_agrees hrep h.later hnode (r.func a₀) hmsg hfuel
  rcases hwalk with ⟨-, hfail⟩ | ⟨m', t', hserve, hok, h', hlist⟩
  · apply Or.inl
    rw [turn, pollRound, hfail]
    rfl
  · obtain ⟨rest', rfl, hlen, hlater⟩ := hmod.keeps_pipes h.later (r.func a₀) hmsg
    refine .inr ⟨m', _, t', ?_, ⟨h', ?_, hlater⟩, ?_⟩
    · have hlisting := listing_eq (k := size m.nodes + 2) (hlist ▸ h'.chain)
        (by simp only [List.length_cons]; omega)
      rw [turn, pollRound, hok]
      simp only [Except.bind]
      rw [hlisting, ← hlist]
      rfl
    · exact synced_serveEntries r (synced_poll h.synced r.revents) hserve
    · have hnum : t.numPollfds ≠ 0 := by
        have htwo := h.synced.two_le
        omega
      refine serves_of_walk (a₀ :: a₁ :: rest'.map Prod.fst) hnum fun reported => ?_
      obtain ⟨l'', t'', h'', hrun⟩ :=
        walk_refines_rounds reported hrep h.later hnode r.func hmsg hfuel hok
      obtain ⟨-, rfl⟩ := represents_unique h' h''
      exact hrun

theorem simulates_serves :
    Simulates (step (p := p)) Serves fun m t => ∃ l, Stands p m l t := by
  intro m r m' t ⟨l, h⟩ hs
  unfold step at hs
  split at hs
  · cases hs
  · rename_i hgo
    have hnode := AList.lookup_eq_none.mpr fun hin => hgo (.inr hin)
    rcases turn_spec h r hnode with hfail | ⟨m₁, l', t', hok, h', hserves⟩
    · rw [hfail] at hs
      cases hs
    · rw [hok] at hs
      obtain rfl := Option.some.inj hs
      exact ⟨t', hserves, l', h'⟩

theorem represents_initMem (arr : Nat → PollFd) (priPipe : Fd) (node : Addr) :
    Represents (initMem arr priPipe node) [(node, ⟨priPipe, .pipe, some .priPipe, none, 0⟩)]
      (pollThreadInit arr priPipe) := by
  refine ⟨⟨rfl, fun i a x hi => ?_, by simp⟩, rfl⟩
  obtain ⟨hlt, heq⟩ := List.getElem?_eq_some_iff.mp hi
  obtain rfl : i = 0 := Nat.lt_one_iff.mp hlt
  obtain ⟨rfl, rfl⟩ := Prod.mk.inj heq
  exact AList.lookup_insert _

/-- `adp_thr_mgr_new` leaves the list of the two pipes. -/
theorem stands_newMem {arr : Nat → PollFd} {priNode dataNode : Addr} (hne : dataNode ≠ priNode)
    (hnew : newMem arr p priNode dataNode = .ok m) : ∃ l, Stands p m l (newThread arr p) := by
  have hfree : (initMem arr p.priRd priNode).nodes.lookup dataNode = none := by
    rw [initMem, AList.lookup_insert_ne hne]
    rfl
  have hagrees := addFd_agrees (represents_initMem arr p.priRd priNode) (dataPipeMsg p.dataRd) hfree
  have hthread : Thread.addFd (pollThreadInit arr p.priRd) (dataPipeMsg p.dataRd) =
      some (newThread arr p) := newThread_eq arr p
  rw [hthread] at hagrees
  rcases hagrees with ⟨hno, -⟩ | ⟨m', t', hsome, hok, e, -, hfunc, hrep⟩
  · cases hno
  · obtain rfl := Option.some.inj hsome
    obtain rfl := Except.ok.inj (hnew.symm.trans hok)
    refine ⟨_, hrep, synced_newThread arr p, fun n hn => ?_⟩
    obtain rfl := List.mem_singleton.mp hn
    rw [hfunc]
    nofun

/-- In every run of a thread its memory stands for the thread that the same rounds leave, and no
round after that meets a node that is not allocated. -/
theorem rounds_in_memory {arr : Nat → PollFd} {priNode dataNode : Addr} {m₀ : PollthrMem}
    (hne : dataNode ≠ priNode) (hnew : newMem arr p priNode dataNode = .ok m₀)
    (rounds : List (Round p)) (hr : run step m₀ rounds = some m) :
    ∃ l t, Represents m l t ∧ Path Serves (newThread arr p) rounds t ∧
      ∀ r : Round p, r.node ∉ m.nodes → turn m r ≠ .error .deadNode := by
  obtain ⟨t, hpath, l, h⟩ := simulates_serves.path (stands_newMem hne hnew) hr
  refine ⟨l, t, h.represents, hpath, fun r hnode => ?_⟩
  rcases turn_spec h r (AList.lookup_eq_none.mpr hnode) with hfail | ⟨m', l', t', hok, -⟩
  · rw [hfail]
    nofun
  · rw [hok]
    nofun

end

open OfConnect.PollThr.Requests (pipes emptySlots)

/-- A round in which the primary pipe is readable. -/
def requested (msg : ThrMsg) (node : Addr) (hfunc : msg.pollinFunc ≠ some .priPipe)
    (hrun : msg.fdAction = .deleteFd → msg.fd ≠ pipes.priRd ∧ msg.fd ≠ pipes.dataRd) :
    Round pipes where
  revents i := ⟨i == 0, false⟩
  reads _ := ⟨msg, msg.fd, ⟨0, 0, []⟩⟩
  node := node
  func _ := hfunc
  running _ := hrun

/-- The node of a socket that was deleted is allocated again for another one. -/
def reusedNode : List (Round pipes) :=
  [requested (tcpAddMsg 20) 102 (by decide) (by decide),
    requested (socketDeleteMsg 20) 103 (by decide) (by decide),
    requested (tcpAddMsg 21) 102 (by decide) (by decide)]

theorem rounds_in_memory_reused :
    ∃ m₀ m l t, newMem emptySlots pipes 100 101 = .ok m₀ ∧ run step m₀ reusedNode = some m ∧
      (m.nodes.lookup 102).map (fun n => n.data.fd) = some 21 ∧ Represents m l t ∧
      Path Serves (newThread emptySlots pipes) reusedNode t := by
  have hfd : ((newMem emptySlots pipes 100 101).toOption.bind fun m₀ =>
      run step m₀ reusedNode).map (fun m => (m.nodes.lookup 102).map fun n => n.data.fd) =
      some (some 21) := by decide +kernel
  obtain ⟨m, hm, hfd⟩ := Option.map_eq_some_iff.mp hfd
  obtain ⟨m₀, hm₀, hr⟩ := Option.bind_eq_some_iff.mp hm
  have hnew : newMem emptySlots pipes 100 101 = .ok m₀ := by
    cases hmem : newMem emptySlots pipes 100 101 with
    | error f =>
      rw [hmem] at hm₀
      cases hm₀
    | ok m' =>
      rw [hmem] at hm₀
      rw [Option.some.inj hm₀]
  obtain ⟨l, t, hrep, hpath, -⟩ := rounds_in_memory (by decide) hnew reusedNode hr
  exact ⟨m₀, m, l, t, hnew, hr, hfd, hrep, hpath⟩

end OfConnect.PollThr.Memory
