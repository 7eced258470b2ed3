import OfConnect.Lib.Links
import OfConnect.PollThr.Rounds

/-!
# The walk over `fd_list` in memory

`adp_thr_mgr_poll_thread_func` saves the head of `fd_list`, walks the list with
`g_list_foreach`, and stores the head again. The walk calls `poll_fd_process` for every entry,
and the entry of the primary pipe, which is the first, may append a node to the list or take one
out and free it.

Here the list is the nodes in memory, and an access to a node that is not allocated is told from
a failed assertion. An entry is allocated once, never changed and never freed, so that a pointer
to it is modelled by what it points to. The functions agree with those of the thread whose
`fd_list` is the list of the entries (`Agrees`).
-/

namespace OfConnect.PollThr.Walk

open OfConnect.Lib.Slots OfConnect.Lib.Tables OfConnect.Lib.Links OfConnect.PollThr.Thread

inductive Fault where
  | assertFailed
  | deadNode
  deriving DecidableEq, Repr

/-- `pollthr_private_t`, with the list of its entries in memory. -/
structure PollthrMem where
  numPollfds : Nat
  pollfdArr : Nat → PollFd
  sendMsgHtbl : Table Fd SendMsgInfo
  fdList : Option Addr
  nodes : Heap FdInfo

/-- The thread whose `fd_list` has these entries. -/
def PollthrMem.view (m : PollthrMem) (entries : List FdInfo) : PollthrPrivate :=
  ⟨m.numPollfds, m.pollfdArr, entries, m.sendMsgHtbl⟩

/-- An operation on the list that succeeds if it meets allocated nodes only. -/
def access {β : Type} : Option β → Except Fault β
  | none => .error .deadNode
  | some b => .ok b

/-- The search for the entry of an fd. -/
def findFd (nodes : Heap FdInfo) (fd : Fd) (list : Option Addr) : Except Fault (Option Addr) :=
  access (find (fun e => e.fd == fd) nodes (size nodes) list)

/-- `ADD_FD`, with the address of the node that is allocated for the list. -/
def addFd (m : PollthrMem) (msg : ThrMsg) (node : Addr) : Except Fault PollthrMem :=
  (findFd m.nodes msg.fd m.fdList).bind fun found =>
    if found.isSome then .error .assertFailed
    else
      let k := m.numPollfds
      let slot : PollFd :=
        ⟨msg.fd, { msg.pollEvents with pollout := false }, (m.pollfdArr k).revents⟩
      let fdEntry : FdInfo := ⟨msg.fd, msg.fdType, msg.pollinFunc, msg.polloutFunc, k⟩
      (access (append m.nodes m.fdList node fdEntry)).map fun r =>
        { m with
          numPollfds := k + 1
          pollfdArr := Function.update m.pollfdArr k slot
          nodes := r.1
          fdList := r.2 }

/-- The part of `DELETE_FD` that finds and deletes the list entry. -/
def removeFd (nodes : Heap FdInfo) (list : Option Addr) (fd : Fd) :
    Except Fault (Heap FdInfo × Option Addr) :=
  (access (first nodes (size nodes) list)).bind fun traverse =>
    (findFd nodes fd traverse).bind fun
      | none => .ok (nodes, list)  -- inconsistent database
      | some a => (access (nodes.lookup a)).bind fun n => access (remove nodes list n.data)

/-- `DELETE_FD`. -/
def deleteFd (m : PollthrMem) (msg : ThrMsg) : Except Fault PollthrMem :=
  if msg.fd = (m.pollfdArr 0).fd ∨ msg.fd = (m.pollfdArr 1).fd then .ok { m with numPollfds := 0 }
  else
    match findFrom (fun p => p.fd == msg.fd) m.pollfdArr 1 m.numPollfds with
    | none => .ok m
    | some delIndex =>
      (removeFd m.nodes m.fdList msg.fd).map fun r =>
        { m with
          pollfdArr := shiftDown m.pollfdArr delIndex m.numPollfds
          numPollfds := m.numPollfds - 1
          nodes := r.1
          fdList := r.2 }

def pollthrPriPipeProcessFunc (m : PollthrMem) (msg : ThrMsg) (node : Addr) :
    Except Fault PollthrMem :=
  match msg.fdAction with
  | .addFd => addFd m msg node
  | .deleteFd => deleteFd m msg

def pollthrDataPipeProcessFunc (m : PollthrMem) (fd : Fd) (info : SendMsgInfo) :
    Except Fault PollthrMem :=
  (findFd m.nodes fd m.fdList).bind fun
    | none => .error .assertFailed
    | some a =>
      (access (m.nodes.lookup a)).map fun n =>
        { m with
          sendMsgHtbl := m.sendMsgHtbl.insert fd info
          pollfdArr := setPollout m.pollfdArr n.data.pollfdEntry true }

def pollinProcess (m : PollthrMem) (e : FdInfo) (r : PipeReads) (node : Addr) :
    Except Fault PollthrMem :=
  if pollinSet (m.view []) e then
    match e.pollinFunc with
    | some .priPipe => pollthrPriPipeProcessFunc m r.pri node
    | some .dataPipe => pollthrDataPipeProcessFunc m r.dataFd r.dataInfo
    | _ => .ok m
  else .ok m

/-- The second half of `poll_fd_process` does not look at the list. -/
def polloutProcess (m : PollthrMem) (e : FdInfo) : Except Fault PollthrMem :=
  match Thread.polloutProcess (m.view []) e with
  | none => .error .assertFailed
  | some q => .ok { m with pollfdArr := q.1.pollfdArr, sendMsgHtbl := q.1.sendMsgHtbl }

/-- `poll_fd_process` for a node, with what it would read from the pipes. -/
def pollFdProcess (reads : Addr → PipeReads) (node a : Addr) (e : FdInfo) (m : PollthrMem) :
    Except Fault PollthrMem :=
  (pollinProcess m e (reads a) node).bind fun m => polloutProcess m e

/-- The walk of a round, with the nodes that were processed. -/
def walk (reads : Addr → PipeReads) (node : Addr) (fuel : Nat) (m : PollthrMem) :
    Except Fault (PollthrMem × List Addr) :=
  foreach PollthrMem.nodes .deadNode (pollFdProcess reads node) fuel m.fdList m

/-- A round of `adp_thr_mgr_poll_thread_func` after `poll`: the head is saved, the list is walked
and then listed, and the head is stored again. -/
def pollRound (reads : Addr → PipeReads) (node : Addr) (fuel : Nat) (m : PollthrMem) :
    Except Fault (PollthrMem × List Addr) :=
  let thrPvtFdList := m.fdList
  (walk reads node fuel m).bind fun w =>
    (foreach PollthrMem.nodes .deadNode (fun _ _ m => .ok m) fuel thrPvtFdList w.1).map fun p =>
      ({ p.1 with fdList := thrPvtFdList }, w.2)

/-! ## Agreement with the thread -/

/-- The memory holds a thread whose list has these nodes. -/
structure Represents (m : PollthrMem) (l : List (Addr × FdInfo)) (t : PollthrPrivate) : Prop where
  chain : Chain m.nodes m.fdList l
  eq : t = m.view (l.map Prod.snd)

/-- A function aborts where that of the thread does, and else there is a result of the kind `P`.
In no case does it meet a dead node. -/
def Agrees (r : Except Fault PollthrMem) (o : Option PollthrPrivate)
    (P : PollthrMem → PollthrPrivate → Prop) : Prop :=
  (o = none ∧ r = .error .assertFailed) ∨ ∃ m t, o = some t ∧ r = .ok m ∧ P m t

section

variable {m : PollthrMem} {l : List (Addr × FdInfo)} {t : PollthrPrivate}

theorem findFd_eq {nodes : Heap FdInfo} {head : Option Addr} (hc : Chain nodes head l) (fd : Fd) :
    findFd nodes fd head = .ok ((l.find? fun n => n.2.fd == fd).map Prod.fst) := by
  rw [findFd, hc.find_eq]
  rfl

theorem find_isSome_iff (fd : Fd) :
    ((l.find? fun n => n.2.fd == fd).map Prod.fst).isSome ↔
      fd ∈ (m.view (l.map Prod.snd)).fds := by
  simp [PollthrPrivate.fds, PollthrMem.view]

/-- `ADD_FD` appends an entry. -/
theorem addFd_agrees (h : Represents m l t) (msg : ThrMsg) {node : Addr}
    (hnode : m.nodes.lookup node = none) :
    Agrees (addFd m msg node) (Thread.addFd t msg) fun m' t' =>
      ∃ e, e.fd = msg.fd ∧ e.pollinFunc = msg.pollinFunc ∧
        Represents m' (l ++ [(node, e)]) t' := by
  obtain ⟨hc, rfl⟩ := h
  unfold addFd Thread.addFd
  rw [findFd_eq hc]
  by_cases hin : msg.fd ∈ (m.view (l.map Prod.snd)).fds
  · refine .inl ⟨if_pos hin, ?_⟩
    exact if_pos ((find_isSome_iff (m := m) msg.fd).mpr hin)
  · obtain ⟨nodes, happend, hc'⟩ := hc.append_spec hnode
      (⟨msg.fd, msg.fdType, msg.pollinFunc, msg.polloutFunc, m.numPollfds⟩ : FdInfo)
    have hfound := mt (find_isSome_iff (m := m) msg.fd).mp hin
    rw [if_neg hin]
    simp only [Except.bind]
    rw [if_neg hfound, happend]
    refine .inr ⟨_, _, rfl, rfl, _, rfl, rfl, hc', ?_⟩
    simp [PollthrMem.view]

/-- The list loses its first entry of the fd, if it has one. -/
theorem removeFd_spec {nodes : Heap FdInfo} {head : Option Addr} (hc : Chain nodes head l) (fd : Fd) :
    ∃ r, removeFd nodes head fd = .ok r ∧ Chain r.1 r.2 (l.eraseP fun n => n.2.fd == fd) := by
  unfold removeFd
  rw [hc.first_eq]
  simp only [access, Except.bind, findFd_eq hc]
  rw [List.find?_eq_bind_findIdx?_getElem?, List.eraseP_eq_eraseIdx]
  cases hidx : l.findIdx? fun n => n.2.fd == fd with
  | none => exact ⟨_, rfl, hc⟩
  | some d =>
    obtain ⟨hlt, hfd, hbefore⟩ := List.findIdx?_eq_some_iff_getElem.mp hidx
    have hget : l[d]? = some (l[d].1, l[d].2) := List.getElem?_eq_getElem hlt
    -- an earlier entry has another fd, so it is another entry
    have hdata : l.findIdx? (fun n => n.2 == l[d].2) = some d := by
      refine List.findIdx?_eq_some_iff_getElem.mpr ⟨hlt, beq_self_eq_true _, fun j hj => ?_⟩
      intro he
      have hne := hbefore j hj
      rw [beq_iff_eq.mp he] at hne
      exact hne hfd
    obtain ⟨nodes', hremove, hc'⟩ := hc.remove_spec hdata
    refine ⟨(nodes', addrAt (l.eraseIdx d) 0), ?_, hc'⟩
    simp only [Option.bind_some, hget, Option.map_some, hc.node d _ _ hget]
    rw [hremove]

/-- `DELETE_FD` leaves the list as it is, or takes the first entry of the fd out. -/
theorem deleteFd_agrees (h : Represents m l t) (msg : ThrMsg) :
    ∃ m' l', deleteFd m msg = .ok m' ∧ Represents m' l' (Thread.deleteFd t msg) ∧
      (l' = l ∨ l' = l.eraseP fun n => n.2.fd == msg.fd) := by
  obtain ⟨hc, rfl⟩ := h
  unfold deleteFd Thread.deleteFd PollthrMem.view
  by_cases hself : msg.fd = (m.pollfdArr 0).fd ∨ msg.fd = (m.pollfdArr 1).fd
  · simp only [if_pos hself]
    exact ⟨_, l, rfl, ⟨hc, rfl⟩, .inl rfl⟩
  simp only [if_neg hself]
  cases findFrom (fun p => p.fd == msg.fd) m.pollfdArr 1 m.numPollfds with
  | none => exact ⟨m, l, rfl, ⟨hc, rfl⟩, .inl rfl⟩
  | some delIndex =>
    obtain ⟨r, hremove, hc'⟩ := removeFd_spec hc msg.fd
    refine ⟨_, _, by rw [hremove]; rfl, ⟨hc', ?_⟩, .inr rfl⟩
    simp only [PollthrMem.view, List.eraseP_map]
    rfl

theorem dataPipe_agrees (h : Represents m l t) (fd : Fd) (info : SendMsgInfo) :
    Agrees (pollthrDataPipeProcessFunc m fd info) (Thread.pollthrDataPipeProcessFunc t fd info)
      fun m' t' => m'.nodes = m.nodes ∧ m'.fdList = m.fdList ∧ Represents m' l t' := by
  obtain ⟨hc, rfl⟩ := h
  unfold pollthrDataPipeProcessFunc Thread.pollthrDataPipeProcessFunc PollthrMem.view
  rw [findFd_eq hc]
  simp only [List.find?_map, Except.bind]
  rw [show ((fun e : FdInfo => e.fd == fd) ∘ Prod.snd) = fun n : Addr × FdInfo => n.2.fd == fd
    from rfl]
  cases hfind : l.find? fun n => n.2.fd == fd with
  | none => exact .inl ⟨rfl, rfl⟩
  | some n =>
    obtain ⟨i, hi⟩ := List.mem_iff_getElem?.mp (List.mem_of_find?_eq_some hfind)
    simp only [Option.map_some, hc.node i n.1 n.2 hi, access]
    exact .inr ⟨_, _, rfl, rfl, rfl, rfl, hc, rfl⟩

theorem pollout_agrees (h : Represents m l t) (e : FdInfo) :
    Agrees (polloutProcess m e) ((Thread.polloutProcess t e).map Prod.fst)
      fun m' t' => m'.nodes = m.nodes ∧ m'.fdList = m.fdList ∧ Represents m' l t' := by
  obtain ⟨hc, rfl⟩ := h
  unfold polloutProcess Thread.polloutProcess PollthrMem.view polloutSet
  by_cases hset : ((m.pollfdArr e.pollfdEntry).revents.pollout &&
      (m.pollfdArr e.pollfdEntry).events.pollout) = true
  · simp only [if_pos hset]
    cases m.sendMsgHtbl.lookup (m.pollfdArr e.pollfdEntry).fd with
    | none => exact .inl ⟨rfl, rfl⟩
    | some info => exact .inr ⟨_, _, rfl, rfl, rfl, rfl, hc, rfl⟩
  · simp only [if_neg hset]
    exact .inr ⟨_, _, rfl, rfl, rfl, rfl, hc, rfl⟩

/-- Agreement of two functions that are called one after the other. -/
theorem Agrees.bind {r : Except Fault PollthrMem} {o : Option PollthrPrivate}
    {P Q : PollthrMem → PollthrPrivate → Prop} {f : PollthrMem → Except Fault PollthrMem}
    {g : PollthrPrivate → Option PollthrPrivate} (h : Agrees r o P)
    (hfg : ∀ m t, P m t → Agrees (f m) (g t) Q) : Agrees (r.bind f) (o.bind g) Q := by
  rcases h with ⟨rfl, rfl⟩ | ⟨m, t, rfl, rfl, hP⟩
  · exact .inl ⟨rfl, rfl⟩
  · exact hfg m t hP

theorem Agrees.mono {r : Except Fault PollthrMem} {o : Option PollthrPrivate}
    {P Q : PollthrMem → PollthrPrivate → Prop} (h : Agrees r o P) (hPQ : ∀ m t, P m t → Q m t) :
    Agrees r o Q := by
  rcases h with h | ⟨m, t, ho, hr, hP⟩
  · exact .inl h
  · exact .inr ⟨m, t, ho, hr, hPQ m t hP⟩

theorem pollFdProcess_eq (t : PollthrPrivate) (e : FdInfo) (r : PipeReads) :
    (Thread.pollFdProcess t e r).map Prod.fst =
      (Thread.pollinProcess t e r).bind fun t => (Thread.polloutProcess t e).map Prod.fst :=
  Option.map_bind

/-- An entry that is not the primary pipe leaves the list as it is. -/
theorem pollFdProcess_agrees (h : Represents m l t) (reads : Addr → PipeReads) (node a : Addr)
    {e : FdInfo} (he : e.pollinFunc ≠ some .priPipe) :
    Agrees (pollFdProcess reads node a e m) ((Thread.pollFdProcess t e (reads a)).map Prod.fst)
      fun m' t' => m'.nodes = m.nodes ∧ m'.fdList = m.fdList ∧ Represents m' l t' := by
  rw [pollFdProcess_eq]
  have hpollin : Agrees (pollinProcess m e (reads a) node) (Thread.pollinProcess t e (reads a))
      fun m' t' => m'.nodes = m.nodes ∧ m'.fdList = m.fdList ∧ Represents m' l t' := by
    have hset : pollinSet (m.view []) e = pollinSet t e := by rw [h.eq]; rfl
    have hsame : Agrees (.ok m) (some t)
        fun m' t' => m'.nodes = m.nodes ∧ m'.fdList = m.fdList ∧ Represents m' l t' :=
      .inr ⟨m, t, rfl, rfl, rfl, rfl, h⟩
    unfold pollinProcess Thread.pollinProcess
    rw [hset]
    split
    · cases hfunc : e.pollinFunc with
      | none => exact hsame
      | some f =>
        cases f with
        | priPipe => exact absurd hfunc he
        | dataPipe => exact dataPipe_agrees h _ _
        | _ => exact hsame
    · exact hsame
  refine hpollin.bind fun m₁ t₁ ⟨hnodes, hlist, h₁⟩ => (pollout_agrees h₁ e).mono ?_
  rintro m₂ t₂ ⟨hnodes₂, hlist₂, h₂⟩
  exact ⟨hnodes₂.trans hnodes, hlist₂.trans hlist, h₂⟩

/-- What the message of the primary pipe may have made of the list. -/
inductive Modified (msg : ThrMsg) (node : Addr) (l : List (Addr × FdInfo)) :
    List (Addr × FdInfo) → Prop
  | same : Modified msg node l l
  | added (e : FdInfo) : msg.fdAction = .addFd → e.fd = msg.fd → e.pollinFunc = msg.pollinFunc →
      Modified msg node l (l ++ [(node, e)])
  | removed : msg.fdAction = .deleteFd → Modified msg node l (l.eraseP fun n => n.2.fd == msg.fd)

/-- The entry of the primary pipe, or any other, modifies the list in one of these ways. -/
theorem pollFdProcess_agrees_modified (h : Represents m l t) (reads : Addr → PipeReads)
    {node : Addr} (hnode : m.nodes.lookup node = none) (a : Addr) (e : FdInfo) :
    Agrees (pollFdProcess reads node a e m) ((Thread.pollFdProcess t e (reads a)).map Prod.fst)
      fun m' t' => ∃ l', Modified (reads a).pri node l l' ∧ Represents m' l' t' := by
  by_cases he : e.pollinFunc = some .priPipe
  · rw [pollFdProcess_eq]
    have hpollin : Agrees (pollinProcess m e (reads a) node) (Thread.pollinProcess t e (reads a))
        fun m' t' => ∃ l', Modified (reads a).pri node l l' ∧ Represents m' l' t' := by
      have hset : pollinSet (m.view []) e = pollinSet t e := by rw [h.eq]; rfl
      unfold pollinProcess Thread.pollinProcess
      rw [hset, he]
      split
      · simp only [pollthrPriPipeProcessFunc, Thread.pollthrPriPipeProcessFunc]
        cases hact : (reads a).pri.fdAction with
        | addFd =>
          refine (addFd_agrees h (reads a).pri hnode).mono ?_
          rintro m' t' ⟨e', hfd, hfunc, h'⟩
          exact ⟨_, .added e' hact hfd hfunc, h'⟩
        | deleteFd =>
          obtain ⟨m', l', hok, h', hl'⟩ := deleteFd_agrees h (reads a).pri
          refine .inr ⟨m', _, rfl, hok, l', ?_, h'⟩
          rcases hl' with rfl | rfl
          · exact .same
          · exact .removed hact
      · exact .inr ⟨m, t, rfl, rfl, l, .same, h⟩
    refine hpollin.bind fun m₁ t₁ ⟨l', hmod, h₁⟩ => (pollout_agrees h₁ e).mono ?_
    rintro m₂ t₂ ⟨-, -, h₂⟩
    exact ⟨l', hmod, h₂⟩
  · refine (pollFdProcess_agrees h reads node a he).mono ?_
    rintro m' t' ⟨-, -, h'⟩
    exact ⟨l, .same, h'⟩

/-- The entries are served one after the other. -/
def serveEntries (reads : Addr → PipeReads) (l : List (Addr × FdInfo)) (t : PollthrPrivate) :
    Option PollthrPrivate :=
  l.foldlM (fun t n => (Thread.pollFdProcess t n.2 (reads n.1)).map Prod.fst) t

theorem serve_agrees (reads : Addr → PipeReads) (node : Addr) {rest : List (Addr × FdInfo)}
    (hrest : ∀ n ∈ rest, n.2.pollinFunc ≠ some .priPipe) (h : Represents m l t) :
    Agrees (serve (pollFdProcess reads node) rest m) (serveEntries reads rest t)
      fun m' t' => m'.fdList = m.fdList ∧ Represents m' l t' := by
  induction rest generalizing m t with
  | nil => exact .inr ⟨m, t, rfl, rfl, rfl, h⟩
  | cons n rest ih =>
    have hhead := pollFdProcess_agrees h reads node n.1 (hrest n List.mem_cons_self)
    refine hhead.bind fun m₁ t₁ ⟨_, hlist, h₁⟩ => ?_
    refine (ih (fun n' hn' => hrest n' (List.mem_cons_of_mem _ hn')) h₁).mono ?_
    rintro m₂ t₂ ⟨hlist₂, h₂⟩
    exact ⟨hlist₂.trans hlist, h₂⟩

/-- The walk from a node on, if the primary pipe is behind. -/
theorem foreach_agrees (reads : Addr → PipeReads) (node : Addr) {k i : Nat}
    (hrest : ∀ n ∈ l.drop i, n.2.pollinFunc ≠ some .priPipe) (h : Represents m l t)
    (hk : l.length ≤ i + k) :
    foreach PollthrMem.nodes .deadNode (pollFdProcess reads node) k (addrAt l i) m =
      (serve (pollFdProcess reads node) (l.drop i) m).map fun m' =>
        (m', (l.drop i).map Prod.fst) := by
  refine foreach_from PollthrMem.nodes .deadNode (pollFdProcess reads node)
    (P := fun m => Chain m.nodes m.fdList l ∧ m.fdList = addrAt l 0)
    (fun m hm => hm.2 ▸ hm.1) (fun n hn m₁ m₂ hm₁ hcall => ?_) ⟨h.chain, h.chain.head_eq⟩ hk
  have hagrees := pollFdProcess_agrees ⟨hm₁.1, rfl⟩ reads node n.1 (hrest n hn)
  rw [hcall] at hagrees
  rcases hagrees with ⟨-, hno⟩ | ⟨m', t', -, hok, -, hlist, h'⟩
  · cases hno
  · obtain rfl := Except.ok.inj hok
    exact ⟨h'.chain, hlist.trans hm₁.2⟩

/-- The two entries of the pipes stay where they are, and no second entry of the primary pipe
comes. -/
theorem Modified.keeps_pipes {msg : ThrMsg} {node : Addr} {n₀ n₁ : Addr × FdInfo}
    {rest l' : List (Addr × FdInfo)} (h : Modified msg node (n₀ :: n₁ :: rest) l')
    (hlater : ∀ n ∈ n₁ :: rest, n.2.pollinFunc ≠ some .priPipe)
    (hfunc : msg.pollinFunc ≠ some .priPipe)
    (hmsg : msg.fdAction = .deleteFd → msg.fd ≠ n₀.2.fd ∧ msg.fd ≠ n₁.2.fd) :
    ∃ rest', l' = n₀ :: n₁ :: rest' ∧ rest'.length ≤ rest.length + 1 ∧
      ∀ n ∈ n₁ :: rest', n.2.pollinFunc ≠ some .priPipe := by
  cases h with
  | same => exact ⟨rest, rfl, Nat.le_succ _, hlater⟩
  | added e hadd hfd he =>
    refine ⟨rest ++ [(node, e)], rfl, by simp, fun n hn => ?_⟩
    rw [← List.cons_append] at hn
    rcases List.mem_append.mp hn with hn | hn
    · exact hlater n hn
    · obtain rfl := List.mem_singleton.mp hn
      rw [he]
      exact hfunc
  | removed hdel =>
    obtain ⟨h₀, h₁⟩ := hmsg hdel
    have htail : (n₁ :: rest).eraseP (fun n => n.2.fd == msg.fd) =
        n₁ :: rest.eraseP fun n => n.2.fd == msg.fd :=
      List.eraseP_cons_of_neg (by simpa using h₁.symm)
    refine ⟨rest.eraseP fun n => n.2.fd == msg.fd, ?_, ?_, fun n hn => ?_⟩
    · rw [List.eraseP_cons_of_neg (by simpa using h₀.symm), htail]
    · exact Nat.le_succ_of_le List.length_eraseP_le
    · rw [← htail] at hn
      exact hlater n (List.mem_of_mem_eraseP hn)

/-- The walk of a round serves the entries of the list as the primary pipe leaves it. -/
theorem walk_agrees {reads : Addr → PipeReads} {node a₀ a₁ : Addr} {e₀ e₁ : FdInfo}
    {rest : List (Addr × FdInfo)} {fuel : Nat}
    (h : Represents m ((a₀, e₀) :: (a₁, e₁) :: rest) t)
    (hlater : ∀ n ∈ (a₁, e₁) :: rest, n.2.pollinFunc ≠ some .priPipe)
    (hnode : m.nodes.lookup node = none)
    (hfunc : (reads a₀).pri.pollinFunc ≠ some .priPipe)
    (hmsg : (reads a₀).pri.fdAction = .deleteFd →
      (reads a₀).pri.fd ≠ e₀.fd ∧ (reads a₀).pri.fd ≠ e₁.fd)
    (hfuel : rest.length + 3 ≤ fuel) :
    ∃ l', Modified (reads a₀).pri node ((a₀, e₀) :: (a₁, e₁) :: rest) l' ∧
      ((serveEntries reads l' t = none ∧ walk reads node fuel m = .error .assertFailed) ∨
        ∃ m' t', serveEntries reads l' t = some t' ∧
          walk reads node fuel m = .ok (m', l'.map Prod.fst) ∧ Represents m' l' t' ∧
          m'.fdList = m.fdList) := by
  obtain ⟨k, rfl⟩ : ∃ k, fuel = k + 1 := ⟨fuel - 1, by omega⟩
  have hlist : m.fdList = some a₀ := h.chain.head_eq
  have hwalk : walk reads node (k + 1) m = (pollFdProcess reads node a₀ e₀ m).bind fun m₁ =>
      (foreach PollthrMem.nodes .deadNode (pollFdProcess reads node) k (some a₁) m₁).map
        fun r => (r.1, a₀ :: r.2) := by
    rw [walk, hlist, foreach, h.chain.node 0 a₀ e₀ rfl]
    rfl
  have hserve : ∀ l' : List (Addr × FdInfo), serveEntries reads ((a₀, e₀) :: l') t =
      ((Thread.pollFdProcess t e₀ (reads a₀)).map Prod.fst).bind (serveEntries reads l') :=
    fun l' => List.foldlM_cons
  rcases pollFdProcess_agrees_modified h reads hnode a₀ e₀ with
    ⟨hnone, hfail⟩ | ⟨m₁, t₁, hsome, hok, l', hmod, h₁⟩
  · refine ⟨_, .same, .inl ⟨?_, ?_⟩⟩
    · rw [hserve, hnone, Option.bind_none]
    · rw [hwalk, hfail]
      rfl
  · -- the node that the walk goes on with is the second one still
    obtain ⟨rest', rfl, hlen, hlater'⟩ := hmod.keeps_pipes hlater hfunc hmsg
    have hrest := foreach_agrees (l := (a₀, e₀) :: (a₁, e₁) :: rest') (k := k) (i := 1) reads node
      hlater' h₁ (by simp only [List.length_cons]; omega)
    rw [show addrAt ((a₀, e₀) :: (a₁, e₁) :: rest') 1 = some a₁ from rfl] at hrest
    refine ⟨_, hmod, ?_⟩
    rw [hserve, hsome, Option.bind_some, hwalk, hok]
    simp only [Except.bind]
    rw [hrest]
    have hlist₁ : m₁.fdList = m.fdList := h₁.chain.head_eq.trans hlist.symm
    rcases serve_agrees reads node hlater' h₁ with
      ⟨hnone, hfail⟩ | ⟨m₂, t₂, hsome₂, hok₂, hlist₂, h₂⟩
    · rw [List.drop_one, List.tail_cons, hfail]
      exact .inl ⟨hnone, rfl⟩
    · rw [List.drop_one, List.tail_cons, hok₂]
      exact .inr ⟨m₂, t₂, hsome₂, rfl, h₂, hlist₂.trans hlist₁⟩

/-! ## Safety of the walk -/

/-- What a walk processes, compared with the list before and after the round. -/
structure SafeWalk (before after visited : List Addr) : Prop where
  removed : ∀ a ∈ before, a ∉ after → a ∉ visited
  once : ∀ a ∈ before, a ∈ after → visited.count a = 1
  inOrder : visited.filter (· ∈ before) = before.filter (· ∈ after)

theorem filter_mem_of_sublist {s l : List Addr} (h : List.Sublist s l) (hnodup : l.Nodup) :
    l.filter (· ∈ s) = s := by
  induction h with
  | slnil => rfl
  | @cons s l a hsub ih =>
    obtain ⟨ha, hnodup⟩ := List.nodup_cons.mp hnodup
    have hnot : a ∉ s := fun hmem => ha (hsub.subset hmem)
    rw [List.filter_cons_of_neg (by simpa using hnot), ih hnodup]
  | @cons_cons s l a hsub ih =>
    obtain ⟨ha, hnodup⟩ := List.nodup_cons.mp hnodup
    have hsame : ∀ b ∈ l, decide (b ∈ a :: s) = decide (b ∈ s) := by
      intro b hb
      have hne : b ≠ a := fun he => ha (he ▸ hb)
      simp [hne]
    rw [List.filter_cons_of_pos (by simp), List.filter_congr hsame, ih hnodup]

theorem Modified.safeWalk {msg : ThrMsg} {node : Addr} {l' : List (Addr × FdInfo)}
    (h : Modified msg node l l') (hnodup : (l.map Prod.fst).Nodup) (hnodup' : (l'.map Prod.fst).Nodup)
    (hnode : node ∉ l.map Prod.fst) :
    SafeWalk (l.map Prod.fst) (l'.map Prod.fst) (l'.map Prod.fst) := by
  refine ⟨fun a _ ha => ha, fun a _ ha => List.count_eq_one_of_mem hnodup' ha, ?_⟩
  have hall : ∀ {s : List Addr}, l.map Prod.fst ⊆ s →
      (l.map Prod.fst).filter (· ∈ s) = l.map Prod.fst :=
    fun hs => List.filter_eq_self.mpr fun a ha => decide_eq_true (hs ha)
  cases h with
  | same => rfl
  | added e hadd hfd hfunc =>
    rw [List.map_append, List.filter_append, hall (List.Subset.refl _),
      hall (List.subset_append_left _ _)]
    simp [hnode]
  | removed hdel =>
    have hsub : List.Sublist ((l.eraseP fun n => n.2.fd == msg.fd).map Prod.fst)
        (l.map Prod.fst) := List.eraseP_sublist.map Prod.fst
    rw [filter_mem_of_sublist hsub hnodup]
    exact List.filter_eq_self.mpr fun a ha => decide_eq_true (hsub.subset ha)

theorem serve_listing (l : List (Addr × FdInfo)) (m : PollthrMem) :
    serve (fun _ _ m => (.ok m : Except Fault PollthrMem)) l m = .ok m := by
  induction l with
  | nil => rfl
  | cons n l ih => exact ih

/-- The listing after the walk reads nodes of the list only. -/
theorem listing_eq {head : Option Addr} (hc : Chain m.nodes head l) {k : Nat} (hk : l.length ≤ k) :
    foreach PollthrMem.nodes .deadNode (fun _ _ m => (.ok m : Except Fault PollthrMem)) k head m =
      .ok (m, l.map Prod.fst) := by
  have hlisting := foreach_from PollthrMem.nodes Fault.deadNode (fun _ _ m => .ok m)
    (P := (· = m)) (k := k) (i := 0) (fun _ hm => hm ▸ hc)
    (fun _ _ _ _ hm hok => (Except.ok.inj hok).symm.trans hm) rfl (by omega)
  rw [← hc.head_eq, List.drop_zero, serve_listing] at hlisting
  exact hlisting

/-- The walk over `fd_list` is safe while the primary pipe modifies the list. A round ends with
the list that the message has left, as the entries were served in this order; or an assertion
fails where it does in the thread. -/
theorem walk_safe_under_modification (reads : Addr → PipeReads) (node : Addr) (fuel : Nat)
    {a₀ a₁ : Addr} {e₀ e₁ : FdInfo} {rest : List (Addr × FdInfo)}
    (hl : l = (a₀, e₀) :: (a₁, e₁) :: rest) (hc : Chain m.nodes m.fdList l)
    (hlater : ∀ n ∈ (a₁, e₁) :: rest, n.2.pollinFunc ≠ some .priPipe)
    (hnode : m.nodes.lookup node = none)
    (hfunc : (reads a₀).pri.pollinFunc ≠ some .priPipe)
    (hmsg : (reads a₀).pri.fdAction = .deleteFd →
      (reads a₀).pri.fd ≠ e₀.fd ∧ (reads a₀).pri.fd ≠ e₁.fd)
    (hfuel : l.length < fuel) :
    ∃ l', Modified (reads a₀).pri node l l' ∧
      ((serveEntries reads l' (m.view (l.map Prod.snd)) = none ∧
          pollRound reads node fuel m = .error .assertFailed) ∨
        ∃ m' t' visited, serveEntries reads l' (m.view (l.map Prod.snd)) = some t' ∧
          walk reads node fuel m = .ok (m', visited) ∧
          SafeWalk (l.map Prod.fst) (l'.map Prod.fst) visited ∧
          Represents m' l' t' ∧
          pollRound reads node fuel m = .ok ({ m' with fdList := m.fdList }, visited) ∧
          Represents { m' with fdList := m.fdList } l' t') := by
  subst hl
  have hfuel : rest.length + 3 ≤ fuel := by
    simp only [List.length_cons] at hfuel
    omega
  obtain ⟨l', hmod, hwalk⟩ := walk_agrees ⟨hc, rfl⟩ hlater hnode hfunc hmsg hfuel
  refine ⟨l', hmod, ?_⟩
  rcases hwalk with ⟨hnone, hfail⟩ | ⟨m', t', hsome, hok, h', hlist⟩
  · refine .inl ⟨hnone, ?_⟩
    rw [pollRound, hfail]
    rfl
  · have hlen : l'.length ≤ fuel := by
      obtain ⟨rest', rfl, hlen, -⟩ := hmod.keeps_pipes hlater hfunc hmsg
      simp only [List.length_cons]
      omega
    have hc' : Chain m'.nodes m.fdList l' := hlist ▸ h'.chain
    have hround : pollRound reads node fuel m =
        .ok ({ m' with fdList := m.fdList }, l'.map Prod.fst) := by
      rw [pollRound, hok]
      simp only [Except.bind]
      rw [listing_eq hc' hlen]
      rfl
    have hsafe := hmod.safeWalk hc.nodup h'.chain.nodup (hc.not_mem_of_free hnode)
    exact .inr ⟨m', t', _, hsome, hok, hsafe, h', hround, hc', h'.eq⟩

/-- The nodes of a thread that polls its two pipes and the socket 10. -/
def threeNodes : List (Addr × FdInfo) :=
  [(100, ⟨3, .pipe, some .priPipe, none, 0⟩), (101, ⟨5, .pipe, some .dataPipe, none, 1⟩),
    (102, ⟨10, .socket, some .tcpfdPollin, some .tcpfdPollout, 2⟩)]

/-- The primary pipe and the socket are readable. -/
def threeEntries : PollthrMem where
  numPollfds := 3
  pollfdArr
    | 0 => ⟨3, ⟨true, false⟩, ⟨true, false⟩⟩
    | 1 => ⟨5, ⟨true, false⟩, ⟨false, false⟩⟩
    | _ => ⟨10, ⟨true, false⟩, ⟨true, false⟩⟩
  sendMsgHtbl := ∅
  fdList := some 100
  nodes := ((AList.insert 100 ⟨⟨3, .pipe, some .priPipe, none, 0⟩, some 101, none⟩ ∅).insert 101
    ⟨⟨5, .pipe, some .dataPipe, none, 1⟩, some 102, some 100⟩).insert 102
    ⟨⟨10, .socket, some .tcpfdPollin, some .tcpfdPollout, 2⟩, none, some 101⟩

theorem chain_threeNodes : Chain threeEntries.nodes threeEntries.fdList threeNodes := by
  refine ⟨rfl, fun i a x hi => ?_, by decide⟩
  obtain ⟨hlt, he⟩ := List.getElem?_eq_some_iff.mp hi
  have hcases : i = 0 ∨ i = 1 ∨ i = 2 := by
    have : i < 3 := hlt
    omega
  rcases hcases with rfl | rfl | rfl
  all_goals
    obtain ⟨rfl, rfl⟩ := Prod.mk.inj he
    decide

/-- The socket is deleted in a round that would serve it. -/
theorem walk_safe_socket_deleted :
    ∃ l' m' visited,
      pollRound (fun _ => ⟨socketDeleteMsg 10, 10, ⟨0, 0, []⟩⟩) 103 4 threeEntries =
        .ok (m', visited) ∧
      SafeWalk [100, 101, 102] (l'.map Prod.fst) visited ∧ visited = [100, 101] ∧
      Chain m'.nodes m'.fdList l' := by
  obtain ⟨l', -, hround⟩ := walk_safe_under_modification (l := threeNodes) (m := threeEntries)
    (fun _ => ⟨socketDeleteMsg 10, 10, ⟨0, 0, []⟩⟩) 103 4 rfl chain_threeNodes
    (by decide) (by decide) (by decide) (by decide) (by decide)
  have hvisited : (pollRound (fun _ => ⟨socketDeleteMsg 10, 10, ⟨0, 0, []⟩⟩) 103 4
      threeEntries).toOption.map Prod.snd = some [100, 101] := by decide
  rcases hround with ⟨-, hfail⟩ | ⟨m', t', visited, -, -, hsafe, -, hok, hrep⟩
  · rw [hfail] at hvisited
    cases hvisited
  · rw [hok] at hvisited
    exact ⟨l', _, visited, hok, hsafe, Option.some.inj hvisited, hrep.chain⟩

/-! ## The rounds of the thread -/

open OfConnect.Lib.Run OfConnect.PollThr.Rounds
open OfConnect.PollThr.Conservation (polloutProcess_cases)

/-- `poll_fd_process` changes the list only for the primary pipe. -/
theorem pollFdProcess_fdList {t' : PollthrPrivate} {e : FdInfo} {r : PipeReads}
    (hpri : takesPri t e = false)
    (h : (Thread.pollFdProcess t e r).map Prod.fst = some t') : t'.fdList = t.fdList := by
  rw [pollFdProcess_eq] at h
  obtain ⟨t₁, hpollin, hpollout⟩ := Option.bind_eq_some_iff.mp h
  obtain ⟨q, hq, rfl⟩ := Option.map_eq_some_iff.mp hpollout
  have hlist₁ : t₁.fdList = t.fdList := by
    rcases pollinProcess_inversion hpollin with
      rfl | ⟨-, hdata⟩ | ⟨htakes, -⟩ | ⟨htakes, -⟩ | ⟨d, htakes, -⟩
    · rfl
    · unfold Thread.pollthrDataPipeProcessFunc at hdata
      split at hdata
      · cases hdata
      · obtain rfl := Option.some.inj hdata
        rfl
    all_goals
      rw [hpri] at htakes
      cases htakes
  rcases polloutProcess_cases hq with ⟨-, rfl⟩ | ⟨info, -, -, rfl⟩
  · exact hlist₁
  · exact hlist₁

theorem takesPri_eq_false {e : FdInfo} (he : e.pollinFunc ≠ some .priPipe) :
    takesPri t e = false := by
  simp [takesPri, he]

theorem serveEntries_fdList {reads : Addr → PipeReads} {t' : PollthrPrivate}
    (hl : ∀ n ∈ l, n.2.pollinFunc ≠ some .priPipe) (h : serveEntries reads l t = some t') :
    t'.fdList = t.fdList := by
  induction l generalizing t with
  | nil =>
    obtain rfl := Option.some.inj h
    rfl
  | cons n l ih =>
    obtain ⟨t₁, hhead, hrest⟩ := Option.bind_eq_some_iff.mp h
    rw [ih (fun n' hn' => hl n' (List.mem_cons_of_mem _ hn')) hrest]
    exact pollFdProcess_fdList (takesPri_eq_false (hl n List.mem_cons_self)) hhead

/-- The two steps of a round for an entry. -/
def actsOf (reads : Addr → PipeReads) (a : Addr) : List Act := [.pollin (reads a), .pollout]

theorem run_actsOf {reads : Addr → PipeReads} {a : Addr} {e : FdInfo} {rest : List FdInfo}
    {t' : PollthrPrivate} (reported : List PollFd) (hfunc : (reads a).pri.pollinFunc ≠ some .priPipe)
    (h : (Thread.pollFdProcess t e (reads a)).map Prod.fst = some t') :
    run step ⟨t, .pollin e rest, reported⟩ (actsOf reads a) =
      some ⟨t', .walk (if takesPri t e ∧ rest ≠ [] then t'.fdList.tail else rest), reported⟩ := by
  rw [pollFdProcess_eq] at h
  obtain ⟨t₁, hpollin, hpollout⟩ := Option.bind_eq_some_iff.mp h
  obtain ⟨q, hq, rfl⟩ := Option.map_eq_some_iff.mp hpollout
  have hlist : q.1.fdList = t₁.fdList := by
    rcases polloutProcess_cases hq with ⟨-, rfl⟩ | ⟨info, -, -, rfl⟩
    · rfl
    · rfl
  rw [actsOf, run_cons, hlist]
  simp only [step, if_neg hfunc, hpollin, Option.map_some, Option.bind_some, run_cons, hq, run_nil]

theorem run_serve {reads : Addr → PipeReads} {t' : PollthrPrivate} (reported : List PollFd)
    (hl : ∀ n ∈ l, n.2.pollinFunc ≠ some .priPipe)
    (hfunc : ∀ a, (reads a).pri.pollinFunc ≠ some .priPipe)
    (h : serveEntries reads l t = some t') :
    run step ⟨t, .walk (l.map Prod.snd), reported⟩ ((l.map Prod.fst).flatMap (actsOf reads)) =
      some ⟨t', .poll, reported⟩ := by
  induction l generalizing t with
  | nil =>
    obtain rfl := Option.some.inj h
    rfl
  | cons n l ih =>
    obtain ⟨t₁, hhead, hrest⟩ := Option.bind_eq_some_iff.mp h
    have hpri : takesPri t n.2 = false := takesPri_eq_false (hl n List.mem_cons_self)
    rw [List.map_cons, List.map_cons, List.flatMap_cons, run_append, Cursor.walk,
      run_actsOf reported (hfunc n.1) hhead, Option.bind_some, hpri, if_neg (by simp)]
    exact ih (fun n' hn' => hl n' (List.mem_cons_of_mem _ hn')) hrest

/-- A walk in memory is a walk of the thread: its steps serve the nodes that were visited. -/
theorem walk_refines_rounds {reads : Addr → PipeReads} {node a₀ a₁ : Addr} {e₀ e₁ : FdInfo}
    {rest : List (Addr × FdInfo)} {fuel : Nat} {m' : PollthrMem} {visited : List Addr}
    (reported : List PollFd) (h : Represents m ((a₀, e₀) :: (a₁, e₁) :: rest) t)
    (hlater : ∀ n ∈ (a₁, e₁) :: rest, n.2.pollinFunc ≠ some .priPipe)
    (hnode : m.nodes.lookup node = none)
    (hfunc : ∀ a, (reads a).pri.pollinFunc ≠ some .priPipe)
    (hmsg : (reads a₀).pri.fdAction = .deleteFd →
      (reads a₀).pri.fd ≠ e₀.fd ∧ (reads a₀).pri.fd ≠ e₁.fd)
    (hfuel : rest.length + 3 ≤ fuel) (hwalk : walk reads node fuel m = .ok (m', visited)) :
    ∃ l' t', Represents m' l' t' ∧
      run step ⟨t, .walk t.fdList, reported⟩ (visited.flatMap (actsOf reads)) =
        some ⟨t', .poll, reported⟩ := by
  obtain ⟨l', hmod, hagrees⟩ := walk_agrees h hlater hnode (hfunc a₀) hmsg hfuel
  rw [hwalk] at hagrees
  rcases hagrees with ⟨-, hno⟩ | ⟨m₁, t', hserve, hok, h', -⟩
  · cases hno
  obtain ⟨rfl, rfl⟩ := Prod.mk.inj (Except.ok.inj hok)
  refine ⟨l', t', h', ?_⟩
  obtain ⟨rest', rfl, -, hlater'⟩ := hmod.keeps_pipes hlater (hfunc a₀) hmsg
  obtain ⟨t₁, hhead, hrest⟩ := Option.bind_eq_some_iff.mp hserve
  have hlist : t.fdList = e₀ :: e₁ :: rest.map Prod.snd := by rw [h.eq]; rfl
  have hlist₁ : t₁.fdList = e₀ :: e₁ :: rest'.map Prod.snd := by
    rw [← serveEntries_fdList hlater' hrest, h'.eq]
    rfl
  -- the rest of the list, as the primary pipe left it
  have hcursor : (if takesPri t e₀ ∧ e₁ :: rest.map Prod.snd ≠ [] then t₁.fdList.tail
      else e₁ :: rest.map Prod.snd) = ((a₁, e₁) :: rest').map Prod.snd := by
    by_cases hpri : takesPri t e₀ = true
    · rw [if_pos ⟨hpri, by simp⟩, hlist₁]
      rfl
    · rw [if_neg (by simp [hpri])]
      have hsame := pollFdProcess_fdList (Bool.eq_false_iff.mpr hpri) hhead
      rw [hlist₁, hlist] at hsame
      exact (List.cons.inj hsame).2.symm
  rw [List.map_cons, List.flatMap_cons, run_append, hlist, Cursor.walk,
    run_actsOf reported (hfunc a₀) hhead, Option.bind_some, hcursor]
  exact run_serve reported hlater' hfunc hrest

end

end OfConnect.PollThr.Walk
