import OfConnect.Lib.Blocks
import OfConnect.PollThr.Rounds

/-!
# The memory of a poll thread

The blocks of a thread from `adp_thr_mgr_new`, which allocates its user data, to the last `free` of
`adp_thr_mgr_poll_thread_func`: `thr_pvt_p`, `pollfd_arr`, an `adpoll_fd_info_t` for each entry of
`fd_list`, and a block for each message in `send_msg_htbl`. The ledger goes beside the rounds of
`PollThr.Rounds`: with every step it records what the functions allocate, use and free. The nodes
of the list are those of `PollThr.Walk`, and not counted here.

`g_hash_table_insert` and `g_hash_table_remove` call `func_destroy_val` for the message that goes,
and `g_list_free_full` frees the entries that are in the list at the end. `DELETE_FD` takes an entry
out of the list and does not free it, and nothing refers to it any more after the round.
-/

namespace OfConnect.PollThr.Blocks

open OfConnect.Lib.Slots OfConnect.Lib.Tables OfConnect.Lib.Run OfConnect.Lib.Blocks
open OfConnect.PollThr.Thread OfConnect.PollThr.Conservation OfConnect.PollThr.Rounds

/-! ## The ledger -/

/-- `pollthr_data_p`, `thr_pvt_p`, `pollfd_arr`, the table of `send_msg_htbl` and the entry of the
primary pipe are the first blocks. -/
def pollthrDataP : Nat := 0
def thrPvtP : Nat := 1
def pollfdArr : Nat := 2
def sendMsgHtbl : Nat := 3
def priPipeEntry : Nat := 4

/-- The blocks of the entries of `fd_list` in its order, of those the walk has still to serve, and
of the messages; and the entries that were taken out of the list. -/
structure Ledger where
  next : Nat
  trace : List Event
  entries : List Nat
  todo : List Nat
  infos : Table Fd Nat
  dropped : List Nat

/-- `adp_thr_mgr_poll_thread_func` before its loop. It frees its user data, and then reads the
manager from there, to lock, to signal and to unlock. -/
def ledgerInit : Ledger where
  next := 5
  trace := [.alloc pollthrDataP, .use pollthrDataP, .alloc thrPvtP, .use pollthrDataP,
    .alloc pollfdArr, .use thrPvtP, .use pollthrDataP, .alloc sendMsgHtbl, .alloc priPipeEntry,
    .use pollthrDataP, .use priPipeEntry, .use pollfdArr, .use thrPvtP, .free pollthrDataP,
    .use thrPvtP, .use pollfdArr, .use pollthrDataP, .use pollthrDataP, .use pollthrDataP]
  entries := [priPipeEntry]
  todo := []
  infos := ∅
  dropped := []

def Ledger.use (m : Ledger) (bs : List Nat) : Ledger :=
  { m with trace := m.trace ++ bs.map .use }

/-- The index of the entry that a search for an fd stops at. -/
def entryIdx (t : PollthrPrivate) (fd : Fd) : Option Nat := t.fdList.findIdx? fun e => e.fd == fd

/-- The entries that a search for an fd compares. -/
def searched (m : Ledger) (t : PollthrPrivate) (fd : Fd) : List Nat :=
  match entryIdx t fd with
  | none => m.entries
  | some i => m.entries.take (i + 1)

/-- `ADD_FD`: the list is searched, and the new entry is filled in. -/
def ledgerAddFd (m : Ledger) (t : PollthrPrivate) (msg : ThrMsg) : Ledger :=
  { m with
    next := m.next + 1
    trace := m.trace ++ (searched m t msg.fd).map .use ++ [.alloc m.next] ++
      [m.next, pollfdArr].map .use
    entries := m.entries ++ [m.next] }

/-- `DELETE_FD`: the entry that is found goes out of the list. -/
def ledgerDeleteFd (m : Ledger) (t : PollthrPrivate) (msg : ThrMsg) : Ledger :=
  let m := m.use [pollfdArr]
  if msg.fd = (t.pollfdArr 0).fd ∨ msg.fd = (t.pollfdArr 1).fd then m
  else
    match findFrom (fun p => p.fd == msg.fd) t.pollfdArr 1 t.numPollfds with
    | none => m
    | some _ =>
      let m := m.use (searched m t msg.fd)
      match entryIdx t msg.fd with
      | none => m
      | some i => { m with
          entries := m.entries.eraseIdx i
          dropped := m.dropped ++ (m.entries[i]?).toList }

/-- `pollthr_data_pipe_process_func`: a message that it replaces is freed. -/
def ledgerDataPipe (m : Ledger) (t : PollthrPrivate) (fd : Fd) : Ledger :=
  { m with
    next := m.next + 1
    trace := m.trace ++ [.alloc m.next] ++ [m.next, sendMsgHtbl].map .use ++
      (m.infos.lookup fd).toList.map .free ++ (searched m t fd ++ [pollfdArr]).map .use
    infos := m.infos.insert fd m.next }

/-- The ledger when `poll_fd_process` has looked at its entry. -/
def Ledger.serve (m : Ledger) : Ledger := m.use ([thrPvtP, pollfdArr] ++ m.todo.take 1)

/-- The first half of `poll_fd_process`. -/
def ledgerPollin (m : Ledger) (t : PollthrPrivate) (e : FdInfo) (r : PipeReads) : Ledger :=
  let m := m.serve
  if pollinSet t e then
    match e.pollinFunc with
    | some .priPipe =>
      match r.pri.fdAction with
      | .addFd => ledgerAddFd m t r.pri
      | .deleteFd => ledgerDeleteFd m t r.pri
    | some .dataPipe => ledgerDataPipe m t r.dataFd
    | _ => m
  else m

/-- The second half: `pollout_func` gets the message, which then leaves the table and is freed. -/
def ledgerPollout (m : Ledger) (t : PollthrPrivate) (e : FdInfo) : Ledger :=
  let m := m.serve
  if polloutSet t e then
    let sendMsgKeyFd := (t.pollfdArr e.pollfdEntry).fd
    match m.infos.lookup sendMsgKeyFd with
    | none => m
    | some b =>
      { m with
        trace := m.trace ++ [sendMsgHtbl, b].map .use ++ [.free b] ++
          [sendMsgHtbl, pollfdArr].map .use
        infos := m.infos.erase sendMsgKeyFd }
  else m

/-- What a step of the loop does to the ledger. After the last entry the list is printed. -/
def ledgerStep (m : Ledger) (s : Loop) : Rounds.Act → Ledger
  | .poll _ => { m.use [thrPvtP, pollfdArr] with todo := m.entries }
  | .timeout => m.use [thrPvtP, pollfdArr]
  | .pollin r =>
    match s.cursor with
    | .pollin e rest =>
      let m' := ledgerPollin m s.thr e r
      { m' with
        todo := m.todo.take 1 ++ if takesPri s.thr e ∧ rest ≠ [] then m'.entries.tail else m.todo.tail }
    | _ => m
  | .pollout =>
    match s.cursor with
    | .pollout e rest =>
      let m' := ledgerPollout m s.thr e
      { (if rest = [] then m'.use (m'.entries ++ [thrPvtP, pollfdArr]) else m') with
        todo := m.todo.tail }
    | _ => m

/-- The blocks of the messages in the table. -/
def infoBlocks (t : Table Fd Nat) : List Nat := t.entries.map fun e => e.2

/-- `adp_thr_mgr_poll_thread_func` behind its loop. -/
def ledgerExit (m : Ledger) : Ledger :=
  { m with
    trace := m.trace ++ [.use thrPvtP] ++
      ([pollfdArr] ++ m.entries ++ infoBlocks m.infos ++ [sendMsgHtbl]).map .free ++
      [.use thrPvtP] ++ [.free thrPvtP]
    entries := []
    todo := []
    infos := ∅ }

/-! ## The life of a thread -/

structure Life where
  loop : Loop
  ledger : Ledger
  exited : Bool

def start (arr : Nat → PollFd) (priPipe : Fd) : Life :=
  ⟨Rounds.start arr priPipe, ledgerInit, false⟩

inductive Act where
  | round (a : Rounds.Act)
  | leave

/-- The loop ends where `num_pollfds` is 0, or where `poll` fails. -/
def step (s : Life) : Act → Option Life
  | .round a =>
    if s.exited then none
    else (Rounds.step s.loop a).map fun l => ⟨l, ledgerStep s.ledger s.loop a, false⟩
  | .leave =>
    if s.exited = false ∧ s.loop.cursor = .poll then some ⟨s.loop, ledgerExit s.ledger, true⟩
    else none

/-- The blocks that a running thread refers to: its three own ones, an entry for each fd, and a
block for each message. -/
def Ledger.inUse (m : Ledger) : List Nat :=
  [thrPvtP, pollfdArr, sendMsgHtbl] ++ (m.entries ++ infoBlocks m.infos)

/-- The reads of the manager after the user data has been freed. -/
def afterFree : List Event := [.use pollthrDataP, .use pollthrDataP, .use pollthrDataP]

/-- Of all that the thread does only the reads at its start are improper, and the blocks that are
there are those it refers to and the entries that were taken out of the list. -/
structure Accounted (s : Life) : Prop where
  improper : improper [] s.ledger.trace = afterFree
  distinct : ((if s.exited then [] else s.ledger.inUse) ++ s.ledger.dropped).Nodup
  live : ∀ b, Live s.ledger.trace b ↔
    b ∈ (if s.exited then [] else s.ledger.inUse) ++ s.ledger.dropped
  entries : s.exited = false → s.ledger.entries.length = s.loop.thr.fdList.length
  infos : s.exited = false → ∀ fd, fd ∈ s.ledger.infos ↔ fd ∈ s.loop.thr.sendMsgHtbl
  walk : s.exited = false → s.ledger.todo.length = s.loop.cursor.todo.length

/-! ## What each function keeps -/

/-- The account of a running thread. The walk serves no entry that has been freed. -/
structure Kept (m : Ledger) : Prop where
  account : Account afterFree m.next m.trace (m.inUse ++ m.dropped)
  todo : ∀ b ∈ m.todo, b ∈ m.entries ++ m.dropped

theorem kept_init : Kept ledgerInit := by
  refine ⟨⟨by decide, by decide, fun b => ?_, by decide⟩, fun b hb => absurd hb List.not_mem_nil⟩
  simp only [Live, ledgerInit, Ledger.inUse, infoBlocks, AList.empty_entries, List.map_nil,
    List.append_nil, List.mem_append, List.mem_cons, List.not_mem_nil, or_false, false_or,
    Event.alloc.injEq, Event.free.injEq, reduceCtorEq, pollthrDataP, thrPvtP, pollfdArr,
    sendMsgHtbl, priPipeEntry]
  omega

section

variable {m : Ledger} {t : PollthrPrivate} {fd : Fd}

theorem mem_inUse {b : Nat} : b ∈ m.inUse ++ m.dropped ↔
    b = thrPvtP ∨ b = pollfdArr ∨ b = sendMsgHtbl ∨ b ∈ m.entries ∨ b ∈ infoBlocks m.infos ∨
      b ∈ m.dropped := by
  simp only [Ledger.inUse, List.mem_append, List.mem_cons, List.not_mem_nil, or_false, or_assoc]

theorem entry_inUse {b : Nat} (hb : b ∈ m.entries) : b ∈ m.inUse ++ m.dropped :=
  mem_inUse.mpr (.inr (.inr (.inr (.inl hb))))

theorem arr_inUse : pollfdArr ∈ m.inUse ++ m.dropped := mem_inUse.mpr (.inr (.inl rfl))

theorem htbl_inUse : sendMsgHtbl ∈ m.inUse ++ m.dropped := mem_inUse.mpr (.inr (.inr (.inl rfl)))

/-- A search compares entries of the list. -/
theorem searched_subset {b : Nat} (hb : b ∈ searched m t fd) : b ∈ m.entries := by
  unfold searched at hb
  split at hb
  · exact hb
  · exact List.mem_of_mem_take hb


theorem Kept.use (h : Kept m) {bs : List Nat} (hbs : ∀ b ∈ bs, b ∈ m.inUse ++ m.dropped) :
    Kept (m.use bs) :=
  ⟨h.account.uses hbs, h.todo⟩

/-- The entry that `poll_fd_process` is called with has not been freed. -/
theorem Kept.serve (h : Kept m) : Kept m.serve := by
  refine h.use fun b hb => ?_
  rw [mem_inUse]
  rcases List.mem_append.mp hb with hb | hb
  · rcases List.mem_cons.mp hb with rfl | hb
    · exact .inl rfl
    · exact .inr (.inl (List.mem_singleton.mp hb))
  · rcases List.mem_append.mp (h.todo b (List.mem_of_mem_take hb)) with hb | hb
    · exact .inr (.inr (.inr (.inl hb)))
    · exact .inr (.inr (.inr (.inr (.inr hb))))

theorem infoBlocks_insert (infos : Table Fd Nat) (fd : Fd) (b : Nat) :
    infoBlocks (infos.insert fd b) = b :: infoBlocks (infos.erase fd) := by
  unfold infoBlocks
  rw [AList.entries_insert]
  rfl

theorem infoBlocks_erase_none {infos : Table Fd Nat} (h : infos.lookup fd = none) :
    infoBlocks (infos.erase fd) = infoBlocks infos := by
  unfold infoBlocks
  rw [show (infos.erase fd).entries = infos.entries from
    List.kerase_of_notMem_keys (AList.lookup_eq_none.mp h)]

theorem infoBlocks_erase_some {infos : Table Fd Nat} {b : Nat} (h : infos.lookup fd = some b) :
    (infoBlocks infos).Perm (b :: infoBlocks (infos.erase fd)) := by
  have hmem : fd ∈ infos.entries.keys :=
    AList.mem_keys.mpr (AList.lookup_isSome.mp (by rw [h]; rfl))
  obtain ⟨b', l₁, l₂, -, he, hkerase⟩ := List.exists_of_kerase hmem
  have hin : (⟨fd, b'⟩ : Sigma fun _ : Fd => Nat) ∈ infos.entries := by simp [he]
  obtain rfl := Option.some.inj ((lookup_eq_some_iff.mpr hin).symm.trans h)
  unfold infoBlocks
  rw [show (infos.erase fd).entries = _ from hkerase, he]
  simp only [List.map_append, List.map_cons]
  exact List.perm_middle

theorem kept_addFd (h : Kept m) (msg : ThrMsg) : Kept (ledgerAddFd m t msg) := by
  have hsearch : ∀ b ∈ searched m t msg.fd, b ∈ m.inUse ++ m.dropped :=
    fun b hb => entry_inUse (searched_subset hb)
  have hnew := (h.account.uses hsearch).alloc
  refine ⟨(hnew.uses ?_).perm ?_, fun b hb => ?_⟩
  · intro b hb
    rcases List.mem_cons.mp hb with rfl | hb
    · exact List.mem_cons_self
    · rw [List.mem_singleton.mp hb]
      exact List.mem_cons_of_mem _ arr_inUse
  · refine List.perm_iff_count.mpr fun b => ?_
    simp only [ledgerAddFd, Ledger.inUse, List.count_append, List.count_cons, List.count_nil]
    omega
  · have hold := h.todo b hb
    simp only [ledgerAddFd, List.mem_append, List.mem_singleton] at hold ⊢
    tauto

/-- What `DELETE_FD` makes of the blocks: none of them is freed. -/
theorem deleteFd_perm (m : Ledger) (i : Nat) :
    (m.entries.eraseIdx i ++ (m.dropped ++ (m.entries[i]?).toList)).Perm
      (m.entries ++ m.dropped) := by
  refine List.perm_iff_count.mpr fun b => ?_
  by_cases hi : i < m.entries.length
  · have hperm := (List.getElem_cons_eraseIdx_perm hi).count_eq b
    simp only [List.count_cons, List.getElem?_eq_getElem hi, Option.toList_some, List.count_append,
      List.count_nil] at hperm ⊢
    omega
  · rw [List.eraseIdx_of_length_le (by omega), List.getElem?_eq_none (by omega)]
    simp

theorem kept_deleteFd (h : Kept m) (msg : ThrMsg) : Kept (ledgerDeleteFd m t msg) := by
  have harr : ∀ b ∈ [pollfdArr], b ∈ m.inUse ++ m.dropped := by
    intro b hb
    rw [List.mem_singleton.mp hb]
    exact arr_inUse
  have hkept := h.use harr
  unfold ledgerDeleteFd
  dsimp only
  split
  · exact hkept
  · split
    · exact hkept
    · have hsearch : ∀ b ∈ searched (m.use [pollfdArr]) t msg.fd, b ∈ m.inUse ++ m.dropped :=
        fun b hb => entry_inUse (searched_subset hb)
      have hkept' := hkept.use hsearch
      split
      · exact hkept'
      · rename_i i _
        have hperm := deleteFd_perm m i
        refine ⟨hkept'.account.perm ?_, fun b hb => ?_⟩
        · refine List.perm_iff_count.mpr fun b => ?_
          have hcount := hperm.count_eq b
          simp only [Ledger.inUse, Ledger.use, List.count_append] at hcount ⊢
          omega
        · exact hperm.mem_iff.mpr (h.todo b hb)

theorem kept_dataPipe (h : Kept m) (fd : Fd) : Kept (ledgerDataPipe m t fd) := by
  have hnew := h.account.alloc
  have hused : Account afterFree (m.next + 1)
      (m.trace ++ [.alloc m.next] ++ [m.next, sendMsgHtbl].map .use)
      (m.next :: (m.inUse ++ m.dropped)) := by
    refine hnew.uses fun b hb => ?_
    rcases List.mem_cons.mp hb with rfl | hb
    · exact List.mem_cons_self
    · rw [List.mem_singleton.mp hb]
      exact List.mem_cons_of_mem _ htbl_inUse
  refine ⟨?_, fun b hb => h.todo b hb⟩
  have hfreed : Account afterFree (m.next + 1)
      (m.trace ++ [.alloc m.next] ++ [m.next, sendMsgHtbl].map .use ++
        (m.infos.lookup fd).toList.map .free)
      ((ledgerDataPipe m t fd).inUse ++ m.dropped) := by
    refine (hused.perm (List.perm_iff_count.mpr fun b => ?_)).frees
    simp only [ledgerDataPipe, Ledger.inUse, infoBlocks_insert, List.count_append, List.count_cons]
    cases hl : m.infos.lookup fd with
    | none =>
      rw [infoBlocks_erase_none hl]
      simp only [Option.toList_none, List.count_nil]
      omega
    | some old =>
      have hperm := (infoBlocks_erase_some hl).count_eq b
      simp only [Option.toList_some, List.count_cons, List.count_nil] at hperm ⊢
      omega
  refine hfreed.uses fun b hb => ?_
  rcases List.mem_append.mp hb with hb | hb
  · exact entry_inUse (m := ledgerDataPipe m t fd) (searched_subset hb)
  · rw [List.mem_singleton.mp hb]
    exact arr_inUse (m := ledgerDataPipe m t fd)

theorem kept_pollin (h : Kept m) (e : FdInfo) (r : PipeReads) : Kept (ledgerPollin m t e r) := by
  have hkept := h.serve
  unfold ledgerPollin
  dsimp only
  split
  · split
    · split
      · exact kept_addFd hkept r.pri
      · exact kept_deleteFd hkept r.pri
    · exact kept_dataPipe hkept r.dataFd
    · exact hkept
  · exact hkept

theorem kept_pollout (h : Kept m) (e : FdInfo) : Kept (ledgerPollout m t e) := by
  have hkept := h.serve
  unfold ledgerPollout
  generalize m.serve = m' at hkept
  dsimp only
  split
  · split
    · exact hkept
    · rename_i b hl
      have hperm := infoBlocks_erase_some hl
      have hused : ∀ b' ∈ [sendMsgHtbl, b], b' ∈ m'.inUse ++ m'.dropped := by
        intro b' hb'
        rcases List.mem_cons.mp hb' with rfl | hb'
        · exact htbl_inUse
        · rw [List.mem_singleton.mp hb', mem_inUse, hperm.mem_iff]
          exact .inr (.inr (.inr (.inr (.inl List.mem_cons_self))))
      refine ⟨(((hkept.account.uses hused).perm ?_).free).uses fun b' hb' => ?_, hkept.todo⟩
      · refine List.perm_iff_count.mpr fun b' => ?_
        have hcount := hperm.count_eq b'
        simp only [Ledger.inUse, List.count_append, List.count_cons] at hcount ⊢
        omega
      · rcases List.mem_cons.mp hb' with rfl | hb'
        · exact mem_inUse.mpr (.inr (.inr (.inl rfl)))
        · rw [List.mem_singleton.mp hb']
          exact mem_inUse.mpr (.inr (.inl rfl))
  · exact hkept

/-! ## The ledger and the thread -/

/-- The list has a block for each of its entries, and the table one for each of its messages. -/
structure Parallel (m : Ledger) (t : PollthrPrivate) : Prop where
  entries : m.entries.length = t.fdList.length
  infos : ∀ fd, fd ∈ m.infos ↔ fd ∈ t.sendMsgHtbl

/-- The message takes an entry out of `fd_list`. -/
def Deletes (t : PollthrPrivate) (msg : ThrMsg) : Prop :=
  OffPipes t msg ∧ msg.fd ∈ t.polled ∧ msg.fd ∈ t.fds

theorem entryIdx_some {i : Nat} (h : entryIdx t fd = some i) : i < t.fdList.length ∧ fd ∈ t.fds := by
  obtain ⟨hlt, hfd, -⟩ := List.findIdx?_eq_some_iff_getElem.mp h
  exact ⟨hlt, List.mem_map.mpr ⟨t.fdList[i], List.getElem_mem hlt, by simpa using hfd⟩⟩

theorem entryIdx_none (h : entryIdx t fd = none) : fd ∉ t.fds := by
  intro hmem
  obtain ⟨e, he, hfd⟩ := List.mem_map.mp hmem
  have hne := List.findIdx?_eq_none_iff.mp h e he
  simp [hfd] at hne

/-- The search in the array stops at a polled fd. -/
theorem findFrom_isSome {msg : ThrMsg} (hoff : OffPipes t msg) :
    (findFrom (fun p => p.fd == msg.fd) t.pollfdArr 1 t.numPollfds).isSome ↔
      msg.fd ∈ t.polled := by
  rw [polled_eq_live, mem_live]
  cases hf : findFrom (fun p => p.fd == msg.fd) t.pollfdArr 1 t.numPollfds with
  | none =>
    refine iff_of_false (by simp) fun hex => ?_
    obtain ⟨i, hi, hfd⟩ := hex
    have hpos : 1 ≤ i := by
      rcases Nat.eq_zero_or_pos i with rfl | hpos
      · exact absurd hfd.symm hoff.1
      · exact hpos
    have hnot := findFrom_none hf i hpos hi
    simp [hfd] at hnot
  | some d =>
    obtain ⟨-, hd, hfd⟩ := findFrom_some hf
    exact iff_of_true rfl ⟨d, hd, by simpa using hfd⟩

/-- `DELETE_FD` of a polled fd costs the list an entry and its block, and changes nothing else. -/
theorem ledgerDeleteFd_cases (h : Parallel m t) (msg : ThrMsg) :
    Parallel (ledgerDeleteFd m t msg) (deleteFd t msg) ∧ (ledgerDeleteFd m t msg).todo = m.todo ∧
    ((ledgerDeleteFd m t msg).dropped = m.dropped ∧ ¬Deletes t msg ∨
      ∃ b, (ledgerDeleteFd m t msg).dropped = m.dropped ++ [b] ∧ Deletes t msg) := by
  unfold ledgerDeleteFd deleteFd
  dsimp only
  by_cases hself : msg.fd = (t.pollfdArr 0).fd ∨ msg.fd = (t.pollfdArr 1).fd
  · rw [if_pos hself, if_pos hself]
    refine ⟨⟨h.entries, h.infos⟩, rfl, .inl ⟨rfl, fun hdel => ?_⟩⟩
    exact hself.elim hdel.1.1 hdel.1.2
  · have hoff : OffPipes t msg := ⟨fun heq => hself (.inl heq), fun heq => hself (.inr heq)⟩
    have hpolled := findFrom_isSome hoff
    rw [if_neg hself, if_neg hself]
    cases hf : findFrom (fun p => p.fd == msg.fd) t.pollfdArr 1 t.numPollfds with
    | none =>
      rw [hf] at hpolled
      refine ⟨⟨h.entries, h.infos⟩, rfl, .inl ⟨rfl, fun hdel => ?_⟩⟩
      exact absurd (hpolled.mpr hdel.2.1) (by simp)
    | some d =>
      rw [hf] at hpolled
      cases hi : entryIdx t msg.fd with
      | none =>
        have hgone : t.fdList.eraseP (fun e => e.fd == msg.fd) = t.fdList := by
          rw [List.eraseP_eq_eraseIdx, show t.fdList.findIdx? (fun e => e.fd == msg.fd) = none from hi]
        refine ⟨⟨?_, h.infos⟩, rfl, .inl ⟨rfl, fun hdel => entryIdx_none hi hdel.2.2⟩⟩
        show m.entries.length = (t.fdList.eraseP fun e => e.fd == msg.fd).length
        rw [hgone]
        exact h.entries
      | some i =>
        obtain ⟨hlt, hfds⟩ := entryIdx_some hi
        obtain ⟨b, hget⟩ : ∃ b, m.entries[i]? = some b :=
          ⟨_, List.getElem?_eq_getElem (by rw [h.entries]; exact hlt)⟩
        refine ⟨⟨?_, h.infos⟩, rfl, .inr ⟨b, ?_, hoff, hpolled.mp rfl, hfds⟩⟩
        · show (m.entries.eraseIdx i).length = (t.fdList.eraseP fun e => e.fd == msg.fd).length
          rw [List.eraseP_eq_eraseIdx, show t.fdList.findIdx? (fun e => e.fd == msg.fd) = some i from hi,
            List.length_eraseIdx, List.length_eraseIdx, h.entries]
        · show m.dropped ++ (m.entries[i]?).toList = _
          rw [hget]
          rfl

/-- The first half of `poll_fd_process` takes an entry out of `fd_list`. -/
def DropsEntry (t : PollthrPrivate) (e : FdInfo) (r : PipeReads) : Prop :=
  takesPri t e = true ∧ r.pri.fdAction = .deleteFd ∧ Deletes t r.pri

theorem pollin_of_pri {e : FdInfo} (h : takesPri t e = true) (r : PipeReads) :
    pollinProcess t e r = pollthrPriPipeProcessFunc t r.pri ∧
    ledgerPollin m t e r = match r.pri.fdAction with
      | .addFd => ledgerAddFd m.serve t r.pri
      | .deleteFd => ledgerDeleteFd m.serve t r.pri := by
  simp only [takesPri, Bool.and_eq_true, beq_iff_eq] at h
  simp only [pollinProcess, ledgerPollin, h.1, h.2, if_true, and_self]

theorem pollin_of_data {e : FdInfo} (h : takesData t e = true) (r : PipeReads) :
    pollinProcess t e r = pollthrDataPipeProcessFunc t r.dataFd r.dataInfo ∧
    ledgerPollin m t e r = ledgerDataPipe m.serve t r.dataFd := by
  simp only [takesData, Bool.and_eq_true, beq_iff_eq] at h
  simp only [pollinProcess, ledgerPollin, h.1, h.2, if_true, and_self]

theorem pollin_of_other {e : FdInfo} (hpri : ¬takesPri t e = true) (hdata : ¬takesData t e = true)
    (r : PipeReads) : pollinProcess t e r = some t ∧ ledgerPollin m t e r = m.serve := by
  unfold takesPri at hpri
  unfold takesData at hdata
  unfold pollinProcess ledgerPollin
  by_cases hset : pollinSet t e = true
  · rw [hset, Bool.true_and, beq_iff_eq] at hpri hdata
    cases hfunc : e.pollinFunc with
    | none => simp [hset]
    | some f =>
      rw [hfunc] at hpri hdata
      cases f with
      | priPipe => exact absurd rfl hpri
      | dataPipe => exact absurd rfl hdata
      | _ => simp [hset]
  · simp [hset]

theorem ledgerPollin_cases (h : Parallel m t) {t' : PollthrPrivate} {e : FdInfo} {r : PipeReads}
    (hp : pollinProcess t e r = some t') :
    Parallel (ledgerPollin m t e r) t' ∧ (ledgerPollin m t e r).todo = m.todo ∧
    ((ledgerPollin m t e r).dropped = m.dropped ∧ ¬DropsEntry t e r ∨
      ∃ b, (ledgerPollin m t e r).dropped = m.dropped ++ [b] ∧ DropsEntry t e r) := by
  have hserve : Parallel m.serve t := ⟨h.entries, h.infos⟩
  by_cases hpri : takesPri t e = true
  · obtain ⟨hproc, hledger⟩ := pollin_of_pri (m := m) hpri r
    rw [hproc] at hp
    rw [hledger]
    unfold pollthrPriPipeProcessFunc at hp
    cases hact : r.pri.fdAction with
    | addFd =>
      simp only [hact] at hp ⊢
      obtain ⟨-, -, -, hlist, hhtbl⟩ := addFd_eq_some hp
      refine ⟨⟨?_, fun fd => ?_⟩, rfl, .inl ⟨rfl, fun hdrop => ?_⟩⟩
      · rw [hlist, List.length_append, ← h.entries]
        exact List.length_append
      · rw [hhtbl]
        exact h.infos fd
      · exact absurd (hact.symm.trans hdrop.2.1) (by decide)
    | deleteFd =>
      simp only [hact] at hp ⊢
      obtain rfl := Option.some.inj hp
      obtain ⟨hpar, htodo, hdropped⟩ := ledgerDeleteFd_cases hserve r.pri
      refine ⟨hpar, htodo, ?_⟩
      rcases hdropped with ⟨hsame, hnot⟩ | ⟨b, hmore, hdel⟩
      · exact .inl ⟨hsame, fun hdrop => hnot hdrop.2.2⟩
      · exact .inr ⟨b, hmore, hpri, hact, hdel⟩
  · have hnot : ¬DropsEntry t e r := fun hdrop => hpri hdrop.1
    by_cases hdata : takesData t e = true
    · obtain ⟨hproc, hledger⟩ := pollin_of_data (m := m) hdata r
      rw [hproc] at hp
      rw [hledger]
      obtain ⟨e', -, -, rfl⟩ := dataPipe_eq_some hp
      refine ⟨⟨h.entries, fun fd => ?_⟩, rfl, .inl ⟨rfl, hnot⟩⟩
      show fd ∈ m.infos.insert r.dataFd _ ↔ fd ∈ t.sendMsgHtbl.insert r.dataFd r.dataInfo
      rw [AList.mem_insert, AList.mem_insert, h.infos fd]
    · obtain ⟨hproc, hledger⟩ := pollin_of_other (m := m) hpri hdata r
      rw [hproc] at hp
      obtain rfl := Option.some.inj hp
      rw [hledger]
      exact ⟨hserve, rfl, .inl ⟨rfl, hnot⟩⟩

theorem ledgerPollout_cases (h : Parallel m t) {e : FdInfo} {q : PollthrPrivate × Option SendMsgInfo}
    (hp : polloutProcess t e = some q) :
    Parallel (ledgerPollout m t e) q.1 ∧ (ledgerPollout m t e).dropped = m.dropped ∧
      (ledgerPollout m t e).todo = m.todo ∧ (ledgerPollout m t e).entries = m.entries := by
  unfold ledgerPollout
  dsimp only
  rcases polloutProcess_cases hp with ⟨hset, rfl⟩ | ⟨info, hset, hl, rfl⟩
  · rw [if_neg (by simp [hset])]
    exact ⟨⟨h.entries, h.infos⟩, rfl, rfl, rfl⟩
  · rw [if_pos hset]
    obtain ⟨b, hb⟩ : ∃ b, m.infos.lookup (t.pollfdArr e.pollfdEntry).fd = some b := by
      apply Option.isSome_iff_exists.mp
      rw [AList.lookup_isSome, h.infos, ← AList.lookup_isSome, hl]
      rfl
    simp only [show m.serve.infos.lookup (t.pollfdArr e.pollfdEntry).fd = some b from hb]
    refine ⟨⟨h.entries, fun fd => ?_⟩, rfl, rfl, rfl⟩
    show fd ∈ m.infos.erase _ ↔ fd ∈ t.sendMsgHtbl.erase _
    rw [AList.mem_erase, AList.mem_erase, h.infos fd]

/-- `adp_thr_mgr_poll_thread_func` frees what it refers to. -/
theorem account_exit (h : Kept m) :
    Account afterFree (ledgerExit m).next (ledgerExit m).trace (ledgerExit m).dropped := by
  have hpvt := h.account.use (mem_inUse.mpr (.inl rfl))
  have hperm : (m.inUse ++ m.dropped).Perm
      ([pollfdArr] ++ m.entries ++ infoBlocks m.infos ++ [sendMsgHtbl] ++ (thrPvtP :: m.dropped)) := by
    refine List.perm_iff_count.mpr fun b => ?_
    simp only [Ledger.inUse, List.count_append, List.count_cons, List.count_nil]
    omega
  exact ((hpvt.perm hperm).frees.use List.mem_cons_self).free

end

/-! ## Runs -/

structure Inv (s : Life) : Prop where
  kept : s.exited = false → Kept s.ledger
  parallel : s.exited = false → Parallel s.ledger s.loop.thr
  walk : s.exited = false → s.ledger.todo.length = s.loop.cursor.todo.length
  done : s.exited = true → Account afterFree s.ledger.next s.ledger.trace s.ledger.dropped

theorem inv_start (arr : Nat → PollFd) (priPipe : Fd) : Inv (start arr priPipe) :=
  ⟨fun _ => kept_init, fun _ => ⟨rfl, fun _ => Iff.rfl⟩, fun _ => rfl, fun h => Bool.noConfusion h⟩

theorem accounted_of_inv {s : Life} (h : Inv s) : Accounted s := by
  cases hexit : s.exited with
  | false =>
    obtain ⟨hacc, -⟩ := h.kept hexit
    refine ⟨hacc.improper, ?_, ?_, fun _ => (h.parallel hexit).entries,
      fun _ => (h.parallel hexit).infos, fun _ => h.walk hexit⟩
    · rw [hexit]
      exact hacc.nodup
    · rw [hexit]
      exact hacc.live
  | true =>
    have hacc := h.done hexit
    refine ⟨hacc.improper, ?_, ?_, fun hno => ?_, fun hno => ?_, fun hno => ?_⟩
    · rw [hexit]
      exact hacc.nodup
    · rw [hexit]
      exact hacc.live
    · rw [hexit] at hno
      cases hno
    · rw [hexit] at hno
      cases hno
    · rw [hexit] at hno
      cases hno

/-- The step takes an entry out of `fd_list`. -/
def Drops (s : Life) : Act → Prop
  | .round (.pollin r) =>
    match s.loop.cursor with
    | .pollin e _ => DropsEntry s.loop.thr e r
    | _ => False
  | _ => False

instance (t : PollthrPrivate) (msg : ThrMsg) : Decidable (Deletes t msg) :=
  inferInstanceAs (Decidable ((_ ≠ _ ∧ _ ≠ _) ∧ _ ∈ t.polled ∧ _ ∈ t.fds))

instance (t : PollthrPrivate) (e : FdInfo) (r : PipeReads) : Decidable (DropsEntry t e r) :=
  inferInstanceAs (Decidable (takesPri t e = true ∧ _ = _ ∧ Deletes t r.pri))

instance (s : Life) : (a : Act) → Decidable (Drops s a)
  | .round (.pollin r) =>
    match hcur : s.loop.cursor with
    | .pollin e rest => decidable_of_iff (DropsEntry s.loop.thr e r) (by simp only [Drops, hcur])
    | .poll => isFalse (by simp only [Drops, hcur, not_false_eq_true])
    | .pollout e rest => isFalse (by simp only [Drops, hcur, not_false_eq_true])
  | .round (.poll _) => isFalse id
  | .round .timeout => isFalse id
  | .round .pollout => isFalse id
  | .leave => isFalse id

/-- The account of one step of the loop. -/
theorem kept_step {m : Ledger} {l l' : Loop} {a : Rounds.Act} (hkept : Kept m)
    (hpar : Parallel m l.thr) (hwalk : m.todo.length = l.cursor.todo.length)
    (hs : Rounds.step l a = some l') :
    Kept (ledgerStep m l a) ∧ Parallel (ledgerStep m l a) l'.thr ∧
      (ledgerStep m l a).todo.length = l'.cursor.todo.length := by
  have hown : ∀ b ∈ [thrPvtP, pollfdArr], b ∈ m.inUse ++ m.dropped := by
    intro b hb
    rw [mem_inUse]
    rcases List.mem_cons.mp hb with rfl | hb
    · exact .inl rfl
    · exact .inr (.inl (List.mem_singleton.mp hb))
  rcases step_cases hs with ⟨rev, rfl, -, -, rfl⟩ | ⟨rev, rfl, hcur, -, rfl⟩ |
    ⟨r, e, rest, t, rfl, hcur, -, ht, rfl⟩ | ⟨e, rest, q, rfl, hcur, hq, rfl⟩
  · refine ⟨⟨(hkept.use hown).account, fun b hb => List.mem_append_left _ hb⟩,
      ⟨hpar.entries, hpar.infos⟩, ?_⟩
    rw [Cursor.todo_walk]
    exact hpar.entries
  · refine ⟨hkept.use hown, ⟨hpar.entries, hpar.infos⟩, ?_⟩
    rw [hcur] at hwalk
    exact hwalk
  · obtain ⟨hpar', htodo, -⟩ := ledgerPollin_cases hpar ht
    have hkept' := kept_pollin (t := l.thr) hkept e r
    rw [hcur] at hwalk
    have hlen : m.todo.length = rest.length + 1 := hwalk
    unfold ledgerStep
    simp only [hcur]
    refine ⟨⟨hkept'.account, fun b hb => ?_⟩, ⟨hpar'.entries, hpar'.infos⟩, ?_⟩
    · have hold : ∀ b ∈ m.todo, b ∈ (ledgerPollin m l.thr e r).entries ++
          (ledgerPollin m l.thr e r).dropped := by
        intro b hb
        exact hkept'.todo b (htodo ▸ hb)
      rcases List.mem_append.mp hb with hb | hb
      · exact hold b (List.mem_of_mem_take hb)
      · split at hb
        · exact List.mem_append_left _ (List.mem_of_mem_tail hb)
        · exact hold b (List.mem_of_mem_tail hb)
    · have hentries := hpar'.entries
      show _ = (_ :: _ : List FdInfo).length
      rw [List.length_append, List.length_take, List.length_cons]
      by_cases hc : takesPri l.thr e = true ∧ rest ≠ []
      · rw [if_pos hc, if_pos hc, List.length_tail, List.length_tail]
        omega
      · rw [if_neg hc, if_neg hc, List.length_tail]
        omega
  · obtain ⟨hpar', -, htodo, -⟩ := ledgerPollout_cases hpar hq
    have hkept' := kept_pollout (t := l.thr) hkept e
    rw [hcur] at hwalk
    have hlen : m.todo.length = rest.length + 1 := hwalk
    have htail : ∀ b ∈ m.todo.tail, b ∈ (ledgerPollout m l.thr e).entries ++
        (ledgerPollout m l.thr e).dropped := by
      intro b hb
      exact hkept'.todo b (htodo ▸ List.mem_of_mem_tail hb)
    have hwalk' : m.todo.tail.length = (Cursor.walk rest).todo.length := by
      rw [Cursor.todo_walk, List.length_tail]
      omega
    unfold ledgerStep
    simp only [hcur]
    by_cases hlast : rest = []
    · have hused : Kept ((ledgerPollout m l.thr e).use
          ((ledgerPollout m l.thr e).entries ++ [thrPvtP, pollfdArr])) := by
        refine hkept'.use fun b hb => ?_
        rw [mem_inUse]
        rcases List.mem_append.mp hb with hb | hb
        · exact .inr (.inr (.inr (.inl hb)))
        · rcases List.mem_cons.mp hb with rfl | hb
          · exact .inl rfl
          · exact .inr (.inl (List.mem_singleton.mp hb))
      rw [if_pos hlast]
      exact ⟨⟨hused.account, htail⟩, ⟨hpar'.entries, hpar'.infos⟩, hwalk'⟩
    · rw [if_neg hlast]
      exact ⟨⟨hkept'.account, htail⟩, ⟨hpar'.entries, hpar'.infos⟩, hwalk'⟩

theorem inv_step {s s' : Life} {a : Act} (h : Inv s) (hs : step s a = some s') : Inv s' := by
  cases a with
  | round a =>
    simp only [step] at hs
    obtain ⟨hexit, hs⟩ := Option.ite_none_left_eq_some.mp hs
    have hexit : s.exited = false := Bool.eq_false_iff.mpr hexit
    obtain ⟨l, hl, rfl⟩ := Option.map_eq_some_iff.mp hs
    obtain ⟨hkept, hpar, hwalk⟩ := kept_step (h.kept hexit) (h.parallel hexit) (h.walk hexit) hl
    exact ⟨fun _ => hkept, fun _ => hpar, fun _ => hwalk, fun hdone => Bool.noConfusion hdone⟩
  | leave =>
    simp only [step] at hs
    obtain ⟨⟨hexit, -⟩, hs⟩ := Option.ite_none_right_eq_some.mp hs
    obtain rfl := Option.some.inj hs
    exact ⟨fun hrun => Bool.noConfusion hrun, fun hrun => Bool.noConfusion hrun,
      fun hrun => Bool.noConfusion hrun, fun _ => account_exit (h.kept hexit)⟩

/-- Whatever messages, events and results of `poll` a thread gets, from its creation to its end: no
block is freed twice, no block is used after it was freed but the user data, which is read three
times then, and the blocks that are there are those the thread refers to and the entries that
`DELETE_FD` has taken out of its list. -/
theorem blocks_accounted (arr : Nat → PollFd) (priPipe : Fd) (acts : List Act) :
    Always step Accounted (start arr priPipe) acts :=
  (always_of_step (fun _ _ _ h hs => inv_step h hs) (inv_start arr priPipe) acts).mono
    fun _ => accounted_of_inv

/-- The entries that are out of the list stay where they are. -/
theorem dropped_step {s s' : Life} {a : Act} (h : Inv s) (hs : step s a = some s') :
    s'.ledger.dropped = s.ledger.dropped ∧ ¬Drops s a ∨
      ∃ b, s'.ledger.dropped = s.ledger.dropped ++ [b] ∧ Drops s a := by
  cases a with
  | leave =>
    simp only [step] at hs
    obtain ⟨-, hs⟩ := Option.ite_none_right_eq_some.mp hs
    obtain rfl := Option.some.inj hs
    exact .inl ⟨rfl, id⟩
  | round a =>
    simp only [step] at hs
    obtain ⟨hexit, hs⟩ := Option.ite_none_left_eq_some.mp hs
    have hexit : s.exited = false := Bool.eq_false_iff.mpr hexit
    obtain ⟨l, hl, rfl⟩ := Option.map_eq_some_iff.mp hs
    rcases step_cases hl with ⟨rev, rfl, -, -, rfl⟩ | ⟨rev, rfl, -, -, rfl⟩ |
      ⟨r, e, rest, t, rfl, hcur, -, ht, rfl⟩ | ⟨e, rest, q, rfl, hcur, hq, rfl⟩
    · exact .inl ⟨rfl, id⟩
    · exact .inl ⟨rfl, id⟩
    · obtain ⟨-, -, hdropped⟩ := ledgerPollin_cases (h.parallel hexit) ht
      have heq : (ledgerStep s.ledger s.loop (.pollin r)).dropped =
          (ledgerPollin s.ledger s.loop.thr e r).dropped := by
        unfold ledgerStep
        simp only [hcur]
      have hdrops : Drops s (.round (.pollin r)) ↔ DropsEntry s.loop.thr e r := by
        simp only [Drops, hcur]
      rw [hdrops, heq]
      exact hdropped
    · obtain ⟨-, hsame, -, -⟩ := ledgerPollout_cases (h.parallel hexit) hq
      refine .inl ⟨?_, id⟩
      show (ledgerStep s.ledger s.loop .pollout).dropped = _
      unfold ledgerStep
      simp only [hcur]
      split
      · exact hsame
      · exact hsame

theorem dropped_run {acts : List Act} {s s' : Life} (h : Inv s) (hr : run step s acts = some s')
    (hnone : s'.ledger.dropped = []) : s.ledger.dropped = [] := by
  induction acts generalizing s with
  | nil =>
    obtain rfl := Option.some.inj hr
    exact hnone
  | cons a acts ih =>
    rw [run_cons] at hr
    obtain ⟨s₁, hs, hr⟩ := Option.bind_eq_some_iff.mp hr
    have hnext := ih (inv_step h hs) hr
    rcases dropped_step h hs with ⟨hsame, -⟩ | ⟨b, hmore, -⟩
    · rw [← hsame]
      exact hnext
    · rw [hmore] at hnext
      simp at hnext

/-- A thread that has ended has freed all its blocks exactly if it never handled a `DELETE_FD` of
an fd that it polled. -/
theorem all_freed_iff {arr : Nat → PollFd} {priPipe : Fd} {acts : List Act} {s : Life}
    (hr : run step (start arr priPipe) acts = some s) (hexit : s.exited = true) :
    (∀ b, ¬Live s.ledger.trace b) ↔
      Guarded step (fun s a => ¬Drops s a) (start arr priPipe) acts := by
  have hinv := inv_start arr priPipe
  have hend : (∀ b, ¬Live s.ledger.trace b) ↔ s.ledger.dropped = [] := by
    have hall := (always_of_step (fun _ _ _ h hs => inv_step h hs) hinv acts).last hr
    simp only [(hall.done hexit).live]
    exact List.eq_nil_iff_forall_not_mem.symm
  rw [hend]
  have hstep : ∀ s a t, Inv s → s.ledger.dropped = [] → step s a = some t →
      (t.ledger.dropped = [] ↔ ¬Drops s a) := by
    intro s a t h hnone hs
    rcases dropped_step h hs with ⟨hsame, hnot⟩ | ⟨b, hmore, hdrop⟩
    · rw [hsame, hnone]
      exact iff_of_true rfl hnot
    · rw [hmore]
      exact iff_of_false (by simp) fun hnot => hnot hdrop
  rw [← always_iff_guarded_of_invariant (fun _ _ _ h hs => inv_step h hs) hstep hinv rfl acts]
  constructor
  · intro hnone pre t hpre ht
    obtain ⟨rest, rfl⟩ := hpre
    rw [run_append, ht, Option.bind_some] at hr
    exact dropped_run ((always_of_step (fun _ _ _ h hs => inv_step h hs) hinv pre).last ht) hr hnone
  · intro hall
    exact hall.last hr

/-- Two rounds: the data pipe is added, and then the socket `10`. -/
def addsSocket : List Act :=
  [.round (.poll fun k => ⟨k == 0, false⟩),
    .round (.pollin ⟨dataPipeMsg 5, 0, ⟨0, 0, []⟩⟩), .round .pollout,
    .round (.poll fun k => ⟨k == 0, false⟩),
    .round (.pollin ⟨tcpAddMsg 10, 0, ⟨0, 0, []⟩⟩), .round .pollout,
    .round (.pollin ⟨dataPipeMsg 5, 0, ⟨0, 0, []⟩⟩), .round .pollout,
    .round (.pollin ⟨dataPipeMsg 5, 0, ⟨0, 0, []⟩⟩), .round .pollout]

/-- One more round, in which the socket is deleted. -/
def deletesSocket : List Act :=
  [.round (.poll fun k => ⟨k == 0, false⟩),
    .round (.pollin ⟨socketDeleteMsg 10, 0, ⟨0, 0, []⟩⟩), .round .pollout,
    .round (.pollin ⟨dataPipeMsg 5, 0, ⟨0, 0, []⟩⟩), .round .pollout]

/-- A thread that ends with its socket frees all its blocks; one whose socket was deleted leaves the
entry of it. -/
theorem all_freed_iff_socket :
    (∃ s, run step (start (fun _ => ⟨0, ⟨false, false⟩, ⟨false, false⟩⟩) 3) (addsSocket ++ [.leave]) =
        some s ∧ s.exited = true ∧ ∀ b, ¬Live s.ledger.trace b) ∧
    (run step (start (fun _ => ⟨0, ⟨false, false⟩, ⟨false, false⟩⟩) 3)
        (addsSocket ++ deletesSocket ++ [.leave])).map (fun s => (s.exited, s.ledger.dropped)) =
      some (true, [6]) := by
  have hrun : (run step (start (fun _ => ⟨0, ⟨false, false⟩, ⟨false, false⟩⟩) 3)
      (addsSocket ++ [.leave])).map Life.exited = some true := by decide +kernel
  obtain ⟨s, hs, hexit⟩ := Option.map_eq_some_iff.mp hrun
  exact ⟨⟨s, hs, hexit, (all_freed_iff hs hexit).mpr (by decide +kernel)⟩, by decide +kernel⟩

end OfConnect.PollThr.Blocks
