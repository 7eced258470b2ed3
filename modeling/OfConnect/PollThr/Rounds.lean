import OfConnect.PollThr.Conservation

/-!
# Rounds of a poll thread

`adp_thr_mgr_poll_thread_func` from its first round on: `poll` fills the live slots, and then
`poll_fd_process` serves the entries of `fd_list` in order, unless `poll` timed out. The steps
are `poll` and the two halves of `poll_fd_process`, so that a call that is made can be told from
what it leads to.

`DELETE_FD` closes the gap in the array and leaves the `pollfd_entry_p` of the entries as they
are. A run in which no gap is closed keeps every entry at its own slot (`placed_step`), and then
a step has one of seven effects on the thread (`effect_of_step`).
-/

namespace OfConnect.PollThr.Rounds

open OfConnect.Lib.Slots OfConnect.Lib.Tables OfConnect.Lib.Run OfConnect.PollThr.Thread
open OfConnect.PollThr.Ownership (DeletesLastSlot)
open OfConnect.PollThr.Conservation

/-! ## The loop -/

/-- Where a round is: before `poll`, or before one of the two halves of `poll_fd_process` for
an entry, with the entries that the walk has still to visit. -/
inductive Cursor where
  | poll
  | pollin (e : FdInfo) (rest : List FdInfo)
  | pollout (e : FdInfo) (rest : List FdInfo)
  deriving DecidableEq, Repr

/-- The walk over the entries from here on. -/
def Cursor.walk : List FdInfo → Cursor
  | [] => .poll
  | e :: rest => .pollin e rest

/-- The entries that the walk has still to serve, in whole or in part. -/
def Cursor.todo : Cursor → List FdInfo
  | .poll => []
  | .pollin e rest => e :: rest
  | .pollout e rest => e :: rest

@[simp] theorem Cursor.todo_walk (l : List FdInfo) : (Cursor.walk l).todo = l := by
  cases l <;> rfl

/-- A thread in its loop, with the live slots as the last `poll` left them. -/
structure Loop where
  thr : PollthrPrivate
  cursor : Cursor
  reported : List PollFd

def start (arr : Nat → PollFd) (priPipe : Fd) : Loop := ⟨pollThreadInit arr priPipe, .poll, []⟩

inductive Act where
  | poll (rev : Nat → PollEvents)
  | timeout
  | pollin (r : PipeReads)
  | pollout

/-- The entry is served by the primary pipe function in this step. -/
def takesPri (t : PollthrPrivate) (e : FdInfo) : Bool :=
  pollinSet t e && e.pollinFunc == some .priPipe

/-- One step. The walk reads the link to the next entry before it serves an entry. Only the
primary pipe, which has the first entry, changes the list: it appends an entry or takes one out
behind the second. So the walk goes on in the list as it is then, if there was a second entry.
The primary pipe function is `static`, and no message carries it. -/
def step (s : Loop) : Act → Option Loop
  | .poll rev =>
    match s.cursor with
    | .poll =>
      if s.thr.numPollfds = 0 then none
      else
        let t := poll s.thr rev
        some ⟨t, .walk t.fdList, live t.pollfdArr t.numPollfds⟩
    | _ => none
  | .timeout =>
    match s.cursor with
    | .poll =>
      if s.thr.numPollfds = 0 then none
      else
        let t := poll s.thr fun _ => ⟨false, false⟩
        some ⟨t, .poll, live t.pollfdArr t.numPollfds⟩
    | _ => none
  | .pollin r =>
    match s.cursor with
    | .pollin e rest =>
      if r.pri.pollinFunc = some .priPipe then none
      else (pollinProcess s.thr e r).map fun t =>
        { s with
          thr := t
          cursor := .pollout e (if takesPri s.thr e ∧ rest ≠ [] then t.fdList.tail else rest) }
    | _ => none
  | .pollout =>
    match s.cursor with
    | .pollout e rest => (polloutProcess s.thr e).map fun q =>
        { s with thr := q.1, cursor := .walk rest }
    | _ => none

theorem step_cases {s s' : Loop} {a : Act} (hs : step s a = some s') :
    (∃ rev, a = .poll rev ∧ s.cursor = .poll ∧ s.thr.numPollfds ≠ 0 ∧
      s' = ⟨poll s.thr rev, .walk s.thr.fdList,
        live (poll s.thr rev).pollfdArr s.thr.numPollfds⟩) ∨
    (∃ rev, a = .timeout ∧ s.cursor = .poll ∧ s.thr.numPollfds ≠ 0 ∧
      s' = ⟨poll s.thr rev, .poll, live (poll s.thr rev).pollfdArr s.thr.numPollfds⟩) ∨
    (∃ r e rest t, a = .pollin r ∧ s.cursor = .pollin e rest ∧
      r.pri.pollinFunc ≠ some .priPipe ∧ pollinProcess s.thr e r = some t ∧
      s' = { s with
        thr := t
        cursor := .pollout e (if takesPri s.thr e ∧ rest ≠ [] then t.fdList.tail else rest) }) ∨
    ∃ e rest q, a = .pollout ∧ s.cursor = .pollout e rest ∧ polloutProcess s.thr e = some q ∧
      s' = { s with thr := q.1, cursor := .walk rest } := by
  cases a with
  | poll rev =>
    simp only [step] at hs
    split at hs
    · rename_i hcur
      obtain ⟨hnum, hs⟩ := Option.ite_none_left_eq_some.mp hs
      exact .inl ⟨rev, rfl, hcur, hnum, (Option.some.inj hs).symm⟩
    · cases hs
  | timeout =>
    simp only [step] at hs
    split at hs
    · rename_i hcur
      obtain ⟨hnum, hs⟩ := Option.ite_none_left_eq_some.mp hs
      exact .inr (.inl ⟨_, rfl, hcur, hnum, (Option.some.inj hs).symm⟩)
    · cases hs
  | pollin r =>
    simp only [step] at hs
    split at hs
    · rename_i e rest hcur
      obtain ⟨hfunc, hs⟩ := Option.ite_none_left_eq_some.mp hs
      obtain ⟨t, ht, rfl⟩ := Option.map_eq_some_iff.mp hs
      exact .inr (.inr (.inl ⟨r, e, rest, t, rfl, hcur, hfunc, ht, rfl⟩))
    · cases hs
  | pollout =>
    simp only [step] at hs
    split at hs
    · rename_i e rest hcur
      obtain ⟨q, hq, rfl⟩ := Option.map_eq_some_iff.mp hs
      exact .inr (.inr (.inr ⟨e, rest, q, rfl, hcur, hq, rfl⟩))
    · cases hs

/-- What the first half of `poll_fd_process` does. -/
theorem pollinProcess_inversion {t t' : PollthrPrivate} {e : FdInfo} {r : PipeReads}
    (h : pollinProcess t e r = some t') :
    t' = t ∨
    (takesData t e = true ∧ pollthrDataPipeProcessFunc t r.dataFd r.dataInfo = some t') ∨
    (takesPri t e = true ∧ r.pri.fdAction = .addFd ∧ addFd t r.pri = some t') ∨
    (takesPri t e = true ∧ t' = { t with numPollfds := 0 }) ∨
    ∃ d, takesPri t e = true ∧ r.pri.fdAction = .deleteFd ∧ OffPipes t r.pri ∧
      d < t.numPollfds ∧ (t.pollfdArr d).fd = r.pri.fd ∧ t' = { t with
        pollfdArr := shiftDown t.pollfdArr d t.numPollfds
        numPollfds := t.numPollfds - 1
        fdList := t.fdList.eraseP fun e => e.fd == r.pri.fd } := by
  unfold pollinProcess at h
  split at h
  · rename_i hset
    split at h
    · rename_i hfunc
      have hpri : takesPri t e = true := by simp [takesPri, hset, hfunc]
      unfold pollthrPriPipeProcessFunc at h
      cases hact : r.pri.fdAction with
      | addFd =>
        rw [hact] at h
        exact .inr (.inr (.inl ⟨hpri, rfl, h⟩))
      | deleteFd =>
        rw [hact] at h
        obtain rfl := Option.some.inj h
        by_cases hoff : OffPipes t r.pri
        · rcases deleteFd_cases hoff with ⟨-, heq⟩ | ⟨d, -, hd, hfd, heq⟩
          · exact .inl heq
          · exact .inr (.inr (.inr (.inr ⟨d, hpri, rfl, hoff, hd, hfd, heq⟩)))
        · refine .inr (.inr (.inr (.inl ⟨hpri, ?_⟩)))
          have hself : r.pri.fd = (t.pollfdArr 0).fd ∨ r.pri.fd = (t.pollfdArr 1).fd := by
            unfold OffPipes at hoff
            tauto
          rw [deleteFd, if_pos hself]
    · rename_i hfunc
      exact .inr (.inl ⟨by simp [takesData, hset, hfunc], h⟩)
    · exact .inl (Option.some.inj h).symm
  · exact .inl (Option.some.inj h).symm

/-! ## Entries and slots -/

/-- The entries have the slots in order, also when the thread has been told to end and polls
none of them any more. Only the first entry is the primary pipe. -/
structure Slots (t : PollthrPrivate) : Prop where
  entry : ∀ i e, t.fdList[i]? = some e → e.pollfdEntry = i ∧ (t.pollfdArr i).fd = e.fd
  nodup : t.fds.Nodup
  count : t.numPollfds = t.fdList.length ∨ t.numPollfds = 0
  later : ∀ e ∈ t.fdList.tail, e.pollinFunc ≠ some .priPipe

theorem slots_init (arr : Nat → PollFd) (priPipe : Fd) : Slots (pollThreadInit arr priPipe) := by
  refine ⟨fun i e hi => ?_, List.nodup_singleton _, .inl rfl, nofun⟩
  obtain ⟨hlt, rfl⟩ := List.getElem?_eq_some_iff.mp hi
  obtain rfl : i = 0 := Nat.lt_one_iff.mp hlt
  exact ⟨rfl, by simp [pollThreadInit]⟩

namespace Slots

variable {t : PollthrPrivate}

theorem of_mem (h : Slots t) {e : FdInfo} (he : e ∈ t.fdList) :
    e.pollfdEntry < t.fdList.length ∧ (t.pollfdArr e.pollfdEntry).fd = e.fd := by
  obtain ⟨i, hi, rfl⟩ := List.getElem_of_mem he
  obtain ⟨hslot, hfd⟩ := h.entry i _ (List.getElem?_eq_getElem hi)
  rw [hslot]
  exact ⟨hi, hfd⟩

theorem eq_of_fd (h : Slots t) {e e' : FdInfo} (he : e ∈ t.fdList) (he' : e' ∈ t.fdList)
    (hfd : e.fd = e'.fd) : e = e' :=
  List.inj_on_of_nodup_map h.nodup he he' hfd

theorem eq_of_slot (h : Slots t) {e e' : FdInfo} (he : e ∈ t.fdList) (he' : e' ∈ t.fdList)
    (hslot : e.pollfdEntry = e'.pollfdEntry) : e = e' := by
  apply h.eq_of_fd he he'
  rw [← (h.of_mem he).2, hslot, (h.of_mem he').2]

/-- Entries of different fds have different slots. -/
theorem slot_ne (h : Slots t) {e e' : FdInfo} (he : e ∈ t.fdList) (he' : e' ∈ t.fdList)
    (hfd : e.fd ≠ e'.fd) : e.pollfdEntry ≠ e'.pollfdEntry := by
  intro hslot
  exact hfd (congrArg FdInfo.fd (h.eq_of_slot he he' hslot))

/-- A slot below the length of the list has an entry. -/
theorem exists_entry (h : Slots t) {k : Nat} (hk : k < t.fdList.length) :
    ∃ e ∈ t.fdList, e.pollfdEntry = k ∧ (t.pollfdArr k).fd = e.fd :=
  ⟨t.fdList[k], List.getElem_mem hk, h.entry k _ (List.getElem?_eq_getElem hk)⟩

theorem frame (h : Slots t) {t' : PollthrPrivate} (hl : t'.fdList = t.fdList)
    (hn : t'.numPollfds = t.numPollfds ∨ t'.numPollfds = 0)
    (hfd : ∀ k, (t'.pollfdArr k).fd = (t.pollfdArr k).fd) : Slots t' := by
  refine ⟨fun i e hi => ?_, ?_, ?_, by rw [hl]; exact h.later⟩
  · rw [hl] at hi
    rw [hfd]
    exact h.entry i e hi
  · rw [PollthrPrivate.fds, hl]
    exact h.nodup
  · rw [hl]
    rcases hn with hn | hn
    · rw [hn]
      exact h.count
    · exact .inr hn

theorem add (h : Slots t) {t' : PollthrPrivate} {msg : ThrMsg}
    (hn : t.numPollfds = t.fdList.length) (hne : t.fdList ≠ [])
    (hfunc : msg.pollinFunc ≠ some .priPipe) (ha : addFd t msg = some t') : Slots t' := by
  obtain ⟨hfresh, hn', harr, hl, -⟩ := addFd_eq_some ha
  refine ⟨fun i e hi => ?_, ?_, .inl ?_, fun e he => ?_⟩
  · rw [hl] at hi
    rcases Nat.lt_trichotomy i t.fdList.length with hlt | rfl | hgt
    · rw [List.getElem?_append_left hlt] at hi
      rw [harr, Function.update_of_ne (by omega)]
      exact h.entry i e hi
    · rw [List.getElem?_append_right (le_refl _), Nat.sub_self] at hi
      obtain rfl := Option.some.inj hi
      rw [harr, hn, Function.update_self]
      exact ⟨rfl, rfl⟩
    · rw [List.getElem?_eq_none (by rw [List.length_append, List.length_singleton]; omega)] at hi
      cases hi
  · rw [fds_addFd ha]
    exact h.nodup.append (List.nodup_singleton _) (by simpa using hfresh)
  · rw [hn', hl, hn, List.length_append, List.length_singleton]
  · rw [hl, List.tail_append_of_ne_nil hne, List.mem_append, List.mem_singleton] at he
    rcases he with he | rfl
    · exact h.later e he
    · exact hfunc

/-- The entry of the last slot goes, and nothing moves. -/
theorem delete_last (h : Slots t) {d : Nat} {fd : Fd} (hn : t.numPollfds = t.fdList.length)
    (hd : d + 1 = t.numPollfds) (hfd : (t.pollfdArr d).fd = fd) :
    shiftDown t.pollfdArr d t.numPollfds = t.pollfdArr ∧
    (t.fdList.eraseP fun e => e.fd == fd) = t.fdList.dropLast := by
  refine ⟨funext fun k => ?_, ?_⟩
  · rw [shiftDown_apply, if_neg (by omega)]
  · have hne : t.fdList ≠ [] := by
      intro hnil
      rw [hn, hnil] at hd
      cases hd
    have hlast : (t.fdList.getLast hne).fd = fd := by
      have hget : t.fdList[d]? = some (t.fdList.getLast hne) := by
        rw [List.getLast_eq_getElem, List.getElem?_eq_getElem (by omega)]
        congr 2
        omega
      rw [← hfd, (h.entry d _ hget).2]
    have hsplit := List.dropLast_append_getLast hne
    -- no earlier entry has this fd
    have hearlier : ∀ e ∈ t.fdList.dropLast, ¬(e.fd == fd) = true := by
      intro e he heq
      have hnodup := h.nodup
      rw [PollthrPrivate.fds, ← hsplit, List.map_append, List.nodup_append'] at hnodup
      refine hnodup.2.2 (List.mem_map_of_mem he) ?_
      rw [List.map_singleton, List.mem_singleton, hlast]
      exact beq_iff_eq.mp heq
    calc (t.fdList.eraseP fun e => e.fd == fd)
        = ((t.fdList.dropLast ++ [t.fdList.getLast hne]).eraseP fun e => e.fd == fd) := by
          rw [hsplit]
      _ = t.fdList.dropLast ++ ([t.fdList.getLast hne].eraseP fun e => e.fd == fd) :=
          List.eraseP_append_right _ hearlier
      _ = t.fdList.dropLast := by
          rw [List.eraseP_cons_of_pos (by simpa using hlast), List.append_nil]

theorem dropLast (h : Slots t) (hn : t.numPollfds = t.fdList.length) :
    Slots { t with numPollfds := t.numPollfds - 1, fdList := t.fdList.dropLast } := by
  refine ⟨fun i e hi => ?_, ?_, .inl ?_, fun e he => ?_⟩
  · obtain ⟨hlt, rfl⟩ := List.getElem?_eq_some_iff.mp hi
    have hlt' : i < t.fdList.length := by
      simp only [List.length_dropLast] at hlt
      omega
    have hentry := h.entry i _ (List.getElem?_eq_getElem hlt')
    simpa only [List.getElem_dropLast] using hentry
  · show (t.fdList.dropLast.map FdInfo.fd).Nodup
    exact h.nodup.sublist ((List.dropLast_sublist _).map _)
  · show t.numPollfds - 1 = t.fdList.dropLast.length
    rw [List.length_dropLast, hn]
  · apply h.later e
    rw [List.tail_dropLast] at he
    exact List.mem_of_mem_dropLast he

end Slots

/-! ## What the handlers leave of a slot -/

theorem setPollout_revents (arr : Nat → PollFd) (k : Nat) (b : Bool) (i : Nat) :
    (setPollout arr k b i).revents = (arr i).revents := by
  rw [setPollout_apply]
  split <;> rfl

theorem setPollout_pollin (arr : Nat → PollFd) (k : Nat) (b : Bool) (i : Nat) :
    (setPollout arr k b i).events.pollin = (arr i).events.pollin := by
  rw [setPollout_apply]
  split <;> rfl

theorem setPollout_pollout (arr : Nat → PollFd) (k : Nat) (b : Bool) (i : Nat) :
    (setPollout arr k b i).events.pollout = if i = k then b else (arr i).events.pollout := by
  rw [setPollout_apply]
  split <;> rfl

theorem pollinSet_congr {t t' : PollthrPrivate} {e : FdInfo}
    (hr : (t'.pollfdArr e.pollfdEntry).revents = (t.pollfdArr e.pollfdEntry).revents)
    (he : (t'.pollfdArr e.pollfdEntry).events.pollin = (t.pollfdArr e.pollfdEntry).events.pollin) :
    pollinSet t' e = pollinSet t e := by
  unfold pollinSet
  rw [hr, he]

/-! ## Steps of a thread whose entries have their slots -/

/-- `DELETE_FD` of an fd other than the two administrative pipes names one that is not polled,
or the one in the last slot. -/
def ClosesNoGap (s : Loop) (a : Act) : Prop :=
  match s.cursor, a with
  | .pollin e _, .pollin r =>
    takesPri s.thr e = true → OffPipes s.thr r.pri → DeletesLastSlot s.thr r.pri
  | _, _ => True

instance (t : PollthrPrivate) (msg : ThrMsg) : Decidable (OffPipes t msg) :=
  inferInstanceAs (Decidable (_ ∧ _))

instance (t : PollthrPrivate) (msg : ThrMsg) : Decidable (DeletesLastSlot t msg) :=
  inferInstanceAs (Decidable (_ → _))

instance : (s : Loop) → (a : Act) → Decidable (ClosesNoGap s a)
  | ⟨t, .pollin e _, _⟩, .pollin r =>
    inferInstanceAs (Decidable (takesPri t e = true → OffPipes t r.pri → DeletesLastSlot t r.pri))
  | ⟨_, .pollin _ _, _⟩, .poll _ => isTrue trivial
  | ⟨_, .pollin _ _, _⟩, .timeout => isTrue trivial
  | ⟨_, .pollin _ _, _⟩, .pollout => isTrue trivial
  | ⟨_, .poll, _⟩, _ => isTrue trivial
  | ⟨_, .pollout _ _, _⟩, _ => isTrue trivial

/-- The walk has just begun where the primary pipe is served. -/
structure Begun (s : Loop) (e : FdInfo) (rest : List FdInfo) : Prop where
  list : s.thr.fdList = e :: rest
  count : s.thr.numPollfds = s.thr.fdList.length
  reported : s.reported.length = s.thr.numPollfds

/-- The entries are at their slots, and the walk goes over entries of the list. -/
structure Placed (s : Loop) : Prop where
  slots : Slots s.thr
  mem : ∀ e ∈ s.cursor.todo, e ∈ s.thr.fdList
  later : ∀ e ∈ s.cursor.todo.tail, e.pollinFunc ≠ some .priPipe
  first : ∀ e rest, s.cursor = .pollin e rest → e.pollinFunc = some .priPipe → Begun s e rest

theorem placed_start (arr : Nat → PollFd) (priPipe : Fd) : Placed (start arr priPipe) :=
  ⟨slots_init arr priPipe, nofun, nofun, nofun⟩

theorem Placed.mem_of_pollout {s : Loop} (h : Placed s) {e : FdInfo} {rest : List FdInfo}
    (hcur : s.cursor = .pollout e rest) : e ∈ s.thr.fdList := by
  apply h.mem e
  rw [hcur]
  exact List.mem_cons_self

theorem Placed.begun {s : Loop} (h : Placed s) {e : FdInfo} {rest : List FdInfo}
    (hcur : s.cursor = .pollin e rest) (htakes : takesPri s.thr e = true) : Begun s e rest := by
  simp only [takesPri, Bool.and_eq_true, beq_iff_eq] at htakes
  exact h.first e rest hcur htakes.2

/-- The entry that `ADD_FD` appends. -/
def addedEntry (t : PollthrPrivate) (msg : ThrMsg) : FdInfo :=
  ⟨msg.fd, msg.fdType, msg.pollinFunc, msg.polloutFunc, t.numPollfds⟩

/-- What a step can do to a thread whose entries have their slots. -/
inductive Effect (s : Loop) : Act → Loop → Prop
  | poll {a : Act} {c : Cursor} (rev : Nat → PollEvents) (hnum : s.thr.numPollfds ≠ 0)
      (hmem : ∀ e ∈ c.todo, e ∈ s.thr.fdList) :
      Effect s a ⟨poll s.thr rev, c, live (poll s.thr rev).pollfdArr s.thr.numPollfds⟩
  | skip {a : Act} {c : Cursor} (hsub : ∀ e ∈ c.todo, e ∈ s.cursor.todo) :
      Effect s a { s with cursor := c }
  | queue {r : PipeReads} {c : Cursor} {e e₀ : FdInfo} {rest : List FdInfo}
      (hcur : s.cursor = .pollin e rest) (htakes : takesData s.thr e = true)
      (he₀ : e₀ ∈ s.thr.fdList) (hfd : e₀.fd = r.dataFd) (hsub : ∀ e ∈ c.todo, e ∈ s.cursor.todo) :
      Effect s (.pollin r) { s with
        thr := { s.thr with
          sendMsgHtbl := s.thr.sendMsgHtbl.insert r.dataFd r.dataInfo
          pollfdArr := setPollout s.thr.pollfdArr e₀.pollfdEntry true }
        cursor := c }
  | add {r : PipeReads} {c : Cursor} {e : FdInfo} {rest : List FdInfo} {t : PollthrPrivate}
      (hcur : s.cursor = .pollin e rest) (hb : Begun s e rest) (htakes : takesPri s.thr e = true)
      (hact : r.pri.fdAction = .addFd) (hfunc : r.pri.pollinFunc ≠ some .priPipe)
      (ha : addFd s.thr r.pri = some t)
      (hsub : ∀ e ∈ c.todo, e ∈ s.cursor.todo ∨ rest ≠ [] ∧ e = addedEntry s.thr r.pri) :
      Effect s (.pollin r) { s with thr := t, cursor := c }
  | destruct {a : Act} {c : Cursor} (hsub : ∀ e ∈ c.todo, e ∈ s.cursor.todo) :
      Effect s a { s with thr := { s.thr with numPollfds := 0 }, cursor := c }
  | delete {r : PipeReads} {c : Cursor} {e : FdInfo} {rest : List FdInfo} {d : Nat}
      (hcur : s.cursor = .pollin e rest) (hb : Begun s e rest) (htakes : takesPri s.thr e = true)
      (hact : r.pri.fdAction = .deleteFd) (hoff : OffPipes s.thr r.pri)
      (hd : d + 1 = s.thr.numPollfds) (hfd : (s.thr.pollfdArr d).fd = r.pri.fd)
      (hmem : ∀ e ∈ c.todo, e ∈ s.thr.fdList.dropLast) :
      Effect s (.pollin r) { s with
        thr := { s.thr with
          numPollfds := s.thr.numPollfds - 1
          fdList := s.thr.fdList.dropLast }
        cursor := c }
  | take {a : Act} {c : Cursor} {e : FdInfo} {rest : List FdInfo} {info : SendMsgInfo}
      (hcur : s.cursor = .pollout e rest) (hset : polloutSet s.thr e = true)
      (hl : s.thr.sendMsgHtbl.lookup (s.thr.pollfdArr e.pollfdEntry).fd = some info)
      (hsub : ∀ e ∈ c.todo, e ∈ s.cursor.todo) :
      Effect s a { s with
        thr := { s.thr with
          sendMsgHtbl := s.thr.sendMsgHtbl.erase (s.thr.pollfdArr e.pollfdEntry).fd
          pollfdArr := setPollout s.thr.pollfdArr e.pollfdEntry false }
        cursor := c }

/-- Where the list stays as it is, the walk goes on with the entries it had. -/
theorem todo_pollout_subset {s : Loop} (h : Placed s) {e : FdInfo} {rest : List FdInfo}
    (hcur : s.cursor = .pollin e rest) {t : PollthrPrivate} (hl : t.fdList = s.thr.fdList) :
    ∀ e' ∈ (Cursor.pollout e
      (if takesPri s.thr e ∧ rest ≠ [] then t.fdList.tail else rest)).todo, e' ∈ s.cursor.todo := by
  intro e' he'
  rw [hcur]
  split at he'
  · rename_i htakes
    rw [hl, (h.begun hcur htakes.1).list] at he'
    exact he'
  · exact he'

/-- The entry that is appended is behind those the walk had, if it had a second one. -/
theorem todo_add_subset {s : Loop} {e : FdInfo} {rest : List FdInfo} {msg : ThrMsg}
    {t : PollthrPrivate} (hcur : s.cursor = .pollin e rest) (hb : Begun s e rest)
    (ha : addFd s.thr msg = some t) :
    ∀ e' ∈ (Cursor.pollout e (if takesPri s.thr e ∧ rest ≠ [] then t.fdList.tail else rest)).todo,
      e' ∈ s.cursor.todo ∨ rest ≠ [] ∧ e' = addedEntry s.thr msg := by
  intro e' he'
  obtain ⟨-, -, -, hl, -⟩ := addFd_eq_some ha
  rw [hcur]
  split at he'
  · rename_i htakes
    have htail : e :: t.fdList.tail = (e :: rest) ++ [addedEntry s.thr msg] := by
      rw [hl, hb.list]
      rfl
    have hmem : e' ∈ (e :: rest) ++ [addedEntry s.thr msg] := by
      rw [← htail]
      exact he'
    rcases List.mem_append.mp hmem with hin | hin
    · exact .inl hin
    · exact .inr ⟨htakes.2, List.mem_singleton.mp hin⟩
  · exact .inl he'

/-- The entry of the last slot is not the primary pipe, and the walk loses it. -/
theorem todo_delete_subset {s : Loop} {e : FdInfo} {rest : List FdInfo} {msg : ThrMsg} {d : Nat}
    (hb : Begun s e rest) (htakes : takesPri s.thr e = true) (hoff : OffPipes s.thr msg)
    (hd : d + 1 = s.thr.numPollfds) (hfd : (s.thr.pollfdArr d).fd = msg.fd) :
    ∀ e' ∈ (Cursor.pollout e (if takesPri s.thr e ∧ rest ≠ [] then s.thr.fdList.dropLast.tail
      else rest)).todo, e' ∈ s.thr.fdList.dropLast := by
  have hne : rest ≠ [] := by
    rintro rfl
    have hcount := hb.count
    rw [hb.list, List.length_singleton] at hcount
    obtain rfl : d = 0 := by omega
    exact hoff.1 hfd.symm
  rw [if_pos ⟨htakes, hne⟩, hb.list, List.dropLast_cons_of_ne_nil hne]
  exact fun _ he' => he'

theorem effect_of_pollin {s : Loop} {e : FdInfo} {rest : List FdInfo} {r : PipeReads}
    {t : PollthrPrivate} (h : Placed s) (hgap : ClosesNoGap s (.pollin r))
    (hcur : s.cursor = .pollin e rest) (hfunc : r.pri.pollinFunc ≠ some .priPipe)
    (ht : pollinProcess s.thr e r = some t) :
    Effect s (.pollin r) { s with
      thr := t
      cursor := .pollout e (if takesPri s.thr e ∧ rest ≠ [] then t.fdList.tail else rest) } := by
  simp only [ClosesNoGap, hcur] at hgap
  rcases pollinProcess_inversion ht with rfl | ⟨hdata, ht⟩ | ⟨htakes, hact, ha⟩ | ⟨-, rfl⟩ |
    ⟨d, htakes, hact, hoff, hd, hfd, rfl⟩
  · exact .skip (todo_pollout_subset h hcur rfl)
  · obtain ⟨e₀, he₀, hfd, rfl⟩ := dataPipe_eq_some ht
    exact .queue hcur hdata he₀ hfd (todo_pollout_subset h hcur rfl)
  · have hb := h.begun hcur htakes
    exact .add hcur hb htakes hact hfunc ha (todo_add_subset hcur hb ha)
  · exact .destruct (todo_pollout_subset h hcur rfl)
  · -- the last slot is given up, so nothing is moved
    have hb := h.begun hcur htakes
    have hlast := hgap htakes hoff hact d hd hfd
    obtain ⟨harr, hlist⟩ := h.slots.delete_last hb.count hlast hfd
    rw [harr, hlist]
    exact .delete hcur hb htakes hact hoff hlast hfd (todo_delete_subset hb htakes hoff hlast hfd)

theorem effect_of_step {s s' : Loop} {a : Act} (h : Placed s) (hgap : ClosesNoGap s a)
    (hs : step s a = some s') : Effect s a s' := by
  rcases step_cases hs with ⟨rev, rfl, -, hnum, rfl⟩ | ⟨rev, rfl, -, hnum, rfl⟩ |
    ⟨r, e, rest, t, rfl, hcur, hfunc, ht, rfl⟩ | ⟨e, rest, q, rfl, hcur, hq, rfl⟩
  · exact .poll rev hnum fun e he => by rwa [Cursor.todo_walk] at he
  · exact .poll rev hnum nofun
  · exact effect_of_pollin h hgap hcur hfunc ht
  · have hsub : ∀ e' ∈ (Cursor.walk rest).todo, e' ∈ s.cursor.todo := by
      intro e' he'
      rw [Cursor.todo_walk] at he'
      rw [hcur]
      exact List.mem_cons_of_mem e he'
    rcases polloutProcess_cases hq with ⟨-, rfl⟩ | ⟨info, hset, hl, rfl⟩
    · exact .skip hsub
    · exact .take hcur hset hl hsub

theorem Effect.slots {s s' : Loop} {a : Act} (heff : Effect s a s') (h : Placed s) :
    Slots s'.thr := by
  cases heff with
  | poll rev hnum hmem => exact h.slots.frame rfl (.inl rfl) (poll_fd s.thr rev)
  | skip hsub => exact h.slots
  | queue hcur htakes he₀ hfd hsub =>
    exact h.slots.frame rfl (.inl rfl) (setPollout_fd _ _ _)
  | add hcur hb htakes hact hfunc ha hsub =>
    refine h.slots.add hb.count ?_ hfunc ha
    rw [hb.list]
    exact List.cons_ne_nil _ _
  | destruct hsub => exact h.slots.frame rfl (.inr rfl) fun _ => rfl
  | delete hcur hb htakes hact hoff hd hfd hmem => exact h.slots.dropLast hb.count
  | take hcur hset hl hsub => exact h.slots.frame rfl (.inl rfl) (setPollout_fd _ _ _)

theorem Effect.mem {s s' : Loop} {a : Act} (heff : Effect s a s') (h : Placed s) :
    ∀ e ∈ s'.cursor.todo, e ∈ s'.thr.fdList := by
  cases heff with
  | poll rev hnum hmem => exact hmem
  | skip hsub => exact fun e he => h.mem e (hsub e he)
  | queue hcur htakes he₀ hfd hsub => exact fun e he => h.mem e (hsub e he)
  | add hcur hb htakes hact hfunc ha hsub =>
    obtain ⟨-, -, -, hl, -⟩ := addFd_eq_some ha
    intro e he
    show e ∈ _
    rw [hl]
    rcases hsub e he with hin | ⟨-, rfl⟩
    · exact List.mem_append_left _ (h.mem e hin)
    · exact List.mem_append_right _ List.mem_cons_self
  | destruct hsub => exact fun e he => h.mem e (hsub e he)
  | delete hcur hb htakes hact hoff hd hfd hmem => exact hmem
  | take hcur hset hl hsub => exact fun e he => h.mem e (hsub e he)

/-- As long as no gap is closed, the entries stay at their slots. -/
theorem placed_step {s s' : Loop} {a : Act} (h : Placed s) (hgap : ClosesNoGap s a)
    (hs : step s a = some s') : Placed s' := by
  have heff := effect_of_step h hgap hs
  have hslots := heff.slots h
  have hmem := heff.mem h
  rcases step_cases hs with ⟨rev, rfl, -, hnum, rfl⟩ | ⟨rev, rfl, -, -, rfl⟩ |
    ⟨r, e, rest, t, rfl, hcur, -, -, rfl⟩ | ⟨e, rest, q, rfl, hcur, -, rfl⟩
  · refine ⟨hslots, hmem, ?_, fun e rest hwalk _ => ⟨?_, h.slots.count.resolve_right hnum, ?_⟩⟩
    · rw [Cursor.todo_walk]
      exact hslots.later
    · have htodo := congrArg Cursor.todo hwalk
      rw [Cursor.todo_walk] at htodo
      exact htodo
    · exact length_live _ _
  · exact ⟨hslots, hmem, nofun, nofun⟩
  · refine ⟨hslots, hmem, fun e' he' => ?_, nofun⟩
    have hlater := h.later
    rw [hcur] at hlater
    change e' ∈ (if takesPri s.thr e ∧ rest ≠ [] then t.fdList.tail else rest) at he'
    split at he'
    · exact hslots.later e' he'
    · exact hlater e' he'
  · -- behind the first entry no entry is the primary pipe
    have hlater : ∀ e' ∈ rest, e'.pollinFunc ≠ some .priPipe := by
      have hlater := h.later
      rw [hcur] at hlater
      exact hlater
    refine ⟨hslots, hmem, fun e' he' => ?_, fun e' rest' hwalk hpri => ?_⟩
    · rw [Cursor.todo_walk] at he'
      exact hlater e' (List.mem_of_mem_tail he')
    · have htodo := congrArg Cursor.todo hwalk
      rw [Cursor.todo_walk] at htodo
      refine absurd hpri (hlater e' ?_)
      rw [htodo]
      exact List.mem_cons_self

/-! ## Rounds for the runs that follow -/

/-- A round in which the slots in `ready` report `POLLIN`, the primary pipe has the message
`msg`, and `n` entries are served. -/
def round (ready : List Nat) (msg : ThrMsg) (n : Nat) : List Act :=
  .poll (fun k => ⟨decide (k ∈ ready), false⟩) ::
    (List.replicate n [.pollin ⟨msg, 0, ⟨0, 0, []⟩⟩, .pollout]).flatten

def zeroed : Nat → PollFd := fun _ => ⟨0, ⟨false, false⟩, ⟨false, false⟩⟩

end OfConnect.PollThr.Rounds
