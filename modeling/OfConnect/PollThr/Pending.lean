import OfConnect.PollThr.Rounds

/-!
# Requests for `POLLOUT` and pending messages

A message that waits for its fd to become writable is in `send_msg_htbl`, and the request for
`POLLOUT` is a flag of a slot. `DELETE_FD` takes the slot away, and the message stays in the
table: it is there when the number comes back with a slot that requests nothing. In a run that
deletes no fd with a message, and closes no gap, the two say the same of every polled fd.
-/

namespace OfConnect.PollThr.Pending

open OfConnect.Lib.Slots OfConnect.Lib.Tables OfConnect.Lib.Run OfConnect.PollThr.Thread
open OfConnect.PollThr.Rounds

/-! ## What is asked of the loop -/

/-- The slot of a polled socket requests `POLLOUT` exactly if a message is pending for it. -/
def Matched (t : PollthrPrivate) : Prop :=
  ∀ e ∈ t.fdList, e.fdType = .socket → ∀ k < t.numPollfds, (t.pollfdArr k).fd = e.fd →
    ((t.pollfdArr k).events.pollout = true ↔ e.fd ∈ t.sendMsgHtbl)

/-- As long as the thread polls, it polls every fd that has a message. -/
def NoneStranded (t : PollthrPrivate) : Prop :=
  t.numPollfds ≠ 0 → ∀ fd ∈ t.sendMsgHtbl, fd ∈ t.polled

/-- Between rounds requests and messages match and no message is stranded; within a round the
message that `poll_fd_process` looks up is there. -/
def MessagesFound (s : Loop) : Prop :=
  match s.cursor with
  | .poll => Matched s.thr ∧ NoneStranded s.thr
  | .pollin _ _ => True
  | .pollout e _ => polloutSet s.thr e = true →
      (s.thr.pollfdArr e.pollfdEntry).fd ∈ s.thr.sendMsgHtbl

/-- `DELETE_FD` of an fd other than the two administrative pipes names one that has no message
pending. -/
def DeletesNoPending (s : Loop) (a : Act) : Prop :=
  match s.cursor, a with
  | .pollin e _, .pollin r =>
    takesPri s.thr e = true → r.pri.fdAction = .deleteFd → OffPipes s.thr r.pri →
      r.pri.fd ∉ s.thr.sendMsgHtbl
  | _, _ => True

/-! ## The invariant -/

/-- Every entry's own slot requests `POLLOUT` exactly if there is a message for its fd, and there
are messages for no other fds. -/
structure Agrees (t : PollthrPrivate) : Prop where
  flag : ∀ e ∈ t.fdList,
    (t.pollfdArr e.pollfdEntry).events.pollout = true ↔ e.fd ∈ t.sendMsgHtbl
  held : ∀ fd ∈ t.sendMsgHtbl, fd ∈ t.fds

theorem agrees_init (arr : Nat → PollFd) (priPipe : Fd) : Agrees (pollThreadInit arr priPipe) := by
  constructor
  · intro e he
    obtain rfl := List.mem_singleton.mp he
    refine iff_of_false ?_ (AList.notMem_empty _)
    simp [pollThreadInit]
  · intro fd hfd
    exact absurd hfd (AList.notMem_empty _)

theorem Agrees.matched {t : PollthrPrivate} (h : Agrees t) (hs : Slots t) : Matched t := by
  intro e he _ k hk hfd
  have hcount := hs.count.resolve_right (Nat.ne_of_gt (Nat.zero_lt_of_lt hk))
  rw [hcount] at hk
  obtain ⟨e', he', rfl, hfd'⟩ := hs.exists_entry hk
  obtain rfl := hs.eq_of_fd he' he (hfd'.symm.trans hfd)
  exact h.flag e' he

theorem Agrees.noneStranded {t : PollthrPrivate} (h : Agrees t) (hs : Slots t) :
    NoneStranded t := by
  intro hnum fd hmem
  obtain ⟨e, he, rfl⟩ := List.mem_map.mp (h.held fd hmem)
  obtain ⟨hlt, hfd⟩ := hs.of_mem he
  rw [polled_eq_live, mem_live]
  refine ⟨e.pollfdEntry, ?_, hfd⟩
  rw [hs.count.resolve_right hnum]
  exact hlt

theorem messagesFound_of_agrees {s : Loop} (h : Placed s) (ha : Agrees s.thr) :
    MessagesFound s := by
  unfold MessagesFound
  split
  · exact ⟨ha.matched h.slots, ha.noneStranded h.slots⟩
  · trivial
  · rename_i e rest hcur
    intro hset
    have he := h.mem_of_pollout hcur
    rw [(h.slots.of_mem he).2]
    simp only [polloutSet, Bool.and_eq_true] at hset
    exact (ha.flag e he).mp hset.2

/-! ## Steps -/

theorem poll_events (t : PollthrPrivate) (rev : Nat → PollEvents) (k : Nat) :
    ((poll t rev).pollfdArr k).events = (t.pollfdArr k).events := by
  simp only [poll]
  split <;> rfl

/-- A message that is queued sets the flag of its own entry and no other. -/
theorem agrees_queue {t : PollthrPrivate} (h : Agrees t) (hs : Slots t) {e₀ : FdInfo}
    (he₀ : e₀ ∈ t.fdList) (info : SendMsgInfo) :
    Agrees { t with
      sendMsgHtbl := t.sendMsgHtbl.insert e₀.fd info
      pollfdArr := setPollout t.pollfdArr e₀.pollfdEntry true } := by
  constructor
  · intro e he
    show (setPollout _ _ _ _).events.pollout = true ↔ e.fd ∈ t.sendMsgHtbl.insert e₀.fd info
    rw [setPollout_pollout, AList.mem_insert]
    by_cases hfd : e.fd = e₀.fd
    · obtain rfl := hs.eq_of_fd he he₀ hfd
      rw [if_pos rfl]
      exact iff_of_true rfl (.inl rfl)
    · rw [if_neg (hs.slot_ne he he₀ hfd), h.flag e he]
      exact (or_iff_right hfd).symm
  · intro fd hfd
    rw [AList.mem_insert] at hfd
    rcases hfd with rfl | hold
    · exact List.mem_map_of_mem he₀
    · exact h.held fd hold

/-- A message that is taken clears the flag of its own entry and no other. -/
theorem agrees_take {t : PollthrPrivate} (h : Agrees t) (hs : Slots t) {e₀ : FdInfo}
    (he₀ : e₀ ∈ t.fdList) :
    Agrees { t with
      sendMsgHtbl := t.sendMsgHtbl.erase e₀.fd
      pollfdArr := setPollout t.pollfdArr e₀.pollfdEntry false } := by
  constructor
  · intro e he
    show (setPollout _ _ _ _).events.pollout = true ↔ e.fd ∈ t.sendMsgHtbl.erase e₀.fd
    rw [setPollout_pollout, AList.mem_erase]
    by_cases hfd : e.fd = e₀.fd
    · obtain rfl := hs.eq_of_fd he he₀ hfd
      rw [if_pos rfl]
      exact iff_of_false Bool.false_ne_true fun hgone => hgone.1 rfl
    · rw [if_neg (hs.slot_ne he he₀ hfd), h.flag e he]
      exact (and_iff_right hfd).symm
  · intro fd hfd
    rw [AList.mem_erase] at hfd
    exact h.held fd hfd.2

/-- An fd that is added has no message, since messages are for fds of the list. -/
theorem agrees_add {t t' : PollthrPrivate} {msg : ThrMsg} (h : Agrees t) (hs : Slots t)
    (hcount : t.numPollfds = t.fdList.length) (ha : addFd t msg = some t') : Agrees t' := by
  obtain ⟨hfresh, -, harr, hl, htbl⟩ := addFd_eq_some ha
  constructor
  · intro e he
    rw [hl, List.mem_append, List.mem_singleton] at he
    rw [htbl, harr]
    rcases he with he | rfl
    · have hslot : e.pollfdEntry ≠ t.numPollfds := by
        rw [hcount]
        exact Nat.ne_of_lt (hs.of_mem he).1
      rw [Function.update_of_ne hslot]
      exact h.flag e he
    · rw [Function.update_self]
      exact iff_of_false Bool.false_ne_true fun hold => hfresh (h.held _ hold)
  · intro fd hfd
    rw [htbl] at hfd
    rw [fds_addFd ha]
    exact List.mem_append_left _ (h.held fd hfd)

/-- The entry of the last slot goes, and there was no message for it. -/
theorem agrees_delete {t : PollthrPrivate} {d : Nat} {fd : Fd} (h : Agrees t) (hs : Slots t)
    (hcount : t.numPollfds = t.fdList.length) (hd : d + 1 = t.numPollfds)
    (hfd : (t.pollfdArr d).fd = fd) (hnone : fd ∉ t.sendMsgHtbl) :
    Agrees { t with numPollfds := t.numPollfds - 1, fdList := t.fdList.dropLast } := by
  constructor
  · intro e he
    exact h.flag e (List.mem_of_mem_dropLast he)
  · intro fd' hfd'
    obtain ⟨e, he, rfl⟩ := List.mem_map.mp (h.held fd' hfd')
    have hkept : e ∈ t.fdList.eraseP fun e => e.fd == fd := by
      rw [List.mem_eraseP_of_neg]
      · exact he
      · rw [beq_iff_eq]
        rintro rfl
        exact hnone hfd'
    rw [(hs.delete_last hcount hd hfd).2] at hkept
    exact List.mem_map_of_mem hkept

theorem agrees_step {s s' : Loop} {a : Act} (h : Placed s) (ha : Agrees s.thr)
    (hok : DeletesNoPending s a) (heff : Effect s a s') : Agrees s'.thr := by
  cases heff with
  | poll rev hnum hmem =>
    refine ⟨fun e he => ?_, ha.held⟩
    show ((poll s.thr rev).pollfdArr e.pollfdEntry).events.pollout = true ↔ _
    rw [poll_events]
    exact ha.flag e he
  | skip hsub => exact ha
  | queue hcur htakes he₀ hfd hsub =>
    rw [← hfd]
    exact agrees_queue ha h.slots he₀ _
  | add hcur hb htakes hact hfunc hadd hsub => exact agrees_add ha h.slots hb.count hadd
  | destruct hsub => exact ⟨ha.flag, ha.held⟩
  | delete hcur hb htakes hact hoff hd hfd hmem =>
    simp only [DeletesNoPending, hcur] at hok
    exact agrees_delete ha h.slots hb.count hd hfd (hok htakes hact hoff)
  | @take _ _ e rest info hcur hset hl hsub =>
    have he := h.mem_of_pollout hcur
    rw [(h.slots.of_mem he).2]
    exact agrees_take ha h.slots he

theorem agrees_of_deletes_no_pending (arr : Nat → PollFd) (priPipe : Fd) (acts : List Act)
    (h : Guarded step (fun s a => ClosesNoGap s a ∧ DeletesNoPending s a)
      (start arr priPipe) acts) :
    Always step (fun s => Placed s ∧ Agrees s.thr) (start arr priPipe) acts := by
  refine always_of_guarded (fun s a s' hinv hok hs => ?_)
    ⟨placed_start arr priPipe, agrees_init arr priPipe⟩ h
  exact ⟨placed_step hinv.1 hok.1 hs,
    agrees_step hinv.1 hinv.2 hok.2 (effect_of_step hinv.1 hok.1 hs)⟩

/-- As long as no fd with a message is deleted and no gap is closed, `POLLOUT` is requested
exactly for the fds with a message, and every message that is looked up is there. -/
theorem messages_found_of_deletes_no_pending (arr : Nat → PollFd) (priPipe : Fd)
    (acts : List Act) (h : Guarded step (fun s a => ClosesNoGap s a ∧ DeletesNoPending s a)
      (start arr priPipe) acts) :
    Always step MessagesFound (start arr priPipe) acts :=
  (agrees_of_deletes_no_pending arr priPipe acts h).mono
    fun _ hinv => messagesFound_of_agrees hinv.1 hinv.2

instance (t : PollthrPrivate) : Decidable (Matched t) :=
  inferInstanceAs (Decidable (∀ e ∈ t.fdList, e.fdType = .socket → ∀ k < t.numPollfds,
    (t.pollfdArr k).fd = e.fd → ((t.pollfdArr k).events.pollout = true ↔ e.fd ∈ t.sendMsgHtbl)))

instance : (s : Loop) → (a : Act) → Decidable (DeletesNoPending s a)
  | ⟨t, .pollin e _, _⟩, .pollin r =>
    inferInstanceAs (Decidable (takesPri t e = true → r.pri.fdAction = .deleteFd →
      OffPipes t r.pri → r.pri.fd ∉ t.sendMsgHtbl))
  | ⟨_, .pollin _ _, _⟩, .poll _ => isTrue trivial
  | ⟨_, .pollin _ _, _⟩, .timeout => isTrue trivial
  | ⟨_, .pollin _ _, _⟩, .pollout => isTrue trivial
  | ⟨_, .poll, _⟩, _ => isTrue trivial
  | ⟨_, .pollout _ _, _⟩, _ => isTrue trivial

/-- A round of three entries in which the data pipe, in slot 1, has a message for `fd`. -/
def sendRound (fd : Fd) (data : List UInt8) : List Act :=
  .poll (fun k => ⟨decide (k = 1), false⟩) ::
    (List.replicate 3 [.pollin ⟨tcpAddMsg 0, fd, ⟨0, 0, data⟩⟩, .pollout]).flatten

/-- A message is queued for socket 10, and in the next round the socket is writable. -/
theorem messages_found_socket_written :
    Always step MessagesFound (start zeroed 3)
      (round [0] (dataPipeMsg 5) 1 ++ round [0] (tcpAddMsg 10) 3 ++ sendRound 10 [1, 2] ++
        .poll (fun k => ⟨false, decide (k = 2)⟩) :: (round [] (tcpAddMsg 0) 3).tail) :=
  messages_found_of_deletes_no_pending zeroed 3 _ (by decide +kernel)

/-- Socket 10 is deleted with a message pending. The message is left without an fd that is polled,
and when the number is added again, no `POLLOUT` is requested for it. -/
theorem message_outlives_its_socket :
    ¬Always step MessagesFound (start zeroed 3)
      (round [0] (dataPipeMsg 5) 1 ++ round [0] (tcpAddMsg 10) 3 ++ sendRound 10 [1, 2] ++
        round [0] (socketDeleteMsg 10) 2 ++ round [0] (tcpAddMsg 10) 3) := by
  intro h
  have hmatched := h.mono (Q := fun s => s.cursor = .poll → Matched s.thr) fun s hs hcur => by
    unfold MessagesFound at hs
    rw [hcur] at hs
    exact hs.1
  revert hmatched
  decide +kernel

end OfConnect.PollThr.Pending
