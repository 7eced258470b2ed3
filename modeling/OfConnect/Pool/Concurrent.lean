import OfConnect.Pool.Sorted

/-!
# Additions side by side

`cc_add_sockfd_rw_pollthr_safe` takes the lock of the pool to choose a manager, then the
locks of the tables, then the lock of the manager. Between these sections other calls run.
The room that the first section has seen may be gone in the last one, and what
`adp_thr_mgr_add_del_fd` answers there is not looked at.
-/

namespace OfConnect.Pool.Concurrent

open OfConnect.Lib.Run OfConnect.Lib.Tables OfConnect.Lib.Ranked OfConnect.PollThr.Thread
open OfConnect.Core.State OfConnect.Core.Api OfConnect.Core.Effects
open OfConnect.Pool.Moves OfConnect.Pool.Sorted

/-- The arguments of one call. -/
structure Call where
  fd : Fd
  key : DevKey
  layer4Proto : L4Type
  ofchannKey : ChannelKey
  block : SockAddr
  deriving DecidableEq, Repr

/-- Which critical section of the call is next. -/
inductive Pc where
  | choose
  | enter (tmgr : MgrId)
  | rollback (tmgr : MgrId) (status : Ret)
  | poll (tmgr : MgrId) (status : Ret)
  | returned (status : Ret)
  deriving DecidableEq, Repr

structure Sys (ι : Type) where
  g : Global
  pc : ι → Pc

section

variable {ι : Type} [DecidableEq ι] (calls : ι → Call)

def start (g : Global) : Sys ι := ⟨g, fun _ => .choose⟩

def Sys.to (s : Sys ι) (c : ι) (g : Global) (pc : Pc) : Sys ι := ⟨g, Function.update s.pc c pc⟩

theorem Sys.to_pc_self (s : Sys ι) (c : ι) (g : Global) (pc : Pc) : (s.to c g pc).pc c = pc :=
  Function.update_self _ _ _

theorem Sys.to_pc_of_ne {s : Sys ι} {c d : ι} {g : Global} {pc : Pc} (h : d ≠ c) :
    (s.to c g pc).pc d = s.pc d :=
  Function.update_of_ne h _ _

theorem Sys.to_to (s : Sys ι) (c : ι) (g g' : Global) (pc pc' : Pc) :
    (s.to c g pc).to c g' pc' = s.to c g' pc' := by
  unfold Sys.to
  rw [Function.update_idem]

/-- The call `c` goes through its next critical section. -/
def step (s : Sys ι) (c : ι) : Option (Sys ι) :=
  let call := calls c
  match s.pc c with
  | .choose =>
    let f := ccFindOrCreateRwPollthrSafe s.g
    some (s.to c f.2 (.enter f.1))
  | .enter tmgr =>
    (atomicAddUpdHtblsWithRwsocketLockfree s.g call.fd call.block (some tmgr) call.key
      call.layer4Proto call.ofchannKey).map fun r =>
        if r.1 < 0 then s.to c r.2 (.rollback tmgr r.1) else s.to c r.2 (.poll tmgr r.1)
  | .rollback tmgr status =>
    (ccDelSockfdRwPollthrLockfree s.g (some tmgr) .addFd call.fd).map fun d =>
      s.to c d.2 (.returned status)
  | .poll tmgr status =>
    (s.g.addDelFd tmgr .addFd call.fd).map fun g => s.to c g (.returned status)
  | .returned _ => none

/-- A call that nothing interrupts is `cc_add_sockfd_rw_pollthr_safe`. -/
theorem run_alone (s : Sys ι) (c : ι) (hpc : s.pc c = .choose) :
    run (step calls) s [c, c, c] =
      (ccAddSockfdRwPollthrSafe s.g (calls c).fd (calls c).key (calls c).layer4Proto
        (calls c).ofchannKey (calls c).block).map fun r => s.to c r.2 (.returned r.1) := by
  unfold ccAddSockfdRwPollthrSafe
  generalize hf : ccFindOrCreateRwPollthrSafe s.g = f
  have hfirst : step calls s c = some (s.to c f.2 (.enter f.1)) := by
    simp only [step, hpc, hf]
  rw [run_cons, hfirst, Option.bind_some, run_cons]
  simp only [step, Sys.to_pc_self]
  show ((atomicAddUpdHtblsWithRwsocketLockfree f.2 _ _ _ _ _ _).map _).bind _ = _
  cases hadd : atomicAddUpdHtblsWithRwsocketLockfree f.2 (calls c).fd (calls c).block (some f.1)
      (calls c).key (calls c).layer4Proto (calls c).ofchannKey with
  | none => rfl
  | some r =>
    simp only [Option.map_some, Option.bind_some, Sys.to_to]
    split
    · rw [run_cons]
      simp only [step, Sys.to_pc_self, Sys.to_to]
      show ((ccDelSockfdRwPollthrLockfree r.2 _ _ _).map _).bind _ = _
      cases ccDelSockfdRwPollthrLockfree r.2 (some f.1) .addFd (calls c).fd with
      | none => rfl
      | some d => rfl
    · rw [run_cons]
      simp only [step, Sys.to_pc_self, Sys.to_to]
      show ((Global.addDelFd r.2 _ _ _).map _).bind _ = _
      cases Global.addDelFd r.2 f.1 .addFd (calls c).fd with
      | none => rfl
      | some d => rfl

/-- The socket of every call that has returned `CC_OF_OK` is polled by the thread of the
manager that its entry names. -/
def AddedPolled (s : Sys ι) : Prop :=
  ∀ c, s.pc c = .returned ccOfOk →
    ∃ info m, s.g.ofrwHtbl.lookup (calls c).fd = some info ∧ info.thrMgr = some m ∧
      (calls c).fd ∈ (s.g.mgrs m).fds

/-- The manager that was chosen has room when the call gets to it. -/
def StillRoom (s : Sys ι) (c : ι) : Prop :=
  ∀ m status, s.pc c = .poll m status → (s.g.mgrs m).numSockets.toUInt32 ≠ (s.g.mgrs m).maxSockets

/-! ## What a section leaves alone -/

/-- A section for `fd` leaves every other socket as it is, in `ofrw_htbl` and with the
managers that exist. -/
structure Frame (g g' : Global) (fd : Fd) : Prop where
  next : g.nextMgr ≤ g'.nextMgr
  names : ∀ m ∈ g'.ofrwPollthrList, m ∈ g.ofrwPollthrList ∨ m < g'.nextMgr
  ofrw : ∀ f, f ≠ fd → g'.ofrwHtbl.lookup f = g.ofrwHtbl.lookup f
  polled : ∀ f m, f ≠ fd → m < g'.nextMgr → f ∈ (g'.mgrs m).fds →
    m < g.nextMgr ∧ f ∈ (g.mgrs m).fds
  kept : ∀ f m, m < g.nextMgr → f ∈ (g.mgrs m).fds → f ∈ (g'.mgrs m).fds

theorem frame_choose {g : Global} (fd : Fd) {f : MgrId × Global}
    (hf : ccFindOrCreateRwPollthrSafe g = f) (hnames : ∀ m ∈ g.ofrwPollthrList, m < g.nextMgr) :
    Frame g f.2 fd ∧ f.2.ofrwHtbl = g.ofrwHtbl ∧ f.1 < f.2.nextMgr ∧
      ∀ x m, m < f.2.nextMgr → x ∈ (f.2.mgrs m).fds → m < g.nextMgr ∧ x ∈ (g.mgrs m).fds := by
  rcases findOrCreate_cases g with ⟨elem, rest, hl, hroom, heq⟩ | ⟨-, heq⟩
  · rw [heq] at hf
    obtain rfl := hf
    have hin : lastNonzero (room g) elem rest ∈ g.ofrwPollthrList := by
      rw [hl]
      exact lastNonzero_mem _ _ _
    exact ⟨⟨Nat.le_refl _, fun _ hm => .inl hm, fun _ _ => rfl,
      fun _ _ _ hm hx => ⟨hm, hx⟩, fun _ _ _ hx => hx⟩, rfl, hnames _ hin,
      fun _ _ hm hx => ⟨hm, hx⟩⟩
  · rw [heq] at hf
    obtain rfl := hf
    have hsub : ∀ x m, m < g.nextMgr + 1 → x ∈ ((ccCreateRwPollthrSafe g).2.mgrs m).fds →
        m < g.nextMgr ∧ x ∈ (g.mgrs m).fds := by
      intro x m hlt hx
      by_cases hm : m = g.nextMgr
      · have hnew : (ccCreateRwPollthrSafe g).2.mgrs m = adpThrMgrNew maxPerThreadRwsockets := by
          rw [hm]
          exact Function.update_self _ _ _
        rw [hnew] at hx
        cases hx
      · rw [show (ccCreateRwPollthrSafe g).2.mgrs m = g.mgrs m from
          Function.update_of_ne hm _ _] at hx
        exact ⟨Nat.lt_of_le_of_ne (Nat.lt_succ_iff.mp hlt) hm, hx⟩
    refine ⟨⟨Nat.le_succ _, fun m hm => ?_, fun _ _ => rfl, fun x m _ => hsub x m,
      fun x m hm hx => ?_⟩, rfl, Nat.lt_succ_self _, hsub⟩
    · rcases List.mem_cons.mp hm with rfl | hm
      · exact .inr (Nat.lt_succ_self _)
      · exact .inl hm
    · show x ∈ (Function.update g.mgrs g.nextMgr _ m).fds
      rw [Function.update_of_ne (Nat.ne_of_lt hm)]
      exact hx

/-- The tables take the socket in with the chosen manager, or are rolled back. -/
theorem frame_enter {g : Global} {fd : Fd} {block : SockAddr} {m : MgrId} {key : DevKey}
    {proto : L4Type} {ck : ChannelKey} {r : Ret × Global}
    (h : atomicAddUpdHtblsWithRwsocketLockfree g fd block (some m) key proto ck = some r) :
    Frame g r.2 fd ∧ r.2.mgrs = g.mgrs ∧ r.2.nextMgr = g.nextMgr ∧
      (r.1 = ccOfEinval ∨ r.1 = ccOfOk ∧
        ∃ info, r.2.ofrwHtbl.lookup fd = some info ∧ info.thrMgr = some m) := by
  cases hd : g.ofdevHtbl.lookup key with
  | none =>
    rw [atomicAdd_of_unregistered fd block _ proto ck hd] at h
    obtain rfl := Option.some.inj h
    refine ⟨⟨Nat.le_refl _, fun _ hm => .inl hm, fun f hf => ?_,
      fun _ _ _ hm hx => ⟨hm, hx⟩, fun _ _ _ hx => hx⟩, rfl, rfl, .inl rfl⟩
    rw [lookup_erase_eq, if_neg hf, lookup_insert_eq, if_neg hf]
  | some dev =>
    rw [atomicAdd_of_registered fd block _ proto ck hd] at h
    obtain rfl := Option.some.inj h
    refine ⟨⟨Nat.le_refl _, fun _ hm => .inl hm, fun f hf => ?_,
      fun _ _ _ hm hx => ⟨hm, hx⟩, fun _ _ _ hx => hx⟩, rfl, rfl,
      .inr ⟨rfl, ⟨.down, some m, key, block, proto⟩, ?_, rfl⟩⟩
    · rw [lookup_insert_eq, if_neg hf]
    · rw [lookup_insert_eq, if_pos rfl]

/-- A full manager changes nothing; any other one takes the socket in. -/
theorem frame_poll {g g' : Global} {m : MgrId} {fd : Fd} (h : g.addDelFd m .addFd fd = some g') :
    Frame g g' fd ∧ g'.ofrwHtbl = g.ofrwHtbl ∧ g'.nextMgr = g.nextMgr ∧
      (fd ∉ (g.mgrs m).fds →
        (fd ∈ (g'.mgrs m).fds ↔ (g.mgrs m).numSockets.toUInt32 ≠ (g.mgrs m).maxSockets)) := by
  obtain ⟨r, hr, rfl⟩ := Option.map_eq_some_iff.mp h
  have hother : ∀ m', m' ≠ m → Function.update g.mgrs m r.2 m' = g.mgrs m' :=
    fun m' hm' => Function.update_of_ne hm' _ _
  have hself : Function.update g.mgrs m r.2 m = r.2 := Function.update_self _ _ _
  have hfds : (r.2.fds = (g.mgrs m).fds ∧
        (g.mgrs m).numSockets.toUInt32 = (g.mgrs m).maxSockets) ∨
      (r.2.fds = (g.mgrs m).fds ++ [fd] ∧
        (g.mgrs m).numSockets.toUInt32 ≠ (g.mgrs m).maxSockets) := by
    simp only [adpThrMgrAddDelFd] at hr
    split at hr
    · rename_i hfull
      obtain rfl := Option.some.inj hr
      exact .inl ⟨rfl, hfull⟩
    · rename_i hroom
      split at hr
      · cases hr
      · obtain rfl := Option.some.inj hr
        exact .inr ⟨rfl, hroom⟩
  have hsub : ∀ x ∈ r.2.fds, x ≠ fd → x ∈ (g.mgrs m).fds := by
    intro x hx hne
    rcases hfds with ⟨heq, -⟩ | ⟨heq, -⟩
    · exact heq ▸ hx
    · rw [heq] at hx
      rcases List.mem_append.mp hx with hx | hx
      · exact hx
      · exact absurd (List.mem_singleton.mp hx) hne
  have hsup : ∀ x ∈ (g.mgrs m).fds, x ∈ r.2.fds := by
    intro x hx
    rcases hfds with ⟨heq, -⟩ | ⟨heq, -⟩
    · exact heq.symm ▸ hx
    · rw [heq]
      exact List.mem_append_left _ hx
  refine ⟨⟨Nat.le_refl _, fun _ hm => .inl hm, fun _ _ => rfl,
    fun x m' hne hlt hx => ⟨hlt, ?_⟩, fun x m' _ hx => ?_⟩, rfl, rfl, fun hnew => ?_⟩
  · by_cases hm : m' = m
    · subst hm
      exact hsub x (hself ▸ hx) hne
    · exact hother m' hm ▸ hx
  · show x ∈ (Function.update g.mgrs m r.2 m').fds
    by_cases hm : m' = m
    · subst hm
      rw [hself]
      exact hsup x hx
    · rw [hother m' hm]
      exact hx
  · show fd ∈ (Function.update g.mgrs m r.2 m).fds ↔ _
    rw [hself]
    rcases hfds with ⟨heq, hfull⟩ | ⟨heq, hroom⟩
    · rw [heq]
      exact iff_of_false hnew fun hne => hne hfull
    · rw [heq]
      exact iff_of_true (List.mem_append_right _ (List.mem_singleton_self _)) hroom

/-! ## Where a call stands -/

/-- No thread polls the socket. -/
def Unpolled (g : Global) (fd : Fd) : Prop := ∀ m, m < g.nextMgr → fd ∉ (g.mgrs m).fds

/-- The entry of the socket names `m`. -/
def Entered (g : Global) (fd : Fd) (m : MgrId) : Prop :=
  ∃ info, g.ofrwHtbl.lookup fd = some info ∧ info.thrMgr = some m

/-- What has become of a call's socket at each point of the call. -/
def Tracks (g : Global) (fd : Fd) : Pc → Prop
  | .choose => Unpolled g fd
  | .enter tmgr => Unpolled g fd ∧ tmgr < g.nextMgr
  | .rollback _ status => Unpolled g fd ∧ status = ccOfEinval
  | .poll tmgr status => Unpolled g fd ∧ tmgr < g.nextMgr ∧ status = ccOfOk ∧ Entered g fd tmgr
  | .returned status => status = ccOfOk → ∃ m, m < g.nextMgr ∧ Entered g fd m

theorem Frame.tracks {g g' : Global} {fd f : Fd} (h : Frame g g' fd) (hne : f ≠ fd) {pc : Pc}
    (ht : Tracks g f pc) : Tracks g' f pc := by
  have hun : Unpolled g f → Unpolled g' f := by
    intro hu m hm hx
    obtain ⟨hlt, hin⟩ := h.polled f m hne hm hx
    exact hu m hlt hin
  have hent : ∀ m, Entered g f m → Entered g' f m := by
    intro m hm
    unfold Entered
    rw [h.ofrw f hne]
    exact hm
  cases pc with
  | choose => exact hun ht
  | enter tmgr => exact ⟨hun ht.1, Nat.lt_of_lt_of_le ht.2 h.next⟩
  | rollback tmgr status => exact ⟨hun ht.1, ht.2⟩
  | poll tmgr status =>
    exact ⟨hun ht.1, Nat.lt_of_lt_of_le ht.2.1 h.next, ht.2.2.1, hent tmgr ht.2.2.2⟩
  | returned status =>
    intro hok
    obtain ⟨m, hm, he⟩ := ht hok
    exact ⟨m, Nat.lt_of_lt_of_le hm h.next, hent m he⟩

structure Tracked (s : Sys ι) : Prop where
  names : ∀ m ∈ s.g.ofrwPollthrList, m < s.g.nextMgr
  calls : ∀ c, Tracks s.g (calls c).fd (s.pc c)

/-- What a step does to the call that takes it, with the frame for all others. -/
theorem step_cases {s s' : Sys ι} {c : ι} (h : Tracked calls s) (hs : step calls s c = some s') :
    ∃ g' pc', s' = s.to c g' pc' ∧ Frame s.g g' (calls c).fd ∧ Tracks g' (calls c).fd pc' ∧
      ((∃ m, s.pc c = .poll m ccOfOk ∧ pc' = .returned ccOfOk ∧ Entered g' (calls c).fd m ∧
          ((calls c).fd ∈ (g'.mgrs m).fds ↔
            (s.g.mgrs m).numSockets.toUInt32 ≠ (s.g.mgrs m).maxSockets)) ∨
        (∀ m status, s.pc c ≠ .poll m status) ∧ pc' ≠ .returned ccOfOk) := by
  have hc := h.calls c
  cases hpc : s.pc c with
  | choose =>
    simp only [step, hpc] at hs
    obtain rfl := Option.some.inj hs
    rw [hpc] at hc
    obtain ⟨hframe, -, hlt, hsub⟩ := frame_choose (calls c).fd rfl h.names
    exact ⟨_, _, rfl, hframe, ⟨fun m hm hx => hc m (hsub _ m hm hx).1
      (hsub _ m hm hx).2, hlt⟩, .inr ⟨nofun, nofun⟩⟩
  | enter tmgr =>
    simp only [step, hpc] at hs
    obtain ⟨r, hr, rfl⟩ := Option.map_eq_some_iff.mp hs
    rw [hpc] at hc
    obtain ⟨hframe, hmgrs, hnext, hret⟩ := frame_enter hr
    have hun : Unpolled r.2 (calls c).fd := by
      unfold Unpolled
      rw [hmgrs, hnext]
      exact hc.1
    rcases hret with hneg | ⟨hok, hent⟩
    · rw [if_pos (by rw [hneg]; decide)]
      exact ⟨_, _, rfl, hframe, ⟨hun, hneg⟩, .inr ⟨nofun, nofun⟩⟩
    · rw [if_neg (by rw [hok]; decide)]
      exact ⟨_, _, rfl, hframe, ⟨hun, hnext ▸ hc.2, hok, hent⟩, .inr ⟨nofun, nofun⟩⟩
  | rollback tmgr status =>
    simp only [step, hpc] at hs
    obtain ⟨d, hd, rfl⟩ := Option.map_eq_some_iff.mp hs
    rw [hpc] at hc
    -- the message still says `ADD_FD`
    rw [delSockfd_of_addFd] at hd
    obtain rfl := Option.some.inj hd
    have hne : status ≠ ccOfOk := by
      rw [hc.2]
      decide
    refine ⟨_, _, rfl, ⟨Nat.le_refl _, fun _ hm => .inl hm, fun _ _ => rfl,
      fun _ _ _ hm hx => ⟨hm, hx⟩, fun _ _ _ hx => hx⟩, fun hok => absurd hok hne, .inr ⟨nofun, fun heq => ?_⟩⟩
    exact hne (Pc.returned.inj heq)
  | poll tmgr status =>
    simp only [step, hpc] at hs
    obtain ⟨g', hg', rfl⟩ := Option.map_eq_some_iff.mp hs
    rw [hpc] at hc
    obtain ⟨hun, hlt, rfl, hent⟩ := hc
    obtain ⟨hframe, hofrw, hnext, hiff⟩ := frame_poll hg'
    have hent' : Entered g' (calls c).fd tmgr := by
      unfold Entered
      rw [hofrw]
      exact hent
    exact ⟨_, _, rfl, hframe, fun _ => ⟨tmgr, hnext ▸ hlt, hent'⟩,
      .inl ⟨tmgr, rfl, rfl, hent', hiff (hun tmgr hlt)⟩⟩
  | returned status =>
    simp only [step, hpc] at hs
    cases hs

section

variable {calls} (hdistinct : Function.Injective fun c => (calls c).fd)
include hdistinct

theorem tracked_step {s s' : Sys ι} {c : ι} (h : Tracked calls s)
    (hs : step calls s c = some s') : Tracked calls s' := by
  obtain ⟨g', pc', rfl, hframe, hself, -⟩ := step_cases calls h hs
  refine ⟨fun m hm => ?_, fun d => ?_⟩
  · rcases hframe.names m hm with hm | hm
    · exact Nat.lt_of_lt_of_le (h.names m hm) hframe.next
    · exact hm
  · by_cases hd : d = c
    · subst hd
      rw [Sys.to_pc_self]
      exact hself
    · rw [Sys.to_pc_of_ne hd]
      exact hframe.tracks (fun heq => hd (hdistinct heq)) (h.calls d)

theorem addedPolled_step_iff {s s' : Sys ι} {c : ι} (h : Tracked calls s)
    (hp : AddedPolled calls s) (hs : step calls s c = some s') :
    AddedPolled calls s' ↔ StillRoom s c := by
  obtain ⟨g', pc', rfl, hframe, -, hcase⟩ := step_cases calls h hs
  -- the calls that returned before keep what they have
  have hothers : ∀ d, d ≠ c → (s.to c g' pc').pc d = .returned ccOfOk →
      ∃ info m, g'.ofrwHtbl.lookup (calls d).fd = some info ∧ info.thrMgr = some m ∧
        (calls d).fd ∈ (g'.mgrs m).fds := by
    intro d hd hret
    rw [Sys.to_pc_of_ne hd] at hret
    obtain ⟨info, m, hl, hm, hin⟩ := hp d hret
    have htr := h.calls d
    rw [hret] at htr
    obtain ⟨m', hlt, info', hl', hm'⟩ := htr rfl
    rw [hl] at hl'
    obtain rfl := Option.some.inj hl'
    rw [hm] at hm'
    obtain rfl := Option.some.inj hm'
    exact ⟨info, m, by rw [hframe.ofrw _ fun heq => hd (hdistinct heq)]; exact hl, hm,
      hframe.kept _ m hlt hin⟩
  rcases hcase with ⟨m, hpc, rfl, ⟨info, hl, hm⟩, hiff⟩ | ⟨hpc, hpc'⟩
  · have hroom : StillRoom s c ↔ (s.g.mgrs m).numSockets.toUInt32 ≠ (s.g.mgrs m).maxSockets := by
      constructor
      · intro hall
        exact hall m _ hpc
      · intro hne m' status hpc'
        rw [hpc] at hpc'
        obtain ⟨rfl, -⟩ := Pc.poll.inj hpc'
        exact hne
    rw [hroom, ← hiff]
    constructor
    · intro hall
      obtain ⟨info', m', hl', hm', hin⟩ := hall c (Sys.to_pc_self _ _ _ _)
      rw [show (s.to c g' _).g.ofrwHtbl.lookup _ = _ from hl] at hl'
      obtain rfl := Option.some.inj hl'
      rw [hm] at hm'
      obtain rfl := Option.some.inj hm'
      exact hin
    · intro hin d hret
      by_cases hd : d = c
      · subst hd
        exact ⟨info, m, hl, hm, hin⟩
      · exact hothers d hd hret
  · refine iff_of_true (fun d hret => ?_) fun m status heq => absurd heq (hpc m status)
    by_cases hd : d = c
    · subst hd
      rw [Sys.to_pc_self] at hret
      exact absurd hret hpc'
    · exact hothers d hd hret

/-- Additions of distinct new sockets, in any order of their sections, end with their socket
polled exactly if each of them still finds room with the manager it has chosen. -/
theorem additions_polled_iff_still_room {g : Global}
    (hnames : ∀ m ∈ g.ofrwPollthrList, m < g.nextMgr)
    (hfresh : ∀ c, Unpolled g (calls c).fd) (schedule : List ι) :
    Always (step calls) (AddedPolled calls) (start g) schedule ↔
      Guarded (step calls) StillRoom (start g) schedule := by
  have hstart : Tracked calls (start g) := ⟨hnames, hfresh⟩
  refine always_iff_guarded_of_invariant (fun _ _ _ h hs => tracked_step hdistinct h hs)
    (fun _ _ _ h hp hs => addedPolled_step_iff hdistinct h hp hs) hstart ?_ schedule
  intro c hret
  cases hret

end

end

/-! ## Two calls for the last place -/

/-- The calls for the sockets `300` and `301`. -/
def twoCalls : Bool → Call
  | false => ⟨300, ⟨1, 2, 6633⟩, .tcp, ⟨300, 0⟩, ⟨0, 0⟩⟩
  | true => ⟨301, ⟨1, 2, 6633⟩, .tcp, ⟨301, 0⟩, ⟨0, 0⟩⟩

theorem twoCalls_distinct : Function.Injective fun c => (twoCalls c).fd := by
  intro c d h
  cases c <;> cases d <;> first | rfl | exact absurd h (by decide)

theorem notMem_sockets {n : Nat} (hn : n ≤ 200) {fd : Fd} (hfd : 210 ≤ fd.toInt) :
    fd ∉ sockets n := by
  intro hmem
  obtain ⟨i, hi, rfl⟩ := List.mem_map.mp hmem
  have hi := List.mem_range.mp hi
  rw [Int32.toInt_ofNat_of_lt (by omega)] at hfd
  omega

theorem twoCalls_unpolled {g : Global} {n : Nat} (hn : n ≤ 200)
    (h : Filled g ⟨1, 2, 6633⟩ (sockets n)) (c : Bool) : Unpolled g (twoCalls c).fd := by
  intro m hm hin
  have hm0 : m = 0 := by
    rw [← h.inv.complete, h.list] at hm
    exact List.mem_singleton.mp hm
  rw [hm0, h.fds_eq] at hin
  refine notMem_sockets hn ?_ hin
  cases c with
  | false => decide
  | true => decide

/-- The call `c` is at `pc` in `s'`, and the other one is where it was. -/
def Moved (s s' : Sys Bool) (c : Bool) (pc : Pc) : Prop := s'.pc c = pc ∧ s'.pc (!c) = s.pc (!c)

theorem moved_to (s : Sys Bool) (c : Bool) (g : Global) (pc : Pc) : Moved s (s.to c g pc) c pc :=
  ⟨Sys.to_pc_self _ _ _ _, Sys.to_pc_of_ne (Bool.not_ne_self c)⟩

theorem step_choose {s : Sys Bool} {c : Bool} {m : MgrId} (hpc : s.pc c = .choose)
    (hfind : ccFindOrCreateRwPollthrSafe s.g = (m, s.g)) :
    ∃ s', step twoCalls s c = some s' ∧ Moved s s' c (.enter m) ∧ s'.g = s.g := by
  simp only [step, hpc, hfind]
  exact ⟨_, rfl, moved_to s c s.g _, rfl⟩

theorem step_enter {s : Sys Bool} {c : Bool} {m : MgrId} (hpc : s.pc c = .enter m)
    (hreg : (twoCalls c).key ∈ s.g.ofdevHtbl) :
    ∃ s', step twoCalls s c = some s' ∧ Moved s s' c (.poll m ccOfOk) ∧ s'.g.mgrs = s.g.mgrs ∧
      ∀ k ∈ s.g.ofdevHtbl, k ∈ s'.g.ofdevHtbl := by
  obtain ⟨dev, hdev⟩ := mem_iff_lookup.mp hreg
  simp only [step, hpc, atomicAdd_of_registered _ _ _ _ _ hdev, Option.map_some]
  exact ⟨_, rfl, moved_to s c _ _, rfl, fun k hk => AList.mem_insert _ |>.mpr (.inr hk)⟩

theorem step_poll {s : Sys Bool} {c : Bool} {m : MgrId} {status : Ret}
    (hpc : s.pc c = .poll m status) (hfd : (twoCalls c).fd ∉ (s.g.mgrs m).fds) :
    ∃ s', step twoCalls s c = some s' ∧ Moved s s' c (.returned status) ∧
      ((s.g.mgrs m).numSockets.toUInt32 ≠ (s.g.mgrs m).maxSockets →
        (s'.g.mgrs m).numSockets = (s.g.mgrs m).numSockets + 1 ∧
        (s'.g.mgrs m).maxSockets = (s.g.mgrs m).maxSockets) := by
  simp only [step, hpc, Global.addDelFd, adpThrMgrAddDelFd, if_neg hfd]
  split
  · rename_i hfull
    exact ⟨_, rfl, moved_to s c _ _, fun hroom => absurd hfull hroom⟩
  · refine ⟨_, rfl, moved_to s c _ _, fun _ => ?_⟩
    simp only [Sys.to, Function.update_self, and_self]

/-- The library after a switch has opened 199 sockets meets what the theorem asks for. -/
theorem additions_polled_iff_still_room_switch :
    ∃ g, run Sorted.step (ccOfLibInit .switch) (openSockets 199) = some g ∧
      (Always (step twoCalls) (AddedPolled twoCalls) (start g) [false, false, false, true] ↔
        Guarded (step twoCalls) StillRoom (start g) [false, false, false, true]) := by
  obtain ⟨g, hg, hfill⟩ := filled_switch 199 (by omega)
  exact ⟨g, hg, additions_polled_iff_still_room twoCalls_distinct
    (fun m hm => (hfill.inv.complete m).mp hm) (twoCalls_unpolled (by omega) hfill) _⟩

/-- Both calls choose the manager with one place left, and the first one takes it. -/
theorem race_for_last_place {g : Global} (hfill : Filled g ⟨1, 2, 6633⟩ (sockets 199)) :
    ∃ s, run (step twoCalls) (start g) [false, true, false, true, false] = some s ∧
      s.pc true = .poll 0 ccOfOk ∧
      (s.g.mgrs 0).numSockets.toUInt32 = (s.g.mgrs 0).maxSockets := by
  have hlen : (sockets 199).length = 199 := by simp [sockets]
  have hman := hfill.inv.managed 0 hfill.next
  have hfind : ccFindOrCreateRwPollthrSafe g = (0, g) := hfill.find (by omega)
  obtain ⟨s₁, h₁, hf₁, hg₁⟩ := step_choose (s := start g) (c := false) rfl hfind
  obtain ⟨s₂, h₂, ht₂, hg₂⟩ := step_choose (c := true) hf₁.2 (by rw [hg₁]; exact hfind)
  have hf₂ : s₂.pc false = .enter 0 := ht₂.2.trans hf₁.1
  obtain ⟨s₃, h₃, hf₃, hm₃, hd₃⟩ := step_enter hf₂ (by rw [hg₂, hg₁]; exact hfill.registered)
  have ht₃ : s₃.pc true = .enter 0 := hf₃.2.trans ht₂.1
  obtain ⟨s₄, h₄, ht₄, hm₄, -⟩ := step_enter ht₃
    (hd₃ _ (by rw [hg₂, hg₁]; exact hfill.registered))
  have hf₄ : s₄.pc false = .poll 0 ccOfOk := ht₄.2.trans hf₃.1
  have hmgrs : s₄.g.mgrs = g.mgrs := by
    rw [hm₄, hm₃, hg₂, hg₁]
    rfl
  obtain ⟨s₅, h₅, hf₅, hm₅⟩ := step_poll hf₄ (by
    rw [hmgrs, hfill.fds_eq]
    exact notMem_sockets (by omega) (by decide))
  refine ⟨s₅, ?_, hf₅.2.trans ht₄.1, ?_⟩
  · simp only [run_cons, h₁, h₂, h₃, h₄, h₅, Option.bind_some, run_nil]
  · have hnum : (g.mgrs 0).numSockets = 199 := by
      rw [← UInt16.toNat_inj, hman.counted, hfill.fds_eq, hlen]
      rfl
    rw [hmgrs, hnum, hman.max] at hm₅
    obtain ⟨hone, hmax⟩ := hm₅ (by decide)
    rw [hone, hmax]
    rfl

/-- One place is left, two calls choose its manager, and both return `CC_OF_OK`. -/
theorem last_place_given_twice :
    ∃ g, run Sorted.step (ccOfLibInit .switch) (openSockets 199) = some g ∧
      ¬Always (step twoCalls) (AddedPolled twoCalls) (start g)
        [false, true, false, true, false, true] := by
  obtain ⟨g, hg, hfill⟩ := filled_switch 199 (by omega)
  refine ⟨g, hg, fun hall => ?_⟩
  obtain ⟨s, hs, hpc, hfull⟩ := race_for_last_place hfill
  have hstart : Tracked twoCalls (start g) :=
    ⟨fun m hm => (hfill.inv.complete m).mp hm, twoCalls_unpolled (by omega) hfill⟩
  have htracked : Tracked twoCalls s :=
    (always_of_step (fun _ _ _ h hs => tracked_step twoCalls_distinct h hs) hstart _).last hs
  have hcall := htracked.calls true
  rw [hpc] at hcall
  obtain ⟨s', hstep, -⟩ := step_poll hpc (hcall.1 0 hcall.2.1)
  have hlast : run (step twoCalls) (start g) ([false, true, false, true, false] ++ [true]) =
      some s' := by
    rw [run_append, hs, Option.bind_some, run_cons, hstep]
    rfl
  have hroom := (addedPolled_step_iff twoCalls_distinct htracked (hall _ s ⟨[true], rfl⟩ hs)
    hstep).mp (hall.last hlast)
  exact hroom 0 _ hpc hfull

end OfConnect.Pool.Concurrent
