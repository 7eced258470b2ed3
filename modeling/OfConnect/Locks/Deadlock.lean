import OfConnect.Locks.Callbacks

/-!
# Deadlock between calls of the API and poll threads

Three things can close a cycle of waiting threads.

* A call that closes sockets holds the three table locks while it waits for a poll thread
  to acknowledge the `DELETE_FD`. The poll thread may be in a callback that has still to
  take one of these locks.
* `cc_of_lib_free` takes `ofrw_htbl_lock` before `ofchannel_htbl_lock`, all the others the
  other way round.
* `cc_of_lib_free` waits for the threads of the pool under `ofrw_pollthr_list_lock`. A
  thread of the pool may be blocked on a table lock whose owner is closing a socket and
  has come to `ofrw_pollthr_list_lock`.

A run in which no step brings one of these about has no cycle in any state.
-/

namespace OfConnect.Locks.Deadlock

open OfConnect.Lib.Run OfConnect.Lib.Monitor OfConnect.Locks.Programs OfConnect.Locks.Order
open OfConnect.Locks.Callbacks

abbrev Sys := State Tid Lock Cond Request

/-! ## The property -/

def OwnsTable (s : Sys) (t : Tid) : Prop := ∃ l, isTable l = true ∧ s.owner l = some t

structure DeadlockFree (s : Sys) : Prop where
  noCycle : NoCycle system s
  /-- No thread waits under a table lock for a thread that is to take one. -/
  noCrossing : ∀ t c rest, s.todo t = .await c :: rest → t ∈ s.waiters c → OwnsTable s t →
    ∀ l rest', isTable l = true → s.todo (system.server c) ≠ .lock l :: rest'

/-! ## The condition -/

/-- The operations that can keep a poll thread from its primary pipe, other than the mutex
of that pipe. -/
def delays : Op → Bool
  | .lock (.addDelPipeCv _) => false
  | .lock (.adpThrInitCv _) => false
  | .lock _ => true
  | .await _ => true
  | .join _ => true
  | _ => false

/-- The thread still has such an operation in what it is running. -/
def Busy (s : Sys) (t : Tid) : Prop := (s.todo t).any delays = true

/-- The thread an operation waits for, other than for a mutex. -/
def awaited : Op → Option Tid
  | .sleep c => some (system.server c)
  | .await c => some (system.server c)
  | .join t => some t
  | _ => none

/-- `t` is waiting, or about to wait, for `u`, and `u` has not answered. -/
def Asks (s : Sys) (t u : Tid) : Prop :=
  ∃ op rest, s.todo t = op :: rest ∧ awaited op = some u ∧ ∀ c, op = .await c → t ∈ s.waiters c

def Queues (s : Sys) (t : Tid) (l : Lock) : Prop := ∃ rest, s.todo t = .lock l :: rest

/-- Somebody holds a table lock and is queued for the pool. -/
def PoolWanted (s : Sys) : Prop := ∃ t, OwnsTable s t ∧ Queues s t .ofrwPollthrList

/-- What `t` must not be kept from answering: a thread with a table lock asks it, or a
thread with the pool asks it while the pool is wanted. -/
def Urgent (s : Sys) (t : Tid) : Prop :=
  ∃ u, Asks s u t ∧ (OwnsTable s u ∨ (s.owner .ofrwPollthrList = some u ∧ PoolWanted s))

/-- `t` holds `l` once it has performed `op`. -/
def HoldsAfter (s : Sys) (t : Tid) (op : Op) (l : Lock) : Prop :=
  op = .lock l ∨ (s.owner l = some t ∧ op ≠ .unlock l)

/-- What may be the next operation `nxt` of `t` after `op`. -/
structure MayMove (s : Sys) (t : Tid) (op nxt : Op) : Prop where
  /-- Under a table lock, `t` goes to wait only for a thread that will answer; under the
  pool, only if the pool is not wanted. -/
  ask : ∀ u, awaited nxt = some u → Busy s u →
    (∀ l, isTable l = true → ¬HoldsAfter s t op l) ∧
      (HoldsAfter s t op .ofrwPollthrList → ¬PoolWanted s)
  /-- Under a table lock, `t` goes for the pool only if its owner is not kept waiting. -/
  close : nxt = .lock .ofrwPollthrList → ∀ l, isTable l = true → HoldsAfter s t op l →
    ∀ u v, s.owner .ofrwPollthrList = some u → Asks s u v → ¬Busy s v
  /-- Two threads do not go for `ofchannel_htbl` and `ofrw_htbl` crosswise. -/
  channel : nxt = .lock .ofchannelHtbl → HoldsAfter s t op .ofrwHtbl →
    ∀ u, s.owner .ofchannelHtbl = some u → ¬Queues s u .ofrwHtbl
  rw : nxt = .lock .ofrwHtbl → HoldsAfter s t op .ofchannelHtbl →
    ∀ u, s.owner .ofrwHtbl = some u → ¬Queues s u .ofchannelHtbl

def Safe (s : Sys) : Label Tid Job → Prop
  | .start t j => callsFit j = true ∧ (Urgent s t → j.ops.any delays = false)
  | .exec t _ => ∀ op nxt rest, s.todo t = op :: nxt :: rest → MayMove s t op nxt

/-! ## The invariant -/

/-- A thread of the pool waits for no thread and leaves the pool alone; the listen thread
does not wait for itself. -/
def servable : Tid → Op → Bool
  | .poll (.rw _), .lock .ofrwPollthrList => false
  | .poll (.rw _), .await _ => false
  | .poll .listen, .await c => system.server c ≠ .poll .listen
  | .poll _, .join _ => false
  | _, _ => true

structure Untangled (s : Sys) : Prop where
  tracked : Tracked system ordered s
  servable : ∀ t, (s.todo t).all (servable t) = true
  urgent : ∀ t, Urgent s t → ¬Busy s t
  uncrossed : ∀ t u, s.owner .ofrwHtbl = some t → Queues s t .ofchannelHtbl →
    s.owner .ofchannelHtbl = some u → ¬Queues s u .ofrwHtbl

theorem all_locked (p : Op → Bool) (l : Lock) (body : List Op) :
    (locked l body).all p = (p (.lock l) && (body.all p && p (.unlock l))) := by
  simp [locked]

theorem servable_addSockfd (o : Opening) :
    (ccAddSockfdRwPollthrSafe o).all (servable (.poll .listen)) = true := by
  obtain ⟨n, pool, added, full⟩ := o
  cases pool <;> cases added <;> cases full <;> rfl

theorem servable_recvFunc {n : Nat} {calls : List ApiCall} (h : calls.all fitsTables = true) :
    (callback calls).all (servable (.poll (.rw n))) = true := by
  have hnil : calls.flatMap ApiCall.ops = [] := by
    refine List.flatMap_eq_nil_iff.mpr fun c hc => ?_
    have hfit := List.all_eq_true.mp h c hc
    unfold fitsTables at hfit
    split at hfit
    · rfl
    · cases hfit
  rw [callback, hnil]
  rfl

theorem servable_acceptChannFunc {calls : List ApiCall} (h : calls.all fitsDevice = true) :
    (callback calls).all (servable (.poll .listen)) = true := by
  rw [callback, List.all_cons, List.all_flatMap]
  refine Bool.and_eq_true_iff.mpr ⟨rfl, List.all_eq_true.mpr fun c hc => ?_⟩
  have hfit := List.all_eq_true.mp h c hc
  cases c with
  | ccOfSendPkt s => cases s <;> rfl
  | ccOfSetRealDpidAuxid => rfl
  | ccOfDestroyChannel d => cases hfit

theorem servable_ops {t : Tid} {j : Job} (hr : runs t j = true) (hfit : callsFit j = true) :
    j.ops.all (servable t) = true := by
  cases t with
  | app n =>
    refine List.all_eq_true.mpr fun op _ => ?_
    cases op <;> rfl
  | poll m =>
    cases j with
    | priPipe m' => cases m <;> rfl
    | selfDestruct m' => cases m <;> rfl
    | comeUp m' => cases m <;> rfl
    | listenfdPollin a calls =>
      cases m with
      | rw n => cases hr
      | listen =>
        cases a with
        | none => rfl
        | some a =>
          cases a with
          | failed => rfl
          | refused o =>
            simp [Job.ops, processListenfdPollinFunc, tcpAccept, all_locked, servable_addSockfd,
              servable]
          | noDevice o =>
            simp [Job.ops, processListenfdPollinFunc, tcpAccept, all_locked, servable_addSockfd,
              servable]
          | announced o =>
            simp [Job.ops, processListenfdPollinFunc, tcpAccept, all_locked, servable_addSockfd,
              servable, servable_acceptChannFunc hfit]
    | tcpfdPollin r calls =>
      cases m with
      | listen => cases hr
      | rw n =>
        cases r with
        | failed => rfl
        | dropped => rfl
        | delivered =>
          simp [Job.ops, processTcpfdPollinFunc, lockedTables, all_locked, servable,
            servable_recvFunc hfit]
    | udpfdPollin r acceptCalls recvCalls =>
      cases m with
      | listen => cases hr
      | rw n =>
        cases r with
        | failed => rfl
        | dropped => rfl
        | delivered =>
          simp [Job.ops, processUdpfdPollinFunc, lockedTables, all_locked, servable,
            servable_recvFunc hfit]
        | announced =>
          obtain ⟨ha, hv⟩ := Bool.and_eq_true_iff.mp hfit
          simp [Job.ops, processUdpfdPollinFunc, lockedTables, all_locked, servable,
            servable_recvFunc ha, servable_recvFunc hv]
    | udpfdPollout =>
      cases m with
      | listen => cases hr
      | rw n => rfl
    | api c => cases m <;> cases hr
    | ccOfCreateChannel o => cases m <;> cases hr
    | ccOfDevRegister controller full => cases m <;> cases hr
    | ccOfDevFree closings => cases m <;> cases hr
    | ccOfLibFree devs pool => cases m <;> cases hr

/-! ## Steps of one thread, seen from the others -/

section

variable {s s' : Sys} {t u v : Tid} {op : Op} {rest : List Op}

theorem todo_of_ne (h : Executed system s s' t op rest) (hu : u ≠ t) : s'.todo u = s.todo u := by
  rw [h.todo, Function.update_of_ne hu]

theorem busy_of_executed (h : Executed system s s' t op rest) (hb : Busy s' u) : Busy s u := by
  by_cases hu : u = t
  · subst hu
    unfold Busy at *
    rw [h.todo, Function.update_self] at hb
    rw [h.next, List.any_cons, hb, Bool.or_true]
  · unfold Busy at *
    rwa [todo_of_ne h hu] at hb

theorem ownsTable_of_ne (h : Executed system s s' t op rest) (hu : u ≠ t) (ho : OwnsTable s' u) :
    OwnsTable s u := by
  obtain ⟨l, hl, hown⟩ := ho
  exact ⟨l, hl, (h.owns_of_ne hu l).mp hown⟩

theorem queues_of_ne {l : Lock} (h : Executed system s s' t op rest) (hu : u ≠ t)
    (hq : Queues s' u l) : Queues s u l := by
  obtain ⟨rest', hq⟩ := hq
  exact ⟨rest', by rwa [todo_of_ne h hu] at hq⟩

theorem asks_of_ne (h : Executed system s s' t op rest) (hu : u ≠ t) (ha : Asks s' u v) :
    Asks s u v := by
  obtain ⟨o, rest', ho, hv, hw⟩ := ha
  rw [todo_of_ne h hu] at ho
  refine ⟨o, rest', ho, hv, fun c hc => ?_⟩
  rcases h.waiters c u (hw c hc) with hin | ⟨hut, -⟩
  · exact hin
  · exact absurd hut hu

theorem rank_lt_of_isTable {l : Lock} (h : isTable l = true) : rank l < 3 := by
  cases l <;> first | decide | cases h

theorem holdsAfter_of_owner {l : Lock} (h : Executed system s s' t op rest) (hl : rank l < 4)
    (ho : s'.owner l = some t) : HoldsAfter s t op l := by
  rcases (h.owns l t).mp ho with ⟨-, ha⟩ | ⟨hown, hr⟩
  · cases op with
    | lock l' => exact .inl (by rw [Option.some.inj ha])
    | await c =>
      -- the mutex of a condition variable comes last in the order
      obtain rfl := Option.some.inj ha
      rw [rank_mutex] at hl
      omega
    | _ => cases ha
  · refine .inr ⟨hown, fun he => hr ?_⟩
    rw [he]
    rfl

/-- What `MayMove` says about a step of `t`, for the state it leads to. -/
theorem asks_exec (h : Executed system s s' t op rest)
    (hsafe : ∀ nxt rest', rest = nxt :: rest' → MayMove s t op nxt) (ha : Asks s' t v)
    (hb : Busy s v) :
    ¬OwnsTable s' t ∧ (s'.owner .ofrwPollthrList = some t → ¬PoolWanted s) := by
  obtain ⟨nxt, rest', hn, hv, -⟩ := ha
  rw [h.todo, Function.update_self] at hn
  obtain ⟨htable, hpool⟩ := (hsafe nxt rest' hn).ask v hv hb
  constructor
  · rintro ⟨l, hl, hown⟩
    have hrank := rank_lt_of_isTable hl
    exact htable l hl (holdsAfter_of_owner h (by omega) hown)
  · intro hown
    exact hpool (holdsAfter_of_owner h (by decide) hown)

end

/-! ## The invariant is kept -/

theorem owns_nothing {s : Sys} {t : Tid} (h : Tracked system ordered s) (ht : s.todo t = [])
    (l : Lock) : s.owner l ≠ some t := by
  intro hown
  obtain ⟨H, hH⟩ := h t
  have htr := hH.tracks
  rw [ht] at htr
  obtain rfl := Option.some.inj htr
  have hmem := (hH.mem l).mpr hown
  cases hmem

theorem urgent_exec {s s' : Sys} {t u : Tid} {op : Op} {rest : List Op}
    (h : Executed system s s' t op rest)
    (hsafe : ∀ nxt rest', rest = nxt :: rest' → MayMove s t op nxt)
    (hinv : ∀ u, Urgent s u → ¬Busy s u) (hu : Urgent s' u) : ¬Busy s' u := by
  intro hbusy
  have hb := busy_of_executed h hbusy
  obtain ⟨w, ha, hw⟩ := hu
  by_cases hwt : w = t
  · subst hwt
    obtain ⟨htable, hpool⟩ := asks_exec h hsafe ha hb
    rcases hw with ho | ⟨hown, x, hx, hq⟩
    · exact htable ho
    · -- whoever wants the pool is not the thread that asks
      have hxw : x ≠ w := by
        rintro rfl
        obtain ⟨o, r, ho, hv, -⟩ := ha
        obtain ⟨r', hq⟩ := hq
        rw [ho] at hq
        obtain ⟨rfl, -⟩ := List.cons.inj hq
        cases hv
      exact hpool hown ⟨x, ownsTable_of_ne h hxw hx, queues_of_ne h hxw hq⟩
  · have ha' := asks_of_ne h hwt ha
    rcases hw with ho | ⟨hown, x, hx, hq⟩
    · exact hinv u ⟨w, ha', .inl (ownsTable_of_ne h hwt ho)⟩ hb
    · have hown' := (h.owns_of_ne hwt _).mp hown
      by_cases hxt : x = t
      · subst hxt
        obtain ⟨l, hl, hol⟩ := hx
        obtain ⟨rest', hq⟩ := hq
        rw [h.todo, Function.update_self] at hq
        have hrank := rank_lt_of_isTable hl
        have hheld := holdsAfter_of_owner h (by omega) hol
        exact (hsafe _ rest' hq).close rfl l hl hheld w u hown' ha' hb
      · have hwant : PoolWanted s := ⟨x, ownsTable_of_ne h hxt hx, queues_of_ne h hxt hq⟩
        exact hinv u ⟨w, ha', .inr ⟨hown', hwant⟩⟩ hb

theorem uncrossed_exec {s s' : Sys} {x : Tid} {op : Op} {rest : List Op}
    (h : Executed system s s' x op rest)
    (hsafe : ∀ nxt rest', rest = nxt :: rest' → MayMove s x op nxt)
    (hinv : ∀ t u, s.owner .ofrwHtbl = some t → Queues s t .ofchannelHtbl →
      s.owner .ofchannelHtbl = some u → ¬Queues s u .ofrwHtbl)
    (t u : Tid) (ho : s'.owner .ofrwHtbl = some t) (hq : Queues s' t .ofchannelHtbl)
    (ho' : s'.owner .ofchannelHtbl = some u) : ¬Queues s' u .ofrwHtbl := by
  intro hq'
  have htu : t ≠ u := by
    rintro rfl
    obtain ⟨r, hr⟩ := hq
    obtain ⟨r', hr'⟩ := hq'
    rw [hr] at hr'
    cases hr'
  by_cases ht : t = x
  · subst ht
    obtain ⟨r, hr⟩ := hq
    rw [h.todo, Function.update_self] at hr
    have hheld := holdsAfter_of_owner h (by decide) ho
    have hown := (h.owns_of_ne htu.symm _).mp ho'
    exact (hsafe _ r hr).channel rfl hheld u hown (queues_of_ne h htu.symm hq')
  · have hown := (h.owns_of_ne ht _).mp ho
    have hqs := queues_of_ne h ht hq
    by_cases hu : u = x
    · subst hu
      obtain ⟨r, hr⟩ := hq'
      rw [h.todo, Function.update_self] at hr
      have hheld := holdsAfter_of_owner h (by decide) ho'
      exact (hsafe _ r hr).rw rfl hheld t hown hqs
    · exact hinv t u hown hqs ((h.owns_of_ne hu _).mp ho') (queues_of_ne h hu hq')

theorem untangled_exec {s s' : Sys} {t : Tid} {pick : Option Tid} (h : Untangled s)
    (hsafe : Safe s (.exec t pick)) (hs : step system s (.exec t pick) = some s') :
    Untangled s' := by
  obtain ⟨op, rest, hex⟩ := exec_spec hs
  have hmove : ∀ nxt rest', rest = nxt :: rest' → MayMove s t op nxt := by
    intro nxt rest' hr
    exact hsafe op nxt rest' (by rw [hex.next, hr])
  refine ⟨tracked_step h.tracked (fun _ _ ha => by cases ha) hs, fun u => ?_,
    fun u => urgent_exec hex hmove h.urgent, uncrossed_exec hex hmove h.uncrossed⟩
  have hall := h.servable u
  by_cases hu : u = t
  · subst hu
    rw [hex.next, List.all_cons] at hall
    rw [hex.todo, Function.update_self]
    exact (Bool.and_eq_true_iff.mp hall).2
  · rwa [todo_of_ne hex hu]

theorem untangled_start {s s' : Sys} {t : Tid} {j : Job} (h : Untangled s)
    (hsafe : Safe s (.start t j)) (hs : step system s (.start t j) = some s') :
    Untangled s' := by
  have hst := start_spec hs
  have hidle := owns_nothing h.tracked hst.free
  -- `t` owns nothing, so in everything about owners only the other threads count
  have htodo : ∀ {u}, u ≠ t → s'.todo u = s.todo u := by
    intro u hu
    rw [hst.todo, Function.update_of_ne hu]
  have hother : ∀ {l u}, s'.owner l = some u → s.owner l = some u ∧ u ≠ t := by
    intro l u ho
    rw [hst.owner] at ho
    refine ⟨ho, fun hu => hidle l ?_⟩
    rw [← hu]
    exact ho
  have htable : ∀ {u}, OwnsTable s' u → OwnsTable s u ∧ u ≠ t := by
    rintro u ⟨l, hl, ho⟩
    exact ⟨⟨l, hl, (hother ho).1⟩, (hother ho).2⟩
  have hqueues : ∀ {u l}, u ≠ t → Queues s' u l → Queues s u l := by
    rintro u l hu ⟨rest, hq⟩
    exact ⟨rest, by rwa [htodo hu] at hq⟩
  refine ⟨?_, ?_, ?_, ?_⟩
  · refine tracked_step h.tracked (fun t' j' ha => ?_) hs
    obtain ⟨rfl, rfl⟩ := Label.start.inj ha
    exact keeps_ops hsafe.1
  · intro u
    by_cases hu : u = t
    · subst hu
      rw [hst.todo, Function.update_self]
      exact servable_ops hst.runs hsafe.1
    · rw [htodo hu]
      exact h.servable u
  · rintro u ⟨w, ha, hw⟩ hb
    have hurgent : Urgent s u := by
      have hwt : w ≠ t := by
        rcases hw with ho | ⟨ho, -⟩
        · exact (htable ho).2
        · exact (hother ho).2
      obtain ⟨o, r, ho, hv, hin⟩ := ha
      rw [htodo hwt] at ho
      rw [hst.waiters] at hin
      refine ⟨w, ⟨o, r, ho, hv, hin⟩, ?_⟩
      rcases hw with hown | ⟨hown, x, hx, hq⟩
      · exact .inl (htable hown).1
      · exact .inr ⟨(hother hown).1, x, (htable hx).1, hqueues (htable hx).2 hq⟩
    by_cases hu : u = t
    · subst hu
      unfold Busy at hb
      rw [hst.todo, Function.update_self] at hb
      exact Bool.false_ne_true ((hsafe.2 hurgent).symm.trans hb)
    · unfold Busy at hb
      rw [htodo hu] at hb
      exact h.urgent u hurgent hb
  · intro x y ho hq ho' hq'
    exact h.uncrossed x y (hother ho).1 (hqueues (hother ho).2 hq) (hother ho').1
      (hqueues (hother ho').2 hq')

theorem untangled_step {s s' : Sys} {a : Label Tid Job} (h : Untangled s) (hsafe : Safe s a)
    (hs : step system s a = some s') : Untangled s' := by
  cases a with
  | start t j => exact untangled_start h hsafe hs
  | exec t pick => exact untangled_exec h hsafe hs

theorem untangled_idle : Untangled idle := by
  refine ⟨tracked_idle system ordered, fun _ => rfl, ?_, ?_⟩
  · rintro t - hb
    cases hb
  · intro t u ho
    cases ho

/-! ## A rank that grows along every wait -/

open Classical in
/-- The level of a thread that waits for `u`. -/
noncomputable def waitLevel (s : Sys) (t u : Tid) : Nat :=
  if OwnsTable s t then 9
  else if s.owner .ofrwPollthrList = some t then (if PoolWanted s then 9 else 3)
  else if u = .poll .listen then 0 else 1

open Classical in
/-- The level of a thread that is about to take a lock. -/
noncomputable def lockLevel (s : Sys) (t : Tid) : Lock → Nat
  | .ofdevHtbl => 4
  | .ofchannelHtbl => if s.owner .ofrwHtbl = some t then 7 else 5
  | .ofrwHtbl => 6
  | .ofrwPollthrList => if OwnsTable s t then 8 else 2
  | .addDelPipeCv _ => 10
  | .adpThrInitCv _ => 10

/-- The level of a thread, by what it does next. A thread that is blocked waits for a thread
of a higher level. -/
noncomputable def level (s : Sys) (t : Tid) : Nat :=
  match s.todo t with
  | .lock l :: _ => lockLevel s t l
  | .await c :: _ => if t ∈ s.waiters c then waitLevel s t (system.server c) else 10
  | .join u :: _ => waitLevel s t u
  | _ => 11

open Classical in
/-- How low the owner of a lock can be. -/
noncomputable def floor (s : Sys) (t : Tid) : Lock → Nat
  | .ofdevHtbl => 5
  | .ofchannelHtbl => if Queues s t .ofrwHtbl then 6 else 8
  | .ofrwHtbl => 7
  | .ofrwPollthrList => if PoolWanted s then 9 else 3
  | .addDelPipeCv _ => 11
  | .adpThrInitCv _ => 11

theorem lock_order {s : Sys} {t : Tid} {l l' : Lock} {rest : List Op}
    (h : Tracked system ordered s) (hn : s.todo t = .lock l :: rest)
    (ho : s.owner l' = some t) : rank l' < rank l ∨ (l = .ofchannelHtbl ∧ l' = .ofrwHtbl) := by
  obtain ⟨H, hH⟩ := h t
  obtain ⟨hok, -⟩ := hH.next hn
  have hmem := (hH.mem l').mpr ho
  simp only [ordered, Bool.or_eq_true, List.all_eq_true, decide_eq_true_eq,
    Bool.and_eq_true] at hok
  rcases hok with hlt | ⟨hl, rfl⟩
  · exact .inl (hlt l' hmem)
  · exact .inr ⟨hl, List.mem_singleton.mp hmem⟩

/-- What a thread that waits for `u` holds. -/
structure MayAwait (s : Sys) (t u : Tid) : Prop where
  below : ∀ l, s.owner l = some t → rank l < 4
  poll : ∃ m, u = .poll m
  listen : u = .poll .listen → s.owner .ofrwPollthrList ≠ some t

theorem mayAwait_of_next {s : Sys} {t u : Tid} {op : Op} {rest : List Op}
    (h : Tracked system ordered s) (hn : s.todo t = op :: rest)
    (hop : ∀ H, ordered H op = mayWait H u) : MayAwait s t u := by
  obtain ⟨H, hH⟩ := h t
  obtain ⟨hok, -⟩ := hH.next hn
  rw [hop] at hok
  obtain ⟨hlt, htarget⟩ := Bool.and_eq_true_iff.mp hok
  refine ⟨fun l ho => ?_, ?_, ?_⟩
  · have hl := List.all_eq_true.mp hlt l ((hH.mem l).mpr ho)
    simpa using hl
  · cases u with
    | app n => cases htarget
    | poll m => exact ⟨m, rfl⟩
  · rintro rfl ho
    have hmem := (hH.mem _).mpr ho
    simp [hmem] at htarget

theorem floor_le_nine (s : Sys) (t : Tid) {l : Lock} (hl : rank l < 4) : floor s t l ≤ 9 := by
  cases l with
  | ofdevHtbl => simp [floor]
  | ofchannelHtbl => simp only [floor]; split <;> omega
  | ofrwHtbl => simp [floor]
  | ofrwPollthrList => simp only [floor]; split <;> omega
  | addDelPipeCv m => simp [rank] at hl
  | adpThrInitCv m => simp [rank] at hl

theorem floor_le_waitLevel {s : Sys} {t u : Tid} {l : Lock} (hm : MayAwait s t u)
    (ho : s.owner l = some t) : floor s t l ≤ waitLevel s t u := by
  have hrank := hm.below l ho
  unfold waitLevel
  by_cases htable : OwnsTable s t
  · rw [if_pos htable]
    exact floor_le_nine s t hrank
  · have hl : l = .ofrwPollthrList := by
      cases l with
      | ofrwPollthrList => rfl
      | addDelPipeCv m => simp [rank] at hrank
      | adpThrInitCv m => simp [rank] at hrank
      | _ => exact absurd ⟨_, rfl, ho⟩ htable
    subst hl
    rw [if_neg htable, if_pos ho]
    simp only [floor]
    split <;> omega

theorem floor_le_lockLevel {s : Sys} {t : Tid} {l l' : Lock} {rest : List Op}
    (h : Tracked system ordered s) (hn : s.todo t = .lock l' :: rest)
    (ho : s.owner l = some t) : floor s t l ≤ lockLevel s t l' := by
  rcases lock_order h hn ho with hlt | ⟨rfl, rfl⟩
  · cases l' with
    | ofdevHtbl => simp [rank] at hlt
    | ofchannelHtbl =>
      have hl : l = .ofdevHtbl := by cases l <;> first | rfl | simp [rank] at hlt
      subst hl
      simp only [floor, lockLevel]
      split <;> omega
    | ofrwHtbl =>
      have hq : Queues s t .ofrwHtbl := ⟨rest, hn⟩
      cases l with
      | ofdevHtbl => simp [floor, lockLevel]
      | ofchannelHtbl => simp [floor, lockLevel, hq]
      | _ => simp [rank] at hlt
    | ofrwPollthrList =>
      have htable : OwnsTable s t := by
        refine ⟨l, ?_, ho⟩
        cases l <;> first | rfl | simp [rank] at hlt
      simp only [lockLevel, if_pos htable]
      cases l with
      | ofdevHtbl => simp [floor]
      | ofchannelHtbl => simp only [floor]; split <;> omega
      | ofrwHtbl => simp [floor]
      | _ => simp [rank] at hlt
    | addDelPipeCv m => exact (floor_le_nine s t hlt).trans (Nat.le_succ 9)
    | adpThrInitCv m => exact (floor_le_nine s t hlt).trans (Nat.le_succ 9)
  · -- the pair that `cc_of_lib_free` takes the other way
    simp [floor, lockLevel, ho]

/-- The owner of a lock is at least as high as the lock. -/
theorem floor_le_level {s : Sys} {t : Tid} {l : Lock} (h : Tracked system ordered s)
    (ho : s.owner l = some t) : floor s t l ≤ level s t := by
  have hfloor : floor s t l ≤ 11 := by
    by_cases hl : rank l < 4
    · exact (floor_le_nine s t hl).trans (by omega)
    · cases l <;> first | exact absurd (by decide) hl | exact le_refl 11
  unfold level
  cases hn : s.todo t with
  | nil => exact hfloor
  | cons op rest =>
    cases op with
    | lock l' => exact floor_le_lockLevel h hn ho
    | await c =>
      have hm : MayAwait s t (system.server c) := mayAwait_of_next h hn fun _ => rfl
      dsimp only
      split
      · exact floor_le_waitLevel hm ho
      · exact (floor_le_nine s t (hm.below l ho)).trans (Nat.le_succ 9)
    | join u =>
      have hm : MayAwait s t u := mayAwait_of_next h hn fun _ => rfl
      exact floor_le_waitLevel hm ho
    | _ => exact hfloor

theorem level_of_not_busy {s : Sys} {t : Tid} (h : ¬Busy s t) : 10 ≤ level s t := by
  unfold Busy at h
  unfold level
  cases hn : s.todo t with
  | nil => exact Nat.le_succ 10
  | cons op rest =>
    rw [hn] at h
    cases op with
    | lock l => cases l <;> first | exact le_refl 10 | exact absurd rfl h
    | await c => exact absurd rfl h
    | join u => exact absurd rfl h
    | _ => exact Nat.le_succ 10

theorem level_rw {s : Sys} {n : Nat} (h : (s.todo (.poll (.rw n))).all
    (servable (.poll (.rw n))) = true) : 4 ≤ level s (.poll (.rw n)) := by
  unfold level
  cases hn : s.todo (.poll (.rw n)) with
  | nil => simp
  | cons op rest =>
    rw [hn, List.all_cons] at h
    have hop := (Bool.and_eq_true_iff.mp h).1
    cases op with
    | lock l =>
      cases l with
      | ofrwPollthrList => cases hop
      | ofchannelHtbl => simp only [lockLevel]; split <;> omega
      | _ => simp [lockLevel]
    | await c => cases hop
    | join u => cases hop
    | _ => simp

theorem level_listen {s : Sys} (h : (s.todo (.poll .listen)).all
    (servable (.poll .listen)) = true) : 1 ≤ level s (.poll .listen) := by
  unfold level
  cases hn : s.todo (.poll .listen) with
  | nil => simp
  | cons op rest =>
    rw [hn, List.all_cons] at h
    have hop := (Bool.and_eq_true_iff.mp h).1
    cases op with
    | lock l => cases l <;> simp only [lockLevel] <;> first | omega | split <;> omega
    | await c =>
      have hne : system.server c ≠ .poll .listen := by simpa [servable] using hop
      dsimp only
      unfold waitLevel
      rw [if_neg hne]
      split
      · split <;> (try split) <;> (try split) <;> omega
      · omega
    | join u => cases hop
    | _ => simp

theorem asks_of_await {s : Sys} {t : Tid} {c : Cond} {rest : List Op}
    (hn : s.todo t = .await c :: rest) (hin : t ∈ s.waiters c) : Asks s t (system.server c) := by
  refine ⟨_, rest, hn, rfl, fun d hd => ?_⟩
  obtain rfl := Op.await.inj hd
  exact hin

theorem waitLevel_lt {s : Sys} {t u : Tid} (h : Untangled s) (ha : Asks s t u)
    (hm : MayAwait s t u) : waitLevel s t u < level s u := by
  unfold waitLevel
  by_cases htable : OwnsTable s t
  · rw [if_pos htable]
    exact level_of_not_busy (h.urgent u ⟨t, ha, .inl htable⟩)
  rw [if_neg htable]
  obtain ⟨m, rfl⟩ := hm.poll
  by_cases hpool : s.owner .ofrwPollthrList = some t
  · rw [if_pos hpool]
    by_cases hwant : PoolWanted s
    · rw [if_pos hwant]
      exact level_of_not_busy (h.urgent _ ⟨t, ha, .inr ⟨hpool, hwant⟩⟩)
    · rw [if_neg hwant]
      cases m with
      | listen => exact absurd hpool (hm.listen rfl)
      | rw n => exact level_rw (h.servable _)
  · rw [if_neg hpool]
    cases m with
    | listen => exact level_listen (h.servable _)
    | rw n =>
      have hlevel := level_rw (h.servable (.poll (.rw n)))
      rw [if_neg (by simp)]
      omega

theorem level_lt {s : Sys} {t u : Tid} (h : Untangled s) (hw : WaitsFor system s t u) :
    level s t < level s u := by
  unfold WaitsFor at hw
  split at hw
  · rename_i l rest hn
    have hfloor := floor_le_level h.tracked hw
    have hlevel : level s t = lockLevel s t l := by rw [level, hn]
    refine lt_of_lt_of_le ?_ hfloor
    rw [hlevel]
    cases l with
    | ofdevHtbl => simp [lockLevel, floor]
    | ofchannelHtbl =>
      by_cases ho : s.owner .ofrwHtbl = some t
      · have hq : ¬Queues s u .ofrwHtbl := h.uncrossed t u ho ⟨rest, hn⟩ hw
        simp [lockLevel, floor, ho, hq]
      · simp only [lockLevel, floor, if_neg ho]
        split <;> omega
    | ofrwHtbl => simp [lockLevel, floor]
    | ofrwPollthrList =>
      by_cases htable : OwnsTable s t
      · have hwant : PoolWanted s := ⟨t, htable, rest, hn⟩
        simp [lockLevel, floor, htable, hwant]
      · simp only [lockLevel, floor, if_neg htable]
        split <;> omega
    | addDelPipeCv m => simp [lockLevel, floor]
    | adpThrInitCv m => simp [lockLevel, floor]
  · rename_i c rest hn
    rcases hw with ⟨hin, rfl⟩ | ⟨hout, hown⟩
    · have hm : MayAwait s t (system.server c) := mayAwait_of_next h.tracked hn fun _ => rfl
      rw [level, hn]
      dsimp only
      rw [if_pos hin]
      exact waitLevel_lt h (asks_of_await hn hin) hm
    · have hfloor := floor_le_level h.tracked hown
      have hlevel : level s t = 10 := by rw [level, hn]; exact if_neg hout
      have heleven : floor s u (system.mutex c) = 11 := by cases c <;> rfl
      omega
  · rename_i v rest hn
    obtain ⟨-, rfl⟩ := hw
    have hm : MayAwait s t u := mayAwait_of_next h.tracked hn fun _ => rfl
    have hask : Asks s t u := ⟨_, rest, hn, rfl, fun d hd => by cases hd⟩
    rw [level, hn]
    exact waitLevel_lt h hask hm
  · cases hw

theorem deadlockFree_of_untangled {s : Sys} (h : Untangled s) : DeadlockFree s := by
  refine ⟨noCycle_of_rank (level s) fun t u => level_lt h, ?_⟩
  intro t c rest hn hin htable l rest' hl hserver
  refine h.urgent _ ⟨t, asks_of_await hn hin, .inl htable⟩ ?_
  unfold Busy
  rw [hserver, List.any_cons]
  cases l <;> first | rfl | cases hl

/-- Any number of threads and channels, in any order of steps that brings none of the three
kinds of tangle about. -/
theorem deadlock_free_of_safe (acts : List (Label Tid Job))
    (hg : Guarded (step system) Safe idle acts) :
    Always (step system) DeadlockFree idle acts := by
  have hall : Always (step system) Untangled idle acts :=
    always_of_guarded (fun s a s' h hsafe hs => untangled_step h hsafe hs) untangled_idle hg
  exact hall.mono fun s => deadlockFree_of_untangled

theorem safe_of_next {s : Sys} {t : Tid} {pick : Option Tid} {op nxt : Op} {rest : List Op}
    (hn : s.todo t = op :: nxt :: rest) (hm : MayMove s t op nxt) : Safe s (.exec t pick) := by
  intro op' nxt' rest' hn'
  rw [hn] at hn'
  cases hn'
  exact hm

/-- Only some operations are ones a thread may have to hold back from. -/
theorem mayMove_plain {s : Sys} {t : Tid} {op nxt : Op} (ha : awaited nxt = none)
    (hl : ∀ l, nxt = .lock l → rank l = 4) : MayMove s t op nxt := by
  refine ⟨fun u hu => ?_, fun h => ?_, fun h => ?_, fun h => ?_⟩
  · rw [ha] at hu
    cases hu
  · cases hl _ h
  · cases hl _ h
  · cases hl _ h

theorem mayMove_lock {s : Sys} {t : Tid} {op : Op} {l : Lock}
    (hpool : s.owner .ofrwPollthrList = none) (hrw : s.owner .ofrwHtbl = none)
    (hop : op ≠ .lock .ofrwHtbl) : MayMove s t op (.lock l) := by
  refine ⟨fun u hu => ?_, fun _ l _ _ u v ho => ?_, fun _ hh => ?_, fun _ _ u ho => ?_⟩
  · cases hu
  · rw [hpool] at ho
    cases ho
  · rcases hh with h | ⟨ho, -⟩
    · exact absurd h hop
    · rw [hrw] at ho
      cases ho
  · rw [hrw] at ho
    cases ho

theorem mayMove_ask {s : Sys} {t u : Tid} {op nxt : Op} (ha : awaited nxt = some u)
    (hu : s.todo u = []) : MayMove s t op nxt := by
  refine ⟨fun v hv hb => ?_, fun h => ?_, fun h => ?_, fun h => ?_⟩
  · rw [ha] at hv
    obtain rfl := Option.some.inj hv
    unfold Busy at hb
    rw [hu] at hb
    cases hb
  · rw [h] at ha
    cases ha
  · rw [h] at ha
    cases ha
  · rw [h] at ha
    cases ha

/-- A channel is destroyed, and its poll thread is free to acknowledge. -/
theorem deadlock_free_of_safe_at_destroy :
    Always (step system) DeadlockFree idle
      ([.start (.app 0) (.api (.ccOfDestroyChannel (.close ⟨some 0, true⟩)))] ++
        List.replicate 6 (.exec (.app 0) none) ++
        [.start (.poll (.rw 0)) (.priPipe (.rw 0)), .exec (.poll (.rw 0)) none,
          .exec (.poll (.rw 0)) (some (.app 0)), .exec (.poll (.rw 0)) none,
          .exec (.app 0) none]) := by
  apply deadlock_free_of_safe
  refine guarded_cons.mpr fun _ ht => ⟨⟨rfl, fun ⟨_, ⟨_, _, h, _⟩, _⟩ => by cases h⟩, ?_⟩
  obtain rfl := Option.some.inj ht
  refine guarded_cons.mpr fun _ ht => ⟨safe_of_next rfl (mayMove_lock rfl rfl nofun), ?_⟩
  obtain rfl := Option.some.inj ht
  refine guarded_cons.mpr fun _ ht => ⟨safe_of_next rfl (mayMove_lock rfl rfl nofun), ?_⟩
  obtain rfl := Option.some.inj ht
  refine guarded_cons.mpr fun _ ht => ⟨safe_of_next rfl (mayMove_plain rfl ?_), ?_⟩
  · rintro l ⟨⟩
    rfl
  obtain rfl := Option.some.inj ht
  refine guarded_cons.mpr fun _ ht => ⟨safe_of_next rfl (mayMove_plain rfl nofun), ?_⟩
  obtain rfl := Option.some.inj ht
  -- the request, while the poll thread has nothing to do
  refine guarded_cons.mpr fun _ ht => ⟨safe_of_next rfl (mayMove_ask rfl rfl), ?_⟩
  obtain rfl := Option.some.inj ht
  refine guarded_cons.mpr fun _ ht => ⟨safe_of_next rfl (mayMove_ask rfl rfl), ?_⟩
  obtain rfl := Option.some.inj ht
  refine guarded_cons.mpr fun _ ht => ⟨⟨rfl, fun _ => rfl⟩, ?_⟩
  obtain rfl := Option.some.inj ht
  refine guarded_cons.mpr fun _ ht => ⟨safe_of_next rfl (mayMove_plain rfl nofun), ?_⟩
  obtain rfl := Option.some.inj ht
  refine guarded_cons.mpr fun _ ht => ⟨safe_of_next rfl (mayMove_plain rfl nofun), ?_⟩
  obtain rfl := Option.some.inj ht
  refine guarded_cons.mpr fun _ ht => ⟨nofun, ?_⟩
  obtain rfl := Option.some.inj ht
  exact guarded_cons.mpr fun _ _ => ⟨safe_of_next rfl (mayMove_plain rfl nofun), guarded_nil⟩

/-- A channel is destroyed while a poll thread has a packet of it to deliver. -/
theorem destroy_meets_pollin :
    ∃ s, run (step system) idle
        ([.start (.poll (.rw 0)) (.tcpfdPollin .delivered []),
          .start (.app 0) (.api (.ccOfDestroyChannel (.close ⟨some 0, true⟩)))] ++
          List.replicate 6 (.exec (.app 0) none)) = some s ∧
      ¬DeadlockFree s := by
  refine ⟨_, rfl, fun h => h.noCycle (.app 0) ?_⟩
  -- the call waits for the acknowledgement, the thread for `ofdev_htbl_lock`
  refine Relation.TransGen.tail (b := .poll (.rw 0)) (.single ?_) ?_
  · exact Or.inl ⟨List.mem_singleton.mpr rfl, rfl⟩
  · exact (rfl : (_ : Option Tid) = _)

end OfConnect.Locks.Deadlock
