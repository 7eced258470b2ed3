import OfConnect.Pool.Sorted

/-!
# The life of a manager

A manager is created by `adp_thr_mgr_new`, stopped by `adp_thr_mgr_free`, which joins its
thread, and released by `free`. `cc_of_lib_free` stops and releases the managers of the
pool. `cc_del_sockfd_rw_pollthr_lockfree` takes the manager out of the pool and releases it
before it inserts the same pointer again, which it does exactly if the pool has more than
one manager.
-/

namespace OfConnect.Pool.Lifecycle

open OfConnect.Lib.Run OfConnect.Lib.Tables OfConnect.PollThr.Thread
open OfConnect.Core.State OfConnect.Core.Api OfConnect.Core.Effects
open OfConnect.Pool.Moves OfConnect.Pool.Sorted

/-- `adp_thr_mgr_free` has joined the thread, and the object was passed to `free`. -/
structure Life where
  stopped : Bool
  released : Bool
  deriving DecidableEq, Repr

def Life.created : Life := ⟨false, false⟩

structure Sys where
  g : Global
  life : MgrId → Life
  libFreed : Bool

def start (devType : DevType) : Sys := ⟨ccOfLibInit devType, fun _ => .created, false⟩

def stop (life : MgrId → Life) (m : MgrId) : MgrId → Life :=
  Function.update life m { life m with stopped := true }

def release (life : MgrId → Life) (m : MgrId) : MgrId → Life :=
  Function.update life m { life m with released := true }

/-- The `free` on the path of a deletion. -/
def releasedByDel (g : Global) : Option MgrId → Option MgrId
  | none => none
  | some tmgr =>
    if g.ofrwPollthrList.length = 1 then none
    else if tmgr ∈ g.ofrwPollthrList then some tmgr else none

inductive Act where
  | op (op : Op)
  | libFree

def lifeAfter (s : Sys) : Op → MgrId → Life
  | .del fd =>
    match (s.g.ofrwHtbl.lookup fd).bind fun rwinfo => releasedByDel s.g rwinfo.thrMgr with
    | none => s.life
    | some m => release s.life m
  | _ => s.life

/-- `cc_of_lib_free` from the destruction of the tables on. The deletions that its walk over
the devices makes come before it, as steps of their own. -/
def libFree (s : Sys) : Sys where
  g := { s.g with ofchannelHtbl := ∅, ofrwHtbl := ∅, ofrwPollthrList := [] }
  life := s.g.ofrwPollthrList.foldl release (s.g.ofrwPollthrList.foldl stop s.life)
  libFreed := true

def step (s : Sys) : Act → Option Sys
  | .op op =>
    if s.libFreed then none
    else (Sorted.step s.g op).map fun g => { s with g := g, life := lifeAfter s op }
  | .libFree => if s.libFreed then none else some (libFree s)

/-- A manager is released by `cc_of_lib_free` alone, with its thread joined, out of the pool
and named by no entry. -/
def LifecycleOk (s : Sys) : Prop :=
  ∀ m, (s.life m).released = true →
    s.libFreed = true ∧ (s.life m).stopped = true ∧ m ∉ s.g.ofrwPollthrList ∧
      ∀ fd info, s.g.ofrwHtbl.lookup fd = some info → info.thrMgr ≠ some m

/-- A socket with a manager is deleted only while the pool has a single manager. -/
def DeletesAlone (s : Sys) : Act → Prop
  | .op (.del fd) => ∀ info m, s.g.ofrwHtbl.lookup fd = some info → info.thrMgr = some m →
      s.g.ofrwPollthrList.length = 1
  | _ => True

/-! ## Steps -/

theorem foldl_update {f : Life → Life} (l : List MgrId) (life : MgrId → Life) (m : MgrId)
    (hf : ∀ x, f (f x) = f x) :
    l.foldl (fun life m => Function.update life m (f (life m))) life m =
      if m ∈ l then f (life m) else life m := by
  induction l generalizing life with
  | nil => simp
  | cons a l ih =>
    rw [List.foldl_cons, ih]
    by_cases hma : m = a
    · subst hma
      rw [Function.update_self, hf]
      simp
    · rw [Function.update_of_ne hma]
      simp [hma]

theorem life_libFree (s : Sys) (m : MgrId) :
    (libFree s).life m = if m ∈ s.g.ofrwPollthrList then ⟨true, true⟩ else s.life m := by
  have hstop := foldl_update (f := fun x => { x with stopped := true }) s.g.ofrwPollthrList s.life m
    fun _ => rfl
  have hrel := foldl_update (f := fun x => { x with released := true }) s.g.ofrwPollthrList
    (s.g.ofrwPollthrList.foldl stop s.life) m fun _ => rfl
  show s.g.ofrwPollthrList.foldl release _ m = _
  apply hrel.trans
  by_cases hm : m ∈ s.g.ofrwPollthrList
  · rw [if_pos hm] at hstop ⊢
    rw [if_pos hm]
    show Life.mk (s.g.ofrwPollthrList.foldl stop s.life m).stopped true = _
    rw [show s.g.ofrwPollthrList.foldl stop s.life m = _ from hstop]
  · rw [if_neg hm] at hstop ⊢
    rw [if_neg hm]
    exact hstop

/-- While the library is in use no manager has been released. -/
theorem LifecycleOk.none_released {s : Sys} (h : LifecycleOk s) (hlive : s.libFreed = false)
    (m : MgrId) : (s.life m).released = false := by
  by_contra hrel
  have hfreed := (h m (by simpa using hrel)).1
  rw [hlive] at hfreed
  cases hfreed

theorem lifecycleOk_libFree {s : Sys} (h : LifecycleOk s) (hlive : s.libFreed = false) :
    LifecycleOk (libFree s) := by
  intro m hrel
  rw [life_libFree] at hrel ⊢
  split at hrel
  · rename_i hm
    rw [if_pos hm]
    refine ⟨rfl, rfl, List.not_mem_nil, fun fd info hl => ?_⟩
    cases hl
  · rw [h.none_released hlive m] at hrel
    cases hrel

/-- A deletion keeps the managers as they are exactly if the pool has one. -/
theorem releasedByDel_eq_none_iff {g : Global} {tmgr : Option MgrId}
    (hm : ∀ m, tmgr = some m → m ∈ g.ofrwPollthrList) :
    releasedByDel g tmgr = none ↔ ∀ m, tmgr = some m → g.ofrwPollthrList.length = 1 := by
  cases tmgr with
  | none => simp [releasedByDel]
  | some m =>
    have hin := hm m rfl
    simp [releasedByDel, hin]

theorem lifecycleOk_del_iff {s : Sys} (hinv : Inv s.g) (h : LifecycleOk s)
    (hlive : s.libFreed = false) {fd : Fd} {g' : Global} :
    LifecycleOk { s with g := g', life := lifeAfter s (.del fd) } ↔
      DeletesAlone s (.op (.del fd)) := by
  have hnone := h.none_released hlive
  cases hl : s.g.ofrwHtbl.lookup fd with
  | none =>
    refine iff_of_true ?_ ?_
    · intro m hrel
      simp only [lifeAfter, hl, Option.bind_none, hnone m] at hrel
      cases hrel
    · intro info m hl'
      rw [hl] at hl'
      cases hl'
  | some info =>
    have hiff := releasedByDel_eq_none_iff fun m hm => hinv.pooled fd info m hl hm
    have hok : DeletesAlone s (.op (.del fd)) ↔ releasedByDel s.g info.thrMgr = none := by
      rw [hiff]
      constructor
      · intro halone m hm
        exact halone info m hl hm
      · intro hall info' m hl' hm
        rw [hl] at hl'
        obtain rfl := Option.some.inj hl'
        exact hall m hm
    rw [hok]
    cases hr : releasedByDel s.g info.thrMgr with
    | none =>
      refine iff_of_true ?_ rfl
      intro m hrel
      simp only [lifeAfter, hl, Option.bind_some, hr, hnone m] at hrel
      cases hrel
    | some m =>
      -- the manager that was released is running
      refine iff_of_false (fun hbad => ?_) nofun
      have hrel : (lifeAfter s (.del fd) m).released = true := by
        simp only [lifeAfter, hl, Option.bind_some, hr, release, Function.update_self]
      have hfreed := (hbad m hrel).1
      rw [show s.libFreed = true from hfreed] at hlive
      cases hlive

/-- While the library is in use the pool is as its functions need it. -/
def Background (s : Sys) : Prop := s.libFreed = false → Inv s.g

theorem background_step {s s' : Sys} {a : Act} (h : Background s) (hs : step s a = some s') :
    Background s' := by
  cases a with
  | op op =>
    simp only [step] at hs
    split at hs
    · cases hs
    · rename_i hlive
      obtain ⟨g, hg, rfl⟩ := Option.map_eq_some_iff.mp hs
      exact fun _ => inv_step (h (by simpa using hlive)) hg
  | libFree =>
    simp only [step] at hs
    split at hs
    · cases hs
    · obtain rfl := Option.some.inj hs
      intro hfreed
      cases hfreed

theorem lifecycleOk_step_iff {s s' : Sys} {a : Act} (hb : Background s) (h : LifecycleOk s)
    (hs : step s a = some s') : LifecycleOk s' ↔ DeletesAlone s a := by
  cases a with
  | op op =>
    simp only [step] at hs
    split at hs
    · cases hs
    · rename_i hlive
      have hlive : s.libFreed = false := by simpa using hlive
      obtain ⟨g, -, rfl⟩ := Option.map_eq_some_iff.mp hs
      cases op with
      | devRegister key ver cb fd =>
        refine iff_of_true (fun m hrel => ?_) trivial
        have hnone := h.none_released hlive m
        rw [show (s.life m).released = true from hrel] at hnone
        cases hnone
      | add fd key proto ck block =>
        refine iff_of_true (fun m hrel => ?_) trivial
        have hnone := h.none_released hlive m
        rw [show (s.life m).released = true from hrel] at hnone
        cases hnone
      | del fd => exact lifecycleOk_del_iff (hb hlive) h hlive
  | libFree =>
    simp only [step] at hs
    split at hs
    · cases hs
    · rename_i hlive
      obtain rfl := Option.some.inj hs
      exact iff_of_true (lifecycleOk_libFree h (by simpa using hlive)) trivial

/-- Managers are released as they should be exactly if every socket with a manager is
deleted while the pool has a single one. -/
theorem lifecycle_ok_iff_deletes_alone (devType : DevType) (acts : List Act) :
    Always step LifecycleOk (start devType) acts ↔
      Guarded step DeletesAlone (start devType) acts := by
  refine always_iff_guarded_of_invariant (fun _ _ _ hb hs => background_step hb hs)
    (fun _ _ _ hb h hs => lifecycleOk_step_iff hb h hs) (fun _ => inv_libInit devType) ?_ acts
  intro m hrel
  cases hrel

/-! ## The 201st socket -/

/-- Additions and deletions run as they do without the lives of the managers. -/
theorem run_ops {ops : List Op} {s : Sys} {g' : Global} (hlive : s.libFreed = false)
    (hr : run Sorted.step s.g ops = some g') :
    ∃ s', run step s (ops.map .op) = some s' ∧ s'.g = g' ∧ s'.libFreed = false := by
  induction ops generalizing s with
  | nil =>
    obtain rfl := Option.some.inj hr
    exact ⟨s, rfl, rfl, hlive⟩
  | cons op ops ih =>
    rw [run_cons] at hr
    obtain ⟨g₁, hg₁, hr⟩ := Option.bind_eq_some_iff.mp hr
    obtain ⟨s', hs', hg'⟩ := ih (s := { s with g := g₁, life := lifeAfter s op }) hlive hr
    refine ⟨s', ?_, hg'⟩
    have hstep : step s (.op op) = some { s with g := g₁, life := lifeAfter s op } := by
      simp [step, hlive, hg₁]
    rw [List.map_cons, run_cons, hstep]
    exact hs'

/-- With 201 sockets there are two managers, and closing one of the first 200 releases the
manager that polls the other 199. -/
theorem release_of_running_manager :
    ¬Always step LifecycleOk (start .switch)
      ((openSockets 200 ++ [Op.add 300 ⟨1, 2, 6633⟩ .tcp ⟨300, 0⟩ ⟨0, 0⟩, Op.del 10]).map .op) := by
  intro hall
  obtain ⟨g, hg, hfill⟩ := filled_switch 200 (Nat.le_refl _)
  have hlen : (sockets 200).length = 200 := by simp [sockets]
  obtain ⟨g₁, hg₁, hinv, htwo, hdev, hkeep⟩ := hfill.overflow hlen 300 .tcp ⟨300, 0⟩ ⟨0, 0⟩
  have hmem : (10 : Fd) ∈ sockets 200 :=
    List.mem_map.mpr ⟨0, List.mem_range.mpr (by omega), rfl⟩
  obtain ⟨info, hl, hthr, hkey⟩ := hfill.entries 10 hmem
  have hrun : run Sorted.step (start .switch).g
      (openSockets 200 ++ [Op.add 300 ⟨1, 2, 6633⟩ .tcp ⟨300, 0⟩ ⟨0, 0⟩]) = some g₁ := by
    rw [run_append, show run Sorted.step (start .switch).g _ = _ from hg, Option.bind_some,
      run_cons, hg₁]
    rfl
  obtain ⟨s₁, hs₁, rfl, hlive⟩ := run_ops (s := start .switch) rfl hrun
  rw [List.append_cons, List.map_append] at hall
  have hok : LifecycleOk s₁ := hall _ s₁ (List.prefix_append _ _) hs₁
  have hl₁ : s₁.g.ofrwHtbl.lookup 10 = some info := by
    rw [hkeep 10 (by decide)]
    exact hl
  obtain ⟨r, hr⟩ := delSockfd_returns (fun m hm => hinv.pooled 10 info m hl₁ hm) hl₁ (hkey ▸ hdev)
  have hg₂ : Sorted.step s₁.g (.del 10) = some r.2 := by
    simp only [Sorted.step, hl₁, Option.bind_some, hr, Option.map_some]
  have hstep : step s₁ (.op (.del 10)) =
      some { s₁ with g := r.2, life := lifeAfter s₁ (.del 10) } := by
    simp [step, hlive, hg₂]
  have hlast := hall.last (by rw [run_append, hs₁, Option.bind_some, List.map_cons, run_cons, hstep]; rfl)
  have hone := (lifecycleOk_del_iff hinv hok hlive).mp hlast info 0 hl₁ hthr
  rw [htwo] at hone
  cases hone

end OfConnect.Pool.Lifecycle
