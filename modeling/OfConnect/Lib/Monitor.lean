import Mathlib.Data.List.Nodup
import Mathlib.Logic.Relation
import OfConnect.Lib.Run

/-!
# Threads with mutexes and condition variables

A thread is the list of operations it has still to perform. Mutexes are not recursive.
Waiting on a condition variable is two operations, as it is two steps for the other
threads: `sleep` releases the mutex and joins the waiters, and `await` is passed by a
thread that a `signal` has taken out of the waiters, once the mutex is free again.

A thread waits for the owner of the mutex it has to take, for the thread that will signal
the condition it sleeps on, or for the thread it joins. A rank that grows along every such
edge rules out a cycle. What a program does with its locks is followed by `check`, along
the program and so along every run.
-/

namespace OfConnect.Lib.Monitor

open OfConnect.Lib.Run

inductive Op (T L C R : Type) where
  | lock (l : L)
  | unlock (l : L)
  | post (r : R)
  | sleep (c : C)
  | await (c : C)
  | signal (c : C)
  | join (t : T)
  | exit
  | callback
  deriving DecidableEq, Repr

structure State (T L C R : Type) where
  todo : T → List (Op T L C R)
  owner : L → Option T
  waiters : C → List T
  pending : R → Nat
  exited : T → Bool

/-- `server c` is the one thread that signals `c`. A job with a `request` starts by taking
one of the pending requests of that kind. -/
structure System (T L C R J : Type) where
  mutex : C → L
  server : C → T
  runs : T → J → Bool
  request : J → Option R
  ops : J → List (Op T L C R)

inductive Label (T J : Type) where
  | start (t : T) (j : J)
  | exec (t : T) (pick : Option T)

variable {T L C R J : Type}

/-- Nothing runs, nothing is locked. -/
def idle : State T L C R where
  todo := fun _ => []
  owner := fun _ => none
  waiters := fun _ => []
  pending := fun _ => 0
  exited := fun _ => false

/-! ## Waiting -/

def WaitsFor (sys : System T L C R J) (s : State T L C R) (t u : T) : Prop :=
  match s.todo t with
  | .lock l :: _ => s.owner l = some u
  | .await c :: _ =>
    (t ∈ s.waiters c ∧ u = sys.server c) ∨ (t ∉ s.waiters c ∧ s.owner (sys.mutex c) = some u)
  | .join v :: _ => s.exited v = false ∧ u = v
  | _ => False

def NoCycle (sys : System T L C R J) (s : State T L C R) : Prop :=
  ∀ t, ¬Relation.TransGen (WaitsFor sys s) t t

theorem noCycle_of_rank {sys : System T L C R J} {s : State T L C R} (rank : T → Nat)
    (h : ∀ t u, WaitsFor sys s t u → rank t < rank u) : NoCycle sys s := by
  intro t ht
  have hlt : ∀ u, Relation.TransGen (WaitsFor sys s) t u → rank t < rank u := by
    intro u hu
    induction hu with
    | single hw => exact h t _ hw
    | tail _ hw ih => exact ih.trans (h _ _ hw)
  exact lt_irrefl _ (hlt t ht)

/-! ## Following the locks of a program -/

/-- The mutex an operation takes. -/
def acquired (sys : System T L C R J) : Op T L C R → Option L
  | .lock l => some l
  | .await c => some (sys.mutex c)
  | _ => none

/-- The mutex an operation gives back. -/
def released (sys : System T L C R J) : Op T L C R → Option L
  | .unlock l => some l
  | .sleep c => some (sys.mutex c)
  | _ => none

theorem released_of_acquired {sys : System T L C R J} {op : Op T L C R} {l : L}
    (h : acquired sys op = some l) : released sys op = none := by
  cases op with
  | lock l => rfl
  | await c => rfl
  | _ => cases h

section

variable [DecidableEq L]

/-- The locks held after `op`, last taken first. `none` if `op` takes a lock that is held,
or gives back another one than the last. -/
def held (sys : System T L C R J) (H : List L) (op : Op T L C R) : Option (List L) :=
  match acquired sys op with
  | some l => if l ∈ H then none else some (l :: H)
  | none =>
    match released sys op with
    | some l => if H.head? = some l then some H.tail else none
    | none => some H

/-- `held` for programs whose operations meet `ok` with the locks held before them. -/
def check (sys : System T L C R J) (ok : List L → Op T L C R → Bool) (H : List L)
    (op : Op T L C R) : Option (List L) :=
  if ok H op = true then held sys H op else none

/-- A program that starts from the locks `H` and ends with the locks `K`. -/
def Tracks (sys : System T L C R J) (ok : List L → Op T L C R → Bool) (H : List L)
    (ops : List (Op T L C R)) (K : List L) : Prop :=
  run (check sys ok) H ops = some K

theorem Tracks.append {sys : System T L C R J} {ok : List L → Op T L C R → Bool}
    {H K M : List L} {xs ys : List (Op T L C R)} (hx : Tracks sys ok H xs K)
    (hy : Tracks sys ok K ys M) : Tracks sys ok H (xs ++ ys) M := by
  unfold Tracks
  rw [run_append, hx]
  exact hy

theorem Tracks.flatMap {sys : System T L C R J} {ok : List L → Op T L C R → Bool}
    {α : Type} {H : List L} {f : α → List (Op T L C R)} (as : List α)
    (h : ∀ a ∈ as, Tracks sys ok H (f a) H) : Tracks sys ok H (as.flatMap f) H := by
  induction as with
  | nil => rfl
  | cons a as ih =>
    rw [List.flatMap_cons]
    exact (h a (by simp)).append (ih fun b hb => h b (by simp [hb]))

/-- The locks `t` owns, and the rest of its program from there. -/
structure Follows (sys : System T L C R J) (ok : List L → Op T L C R → Bool)
    (s : State T L C R) (t : T) (H : List L) : Prop where
  nodup : H.Nodup
  mem : ∀ l, l ∈ H ↔ s.owner l = some t
  tracks : Tracks sys ok H (s.todo t) []

def Tracked (sys : System T L C R J) (ok : List L → Op T L C R → Bool)
    (s : State T L C R) : Prop :=
  ∀ t, ∃ H, Follows sys ok s t H

theorem tracked_idle (sys : System T L C R J) (ok : List L → Op T L C R → Bool) :
    Tracked sys ok idle := by
  intro t
  exact ⟨[], List.nodup_nil, by simp [idle], rfl⟩

/-- The next operation meets `ok`, and `held` says what is owned after it. -/
theorem Follows.next {sys : System T L C R J} {ok : List L → Op T L C R → Bool}
    {s : State T L C R} {t : T} {H : List L} {op : Op T L C R} {rest : List (Op T L C R)}
    (h : Follows sys ok s t H) (hn : s.todo t = op :: rest) :
    ok H op = true ∧ ∃ K, held sys H op = some K ∧ Tracks sys ok K rest [] := by
  have ht := h.tracks
  rw [hn, Tracks, run_cons] at ht
  obtain ⟨K, hK, hrest⟩ := Option.bind_eq_some_iff.mp ht
  unfold check at hK
  split at hK
  · rename_i hok
    exact ⟨hok, K, hK, hrest⟩
  · cases hK

theorem nodup_held {sys : System T L C R J} {H K : List L} {op : Op T L C R} (hH : H.Nodup)
    (h : held sys H op = some K) : K.Nodup := by
  unfold held at h
  split at h
  · split at h
    · cases h
    · rename_i hl
      obtain rfl := Option.some.inj h
      exact List.nodup_cons.mpr ⟨hl, hH⟩
  · split at h
    · split at h
      · obtain rfl := Option.some.inj h
        exact hH.sublist (List.tail_sublist H)
      · cases h
    · obtain rfl := Option.some.inj h
      exact hH

theorem mem_held {sys : System T L C R J} {H K : List L} {op : Op T L C R} (hH : H.Nodup)
    (h : held sys H op = some K) (l : L) :
    l ∈ K ↔ acquired sys op = some l ∨ (l ∈ H ∧ released sys op ≠ some l) := by
  unfold held at h
  split at h
  · rename_i a ha
    have hr := released_of_acquired ha
    split at h
    · cases h
    · obtain rfl := Option.some.inj h
      simp [ha, hr, eq_comm]
  · rename_i ha
    split at h
    · rename_i r hr
      split at h
      · rename_i hhead
        obtain rfl := Option.some.inj h
        cases H with
        | nil => cases hhead
        | cons x xs =>
          obtain rfl := Option.some.inj hhead
          obtain ⟨hx, -⟩ := List.nodup_cons.mp hH
          simp only [List.tail_cons, ha, hr, List.mem_cons]
          constructor
          · intro hl
            exact .inr ⟨.inr hl, fun he => hx (Option.some.inj he ▸ hl)⟩
          · rintro (hl | ⟨rfl | hl, hne⟩)
            · cases hl
            · exact absurd rfl hne
            · exact hl
      · cases h
    · rename_i hr
      obtain rfl := Option.some.inj h
      simp [ha, hr]

end

/-! ## Steps -/

variable [DecidableEq T] [DecidableEq L] [DecidableEq C] [DecidableEq R]

def start (sys : System T L C R J) (s : State T L C R) (t : T) (j : J) :
    Option (State T L C R) :=
  if sys.runs t j = true ∧ s.todo t = [] ∧ s.exited t = false then
    let s' := { s with todo := Function.update s.todo t (sys.ops j) }
    match sys.request j with
    | none => some s'
    | some r =>
      if 0 < s.pending r then
        some { s' with pending := Function.update s.pending r (s.pending r - 1) }
      else none
  else none

/-- The next operation of `t`. `pick` is the waiter that a `signal` wakes. -/
def exec (sys : System T L C R J) (s : State T L C R) (t : T) (pick : Option T) :
    Option (State T L C R) :=
  match s.todo t with
  | [] => none
  | op :: rest =>
    let s' := { s with todo := Function.update s.todo t rest }
    match op with
    | .lock l =>
      if s.owner l = none then some { s' with owner := Function.update s.owner l (some t) }
      else none
    | .unlock l =>
      if s.owner l = some t then some { s' with owner := Function.update s.owner l none }
      else none
    | .post r => some { s' with pending := Function.update s.pending r (s.pending r + 1) }
    | .sleep c =>
      if s.owner (sys.mutex c) = some t then
        some { s' with
          owner := Function.update s.owner (sys.mutex c) none
          waiters := Function.update s.waiters c (t :: s.waiters c) }
      else none
    | .await c =>
      if t ∉ s.waiters c ∧ s.owner (sys.mutex c) = none then
        some { s' with owner := Function.update s.owner (sys.mutex c) (some t) }
      else none
    | .signal c =>
      match pick with
      | none => if s.waiters c = [] then some s' else none
      | some u =>
        if u ∈ s.waiters c then
          some { s' with waiters := Function.update s.waiters c ((s.waiters c).erase u) }
        else none
    | .join u => if s.exited u = true then some s' else none
    | .exit => some { s' with exited := Function.update s.exited t true }
    | .callback => some s'

def step (sys : System T L C R J) (s : State T L C R) : Label T J → Option (State T L C R)
  | .start t j => start sys s t j
  | .exec t pick => exec sys s t pick

structure Started (sys : System T L C R J) (s s' : State T L C R) (t : T) (j : J) : Prop where
  runs : sys.runs t j = true
  free : s.todo t = []
  todo : s'.todo = Function.update s.todo t (sys.ops j)
  owner : s'.owner = s.owner
  waiters : s'.waiters = s.waiters

structure Executed (sys : System T L C R J) (s s' : State T L C R) (t : T)
    (op : Op T L C R) (rest : List (Op T L C R)) : Prop where
  next : s.todo t = op :: rest
  todo : s'.todo = Function.update s.todo t rest
  /-- Only what the operation takes or gives back changes hands. -/
  owner : ∀ l, s'.owner l =
    if acquired sys op = some l then some t
    else if released sys op = some l then none else s.owner l
  free : ∀ l, acquired sys op = some l → s.owner l = none
  owned : ∀ l, released sys op = some l → s.owner l = some t
  waiters : ∀ c u, u ∈ s'.waiters c → u ∈ s.waiters c ∨ (u = t ∧ op = .sleep c)

omit [DecidableEq L] [DecidableEq C] in
theorem start_spec {sys : System T L C R J} {s s' : State T L C R} {t : T} {j : J}
    (h : start sys s t j = some s') : Started sys s s' t j := by
  unfold start at h
  split at h
  · rename_i hc
    dsimp only at h
    split at h
    · obtain rfl := Option.some.inj h
      exact ⟨hc.1, hc.2.1, rfl, rfl, rfl⟩
    · split at h
      · obtain rfl := Option.some.inj h
        exact ⟨hc.1, hc.2.1, rfl, rfl, rfl⟩
      · cases h
  · cases h

omit [DecidableEq C] [DecidableEq R] in
theorem Executed.of_acquired {sys : System T L C R J} {s s' : State T L C R} {t : T}
    {op : Op T L C R} {rest : List (Op T L C R)} {l : L} (hnext : s.todo t = op :: rest)
    (htodo : s'.todo = Function.update s.todo t rest) (ha : acquired sys op = some l)
    (hfree : s.owner l = none) (howner : s'.owner = Function.update s.owner l (some t))
    (hw : s'.waiters = s.waiters) : Executed sys s s' t op rest := by
  have hr := released_of_acquired ha
  refine ⟨hnext, htodo, fun l' => ?_, fun l' hl => ?_, fun l' hl => ?_, fun c u hu => ?_⟩
  · rw [howner, ha, hr]
    by_cases hl : l' = l
    · subst hl
      simp
    · simp [hl, Ne.symm hl]
  · rw [ha] at hl
    obtain rfl := Option.some.inj hl
    exact hfree
  · rw [hr] at hl
    cases hl
  · rw [hw] at hu
    exact .inl hu

omit [DecidableEq C] [DecidableEq R] in
theorem Executed.of_released {sys : System T L C R J} {s s' : State T L C R} {t : T}
    {op : Op T L C R} {rest : List (Op T L C R)} {l : L} (hnext : s.todo t = op :: rest)
    (htodo : s'.todo = Function.update s.todo t rest) (ha : acquired sys op = none)
    (hr : released sys op = some l) (hown : s.owner l = some t)
    (howner : s'.owner = Function.update s.owner l none)
    (hw : ∀ c u, u ∈ s'.waiters c → u ∈ s.waiters c ∨ (u = t ∧ op = .sleep c)) :
    Executed sys s s' t op rest := by
  refine ⟨hnext, htodo, fun l' => ?_, fun l' hl => ?_, fun l' hl => ?_, hw⟩
  · rw [howner, ha, hr]
    by_cases hl : l' = l
    · subst hl
      simp
    · simp [hl, Ne.symm hl]
  · rw [ha] at hl
    cases hl
  · rw [hr] at hl
    obtain rfl := Option.some.inj hl
    exact hown

/-- A condition variable's mutex changes hands as any other lock does. -/
theorem exec_spec {sys : System T L C R J} {s s' : State T L C R} {t : T} {pick : Option T}
    (h : exec sys s t pick = some s') : ∃ op rest, Executed sys s s' t op rest := by
  unfold exec at h
  split at h
  · cases h
  · rename_i op rest hnext
    refine ⟨op, rest, ?_⟩
    cases op with
    | lock l =>
      dsimp only at h
      split at h
      · rename_i hfree
        obtain rfl := Option.some.inj h
        exact .of_acquired hnext rfl rfl hfree rfl rfl
      · cases h
    | unlock l =>
      dsimp only at h
      split at h
      · rename_i hown
        obtain rfl := Option.some.inj h
        exact .of_released hnext rfl rfl rfl hown rfl fun c u hu => .inl hu
      · cases h
    | sleep c =>
      dsimp only at h
      split at h
      · rename_i hown
        obtain rfl := Option.some.inj h
        refine .of_released hnext rfl rfl rfl hown rfl fun d u hu => ?_
        dsimp only at hu
        by_cases hd : d = c
        · subst hd
          rw [Function.update_self, List.mem_cons] at hu
          rcases hu with rfl | hu
          · exact .inr ⟨rfl, rfl⟩
          · exact .inl hu
        · rw [Function.update_of_ne hd] at hu
          exact .inl hu
      · cases h
    | await c =>
      dsimp only at h
      split at h
      · rename_i hc
        obtain rfl := Option.some.inj h
        exact .of_acquired hnext rfl rfl hc.2 rfl rfl
      · cases h
    | signal c =>
      cases pick with
      | none =>
        dsimp only at h
        split at h
        · obtain rfl := Option.some.inj h
          exact ⟨hnext, rfl, fun _ => rfl, nofun, nofun, fun c u hu => .inl hu⟩
        · cases h
      | some v =>
        dsimp only at h
        split at h
        · obtain rfl := Option.some.inj h
          refine ⟨hnext, rfl, fun _ => rfl, nofun, nofun, fun d u hu => .inl ?_⟩
          dsimp only at hu
          by_cases hd : d = c
          · subst hd
            rw [Function.update_self] at hu
            exact List.mem_of_mem_erase hu
          · rwa [Function.update_of_ne hd] at hu
        · cases h
    | join u =>
      dsimp only at h
      split at h
      · obtain rfl := Option.some.inj h
        exact ⟨hnext, rfl, fun _ => rfl, nofun, nofun, fun c u hu => .inl hu⟩
      · cases h
    | post r =>
      obtain rfl := Option.some.inj h
      exact ⟨hnext, rfl, fun _ => rfl, nofun, nofun, fun c u hu => .inl hu⟩
    | exit =>
      obtain rfl := Option.some.inj h
      exact ⟨hnext, rfl, fun _ => rfl, nofun, nofun, fun c u hu => .inl hu⟩
    | callback =>
      obtain rfl := Option.some.inj h
      exact ⟨hnext, rfl, fun _ => rfl, nofun, nofun, fun c u hu => .inl hu⟩

omit [DecidableEq C] [DecidableEq R] in
/-- What `u` owns after `t` has performed `op`. -/
theorem Executed.owns {sys : System T L C R J} {s s' : State T L C R} {t : T}
    {op : Op T L C R} {rest : List (Op T L C R)} (h : Executed sys s s' t op rest) (l : L) (u : T) :
    s'.owner l = some u ↔
      (u = t ∧ acquired sys op = some l) ∨ (s.owner l = some u ∧ released sys op ≠ some l) := by
  rw [h.owner]
  by_cases ha : acquired sys op = some l
  · rw [if_pos ha, h.free l ha]
    simp [ha, eq_comm]
  · rw [if_neg ha]
    by_cases hr : released sys op = some l <;> simp [ha, hr]

omit [DecidableEq C] [DecidableEq R] in
theorem Executed.owns_of_ne {sys : System T L C R J} {s s' : State T L C R} {t u : T}
    {op : Op T L C R} {rest : List (Op T L C R)} (h : Executed sys s s' t op rest) (hu : u ≠ t)
    (l : L) : s'.owner l = some u ↔ s.owner l = some u := by
  rw [h.owns]
  constructor
  · rintro (⟨rfl, -⟩ | ⟨ho, -⟩)
    · exact absurd rfl hu
    · exact ho
  · intro ho
    refine .inr ⟨ho, fun hr => hu ?_⟩
    exact Option.some.inj (ho.symm.trans (h.owned l hr))

/-- Every thread keeps to its program, if the jobs it starts track from no lock to none. -/
theorem tracked_step {sys : System T L C R J} {ok : List L → Op T L C R → Bool}
    {s s' : State T L C R} {a : Label T J} (h : Tracked sys ok s)
    (hjob : ∀ t j, a = .start t j → Tracks sys ok [] (sys.ops j) [])
    (hs : step sys s a = some s') : Tracked sys ok s' := by
  intro u
  obtain ⟨H, hH⟩ := h u
  cases a with
  | start t j =>
    have hst := start_spec hs
    by_cases hu : u = t
    · subst hu
      have hnil : H = [] := by
        have ht := hH.tracks
        rw [hst.free] at ht
        exact Option.some.inj ht
      refine ⟨H, hH.nodup, fun l => by rw [hst.owner]; exact hH.mem l, ?_⟩
      rw [hst.todo, Function.update_self, hnil]
      exact hjob u j rfl
    · refine ⟨H, hH.nodup, fun l => by rw [hst.owner]; exact hH.mem l, ?_⟩
      rw [hst.todo, Function.update_of_ne hu]
      exact hH.tracks
  | exec t pick =>
    obtain ⟨op, rest, hex⟩ := exec_spec hs
    by_cases hu : u = t
    · subst hu
      obtain ⟨-, K, hK, hrest⟩ := hH.next hex.next
      refine ⟨K, nodup_held hH.nodup hK, fun l => ?_, ?_⟩
      · rw [mem_held hH.nodup hK, hex.owns, hH.mem]
        simp
      · rw [hex.todo, Function.update_self]
        exact hrest
    · refine ⟨H, hH.nodup, fun l => (hH.mem l).trans (hex.owns_of_ne hu l).symm, ?_⟩
      rw [hex.todo, Function.update_of_ne hu]
      exact hH.tracks

end OfConnect.Lib.Monitor
