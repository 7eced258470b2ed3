import Mathlib.Data.List.Infix

/-!
# Runs of a partial step function

A component is a step function `σ → α → Option σ`: `none` is a label that cannot
be taken, or a step that aborts the process. A run is a list of labels. The rules
below turn what one step does into what every state along a run satisfies, and
they keep apart two readings of a run: the states it reaches (`Always`) and the
states and labels its steps start from (`Guarded`).
-/

namespace OfConnect.Lib.Run

variable {σ α : Type*} {step : σ → α → Option σ} {P Q : σ → Prop} {ok : σ → α → Prop}

/-- Take the labels in order; `none` as soon as one of them cannot be taken. -/
def run (step : σ → α → Option σ) (s : σ) (as : List α) : Option σ :=
  as.foldlM step s

@[simp] theorem run_nil (s : σ) : run step s [] = some s := rfl

theorem run_cons (s : σ) (a : α) (as : List α) :
    run step s (a :: as) = (step s a).bind fun t => run step t as := by
  simp [run, List.foldlM_cons]

theorem run_append (s : σ) (as bs : List α) :
    run step s (as ++ bs) = (run step s as).bind fun t => run step t bs := by
  simp [run, List.foldlM_append]

/-- Every state the run passes through, its first one included, satisfies `P`. -/
def Always (step : σ → α → Option σ) (P : σ → Prop) (s : σ) (as : List α) : Prop :=
  ∀ pre t, pre <+: as → run step s pre = some t → P t

/-- Every step the run takes meets `ok` in the state it is taken from. -/
def Guarded (step : σ → α → Option σ) (ok : σ → α → Prop) (s : σ) (as : List α) : Prop :=
  ∀ pre a t t', pre ++ [a] <+: as → run step s pre = some t → step t a = some t' → ok t a

theorem Always.head {s : σ} {as : List α} (h : Always step P s as) : P s :=
  h [] s (List.nil_prefix) rfl

theorem Always.last {s t : σ} {as : List α} (h : Always step P s as)
    (hr : run step s as = some t) : P t :=
  h as t (List.prefix_refl as) hr

theorem always_nil {s : σ} : Always step P s ([] : List α) ↔ P s := by
  constructor
  · exact Always.head
  · intro h pre t hpre hr
    rw [List.prefix_nil.mp hpre, run_nil] at hr
    obtain rfl := Option.some.inj hr
    exact h

theorem always_cons {s : σ} {a : α} {as : List α} :
    Always step P s (a :: as) ↔ P s ∧ ∀ t, step s a = some t → Always step P t as := by
  constructor
  · intro h
    refine ⟨h.head, fun t ht pre u hpre hr => ?_⟩
    refine h (a :: pre) u (List.cons_prefix_cons.mpr ⟨rfl, hpre⟩) ?_
    rw [run_cons, ht]
    exact hr
  · rintro ⟨hs, htail⟩ pre u hpre hr
    cases pre with
    | nil =>
      obtain rfl := Option.some.inj hr
      exact hs
    | cons b pre =>
      obtain ⟨rfl, hpre'⟩ := List.cons_prefix_cons.mp hpre
      rw [run_cons] at hr
      obtain ⟨t, ht, hr⟩ := Option.bind_eq_some_iff.mp hr
      exact htail t ht pre u hpre' hr

theorem guarded_nil {s : σ} : Guarded step ok s ([] : List α) := by
  intro pre a t t' hpre
  simp at hpre

theorem guarded_cons {s : σ} {a : α} {as : List α} :
    Guarded step ok s (a :: as) ↔ ∀ t, step s a = some t → ok s a ∧ Guarded step ok t as := by
  constructor
  · intro h t ht
    refine ⟨h [] a s t (by simp) rfl ht, fun pre b u u' hpre hr hu => ?_⟩
    refine h (a :: pre) b u u' (List.cons_prefix_cons.mpr ⟨rfl, hpre⟩) ?_ hu
    rw [run_cons, ht]
    exact hr
  · intro h pre b u u' hpre hr hu
    cases pre with
    | nil =>
      obtain ⟨rfl, -⟩ := List.cons_prefix_cons.mp hpre
      obtain rfl := Option.some.inj hr
      exact (h u' hu).1
    | cons c pre =>
      obtain ⟨rfl, hpre'⟩ := List.cons_prefix_cons.mp hpre
      rw [run_cons] at hr
      obtain ⟨t, ht, hr⟩ := Option.bind_eq_some_iff.mp hr
      exact (h t ht).2 pre b u u' hpre' hr hu

/-- On a given run the states can be checked one after the other. -/
instance decidableAlways [∀ s, Decidable (P s)] :
    (s : σ) → (as : List α) → Decidable (Always step P s as)
  | s, [] => decidable_of_iff (P s) always_nil.symm
  | s, a :: as =>
    match hs : step s a with
    | none => decidable_of_iff (P s) (by
        rw [always_cons, hs]
        exact (and_iff_left nofun).symm)
    | some t =>
      have := decidableAlways t as
      decidable_of_iff (P s ∧ Always step P t as) (by
        rw [always_cons, hs]
        constructor
        · rintro ⟨hP, h⟩
          refine ⟨hP, fun t' ht' => ?_⟩
          obtain rfl := Option.some.inj ht'
          exact h
        · rintro ⟨hP, h⟩
          exact ⟨hP, h t rfl⟩)

/-- The same for the guard of each step. -/
instance decidableGuarded [∀ s a, Decidable (ok s a)] :
    (s : σ) → (as : List α) → Decidable (Guarded step ok s as)
  | _, [] => isTrue guarded_nil
  | s, a :: as =>
    match hs : step s a with
    | none => isTrue (guarded_cons.mpr fun t ht => by rw [hs] at ht; cases ht)
    | some t =>
      have := decidableGuarded t as
      decidable_of_iff (ok s a ∧ Guarded step ok t as) (by
        rw [guarded_cons, hs]
        constructor
        · intro h t' ht'
          obtain rfl := Option.some.inj ht'
          exact h
        · intro h
          exact h t rfl)

theorem Always.mono {s : σ} {as : List α} (h : Always step P s as) (hPQ : ∀ t, P t → Q t) :
    Always step Q s as :=
  fun pre t hpre hr => hPQ t (h pre t hpre hr)

theorem always_and {s : σ} {as : List α} :
    Always step (fun t => P t ∧ Q t) s as ↔ Always step P s as ∧ Always step Q s as := by
  constructor
  · intro h
    exact ⟨h.mono fun _ => And.left, h.mono fun _ => And.right⟩
  · rintro ⟨hp, hq⟩ pre t hpre hr
    exact ⟨hp pre t hpre hr, hq pre t hpre hr⟩

/-- Where every step to a good state meets `ok`, a run that stays good is guarded. -/
theorem Always.guarded {s : σ} {as : List α} (h : Always step P s as)
    (hstep : ∀ s a t, step s a = some t → P t → ok s a) : Guarded step ok s as := by
  intro pre a t t' hpre hr ht
  refine hstep t a t' ht (h (pre ++ [a]) t' hpre ?_)
  rw [run_append, hr, Option.bind_some, run_cons, ht]
  rfl

/-- An invariant of the steps that meet `ok` holds along every run of such steps. -/
theorem always_of_guarded (hstep : ∀ s a t, P s → ok s a → step s a = some t → P t) :
    ∀ {as : List α} {s : σ}, P s → Guarded step ok s as → Always step P s as := by
  intro as
  induction as with
  | nil => intro s hs _; exact always_nil.mpr hs
  | cons a as ih =>
    intro s hs hg
    refine always_cons.mpr ⟨hs, fun t ht => ?_⟩
    obtain ⟨hok, hrest⟩ := guarded_cons.mp hg t ht
    exact ih (hstep s a t hs hok ht) hrest

/-- An invariant of every step holds along every run. -/
theorem always_of_step (hstep : ∀ s a t, P s → step s a = some t → P t)
    {s : σ} (hs : P s) (as : List α) : Always step P s as := by
  have hg : Guarded step (fun _ _ => True) s as := fun _ _ _ _ _ _ _ => trivial
  exact always_of_guarded (fun s a t h _ ht => hstep s a t h ht) hs hg

/-- Where a step from a good state ends in a good state exactly if it meets `ok`,
the runs that stay good are exactly the guarded ones. -/
theorem always_iff_guarded (hstep : ∀ s a t, P s → step s a = some t → (P t ↔ ok s a)) :
    ∀ {as : List α} {s : σ}, P s → (Always step P s as ↔ Guarded step ok s as) := by
  intro as
  induction as with
  | nil => intro s hs; exact ⟨fun _ => guarded_nil, fun _ => always_nil.mpr hs⟩
  | cons a as ih =>
    intro s hs
    rw [always_cons, guarded_cons]
    constructor
    · rintro ⟨-, h⟩ t ht
      have hPt := (h t ht).head
      exact ⟨(hstep s a t hs ht).mp hPt, (ih hPt).mp (h t ht)⟩
    · intro h
      refine ⟨hs, fun t ht => ?_⟩
      have hPt := (hstep s a t hs ht).mpr (h t ht).1
      exact (ih hPt).mpr (h t ht).2

/-- The same with a background invariant `Q` of every step. -/
theorem always_iff_guarded_of_invariant (hinv : ∀ s a t, Q s → step s a = some t → Q t)
    (hstep : ∀ s a t, Q s → P s → step s a = some t → (P t ↔ ok s a))
    {s : σ} (hQ : Q s) (hP : P s) (as : List α) :
    Always step P s as ↔ Guarded step ok s as := by
  have hall : Always step Q s as := always_of_step hinv hQ as
  have hiff : Always step (fun t => Q t ∧ P t) s as ↔ Guarded step ok s as := by
    refine always_iff_guarded (fun s a t h ht => ?_) ⟨hQ, hP⟩
    rw [← hstep s a t h.1 h.2 ht]
    exact and_iff_right (hinv s a t h.1 ht)
  rw [← hiff, always_and]
  exact (and_iff_right hall).symm

/-- A run has no more steps than the measure that each of them lowers. -/
theorem length_le_of_decreasing {w : σ → Nat} (hinv : ∀ s a t, P s → step s a = some t → P t)
    (hw : ∀ s a t, P s → step s a = some t → w t < w s) :
    ∀ {as : List α} {s t : σ}, P s → run step s as = some t → as.length + w t ≤ w s := by
  intro as
  induction as with
  | nil =>
    intro s t _ hr
    obtain rfl := Option.some.inj hr
    simp
  | cons a as ih =>
    intro s t hs hr
    rw [run_cons] at hr
    obtain ⟨u, hu, hr⟩ := Option.bind_eq_some_iff.mp hr
    have hlt := hw s a u hs hu
    have hle := ih (hinv s a u hs hu) hr
    simp only [List.length_cons]
    omega

/-! ## Logs -/

section

variable {ε : Type*} {ok : List ε → ε → Prop} {log : List ε}

/-- Every entry of a log meets `ok` with the entries before it. -/
def Justified (ok : List ε → ε → Prop) (log : List ε) : Prop :=
  ∀ before e after, log = before ++ e :: after → ok before e

theorem justified_nil : Justified ok [] := by
  intro before e after h
  simp at h

theorem Justified.snoc (h : Justified ok log) {e : ε} (he : ok log e) :
    Justified ok (log ++ [e]) := by
  intro before e' after hlog
  cases after using List.reverseRecOn with
  | nil =>
    obtain ⟨rfl, hlast⟩ := List.append_inj' hlog rfl
    obtain ⟨rfl, -⟩ := List.cons.inj hlast
    exact he
  | append_singleton after x =>
    rw [← List.cons_append, ← List.append_assoc] at hlog
    obtain ⟨rfl, -⟩ := List.append_inj' hlog rfl
    exact h before e' after rfl

end

end OfConnect.Lib.Run
