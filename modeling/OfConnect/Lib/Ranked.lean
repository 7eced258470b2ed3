import Mathlib.Data.List.Sort

/-!
# Lists ranked by a measure that changes

A list of workers is kept with the largest measure first. The measure of one worker changes
at a time, and the list is either left as it is or has that worker taken out and inserted
again. `lastNonzero` walks on while the next worker has a measure other than zero; in a
ranked list it finds the worker whose measure can be lowered where it stands.
-/

namespace OfConnect.Lib.Ranked

variable {α β : Type*}

section

variable [LinearOrder β]

/-- Largest measure first. -/
def Descending (f : α → β) (l : List α) : Prop := l.Pairwise fun a b => f b ≤ f a

theorem descending_congr {f f' : α → β} {l : List α} (h : Descending f l) (heq : ∀ a ∈ l, f' a = f a) :
    Descending f' l := by
  refine h.imp_of_mem fun ha hb hle => ?_
  rw [heq _ ha, heq _ hb]
  exact hle

theorem Descending.cons_of_max {f : α → β} {l : List α} {a : α} (h : Descending f l)
    (ha : ∀ b ∈ l, f b ≤ f a) : Descending f (a :: l) :=
  List.pairwise_cons.mpr ⟨ha, h⟩

/-- Taken out and inserted again, a worker is in its place under the new measure. -/
theorem Descending.reinsert [DecidableEq α] {f f' : α → β} {l : List α} {a : α} (h : Descending f l)
    (hl : l.Nodup) (heq : ∀ b, b ≠ a → f' b = f b) :
    Descending f' ((l.erase a).orderedInsert (fun x y => f' y ≤ f' x) a) := by
  have : Std.Total fun x y : α => f' y ≤ f' x := ⟨fun x y => le_total (f' y) (f' x)⟩
  have : IsTrans α fun x y : α => f' y ≤ f' x := ⟨fun _ _ _ hxy hyz => hyz.trans hxy⟩
  have hrest : Descending f' (l.erase a) := by
    refine descending_congr (h.sublist List.erase_sublist) fun b hb => heq b ?_
    rintro rfl
    exact hl.not_mem_erase hb
  exact List.Pairwise.orderedInsert a _ hrest

end

variable [Zero β] [DecidableEq β]

/-- On from `a` while the next worker has a measure other than zero. -/
def lastNonzero (f : α → β) (a : α) : List α → α
  | [] => a
  | b :: l => if f b = 0 then a else lastNonzero f b l

theorem lastNonzero_mem (f : α → β) (a : α) (l : List α) :
    lastNonzero f a l ∈ a :: l := by
  induction l generalizing a with
  | nil => exact List.mem_cons_self
  | cons b l ih =>
    unfold lastNonzero
    split
    · exact List.mem_cons_self
    · exact List.mem_cons_of_mem _ (ih b)

theorem lastNonzero_ne_zero {f : α → β} {a : α} (l : List α) (ha : f a ≠ 0) :
    f (lastNonzero f a l) ≠ 0 := by
  induction l generalizing a with
  | nil => exact ha
  | cons b l ih =>
    unfold lastNonzero
    split
    · exact ha
    · rename_i hb
      exact ih hb

/-- The measure of the worker that was found may go down: those after it are at zero. -/
theorem Descending.lower_lastNonzero [LinearOrder β] {f f' : α → β} {a : α} {l : List α}
    (hzero : ∀ x : β, 0 ≤ x) (h : Descending f (a :: l)) (hl : (a :: l).Nodup)
    (hlow : f' (lastNonzero f a l) ≤ f (lastNonzero f a l))
    (heq : ∀ b, b ≠ lastNonzero f a l → f' b = f b) : Descending f' (a :: l) := by
  induction l generalizing a with
  | nil => exact List.pairwise_singleton _ a
  | cons b l ih =>
    obtain ⟨hmax, htail⟩ := List.pairwise_cons.mp h
    obtain ⟨hnew, hnodup⟩ := List.nodup_cons.mp hl
    unfold lastNonzero at hlow heq
    split at hlow
    · rename_i hb
      rw [if_pos hb] at heq
      -- the walk stops here, and every later measure is zero
      have hlater : ∀ c ∈ b :: l, f' c = 0 := by
        intro c hc
        rw [heq c fun hca => hnew (hca ▸ hc)]
        rcases List.mem_cons.mp hc with rfl | hc
        · exact hb
        · exact le_antisymm (hb ▸ (List.pairwise_cons.mp htail).1 c hc) (hzero _)
      refine (descending_congr htail fun c hc => heq c fun hca => hnew (hca ▸ hc)).cons_of_max ?_
      intro c hc
      rw [hlater c hc]
      exact hzero _
    · rename_i hb
      rw [if_neg hb] at heq
      have ha : f' a = f a := by
        refine heq a fun hal => hnew ?_
        rw [hal]
        exact lastNonzero_mem f b l
      refine (ih htail hnodup hlow heq).cons_of_max fun c hc => ?_
      rw [ha]
      by_cases hc' : c = lastNonzero f b l
      · rw [hc']
        exact hlow.trans (hmax _ (lastNonzero_mem f b l))
      · rw [heq c hc']
        exact hmax c hc

end OfConnect.Lib.Ranked
