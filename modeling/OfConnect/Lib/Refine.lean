import OfConnect.Lib.Run

/-!
# Refinement of a specification

A specification is a relation `does t a t'` on states of its own: what the call `a` may do in the
state `t`. A component with a step function refines it where every step that is taken from a state
that stands for `t` does in `t` what the specification lets the call do, and ends in a state that
stands for the result. Then every run of the component is a run of the specification.
-/

namespace OfConnect.Lib.Refine

open OfConnect.Lib.Run

variable {σ τ α : Type*} {step : σ → α → Option σ} {does : τ → α → τ → Prop} {R : σ → τ → Prop}

/-- A run of a specification. -/
inductive Path (does : τ → α → τ → Prop) : τ → List α → τ → Prop
  | nil (t : τ) : Path does t [] t
  | cons {t t' t'' : τ} {a : α} {as : List α} (h : does t a t') (hrest : Path does t' as t'') :
      Path does t (a :: as) t''

/-- Every step is one of the specification, between the states that stand for it. -/
def Simulates (step : σ → α → Option σ) (does : τ → α → τ → Prop) (R : σ → τ → Prop) : Prop :=
  ∀ s a s' t, R s t → step s a = some s' → ∃ t', does t a t' ∧ R s' t'

theorem Simulates.path (h : Simulates step does R) {as : List α} {s s' : σ} {t : τ} (hR : R s t)
    (hr : run step s as = some s') : ∃ t', Path does t as t' ∧ R s' t' := by
  induction as generalizing s t with
  | nil =>
    rw [run_nil] at hr
    obtain rfl := Option.some.inj hr
    exact ⟨t, Path.nil t, hR⟩
  | cons a as ih =>
    rw [run_cons] at hr
    obtain ⟨s₁, hs, hr⟩ := Option.bind_eq_some_iff.mp hr
    obtain ⟨t₁, hdoes, hR₁⟩ := h s a s₁ t hR hs
    obtain ⟨t', hpath, hR'⟩ := ih hR₁ hr
    exact ⟨t', Path.cons hdoes hpath, hR'⟩

end OfConnect.Lib.Refine
