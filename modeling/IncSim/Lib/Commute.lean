import Mathlib.Data.List.Perm.Basic
import IncSim.Lib.Run

/-!
# Runs in another order

* `Commutes`: two events that may be taken in either order.
* **`run_perm`**: events that commute in pairs may be taken in any order.
* **`run_map`**: a run seen through a view of the state is a run of the machine on the views.
-/

namespace PartialRun

universe u v w

variable {σ τ : Type u} {ε ε' : Type v} {φ : Type w} {step : σ → ε → Except φ σ} {es es' : List ε}

/-- Two events may be taken in either order, with the same state or the same fault. -/
def Commutes (step : σ → ε → Except φ σ) (e e' : ε) : Prop :=
  ∀ s, (step s e >>= fun t => step t e') = (step s e' >>= fun t => step t e)

theorem run_cons_eq {s : σ} {e : ε} :
    run step s (e :: es) = (step s e >>= fun t => run step t es) := List.foldlM_cons

/-- **Any order.** Events that commute in pairs may be taken in any order. -/
theorem run_perm (hp : es.Perm es') (h : ∀ e ∈ es, ∀ e' ∈ es, Commutes step e e') (s : σ) :
    run step s es = run step s es' := by
  induction hp generalizing s with
  | nil => rfl
  | cons e _ ih =>
    rw [run_cons_eq, run_cons_eq]
    apply bind_congr
    intro t
    exact ih (fun e₁ h₁ e₂ h₂ => h e₁ (List.mem_cons_of_mem _ h₁) e₂ (List.mem_cons_of_mem _ h₂)) t
  | swap e e' es =>
    have hswap := h e (by simp) e' (by simp) s
    simp only [run_cons_eq, ← bind_assoc, hswap]
  | trans hp₁ _ ih₁ ih₂ =>
    rw [ih₁ h]
    exact ih₂ (fun e₁ h₁ e₂ h₂ => h e₁ (hp₁.mem_iff.mpr h₁) e₂ (hp₁.mem_iff.mpr h₂)) s

/-- **A view of a run.** If every step, seen through `view`, is a step on the view, so is a run. -/
theorem run_map {view : σ → τ} {step' : τ → ε' → Except φ τ} {g : ε → ε'}
    (h : ∀ e ∈ es, ∀ s, (step s e).map view = step' (view s) (g e)) (s : σ) :
    (run step s es).map view = run step' (view s) (es.map g) := by
  induction es generalizing s with
  | nil => rfl
  | cons e es ih =>
    rw [List.map_cons, run_cons_eq, run_cons_eq, ← h e List.mem_cons_self s]
    rcases step s e with f | t
    · rfl
    · exact ih (fun e' he' => h e' (List.mem_cons_of_mem e he')) t

end PartialRun
