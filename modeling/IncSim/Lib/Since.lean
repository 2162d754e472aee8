import Mathlib.Data.List.DropRight
import IncSim.Lib.Run

/-!
# Counting since the last reset

Events of two kinds are told apart in a history: hits, and resets, after which counting starts anew.

* `since`: the events behind the last reset.
* `countSince`, `countSince_concat`: the hits among them.
* **`run_countSince`**: a counter that every step of a run resets, counts up or leaves alone shows,
  at the end of the run, the number of hits since the last reset.
-/

namespace Since

open PartialRun

universe u v w

variable {ε : Type v} {reset hit : ε → Bool} {l : List ε} {e : ε}

/-- The events behind the last reset. -/
def since (reset : ε → Bool) (l : List ε) : List ε := l.rtakeWhile fun e => !reset e

theorem since_concat : since reset (l ++ [e]) = if reset e then [] else since reset l ++ [e] := by
  rw [since, List.rtakeWhile_concat]
  cases reset e <;> rfl

/-- The hits since the last reset. -/
def countSince (reset hit : ε → Bool) (l : List ε) : ℕ := (since reset l).countP hit

theorem countSince_concat : countSince reset hit (l ++ [e]) =
    if reset e then 0 else countSince reset hit l + if hit e then 1 else 0 := by
  rw [countSince, since_concat]
  cases reset e with
  | true => rfl
  | false =>
    rw [if_neg Bool.false_ne_true, if_neg Bool.false_ne_true, List.countP_append, List.countP_cons,
      List.countP_nil, Nat.zero_add]
    rfl

/-- **A counter in a run.** If it starts at zero and every step resets it, counts up or leaves it
alone, as the event says, then it shows the hits since the last reset. -/
theorem run_countSince {σ : Type u} {φ : Type w} {step : σ → ε → Except φ σ}
    {reset hit : σ × ε → Bool} {Shows : σ → ℕ → Prop}
    (hstep : ∀ s e s' c, Shows s c → step s e = .ok s' →
      Shows s' (if reset (s, e) then 0 else c + if hit (s, e) then 1 else 0))
    {s s' : σ} {es : List ε} (h₀ : Shows s 0) (hrun : run step s es = .ok s') :
    Shows s' (countSince reset hit (trace step s es)) := by
  induction es using List.reverseRecOn generalizing s' with
  | nil =>
    cases hrun
    exact h₀
  | append_singleton es e ih =>
    obtain ⟨t, ht, hs⟩ := run_concat.mp hrun
    rw [trace_concat ht, countSince_concat]
    exact hstep t e s' _ (ih ht) hs

end Since
