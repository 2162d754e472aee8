import Mathlib.Logic.Basic

/-!
# Woven stretches of a run

A stretch of a run that takes a list of labelled actions, with silent steps before, between and
behind them.

* `Weave`: such a stretch; `Weave.after_silent`, **`Weave.append`**: stretches one after the other.
* **`Weave.foldl`**: what the silent steps keep, and every action keeps when it updates a ghost state,
  is kept by the stretch with the ghost state of its list.
-/

universe u v w

/-- From one state to another by the actions of a list, with silent steps around them. -/
inductive Weave {σ : Type u} {ε : Type v} (silent : σ → σ → Prop) (act : ε → σ → σ → Prop) :
    σ → List ε → σ → Prop
  | done {s s' : σ} (hs : silent s s') : Weave silent act s [] s'
  | act {s s₁ s₂ s' : σ} {e : ε} {es : List ε} (hs : silent s s₁) (ha : act e s₁ s₂)
      (hrest : Weave silent act s₂ es s') : Weave silent act s (e :: es) s'

namespace Weave

variable {σ : Type u} {ε : Type v} {γ : Type w} {silent : σ → σ → Prop} {act : ε → σ → σ → Prop}
  {s s₁ s' : σ} {e : ε} {es es' : List ε}

/-- A silent step in front. -/
theorem after_silent (htrans : ∀ a b c, silent a b → silent b c → silent a c) (hs : silent s s₁)
    (hw : Weave silent act s₁ es s') : Weave silent act s es s' := by
  cases hw with
  | done hs' => exact .done (htrans s s₁ s' hs hs')
  | act hs' ha hrest => exact .act (htrans s s₁ _ hs hs') ha hrest

/-- **Two stretches, one after the other.** -/
theorem append (htrans : ∀ a b c, silent a b → silent b c → silent a c)
    (hw : Weave silent act s es s₁) (hw' : Weave silent act s₁ es' s') :
    Weave silent act s (es ++ es') s' := by
  induction hw with
  | done hs => exact hw'.after_silent htrans hs
  | act hs ha _ ih => exact .act hs ha (ih hw')

/-- **The ghost rule.** -/
theorem foldl {upd : γ → ε → γ} {P : σ → γ → Prop} {g : γ}
    (hsilent : ∀ a b g, silent a b → P a g → P b g)
    (hact : ∀ e a b g, act e a b → P a g → P b (upd g e)) (hP : P s g)
    (hw : Weave silent act s es s') : P s' (es.foldl upd g) := by
  induction hw generalizing g with
  | done hs => exact hsilent _ _ g hs hP
  | act hs ha _ ih => exact ih (hact _ _ _ g ha (hsilent _ _ g hs hP))

end Weave
