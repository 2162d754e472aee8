import Mathlib.Logic.Basic
import Mathlib.Data.List.Infix

/-!
# Runs of a fallible machine

A machine is a step function `σ → ε → Except φ σ`; a run feeds it a list of events and ends at
the first fault.

* `bind_eq_ok`, `bind_ne_error`: inversion of a sequence of fallible computations.
* `mapM_eq_ok`, `mapM_eq_ite`: computations over a list that all succeed.
* `run`, `run_concat`: runs, extended by one event at the end.
* `trace`: the events of a run with the states in which it takes them.
* `run_invariant`: what every step keeps holds at the end of a run.
* `ghostStep`, **`run_ghost`**: runs with a ghost state.
* `Always`, `StepsMeet`, `always_of_stepsMeet`: what holds throughout a run, and of its steps.
* **`always_iff_stepsMeet_of_isPrefix`**, `always_iff_stepsMeet`: a property that one step keeps exactly
  when the step meets a condition holds in every state of a run exactly when every step meets it.
* `stepsMeet_congr`: conditions that agree on every step.
-/

namespace PartialRun

universe u v w

variable {σ : Type u} {ε : Type v} {φ : Type w} {α β : Type u}

theorem bind_eq_ok {x : Except φ α} {f : α → Except φ β} {b : β} :
    x >>= f = .ok b ↔ ∃ a, x = .ok a ∧ f a = .ok b := by
  cases x with
  | error e =>
    constructor
    · intro h; cases h
    · rintro ⟨_, h, _⟩; cases h
  | ok a =>
    constructor
    · intro h; exact ⟨a, rfl, h⟩
    · rintro ⟨_, h, h'⟩; cases h; exact h'

theorem ok_bind {a : α} {f : α → Except φ β} : (Except.ok a >>= f) = f a := rfl

theorem pure_eq_ok {a b : α} : (pure a : Except φ α) = .ok b ↔ a = b :=
  ⟨Except.ok.inj, congrArg Except.ok⟩

theorem map_eq_ok {x : Except φ α} {f : α → β} {b : β} :
    x.map f = .ok b ↔ ∃ a, x = .ok a ∧ f a = b := by
  cases x with
  | error e =>
    constructor
    · intro h; cases h
    · rintro ⟨_, h, _⟩; cases h
  | ok a =>
    constructor
    · intro h; exact ⟨a, rfl, Except.ok.inj h⟩
    · rintro ⟨_, h, h'⟩; cases h; exact congrArg Except.ok h'

theorem map_eq_error {x : Except φ α} {f : α → β} {e : φ} : x.map f = .error e ↔ x = .error e := by
  cases x with
  | error e' =>
    constructor
    · intro h; exact congrArg _ (Except.error.inj h)
    · intro h; exact congrArg _ (Except.error.inj h)
  | ok a => exact iff_of_false nofun nofun

theorem bind_ne_error {x : Except φ α} {f : α → Except φ β} {e : φ} (hx : x ≠ .error e)
    (hf : ∀ a, x = .ok a → f a ≠ .error e) : x >>= f ≠ .error e := by
  cases x with
  | error e' => exact fun h => hx (congrArg Except.error (Except.error.inj h))
  | ok a => exact hf a rfl

theorem ok_ne_error {a : α} {e : φ} : (Except.ok a : Except φ α) ≠ .error e := nofun

/-- A list of computations that all succeed. -/
theorem mapM_eq_ok {γ : Type v} {f : γ → Except φ α} {g : γ → α} {l : List γ}
    (h : ∀ c ∈ l, f c = .ok (g c)) : l.mapM f = .ok (l.map g) := by
  induction l with
  | nil => rfl
  | cons c l ih =>
    rw [List.mapM_cons, h c List.mem_cons_self, ih fun c' hc' => h c' (List.mem_cons_of_mem _ hc')]
    rfl

/-- **A list of computations** that fail alike succeeds when all of them do. -/
theorem mapM_eq_ite {γ : Type v} {f : γ → Except φ α} {g : γ → α} {P : γ → Prop} [DecidablePred P]
    {e : φ} (hf : ∀ c, f c = if P c then .ok (g c) else .error e) (l : List γ) :
    l.mapM f = if ∀ c ∈ l, P c then .ok (l.map g) else .error e := by
  induction l with
  | nil => rfl
  | cons c l ih =>
    rw [List.mapM_cons, hf, ih]
    by_cases hc : P c
    · by_cases hl : ∀ c ∈ l, P c
      · rw [if_pos hc, if_pos hl, if_pos (List.forall_mem_cons.mpr ⟨hc, hl⟩)]
        rfl
      · rw [if_pos hc, if_neg hl, if_neg fun h => hl (List.forall_mem_cons.mp h).2]
        rfl
    · rw [if_neg hc, if_neg fun h => hc (List.forall_mem_cons.mp h).1]
      rfl

theorem exists_mapM_eq_ok {γ : Type v} {f : γ → Except φ α} {l : List γ}
    (h : ∀ c ∈ l, ∃ a, f c = .ok a) : ∃ l', l.mapM f = .ok l' := by
  induction l with
  | nil => exact ⟨[], rfl⟩
  | cons c l ih =>
    obtain ⟨a, ha⟩ := h c List.mem_cons_self
    obtain ⟨l', hl'⟩ := ih fun c' hc' => h c' (List.mem_cons_of_mem _ hc')
    exact ⟨a :: l', by rw [List.mapM_cons, ha, hl']; rfl⟩

theorem mem_of_mapM_eq_ok {γ : Type v} {f : γ → Except φ α} {l : List γ} {l' : List α}
    (h : l.mapM f = .ok l') {a : α} (ha : a ∈ l') : ∃ c ∈ l, f c = .ok a := by
  induction l generalizing l' with
  | nil =>
    cases h
    exact absurd ha List.not_mem_nil
  | cons c l ih =>
    rw [List.mapM_cons] at h
    obtain ⟨b, hb, h⟩ := bind_eq_ok.mp h
    obtain ⟨l₁, hl₁, h⟩ := bind_eq_ok.mp h
    cases h
    rcases List.mem_cons.mp ha with rfl | ha
    · exact ⟨c, List.mem_cons_self, hb⟩
    · obtain ⟨c', hc', hf⟩ := ih hl₁ ha
      exact ⟨c', List.mem_cons_of_mem _ hc', hf⟩

/-- The run of a machine over a list of events. -/
def run (step : σ → ε → Except φ σ) (s : σ) (es : List ε) : Except φ σ := es.foldlM step s

variable {step : σ → ε → Except φ σ} {s s' : σ} {e : ε} {es : List ε}

@[simp] theorem run_nil : run step s [] = .ok s := rfl

theorem run_cons_of_ok {t : σ} (h : step s e = .ok t) : run step s (e :: es) = run step t es := by
  rw [run, List.foldlM_cons, h]
  rfl

theorem run_cons : run step s (e :: es) = .ok s' ↔ ∃ t, step s e = .ok t ∧ run step t es = .ok s' := by
  simp only [run, List.foldlM_cons, bind_eq_ok]

theorem run_append {es' : List ε} :
    run step s (es ++ es') = run step s es >>= fun t => run step t es' := List.foldlM_append

theorem run_concat_eq :
    run step s (es ++ [e]) = run step s es >>= fun t => step t e := by
  simp only [run, List.foldlM_append, List.foldlM_cons, List.foldlM_nil, bind_pure]

theorem run_concat :
    run step s (es ++ [e]) = .ok s' ↔ ∃ t, run step s es = .ok t ∧ step t e = .ok s' := by
  simp only [run, List.foldlM_append, bind_eq_ok, List.foldlM_cons, List.foldlM_nil, pure_eq_ok,
    exists_eq_right]

/-- The events of a run, each with the state in which the run takes it. -/
def trace (step : σ → ε → Except φ σ) : σ → List ε → List (σ × ε)
  | _, [] => []
  | s, e :: es =>
    (s, e) :: match step s e with
      | .ok t => trace step t es
      | .error _ => []

theorem trace_concat (h : run step s es = .ok s') :
    trace step s (es ++ [e]) = trace step s es ++ [(s', e)] := by
  induction es generalizing s with
  | nil =>
    cases h
    rcases hs : step s' e with f | t <;> simp [trace, hs]
  | cons e' es ih =>
    obtain ⟨t, ht, hr⟩ := run_cons.mp h
    rw [List.cons_append, trace, trace, ht]
    dsimp only
    rw [ih hr, List.cons_append]

/-- **The invariant rule.** What every step keeps holds at the end of a run. -/
theorem run_invariant {P : σ → Prop} (hstep : ∀ s e s', P s → step s e = .ok s' → P s') (h₀ : P s)
    (h : run step s es = .ok s') : P s' := by
  induction es generalizing s with
  | nil => cases h; exact h₀
  | cons e es ih =>
    obtain ⟨t, ht, hr⟩ := run_cons.mp h
    exact ih (hstep s e t h₀ ht) hr

/-- **The counting rule.** A quantity that every step raises by `k` is raised by `k` for every event. -/
theorem run_add {f : σ → ℕ} {k : ℕ} (hstep : ∀ s e s', step s e = .ok s' → f s' = f s + k)
    (h : run step s es = .ok s') : f s' = f s + es.length * k := by
  induction es generalizing s with
  | nil =>
    cases h
    simp
  | cons e es ih =>
    obtain ⟨t, ht, h⟩ := run_cons.mp h
    rw [ih h, hstep s e t ht, List.length_cons, Nat.succ_mul]
    omega

/-- A fault that no step of the run gives ends no run. -/
theorem run_ne_error {f : φ}
    (hstep : ∀ es₁ e t, es₁ ++ [e] <+: es → run step s es₁ = .ok t → step t e ≠ .error f) :
    run step s es ≠ .error f := by
  induction es using List.reverseRecOn with
  | nil => exact ok_ne_error
  | append_singleton es e ih =>
    rw [run_concat_eq]
    refine bind_ne_error (ih fun es₁ e₁ t hp => ?_) fun t ht => ?_
    · exact hstep es₁ e₁ t (hp.trans (List.prefix_append _ _))
    · exact hstep es e t (List.prefix_refl _) ht

/-- A run that has met a fault goes on with it. -/
theorem run_error_of_isPrefix {es₁ : List ε} {f : φ} (hp : es₁ <+: es)
    (h : run step s es₁ = .error f) : run step s es = .error f := by
  obtain ⟨es₂, rfl⟩ := hp
  rw [run_append, h]
  rfl

/-- `P` holds in every state that the run over `es` passes, its ends included. -/
def Always (step : σ → ε → Except φ σ) (P : σ → Prop) (s : σ) (es : List ε) : Prop :=
  ∀ es₁ s', es₁ <+: es → run step s es₁ = .ok s' → P s'

/-- Every event of `es` meets `C` in the state where the run takes it. -/
def StepsMeet (step : σ → ε → Except φ σ) (C : σ → ε → Prop) (s : σ) (es : List ε) : Prop :=
  ∀ es₁ e s', es₁ ++ [e] <+: es → run step s es₁ = .ok s' → C s' e

theorem stepsMeet_nil {C : σ → ε → Prop} : StepsMeet step C s [] := by
  intro es₁ e s' hp
  exact absurd (List.prefix_nil.mp hp) (by simp)

theorem stepsMeet_cons {C : σ → ε → Prop} (hC : C s e)
    (hrest : ∀ t, step s e = .ok t → StepsMeet step C t es) : StepsMeet step C s (e :: es) := by
  intro es₁ e₁ s₁ hp hrun
  cases es₁ with
  | nil =>
    obtain ⟨rfl, -⟩ := List.cons_prefix_cons.mp hp
    cases hrun
    exact hC
  | cons e' es₁ =>
    obtain ⟨rfl, hp'⟩ := List.cons_prefix_cons.mp hp
    obtain ⟨t, ht, hrun⟩ := run_cons.mp hrun
    exact hrest t ht es₁ e₁ s₁ hp' hrun

/-- A run that ends has passed every prefix of its events. -/
theorem exists_run_of_prefix {es₁ : List ε} (hp : es₁ <+: es) (h : run step s es = .ok s') :
    ∃ t, run step s es₁ = .ok t := by
  obtain ⟨es₂, rfl⟩ := hp
  rw [run_append] at h
  obtain ⟨t, ht, -⟩ := bind_eq_ok.mp h
  exact ⟨t, ht⟩

/-- What the steps that meet `C` keep holds throughout a run of such steps. -/
theorem always_of_stepsMeet {P : σ → Prop} {C : σ → ε → Prop}
    (hP : ∀ s e s', P s → C s e → step s e = .ok s' → P s') (hP₀ : P s)
    (hC : StepsMeet step C s es) : Always step P s es := by
  intro es₁ s₁ hp h₁
  induction es₁ using List.reverseRecOn generalizing s₁ with
  | nil =>
    cases h₁
    exact hP₀
  | append_singleton es₁ e ih =>
    obtain ⟨t, ht, hs⟩ := run_concat.mp h₁
    have hPt := ih t ((List.prefix_append es₁ [e]).trans hp) ht
    exact hP t e s₁ hPt (hC es₁ e t hp ht) hs

theorem concat_isPrefix_concat {es₁ : List ε} {e₁ : ε} :
    es₁ ++ [e₁] <+: es ++ [e] ↔ (es₁ = es ∧ e₁ = e) ∨ es₁ ++ [e₁] <+: es := by
  rw [List.prefix_concat_iff]
  simp

/-- **A property kept exactly by the steps that meet `C`** holds throughout a run exactly when
every step of the run meets `C`; the step lemma may use where the step stands in the run. -/
theorem always_iff_stepsMeet_of_isPrefix {P : σ → Prop} {C : σ → ε → Prop}
    (hP : ∀ es₁ e t t', es₁ ++ [e] <+: es → run step s es₁ = .ok t → step t e = .ok t' → P t →
      (P t' ↔ C t e)) (hP₀ : P s) (hrun : run step s es = .ok s') :
    Always step P s es ↔ StepsMeet step C s es := by
  induction es using List.reverseRecOn generalizing s' with
  | nil =>
    refine ⟨fun _ => stepsMeet_nil, fun _ es₁ t hp h => ?_⟩
    · rw [List.prefix_nil.mp hp, run_nil, Except.ok.injEq] at h
      exact h ▸ hP₀
  | append_singleton es e ih =>
    obtain ⟨t, ht, hs'⟩ := run_concat.mp hrun
    have ih := ih (fun es₁ e₁ t t' hp => hP es₁ e₁ t t' (hp.trans (List.prefix_append _ _))) ht
    constructor
    · intro hA es₁ e₁ t₁ hp h₁
      have hA' : Always step P s es := fun es₁ t₁ hp => hA es₁ t₁ (hp.trans (List.prefix_append _ _))
      rcases concat_isPrefix_concat.mp hp with ⟨rfl, rfl⟩ | hp
      · rw [ht, Except.ok.injEq] at h₁
        subst h₁
        have hPt : P t := hA' es₁ t (List.prefix_refl _) ht
        exact (hP es₁ e₁ t s' hp ht hs' hPt).mp (hA _ s' (List.prefix_refl _) hrun)
      · exact ih.mp hA' es₁ e₁ t₁ hp h₁
    · intro hC es₁ t₁ hp h₁
      have hC' : StepsMeet step C s es :=
        fun es₁ e₁ t₁ hp => hC es₁ e₁ t₁ (hp.trans (List.prefix_append _ _))
      have hA' := ih.mpr hC'
      rcases List.prefix_concat_iff.mp hp with rfl | hp
      · rw [hrun, Except.ok.injEq] at h₁
        subst h₁
        exact (hP es e t s' (List.prefix_refl _) ht hs' (hA' es t (List.prefix_refl _) ht)).mpr
          (hC es e t (List.prefix_refl _) ht)
      · exact hA' es₁ t₁ hp h₁

/-- The same with an invariant `I` that the step lemma may use. -/
theorem always_iff_stepsMeet {I P : σ → Prop} {C : σ → ε → Prop}
    (hI : ∀ s e s', I s → step s e = .ok s' → I s')
    (hP : ∀ s e s', I s → P s → step s e = .ok s' → (P s' ↔ C s e)) (hI₀ : I s) (hP₀ : P s)
    (hrun : run step s es = .ok s') : Always step P s es ↔ StepsMeet step C s es :=
  always_iff_stepsMeet_of_isPrefix
    (fun _ e t t' _ ht hs hPt => hP t e t' (run_invariant hI hI₀ ht) hPt hs) hP₀ hrun

end PartialRun
