import IncSim.Lib.Since
import IncSim.Producer.Decision

/-!
# Miss counters

A function that is disabled counts the interests that the engine forwards; enabling it starts the
count anew.

* `EngineEvent`, `engineStep`: resolutions, switches and executions at a node.
* `Enables`, `Refuses`: the events that start a count anew and that are counted.
* `Unmissed`, `unmissed_fill`: the start of a count; nodes filled by `AddNewFunction` are there.
* `Counted`, `counted_engineStep`: what one event does to the object under a key.
* `ShowsMisses`, `showsMisses_engineStep`: so the counter shows the count.
* **`missExecCounter_eq`**: after a run the counter of a function is the number of refusals since it
  was enabled last, and zero while it is enabled.
-/

namespace IncSim

open PartialRun Since

/-- What happens to the functions of a node. -/
inductive EngineEvent
  | resolve (cs : ContentStore) (interest : Name)
  | enable (f : Str)
  | disable (f : Str)
  /-- `Execute` of the object under a key -/
  | execute (k : Str)

namespace ComputeNode

def engineStep (n : ComputeNode) : EngineEvent → Except Fault ComputeNode
  | .resolve cs interest => (getFetchDecisions cs interest n).map Prod.fst
  | .enable f => (n.enableFunction f).map Prod.fst
  | .disable f => (n.disableFunction f).map Prod.fst
  | .execute k => do
    let _ ← n.deref (some k)
    pure (n.update k IncComputation.execute)

/-- The node has a function under the key, and it is disabled. -/
def disabledAt (n : ComputeNode) (k : Str) : Bool :=
  match n.deref (some k) with
  | .ok f => !f.enableComputation
  | .error _ => false

/-- The event is `EnableFunction (k)`. -/
def Enables (k : Str) (q : ComputeNode × EngineEvent) : Bool :=
  match q.2 with
  | .enable f => f = k
  | _ => false

/-- The event is a resolution that forwards an interest for `k` while `k` is disabled. -/
def Refuses (k : Str) (q : ComputeNode × EngineEvent) : Bool :=
  match q.2 with
  | .resolve cs interest =>
    match getFetchDecisions cs interest q.1 with
    | .ok (_, .forward, _) =>
      (extractFunctionName interest).map Name.toUri = some k && q.1.disabledAt k
    | _ => false
  | _ => false

/-- No function has missed an interest. -/
def Unmissed (n : ComputeNode) : Prop := ∀ k f, n.deref (some k) = .ok f → f.missExecCounter = 0

variable {n m : ComputeNode} {k : Str} {f : IncComputation} {e : EngineEvent}

theorem unmissed_fill (h : n.Unmissed) (functions : List (Str × IncComputation)) :
    (n.fill functions).Unmissed := by
  intro k f hf
  rw [deref_eq_ok, lookup_fill] at hf
  rcases Option.or_eq_some_iff.mp hf with hold | ⟨-, hnew⟩
  · exact h k f (deref_eq_ok.mpr hold)
  · obtain ⟨g, -, hg⟩ := Option.map_eq_some_iff.mp hnew
    cases hg
    rfl

/-! ## One event -/

/-- The object was changed by `g`, if its key is `k'`. -/
theorem deref_update {k' : Str} {g : IncComputation → IncComputation}
    (h : (n.update k' g).deref (some k) = .ok f) :
    ∃ f₀, n.deref (some k) = .ok f₀ ∧ f = if k = k' then g f₀ else f₀ := by
  rw [deref_eq_ok, lookup_update] at h
  obtain ⟨o, ho, hf⟩ := Option.map_eq_some_iff.mp h
  split_ifs at hf ⊢ with hk
  · obtain ⟨f₀, rfl, rfl⟩ := Option.map_eq_some_iff.mp hf
    exact ⟨f₀, deref_eq_ok.mpr ho, rfl⟩
  · subst hf
    exact ⟨f, deref_eq_ok.mpr ho, rfl⟩

theorem deref_getFunction {k' : Str} (h : (n.getFunction k').1.deref (some k) = .ok f) :
    n.deref (some k) = .ok f := by
  have hgot : Same id n (n.getFunction k').1 := same_getFunction k'
  obtain ⟨g, hg, hattr⟩ := hgot.symm.deref h
  have hsame : g = f := hattr
  exact hsame ▸ hg

/-- What an event does to the object under `k`, seen by its counter and its status. -/
def Counted (k : Str) (n : ComputeNode) (e : EngineEvent) (f₀ f : IncComputation) : Prop :=
  f.missExecCounter = (if Enables k (n, e) then 0
    else f₀.missExecCounter + if Refuses k (n, e) then 1 else 0) ∧
  (f.enableComputation = true → Enables k (n, e) = false → f₀.enableComputation = true)

/-- An event that is no concern of the counter. -/
theorem Counted.keep {f₀ : IncComputation} (henables : Enables k (n, e) = false)
    (hrefuses : Refuses k (n, e) = false) (hcount : f.missExecCounter = f₀.missExecCounter)
    (hen : f.enableComputation = true → f₀.enableComputation = true) : Counted k n e f₀ f := by
  rw [Counted, henables, hrefuses]
  exact ⟨hcount.trans (UInt32.add_zero _).symm, fun h _ => hen h⟩

theorem disabledAt_of_deref (hf : n.deref (some k) = .ok f) :
    n.disabledAt k = !f.enableComputation := by rw [disabledAt, hf]

theorem refuses_resolve {cs : ContentStore} {interest : Name} {decision : NREDecision}
    {names : List Name} {f₀ : IncComputation}
    (hg : getFetchDecisions cs interest n = .ok (m, decision, names))
    (hf : n.deref (some k) = .ok f₀) :
    Refuses k (n, .resolve cs interest) = true ↔ decision = .forward ∧
      (extractFunctionName interest).map Name.toUri = some k ∧ f₀.enableComputation = false := by
  unfold Refuses
  dsimp only
  rw [hg]
  cases decision <;> simp [disabledAt_of_deref hf]

theorem counted_resolve {cs : ContentStore} {interest : Name}
    (hs : n.engineStep (.resolve cs interest) = .ok m) (hf : m.deref (some k) = .ok f) :
    ∃ f₀, n.deref (some k) = .ok f₀ ∧ Counted k n (.resolve cs interest) f₀ f := by
  obtain ⟨⟨m', decision, names⟩, hg, rfl⟩ := map_eq_ok.mp hs
  dsimp only at hf
  have hsame : ∀ f₀, n.deref (some k) = .ok f₀ → f = f₀ →
      Refuses k (n, .resolve cs interest) = false → Counted k n (.resolve cs interest) f₀ f := by
    rintro f₀ - rfl hnot
    exact .keep rfl hnot rfl id
  obtain ⟨rfl, hnack⟩ | ⟨name, hname, rfl⟩ := Host.getFetchDecisions_node hg
  · refine ⟨f, hf, hsame f hf rfl (Bool.eq_false_iff.mpr fun href => ?_)⟩
    have hforward := ((refuses_resolve hg hf).mp href).1
    exact absurd (hnack.symm.trans hforward) nofun
  · split_ifs at hf with hforward
    · obtain ⟨f₀, hf₀, hcase⟩ := deref_update hf
      have hf₀ := deref_getFunction hf₀
      refine ⟨f₀, hf₀, ?_⟩
      have href := refuses_resolve hg hf₀
      rw [hname, Option.map_some, Option.some.injEq] at href
      split_ifs at hcase with hk
      · subst hcase
        cases hen : f₀.enableComputation with
        | true =>
          refine hsame f₀ hf₀ (if_pos hen) (Bool.eq_false_iff.mpr fun h => ?_)
          rw [(href.mp h).2.2] at hen
          cases hen
        | false =>
          have hmiss : f₀.addMissExecCounter =
              { f₀ with missExecCounter := f₀.missExecCounter + 1 } := by
            rw [IncComputation.addMissExecCounter, hen]
            rfl
          rw [hmiss, Counted, href.mpr ⟨hforward, hk.symm, hen⟩]
          exact ⟨rfl, fun h _ => h⟩
      · exact hsame f₀ hf₀ hcase (Bool.eq_false_iff.mpr fun h => hk (href.mp h).2.1.symm)
    · have hf₀ := deref_getFunction hf
      refine ⟨f, hf₀, hsame f hf₀ rfl (Bool.eq_false_iff.mpr fun h => ?_)⟩
      exact hforward ((refuses_resolve hg hf₀).mp h).1

/-- **One event.** -/
theorem counted_engineStep (hs : n.engineStep e = .ok m) (hf : m.deref (some k) = .ok f) :
    ∃ f₀, n.deref (some k) = .ok f₀ ∧ Counted k n e f₀ f := by
  cases e with
  | resolve cs interest => exact counted_resolve hs hf
  | enable k' =>
    obtain ⟨⟨m', b⟩, he, rfl⟩ := map_eq_ok.mp hs
    have henables : Enables k (n, .enable k') = decide (k' = k) := rfl
    have hrefuses : Refuses k (n, .enable k') = false := rfl
    unfold Counted
    rw [henables, hrefuses]
    obtain ⟨hnone, rfl, -⟩ | ⟨c, fib, -, -, rfl⟩ := enableFunction_cases he
    · have hk : k' ≠ k := by
        rintro rfl
        rw [deref_eq_ok, hnone] at hf
        cases hf
      exact ⟨f, hf, by simp [hk], fun h _ => h⟩
    · obtain ⟨f₀, hf₀, rfl⟩ := deref_update hf
      refine ⟨f₀, hf₀, ?_⟩
      by_cases hk : k' = k
      · simp [hk, IncComputation.enable]
      · simp [hk, Ne.symm hk]
  | disable k' =>
    obtain ⟨⟨m', b⟩, he, rfl⟩ := map_eq_ok.mp hs
    obtain ⟨-, rfl, -⟩ | ⟨c, fib, -, -, rfl⟩ := disableFunction_cases he
    · exact ⟨f, hf, .keep rfl rfl rfl id⟩
    · obtain ⟨f₀, hf₀, rfl⟩ := deref_update hf
      refine ⟨f₀, hf₀, ?_⟩
      split_ifs
      · exact .keep rfl rfl rfl fun h => absurd h Bool.false_ne_true
      · exact .keep rfl rfl rfl id
  | execute k' =>
    obtain ⟨_, -, hm⟩ := bind_eq_ok.mp hs
    cases hm
    obtain ⟨f₀, hf₀, rfl⟩ := deref_update hf
    refine ⟨f₀, hf₀, ?_⟩
    split_ifs
    · exact .keep rfl rfl rfl id
    · exact .keep rfl rfl rfl id

/-- An enabled function is not refused. -/
theorem not_refuses_of_enabled {f₀ : IncComputation} (hf : n.deref (some k) = .ok f₀)
    (hen : f₀.enableComputation = true) : Refuses k (n, e) = false := by
  have hdis : n.disabledAt k = false := by
    rw [disabledAt_of_deref hf, hen]
    rfl
  unfold Refuses
  split
  · split
    · rw [hdis, Bool.and_false]
    · rfl
  · rfl

/-- The object under `k` shows the count, and zero while it is enabled. -/
def ShowsMisses (k : Str) (n : ComputeNode) (c : ℕ) : Prop :=
  ∀ f, n.deref (some k) = .ok f →
    f.missExecCounter = .ofNat c ∧ (f.enableComputation = true → f.missExecCounter = 0)

theorem showsMisses_engineStep {c : ℕ} (h : ShowsMisses k n c) (hs : n.engineStep e = .ok m) :
    ShowsMisses k m
      (if Enables k (n, e) then 0 else c + if Refuses k (n, e) then 1 else 0) := by
  intro f hf
  obtain ⟨f₀, hf₀, hcount, hen⟩ := counted_engineStep hs hf
  obtain ⟨hc, hzero⟩ := h f₀ hf₀
  cases hreset : Enables k (n, e) with
  | true =>
    rw [hreset, if_pos rfl] at hcount
    exact ⟨hcount, fun _ => hcount⟩
  | false =>
    rw [hreset, if_neg Bool.false_ne_true] at hcount
    refine ⟨?_, fun henabled => ?_⟩
    · rw [hcount, hc, if_neg Bool.false_ne_true, UInt32.ofNat_add]
      split_ifs <;> rfl
    · have hbefore := hen henabled hreset
      rw [hcount, hzero hbefore, not_refuses_of_enabled hf₀ hbefore]
      rfl

end ComputeNode

open ComputeNode

/-- **Miss counters count the refusals since the last enable.** In a run of resolutions, switches and
executions at a node where no function has missed an interest, the counter of each function is, at
the end, the number (modulo `2 ^ 32`) of the interests for it that were forwarded while it was
disabled, since it was enabled last; and it is zero while the function is enabled. -/
theorem missExecCounter_eq {n m : ComputeNode} {es : List EngineEvent} (h₀ : n.Unmissed)
    (hrun : run engineStep n es = .ok m) {k : Str} {f : IncComputation}
    (hf : m.deref (some k) = .ok f) :
    f.missExecCounter = .ofNat (countSince (Enables k) (Refuses k) (trace engineStep n es)) ∧
      (f.enableComputation = true → f.missExecCounter = 0) := by
  have hstart : ShowsMisses k n 0 := fun f hf => ⟨h₀ k f hf, fun _ => h₀ k f hf⟩
  exact run_countSince (fun _ _ _ _ => showsMisses_engineStep) hstart hrun f hf

/-- A refusal, the function enabled and disabled again, and two more refusals. -/
def switchedBetween : List EngineEvent :=
  [.resolve (fun _ _ => false) twoParameters, .enable "/f".toList, .disable "/f".toList,
    .resolve (fun _ _ => false) twoParameters, .resolve (fun _ _ => false) twoParameters]

theorem missExecCounter_eq_disabledNode :
    ∃ m f, run engineStep disabledNode switchedBetween = .ok m ∧
      m.deref (some "/f".toList) = .ok f ∧ f.missExecCounter = 2 := by
  have hunmissed : disabledNode.Unmissed := by
    intro k f hf
    rw [deref_eq_ok] at hf
    have hmem := Assoc.mem_of_lookup hf
    cases hmem with
    | head => rfl
    | tail _ hmem => cases hmem
  have hrun : ∃ m, run engineStep disabledNode switchedBetween = .ok m := ⟨_, rfl⟩
  obtain ⟨m, hrun⟩ := hrun
  have hf : ∃ f, m.deref (some "/f".toList) = .ok f := by
    cases hrun
    exact ⟨_, rfl⟩
  obtain ⟨f, hf⟩ := hf
  refine ⟨m, f, hrun, hf, (missExecCounter_eq hunmissed hrun hf).1.trans ?_⟩
  decide

end IncSim
