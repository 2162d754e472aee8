import IncSim.Producer.Allowed
import IncSim.Producer.Calls

/-!
# The function that is checked and the function that runs

`OnInterest` takes the last `/Function` of a name, `GetFetchDecisions` the first one.

* `FirstIsLast`: the first and the last `/Function` of a name are followed by the same component.
* `func_of_deref`: the function that the app takes, when it is there.
* **`func_checked_iff`**: for an interest that is fetched for or executed, the app takes the function
  that the engine checked exactly when the first one is the last one.
-/

namespace IncSim

open PartialRun

/-- The first and the last `/Function` of a name are followed by the same component. -/
def FirstIsLast (interest : Name) : Prop :=
  (functionKeys interest.comps).head? = (functionKeys interest.comps).getLast?

instance (interest : Name) : Decidable (FirstIsLast interest) := inferInstanceAs (Decidable (_ = _))

variable {h : Host} {c : Call} {now : Time} {cs : ContentStore} {interest : Name} {node : ComputeNode}
  {decision : NREDecision} {names : List Name}

/-- The call of a compute interest. -/
theorem eq_of_mem_interestCalls (hc : c ∈ h.interestCalls now cs interest) :
    c = ⟨⟨(Host.findFunction h.node none interest.comps).1, h.app⟩, now, cs,
      ⟨interest, (Host.findFunction h.node none interest.comps).2, []⟩⟩ := by
  unfold Host.interestCalls at hc
  split at hc
  · cases hc
  · split at hc
    · exact List.mem_singleton.mp hc
    · cases hc

/-- The function that the app takes is the last one, if it is there. -/
theorem func_of_deref {n : ComputeNode} {l : List Str} {k : Str} {p : Ptr}
    (hk : (functionKeys l).getLast? = some k) (hp : (Host.findFunction n none l).2 = p)
    (hne : p ≠ none) : p = some k := by
  obtain ⟨m, -, hget⟩ := Host.findFunction_last (n := n) (p := none) hk
  rcases ComputeNode.getFunction_cases (n := m) k with ⟨hsome, -⟩ | ⟨hnone, -⟩
  · rw [← hp, hget, hsome]
  · exact absurd (hp.symm.trans (hget.trans hnone)) hne

/-- **The function that is checked is the function that runs** exactly when it is the first and the
last one. -/
theorem func_checked_iff (hc : c ∈ h.interestCalls now cs interest)
    (hres : Host.resolve c.cs c.ics c.host.node = .ok (node, decision, names))
    (hd : decision = .fetch ∨ decision = .execute) :
    ∃ name f, Asked c.host.node interest name f ∧
      (c.ics.func = some name.toUri ↔ FirstIsLast interest) := by
  obtain rfl := eq_of_mem_interestCalls hc
  obtain ⟨⟨n', engine, names'⟩, hg, f₀, hf₀, hq⟩ := by
    simpa only [Host.resolve, bind_eq_ok, pure_eq_ok] using hres
  dsimp only at hg hf₀ hq ⊢
  have hengine : engine ≠ .nack := by
    rintro rfl
    split at hq
    · cases hq
      rcases hd with hd | hd <;> cases hd
    · cases hq
      rcases hd with hd | hd <;> cases hd
  obtain ⟨name, f, ha⟩ := asked_of_getFetchDecisions hg hengine
  refine ⟨name, f, ha, ?_⟩
  obtain ⟨comp, hcomp, rfl⟩ := Option.map_eq_some_iff.mp ha.extracted
  have hfirst := head?_functionKeys hcomp
  cases hlast : (functionKeys interest.comps).getLast? with
  | none =>
    rw [List.getLast?_eq_none_iff] at hlast
    rw [hlast] at hfirst
    cases hfirst
  | some k =>
    have hne : (Host.findFunction h.node none interest.comps).2 ≠ none := by
      intro hnone
      rw [hnone] at hf₀
      cases hf₀
    have hfunc := func_of_deref hlast rfl hne
    rw [FirstIsLast, hfirst, hlast, hfunc, eq_comm]

/-! ## A nested expression -/

/-- A node with an enabled function `f` of one parameter and a disabled function `g`. -/
def enabledAndDisabled : Host :=
  ⟨.fresh "n".toList 10 4 [.fresh "f".toList 1 1 1,
    { IncComputation.fresh "g".toList 1 1 0 with enableComputation := false }],
   .start ⟨1, nfnProducerAppFace⟩⟩

/-- `f` applied to the result of `g` and to `x`. -/
def nestedInterest : Name :=
  ⟨[lambdaComp, functionComp, "f".toList, dataComp, functionComp, "g".toList, dataComp, "x".toList]⟩

/-- The call for the nested expression. -/
def nestedCall : Call :=
  ⟨enabledAndDisabled, 0, fun _ _ => true, ⟨nestedInterest, some "/g".toList, []⟩⟩

theorem nestedCall_mem :
    nestedCall ∈ enabledAndDisabled.interestCalls 0 (fun _ _ => true) nestedInterest := by
  have heq : enabledAndDisabled.interestCalls 0 (fun _ _ => true) nestedInterest = [nestedCall] := rfl
  rw [heq]
  exact List.mem_cons_self

/-- The engine checks `f` and decides to execute, and the app runs `g`, which is disabled. -/
theorem func_checked_fails :
    ¬ ∀ (h : Host) (c : Call) (now : Time) (cs : ContentStore) (interest : Name) (node : ComputeNode)
      (decision : NREDecision) (names : List Name), c ∈ h.interestCalls now cs interest →
        Host.resolve c.cs c.ics c.host.node = .ok (node, decision, names) →
          decision = .fetch ∨ decision = .execute →
            ∃ name f, Asked c.host.node interest name f ∧ c.ics.func = some name.toUri := by
  intro hall
  obtain ⟨name, f, ha, hfunc⟩ := hall _ _ _ _ _ enabledAndDisabled.node .execute [] nestedCall_mem
    rfl (Or.inr rfl)
  have hname : extractFunctionName nestedInterest = some ⟨["f".toList]⟩ := rfl
  cases hname.symm.trans ha.extracted
  revert hfunc
  decide

theorem func_checked_iff_nestedCall :
    ∃ name f, Asked enabledAndDisabled.node nestedInterest name f ∧
      (some "/g".toList = some name.toUri ↔ FirstIsLast nestedInterest) := by
  have hres : Host.resolve nestedCall.cs nestedCall.ics nestedCall.host.node =
    .ok (enabledAndDisabled.node, .execute, []) := rfl
  exact func_checked_iff nestedCall_mem hres (Or.inr rfl)

end IncSim
