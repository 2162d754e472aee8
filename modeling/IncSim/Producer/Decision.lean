import IncSim.Producer.Kept
import IncSim.Producer.NullFree

/-!
# The decisions of the resolution engine

What `GetFetchDecisions` answers to an interest for a function of the node, whatever the content
store holds.

* `Asked`: the interest is for the function; `asked_of_getFetchDecisions`: so is all that is not
  refused; `getFetchDecisions_of_asked`: the checks that are left.
* `missingData_fresh`: the names of the parameters that miss, in order.
* `getFetchDecisions_fresh`: the four branches; `ExactDecision`: the decision, branch by branch.
* **`getFetchDecisions_exact`**: decisions are exact, and a fetch that is fulfilled is the last one.
-/

namespace IncSim

open PartialRun

open ComputeNode (Same)

/-! ## An interest for a function of the node -/

/-- The interest names a function, and the node has it. -/
structure Asked (n : ComputeNode) (interest name : Name) (f : IncComputation) : Prop where
  extracted : extractFunctionName interest = some name
  found : n.deref (some name.toUri) = .ok f

/-- A name with a function has two components. -/
theorem size_of_extractFunctionName {interest name : Name}
    (h : extractFunctionName interest = some name) : ¬ interest.size < 2 := by
  intro hlt
  obtain ⟨comps⟩ := interest
  match comps, hlt with
  | [], _ => cases h
  | [c], _ => cases h

section Engine

variable {n n' : ComputeNode} {interest name : Name} {f : IncComputation} {cs : ContentStore}

theorem getFunction_of_deref {k : Str} (h : n.deref (some k) = .ok f) :
    n.getFunction k = (n, some k) := by
  rcases ComputeNode.getFunction_cases (n := n) k with ⟨hget, -⟩ | ⟨-, hnone, -⟩
  · exact hget
  · rw [ComputeNode.deref_eq_ok.mp h] at hnone
    cases hnone

/-- Whatever the engine does not refuse is asked for. -/
theorem asked_of_getFetchDecisions {decision : NREDecision} {names : List Name}
    (hg : getFetchDecisions cs interest n = .ok (n', decision, names)) (hne : decision ≠ .nack) :
    ∃ name f, Asked n interest name f := by
  unfold getFetchDecisions at hg
  split at hg
  · cases hg
    exact absurd rfl hne
  · split at hg
    · cases hg
    · next name hname =>
      rcases ComputeNode.getFunction_cases (n := n) name.toUri with ⟨hget, f, hf⟩ | ⟨hnone, -⟩
      · exact ⟨name, f, hname, ComputeNode.deref_eq_ok.mpr hf⟩
      · dsimp only at hg
        rw [hnone] at hg
        cases hg
        exact absurd rfl hne

/-- The function among the names to fetch. -/
def fetchFunction (f : IncComputation) (name : Name) : List Name :=
  if f.enableComputation then [] else [functionName name]

/-- **What is left of the engine** when the interest is for a function of the node. -/
theorem getFetchDecisions_of_asked (ha : Asked n interest name f) :
    getFetchDecisions cs interest n =
      let params := extractDataNames interest
      let missing := missingData cs 0 params
      if params.length ≠ f.paramNumber.toNat then .ok (n, .nack, fetchFunction f name)
      else if (!f.enableComputation && missing.length == params.length) ||
          n.checkExcludeList name.toUri then
        .ok (n.update name.toUri IncComputation.addMissExecCounter, .forward,
          fetchFunction f name ++ missing)
      else if f.enableComputation && missing.length == 0 then
        .ok (n, .execute, fetchFunction f name ++ missing)
      else .ok (n, .fetch, fetchFunction f name ++ missing) := by
  unfold getFetchDecisions
  rw [if_neg (size_of_extractFunctionName ha.extracted), ha.extracted]
  dsimp only
  rw [getFunction_of_deref ha.found]
  dsimp only
  rw [ha.found, ok_bind]
  rfl

/-! ## Parameters that miss -/

variable {fresh fresh' : Name → Bool}

/-- The parameters that the content store does not have, in order. -/
def missingNames (fresh : Name → Bool) (params : List Name) : List Name :=
  (params.filter fun p => !fresh (dataName p)).map dataName

theorem missingData_fresh (fresh : Name → Bool) (j : ℕ) (params : List Name) :
    missingData (fun _ => fresh) j params = missingNames fresh params := by
  induction params generalizing j with
  | nil => rfl
  | cons p params ih =>
    rw [missingData, ih]
    cases hp : fresh (dataName p) <;> simp [missingNames, hp]

theorem missingNames_length_eq (params : List Name) :
    (missingNames fresh params).length = params.length ↔ ∀ p ∈ params, fresh (dataName p) = false := by
  simp [missingNames, List.length_filter_eq_length_iff]

theorem missingNames_eq_nil (params : List Name) :
    missingNames fresh params = [] ↔ ∀ p ∈ params, fresh (dataName p) = true := by
  simp [missingNames]

/-! ## The four branches -/

/-- The function is excluded, or neither the function nor any parameter is there. -/
def Hopeless (n : ComputeNode) (interest name : Name) (f : IncComputation) (fresh : Name → Bool) :
    Prop :=
  n.checkExcludeList name.toUri = true ∨
    f.enableComputation = false ∧ ∀ p ∈ extractDataNames interest, fresh (dataName p) = false

/-- The function and all parameters are there. -/
def Complete (interest : Name) (f : IncComputation) (fresh : Name → Bool) : Prop :=
  f.enableComputation = true ∧ ∀ p ∈ extractDataNames interest, fresh (dataName p) = true

theorem getFetchDecisions_nack (ha : Asked n interest name f)
    (hlen : (extractDataNames interest).length ≠ f.paramNumber.toNat) :
    getFetchDecisions cs interest n = .ok (n, .nack, fetchFunction f name) := by
  rw [getFetchDecisions_of_asked ha]
  exact if_pos hlen

/-- The branches of an interest with the right number of parameters. -/
theorem getFetchDecisions_fresh (fresh : Name → Bool) (ha : Asked n interest name f)
    (hlen : (extractDataNames interest).length = f.paramNumber.toNat) :
    let names := fetchFunction f name ++ missingNames fresh (extractDataNames interest)
    (Hopeless n interest name f fresh → getFetchDecisions (fun _ => fresh) interest n =
      .ok (n.update name.toUri IncComputation.addMissExecCounter, .forward, names)) ∧
    (¬ Hopeless n interest name f fresh → Complete interest f fresh →
      getFetchDecisions (fun _ => fresh) interest n = .ok (n, .execute, names)) ∧
    (¬ Hopeless n interest name f fresh → ¬ Complete interest f fresh →
      getFetchDecisions (fun _ => fresh) interest n = .ok (n, .fetch, names)) := by
  have hhopeless : ((!f.enableComputation &&
      (missingNames fresh (extractDataNames interest)).length == (extractDataNames interest).length) ||
        n.checkExcludeList name.toUri) = true ↔ Hopeless n interest name f fresh := by
    rw [Bool.or_eq_true, Bool.and_eq_true, beq_iff_eq, missingNames_length_eq,
      Bool.not_eq_true', or_comm]
    rfl
  have hcomplete : (f.enableComputation &&
      (missingNames fresh (extractDataNames interest)).length == 0) = true ↔
        Complete interest f fresh := by
    rw [Bool.and_eq_true, beq_iff_eq, List.length_eq_zero_iff, missingNames_eq_nil]
    rfl
  rw [getFetchDecisions_of_asked ha]
  dsimp only
  rw [missingData_fresh, if_neg (not_not.mpr hlen)]
  refine ⟨fun h => ?_, fun h h' => ?_, fun h h' => ?_⟩
  · rw [if_pos (hhopeless.mpr h)]
  · rw [if_neg (mt hhopeless.mp h), if_pos (hcomplete.mpr h')]
  · rw [if_neg (mt hhopeless.mp h), if_neg (mt hcomplete.mp h')]

/-! ## Exact decisions -/

/-- The decision and the names to fetch are right, branch by branch. -/
structure ExactDecision (n : ComputeNode) (interest name : Name) (f : IncComputation)
    (fresh : Name → Bool) (decision : NREDecision) (names : List Name) : Prop where
  nack : decision = .nack ↔ (extractDataNames interest).length ≠ f.paramNumber.toNat
  forward : decision ≠ .nack → (decision = .forward ↔ Hopeless n interest name f fresh)
  execute : decision ≠ .nack → decision ≠ .forward →
    (decision = .execute ↔ Complete interest f fresh)
  fetch : decision ≠ .nack → decision ≠ .forward → decision ≠ .execute →
    decision = .fetch ∧ names ≠ [] ∧
      names = (if f.enableComputation then [] else [functionName name]) ++
        missingNames fresh (extractDataNames interest)

/-- A fetch has something to ask for. -/
theorem names_ne_nil (h : ¬ Complete interest f fresh) :
    fetchFunction f name ++ missingNames fresh (extractDataNames interest) ≠ [] := by
  intro hnil
  obtain ⟨hfunc, hmiss⟩ := List.append_eq_nil_iff.mp hnil
  refine h ⟨?_, (missingNames_eq_nil _).mp hmiss⟩
  by_contra hen
  rw [fetchFunction, if_neg hen] at hfunc
  cases hfunc

theorem exists_exact (ha : Asked n interest name f) (fresh : Name → Bool) :
    ∃ n' decision names, getFetchDecisions (fun _ => fresh) interest n = .ok (n', decision, names) ∧
      ExactDecision n interest name f fresh decision names ∧ (decision = .fetch → n' = n) := by
  by_cases hlen : (extractDataNames interest).length = f.paramNumber.toNat
  · obtain ⟨hforward, hexecute, hfetch⟩ := getFetchDecisions_fresh fresh ha hlen
    by_cases hh : Hopeless n interest name f fresh
    · exact ⟨_, _, _, hforward hh, by constructor <;> simp [hlen, hh], nofun⟩
    · by_cases hc : Complete interest f fresh
      · exact ⟨_, _, _, hexecute hh hc, by constructor <;> simp [hlen, hh, hc], nofun⟩
      · refine ⟨_, _, _, hfetch hh hc, ?_, fun _ => rfl⟩
        exact
          { nack := by simp [hlen]
            forward := by simp [hh]
            execute := by simp [hc]
            fetch := fun _ _ _ => ⟨rfl, names_ne_nil hc, rfl⟩ }
  · exact ⟨_, _, _, getFetchDecisions_nack ha hlen, by constructor <;> simp [hlen], nofun⟩

/-- An enabled function with all its parameters is executed, on any node where it takes as many
parameters. -/
theorem execute_of_fulfilled (ha : Asked n interest name f)
    (hlen : (extractDataNames interest).length = f.paramNumber.toNat)
    (hsame : Same IncComputation.paramNumber n n') (hen : n'.Enabled name.toUri)
    (hex : n'.checkExcludeList name.toUri = false)
    (hfresh : ∀ p ∈ extractDataNames interest, fresh (dataName p) = true) :
    ∃ names, getFetchDecisions (fun _ => fresh) interest n' = .ok (n', .execute, names) := by
  obtain ⟨g, hg, hparam⟩ := hsame.deref ha.found
  have henabled := ComputeNode.enabled_of_deref hg hen
  obtain ⟨-, hexecute, -⟩ := getFetchDecisions_fresh fresh ⟨ha.extracted, hg⟩
    (hlen.trans (congrArg UInt32.toNat hparam.symm))
  refine ⟨_, hexecute ?_ ⟨henabled, hfresh⟩⟩
  rintro (h | ⟨h, -⟩)
  · rw [hex] at h
    cases h
  · rw [henabled] at h
    cases h

/-- **Decisions are exact, and a fulfilled fetch is final.** On a node without null pointers that
knows the function of the interest, the decision is right in every branch. After a FETCH, the same
interest is executed in any state of the node where the function is enabled and not excluded, when
the content store has every name that was to be fetched and every name that it had before. -/
theorem getFetchDecisions_exact (hn : n.NonNull) (hname : extractFunctionName interest = some name)
    (hknown : n.Known name.toUri) (fresh : Name → Bool) :
    ∃ f n' decision names, n.deref (some name.toUri) = .ok f ∧
      getFetchDecisions (fun _ => fresh) interest n = .ok (n', decision, names) ∧
      ExactDecision n interest name f fresh decision names ∧
      (decision = .fetch → ∀ n'' fresh', Same IncComputation.paramNumber n' n'' →
        n''.Enabled name.toUri → n''.checkExcludeList name.toUri = false →
        (∀ p ∈ extractDataNames interest, dataName p ∈ names ∨ fresh (dataName p) = true →
          fresh' (dataName p) = true) →
        ∃ names', getFetchDecisions (fun _ => fresh') interest n'' = .ok (n'', .execute, names')) := by
  obtain ⟨o, ho⟩ := Option.isSome_iff_exists.mp hknown
  cases o with
  | none => exact absurd ho (ComputeNode.lookup_of_nonNull hn _)
  | some f =>
    have ha : Asked n interest name f := ⟨hname, ComputeNode.deref_eq_ok.mpr ho⟩
    obtain ⟨n', decision, names, hg, hexact, hstays⟩ := exists_exact ha fresh
    refine ⟨f, n', decision, names, ha.found, hg, hexact, ?_⟩
    rintro rfl n'' fresh' hsame hen hex hfresh
    rw [hstays rfl] at hsame
    have hlen : (extractDataNames interest).length = f.paramNumber.toNat := by
      by_contra hlen
      cases hexact.nack.mpr hlen
    obtain ⟨-, -, hnames⟩ := hexact.fetch nofun nofun nofun
    refine execute_of_fulfilled ha hlen hsame hen hex fun p hp => hfresh p hp ?_
    cases hold : fresh (dataName p) with
    | true => exact Or.inr rfl
    | false =>
      left
      rw [hnames]
      refine List.mem_append_right _ (List.mem_map_of_mem (List.mem_filter.mpr ⟨hp, ?_⟩))
      rw [hold]
      rfl

end Engine

/-! ## A disabled function with one of two parameters -/

/-- A node with a disabled function of two parameters. -/
def disabledNode : ComputeNode :=
  .fresh "n".toList 4 1 [{ IncComputation.fresh "f".toList 1 1 2 with enableComputation := false }]

/-- The node after the function has come. -/
def fetchedNode : ComputeNode := disabledNode.update "/f".toList IncComputation.enable

def twoParameters : Name := ⟨[lambdaComp, functionComp, "f".toList, dataComp, ['a'], ['b']]⟩

theorem getFetchDecisions_exact_disabledNode :
    (∃ n', getFetchDecisions (fun _ d => d = dataName ⟨[['a']]⟩) twoParameters disabledNode =
      .ok (n', .fetch, [functionName ⟨["f".toList]⟩, dataName ⟨[['b']]⟩])) ∧
    ∃ names, getFetchDecisions (fun _ _ => true) twoParameters fetchedNode =
      .ok (fetchedNode, .execute, names) := by
  have hname : extractFunctionName twoParameters = some ⟨["f".toList]⟩ := rfl
  obtain ⟨f, n', decision, names, hf, hg, -, hthen⟩ :=
    getFetchDecisions_exact (n := disabledNode) (by decide) hname (by decide)
      fun d => d = dataName ⟨[['a']]⟩
  have hfirst : getFetchDecisions (fun _ d => d = dataName ⟨[['a']]⟩) twoParameters disabledNode =
      .ok (disabledNode, .fetch, [functionName ⟨["f".toList]⟩, dataName ⟨[['b']]⟩]) := rfl
  cases hfirst.symm.trans hg
  refine ⟨⟨_, hfirst⟩, hthen rfl fetchedNode (fun _ => true) ?_ ?_ rfl fun _ _ _ => rfl⟩
  · exact ComputeNode.same_update fun _ => rfl
  · exact ⟨_, rfl, rfl⟩

end IncSim
