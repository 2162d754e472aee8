import IncSim.Orchestrator.Storage

/-!
# The availability guard

`OrchestrationManagementApp::CheckAtleastOnceEnabled` is asked before a function is disabled at a
node. It looks for another node that has the function enabled and was not given away itself, and
gives the node away if there is one.

* `EnabledIn`, `hasWitness`, `checkAtleastOnceEnabled`: the guard and what it looks for.
* `GuardState`, `guardStep`, `guardRun`: calls of the guard with their answers.
* `Guarded`, `guarded_guardStep`: whatever is given away is enabled at a node that is not.
* **`guard_sound`**: disabling a function wherever the guard agreed leaves it enabled somewhere.
-/

namespace IncSim

section Guard

variable [NdnCxx]

/-- The node has the function enabled. -/
def EnabledIn (nodes : List (Str × NodeInfo)) (K func_name : Str) : Prop :=
  ∃ node f, (K, node) ∈ nodes ∧ f ∈ node.functionsCurrent ∧
    f.funcName = NdnCxx.ofUri func_name ∧ f.status = true

/-- The condition in the two loops of the guard. -/
def hasWitness (t : Table) (m_excluded_list : List (Str × Str)) (compute_node_name func_name : Str) :
    Bool :=
  t.entries.any fun iter => iter.2.functionsCurrent.any fun f =>
    decide (f.funcName = NdnCxx.ofUri func_name) && decide (iter.1 ≠ compute_node_name) &&
      f.status && !m_excluded_list.contains (iter.1, func_name)

/-- `CheckAtleastOnceEnabled`: `m_excluded_list` after the call, and the answer. -/
def checkAtleastOnceEnabled (t : Table) (m_excluded_list : List (Str × Str))
    (compute_node_name func_name : Str) : List (Str × Str) × Bool :=
  if hasWitness t m_excluded_list compute_node_name func_name then
    (m_excluded_list ++ [(compute_node_name, func_name)], true)
  else (m_excluded_list, false)

theorem hasWitness_iff {t : Table} {excluded : List (Str × Str)} {K f : Str} :
    hasWitness t excluded K f = true ↔
      ∃ W, EnabledIn t.entries W f ∧ W ≠ K ∧ (W, f) ∉ excluded := by
  unfold hasWitness EnabledIn
  simp only [List.any_eq_true, Bool.and_eq_true, decide_eq_true_eq, Bool.not_eq_true',
    List.contains_eq_mem, decide_eq_false_iff_not]
  constructor
  · rintro ⟨⟨W, node⟩, hnode, g, hg, ⟨⟨hname, hne⟩, hst⟩, hex⟩
    exact ⟨W, ⟨node, g, hnode, hg, hname, hst⟩, hne, hex⟩
  · rintro ⟨W, ⟨node, g, hnode, hg, hname, hst⟩, hne, hex⟩
    exact ⟨(W, node), hnode, g, hg, ⟨⟨hname, hne⟩, hst⟩, hex⟩

/-! ## Calls of the guard -/

/-- `m_excluded_list`, and the calls so far with their answers. -/
structure GuardState where
  excluded : List (Str × Str)
  answers : List ((Str × Str) × Bool)

/-- A call for a node and a function. -/
def guardStep (t : Table) (s : GuardState) (c : Str × Str) : GuardState :=
  let r := checkAtleastOnceEnabled t s.excluded c.1 c.2
  ⟨r.1, s.answers ++ [(c, r.2)]⟩

/-- Calls from the moment on at which the list was cleared. -/
def guardRun (t : Table) (calls : List (Str × Str)) : GuardState :=
  calls.foldl (guardStep t) ⟨[], []⟩

/-- The list has the calls that the guard agreed to, and each of their functions is enabled at a
node that is not given away. -/
structure Guarded (t : Table) (s : GuardState) : Prop where
  excluded : ∀ c, c ∈ s.excluded ↔ (c, true) ∈ s.answers
  witness : ∀ K f, (K, f) ∈ s.excluded → ∃ W, EnabledIn t.entries W f ∧ (W, f) ∉ s.excluded

variable {t : Table} {s : GuardState} {c : Str × Str}

/-- **One call.** The witness that it finds is not the node that it gives away. -/
theorem guarded_guardStep (h : Guarded t s) : Guarded t (guardStep t s c) := by
  unfold guardStep checkAtleastOnceEnabled
  split
  · next hw =>
    obtain ⟨W, hen, hne, hex⟩ := hasWitness_iff.mp hw
    refine ⟨fun c' => ?_, fun K f hK => ?_⟩
    · simp [h.excluded]
    · by_cases hf : f = c.2
      · subst hf
        refine ⟨W, hen, fun hmem => ?_⟩
        rcases List.mem_append.mp hmem with hold | hnew
        · exact hex hold
        · exact hne (congrArg Prod.fst (List.mem_singleton.mp hnew))
      · have hother : ∀ K', (K', f) ∈ s.excluded ++ [c] → (K', f) ∈ s.excluded := by
          intro K' hK'
          rcases List.mem_append.mp hK' with hold | hnew
          · exact hold
          · exact absurd (congrArg Prod.snd (List.mem_singleton.mp hnew)) hf
        obtain ⟨W', hen', hex'⟩ := h.witness K f (hother K hK)
        exact ⟨W', hen', fun hmem => hex' (hother W' hmem)⟩
  · refine ⟨fun c' => ?_, h.witness⟩
    simp [h.excluded]

theorem guarded_guardRun (t : Table) (calls : List (Str × Str)) : Guarded t (guardRun t calls) := by
  induction calls using List.reverseRecOn with
  | nil => exact ⟨fun c => by simp [guardRun], fun K f hK => absurd hK List.not_mem_nil⟩
  | append_singleton calls c ih =>
    rw [guardRun, List.foldl_append]
    exact guarded_guardStep ih

/-! ## Disabling what the guard agreed to -/

/-- The function disabled at some of the nodes. -/
def disableAt (func_name : Str) (ks : List Str) (nodes : List (Str × NodeInfo)) :
    List (Str × NodeInfo) :=
  nodes.map fun it => if it.1 ∈ ks then
    (it.1, { it.2 with functionsCurrent := it.2.functionsCurrent.map fun f =>
      if f.funcName = NdnCxx.ofUri func_name then { f with status := false } else f })
    else it

theorem enabledIn_disableAt {nodes : List (Str × NodeInfo)} {K f : Str} {ks : List Str}
    (h : EnabledIn nodes K f) (hK : K ∉ ks) : EnabledIn (disableAt f ks nodes) K f := by
  obtain ⟨node, g, hnode, hrest⟩ := h
  refine ⟨node, g, List.mem_map.mpr ⟨(K, node), hnode, ?_⟩, hrest⟩
  exact if_neg hK

/-- The nodes for which the guard agreed to disable the function. -/
def GuardState.granted (s : GuardState) (func_name : Str) : List Str :=
  (s.answers.filter fun q => q.2 && q.1.2 == func_name).map fun q => q.1.1

omit [NdnCxx] in
theorem mem_granted {K f : Str} : K ∈ s.granted f ↔ ((K, f), true) ∈ s.answers := by
  unfold GuardState.granted
  rw [List.mem_map]
  constructor
  · rintro ⟨⟨⟨K', f'⟩, b⟩, hq, rfl⟩
    obtain ⟨hmem, hb⟩ := List.mem_filter.mp hq
    simp only [Bool.and_eq_true, beq_iff_eq] at hb
    obtain ⟨rfl, rfl⟩ := hb
    exact hmem
  · intro hmem
    exact ⟨((K, f), true), List.mem_filter.mpr ⟨hmem, by simp⟩, rfl⟩

end Guard

/-- **The availability guard is sound.** After any calls from a cleared list, every function that the
guard agreed to disable somewhere is enabled at a node that is not on the list with it; so it is
still enabled somewhere when it is disabled at exactly the nodes for which the guard agreed. -/
theorem guard_sound [NdnCxx] (t : Table) (calls : List (Str × Str)) {K f : Str}
    (hgranted : ((K, f), true) ∈ (guardRun t calls).answers) :
    (∃ W, EnabledIn t.entries W f ∧ (W, f) ∉ (guardRun t calls).excluded) ∧
      ∃ W, EnabledIn (disableAt f ((guardRun t calls).granted f) t.entries) W f := by
  have hguarded := guarded_guardRun t calls
  obtain ⟨W, hen, hex⟩ := hguarded.witness K f ((hguarded.excluded _).mpr hgranted)
  refine ⟨⟨W, hen, hex⟩, W, enabledIn_disableAt hen fun hW => hex ?_⟩
  exact (hguarded.excluded _).mpr (mem_granted.mp hW)

/-- Two nodes at which `f` is enabled. -/
def enabledTwice : Table :=
  let node := { NodeInfo.new with functionsCurrent :=
    [{ funcName := ⟨["f".toList]⟩, funcExeCounter := 0, funcInterestCounter := 0, cores := 1, ram := 1
       rom := 0, sizeBytes := 0, inputDataList := [], status := true }] }
  ⟨[("/a".toList, node), ("/b".toList, node)], by decide⟩

/-- The guard gives the first of them away, and then not the second. -/
theorem guard_sound_enabledTwice :
    ∃ W, (W, "/f".toList) ∉ (@guardRun plainUri enabledTwice
      [("/a".toList, "/f".toList), ("/b".toList, "/f".toList)]).excluded := by
  obtain ⟨⟨W, -, hW⟩, -⟩ := @guard_sound plainUri enabledTwice
    [("/a".toList, "/f".toList), ("/b".toList, "/f".toList)] "/a".toList "/f".toList (by decide)
  exact ⟨W, hW⟩

end IncSim
