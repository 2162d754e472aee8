import IncSim.Orchestrator.History

/-!
# Lost and late bootstraps

Reports that reach the orchestrator in any order, with any of them lost: any list of reports.

* `setNode_unknown`: the setters do nothing for a node that the table does not have.
* `nodeStatusFetchHandler_unknown`: a report of such a node is skipped when it lists no function,
  and else ends where `getFuncIndex` returns nothing.
* `Harmless`: no report ends there, and no report of an unknown node changes the table.
* `KnownFirst`: a report that lists a function comes after the bootstrap of its node.
* **`harmless_iff_knownFirst`**: a sequence of reports is harmless exactly when it is so ordered.
-/

namespace IncSim

open PartialRun Text

section Loss

variable [NdnCxx] {n : ComputeNode} {fs : List (Str × IncComputation)} {ds : List (Str × UInt32)}
  {t t₀ t' : Table} {K : Str} {m : Report} {ms : List Report}

/-! ## A status of an unknown node -/

omit [NdnCxx] in
theorem setNode_unknown (hnone : t.find? K = none) (g : NodeInfo → NodeInfo) :
    Table.setNode t K g = (t, false) := by
  rw [Table.setNode, hnone]

theorem statusField_number_unknown (hnone : t.find? K = none) (f : StatusField)
    {g : UInt32 → NodeInfo → NodeInfo} {x : UInt32} (hx : FitsInt x)
    (hf : ∀ s v, statusValue s [f.key, v] f =
      readNumber v >>= fun y => .ok (s.1, (Table.setNode s.2 s.1 (g y)).1)) :
    statusField (K, t) (f.token (decimal x.toNat)) = .ok (K, t) := by
  rw [statusField_setNumber f hx hf, setNode_unknown hnone]

theorem statusField_list_unknown (hnone : t.find? K = none) (f : StatusField)
    {g : List Str → NodeInfo → NodeInfo} {v : Str} (hv : '=' ∉ v)
    (hf : ∀ s v, statusValue s [f.key, v] f =
      .ok (s.1, (Table.setNode s.2 s.1 (g (v.splitOn ','))).1)) :
    statusField (K, t) (f.token v) = .ok (K, t) := by
  rw [statusField_setList f hv hf, setNode_unknown hnone]

theorem statusField_data_unknown (hnone : t.find? K = none) (h : ListsData n.providedData ds) :
    statusField (K, t) (StatusField.data.token n.providedData) = .ok (K, t) := by
  rw [statusField_setData h, Table.setNodeDataList, setNode_unknown hnone, ite_self]

/-- `getFuncIndex` has no `return` for an unknown node. -/
theorem statusFunction_unknown (hnone : t.find? K = none) {p : Str × IncComputation}
    (hp : ReportableFunction p.1 p.2) :
    statusFunction K t (functionText p.1 p.2) = .error .noReturn := by
  simp only [statusFunction, hp.splitOn_functionText]
  simp only [functionFields, field, List.getElem?_cons_zero, bind, Except.bind,
    Table.getFuncIndex, hnone]

theorem statusField_functions_unknown (hnone : t.find? K = none) (h : Reportable n fs ds) :
    statusField (K, t) (StatusField.functions.token (functionsText fs)) =
      if fs = [] then .ok (K, t) else .error .noReturn := by
  rw [statusField_token _ .functions (h.free_functions '=' (by decide))]
  simp only [statusValue, field_value, bind, Except.bind, splitFunctions_functionsText h.functions]
  cases fs with
  | nil => rfl
  | cons p fs =>
    have hfirst := statusFunction_unknown hnone (h.functions p List.mem_cons_self)
    simp only [List.map_cons, run, List.foldlM_cons, hfirst, bind, Except.bind, reduceCtorEq,
      if_false]

/-- **A status of an unknown node** is skipped when it lists no function. -/
theorem nodeStatusFetchHandler_unknown (h : Reportable n fs ds)
    (hnone : t.find? ('/' :: n.name) = none) :
    nodeStatusFetchHandler t ([';'].intercalate (n.reportTokens fs)) =
      if fs = [] then .ok t else .error .noReturn := by
  have hname : statusField ([], t) (StatusField.name.token ('/' :: n.name)) =
      .ok ('/' :: n.name, t) := by
    rw [statusField_token _ .name (h.free_name '=' (by decide))]
    rfl
  have htype := statusField_ignored ('/' :: n.name, t) (k := "processor_type".toList) (by decide)
    (not_mem_decimal (by decide) n.processorSpeed.toNat) rfl
  have hlinks := statusField_list_unknown hnone .links
    (g := fun l e => { e with links := setHalf e.links l false }) (h.free_links '=' (by decide))
    fun _ _ => rfl
  have hruntimes := statusField_list_unknown hnone .runtimes
    (g := fun l e => { e with runtimesSupported := setHalf e.runtimesSupported l false })
    (h.free_runtimes '=' (by decide)) fun _ _ => rfl
  rw [nodeStatusFetchHandler, h.splitOn_report]
  unfold ComputeNode.reportTokens
  rw [run_cons_of_ok hname,
    run_cons_of_ok (statusField_number_unknown hnone .processorCore h.processorCore fun _ _ => rfl),
    run_cons_of_ok htype,
    run_cons_of_ok (statusField_number_unknown hnone .ram h.ram fun _ _ => rfl),
    run_cons_of_ok (statusField_number_unknown hnone .rom h.rom fun _ _ => rfl),
    run_cons_of_ok hlinks, run_cons_of_ok hruntimes,
    run_cons_of_ok
      (statusField_number_unknown hnone .nodeBusyCounter h.nodeBusyCounter fun _ _ => rfl),
    run_cons_of_ok (statusField_data_unknown hnone h.data)]
  simp only [run, List.foldlM_cons, List.foldlM_nil, statusField_functions_unknown hnone h]
  split <;> rfl

/-! ## One report -/

/-- The key under which a bootstrap enters its node: the URI of the name that is read. -/
def Report.entryKey (m : Report) : Str := (NdnCxx.ofUri m.key).toUri

theorem deliver_bootstrap_entryKey (hreq : m.request = .bootstrapInfo) (t : Table) :
    deliver t m = .ok (t.insertNew m.entryKey (.ofReport m.node m.functions m.data)) := by
  have hread := readBootstrap_report (m.reportable.atRequest m.interest)
  rw [ofReport_atRequest] at hread
  simp only [deliver, ndnStatusFetchHandler_eq m.reportable, hreq, bind, Except.bind]
  show bootstrapPhaseHandler t _ = _
  simp only [bootstrapPhaseHandler, hread, bind, Except.bind]
  rfl

theorem deliver_status_unknown (hreq : m.request = .nodeStatusFetch)
    (hnone : t.find? m.key = none) :
    deliver t m = if m.functions = [] then .ok t else .error .noReturn := by
  have hstatus := nodeStatusFetchHandler_unknown (m.reportable.atRequest m.interest)
    (t := t) (by rwa [ComputeNode.atRequest_name])
  simp only [deliver, ndnStatusFetchHandler_eq m.reportable, hreq]
  exact (handleMessage_nodeStatusFetch t _).trans hstatus

/-- The report asks `getFuncIndex` about a node that the table does not have. -/
def Report.Premature (t : Table) (m : Report) : Prop :=
  m.request = .nodeStatusFetch ∧ m.functions ≠ [] ∧ t.find? m.key = none

/-- A premature report is the only one that faults. -/
theorem deliver_premature (h : m.Premature t) : deliver t m = .error .noReturn := by
  obtain ⟨hreq, hfs, hnone⟩ := h
  rw [deliver_status_unknown hreq hnone, if_neg hfs]

/-- Any other report is handled, and adds the node of a bootstrap to the known ones. -/
theorem deliver_known (h : ¬ m.Premature t) :
    ∃ t', deliver t m = .ok t' ∧ ∀ k, t'.find? k ≠ none ↔
      t.find? k ≠ none ∨ m.request = .bootstrapInfo ∧ m.entryKey = k := by
  cases hreq : m.request with
  | bootstrapInfo =>
    refine ⟨_, deliver_bootstrap_entryKey hreq t, fun k => ?_⟩
    rw [OrdMap.find?_insertNew]
    split_ifs with hk
    · simp [hk]
    · simp [Ne.symm hk]
  | nodeStatusFetch =>
    cases hfind : t.find? m.key with
    | none =>
      have hfs : m.functions = [] := by
        by_contra hfs
        exact h ⟨hreq, hfs, hfind⟩
      refine ⟨t, ?_, fun k => by simp⟩
      rw [deliver_status_unknown hreq hfind, if_pos hfs]
    | some e =>
      refine ⟨_, deliver_status hreq hfind, fun k => ?_⟩
      rw [OrdMap.find?_put]
      split_ifs with hk
      · simp [hk, hfind]
      · simp

/-! ## Sequences of reports -/

/-- No report reaches the end of a function that has to return a value, and no status of an unknown
node changes the table. -/
structure Harmless (t₀ : Table) (ms : List Report) : Prop where
  returns : run deliver t₀ ms ≠ .error .noReturn
  unchanged : ∀ ms₁ m t, ms₁ ++ [m] <+: ms → run deliver t₀ ms₁ = .ok t →
    m.request = .nodeStatusFetch → t.find? m.key = none → deliver t m = .ok t

/-- A status that lists a function is about a node that is in the table at the start or that was
bootstrapped before. -/
def KnownFirst (t₀ : Table) (ms : List Report) : Prop :=
  ∀ ms₁ m, ms₁ ++ [m] <+: ms → m.request = .nodeStatusFetch → m.functions ≠ [] →
    t₀.find? m.key ≠ none ∨ ∃ m' ∈ ms₁, m'.request = .bootstrapInfo ∧ m'.entryKey = m.key

/-- What a run knows: the nodes of the table at the start and the bootstrapped ones. -/
theorem find?_run_deliver (hrun : run deliver t₀ ms = .ok t) (k : Str) :
    t.find? k ≠ none ↔
      t₀.find? k ≠ none ∨ ∃ m ∈ ms, m.request = .bootstrapInfo ∧ m.entryKey = k := by
  induction ms using List.reverseRecOn generalizing t with
  | nil =>
    cases hrun
    simp
  | append_singleton ms m ih =>
    obtain ⟨t₁, h₁, hm⟩ := run_concat.mp hrun
    have hnot : ¬ m.Premature t₁ := by
      intro hpre
      rw [deliver_premature hpre] at hm
      cases hm
    obtain ⟨t₂, h₂, hfind⟩ := deliver_known hnot
    cases hm.symm.trans h₂
    rw [hfind, ih h₁, or_assoc]
    simp only [List.mem_append, List.mem_singleton, or_and_right, exists_or, exists_eq_left]

/-- A run ends, or it ends at a premature report. -/
theorem run_deliver_cases (t₀ : Table) (ms : List Report) :
    (∃ t, run deliver t₀ ms = .ok t) ∨ run deliver t₀ ms = .error .noReturn := by
  induction ms using List.reverseRecOn with
  | nil => exact Or.inl ⟨t₀, rfl⟩
  | append_singleton ms m ih =>
    rw [run_concat_eq]
    obtain ⟨t, ht⟩ | herr := ih
    · rw [ht]
      by_cases hpre : m.Premature t
      · exact Or.inr (deliver_premature hpre)
      · obtain ⟨t', ht', -⟩ := deliver_known hpre
        exact Or.inl ⟨t', ht'⟩
    · rw [herr]
      exact Or.inr rfl

/-- In a run, a premature report is one that `KnownFirst` excludes. -/
theorem premature_iff (hrun : run deliver t₀ ms = .ok t) :
    m.Premature t ↔ m.request = .nodeStatusFetch ∧ m.functions ≠ [] ∧
      ¬ (t₀.find? m.key ≠ none ∨ ∃ m' ∈ ms, m'.request = .bootstrapInfo ∧ m'.entryKey = m.key) := by
  rw [Report.Premature, ← find?_run_deliver hrun, not_not]

/-- **Lost and late bootstraps are harmless exactly** when every status that lists a function comes
after the bootstrap of its node. -/
theorem harmless_iff_knownFirst (t₀ : Table) (ms : List Report) :
    Harmless t₀ ms ↔ KnownFirst t₀ ms := by
  constructor
  · intro h ms₁ m hp hreq hfs
    by_contra hunknown
    -- the run reaches the report, which ends it
    obtain ⟨t, ht⟩ | herr := run_deliver_cases t₀ ms₁
    · have hpre := (premature_iff ht).mpr ⟨hreq, hfs, hunknown⟩
      have herr : run deliver t₀ (ms₁ ++ [m]) = .error .noReturn := by
        rw [run_concat_eq, ht]
        exact deliver_premature hpre
      exact h.returns (run_error_of_isPrefix hp herr)
    · exact h.returns (run_error_of_isPrefix ((List.prefix_append _ _).trans hp) herr)
  · intro h
    have hknown : ∀ ms₁ m t, ms₁ ++ [m] <+: ms → run deliver t₀ ms₁ = .ok t → ¬ m.Premature t := by
      intro ms₁ m t hp ht hpre
      obtain ⟨hreq, hfs, hunknown⟩ := (premature_iff ht).mp hpre
      exact hunknown (h ms₁ m hp hreq hfs)
    refine ⟨run_ne_error fun ms₁ m t hp ht => ?_, fun ms₁ m t hp ht hreq hnone => ?_⟩
    · obtain ⟨t', ht', -⟩ := deliver_known (hknown ms₁ m t hp ht)
      rw [ht']
      exact ok_ne_error
    · have hfs : m.functions = [] := by
        by_contra hfs
        exact hknown ms₁ m t hp ht ⟨hreq, hfs, hnone⟩
      rw [deliver_status_unknown hreq hnone, if_pos hfs]

end Loss

/-! ## A status whose bootstrap was lost -/

section Example

attribute [local instance] plainUri

theorem lostBootstrap_not_harmless : ¬ Harmless OrdMap.empty [statusN] := by
  intro h
  refine h.returns ?_
  have hpre : Report.Premature OrdMap.empty statusN := ⟨rfl, by decide, rfl⟩
  rw [run, List.foldlM_cons, deliver_premature hpre]
  rfl

end Example

end IncSim
