import IncSim.Orchestrator.Report

/-!
# The bootstrap phase

The bootstrap handler inverts the report of a node.

* `NodeInfo.ofReport`: the entry of a node that has just been bootstrapped.
* `readBootstrap_report`: what the handler reads from a report.
* **`bootstrap_decodes_report`**: the report of a new node adds exactly its entry to the table.
-/

namespace IncSim

open PartialRun Text

section Decode

variable [NdnCxx] {n : ComputeNode} {fs : List (Str × IncComputation)} {ds : List (Str × UInt32)}
  {t : Table}

/-- The entry that the first report of a node makes. -/
def NodeInfo.ofReport (n : ComputeNode) (fs : List (Str × IncComputation))
    (ds : List (Str × UInt32)) : NodeInfo :=
  { nodeName := NdnCxx.ofUri ('/' :: n.name)
    ram := (n.ram, n.ram), rom := (n.rom, n.rom), cpu := (n.processorCore, n.processorCore)
    nodeBusyCounter := (0, 0)
    links := (n.links.splitOn ',', n.links.splitOn ',')
    runtimesSupported := (n.supportedRuntimes.splitOn ',', n.supportedRuntimes.splitOn ',')
    dataInitial := ds.map .ofReport, dataCurrent := ds.map .ofReport
    functionsInitial := fs.map fun p => .ofReport p.1 p.2
    functionsCurrent := fs.map fun p => .ofReport p.1 p.2 }

/-! ## The tokens of a report -/

section Tokens

variable (e : NodeInfo)

theorem bootstrapField_name (h : Reportable n fs ds) :
    bootstrapField e (StatusField.name.token ('/' :: n.name)) =
      .ok { e with nodeName := NdnCxx.ofUri ('/' :: n.name) } := by
  rw [bootstrapField_token e .name (h.free_name '=' (by decide))]
  rfl

/-- A token with a number. -/
theorem bootstrapField_number (f : StatusField) {g : UInt32 → NodeInfo → NodeInfo} {x : UInt32}
    (hx : FitsInt x)
    (hf : ∀ e v, bootstrapValue e [f.key, v] f = readNumber v >>= fun y => .ok (g y e)) :
    bootstrapField e (f.token (decimal x.toNat)) = .ok (g x e) := by
  rw [bootstrapField_token e f (not_mem_decimal (by decide) _), hf,
    readNumber_decimal hx]
  rfl

/-- A token with a list of names. -/
theorem bootstrapField_list (f : StatusField) {g : List Str → NodeInfo → NodeInfo} {v : Str}
    (hv : '=' ∉ v) (hf : ∀ e v, bootstrapValue e [f.key, v] f = .ok (g (v.splitOn ',') e)) :
    bootstrapField e (f.token v) = .ok (g (v.splitOn ',') e) := by
  rw [bootstrapField_token e f hv, hf]

theorem bootstrapField_data (h : ListsData n.providedData ds) :
    bootstrapField e (StatusField.data.token n.providedData) =
      .ok { e with
              dataInitial := e.dataInitial ++ ds.map .ofReport
              dataCurrent := e.dataCurrent ++ ds.map .ofReport } := by
  rw [bootstrapField_token e .data (h.free '=' (by decide))]
  by_cases hds : ds = []
  · subst hds
    have hnull : n.providedData = "null".toList := h.text
    simp only [bootstrapValue, field_value, bind, Except.bind, hnull, if_true, List.map_nil,
      List.append_nil]
  · simp only [bootstrapValue, field_value, bind, Except.bind, if_neg (h.ne_null hds),
      mapM_readData h hds]

theorem bootstrapField_functions (h : Reportable n fs ds) :
    bootstrapField e (StatusField.functions.token (functionsText fs)) =
      .ok { e with
              functionsInitial := e.functionsInitial ++ fs.map fun p => .ofReport p.1 p.2
              functionsCurrent := e.functionsCurrent ++ fs.map fun p => .ofReport p.1 p.2 } := by
  have hread : (fs.map fun p => functionText p.1 p.2).mapM readFunction =
      .ok (fs.map fun p => .ofReport p.1 p.2) := by
    rw [List.mapM_map]
    exact mapM_eq_ok fun p hp => readFunction_functionText (h.functions p hp)
  rw [bootstrapField_token e .functions (h.free_functions '=' (by decide))]
  simp only [bootstrapValue, field_value, bind, Except.bind,
    splitFunctions_functionsText h.functions, hread]

end Tokens

/-- **What the handler reads** from the report of a node. -/
theorem readBootstrap_report (h : Reportable n fs ds) :
    readBootstrap ([';'].intercalate (n.reportTokens fs)) = .ok (.ofReport n fs ds) := by
  have htype := fun e => bootstrapField_ignored e (k := "processor_type".toList) (by decide)
    (not_mem_decimal (by decide) n.processorSpeed.toNat) rfl
  have hcpu := fun e => bootstrapField_number e .processorCore h.processorCore fun _ _ => rfl
  have hram := fun e => bootstrapField_number e .ram h.ram fun _ _ => rfl
  have hrom := fun e => bootstrapField_number e .rom h.rom fun _ _ => rfl
  have hlinks := fun e => bootstrapField_list e .links (g := fun l e => { e with links := (l, l) })
    (h.free_links '=' (by decide)) fun _ _ => rfl
  have hruntimes := fun e => bootstrapField_list e .runtimes
    (g := fun l e => { e with runtimesSupported := (l, l) }) (h.free_runtimes '=' (by decide))
    fun _ _ => rfl
  have hbusy : ∀ e, bootstrapField e
      (StatusField.nodeBusyCounter.token (decimal n.nodeBusyCounter.toNat)) =
        .ok { e with nodeBusyCounter := (0, 0) } := fun e => by
    rw [bootstrapField_token e .nodeBusyCounter (not_mem_decimal (by decide) _)]
    rfl
  rw [readBootstrap, h.splitOn_report]
  unfold ComputeNode.reportTokens
  rw [run_cons_of_ok (bootstrapField_name _ h), run_cons_of_ok (hcpu _), run_cons_of_ok (htype _),
    run_cons_of_ok (hram _), run_cons_of_ok (hrom _), run_cons_of_ok (hlinks _),
    run_cons_of_ok (hruntimes _), run_cons_of_ok (hbusy _),
    run_cons_of_ok (bootstrapField_data _ h.data), run_cons_of_ok (bootstrapField_functions _ h)]
  rfl

theorem Reportable.atRequest (h : Reportable n fs ds) (i : Name) :
    Reportable (n.atRequest i) fs ds := by
  unfold ComputeNode.atRequest
  split
  · exact { h with nodeBusyCounter := (by decide : FitsInt 0) }
  · exact h

/-- The reply of the NDN handler. -/
theorem ndnStatusFetchHandler_eq (h : Reportable n fs ds) (i : Name) :
    n.ndnStatusFetchHandler i = .ok ([';'].intercalate ((n.atRequest i).reportTokens fs),
      (n.atRequest i).resetNodeBusyCounter) := by
  simp only [ComputeNode.ndnStatusFetchHandler, (h.atRequest i).statusReport_eq]
  rfl

theorem ofReport_atRequest (n : ComputeNode) (i : Name) (fs : List (Str × IncComputation))
    (ds : List (Str × UInt32)) : NodeInfo.ofReport (n.atRequest i) fs ds = .ofReport n fs ds := by
  rw [n.atRequest_eq]
  rfl

/-- The first report of a node adds its entry. -/
theorem bootstrapPhaseHandler_report (h : Reportable n fs ds) (t : Table)
    (huri : UriExact ('/' :: n.name)) :
    bootstrapPhaseHandler t ([';'].intercalate (n.reportTokens fs)) =
      .ok (t.insertNew ('/' :: n.name) (.ofReport n fs ds)) := by
  have hkey : (NodeInfo.ofReport n fs ds).nodeName.toUri = '/' :: n.name := huri
  simp only [bootstrapPhaseHandler, readBootstrap_report h, bind, Except.bind, hkey]
  rfl

/-- **The bootstrap handler inverts the report of a node.** The payload that the NDN handler of a
node builds adds exactly one entry to a table without the node: under the node's URI, with the
node's values in both halves, busy counters 0, its data, and its functions in emission order. -/
theorem bootstrap_decodes_report (h : Reportable n fs ds) (i : Name) (t : Table)
    (huri : UriExact ('/' :: n.name))
    (hnew : t.find? ('/' :: n.name) = none) :
    ∃ payload n' t' e, n.ndnStatusFetchHandler i = .ok (payload, n') ∧
      bootstrapPhaseHandler t payload = .ok t' ∧
      t'.find? ('/' :: n.name) = some e ∧
      (∀ k, k ≠ '/' :: n.name → t'.find? k = t.find? k) ∧
      e.nodeName.toUri = '/' :: n.name ∧
      e.cpu = (n.processorCore, n.processorCore) ∧
      e.ram = (n.ram, n.ram) ∧
      e.rom = (n.rom, n.rom) ∧
      e.links = (n.links.splitOn ',', n.links.splitOn ',') ∧
      e.runtimesSupported = (n.supportedRuntimes.splitOn ',', n.supportedRuntimes.splitOn ',') ∧
      e.nodeBusyCounter = (0, 0) ∧
      e.dataInitial = ds.map .ofReport ∧
      e.dataCurrent = ds.map .ofReport ∧
      e.functionsInitial = (fs.map fun p => .ofReport p.1 p.2) ∧
      e.functionsCurrent = fs.map fun p => .ofReport p.1 p.2 := by
  have hboot := bootstrapPhaseHandler_report (h.atRequest i) t (by rwa [n.atRequest_name])
  rw [ofReport_atRequest, n.atRequest_name] at hboot
  refine ⟨_, _, _, .ofReport n fs ds, ndnStatusFetchHandler_eq h i, hboot, ?_, ?_, huri, rfl, rfl,
    rfl, rfl, rfl, rfl, rfl, rfl, rfl, rfl⟩
  · rw [OrdMap.find?_insertNew, if_pos rfl, hnew, Option.getD_none]
  · intro k hk
    rw [OrdMap.find?_insertNew, if_neg hk]

end Decode

/-! ## A node with two functions -/

section Example

attribute [local instance] plainUri

/-- A function with two operands and one without, links and data. -/
def twoFunctions : ComputeNode :=
  { ComputeNode.fresh "n".toList 8 4
      [{ IncComputation.fresh "f".toList 2 1 2 with inputList := "a,b".toList },
        .fresh "g".toList 1 1 0] with
    links := "l,m".toList, supportedRuntimes := "r".toList, providedData := "d:5".toList }

/-- The functions of `twoFunctions`, in emission order. -/
def twoFunctionsMap : List (Str × IncComputation) :=
  [("f".toList, { IncComputation.fresh "f".toList 2 1 2 with inputList := "a,b".toList }),
    ("g".toList, .fresh "g".toList 1 1 0)]

theorem reportable_twoFunctions : Reportable twoFunctions twoFunctionsMap [("d".toList, 5)] where
  funcMap := rfl
  functions := by
    simp only [twoFunctionsMap, List.forall_mem_cons, List.not_mem_nil, false_imp_iff,
      implies_true, and_true]
    exact ⟨by constructor <;> decide, by constructor <;> decide⟩
  data := ⟨rfl, by decide, by decide⟩
  name := by decide
  links := by decide
  runtimes := by decide
  processorCore := by decide
  ram := by decide
  rom := by decide
  nodeBusyCounter := by decide

theorem bootstrap_decodes_report_twoFunctions :
    ∃ payload n' t' e, twoFunctions.ndnStatusFetchHandler ⟨[]⟩ = .ok (payload, n') ∧
      bootstrapPhaseHandler OrdMap.empty payload = .ok t' ∧ t'.find? "/n".toList = some e ∧
      e.functionsCurrent.map FunctionInfo.inputDataList = [["a".toList, "b".toList], []] := by
  obtain ⟨payload, n', t', e, hpay, hboot, he, -, -, -, -, -, -, -, -, -, -, -, hcur⟩ :=
    bootstrap_decodes_report reportable_twoFunctions ⟨[]⟩ OrdMap.empty rfl rfl
  exact ⟨payload, n', t', e, hpay, hboot, he, by rw [hcur]; rfl⟩

end Example

end IncSim
