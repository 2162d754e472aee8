import Mathlib.Data.List.Nodup
import IncSim.Lib.LastWriter
import IncSim.Orchestrator.Bootstrap

/-!
# Status updates

A later report of a node overwrites the current values of its entry.

* `FunctionInfo.update`, `NodeInfo.update`: a record and an entry after a report.
* **`nodeStatusFetchHandler_report`**: the handler makes exactly this change.
* `FunctionInfo.Shows`: the record has the values of a function;
  **`find?_foldl_updateFunction`**: after a report, each of its functions has such a record.
-/

namespace IncSim

open PartialRun Text

section Update

variable [NdnCxx] {n : ComputeNode} {fs : List (Str × IncComputation)} {ds : List (Str × UInt32)}
  {t : Table} {K : Str} {e₀ e : NodeInfo} {i : ℕ}

/-! ## One function -/

/-- What a report writes into the record of one function: the operands are appended. -/
def FunctionInfo.update (p : Str × IncComputation) (r : FunctionInfo) : FunctionInfo :=
  { funcName := NdnCxx.ofUri ('/' :: p.1), status := p.2.enableComputation
    funcExeCounter := p.2.execCounter, funcInterestCounter := p.2.missExecCounter
    cores := p.2.cpu, ram := p.2.ram, rom := p.2.rom, sizeBytes := p.2.funcSize
    inputDataList := r.inputDataList ++ p.2.inputList.splitOn ',' }

/-- The function list after the report of one function. -/
def updateFunction (rs : List FunctionInfo) (p : Str × IncComputation) : List FunctionInfo :=
  match rs.findIdx? fun r => r.funcName.toUri = '/' :: p.1 with
  | some i => rs.modify i (.update p)
  | none => rs

omit [NdnCxx] in
theorem setNode_put (he : t.find? K = some e₀) (g : NodeInfo → NodeInfo) :
    Table.setNode (t.put K e) K g = (t.put K (g e), true) := by
  rw [Table.setNode, OrdMap.find?_put_self he]
  exact congrArg (·, true) (OrdMap.modify_put t K e g)

omit [NdnCxx] in
theorem setFunc_put (he : t.find? K = some e₀) (hi : i < e.functionsCurrent.length)
    (g : FunctionInfo → FunctionInfo) :
    Table.setFunc (t.put K e) K i g false = .ok (t.put K (e.modifyFunc i g false), true) := by
  have hlen : i < (e.functions false).length := hi
  rw [Table.setFunc, OrdMap.find?_put_self he]
  simp only [if_pos hlen, OrdMap.modify_put]

omit [NdnCxx] in
theorem setFunc_modifyFunc (he : t.find? K = some e₀) (hi : i < e.functionsCurrent.length)
    (g g' : FunctionInfo → FunctionInfo) :
    Table.setFunc (t.put K (e.modifyFunc i g false)) K i g' false =
      .ok (t.put K (e.modifyFunc i (g' ∘ g) false), true) := by
  have hlen : i < (e.modifyFunc i g false).functionsCurrent.length := by
    simpa [NodeInfo.modifyFunc] using hi
  rw [setFunc_put he hlen]
  simp only [NodeInfo.modifyFunc, Bool.false_eq_true, if_false, List.modify_modify_eq]

/-- **One function of a report.** -/
theorem statusFunction_functionText (he : t.find? K = some e₀) {p : Str × IncComputation}
    (hp : ReportableFunction p.1 p.2) :
    statusFunction K (t.put K e) (functionText p.1 p.2) =
      .ok (t.put K { e with functionsCurrent := updateFunction e.functionsCurrent p }) := by
  have hinputs : p.2.inputList.splitOn ',' ≠ [] := List.splitOn_ne_nil _ _
  simp only [statusFunction, hp.splitOn_functionText]
  simp only [functionFields, field, List.getElem?_cons_zero, List.getElem?_cons_succ, bind,
    Except.bind, readNumber_decimal hp.execCounter, readNumber_decimal hp.missExecCounter,
    readNumber_decimal hp.cpu, readNumber_decimal hp.ram, readNumber_decimal hp.rom,
    readNumber_decimal hp.funcSize, flagText_eq_one, Table.getFuncIndex, OrdMap.find?_put_self he]
  cases hidx : (e.functions false).findIdx? fun r => r.funcName.toUri = '/' :: p.1 with
  | none =>
    have hsame : updateFunction e.functionsCurrent p = e.functionsCurrent := by
      rw [updateFunction, show e.functionsCurrent = e.functions false from rfl, hidx]
    rw [hsame]
    rfl
  | some i =>
    have hi : i < e.functionsCurrent.length := (List.findIdx?_eq_some_iff_getElem.mp hidx).1
    have hupd : updateFunction e.functionsCurrent p = e.functionsCurrent.modify i (.update p) := by
      rw [updateFunction, show e.functionsCurrent = e.functions false from rfl, hidx]
    simp only [if_true, Table.setFuncName, Table.setFuncStatus, Table.setFuncExeCounter,
      Table.setFuncInterestCounter, Table.setFuncCpu, Table.setFuncRam, Table.setFuncRom,
      Table.setFuncSize, Table.setFuncInputs, setFunc_put he hi, setFunc_modifyFunc he hi,
      if_neg hinputs, hupd]
    rfl

theorem run_statusFunction (he : t.find? K = some e₀) (h : ∀ p ∈ fs, ReportableFunction p.1 p.2) :
    run (statusFunction K) (t.put K e) (fs.map fun p => functionText p.1 p.2) =
      .ok (t.put K { e with functionsCurrent := fs.foldl updateFunction e.functionsCurrent }) := by
  induction fs generalizing e with
  | nil => rfl
  | cons p fs ih =>
    rw [List.map_cons, run_cons_of_ok (statusFunction_functionText he (h p List.mem_cons_self))]
    exact ih fun p' hp' => h p' (List.mem_cons_of_mem _ hp')

/-! ## The tokens of a report -/

/-- The entry of a node after one of its later reports. -/
def NodeInfo.update (n : ComputeNode) (fs : List (Str × IncComputation))
    (ds : List (Str × UInt32)) (e : NodeInfo) : NodeInfo :=
  { e with
    ram := (e.ram.1, n.ram), rom := (e.rom.1, n.rom)
    nodeBusyCounter := (e.nodeBusyCounter.1, n.nodeBusyCounter)
    links := (e.links.1, n.links.splitOn ',')
    runtimesSupported := (e.runtimesSupported.1, n.supportedRuntimes.splitOn ',')
    dataCurrent := if ds = [] then e.dataCurrent else ds.map .ofReport
    functionsCurrent := fs.foldl updateFunction e.functionsCurrent }

/-- A token with a number. -/
theorem statusField_setNumber (f : StatusField) {g : UInt32 → NodeInfo → NodeInfo} {x : UInt32}
    (hx : FitsInt x) (hf : ∀ s v, statusValue s [f.key, v] f =
      readNumber v >>= fun y => .ok (s.1, (Table.setNode s.2 s.1 (g y)).1)) :
    statusField (K, t) (f.token (decimal x.toNat)) = .ok (K, (Table.setNode t K (g x)).1) := by
  rw [statusField_token _ f (not_mem_decimal (by decide) _), hf, readNumber_decimal hx]
  rfl

/-- A token with a list of names. -/
theorem statusField_setList (f : StatusField) {g : List Str → NodeInfo → NodeInfo} {v : Str}
    (hv : '=' ∉ v) (hf : ∀ s v, statusValue s [f.key, v] f =
      .ok (s.1, (Table.setNode s.2 s.1 (g (v.splitOn ','))).1)) :
    statusField (K, t) (f.token v) = .ok (K, (Table.setNode t K (g (v.splitOn ','))).1) := by
  rw [statusField_token _ f hv, hf]

/-- The token with the data. -/
theorem statusField_setData (h : ListsData n.providedData ds) :
    statusField (K, t) (StatusField.data.token n.providedData) =
      .ok (K, if ds = [] then t else (t.setNodeDataList K (ds.map .ofReport) false).1) := by
  rw [statusField_token _ .data (h.free '=' (by decide))]
  by_cases hds : ds = []
  · subst hds
    have hnull : n.providedData = "null".toList := h.text
    simp only [statusValue, field_value, bind, Except.bind, hnull, if_true]
  · simp only [statusValue, field_value, bind, Except.bind, if_neg (h.ne_null hds),
      mapM_readData h hds, if_neg hds]

theorem statusField_number (he : t.find? K = some e₀) (f : StatusField)
    {g : UInt32 → NodeInfo → NodeInfo} {x : UInt32} (hx : FitsInt x)
    (hf : ∀ s v, statusValue s [f.key, v] f =
      readNumber v >>= fun y => .ok (s.1, (Table.setNode s.2 s.1 (g y)).1)) :
    statusField (K, t.put K e) (f.token (decimal x.toNat)) = .ok (K, t.put K (g x e)) := by
  rw [statusField_setNumber f hx hf, setNode_put he]

theorem statusField_list (he : t.find? K = some e₀) (f : StatusField)
    {g : List Str → NodeInfo → NodeInfo} {v : Str} (hv : '=' ∉ v)
    (hf : ∀ s v, statusValue s [f.key, v] f =
      .ok (s.1, (Table.setNode s.2 s.1 (g (v.splitOn ','))).1)) :
    statusField (K, t.put K e) (f.token v) = .ok (K, t.put K (g (v.splitOn ',') e)) := by
  rw [statusField_setList f hv hf, setNode_put he]

theorem statusField_data (he : t.find? K = some e₀) (h : ListsData n.providedData ds) :
    statusField (K, t.put K e) (StatusField.data.token n.providedData) =
      .ok (K, t.put K { e with
                dataCurrent := if ds = [] then e.dataCurrent else ds.map .ofReport }) := by
  rw [statusField_setData h]
  by_cases hds : ds = []
  · rw [if_pos hds, if_pos hds]
  · rw [if_neg hds, if_neg hds, Table.setNodeDataList, setNode_put he]
    rfl

theorem statusField_functions (he : t.find? K = some e₀) (h : Reportable n fs ds) :
    statusField (K, t.put K e) (StatusField.functions.token (functionsText fs)) =
      .ok (K, t.put K { e with
                functionsCurrent := fs.foldl updateFunction e.functionsCurrent }) := by
  rw [statusField_token _ .functions (h.free_functions '=' (by decide))]
  simp only [statusValue, field_value, bind, Except.bind, splitFunctions_functionsText h.functions,
    run_statusFunction he h.functions]

/-- **The status handler** overwrites the current values of the entry. The token `processor_core` is
written to the current RAM, where the token `RAM`, which comes later, overwrites it. -/
theorem nodeStatusFetchHandler_report (h : Reportable n fs ds)
    (he : t.find? ('/' :: n.name) = some e) :
    nodeStatusFetchHandler t ([';'].intercalate (n.reportTokens fs)) =
      .ok (t.put ('/' :: n.name) (e.update n fs ds)) := by
  have hname : statusField ([], t) (StatusField.name.token ('/' :: n.name)) =
      .ok ('/' :: n.name, t.put ('/' :: n.name) e) := by
    rw [statusField_token _ .name (h.free_name '=' (by decide)), OrdMap.put_self he]
    rfl
  have htype := fun s => statusField_ignored s (k := "processor_type".toList) (by decide)
    (not_mem_decimal (by decide) n.processorSpeed.toNat) rfl
  have hcpu := fun e => statusField_number (e := e) he .processorCore h.processorCore fun _ _ => rfl
  have hram := fun e => statusField_number (e := e) he .ram h.ram fun _ _ => rfl
  have hrom := fun e => statusField_number (e := e) he .rom h.rom fun _ _ => rfl
  have hbusy := fun e =>
    statusField_number (e := e) he .nodeBusyCounter h.nodeBusyCounter fun _ _ => rfl
  have hlinks := fun e => statusField_list (e := e) he .links
    (g := fun l e => { e with links := setHalf e.links l false }) (h.free_links '=' (by decide))
    fun _ _ => rfl
  have hruntimes := fun e => statusField_list (e := e) he .runtimes
    (g := fun l e => { e with runtimesSupported := setHalf e.runtimesSupported l false })
    (h.free_runtimes '=' (by decide)) fun _ _ => rfl
  rw [nodeStatusFetchHandler, h.splitOn_report]
  unfold ComputeNode.reportTokens
  rw [run_cons_of_ok hname, run_cons_of_ok (hcpu _), run_cons_of_ok (htype _),
    run_cons_of_ok (hram _), run_cons_of_ok (hrom _), run_cons_of_ok (hlinks _),
    run_cons_of_ok (hruntimes _), run_cons_of_ok (hbusy _),
    run_cons_of_ok (statusField_data he h.data), run_cons_of_ok (statusField_functions he h)]
  rfl

/-! ## What an entry shows -/

/-- The record has the values of the function. -/
structure FunctionInfo.Shows (r : FunctionInfo) (f : IncComputation) : Prop where
  status : r.status = f.enableComputation
  funcExeCounter : r.funcExeCounter = f.execCounter
  funcInterestCounter : r.funcInterestCounter = f.missExecCounter
  cores : r.cores = f.cpu
  ram : r.ram = f.ram
  rom : r.rom = f.rom
  sizeBytes : r.sizeBytes = f.funcSize

/-- The URI of a record's function. -/
def FunctionInfo.uri (r : FunctionInfo) : Str := r.funcName.toUri

theorem find?_updateFunction {p : Str × IncComputation} (huri : UriExact ('/' :: p.1))
    (rs : List FunctionInfo) (k : Str) :
    ((updateFunction rs p).find? fun r => r.uri = k) =
      if k = '/' :: p.1 then (rs.find? fun r => r.uri = '/' :: p.1).map (.update p)
      else rs.find? fun r => r.uri = k := by
  unfold updateFunction
  split
  · next i hi => exact Assoc.find?_modify hi (fun _ _ => huri) k
  · next hi =>
    split
    · next hk =>
      have hnone : (rs.find? fun r => r.uri = '/' :: p.1) = none := by
        rw [List.findIdx?_eq_none_iff] at hi
        exact List.find?_eq_none.mpr fun r hr h =>
          Bool.false_ne_true ((hi r hr).symm.trans h)
      rw [hk, hnone, Option.map_none]
    · rfl

theorem map_uri_updateFunction {p : Str × IncComputation} (huri : UriExact ('/' :: p.1))
    (rs : List FunctionInfo) :
    (updateFunction rs p).map FunctionInfo.uri = rs.map FunctionInfo.uri := by
  unfold updateFunction
  split
  · next i hi =>
    obtain ⟨r₀, hr₀, hk⟩ := Assoc.findIdx?_key hi
    refine Assoc.map_key_modify fun r hr => ?_
    rw [hr₀, Option.some.injEq] at hr
    subst hr
    exact huri.trans hk.symm
  · rfl

theorem map_uri_foldl (huri : ∀ p ∈ fs, UriExact ('/' :: p.1)) (rs : List FunctionInfo) :
    (fs.foldl updateFunction rs).map FunctionInfo.uri = rs.map FunctionInfo.uri := by
  induction fs generalizing rs with
  | nil => rfl
  | cons p fs ih =>
    rw [List.foldl_cons, ih fun p' hp' => huri p' (List.mem_cons_of_mem _ hp'),
      map_uri_updateFunction (huri p List.mem_cons_self)]

/-- After the functions of a report, each of them has a record with its values. -/
theorem find?_foldl_updateFunction (huri : ∀ p ∈ fs, UriExact ('/' :: p.1))
    (hnodup : (fs.map Prod.fst).Nodup) (rs : List FunctionInfo)
    (hrs : ∀ p ∈ fs, '/' :: p.1 ∈ rs.map FunctionInfo.uri) :
    ∀ p ∈ fs, ∃ r, ((fs.foldl updateFunction rs).find? fun r => r.uri = '/' :: p.1) = some r ∧
      r.Shows p.2 := by
  induction fs using List.reverseRecOn with
  | nil => exact fun p hp => absurd hp List.not_mem_nil
  | append_singleton fs q ih =>
    have huri' : ∀ p ∈ fs, UriExact ('/' :: p.1) := fun p hp => huri p (List.mem_append_left _ hp)
    rw [List.map_append, List.nodup_append] at hnodup
    obtain ⟨hnodup, -, hdisj⟩ := hnodup
    intro p hp
    rw [List.foldl_append, List.foldl_cons, List.foldl_nil, find?_updateFunction
      (huri q (List.mem_append_right _ List.mem_cons_self))]
    rcases List.mem_append.mp hp with hp | hp
    · have hne : p.1 ≠ q.1 := hdisj p.1 (List.mem_map_of_mem hp) q.1 (by simp)
      rw [if_neg fun h => hne (List.cons.inj h).2]
      exact ih huri' hnodup (fun p hp => hrs p (List.mem_append_left _ hp)) p hp
    · rw [List.mem_singleton] at hp
      subst hp
      have hmem := hrs p (List.mem_append_right _ List.mem_cons_self)
      rw [← map_uri_foldl huri' rs] at hmem
      obtain ⟨r, hr⟩ := Assoc.exists_find?_key hmem
      refine ⟨.update p r, ?_, rfl, rfl, rfl, rfl, rfl, rfl, rfl⟩
      rw [if_pos rfl, hr, Option.map_some]

end Update

end IncSim
