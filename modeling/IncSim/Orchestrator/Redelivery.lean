import Mathlib.Algebra.GroupWithZero.Nat
import IncSim.Orchestrator.Update

/-!
# Status reports that come twice

The setters of the status handler assign, but for `setFuncInputs`, which appends.

* `operandCount`: the number of operands in all records; **`operandCount_foldl_lt`**: it grows with
  every report that has a function of the table.
* `Redeliverable`: a second delivery changes nothing, and the inputs are the operands reported.
* **`redeliverable_iff`**: when a report is redeliverable.
-/

namespace IncSim

open PartialRun

/-- The number of operands in the records. -/
def operandCount (rs : List FunctionInfo) : ℕ := (rs.map fun r => r.inputDataList.length).sum

/-- The operands that are reported for a function. -/
def reportedOperands (f : IncComputation) : List Str :=
  if f.inputList = "null".toList then [] else f.inputList.splitOn ','

section Redelivery

variable [NdnCxx] {n : ComputeNode} {fs : List (Str × IncComputation)} {ds : List (Str × UInt32)}
  {t : Table} {K : Str} {e : NodeInfo} {p : Str × IncComputation} {rs : List FunctionInfo}

/-! ## Operands pile up -/

theorem operandCount_modify {i : ℕ} (hi : i < rs.length) :
    operandCount (rs.modify i (.update p)) =
      operandCount rs + (p.2.inputList.splitOn ',').length := by
  induction rs generalizing i with
  | nil => exact absurd hi (Nat.not_lt_zero i)
  | cons r rs ih =>
    cases i with
    | zero =>
      simp only [operandCount, List.modify_zero_cons, List.map_cons, List.sum_cons,
        FunctionInfo.update, List.length_append]
      omega
    | succ i =>
      have hrest := ih (Nat.lt_of_succ_lt_succ hi)
      simp only [operandCount, List.modify_succ_cons, List.map_cons, List.sum_cons] at hrest ⊢
      omega

theorem updateFunction_of_unknown (h : '/' :: p.1 ∉ rs.map FunctionInfo.uri) :
    updateFunction rs p = rs := by
  have hnone : (rs.findIdx? fun r => r.funcName.toUri = '/' :: p.1) = none := by
    rw [List.findIdx?_eq_none_iff]
    exact fun r hr => decide_eq_false fun huri => h (List.mem_map.mpr ⟨r, hr, huri⟩)
  rw [updateFunction, hnone]

theorem operandCount_updateFunction_lt (h : '/' :: p.1 ∈ rs.map FunctionInfo.uri) :
    operandCount rs < operandCount (updateFunction rs p) := by
  obtain ⟨r, hr, huri⟩ := List.mem_map.mp h
  have hsome : (rs.findIdx? fun r => r.funcName.toUri = '/' :: p.1).isSome := by
    rw [List.findIdx?_isSome, List.any_eq_true]
    exact ⟨r, hr, decide_eq_true huri⟩
  obtain ⟨i, hi⟩ := Option.isSome_iff_exists.mp hsome
  have hlt : i < rs.length := (List.findIdx?_eq_some_iff_getElem.mp hi).1
  have hpos : 0 < (p.2.inputList.splitOn ',').length :=
    List.length_pos_iff.mpr (List.splitOn_ne_nil _ _)
  rw [updateFunction, hi, operandCount_modify hlt]
  omega

theorem operandCount_updateFunction_le : operandCount rs ≤ operandCount (updateFunction rs p) := by
  by_cases h : '/' :: p.1 ∈ rs.map FunctionInfo.uri
  · exact (operandCount_updateFunction_lt h).le
  · rw [updateFunction_of_unknown h]

theorem operandCount_foldl_le (fs : List (Str × IncComputation)) (rs : List FunctionInfo) :
    operandCount rs ≤ operandCount (fs.foldl updateFunction rs) := by
  induction fs generalizing rs with
  | nil => exact le_rfl
  | cons p fs ih => exact operandCount_updateFunction_le.trans (ih _)

/-- **A report with a function of the table** adds operands. -/
theorem operandCount_foldl_lt (huri : ∀ p ∈ fs, UriExact ('/' :: p.1)) (hp : p ∈ fs)
    (h : '/' :: p.1 ∈ rs.map FunctionInfo.uri) :
    operandCount rs < operandCount (fs.foldl updateFunction rs) := by
  induction fs generalizing rs with
  | nil => exact absurd hp List.not_mem_nil
  | cons q fs ih =>
    have huri' : ∀ p ∈ fs, UriExact ('/' :: p.1) := fun p hp => huri p (List.mem_cons_of_mem _ hp)
    rw [List.foldl_cons]
    rcases List.mem_cons.mp hp with rfl | hp
    · exact (operandCount_updateFunction_lt h).trans_le (operandCount_foldl_le fs _)
    · refine operandCount_updateFunction_le.trans_lt (ih huri' hp ?_)
      rwa [map_uri_updateFunction (huri q List.mem_cons_self)]

theorem foldl_updateFunction_of_unknown
    (h : ∀ p ∈ fs, '/' :: p.1 ∉ rs.map FunctionInfo.uri) : fs.foldl updateFunction rs = rs := by
  induction fs with
  | nil => rfl
  | cons p fs ih =>
    rw [List.foldl_cons, updateFunction_of_unknown (h p List.mem_cons_self)]
    exact ih fun p hp => h p (List.mem_cons_of_mem _ hp)

/-! ## Two deliveries -/

/-- Delivering the content a second time changes nothing, and afterwards the current inputs of every
function reported are the operands reported. -/
def Redeliverable (t : Table) (K : Str) (fs : List (Str × IncComputation)) (content : Str) : Prop :=
  ∃ t', nodeStatusFetchHandler t content = .ok t' ∧ nodeStatusFetchHandler t' content = .ok t' ∧
    ∀ e, t'.find? K = some e → ∀ p ∈ fs, ∀ r ∈ e.functionsCurrent, r.uri = '/' :: p.1 →
      r.inputDataList = reportedOperands p.2

/-- A second report repeats what the first one did to the functions, and nothing else. -/
theorem update_update (e : NodeInfo) : (e.update n fs ds).update n fs ds =
    { e.update n fs ds with
      functionsCurrent := fs.foldl updateFunction (fs.foldl updateFunction e.functionsCurrent) } := by
  unfold NodeInfo.update
  by_cases hds : ds = []
  · simp only [if_pos hds]
  · simp only [if_neg hds]

/-- Both deliveries of a report. -/
theorem nodeStatusFetchHandler_twice {content : Str} (h : Reportable n fs ds)
    (hcontent : n.statusReport = .ok content) (he : t.find? ('/' :: n.name) = some e) :
    nodeStatusFetchHandler t content = .ok (t.put ('/' :: n.name) (e.update n fs ds)) ∧
      nodeStatusFetchHandler (t.put ('/' :: n.name) (e.update n fs ds)) content =
        .ok (t.put ('/' :: n.name) { e.update n fs ds with
          functionsCurrent := fs.foldl updateFunction
            (fs.foldl updateFunction e.functionsCurrent) }) := by
  cases h.statusReport_eq.symm.trans hcontent
  have htwice := nodeStatusFetchHandler_report h
    (OrdMap.find?_put_self (a := e.update n fs ds) he)
  rw [OrdMap.put_put, update_update] at htwice
  exact ⟨nodeStatusFetchHandler_report h he, htwice⟩

theorem not_redeliverable {content : Str} (h : Reportable n fs ds)
    (huri : ∀ p ∈ fs, UriExact ('/' :: p.1)) (hcontent : n.statusReport = .ok content)
    (he : t.find? ('/' :: n.name) = some e) (hp : p ∈ fs)
    (hmem : '/' :: p.1 ∈ e.functionsCurrent.map FunctionInfo.uri) :
    ¬ Redeliverable t ('/' :: n.name) fs content := by
  obtain ⟨honce, htwice⟩ := nodeStatusFetchHandler_twice h hcontent he
  rintro ⟨t', h₁, h₂, -⟩
  cases honce.symm.trans h₁
  have hsame := Except.ok.inj (htwice.symm.trans h₂)
  have hentry := congrArg (OrdMap.find? · ('/' :: n.name)) hsame
  dsimp only at hentry
  rw [OrdMap.find?_put_self he, OrdMap.find?_put_self he, Option.some.injEq] at hentry
  have hfuncs : fs.foldl updateFunction (fs.foldl updateFunction e.functionsCurrent) =
      fs.foldl updateFunction e.functionsCurrent := congrArg NodeInfo.functionsCurrent hentry
  rw [← map_uri_foldl huri] at hmem
  have hlt := operandCount_foldl_lt huri hp hmem
  rw [hfuncs] at hlt
  exact absurd hlt (lt_irrefl _)

/-- **When a report is redeliverable**: when the table has none of the functions that it reports. -/
theorem redeliverable_iff {content : Str} (h : Reportable n fs ds)
    (huri : ∀ p ∈ fs, UriExact ('/' :: p.1)) (hcontent : n.statusReport = .ok content)
    (he : t.find? ('/' :: n.name) = some e) :
    Redeliverable t ('/' :: n.name) fs content ↔
      ∀ p ∈ fs, '/' :: p.1 ∉ e.functionsCurrent.map FunctionInfo.uri := by
  refine ⟨fun hsafe p hp hmem => not_redeliverable h huri hcontent he hp hmem hsafe, fun hnone => ?_⟩
  obtain ⟨honce, htwice⟩ := nodeStatusFetchHandler_twice h hcontent he
  have hfuncs : fs.foldl updateFunction e.functionsCurrent = e.functionsCurrent :=
    foldl_updateFunction_of_unknown hnone
  have hupdate : { e.update n fs ds with functionsCurrent := e.functionsCurrent } =
      e.update n fs ds := by rw [NodeInfo.update, hfuncs]
  rw [hfuncs, hfuncs, hupdate] at htwice
  refine ⟨_, honce, htwice, fun e' he' p hp r hr hkey => ?_⟩
  rw [OrdMap.find?_put_self he] at he'
  cases he'
  have hr : r ∈ e.functionsCurrent := hfuncs ▸ hr
  exact absurd (List.mem_map.mpr ⟨r, hr, hkey⟩) (hnone p hp)

end Redelivery

/-! ## A node and the tables before and after its bootstrap -/

section Example

attribute [local instance] plainUri

theorem uriExact_twoFunctionsMap : ∀ p ∈ twoFunctionsMap, UriExact ('/' :: p.1) := by
  simp only [twoFunctionsMap, List.forall_mem_cons, List.not_mem_nil, false_imp_iff, implies_true,
    and_true]
  exact ⟨rfl, rfl⟩

/-- A table in which the node has the given records. -/
def tableWith (functions_current : List FunctionInfo) : Table :=
  .single "/n".toList { NodeInfo.new with functionsCurrent := functions_current }

/-- The report of a node whose functions the table has. -/
theorem redelivery_adds_operands :
    ∃ content, twoFunctions.statusReport = .ok content ∧
      ¬ Redeliverable (tableWith (twoFunctionsMap.map fun p => .ofReport p.1 p.2)) "/n".toList
        twoFunctionsMap content :=
  ⟨_, reportable_twoFunctions.statusReport_eq,
    not_redeliverable reportable_twoFunctions uriExact_twoFunctionsMap
      reportable_twoFunctions.statusReport_eq rfl List.mem_cons_self (by decide)⟩

theorem redeliverable_tableWith_nil :
    ∃ content, twoFunctions.statusReport = .ok content ∧
      Redeliverable (tableWith []) "/n".toList twoFunctionsMap content :=
  ⟨_, reportable_twoFunctions.statusReport_eq,
    (redeliverable_iff reportable_twoFunctions uriExact_twoFunctionsMap
      reportable_twoFunctions.statusReport_eq rfl).mpr fun _ _ => List.not_mem_nil⟩

end Example

end IncSim
