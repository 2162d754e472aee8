import IncSim.Node.Status
import IncSim.Node.Switch

/-!
# The requests of the orchestrator at a node

The two node-side apps hand a request to one of their three handlers, by a component of the interest
or by the text of the packet.

* `ndnOrchestratorRequestResolution`, `udpOrchestrationRequestResolution`: the dispatch.
* `DispatchesSwitch`: the packets that reach the switch handler.
* `ndn_resolution_of_switchName`, `udp_resolution_of_dispatches`: switch commands reach it.
-/

namespace IncSim

open PartialRun

namespace ComputeNode

variable (n : ComputeNode)

/-- `NdnOrchestrationComputeNodeApp::OrchestratorRequestResolution`: the node and the payload of the
data that answers the interest. -/
def ndnOrchestratorRequestResolution [NdnCxx] (interest : Name) :
    Except Fault (ComputeNode × Option Str) :=
  let request := interest.getSubName 2 1
  if request = NdnCxx.ofUri "/BootstrapInfo".toList ∨
      request = NdnCxx.ofUri "/NodeStatusFetch".toList then do
    let (payload, n) ← n.ndnStatusFetchHandler interest
    .ok (n, some payload)
  else if request = NdnCxx.ofUri "/FunctionStatus".toList then do
    let payload ← n.ndnFunctionStatusRequestHandler
    .ok (n, some payload)
  else if request = NdnCxx.ofUri "/FunctionSwitch".toList then n.ndnFunctionSwitchHandler interest
  else .ok (n, some "Unknown request".toList)

/-- The packets for the switch handler: none of the three other requests, and `/FunctionSwitch`
occurs somewhere. -/
def DispatchesSwitch (packet_data : Str) : Prop :=
  packet_data ≠ "/BootstrapInfo".toList ∧ packet_data ≠ "/NodeStatusFetch".toList ∧
    packet_data ≠ "/FunctionStatus".toList ∧
    Str.contains packet_data "/FunctionSwitch".toList = true

instance (packet_data : Str) : Decidable (DispatchesSwitch packet_data) :=
  inferInstanceAs (Decidable (_ ∧ _))

/-- `UdpOrchestrationComputeNodeApp::OrchestrationRequestResolution`: the node and the bytes of the
response. -/
def udpOrchestrationRequestResolution (packet_data : Str) : Except Fault (ComputeNode × Str) :=
  if packet_data = "/BootstrapInfo".toList ∨ packet_data = "/NodeStatusFetch".toList then do
    let (payload, n) ← n.udpStatusFetchHandler packet_data
    .ok (n, payload)
  else if packet_data = "/FunctionStatus".toList then do
    let payload ← n.udpFunctionStatusRequestHandler
    .ok (n, payload)
  else if Str.contains packet_data "/FunctionSwitch".toList then do
    let (n, payload) ← n.udpFunctionSwitchHandler packet_data
    .ok (n, payload ++ ['\x00'])
  else .ok (n, "Unknown orchestration instruction".toList)

variable {n}

theorem udp_resolution_of_dispatches {packet_data : Str} (h : DispatchesSwitch packet_data) :
    n.udpOrchestrationRequestResolution packet_data =
      (n.udpFunctionSwitchHandler packet_data).map fun q => (q.1, q.2 ++ ['\x00']) := by
  obtain ⟨hboot, hfetch, hstatus, hswitch⟩ := h
  rw [udpOrchestrationRequestResolution, if_neg (not_or.mpr ⟨hboot, hfetch⟩), if_neg hstatus,
    if_pos hswitch]
  rcases n.udpFunctionSwitchHandler packet_data with e | ⟨m, reply⟩ <;> rfl

end ComputeNode

/-! ## Switch commands -/

variable {node : Str} {op : SwitchOp} {funcs : List Str}

/-- The name whose URI is the command. -/
theorem eq_switchName {interest : Name} (hslash : ∀ c ∈ interest.comps, '/' ∉ c)
    (hnode : '/' ∉ node) (hfuncs : ∀ f ∈ funcs, '/' ∉ f)
    (huri : interest.toUri = switchCommand node op funcs) : interest = switchName node op funcs := by
  refine Name.eq_of_toUri_eq hslash (slash_switchName hnode hfuncs) ?_ ?_
  · show 2 ≤ funcs.length + 1 + 1 + 1 + 1
    omega
  · rw [huri, toUri_switchName]

/-- A switch command over NDN comes to the switch handler. -/
theorem ndn_resolution_of_switchName [NdnCxx] (hread : NdnCxx.ReadsPlain) (n : ComputeNode) :
    n.ndnOrchestratorRequestResolution (switchName node op funcs) =
      n.ndnFunctionSwitchHandler (switchName node op funcs) := by
  have hrequest : (switchName node op funcs).getSubName 2 1 = ⟨["FunctionSwitch".toList]⟩ := rfl
  have hof : ∀ c : Str, PlainComp c → "FunctionSwitch".toList ≠ c →
      (switchName node op funcs).getSubName 2 1 ≠ NdnCxx.ofUri ('/' :: c) := by
    intro c hc hne heq
    rw [hrequest, hread.ofUri_cons hc] at heq
    exact hne (List.cons.inj (Name.mk.inj heq)).1
  have hboot := hof "BootstrapInfo".toList (.of_all (by decide) (by decide)) (by decide)
  have hfetch := hof "NodeStatusFetch".toList (.of_all (by decide) (by decide)) (by decide)
  have hstatus := hof "FunctionStatus".toList (.of_all (by decide) (by decide)) (by decide)
  have hswitch : (switchName node op funcs).getSubName 2 1 =
      NdnCxx.ofUri ('/' :: "FunctionSwitch".toList) :=
    hrequest.trans (hread.ofUri_cons (.of_all (by decide) (by decide))).symm
  unfold ComputeNode.ndnOrchestratorRequestResolution
  exact (if_neg (not_or.mpr ⟨hboot, hfetch⟩)).trans ((if_neg hstatus).trans (if_pos hswitch))

end IncSim
