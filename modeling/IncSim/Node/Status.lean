import IncSim.Lib.Text
import IncSim.Node.ComputeNode

/-!
# Status reports of a node

The two `StatusFetchHandler`s of a node write its state as `key=value` tokens with `;` between
them; the functions follow each other in the last token without a separator.

* `StatusRequest`: the requests; `functionStatus`, `statusReport`: the text of a report.
* `ndnStatusFetchHandler`, `udpStatusFetchHandler`: the reply and the node after it.
* `ndnFunctionStatusRequestHandler`, `udpFunctionStatusRequestHandler`: the status of the functions.
-/

namespace IncSim

open PartialRun Text

/-- The requests that a node answers with a status report. -/
inductive StatusRequest
  | bootstrapInfo
  | nodeStatusFetch
  deriving DecidableEq

/-- The text of a request: over UDP the packet, over NDN the third component of the interest. -/
def StatusRequest.text : StatusRequest → String
  | bootstrapInfo => "/BootstrapInfo"
  | nodeStatusFetch => "/NodeStatusFetch"

/-- `operator<<` of a `bool`. -/
def flagText (b : Bool) : Str := if b then ['1'] else ['0']

/-- One round of the loop over the function map. -/
def functionStatus (q : Str × Option IncComputation) : Except Fault Str :=
  match q.2 with
  | none => .error .nullPointer
  | some f =>
    .ok (q.1 ++ ":".toList ++ flagText f.enableComputation ++ ":".toList
      ++ decimal f.execCounter.toNat ++ ":".toList
      ++ decimal f.missExecCounter.toNat ++ ":".toList
      ++ decimal f.cpu.toNat ++ ":".toList
      ++ decimal f.ram.toNat ++ ":".toList
      ++ decimal f.rom.toNat ++ ":".toList
      ++ decimal f.funcSize.toNat ++ ":".toList
      ++ f.inputList)

namespace ComputeNode

variable (n : ComputeNode)

/-- The text that both handlers build. -/
def statusReport : Except Fault Str := do
  let functions ← n.funcMap.mapM functionStatus
  .ok ("name=/".toList ++ n.name ++ ";".toList
    ++ "processor_core=".toList ++ decimal n.processorCore.toNat ++ ";".toList
    ++ "processor_type=".toList ++ decimal n.processorSpeed.toNat ++ ";".toList
    ++ "RAM=".toList ++ decimal n.ram.toNat ++ ";".toList
    ++ "ROM=".toList ++ decimal n.rom.toNat ++ ";".toList
    ++ "links=".toList ++ n.links ++ ";".toList
    ++ "runtimes=".toList ++ n.supportedRuntimes ++ ";".toList
    ++ "node_busy_counter=".toList ++ decimal n.nodeBusyCounter.toNat ++ ";".toList
    ++ "data=".toList ++ n.providedData ++ ";".toList
    ++ "functions=".toList ++ functions.flatten)

/-- A bootstrap request over NDN resets the busy counter before the report is built. -/
def atRequest [NdnCxx] (interest : Name) : ComputeNode :=
  if interest.getSubName 2 1 = NdnCxx.ofUri "/BootstrapInfo".toList then n.resetNodeBusyCounter
  else n

/-- A request changes nothing but the busy counter. -/
theorem atRequest_eq [NdnCxx] (i : Name) :
    n.atRequest i = { n with nodeBusyCounter := (n.atRequest i).nodeBusyCounter } := by
  unfold atRequest
  split
  · rfl
  · rfl

@[simp] theorem atRequest_name [NdnCxx] (i : Name) : (n.atRequest i).name = n.name := by
  rw [atRequest_eq]

/-- `NdnOrchestrationComputeNodeApp::StatusFetchHandler`. -/
def ndnStatusFetchHandler [NdnCxx] (interest : Name) : Except Fault (Str × ComputeNode) := do
  let n := n.atRequest interest
  let payload ← n.statusReport
  .ok (payload, n.resetNodeBusyCounter)

/-- `UdpOrchestrationComputeNodeApp::StatusFetchHandler`: the reply is the C string of the report
behind a path with the request. -/
def udpStatusFetchHandler (packetData : Str) : Except Fault (Str × ComputeNode) := do
  let report ← n.statusReport
  let payload := "/Orchestrator/".toList ++ n.name ++ packetData ++ "/".toList ++ report
  .ok (payload ++ ['\x00'], n.resetNodeBusyCounter)

/-- One line of a function status reply. -/
def functionStatusLine (q : Str × Option IncComputation) : Except Fault Str :=
  match q.2 with
  | none => .error .nullPointer
  | some f =>
    .ok ("function_name=".toList ++ q.1 ++ ";".toList
      ++ "enable_status=".toList ++ flagText f.enableComputation ++ ";".toList
      ++ "execution_counter=".toList ++ decimal f.execCounter.toNat ++ ";".toList ++ ['\n'])

/-- `NdnOrchestrationComputeNodeApp::FunctionStatusRequestHandler`. -/
def ndnFunctionStatusRequestHandler : Except Fault Str := do
  let lines ← n.funcMap.mapM functionStatusLine
  .ok ("Function status from node: ".toList ++ n.name ++ ['\n'] ++ lines.flatten)

/-- `UdpOrchestrationComputeNodeApp::FunctionStatusRequestHandler`. -/
def udpFunctionStatusRequestHandler : Except Fault Str := do
  let lines ← n.funcMap.mapM functionStatusLine
  .ok ("/Orchestrator/".toList ++ n.name ++ "/FunctionStatus/".toList ++ lines.flatten ++ ['\x00'])

end ComputeNode

end IncSim
