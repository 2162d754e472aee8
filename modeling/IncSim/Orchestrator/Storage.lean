import Mathlib.Data.List.Lex
import Mathlib.Data.Char
import IncSim.Lib.OrdMap
import IncSim.Node.ComputeNode

/-!
# The node info storage

`OrchestratorNodeInfoStorage`: what the orchestrator knows about the nodes.

* `FunctionInfo`, `DataInfo`, `NodeInfo`: the records; `Table`: `m_nodeInfoTable`, by node URI.
* `addNodeToTable`, `getFuncIndex` and the setters. The flag of a setter selects the value as it
  was at the bootstrap (`true`) or the current one (`false`).
* `setNode`, `setFunc`: the frame that the setters share.
* `getFuncIndex_spec`: the index that is found leads to a record with the name.
-/

namespace IncSim

open PartialRun

/-- `functionInfo`. -/
structure FunctionInfo where
  funcName : Name
  funcExeCounter : UInt32
  funcInterestCounter : UInt32
  cores : UInt32
  ram : UInt32
  rom : UInt32
  sizeBytes : UInt32
  inputDataList : List Str
  status : Bool
  deriving DecidableEq

/-- `dataInfo`. -/
structure DataInfo where
  dataName : Name
  sizeBytes : UInt32
  deriving DecidableEq

/-- `OrchestratorNodeInfoStorage::computeNode`. -/
structure NodeInfo where
  nodeName : Name
  ram : UInt32 × UInt32
  rom : UInt32 × UInt32
  cpu : UInt32 × UInt32
  nodeBusyCounter : UInt32 × UInt32
  links : List Str × List Str
  runtimesSupported : List Str × List Str
  dataInitial : List DataInfo
  dataCurrent : List DataInfo
  functionsInitial : List FunctionInfo
  functionsCurrent : List FunctionInfo
  deriving DecidableEq

namespace NodeInfo

/-- A default-constructed record. -/
def new : NodeInfo :=
  { nodeName := ⟨[]⟩, ram := (0, 0), rom := (0, 0), cpu := (0, 0), nodeBusyCounter := (0, 0)
    links := ([], []), runtimesSupported := ([], []), dataInitial := [], dataCurrent := []
    functionsInitial := [], functionsCurrent := [] }

/-- The function list that the flag of a getter or setter selects. -/
def functions (e : NodeInfo) (defaultvalue : Bool) : List FunctionInfo :=
  if defaultvalue then e.functionsInitial else e.functionsCurrent

/-- Assign through `at (index)` to a record of the selected function list. -/
def modifyFunc (e : NodeInfo) (index : ℕ) (g : FunctionInfo → FunctionInfo)
    (defaultvalue : Bool) : NodeInfo :=
  if defaultvalue then { e with functionsInitial := e.functionsInitial.modify index g }
  else { e with functionsCurrent := e.functionsCurrent.modify index g }

end NodeInfo

/-- A pair with the half that the flag selects replaced. -/
def setHalf {α : Type} (p : α × α) (a : α) (defaultvalue : Bool) : α × α :=
  if defaultvalue then (a, p.2) else (p.1, a)

/-- `m_nodeInfoTable`. -/
abbrev Table := OrdMap Str NodeInfo

namespace Table

variable (t : Table) (nodeID : Str)

/-- `AddNodeToTable`: the table, and whether the node was new. -/
def addNodeToTable (nodeToAdd : NodeInfo) : Table × Bool :=
  (t.insertNew nodeID nodeToAdd, (t.find? nodeID).isNone)

/-! ## The setters of a node -/

/-- What the setters of a node share: look the node up, assign, say whether it was found. -/
def setNode (g : NodeInfo → NodeInfo) : Table × Bool :=
  match t.find? nodeID with
  | none => (t, false)
  | some _ => (t.modify nodeID g, true)

def setNodeRAM (ramToSet : UInt32) (defaultvalue : Bool) : Table × Bool :=
  setNode t nodeID fun e => { e with ram := setHalf e.ram ramToSet defaultvalue }

def setNodeROM (romToSet : UInt32) (defaultvalue : Bool) : Table × Bool :=
  setNode t nodeID fun e => { e with rom := setHalf e.rom romToSet defaultvalue }

def setNodeBusyCounter (nbToSet : UInt32) (defaultvalue : Bool) : Table × Bool :=
  setNode t nodeID fun e =>
    { e with nodeBusyCounter := setHalf e.nodeBusyCounter nbToSet defaultvalue }

/-- `setNodeCPU` assigns the current value to `ram.second`. -/
def setNodeCPU (cpuToSet : UInt32) (defaultvalue : Bool) : Table × Bool :=
  setNode t nodeID fun e =>
    if defaultvalue then { e with cpu := (cpuToSet, e.cpu.2) }
    else { e with ram := (e.ram.1, cpuToSet) }

def setNodeLinks (linksToSet : List Str) (defaultvalue : Bool) : Table × Bool :=
  setNode t nodeID fun e => { e with links := setHalf e.links linksToSet defaultvalue }

def setNodeRuntimes (rtToSet : List Str) (defaultvalue : Bool) : Table × Bool :=
  setNode t nodeID fun e =>
    { e with runtimesSupported := setHalf e.runtimesSupported rtToSet defaultvalue }

def setNodeDataList (dataList : List DataInfo) (defaultvalue : Bool) : Table × Bool :=
  setNode t nodeID fun e =>
    if defaultvalue then { e with dataInitial := dataList } else { e with dataCurrent := dataList }

/-! ## The setters of a function -/

/-- `getFuncIndex`: nothing is returned for an unknown node. -/
def getFuncIndex (funcName : Str) (defaultvalue : Bool) : Except Fault (Bool × ℕ) :=
  match t.find? nodeID with
  | none => .error .noReturn
  | some e =>
    match (e.functions defaultvalue).findIdx? fun f => f.funcName.toUri = funcName with
    | some i => .ok (true, i)
    | none => .ok (false, 0)

variable {t nodeID} in
theorem getFuncIndex_spec {name : Str} {i : ℕ} {e : NodeInfo} {defaultvalue : Bool}
    (h : t.getFuncIndex nodeID name defaultvalue = .ok (true, i)) (he : t.find? nodeID = some e) :
    ∃ f, (e.functions defaultvalue)[i]? = some f ∧ f.funcName.toUri = name := by
  simp only [getFuncIndex, he] at h
  split at h
  · next hi =>
    cases h
    exact Assoc.findIdx?_key hi
  · cases h

variable (index : ℕ)

/-- What the setters of a function share: `at (index)` throws outside the list. -/
def setFunc (g : FunctionInfo → FunctionInfo) (defaultvalue : Bool) : Except Fault (Table × Bool) :=
  match t.find? nodeID with
  | none => .ok (t, false)
  | some e =>
    if index < (e.functions defaultvalue).length then
      .ok (t.modify nodeID fun e => e.modifyFunc index g defaultvalue, true)
    else .error .outOfRange

def setFuncName (nameToSet : Name) : Bool → Except Fault (Table × Bool) :=
  setFunc t nodeID index fun f => { f with funcName := nameToSet }

/-- `setFuncExeCounter` sets the bootstrap value to 0. -/
def setFuncExeCounter (counter : UInt32) (defaultvalue : Bool) : Except Fault (Table × Bool) :=
  setFunc t nodeID index
    (fun f => { f with funcExeCounter := if defaultvalue then 0 else counter }) defaultvalue

/-- `setFuncInterestCounter` sets the bootstrap value to 0. -/
def setFuncInterestCounter (counter : UInt32) (defaultvalue : Bool) : Except Fault (Table × Bool) :=
  setFunc t nodeID index
    (fun f => { f with funcInterestCounter := if defaultvalue then 0 else counter }) defaultvalue

def setFuncStatus (status : Bool) : Bool → Except Fault (Table × Bool) :=
  setFunc t nodeID index fun f => { f with status := status }

def setFuncCpu (cores : UInt32) : Bool → Except Fault (Table × Bool) :=
  setFunc t nodeID index fun f => { f with cores := cores }

def setFuncRam (ram : UInt32) : Bool → Except Fault (Table × Bool) :=
  setFunc t nodeID index fun f => { f with ram := ram }

def setFuncRom (rom : UInt32) : Bool → Except Fault (Table × Bool) :=
  setFunc t nodeID index fun f => { f with rom := rom }

def setFuncSize (size : UInt32) : Bool → Except Fault (Table × Bool) :=
  setFunc t nodeID index fun f => { f with sizeBytes := size }

/-- `setFuncInputs` appends the inputs; without an input it does not touch the list. -/
def setFuncInputs (inputs : List Str) (defaultvalue : Bool) : Except Fault (Table × Bool) :=
  if inputs = [] then .ok (t, (t.find? nodeID).isSome)
  else setFunc t nodeID index (fun f => { f with inputDataList := f.inputDataList ++ inputs })
    defaultvalue

end Table

end IncSim
