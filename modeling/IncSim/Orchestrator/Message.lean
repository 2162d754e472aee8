import IncSim.Lib.Text
import IncSim.Orchestrator.Storage

/-!
# The message handler

`OrchestrationMessageHandler`: a status report of a node is `key=value` tokens with `;` between
them. The first report of a node makes its entry in the table, a later one updates it.

* `StatusField`: the keys, in the order in which both handlers compare them.
* `bootstrapPhaseHandler`, `nodeStatusFetchHandler`, `handleMessage`: the code.
* `bootstrapField_token`, `statusField_token`: a well-formed token takes the branch of its key.
-/

namespace IncSim

open PartialRun

/-! ## Reading values -/

/-- `values[i]` and `values.at (i)`. -/
def field (values : List Str) (i : ℕ) : Except Fault Str :=
  match values[i]? with
  | some v => .ok v
  | none => .error .outOfRange

theorem field_value (k v : Str) : field [k, v] 1 = .ok v := rfl

/-- `std::stoi (s)`, assigned to a `uint32_t`. -/
def readNumber (s : Str) : Except Fault UInt32 :=
  match Text.stoi s with
  | some z => .ok (UInt32.ofInt z)
  | none => .error .invalidNumber

/-- The keys of a status report. -/
inductive StatusField
  | name
  | processorCore
  | ram
  | rom
  | links
  | runtimes
  | nodeBusyCounter
  | data
  | functions
  deriving DecidableEq

namespace StatusField

/-- The text of a key. -/
def text : StatusField → String
  | name => "name"
  | processorCore => "processor_core"
  | ram => "RAM"
  | rom => "ROM"
  | links => "links"
  | runtimes => "runtimes"
  | nodeBusyCounter => "node_busy_counter"
  | data => "data"
  | functions => "functions"

def key (f : StatusField) : Str := f.text.toList

/-- The branch that a handler takes for `values[0]`. -/
def ofKey (s : Str) : Option StatusField :=
  if s = name.key then some name
  else if s = processorCore.key then some processorCore
  else if s = ram.key then some ram
  else if s = rom.key then some rom
  else if s = links.key then some links
  else if s = runtimes.key then some runtimes
  else if s = nodeBusyCounter.key then some nodeBusyCounter
  else if s = data.key then some data
  else if s = functions.key then some functions
  else none

theorem ofKey_key (f : StatusField) : ofKey f.key = some f := by cases f <;> rfl

/-- The token of a key and its value. -/
def token (f : StatusField) (v : Str) : Str := f.key ++ '=' :: v

theorem splitOn_token (f : StatusField) {v : Str} (hv : '=' ∉ v) :
    (f.token v).splitOn '=' = [f.key, v] :=
  Text.splitOn_pair (by cases f <;> decide) hv

end StatusField

variable [NdnCxx]

/-- One `name:size` of a data list. -/
def readData (s : Str) : Except Fault DataInfo := do
  let dataEach := s.splitOn ':'
  let name ← field dataEach 0
  let size ← readNumber (← field dataEach 1)
  .ok { dataName := NdnCxx.ofUri name, sizeBytes := size }

/-- The texts of the functions: what follows each `/`. -/
def splitFunctions (s : Str) : List Str := (s.splitOn '/').tail

/-- The operands of a function. -/
def readInputs (s : Str) : List Str := if s = "null".toList then [] else s.splitOn ','

/-! ## The bootstrap phase -/

/-- One function of a bootstrap report. -/
def readFunction (s : Str) : Except Fault FunctionInfo := do
  let functionsEach := s.splitOn ':'
  let name ← field functionsEach 0
  let status ← field functionsEach 1
  let exeCounter ← readNumber (← field functionsEach 2)
  let interestCounter ← readNumber (← field functionsEach 3)
  let cores ← readNumber (← field functionsEach 4)
  let ram ← readNumber (← field functionsEach 5)
  let rom ← readNumber (← field functionsEach 6)
  let size ← readNumber (← field functionsEach 7)
  let inputs ← field functionsEach 8
  .ok { funcName := NdnCxx.ofUri ('/' :: name), status := status = ['1']
        funcExeCounter := exeCounter, funcInterestCounter := interestCounter, cores := cores
        ram := ram, rom := rom, sizeBytes := size, inputDataList := readInputs inputs }

/-- The branches of `BootstrapPhaseHandler`; the value of the busy counter is not read. -/
def bootstrapValue (newNode : NodeInfo) (values : List Str) : StatusField → Except Fault NodeInfo
  | .name => do
    let uri ← field values 1
    .ok { newNode with nodeName := NdnCxx.ofUri uri }
  | .processorCore => do
    let cpu ← readNumber (← field values 1)
    .ok { newNode with cpu := (cpu, cpu) }
  | .ram => do
    let ram ← readNumber (← field values 1)
    .ok { newNode with ram := (ram, ram) }
  | .rom => do
    let rom ← readNumber (← field values 1)
    .ok { newNode with rom := (rom, rom) }
  | .links => do
    let links := (← field values 1).splitOn ','
    .ok { newNode with links := (links, links) }
  | .runtimes => do
    let runtimes := (← field values 1).splitOn ','
    .ok { newNode with runtimesSupported := (runtimes, runtimes) }
  | .nodeBusyCounter => .ok { newNode with nodeBusyCounter := (0, 0) }
  | .data => do
    let list ← field values 1
    if list = "null".toList then .ok newNode
    else
      let ds ← (list.splitOn ',').mapM readData
      .ok { newNode with
              dataInitial := newNode.dataInitial ++ ds, dataCurrent := newNode.dataCurrent ++ ds }
  | .functions => do
    let fs ← (splitFunctions (← field values 1)).mapM readFunction
    .ok { newNode with
            functionsInitial := newNode.functionsInitial ++ fs
            functionsCurrent := newNode.functionsCurrent ++ fs }

/-- One `key=value` token of a bootstrap report. -/
def bootstrapField (newNode : NodeInfo) (token : Str) : Except Fault NodeInfo := do
  let values := token.splitOn '='
  match StatusField.ofKey (← field values 0) with
  | some f => bootstrapValue newNode values f
  | none => .ok newNode

/-- The record that `BootstrapPhaseHandler` reads from a report. -/
def readBootstrap (content : Str) : Except Fault NodeInfo :=
  run bootstrapField .new (content.splitOn ';')

def bootstrapPhaseHandler (t : Table) (content : Str) : Except Fault Table := do
  let newNode ← readBootstrap content
  .ok (t.addNodeToTable newNode.nodeName.toUri newNode).1

/-! ## Status updates -/

/-- One function of a later report: nothing is done for one that the table does not list. -/
def statusFunction (UUID : Str) (t : Table) (s : Str) : Except Fault Table := do
  let functionsEach := s.splitOn ':'
  let name := '/' :: (← field functionsEach 0)
  let index ← t.getFuncIndex UUID name false
  if index.1 then
    let t := (← t.setFuncName UUID index.2 (NdnCxx.ofUri name) false).1
    let status ← field functionsEach 1
    let t := (← t.setFuncStatus UUID index.2 (status = ['1']) false).1
    let exeCounter ← readNumber (← field functionsEach 2)
    let t := (← t.setFuncExeCounter UUID index.2 exeCounter false).1
    let interestCounter ← readNumber (← field functionsEach 3)
    let t := (← t.setFuncInterestCounter UUID index.2 interestCounter false).1
    let cores ← readNumber (← field functionsEach 4)
    let t := (← t.setFuncCpu UUID index.2 cores false).1
    let ram ← readNumber (← field functionsEach 5)
    let t := (← t.setFuncRam UUID index.2 ram false).1
    let rom ← readNumber (← field functionsEach 6)
    let t := (← t.setFuncRom UUID index.2 rom false).1
    let size ← readNumber (← field functionsEach 7)
    let t := (← t.setFuncSize UUID index.2 size false).1
    let inputs := (← field functionsEach 8).splitOn ','
    let t := (← t.setFuncInputs UUID index.2 inputs false).1
    .ok t
  else .ok t

/-- The branches of `NodeStatusFetchHandler`; the state is `UUID` and the table. -/
def statusValue (s : Str × Table) (values : List Str) : StatusField → Except Fault (Str × Table)
  | .name => do
    let uuid ← field values 1
    .ok (uuid, s.2)
  | .processorCore => do
    let cpu ← readNumber (← field values 1)
    .ok (s.1, (s.2.setNodeCPU s.1 cpu false).1)
  | .ram => do
    let ram ← readNumber (← field values 1)
    .ok (s.1, (s.2.setNodeRAM s.1 ram false).1)
  | .rom => do
    let rom ← readNumber (← field values 1)
    .ok (s.1, (s.2.setNodeROM s.1 rom false).1)
  | .links => do
    let links := (← field values 1).splitOn ','
    .ok (s.1, (s.2.setNodeLinks s.1 links false).1)
  | .runtimes => do
    let runtimes := (← field values 1).splitOn ','
    .ok (s.1, (s.2.setNodeRuntimes s.1 runtimes false).1)
  | .nodeBusyCounter => do
    let counter ← readNumber (← field values 1)
    .ok (s.1, (s.2.setNodeBusyCounter s.1 counter false).1)
  | .data => do
    let list ← field values 1
    if list = "null".toList then .ok s
    else
      let ds ← (list.splitOn ',').mapM readData
      .ok (s.1, (s.2.setNodeDataList s.1 ds false).1)
  | .functions => do
    let t ← run (statusFunction s.1) s.2 (splitFunctions (← field values 1))
    .ok (s.1, t)

/-- One `key=value` token of a later report. -/
def statusField (s : Str × Table) (token : Str) : Except Fault (Str × Table) := do
  let values := token.splitOn '='
  match StatusField.ofKey (← field values 0) with
  | some f => statusValue s values f
  | none => .ok s

def nodeStatusFetchHandler (t : Table) (content : Str) : Except Fault Table := do
  let s ← run statusField ([], t) (content.splitOn ';')
  .ok s.2

/-- `HandleMessage`. -/
def handleMessage (t : Table) (actionToDo content : Str) : Except Fault Table :=
  if actionToDo = "/BootstrapInfo".toList then bootstrapPhaseHandler t content
  else if actionToDo = "/NodeStatusFetch".toList then nodeStatusFetchHandler t content
  else .ok t

/-! ## Well-formed tokens -/

theorem bootstrapField_token (e : NodeInfo) (f : StatusField) {v : Str} (hv : '=' ∉ v) :
    bootstrapField e (f.token v) = bootstrapValue e [f.key, v] f := by
  have hkey : field [f.key, v] 0 = .ok f.key := rfl
  simp only [bootstrapField, f.splitOn_token hv, hkey, bind, Except.bind, f.ofKey_key]

/-- A token with another key is skipped. -/
theorem bootstrapField_ignored (e : NodeInfo) {k v : Str} (hk : '=' ∉ k) (hv : '=' ∉ v)
    (hkey : StatusField.ofKey k = none) : bootstrapField e (k ++ '=' :: v) = .ok e := by
  have hfield : field [k, v] 0 = .ok k := rfl
  simp only [bootstrapField, Text.splitOn_pair hk hv, hfield, bind, Except.bind, hkey]

theorem statusField_token (s : Str × Table) (f : StatusField) {v : Str} (hv : '=' ∉ v) :
    statusField s (f.token v) = statusValue s [f.key, v] f := by
  have hkey : field [f.key, v] 0 = .ok f.key := rfl
  simp only [statusField, f.splitOn_token hv, hkey, bind, Except.bind, f.ofKey_key]

theorem statusField_ignored (s : Str × Table) {k v : Str} (hk : '=' ∉ k) (hv : '=' ∉ v)
    (hkey : StatusField.ofKey k = none) : statusField s (k ++ '=' :: v) = .ok s := by
  have hfield : field [k, v] 0 = .ok k := rfl
  simp only [statusField, Text.splitOn_pair hk hv, hfield, bind, Except.bind, hkey]

end IncSim
