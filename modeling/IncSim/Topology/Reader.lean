import IncSim.Lib.Extract
import IncSim.Lib.Sections
import IncSim.Producer.Resolution

/-!
# The topology reader

`IncNdnAnnotatedTopologyReader::ReadTopology`, for a file given as its lines, up to the settings of the
links, which are applied at its end. Positions of nodes are left out.

* `Ns3Names`: the names of nodes in ns-3, with what their documentation says; `listNames`.
* `Link`, `FunctionEntry`, `Topology`: what is read; `Junk`: what is not initialised before.
* `readNode`, `rowLink`, `readLink`, `readFunction`, `readInitialStatus`, `readInputs`: one row of each
  section; none where a name is taken, or a link names a node that is not found.
* `readTopology`: the file.
-/

namespace IncSim

open Extract

/-! ## Names in ns-3 -/

/-- `Names` of ns-3, for the nodes that are named under the path of the reader. -/
class Ns3Names where
  /-- `Names::Add` takes a name when these are there; else it aborts -/
  adds : List Str → Str → Bool
  /-- `Names::Find` finds a node -/
  finds : List Str → Str → Bool

/-- The documentation of `Names`: a name is given once, and the names that were given are found. -/
structure Ns3Names.Documented [Ns3Names] : Prop where
  adds_iff : ∀ names name, adds names name = true ↔ name ∉ names
  finds_iff : ∀ names name, finds names name = true ↔ name ∈ names

/-- Names in a list. -/
@[reducible] def listNames : Ns3Names := ⟨fun names name => name ∉ names, fun names name => name ∈ names⟩

theorem listNames_documented : @Ns3Names.Documented listNames :=
  @Ns3Names.Documented.mk listNames (fun _ _ => decide_eq_true_iff) fun _ _ => decide_eq_true_iff

/-! ## What is read -/

/-- A link, with the texts of its attributes. -/
structure Link where
  source : Str
  target : Str
  dataRate : Str
  ospf : Str
  delay : Str
  maxPackets : Str
  lossRate : Str
  deriving DecidableEq

/-- A function of the functions section, with its runtime environment. -/
structure FunctionEntry where
  computation : IncComputation
  runtimeEnvironment : List Str

/-- The members of the reader. -/
structure Topology where
  /-- `m_inc_compute_nodes` -/
  computeNodes : List ComputeNode
  /-- the names of the nodes in `m_consumer_nodecontainer` -/
  consumerNodes : List Str
  links : List Link
  /-- the pairs of names that `processedLinks` holds -/
  processedLinks : List (Str × Str)
  functionList : List FunctionEntry
  initialFuncStatus : List (Str × List Str)

/-- What the reader finds in variables that nobody has set. -/
structure Junk where
  /-- the members of the compute nodes -/
  node : ℕ → ComputeNode.Unset
  /-- the numbers in the rows of the functions -/
  function : ℕ → ℕ → UInt32

namespace Topology

def empty : Topology := ⟨[], [], [], [], [], []⟩

/-- The names that the nodes have. -/
def names (top : Topology) : List Str := top.computeNodes.map ComputeNode.name ++ top.consumerNodes

/-! ## Nodes -/

/-- A compute node with the values of its row. -/
def incComputeNode (unset : ComputeNode.Unset) (name : Str) (cores speed ram rom queue : UInt32)
    (links runtimes : Str) : ComputeNode :=
  let node := ComputeNode.ofSystemId unset
  { node with
    name := name, processorCore := cores, processorSpeed := speed, ram := ram, rom := rom
    links := links, supportedRuntimes := runtimes }
    |>.setQueueSize queue

section Nodes

variable [Ns3Names]

/-- A row of the router section. -/
def readNode (unset : ℕ → ComputeNode.Unset) (top : Topology) (line : Str) : Option Topology :=
  let (name, s) := word (some line)
  let s := double (double s)
  let (cores, s) := unsigned 0 s
  let (speed, s) := unsigned 0 s
  let (ram, s) := unsigned 0 s
  let (rom, s) := unsigned 0 s
  let (queue, s) := unsigned 0 s
  let (links, s) := word s
  let (runtimes, _) := word s
  if name = [] then some top
  else if Str.contains name "orchestrator".toList || Str.contains name "compute".toList then
    if Ns3Names.adds top.names name then
      let node := incComputeNode (unset top.computeNodes.length) name cores speed ram rom queue links
        runtimes
      some { top with computeNodes := top.computeNodes ++ [node] }
    else none
  else if Str.contains name "consumer".toList then
    if Ns3Names.adds top.names name then
      some { top with consumerNodes := top.consumerNodes ++ [name] }
    else none
  else some top

/-! ## Links -/

/-- The link of a row. -/
def rowLink (line : Str) : Link :=
  let (source, s) := word (some line)
  let (target, s) := word s
  let (capacity, s) := word s
  let (metric, s) := word s
  let (delay, s) := word s
  let (maxPackets, s) := word s
  let (lossRate, _) := word s
  ⟨source, target, capacity, metric, delay, maxPackets, lossRate⟩

/-- A row of the links section: a link is left out when its reverse was read before; the assertions
that its nodes are found. -/
def readLink (top : Topology) (line : Str) : Option Topology :=
  let link := rowLink line
  if (link.target, link.source) ∈ top.processedLinks then some top
  else if Ns3Names.finds top.names link.source && Ns3Names.finds top.names link.target then
    some { top with
      processedLinks := top.processedLinks ++ [(link.source, link.target)]
      links := top.links ++ [link] }
  else none

end Nodes

/-! ## Functions -/

/-- The loop that splits the runtimes: a token is taken when a `;` ends it. Positions are those of
a column with less than `2 ^ 32` characters. -/
def splitRuntimes : Str → Str → List Str
  | _, [] => []
  | token, c :: s => if c = ';' then token :: splitRuntimes [] s else splitRuntimes (token ++ [c]) s

/-- The number of parameters in a signature. -/
def numInputs (inputListString : Str) : ℕ :=
  if inputListString = "null".toList then 0 else (inputListString.splitOn ',').length

section Functions

variable [NdnCxx]

/-- A row of the functions section. -/
def readFunction (junk : ℕ → UInt32) (line : Str) : FunctionEntry :=
  let (name, s) := word (some line)
  let (inputListString, s) := word s
  let (runtimesRequired, s) := word s
  let (ram, s) := unsigned (junk 0) s
  let (rom, s) := unsigned (junk 1) s
  let (cpu, s) := unsigned (junk 2) s
  let s := double s
  let (_numInstructions, s) := unsigned (junk 3) s
  let (funcSize, _) := unsigned (junk 4) s
  { computation :=
      { computationName := NdnCxx.ofUri name, enableComputation := false, execCounter := 0
        missExecCounter := 0, ram := ram, rom := rom, cpu := cpu, funcSize := funcSize
        paramNumber := UInt32.ofNat (numInputs inputListString), inputList := "null".toList }
    runtimeEnvironment := splitRuntimes [] runtimesRequired }

/-- `AddToInputList`. -/
def addToInputList (f : IncComputation) (value : Str) : IncComputation :=
  if f.inputList = "null".toList then { f with inputList := value }
  else if Str.contains f.inputList value then f
  else { f with inputList := f.inputList ++ ',' :: value }

/-- A row of the consumer section: its inputs are noted at the function that it names. -/
def readInputs (functions : List FunctionEntry) (line : Str) : List FunctionEntry :=
  let (_nodeName, s) := word (some line)
  let (funcName, s) := word s
  let (inputParamList, _) := word s
  if inputParamList = "null".toList then functions
  else functions.map fun f =>
    if f.computation.computationName = NdnCxx.ofUri funcName then
      { f with computation := (inputParamList.splitOn ',').foldl addToInputList f.computation }
    else f

end Functions

/-- A row of the section with the initial status of the functions. -/
def readInitialStatus (status : List (Str × List Str)) (line : Str) : List (Str × List Str) :=
  let (nodeName, s) := word (some line)
  let (funcName, _) := word s
  if (status.lookup nodeName).isSome then
    status.map fun q => if q.1 = nodeName then (q.1, q.2 ++ [funcName]) else q
  else status ++ [(nodeName, [funcName])]

/-! ## The file -/

section File

variable [NdnCxx]

/-- The functions under their URIs. -/
def functionMap (top : Topology) : List (Str × IncComputation) :=
  top.functionList.map fun f => (f.computation.computationName.toUri, f.computation)

/-- Every compute node but the first gets all functions. -/
def addFunctions (top : Topology) : Topology :=
  { top with
    computeNodes := top.computeNodes.take 1 ++
      (top.computeNodes.drop 1).map (·.fill top.functionMap) }

/-- The sections behind the functions. -/
def readStatus (top : Topology) (lines : List Str) : Topology :=
  let status := Sections.read ["consumer section".toList] lines
  let consumers := Sections.read ["initial data section".toList] status.rest
  { top with
      initialFuncStatus := status.rows.foldl readInitialStatus top.initialFuncStatus
      functionList := consumers.rows.foldl readInputs top.functionList }
    |>.addFunctions

/-- The functions section, unless the title of the next one came before it, and what is behind it. -/
def readFunctions (junk : ℕ → ℕ → UInt32) (top : Topology) (title : Option Str) (lines : List Str) :
    Topology :=
  if title = some "initial function status".toList then top.readStatus lines
  else
    let functions := Sections.read ["initial function status".toList] lines
    let top := { top with
      functionList := top.functionList ++ functions.rows.mapIdx fun i => readFunction (junk i) }
    if functions.rest = [] then top else top.readStatus functions.rest

/-- The titles that end the links section. -/
def linksEnd : List Str :=
  ["functions", "initial function status", "consumer section"].map String.toList

/-- `ReadTopology`; none is the fatal error of a file without a router section, or a failure of
`Names`. It returns early where the file ends before its last section. -/
def readTopology [Ns3Names] (junk : Junk) (lines : List Str) : Option Topology :=
  let lines := Sections.skipTo "router".toList lines
  if lines = [] then none
  else do
    let router := Sections.read ["links".toList] lines
    let top ← router.rows.foldlM (readNode junk.node) empty
    if router.rest = [] then some top
    else
      let links := Sections.read linksEnd router.rest
      let top ← links.rows.foldlM readLink top
      if links.rest = [] then some top
      else some (top.readFunctions junk.function links.title links.rest)

end File

end Topology

end IncSim
