import IncSim.Lib.Run
import IncSim.Node.Fib

/-!
# The compute node

`INC_Computation` and `IncOrchestrationComputeNode`: the functions of a node, its resources, the
fill counter of its waiting queue with the two queue timers, and the exclude list.

* `Fault`: what ends a run (undefined behaviour, an exception).
* `IncComputation`, `ComputeNode`: the two records and their member functions; `fresh` ones, and the
  node that the constructor with a system id makes (`ofSystemId`).
* A `Ptr<INC_Computation>` is the key of the map entry that holds the object (`Ptr`, `deref`):
  `AddNewFunction` makes one object per key and no entry is ever replaced.
* `Resource`, `demand`, `available`, `need`: the two bookable resources, read as natural numbers.
-/

namespace IncSim

open PartialRun

/-- What ends a run. -/
inductive Fault
  /-- a null `Ptr` or `shared_ptr` is dereferenced -/
  | nullPointer
  /-- `front` or `pop` of an empty `std::queue` -/
  | emptyQueue
  /-- an index or iterator outside its vector -/
  | outOfRange
  /-- `std::stoi` throws -/
  | invalidNumber
  /-- control leaves a function without the value it should return -/
  | noReturn
  /-- the simulator holds no such event -/
  | notScheduled
  /-- an `NS_ASSERT` fails -/
  | assertionFailed
  deriving DecidableEq

/-- Simulated time, in ticks. -/
abbrev Time := ℤ

/-- `INC_Computation`. -/
structure IncComputation where
  computationName : Name
  enableComputation : Bool
  execCounter : UInt32
  missExecCounter : UInt32
  ram : UInt32
  rom : UInt32
  cpu : UInt32
  funcSize : UInt32
  paramNumber : UInt32
  inputList : Str
  deriving DecidableEq

namespace IncComputation

/-- An enabled function that has not run. -/
def fresh (name : Str) (ram cpu paramNumber : UInt32) : IncComputation :=
  { computationName := ⟨[name]⟩, enableComputation := true, execCounter := 0
    missExecCounter := 0, ram := ram, rom := 0, cpu := cpu, funcSize := 0
    paramNumber := paramNumber, inputList := "null".toList }

/-- `Execute`. -/
def execute (f : IncComputation) : IncComputation := { f with execCounter := f.execCounter + 1 }

/-- `Enable`. -/
def enable (f : IncComputation) : IncComputation :=
  { f with missExecCounter := 0, enableComputation := true }

/-- `Disable`. -/
def disable (f : IncComputation) : IncComputation := { f with enableComputation := false }

/-- `AddMissExecCounter`. -/
def addMissExecCounter (f : IncComputation) : IncComputation :=
  if f.enableComputation then f else { f with missExecCounter := f.missExecCounter + 1 }

/-- The object that `AddNewFunction` makes of the one it is given: disabled, not run, not missed. -/
def copy (f : IncComputation) : IncComputation :=
  { f with enableComputation := false, execCounter := 0, missExecCounter := 0 }

end IncComputation

/-- What an execution books on its node. -/
inductive Resource
  | ram
  | cores
  deriving DecidableEq

/-- The units of a resource that one execution takes. -/
def IncComputation.demand (f : IncComputation) : Resource → ℕ
  | .ram => f.ram.toNat
  | .cores => f.cpu.toNat

/-- A `Ptr<INC_Computation>`: null, or the object held under a key of the function map. -/
abbrev Ptr := Option Str

/-- `IncOrchestrationComputeNode`, with the FIB of the forwarder on its `ns3::Node`. -/
structure ComputeNode where
  name : Str
  processorCore : UInt32
  processorSpeed : UInt32
  ram : UInt32
  rom : UInt32
  nodeBusyCounter : UInt32
  queueSize : UInt32
  queueFill : UInt32
  links : Str
  supportedRuntimes : Str
  providedData : Str
  funcExcludeList : List Str
  incStrategy : Str
  qEmptyTime : Time
  qFullTime : Time
  emptyTimerStarted : Bool
  fullTimerStarted : Bool
  /-- the values with which the trace `EmptyQueueTimer` fired -/
  emptyQueueTimer : List Time
  /-- the values with which the trace `FullQueueTimer` fired -/
  fullQueueTimer : List Time
  /-- the function map, in iteration order -/
  funcMap : List (Str × Option IncComputation)
  producerAppFace : Option Face
  fib : Fib
  deriving DecidableEq

namespace ComputeNode

/-- A node of the constructor without arguments, with strategy `nfn`, the given resources and functions,
no data, an empty queue of size 2 and an empty exclude list. -/
def fresh (name : Str) (ram cores : UInt32) (funcs : List IncComputation) : ComputeNode :=
  { name := name, processorCore := cores, processorSpeed := 0, ram := ram, rom := 0
    nodeBusyCounter := 0, queueSize := 2, queueFill := 0, links := [], supportedRuntimes := []
    providedData := "null".toList, funcExcludeList := [], incStrategy := "nfn".toList
    qEmptyTime := 0, qFullTime := 0, emptyTimerStarted := false, fullTimerStarted := false
    emptyQueueTimer := [], fullQueueTimer := []
    funcMap := funcs.map fun f => (f.computationName.toUri, some f)
    producerAppFace := none, fib := [] }

/-- What the members hold that the constructors do not set. The one without arguments sets the flags of
the two timers. -/
structure Unset where
  processorCore : UInt32
  processorSpeed : UInt32
  ram : UInt32
  rom : UInt32
  nodeBusyCounter : UInt32
  queueSize : UInt32
  queueFill : UInt32
  qEmptyTime : Time
  qFullTime : Time
  emptyTimerStarted : Bool
  fullTimerStarted : Bool
  deriving Inhabited

/-- `IncOrchestrationComputeNode (uint32_t sid)`, which the topology reader calls. -/
def ofSystemId (u : Unset) : ComputeNode :=
  { name := [], processorCore := u.processorCore, processorSpeed := u.processorSpeed, ram := u.ram
    rom := u.rom, nodeBusyCounter := u.nodeBusyCounter, queueSize := u.queueSize
    queueFill := u.queueFill, links := [], supportedRuntimes := []
    providedData := "null".toList, funcExcludeList := [], incStrategy := []
    qEmptyTime := u.qEmptyTime, qFullTime := u.qFullTime
    emptyTimerStarted := u.emptyTimerStarted, fullTimerStarted := u.fullTimerStarted
    emptyQueueTimer := [], fullQueueTimer := [], funcMap := [], producerAppFace := none, fib := [] }

variable (n : ComputeNode)

/-! ## The waiting queue -/

def setQueueSize (value : UInt32) : ComputeNode := { n with queueSize := value, queueFill := 0 }

def isQueueFull : Bool := n.queueFill == n.queueSize

def isQueueEmpty : Bool := n.queueFill == 0

/-- `IncrementQueueFill` at time `now`. -/
def incrementQueueFill (now : Time) : ComputeNode × Bool :=
  if n.queueFill < n.queueSize then
    let n₁ := if n.emptyTimerStarted then
      { n with
        emptyTimerStarted := false
        emptyQueueTimer := n.emptyQueueTimer ++ [now - n.qEmptyTime] } else n
    ({ n₁ with queueFill := n₁.queueFill + 1 }, true)
  else
    (if n.fullTimerStarted then n else { n with qFullTime := now, fullTimerStarted := true }, false)

/-- `DecrementQueueFill` at time `now`. -/
def decrementQueueFill (now : Time) : ComputeNode × Bool :=
  if 0 < n.queueFill then
    let n₁ := if n.fullTimerStarted then
      { n with
        fullTimerStarted := false
        fullQueueTimer := n.fullQueueTimer ++ [now - n.qFullTime] } else n
    ({ n₁ with queueFill := n₁.queueFill - 1 }, true)
  else
    (if n.emptyTimerStarted then n else { n with qEmptyTime := now, emptyTimerStarted := true },
      false)

/-! ## The busy counter -/

def addNodeBusyCounter : ComputeNode := { n with nodeBusyCounter := n.nodeBusyCounter + 1 }

def resetNodeBusyCounter : ComputeNode := { n with nodeBusyCounter := 0 }

/-! ## The exclude list -/

def addToExcludeList (f : Str) : ComputeNode :=
  { n with funcExcludeList := n.funcExcludeList ++ [f] }

/-- `RemoveFromExcludeList` erases the first occurrence only. -/
def removeFromExcludeList (f : Str) : ComputeNode :=
  { n with funcExcludeList := n.funcExcludeList.erase f }

def checkExcludeList (f : Str) : Bool := n.funcExcludeList.contains f

/-! ## The provided data -/

def addProvidedData (value : Str) : ComputeNode :=
  if n.providedData = "null".toList then { n with providedData := value }
  else if Str.contains n.providedData value then n
  else { n with providedData := n.providedData ++ ',' :: value }

def checkProvidedDataList (value : Str) : Bool := Str.contains n.providedData value

/-! ## The function map -/

/-- The object behind a pointer. -/
def deref : Ptr → Except Fault IncComputation
  | none => .error .nullPointer
  | some k =>
    match n.funcMap.lookup k with
    | some (some f) => .ok f
    | _ => .error .nullPointer

/-- The units of a resource that are not booked. -/
def available : Resource → ℕ
  | .ram => n.ram.toNat
  | .cores => n.processorCore.toNat

/-- The demand of the function behind a pointer; a pointer to nothing needs nothing. -/
def need (p : Ptr) : Resource → ℕ :=
  match n.deref p with
  | .ok f => f.demand
  | .error _ => fun _ => 0

/-- Run a member function that changes the object held under `k`. -/
def update (k : Str) (g : IncComputation → IncComputation) : ComputeNode :=
  { n with funcMap := n.funcMap.map fun q => if q.1 = k then (q.1, q.2.map g) else q }

/-- `AddNewFunction`: `emplace` leaves a key that is there as it is. -/
def addNewFunction (name : Str) (function : IncComputation) : ComputeNode :=
  match n.funcMap.lookup name with
  | some _ => n
  | none => { n with funcMap := n.funcMap ++ [(name, some function.copy)] }

/-- A node whose map is filled by `AddNewFunction`. -/
def fill (functions : List (Str × IncComputation)) : ComputeNode :=
  functions.foldl (fun n q => n.addNewFunction q.1 q.2) n

/-- `GetFunction`: `m_func_map[name]`, which inserts a null pointer under a new key. -/
def getFunction (k : Str) : ComputeNode × Ptr :=
  match n.funcMap.lookup k with
  | none => ({ n with funcMap := n.funcMap ++ [(k, none)] }, none)
  | some none => (n, none)
  | some (some _) => (n, some k)

/-- `boost::algorithm::to_lower_copy (m_inc_strategy) == "nfn" && m_producer_app_face`. -/
def onNfn : Bool := n.incStrategy.map Char.toLower == "nfn".toList && n.producerAppFace.isSome

/-- The FIB prefix of a function. -/
def functionPrefix (f : Str) : Str := "/lambda/Function".toList ++ f

def notifyFibFunctionEnable (f : Str) : ComputeNode :=
  let fib := n.fib.insert (functionPrefix f)
  match n.producerAppFace with
  | none => { n with fib := fib }
  | some face => { n with fib := fib.addOrUpdateNextHop (functionPrefix f) face 0 }

/-- `notifyFibFunctionDisable` removes the first next hop with the URI of a producer app. -/
def notifyFibFunctionDisable (f : Str) : ComputeNode :=
  match n.fib.findExactMatch (functionPrefix f) with
  | none => n
  | some hops =>
    match hops.find? fun h => h.face.remoteUri = nfnProducerAppFace with
    | none => n
    | some h => { n with fib := n.fib.removeNextHop (functionPrefix f) h.face }

def enableFunction (f : Str) : Except Fault (ComputeNode × Bool) :=
  match n.funcMap.lookup f with
  | none => .ok (n, false)
  | some none => .error .nullPointer
  | some (some c) =>
    let n₁ := n.update f IncComputation.enable
    .ok (if n.onNfn then n₁.notifyFibFunctionEnable f else n₁, c.enable.enableComputation)

def disableFunction (f : Str) : Except Fault (ComputeNode × Bool) :=
  match n.funcMap.lookup f with
  | none => .ok (n, false)
  | some none => .error .nullPointer
  | some (some c) =>
    let n₁ := n.update f IncComputation.disable
    .ok (if n.onNfn then n₁.notifyFibFunctionDisable f else n₁, !c.disable.enableComputation)

end ComputeNode

end IncSim
