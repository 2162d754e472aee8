import IncSim.Producer.Resolution

/-!
# The producer application

`NfnProducerApp` on its compute node: interest arrivals, data arrivals and the ends of executions.

* `NfnProducerApp`, `Host`: the state of one app, and of an app with its node.
* `checkResource`, `bookResource`, `releaseResource`, `doExecution`, `scheduledExecutionEnd`;
  `resolve`, `resolveAndHandleDecisions`, `forwardInterest`; `onInterest`, `onData`.
* `Event`, `Host.step`: one app alone. `SharedEvent`, `Host.sharedStep`: one app on a node that others
  change. `System`, `System.step`: any number of apps on one node.

The packets that an app hands to its link are kept in `sent`; the scheduled ends of its
executions are kept in `inProgress` and may fire in any order.
-/

namespace IncSim

/-- `InterestComponentStruct`. -/
structure InterestComponentStruct where
  interest : Name
  func : Ptr
  pendingArgs : List (Name × Bool)
  deriving DecidableEq

namespace InterestComponentStruct

/-- `operator ==`: the URIs of the interests agree. -/
def same (a b : InterestComponentStruct) : Bool := a.interest.toUri == b.interest.toUri

/-- Set the flag of `d` in `m_pending_args`, adding the name when it is not there. -/
def setArg (t : InterestComponentStruct) (d : Name) (flag : Bool) : InterestComponentStruct :=
  { t with
    pendingArgs :=
      if t.pendingArgs.any fun q => q.1 = d then
        t.pendingArgs.map fun q => if q.1 = d then (d, flag) else q
      else t.pendingArgs ++ [(d, flag)] }

end InterestComponentStruct

/-- `lp::NackReason`, the two reasons that the app gives. -/
inductive NackReason
  | noRoute
  | congestion
  deriving DecidableEq

/-- A packet handed to the link of the app. -/
inductive Packet
  | interest (name : Name)
  | data (name : Name)
  | nack (name : Name) (reason : NackReason)
  deriving DecidableEq

/-- A scheduled `ScheduledExecutionEnd (data, func)`. -/
structure Execution where
  data : Name
  func : Ptr
  deriving DecidableEq

/-- `NfnProducerApp`. -/
structure NfnProducerApp where
  active : Bool
  face : Face
  pendingContentTable : List InterestComponentStruct
  sendingInterestList : List Name
  waitingList : List InterestComponentStruct
  inProgress : List Execution
  sent : List Packet
  deriving DecidableEq

namespace NfnProducerApp

/-- The app when it starts. -/
def start (face : Face) : NfnProducerApp :=
  { active := true, face := face, pendingContentTable := [], sendingInterestList := []
    waitingList := [], inProgress := [], sent := [] }

def send (a : NfnProducerApp) (p : Packet) : NfnProducerApp := { a with sent := a.sent ++ [p] }

/-- `DeletePendingContentTableEntry` erases the first entry of the same interest. -/
def deletePendingContentTableEntry (a : NfnProducerApp) (t : InterestComponentStruct) :
    NfnProducerApp :=
  { a with pendingContentTable := a.pendingContentTable.eraseP fun e => e.same t }

/-- One name of the FETCH branch: note it as pending, and request it unless it is requested. -/
def fetchName (q : NfnProducerApp × InterestComponentStruct) (d : Name) :
    NfnProducerApp × InterestComponentStruct :=
  (if d ∈ q.1.sendingInterestList then q.1
    else { q.1.send (.interest d) with sendingInterestList := d :: q.1.sendingInterestList },
   q.2.setArg d false)

/-- The FETCH branch of `ResolveAndHandleDecisions`. -/
def fetch (a : NfnProducerApp) (t : InterestComponentStruct) (names : List Name) :
    NfnProducerApp :=
  let q := names.foldl fetchName (a, t)
  { q.1 with pendingContentTable := q.2 :: q.1.pendingContentTable }

end NfnProducerApp

/-- `QUEUE_ACTION`: what happens to an interest that finds the queue full. -/
inductive QueueAction
  | push
  | nack
  | forward

def queueAction : QueueAction := .forward

/-- An app and its compute node. -/
structure Host where
  node : ComputeNode
  app : NfnProducerApp
  deriving DecidableEq

namespace Host

variable (h : Host)

def send (p : Packet) : Host := { h with app := h.app.send p }

/-! ## Resources and executions -/

def releaseResource (func : Ptr) : Except Fault Host := do
  let f ← h.node.deref func
  pure { h with
    node := { h.node with ram := h.node.ram + f.ram, processorCore := h.node.processorCore + f.cpu } }

def bookResource (func : Ptr) : Except Fault Host := do
  let f ← h.node.deref func
  pure { h with
    node := { h.node with ram := h.node.ram - f.ram, processorCore := h.node.processorCore - f.cpu } }

def checkResource (func : Ptr) : Except Fault Bool := do
  let f ← h.node.deref func
  pure !(h.node.ram < f.ram || h.node.processorCore < f.cpu)

/-- `ics.m_func->Execute ()`. -/
def execute (func : Ptr) : Host :=
  match func with
  | none => h
  | some k => { h with node := h.node.update k IncComputation.execute }

def doExecution (t : InterestComponentStruct) : Except Fault Host := do
  let h ← h.bookResource t.func
  let h := h.execute t.func
  let app := { h.app with inProgress := h.app.inProgress ++ [Execution.mk t.interest t.func] }
  pure { h with app := app.deletePendingContentTableEntry t }

/-- What `ScheduledExecutionEnd` does when the node says that its queue is not empty. -/
def serveQueue (now : Time) : Except Fault Host :=
  match h.app.waitingList with
  | [] => .error .emptyQueue
  | t :: rest => do
    if ← h.checkResource t.func then
      let node := (h.node.decrementQueueFill now).1
      Host.doExecution ⟨node, { h.app with waitingList := rest }⟩ t
    else pure h

def scheduledExecutionEnd (now : Time) (e : Execution) : Except Fault Host := do
  let h ← h.releaseResource e.func
  let h := h.send (.data e.data)
  if h.node.isQueueEmpty then pure h else h.serveQueue now

/-! ## Forwarding -/

/-- The prefix that every producer app serves. -/
def servedPrefix : Str := "/lambda/Function".toList

/-- The FIB edit before an interest is forwarded: cost 40 for the own face. -/
def raiseCost : Host :=
  match h.node.fib.findExactMatch servedPrefix with
  | none => h
  | some hops =>
    if hops.any fun q => q.face.remoteUri = nfnProducerAppFace then
      { h with node := { h.node with
        fib := h.node.fib.addOrUpdateNextHop servedPrefix h.app.face 40 } }
    else h

/-- The FIB edit after an interest is forwarded: cost 0 for the own face. -/
def restoreCost : Host :=
  { h with node := { h.node with
    fib := (h.node.fib.insert servedPrefix).addOrUpdateNextHop servedPrefix h.app.face 0 } }

def forwardInterest (t : InterestComponentStruct) : Except Fault Host := do
  let h := h.raiseCost
  let f ← h.node.deref t.func
  let (node, ptr) := h.node.getFunction f.computationName.toUri
  let g ← node.deref ptr
  let node := if g.enableComputation then node.notifyFibFunctionDisable f.computationName.toUri
    else node
  pure (Host.send ⟨node, h.app⟩ (.interest t.interest)).restoreCost

/-! ## Resolving an interest -/

/-- The decision for an interest: that of the engine, or FORWARD for an excluded function. -/
def resolve (cs : ContentStore) (t : InterestComponentStruct) (n : ComputeNode) :
    Except Fault (ComputeNode × NREDecision × List Name) := do
  let (n, decision, names) ← getFetchDecisions cs t.interest n
  let f ← n.deref t.func
  pure (n, if n.checkExcludeList f.computationName.toUri then .forward else decision, names)

/-- The queue is full: count it, then act by `QUEUE_ACTION`. -/
def queueFull (t : InterestComponentStruct) : Except Fault Host :=
  let h := { h with node := h.node.addNodeBusyCounter }
  match queueAction with
  | .push =>
    match h.app.waitingList with
    | [] => .error .emptyQueue
    | _ :: rest => .ok { h with app := { h.app with waitingList := rest ++ [t] } }
  | .nack => .ok (h.send (.nack t.interest .congestion))
  | .forward => h.forwardInterest t

/-- The EXECUTE branch of `ResolveAndHandleDecisions`. -/
def executeOrQueue (now : Time) (t : InterestComponentStruct) : Except Fault Host := do
  if ← h.checkResource t.func then h.doExecution t
  else if h.node.isQueueFull then h.queueFull t
  else pure ⟨(h.node.incrementQueueFill now).1, { h.app with waitingList := h.app.waitingList ++ [t] }⟩

def resolveAndHandleDecisions (now : Time) (cs : ContentStore) (t : InterestComponentStruct) :
    Except Fault Host := do
  let (node, decision, names) ← resolve cs t h.node
  let h : Host := ⟨node, h.app⟩
  match decision with
  | .nack => pure (h.send (.nack t.interest .noRoute))
  | .fetch => pure { h with app := h.app.fetch t names }
  | .forward => h.forwardInterest t
  | .execute => h.executeOrQueue now t

/-! ## Arrivals -/

/-- The loop of `OnInterest` that looks up the function: the last `/Function` decides. -/
def findFunction : ComputeNode → Ptr → List Str → ComputeNode × Ptr
  | n, func, [] => (n, func)
  | n, func, c :: l =>
    if c = functionComp then
      let (n, func) := n.getFunction (Name.toUri ⟨l.take 1⟩)
      findFunction n func l
    else findFunction n func l

def onInterest (now : Time) (cs : ContentStore) (interest : Name) : Except Fault Host :=
  if !h.app.active then .ok h
  else if interest.getSubName 0 1 = ⟨[lambdaComp]⟩ then
    let (node, func) := findFunction h.node none interest.comps
    Host.resolveAndHandleDecisions ⟨node, h.app⟩ now cs ⟨interest, func, []⟩
  else if interest.getSubName 0 1 = ⟨[functionComp]⟩ then
    let (node, func) := h.node.getFunction (interest.getSubName 1 1).toUri
    match func with
    | none => .ok { h with node := node }
    | some k => do
      let f ← node.deref (some k)
      let h : Host := { h with node := node }
      pure (if f.enableComputation then h.send (.data interest) else h)
  else .ok (h.send (.data interest))

/-- `OnData`, an entry that waits for `d`: enable the function that `d` brings, if it brings one.
The flag says whether the loop goes on to the flag of `d`. -/
def codeDrag (d : Name) (t : InterestComponentStruct) : Except Fault (Host × Bool) :=
  if Str.contains d.toUri "/Function".toList then do
    let (node, enabled) ← h.node.enableFunction (d.getSubName 1 1).toUri
    if enabled then pure ({ h with node := node }, true)
    else pure (⟨node, h.app.deletePendingContentTableEntry t⟩, false)
  else .ok (h, true)

/-- `OnData`, the flag of `d` in entry `i`: set it, and resolve the entry when it was the last. -/
def setPending (now : Time) (cs : ContentStore) (d : Name) (i : ℕ) (t : InterestComponentStruct) :
    Except Fault Host :=
  if t.pendingArgs.lookup d = some false then
    let t := t.setArg d true
    let h := { h with app :=
      { h.app with pendingContentTable := h.app.pendingContentTable.set i t } }
    if t.pendingArgs.all fun q => q.2 then h.resolveAndHandleDecisions now cs t else .ok h
  else .ok h

/-- `OnData`, one round of the loop over the pending content table. -/
def visitEntry (now : Time) (cs : ContentStore) (d : Name) (i : ℕ) : Except Fault Host :=
  match h.app.pendingContentTable[i]? with
  | none => .error .outOfRange
  | some t =>
    if t.pendingArgs.any fun q => q.1 = d then do
      let (h, goOn) ← h.codeDrag d t
      if goOn then h.setPending now cs d i t else pure h
    else .ok h

/-- `OnData`, the rounds `i - 1, ..., 0` of the loop; `cs i` answers the lookups of round `i`. -/
def visitEntries (now : Time) (cs : ℕ → ContentStore) (d : Name) : ℕ → Host → Except Fault Host
  | 0, h => .ok h
  | i + 1, h => do
    let h ← h.visitEntry now (cs i) d i
    visitEntries now cs d i h

def onData (now : Time) (cs : ℕ → ContentStore) (d : Name) : Except Fault Host :=
  if !h.app.active then .ok h
  else
    let h := { h with app :=
      { h.app with sendingInterestList := h.app.sendingInterestList.filter fun s => s ≠ d } }
    visitEntries now cs d h.app.pendingContentTable.length h

end Host

/-! ## Events -/

/-- What happens to an app. -/
inductive Event
  /-- `OnInterest` -/
  | interest (now : Time) (cs : ContentStore) (name : Name)
  /-- `OnData` -/
  | data (now : Time) (cs : ℕ → ContentStore) (name : Name)
  /-- `ScheduledExecutionEnd` of the execution at place `k` of `inProgress` -/
  | executionEnd (now : Time) (k : ℕ)

/-- One event of an app that is alone on its node. -/
def Host.step (h : Host) : Event → Except Fault Host
  | .interest now cs name => h.onInterest now cs name
  | .data now cs name => h.onData now cs name
  | .executionEnd now k =>
    match h.app.inProgress[k]? with
    | none => .error .notScheduled
    | some e =>
      Host.scheduledExecutionEnd
        { h with app := { h.app with inProgress := h.app.inProgress.eraseIdx k } } now e

/-- What happens to an app whose node others change, too. -/
inductive SharedEvent
  | app (e : Event)
  /-- The other apps and the orchestrator leave this node. -/
  | node (n : ComputeNode)

/-- One event of an app, or of the others on its node. -/
def Host.sharedStep (h : Host) : SharedEvent → Except Fault Host
  | .app e => h.step e
  | .node n => .ok { h with node := n }

/-- Any number of apps on one compute node. -/
structure System (ι : Type) where
  node : ComputeNode
  apps : ι → NfnProducerApp

namespace System

variable {ι : Type} [DecidableEq ι]

/-- App `a` with the node. -/
def host (s : System ι) (a : ι) : Host := ⟨s.node, s.apps a⟩

/-- Put app `a` and the node back. -/
def put (s : System ι) (a : ι) (h : Host) : System ι :=
  ⟨h.node, Function.update s.apps a h.app⟩

/-- One event of app `e.1`. -/
def step (s : System ι) (e : ι × Event) : Except Fault (System ι) := do
  let h ← (s.host e.1).step e.2
  pure (s.put e.1 h)

end System

end IncSim
