import Mathlib.Algebra.GroupWithZero.Nat
import IncSim.Node.Switch
import IncSim.Orchestrator.Update

/-!
# The orchestration round

`OrchestrationManagementApp::FunctionSwitchHandler`: the switch commands of one round.

* `Ns3Time`: the part of `ns3::Time` that the tests on the load use, a parameter of the model.
* `ControlInterest`, `ManagementApp`, `functionSwitchHandler`: the three passes over the table.
* `disablePass_eq`, `enableInterest_eq`, `missedInterest_eq`: what each pass sends.
* **`functionSwitchHandler_content`**: the exact content of a round.
* **`round_keeps_functions_iff`**: when a round leaves every enabled function enabled somewhere.
-/

namespace IncSim

open PartialRun

/-- What the model takes from `ns3::Time`. -/
class Ns3Time where
  /-- `Time (n)`, to which an `int` is converted -/
  ofInt : ℤ → Time
  /-- `t / 3.0` -/
  third : Time → Time
  /-- `t * n` -/
  times : Time → ℤ → Time
  /-- `t / n` -/
  divBy : Time → ℤ → Time
  /-- `t < t'` -/
  lt : Time → Time → Bool

/-- Time in ticks, with its integer arithmetic. -/
@[reducible] def tickTime : Ns3Time :=
  ⟨id, fun t => t / 3, fun t n => t * n, fun t n => t / n, fun t t' => t < t'⟩

/-- A command under construction: `orchestration_control_disable_interest` or
`orchestration_control_enable_interest`, as the node and the operation that it starts with and the
names appended to it. -/
structure ControlInterest where
  node : Str
  op : SwitchOp
  funcs : List Str
  deriving DecidableEq

namespace ControlInterest

/-- The string itself. -/
def text (c : ControlInterest) : Str :=
  "/Orchestrator".toList ++ c.node ++ "/FunctionSwitch/".toList ++ c.op.text ++ c.funcs.flatten

def append (c : ControlInterest) (func : Str) : ControlInterest :=
  { c with funcs := c.funcs ++ [func] }

end ControlInterest

/-- `OrchestrationManagementApp`. -/
structure ManagementApp where
  interval : Time
  communicationModel : Str
  storage : Table

/-- `sum_exe_counter`: an `int` to which unsigned counters are added. -/
def sumExeCounter (functions_current : List FunctionInfo) : Int32 :=
  functions_current.foldl (fun sum f => (sum.toUInt32 + f.funcExeCounter).toInt32) 0

/-- One round of a loop that appends the functions with property `p` and sets a flag. -/
def appendWhen (p : FunctionInfo → Bool) (q : ControlInterest × Bool) (f : FunctionInfo) :
    ControlInterest × Bool :=
  if p f then (q.1.append f.funcName.toUri, true) else q

namespace ManagementApp

variable [Ns3Time] (a : ManagementApp)

open Ns3Time

/-- The test on the load of a node before it is sent a `Disable`. -/
def busyTest (node : NodeInfo) (sum_exe_counter : ℤ) : Bool :=
  lt (times (times (third a.interval) node.cpu.1.toNat) (4 / 5)) (ofInt sum_exe_counter)

/-- The test on the load of a node before it takes over the functions of busy nodes. -/
def idleTest (node : NodeInfo) (sum_exe_counter : ℤ) : Bool :=
  sum_exe_counter == 0 ||
    lt (ofInt sum_exe_counter) (divBy (times (third a.interval) node.cpu.1.toNat) 2)

omit [Ns3Time] in
/-- The calls of the communication app: under each of the two models, if the flag is set. -/
def send (q : ControlInterest × Bool) : List ControlInterest :=
  (if a.communicationModel = "In-Band".toList then if q.2 then [q.1] else [] else []) ++
    if a.communicationModel = "Out-of-Band".toList then if q.2 then [q.1] else [] else []

/-- One function of a busy node: the disable interest with its flag, and `busy_node_functions`. -/
def disableRound (q : (ControlInterest × Bool) × List Str) (f : FunctionInfo) :
    (ControlInterest × Bool) × List Str :=
  (appendWhen (fun f => f.status && f.funcExeCounter == 0) q.1 f,
    if f.status && 8 < f.funcExeCounter then q.2 ++ [f.funcName.toUri] else q.2)

/-- One node of the first pass: what was sent, and `busy_node_functions`. -/
def disablePass (q : List ControlInterest × List Str) (iter : Str × NodeInfo) :
    List ControlInterest × List Str :=
  if a.busyTest iter.2 (sumExeCounter iter.2.functionsCurrent).toInt then
    let r := iter.2.functionsCurrent.foldl disableRound ((⟨iter.1, .disable, []⟩, false), q.2)
    (q.1 ++ a.send r.1, r.2)
  else q

omit [Ns3Time] in
/-- The functions that are disabled and missed more than `limit` times, for one node: the third
pass, with limit 10, and the first loop of the second, with limit 5. -/
def missedInterest (limit : Int32) (it : Str × NodeInfo) : ControlInterest × Bool :=
  it.2.functionsCurrent.foldl
    (appendWhen fun f => !f.status && limit < f.funcInterestCounter.toInt32)
    (⟨it.1, .enable, []⟩, false)

/-- One node of the second pass. -/
def enableInterest (busy_node_functions : List Str) (it : Str × NodeInfo) :
    ControlInterest × Bool :=
  let q := missedInterest 5 it
  if a.idleTest it.2 (sumExeCounter it.2.functionsCurrent).toInt then
    it.2.functionsCurrent.foldl
      (appendWhen fun f => !f.status && busy_node_functions.contains f.funcName.toUri) q
  else q

/-- `FunctionSwitchHandler`: the commands in the order in which they are sent. -/
def functionSwitchHandler : List ControlInterest :=
  let nodes := a.storage.entries
  let q := nodes.foldl a.disablePass ([], [])
  q.1 ++ (nodes.reverse.flatMap fun it => a.send (a.enableInterest q.2 it)) ++
    nodes.reverse.flatMap fun it => a.send (missedInterest 10 it)

end ManagementApp

/-! ## What each pass sends -/

section Loops

variable (p : FunctionInfo → Bool) (fs : List FunctionInfo) (c : ControlInterest)

/-- A loop that appends under a flag. -/
theorem foldl_appendWhen (b : Bool) : fs.foldl (appendWhen p) (c, b) =
    ({ c with funcs := c.funcs ++ (fs.filter p).map FunctionInfo.uri }, b || fs.any p) := by
  induction fs generalizing c b with
  | nil => simp
  | cons f fs ih =>
    rw [List.foldl_cons, appendWhen]
    by_cases hp : p f = true
    · simp [hp, ih, ControlInterest.append, FunctionInfo.uri]
    · simp [hp, ih]

end Loops

namespace ManagementApp

variable [Ns3Time] (a : ManagementApp)

/-- The names of functions with a property, at one node. -/
def namesOf (p : FunctionInfo → Bool) (node : NodeInfo) : List Str :=
  (node.functionsCurrent.filter p).map FunctionInfo.uri

/-- Enabled, and not executed. -/
def unused (f : FunctionInfo) : Bool := f.status && f.funcExeCounter == 0

/-- Enabled, and executed more than 8 times. -/
def hot (f : FunctionInfo) : Bool := f.status && 8 < f.funcExeCounter

/-- Disabled, and asked for more than `limit` times. -/
def missed (limit : Int32) (f : FunctionInfo) : Bool :=
  !f.status && limit < f.funcInterestCounter.toInt32

/-- The first pass takes the node for busy. -/
def busy (node : NodeInfo) : Bool :=
  a.busyTest node (sumExeCounter node.functionsCurrent).toInt

/-- The second pass takes the node for idle. -/
def idle (node : NodeInfo) : Bool :=
  a.idleTest node (sumExeCounter node.functionsCurrent).toInt

/-- `busy_node_functions` after the first pass. -/
def busyNodeFunctions : List Str :=
  a.storage.entries.flatMap fun q => if a.busy q.2 then namesOf hot q.2 else []

omit [Ns3Time] in
theorem namesOf_eq_nil {p : FunctionInfo → Bool} {node : NodeInfo} :
    namesOf p node = [] ↔ node.functionsCurrent.any p = false := by
  simp [namesOf]

omit [Ns3Time] in
theorem mem_namesOf {p : FunctionInfo → Bool} {node : NodeInfo} {u : Str} :
    u ∈ namesOf p node ↔ ∃ f ∈ node.functionsCurrent, f.uri = u ∧ p f = true := by
  simp only [namesOf, List.mem_map, List.mem_filter]
  constructor
  · rintro ⟨f, ⟨hf, hp⟩, rfl⟩
    exact ⟨f, hf, rfl, hp⟩
  · rintro ⟨f, hf, rfl, hp⟩
    exact ⟨f, ⟨hf, hp⟩, rfl⟩

/-- The attribute `CommunicationModel` has one of its two values. -/
def Communicates : Prop :=
  a.communicationModel = "In-Band".toList ∨ a.communicationModel = "Out-of-Band".toList

instance : Decidable a.Communicates := inferInstanceAs (Decidable (_ ∨ _))

omit [Ns3Time] in
/-- A command whose flag says that it names a function is sent if it does. -/
theorem mem_send {q : ControlInterest × Bool} (hflag : q.2 = true ↔ q.1.funcs ≠ [])
    {c : ControlInterest} : c ∈ a.send q ↔ a.Communicates ∧ c = q.1 ∧ c.funcs ≠ [] := by
  have hne : "In-Band".toList ≠ "Out-of-Band".toList := by decide
  have hone : c ∈ (if q.2 then [q.1] else []) ↔ c = q.1 ∧ c.funcs ≠ [] := by
    by_cases hq : q.2 = true
    · rw [if_pos hq, List.mem_singleton]
      exact ⟨fun h => ⟨h, h ▸ hflag.mp hq⟩, And.left⟩
    · rw [if_neg hq]
      refine iff_of_false List.not_mem_nil ?_
      rintro ⟨rfl, h⟩
      exact hq (hflag.mpr h)
  rw [send, List.mem_append, Communicates]
  by_cases hin : a.communicationModel = "In-Band".toList
  · have hout : a.communicationModel ≠ "Out-of-Band".toList := hin ▸ hne
    rw [if_pos hin, if_neg hout, hone]
    exact ⟨fun h => ⟨Or.inl hin, h.resolve_right List.not_mem_nil⟩, fun h => Or.inl h.2⟩
  · rw [if_neg hin]
    by_cases hout : a.communicationModel = "Out-of-Band".toList
    · rw [if_pos hout, hone]
      exact ⟨fun h => ⟨Or.inr hout, h.resolve_left List.not_mem_nil⟩, fun h => Or.inr h.2⟩
    · rw [if_neg hout]
      exact iff_of_false (not_or_intro List.not_mem_nil List.not_mem_nil)
        fun h => not_or_intro hin hout h.1

omit [Ns3Time] in
/-- What one busy node contributes to the first pass. -/
theorem foldl_disableRound (fs : List FunctionInfo) (q : ControlInterest × Bool) (l : List Str) :
    fs.foldl disableRound (q, l) =
      (fs.foldl (appendWhen unused) q, l ++ (fs.filter hot).map FunctionInfo.uri) := by
  induction fs generalizing q l with
  | nil => simp
  | cons f fs ih =>
    rw [List.foldl_cons, List.foldl_cons, disableRound, ih]
    by_cases hf : hot f = true
    · have hf' : (f.status && decide (8 < f.funcExeCounter)) = true := hf
      simp only [if_pos hf', List.filter_cons_of_pos hf, List.map_cons, List.append_assoc,
        List.singleton_append]
      rfl
    · have hf' : ¬ (f.status && decide (8 < f.funcExeCounter)) = true := hf
      simp only [if_neg hf', List.filter_cons_of_neg hf]
      rfl

/-- **The first pass.** -/
theorem disablePass_eq (nodes : List (Str × NodeInfo)) (q : List ControlInterest × List Str) :
    nodes.foldl a.disablePass q =
      (q.1 ++ nodes.flatMap fun n => if a.busy n.2 then
          a.send (⟨n.1, .disable, namesOf unused n.2⟩, n.2.functionsCurrent.any unused) else [],
        q.2 ++ nodes.flatMap fun n => if a.busy n.2 then namesOf hot n.2 else []) := by
  induction nodes generalizing q with
  | nil => simp
  | cons n nodes ih =>
    have hpass : a.disablePass q n =
        (q.1 ++ (if a.busy n.2 then
          a.send (⟨n.1, .disable, namesOf unused n.2⟩, n.2.functionsCurrent.any unused) else []),
        q.2 ++ if a.busy n.2 then namesOf hot n.2 else []) := by
      rw [disablePass]
      by_cases hb : a.busy n.2 = true
      · have hb' : a.busyTest n.2 (sumExeCounter n.2.functionsCurrent).toInt = true := hb
        simp only [if_pos hb', if_pos hb, foldl_disableRound, foldl_appendWhen, List.nil_append,
          Bool.false_or, namesOf]
      · have hb' : ¬ a.busyTest n.2 (sumExeCounter n.2.functionsCurrent).toInt = true := hb
        simp only [if_neg hb', if_neg hb, List.append_nil]
    rw [List.foldl_cons, ih, hpass]
    simp only [List.flatMap_cons, List.append_assoc]

omit [Ns3Time] in
/-- **The third pass**, at one node. -/
theorem missedInterest_eq (limit : Int32) (it : Str × NodeInfo) :
    missedInterest limit it =
      (⟨it.1, .enable, namesOf (missed limit) it.2⟩, it.2.functionsCurrent.any (missed limit)) := by
  rw [missedInterest]
  exact foldl_appendWhen (missed limit) it.2.functionsCurrent ⟨it.1, .enable, []⟩ false

/-- Disabled, and executed often at a busy node. -/
def offloaded (l : List Str) (f : FunctionInfo) : Bool := !f.status && l.contains f.uri

/-- **The second pass**, at one node. -/
theorem enableInterest_eq (l : List Str) (it : Str × NodeInfo) :
    a.enableInterest l it =
      (⟨it.1, .enable, namesOf (missed 5) it.2 ++
          if a.idle it.2 then namesOf (offloaded l) it.2 else []⟩,
        it.2.functionsCurrent.any (missed 5) ||
          (a.idle it.2 && it.2.functionsCurrent.any (offloaded l))) := by
  rw [enableInterest, missedInterest_eq]
  by_cases hi : a.idle it.2 = true
  · have hi' : a.idleTest it.2 (sumExeCounter it.2.functionsCurrent).toInt = true := hi
    simp only [if_pos hi', hi, if_true, Bool.true_and]
    exact foldl_appendWhen (offloaded l) it.2.functionsCurrent _ _
  · have hi' : ¬ a.idleTest it.2 (sumExeCounter it.2.functionsCurrent).toInt = true := hi
    simp [if_neg hi', hi]

/-! ## The content of a round -/

/-- The commands that a round has for one node, with or without a function to name. -/
inductive Planned (K : Str) (node : NodeInfo) : ControlInterest → Prop
  | disable (h : a.busy node = true) : Planned K node ⟨K, .disable, namesOf unused node⟩
  | enable : Planned K node ⟨K, .enable, namesOf (missed 5) node ++
      if a.idle node then namesOf (offloaded a.busyNodeFunctions) node else []⟩
  | missed : Planned K node ⟨K, .enable, namesOf (missed 10) node⟩

/-- **What is sent**: the planned commands that name a function. -/
theorem mem_functionSwitchHandler {c : ControlInterest} :
    c ∈ a.functionSwitchHandler ↔ a.Communicates ∧ c.funcs ≠ [] ∧
      ∃ K node, a.storage.find? K = some node ∧ a.Planned K node c := by
  have hdis : ∀ n : Str × NodeInfo,
      (n.2.functionsCurrent.any unused = true ↔ namesOf unused n.2 ≠ []) := fun n => by
    rw [Ne, namesOf_eq_nil, Bool.not_eq_false]
  have hmiss : ∀ (limit : Int32) (n : Str × NodeInfo),
      ((missedInterest limit n).2 = true ↔ (missedInterest limit n).1.funcs ≠ []) :=
    fun limit n => by
      rw [missedInterest_eq, Ne, namesOf_eq_nil, Bool.not_eq_false]
  have hen : ∀ n : Str × NodeInfo, ((a.enableInterest a.busyNodeFunctions n).2 = true ↔
      (a.enableInterest a.busyNodeFunctions n).1.funcs ≠ []) := fun n => by
    rw [enableInterest_eq, Ne, List.append_eq_nil_iff, namesOf_eq_nil]
    cases a.idle n.2 <;> cases n.2.functionsCurrent.any (missed 5) <;> simp [namesOf_eq_nil]
  simp only [functionSwitchHandler, disablePass_eq, List.nil_append, List.mem_append,
    List.mem_flatMap, List.mem_reverse, OrdMap.find?_eq_some_iff_mem]
  constructor
  · rintro ((⟨n, hn, hc⟩ | ⟨n, hn, hc⟩) | ⟨n, hn, hc⟩)
    · by_cases hb : a.busy n.2 = true
      · rw [if_pos hb, mem_send a (hdis n)] at hc
        obtain ⟨hcomm, rfl, hne⟩ := hc
        exact ⟨hcomm, hne, n.1, n.2, hn, .disable hb⟩
      · rw [if_neg hb] at hc
        exact absurd hc List.not_mem_nil
    · obtain ⟨hcomm, rfl, hne⟩ := (mem_send a (hen n)).mp hc
      rw [enableInterest_eq] at hne ⊢
      exact ⟨hcomm, hne, n.1, n.2, hn, .enable⟩
    · obtain ⟨hcomm, rfl, hne⟩ := (mem_send a (hmiss 10 n)).mp hc
      rw [missedInterest_eq] at hne ⊢
      exact ⟨hcomm, hne, n.1, n.2, hn, .missed⟩
  · rintro ⟨hcomm, hne, K, node, hn, hc⟩
    cases hc with
    | disable hb =>
      refine Or.inl (Or.inl ⟨(K, node), hn, ?_⟩)
      rw [if_pos hb, mem_send a (hdis (K, node))]
      exact ⟨hcomm, rfl, hne⟩
    | enable =>
      refine Or.inl (Or.inr ⟨(K, node), hn, (mem_send a (hen (K, node))).mpr ⟨hcomm, ?_, hne⟩⟩)
      rw [enableInterest_eq]
    | missed =>
      refine Or.inr ⟨(K, node), hn, (mem_send a (hmiss 10 (K, node))).mpr ⟨hcomm, ?_, hne⟩⟩
      rw [missedInterest_eq]

/-- The pair of a node and a function is named in a command with operation `op`. -/
def Names (op : SwitchOp) (K u : Str) : Prop :=
  ∃ c ∈ a.functionSwitchHandler, c.op = op ∧ c.node = K ∧ u ∈ c.funcs

theorem names_disable_iff {K u : Str} : a.Names .disable K u ↔
    a.Communicates ∧ ∃ node, a.storage.find? K = some node ∧ a.busy node = true ∧
      u ∈ namesOf unused node := by
  constructor
  · rintro ⟨c, hc, hop, rfl, hu⟩
    obtain ⟨hcomm, -, K, node, hn, hplan⟩ := a.mem_functionSwitchHandler.mp hc
    cases hplan with
    | disable hb => exact ⟨hcomm, node, hn, hb, hu⟩
    | enable => exact SwitchOp.noConfusion hop
    | missed => exact SwitchOp.noConfusion hop
  · rintro ⟨hcomm, node, hn, hb, hu⟩
    refine ⟨⟨K, .disable, namesOf unused node⟩, ?_, rfl, rfl, hu⟩
    exact a.mem_functionSwitchHandler.mpr ⟨hcomm, List.ne_nil_of_mem hu, K, node, hn, .disable hb⟩

theorem names_enable_iff {K u : Str} : a.Names .enable K u ↔
    a.Communicates ∧ ∃ node, a.storage.find? K = some node ∧
      (u ∈ namesOf (missed 5) node ∨
        a.idle node = true ∧ u ∈ namesOf (offloaded a.busyNodeFunctions) node) := by
  have hsecond : ∀ node : NodeInfo,
      (u ∈ namesOf (missed 5) node ++
        if a.idle node then namesOf (offloaded a.busyNodeFunctions) node else []) ↔
      (u ∈ namesOf (missed 5) node ∨
        a.idle node = true ∧ u ∈ namesOf (offloaded a.busyNodeFunctions) node) := fun node => by
    cases a.idle node <;> simp
  constructor
  · rintro ⟨c, hc, hop, rfl, hu⟩
    obtain ⟨hcomm, -, K, node, hn, hplan⟩ := a.mem_functionSwitchHandler.mp hc
    cases hplan with
    | disable hb => exact SwitchOp.noConfusion hop
    | enable => exact ⟨hcomm, node, hn, (hsecond node).mp hu⟩
    | missed =>
      -- more than 10 is more than 5
      obtain ⟨f, hf, huri, hm⟩ := mem_namesOf.mp hu
      refine ⟨hcomm, node, hn, Or.inl (mem_namesOf.mpr ⟨f, hf, huri, ?_⟩)⟩
      simp only [ManagementApp.missed, Bool.and_eq_true, decide_eq_true_eq] at hm ⊢
      exact ⟨hm.1, Int32.lt_trans (by decide) hm.2⟩
  · rintro ⟨hcomm, node, hn, hu⟩
    have hu := (hsecond node).mpr hu
    exact ⟨_, a.mem_functionSwitchHandler.mpr
      ⟨hcomm, List.ne_nil_of_mem hu, K, node, hn, .enable⟩, rfl, rfl, hu⟩

/-! ## The counters as numbers -/

/-- The sum of the execution counters of a node. -/
def load (node : NodeInfo) : ℕ :=
  (node.functionsCurrent.map fun f => f.funcExeCounter.toNat).sum

/-- The counters of a node, and the sum of its execution counters, are below `2 ^ 31`. -/
structure CountersFit (node : NodeInfo) : Prop where
  exe : ∀ f ∈ node.functionsCurrent, FitsInt f.funcExeCounter
  interest : ∀ f ∈ node.functionsCurrent, FitsInt f.funcInterestCounter
  load : load node < 2147483648

omit [Ns3Time] in
theorem toInt_toInt32 {x : UInt32} (h : FitsInt x) : x.toInt32.toInt = x.toNat := by
  have hbits : x.toBitVec.toNat = x.toNat := rfl
  unfold FitsInt at h
  show x.toBitVec.toInt = x.toNat
  rw [BitVec.toInt_eq_toNat_cond]
  omega

omit [Ns3Time] in
theorem foldl_sumExeCounter (fs : List FunctionInfo) (x : UInt32)
    (h : x.toNat + (fs.map fun f => f.funcExeCounter.toNat).sum < 2147483648) :
    (fs.foldl (fun sum f => (sum.toUInt32 + f.funcExeCounter).toInt32) x.toInt32).toInt =
      (x.toNat + (fs.map fun f => f.funcExeCounter.toNat).sum : ℕ) := by
  induction fs generalizing x with
  | nil =>
    have hx : FitsInt x := by simpa [FitsInt] using h
    simpa using toInt_toInt32 hx
  | cons f fs ih =>
    rw [List.map_cons, List.sum_cons] at h
    have hadd : (x + f.funcExeCounter).toNat = x.toNat + f.funcExeCounter.toNat := by
      rw [UInt32.toNat_add]
      omega
    have hrest := ih (x + f.funcExeCounter) (by omega)
    rw [hadd] at hrest
    rw [List.map_cons, List.sum_cons, List.foldl_cons, UInt32.toUInt32_toInt32, hrest]
    omega

omit [Ns3Time] in
/-- Below `2 ^ 31` the `int` is the sum. -/
theorem toInt_sumExeCounter {node : NodeInfo} (h : load node < 2147483648) :
    (sumExeCounter node.functionsCurrent).toInt = load node := by
  have hzero : (0 : UInt32).toNat + load node = load node := Nat.zero_add _
  have hsum := foldl_sumExeCounter node.functionsCurrent 0 (hzero ▸ h)
  exact hsum.trans (congrArg Nat.cast hzero)

omit [Ns3Time] in
theorem missed_iff {limit : Int32} {f : FunctionInfo} (h : FitsInt f.funcInterestCounter) :
    missed limit f = true ↔ f.status = false ∧ limit.toInt < f.funcInterestCounter.toNat := by
  rw [missed, Bool.and_eq_true, Bool.not_eq_true', decide_eq_true_eq, Int32.lt_iff_toInt_lt,
    toInt_toInt32 h]

/-! ## The exact content of a round -/

/-- The table has a function `u` at node `K`, with property `p`. -/
def Holds (K u : Str) (p : NodeInfo → FunctionInfo → Prop) : Prop :=
  ∃ node, a.storage.find? K = some node ∧ ∃ f ∈ node.functionsCurrent, f.uri = u ∧ p node f

/-- The test for a busy node, on the sum of its counters. -/
def Busy (node : NodeInfo) : Prop := a.busyTest node (load node) = true

/-- The test for an idle node, on the sum of its counters. -/
def Idle (node : NodeInfo) : Prop := a.idleTest node (load node) = true

instance (node : NodeInfo) : Decidable (a.Busy node) := inferInstanceAs (Decidable (_ = true))

variable {a}

theorem busy_iff (h : ∀ K node, a.storage.find? K = some node → CountersFit node) {K : Str}
    {node : NodeInfo} (hn : a.storage.find? K = some node) : a.busy node = true ↔ a.Busy node := by
  rw [busy, toInt_sumExeCounter (h K node hn).load, Busy]

theorem idle_iff (h : ∀ K node, a.storage.find? K = some node → CountersFit node) {K : Str}
    {node : NodeInfo} (hn : a.storage.find? K = some node) : a.idle node = true ↔ a.Idle node := by
  rw [idle, toInt_sumExeCounter (h K node hn).load, Idle]

theorem mem_busyNodeFunctions (h : ∀ K node, a.storage.find? K = some node → CountersFit node)
    {u : Str} : u ∈ a.busyNodeFunctions ↔ ∃ K, a.Holds K u fun node f =>
      a.Busy node ∧ f.status = true ∧ 8 < f.funcExeCounter.toNat := by
  have hhot : ∀ f : FunctionInfo,
      hot f = true ↔ f.status = true ∧ 8 < f.funcExeCounter.toNat := fun f => by
    rw [hot, Bool.and_eq_true, decide_eq_true_eq]
    rfl
  rw [busyNodeFunctions, List.mem_flatMap]
  constructor
  · rintro ⟨⟨K, node⟩, hn, hu⟩
    have hn := OrdMap.find?_eq_some_iff_mem.mpr hn
    by_cases hb : a.busy node = true
    · rw [if_pos hb, mem_namesOf] at hu
      obtain ⟨f, hf, huri, hh⟩ := hu
      exact ⟨K, node, hn, f, hf, huri, (busy_iff h hn).mp hb, (hhot f).mp hh⟩
    · rw [if_neg hb] at hu
      exact absurd hu List.not_mem_nil
  · rintro ⟨K, node, hn, f, hf, huri, hb, hh⟩
    refine ⟨(K, node), OrdMap.find?_eq_some_iff_mem.mp hn, ?_⟩
    rw [if_pos ((busy_iff h hn).mpr hb), mem_namesOf]
    exact ⟨f, hf, huri, (hhot f).mpr hh⟩

omit [Ns3Time] in
theorem namesUnused_iff {node : NodeInfo} {u : Str} : u ∈ namesOf unused node ↔
    ∃ f ∈ node.functionsCurrent, f.uri = u ∧ f.status = true ∧ f.funcExeCounter = 0 := by
  simp only [mem_namesOf, unused, Bool.and_eq_true, beq_iff_eq]

theorem enabled_of_names {K u : Str} (h : a.Names .disable K u) :
    a.Holds K u fun _ f => f.status = true := by
  obtain ⟨-, node, hn, -, hu⟩ := a.names_disable_iff.mp h
  obtain ⟨f, hf, huri, hst, -⟩ := namesUnused_iff.mp hu
  exact ⟨node, hn, f, hf, huri, hst⟩

theorem disabled_of_names {K u : Str} (h : a.Names .enable K u) :
    a.Holds K u fun _ f => f.status = false := by
  have hst : ∀ {p : FunctionInfo → Bool} {node : NodeInfo}, (∀ f, p f = true → f.status = false) →
      u ∈ namesOf p node → ∃ f ∈ node.functionsCurrent, f.uri = u ∧ f.status = false := by
    intro p node hp hu
    obtain ⟨f, hf, huri, hpf⟩ := mem_namesOf.mp hu
    exact ⟨f, hf, huri, hp f hpf⟩
  obtain ⟨-, node, hn, hu | ⟨-, hu⟩⟩ := a.names_enable_iff.mp h
  · exact ⟨node, hn, hst (fun f hf => by simp_all [missed]) hu⟩
  · exact ⟨node, hn, hst (fun f hf => by simp_all [offloaded]) hu⟩

/-- With distinct names in every node, no pair is named in both kinds of commands. -/
theorem not_names_both (hdistinct : ∀ K node, a.storage.find? K = some node →
    (node.functionsCurrent.map FunctionInfo.uri).Nodup) {K u : Str} (hd : a.Names .disable K u)
    (he : a.Names .enable K u) : False := by
  obtain ⟨node, hn, f, hf, huri, hst⟩ := enabled_of_names hd
  obtain ⟨node', hn', f', hf', huri', hst'⟩ := disabled_of_names he
  obtain rfl : node = node' := Option.some.inj (hn.symm.trans hn')
  -- the two functions have one name, so they are one
  have hsame : f = f' :=
    List.inj_on_of_nodup_map (hdistinct K node hn) hf hf' (huri.trans huri'.symm)
  rw [hsame, hst'] at hst
  cases hst

/-- What a `Disable` names: the functions of a busy node that are on and were not executed. -/
theorem names_disable_content (hcomm : a.Communicates)
    (hfit : ∀ K node, a.storage.find? K = some node → CountersFit node) {K u : Str} :
    a.Names .disable K u ↔
      a.Holds K u fun node f => a.Busy node ∧ f.status = true ∧ f.funcExeCounter = 0 := by
  rw [names_disable_iff]
  constructor
  · rintro ⟨-, node, hn, hb, hu⟩
    obtain ⟨f, hf, huri, hst, hexe⟩ := namesUnused_iff.mp hu
    exact ⟨node, hn, f, hf, huri, (busy_iff hfit hn).mp hb, hst, hexe⟩
  · rintro ⟨node, hn, f, hf, huri, hb, hst, hexe⟩
    exact ⟨hcomm, node, hn, (busy_iff hfit hn).mpr hb,
      namesUnused_iff.mpr ⟨f, hf, huri, hst, hexe⟩⟩

/-- What an `Enable` names: functions that are off and were missed often, and at an idle node those
that a busy node executes often. -/
theorem names_enable_content (hcomm : a.Communicates)
    (hfit : ∀ K node, a.storage.find? K = some node → CountersFit node) {K u : Str} :
    a.Names .enable K u ↔
      a.Holds K u fun node f => f.status = false ∧ (5 < f.funcInterestCounter.toNat ∨
        a.Idle node ∧ ∃ K', a.Holds K' u fun node' f' =>
          a.Busy node' ∧ f'.status = true ∧ 8 < f'.funcExeCounter.toNat) := by
  have hfive : (5 : Int32).toInt = (5 : ℕ) := rfl
  have hoff : ∀ node : NodeInfo, u ∈ namesOf (offloaded a.busyNodeFunctions) node ↔
      ∃ f ∈ node.functionsCurrent, f.uri = u ∧ f.status = false ∧
        u ∈ a.busyNodeFunctions := fun node => by
    rw [mem_namesOf]
    refine exists_congr fun f => and_congr_right fun _ => and_congr_right fun huri => ?_
    rw [offloaded, Bool.and_eq_true, Bool.not_eq_true', List.contains_iff_mem, huri]
  rw [names_enable_iff, ← mem_busyNodeFunctions hfit]
  constructor
  · rintro ⟨-, node, hn, hu | ⟨hi, hu⟩⟩
    · obtain ⟨f, hf, huri, hm⟩ := mem_namesOf.mp hu
      obtain ⟨hst, hcount⟩ := (missed_iff ((hfit K node hn).interest f hf)).mp hm
      exact ⟨node, hn, f, hf, huri, hst, Or.inl (by omega)⟩
    · obtain ⟨f, hf, huri, hst, hbusy⟩ := (hoff node).mp hu
      exact ⟨node, hn, f, hf, huri, hst, Or.inr ⟨(idle_iff hfit hn).mp hi, hbusy⟩⟩
  · rintro ⟨node, hn, f, hf, huri, hst, hcount | ⟨hi, hbusy⟩⟩
    · refine ⟨hcomm, node, hn, Or.inl (mem_namesOf.mpr ⟨f, hf, huri, ?_⟩)⟩
      exact (missed_iff ((hfit K node hn).interest f hf)).mpr ⟨hst, by omega⟩
    · exact ⟨hcomm, node, hn, Or.inr ⟨(idle_iff hfit hn).mpr hi,
        (hoff node).mpr ⟨f, hf, huri, hst, hbusy⟩⟩⟩

/-- **The exact content of a round**, for a table with distinct names in every node and counters
below `2 ^ 31`: what is named in a `Disable`, what is named in an `Enable`, that every command names
functions of its node, at least one, and that nothing is both enabled and disabled. -/
theorem functionSwitchHandler_content (a : ManagementApp) (hcomm : a.Communicates)
    (hdistinct : ∀ K node, a.storage.find? K = some node →
      (node.functionsCurrent.map FunctionInfo.uri).Nodup)
    (hfit : ∀ K node, a.storage.find? K = some node → CountersFit node) :
    (∀ K u, a.Names .disable K u ↔
      a.Holds K u fun node f => a.Busy node ∧ f.status = true ∧ f.funcExeCounter = 0) ∧
    (∀ K u, a.Names .enable K u ↔
      a.Holds K u fun node f => f.status = false ∧ (5 < f.funcInterestCounter.toNat ∨
        a.Idle node ∧ ∃ K', a.Holds K' u fun node' f' =>
          a.Busy node' ∧ f'.status = true ∧ 8 < f'.funcExeCounter.toNat)) ∧
    (∀ c ∈ a.functionSwitchHandler,
      c.funcs ≠ [] ∧ ∀ u ∈ c.funcs, a.Holds c.node u fun _ _ => True) ∧
    ∀ K u, ¬ (a.Names .disable K u ∧ a.Names .enable K u) := by
  refine ⟨fun K u => names_disable_content hcomm hfit, fun K u => names_enable_content hcomm hfit,
    fun c hc => ?_, ?_⟩
  · refine ⟨(a.mem_functionSwitchHandler.mp hc).2.1, fun u hu => ?_⟩
    cases hop : c.op with
    | disable =>
      obtain ⟨node, hn, f, hf, huri, -⟩ := enabled_of_names ⟨c, hc, hop, rfl, hu⟩
      exact ⟨node, hn, f, hf, huri, trivial⟩
    | enable =>
      obtain ⟨node, hn, f, hf, huri, -⟩ := disabled_of_names ⟨c, hc, hop, rfl, hu⟩
      exact ⟨node, hn, f, hf, huri, trivial⟩
  · rintro K u ⟨hd, he⟩
    exact not_names_both hdistinct hd he

/-! ## No function leaves the network -/

variable (a)

/-- The function is enabled at the node. -/
def EnabledAt (K u : Str) : Prop := a.Holds K u fun _ f => f.status = true

/-- What is enabled where after a command. -/
def applyControl (s : Str → Str → Prop) (c : ControlInterest) (K u : Str) : Prop :=
  if c.node = K ∧ u ∈ c.funcs then c.op = .enable else s K u

/-- What is enabled where after all commands of the round. -/
def EnabledAfter : Str → Str → Prop := a.functionSwitchHandler.foldl applyControl a.EnabledAt

variable {a}

omit [Ns3Time] in
/-- A function stays enabled at a node that is not sent a `Disable` for it. -/
theorem foldl_applyControl {l : List ControlInterest} {s : Str → Str → Prop} {K u : Str}
    (hs : s K u) (h : ¬ ∃ c ∈ l, c.op = .disable ∧ c.node = K ∧ u ∈ c.funcs) :
    l.foldl applyControl s K u := by
  induction l generalizing s with
  | nil => exact hs
  | cons c l ih =>
    rw [List.foldl_cons]
    apply ih
    · unfold applyControl
      split_ifs with hc
      · cases hop : c.op with
        | enable => rfl
        | disable => exact absurd ⟨c, List.mem_cons_self, hop, hc⟩ h
      · exact hs
    · rintro ⟨c', hc', hrest⟩
      exact h ⟨c', List.mem_cons_of_mem c hc', hrest⟩

/-- **When a round removes no function from the network.** Every function that is enabled somewhere
is spared at one of the nodes where it is enabled, and enabled there after the round, exactly when
at one of these nodes it was executed, or the node passes for not busy, or no commands are sent. -/
theorem round_keeps_functions_iff (a : ManagementApp) :
    (∀ u, (∃ K, a.EnabledAt K u) →
      ∃ K, a.EnabledAt K u ∧ ¬ a.Names .disable K u ∧ a.EnabledAfter K u) ↔
    ∀ u, (∃ K, a.EnabledAt K u) →
      ∃ K node, a.EnabledAt K u ∧ a.storage.find? K = some node ∧
        (a.Communicates → a.busy node = true →
          ∀ f ∈ node.functionsCurrent, f.uri = u → f.status = true → f.funcExeCounter ≠ 0) := by
  have hspared : ∀ K u node, a.storage.find? K = some node → (¬ a.Names .disable K u ↔
      (a.Communicates → a.busy node = true →
        ∀ f ∈ node.functionsCurrent, f.uri = u → f.status = true → f.funcExeCounter ≠ 0)) := by
    intro K u node hn
    rw [names_disable_iff]
    constructor
    · intro h hcomm hb f hf huri hst hexe
      exact h ⟨hcomm, node, hn, hb, namesUnused_iff.mpr ⟨f, hf, huri, hst, hexe⟩⟩
    · rintro h ⟨hcomm, node', hn', hb, hu⟩
      obtain rfl : node = node' := Option.some.inj (hn.symm.trans hn')
      obtain ⟨f, hf, huri, hst, hexe⟩ := namesUnused_iff.mp hu
      exact h hcomm hb f hf huri hst hexe
  refine forall_congr' fun u => imp_congr_right fun _ => exists_congr fun K => ?_
  constructor
  · rintro ⟨hen, hnot, -⟩
    obtain ⟨node, hn, -⟩ := id hen
    exact ⟨node, hen, hn, (hspared K u node hn).mp hnot⟩
  · rintro ⟨node, hen, hn, h⟩
    have hnot := (hspared K u node hn).mpr h
    exact ⟨hen, hnot, foldl_applyControl hen hnot⟩

end ManagementApp

/-! ## Two rounds -/

/-- A record of a function with a status and the two counters. -/
def FunctionInfo.counted (name : Str) (status : Bool) (exe interest : UInt32) : FunctionInfo :=
  { funcName := ⟨[name]⟩, funcExeCounter := exe, funcInterestCounter := interest, cores := 1
    ram := 1, rom := 0, sizeBytes := 0, inputDataList := [], status := status }

/-- A round over one node. -/
def oneNodeRound (functions_current : List FunctionInfo) : ManagementApp where
  interval := 10
  communicationModel := "In-Band".toList
  storage := .single "/n".toList { NodeInfo.new with functionsCurrent := functions_current }

theorem oneNodeRound_find {functions_current : List FunctionInfo} {K : Str} {node : NodeInfo}
    (h : (oneNodeRound functions_current).storage.find? K = some node) :
    K = "/n".toList ∧ node = { NodeInfo.new with functionsCurrent := functions_current } :=
  Prod.mk.inj (List.mem_singleton.mp (OrdMap.find?_eq_some_iff_mem.mp h))

/-- The only node with `f` executed another function only: it is told to disable `f`. -/
theorem round_loses_function :
    ¬ ∀ (_ : Ns3Time) (a : ManagementApp) (u : Str), (∃ K, a.EnabledAt K u) →
      ∃ K, a.EnabledAt K u ∧ ¬ a.Names .disable K u := by
  intro hall
  let a := oneNodeRound [.counted "f".toList true 0 0, .counted "g".toList true 1 0]
  have hen : a.EnabledAt "/n".toList "/f".toList :=
    ⟨_, rfl, .counted "f".toList true 0 0, List.mem_cons_self, rfl, rfl⟩
  obtain ⟨K, ⟨node, hn, -⟩, hnot⟩ := hall tickTime a "/f".toList ⟨_, hen⟩
  obtain ⟨rfl, -⟩ := oneNodeRound_find hn
  exact hnot ⟨⟨"/n".toList, .disable, ["/f".toList]⟩, by decide, rfl, rfl, List.mem_cons_self⟩

/-- A busy node with a function to disable, one to offload and one to enable. -/
def busyRound : ManagementApp :=
  oneNodeRound [.counted "f".toList true 0 0, .counted "g".toList true 9 0,
    .counted "h".toList false 0 6]

theorem busyRound_distinct : ∀ K node, busyRound.storage.find? K = some node →
    (node.functionsCurrent.map FunctionInfo.uri).Nodup := by
  intro K node hn
  obtain ⟨-, rfl⟩ := oneNodeRound_find hn
  decide

/-- In this round `f` is disabled. -/
theorem functionSwitchHandler_content_busyRound :
    @ManagementApp.Names tickTime busyRound .disable "/n".toList "/f".toList := by
  have hfit : ∀ K node, busyRound.storage.find? K = some node →
      ManagementApp.CountersFit node := by
    intro K node hn
    obtain ⟨-, rfl⟩ := oneNodeRound_find hn
    exact ⟨by decide, by decide, by decide⟩
  refine ((@ManagementApp.functionSwitchHandler_content tickTime busyRound (by decide)
    busyRound_distinct hfit).1 _ _).mpr ?_
  exact ⟨_, rfl, .counted "f".toList true 0 0, List.mem_cons_self, rfl, by decide, rfl, rfl⟩

end IncSim
