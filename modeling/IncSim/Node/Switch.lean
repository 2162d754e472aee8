import IncSim.Lib.Text
import IncSim.Node.Frame

/-!
# Switch commands at a node

`FunctionSwitchHandler` of the two node-side apps, for commands that come as NDN names and for
commands that come as UDP packets.

* `switchOn`, `switchOff`: one function of a command; `switchOn_spec`, `switchOff_spec`.
* `ndnFunctionSwitchHandler`, `udpFunctionSwitchHandler`, `switchCommand`, `switchName`.
* `switchAll`: one function after the other, on the part of the node that a command is about.
* **`ndnFunctionSwitchHandler_node`**, **`udpFunctionSwitchHandler_node`**: what the handlers switch.
-/

namespace IncSim

open PartialRun

namespace ComputeNode

variable (n : ComputeNode)

/-! ## One function -/

/-- An `Enable` for one function: it leaves the exclude list once. -/
def switchOn (func : Str) : Except Fault (ComputeNode × Bool) := do
  let (n, flag) ← n.enableFunction func
  pure (if n.checkExcludeList func then n.removeFromExcludeList func else n, flag)

/-- A `Disable` for one function: it enters the exclude list once more. -/
def switchOff (func : Str) : Except Fault (ComputeNode × Bool) := do
  let (n, flag) ← n.disableFunction func
  pure (n.addToExcludeList func, flag)

/-- The reply to a switch command. -/
def switchReply (flag : Bool) : Str :=
  if flag then "operation success".toList else "operation failed".toList

/-! ## NDN -/

/-- One round of the loop in the NDN handler. -/
def ndnSwitchRound (operation : Str) (q : ComputeNode × Option Bool) (func : Str) :
    Except Fault (ComputeNode × Option Bool) := do
  let q ← if operation = "/Enable".toList then do
      let (n, flag) ← q.1.switchOn func
      pure (n, some flag)
    else pure q
  if operation = "/Disable".toList then do
    let (n, flag) ← q.1.switchOff func
    pure (n, some flag)
  else pure q

/-- `NdnOrchestrationComputeNodeApp::FunctionSwitchHandler`. The flag starts uninitialised, so a
command that switches nothing has no determined reply. -/
def ndnFunctionSwitchHandler (interest : Name) : Except Fault (ComputeNode × Option Str) := do
  let operation := (interest.getSubName 3 1).toUri
  let funcs := (List.range' 4 (interest.size - 4)).map fun i => (interest.getSubName i 1).toUri
  let (n, flag) ← funcs.foldlM (ndnSwitchRound operation) (n, none)
  pure (n, flag.map switchReply)

/-! ## UDP -/

/-- The loop of the UDP handler from token 5 on: it stops in front of the last token, and runs out
of the vector when there is no token left. -/
def udpSwitchLoop (operation : Str) : ComputeNode × Bool → List Str →
    Except Fault (ComputeNode × Bool)
  | _, [] => .error .outOfRange
  | q, [_] => .ok q
  | q, token :: rest => do
    let q ←
      if operation = "Enable".toList then q.1.switchOn ('/' :: token)
      else if operation = "Disable".toList then q.1.switchOff ('/' :: token)
      else pure q
    udpSwitchLoop operation q rest

/-- `UdpOrchestrationComputeNodeApp::FunctionSwitchHandler`. -/
def udpFunctionSwitchHandler (packet_data : Str) : Except Fault (ComputeNode × Str) := do
  let tokens := packet_data.splitOn '/'
  let (n, flag) ← udpSwitchLoop (tokens.getD 4 []) (n, false) (tokens.drop 5)
  pure (n, switchReply flag)

end ComputeNode

/-! ## Commands -/

/-- The operation of a switch command. -/
inductive SwitchOp
  | enable
  | disable
  deriving DecidableEq

def SwitchOp.text : SwitchOp → Str
  | .enable => "Enable".toList
  | .disable => "Disable".toList

/-- The key of a function in the function map. -/
def funcKey (func : Str) : Str := '/' :: func

/-- The command that the orchestrator builds. -/
def switchCommand (node : Str) (op : SwitchOp) (funcs : List Str) : Str :=
  "/Orchestrator".toList ++ ('/' :: node) ++ "/FunctionSwitch/".toList ++ op.text ++
    funcs.flatMap funcKey

/-- The NDN name with the URI of the command. -/
def switchName (node : Str) (op : SwitchOp) (funcs : List Str) : Name :=
  ⟨"Orchestrator".toList :: node :: "FunctionSwitch".toList :: op.text :: funcs⟩

theorem toUri_switchName (node : Str) (op : SwitchOp) (funcs : List Str) :
    (switchName node op funcs).toUri = switchCommand node op funcs := by
  have hfirst : "/Orchestrator".toList = '/' :: "Orchestrator".toList := rfl
  have hswitch : "/FunctionSwitch/".toList = '/' :: ("FunctionSwitch".toList ++ ['/']) := rfl
  have hkey : funcs.flatMap funcKey = funcs.flatMap fun c => '/' :: c := rfl
  unfold switchName switchCommand
  rw [hkey, Name.toUri_of_ne_nil (List.cons_ne_nil _ _)]
  simp only [hfirst, hswitch, List.cons_append, List.nil_append, List.flatMap_cons,
    List.append_assoc]

theorem slash_switchName {node : Str} {op : SwitchOp} {funcs : List Str} (hnode : '/' ∉ node)
    (hfuncs : ∀ f ∈ funcs, '/' ∉ f) : ∀ c ∈ (switchName node op funcs).comps, '/' ∉ c := by
  intro c hc
  simp only [switchName, List.mem_cons] at hc
  rcases hc with rfl | rfl | rfl | rfl | hc
  · decide
  · exact hnode
  · decide
  · cases op <;> decide
  · exact hfuncs c hc

namespace ComputeNode

variable {n m : ComputeNode} {k : Str} {b : Bool}

/-! ## What switching one function does -/

/-- The objects under `k` changed by `g`. -/
def mapAt (k : Str) (g : IncComputation → IncComputation) (l : List (Str × Option IncComputation)) :
    List (Str × Option IncComputation) :=
  l.map fun q => (q.1, if q.1 = k then q.2.map g else q.2)

theorem funcMap_update (k : Str) (g : IncComputation → IncComputation) :
    (n.update k g).funcMap = mapAt k g n.funcMap := by
  refine List.map_congr_left fun q _ => ?_
  split <;> rfl

theorem mapAt_of_lookup_none {l : List (Str × Option IncComputation)}
    {g : IncComputation → IncComputation} (h : l.lookup k = none) : mapAt k g l = l := by
  rw [mapAt]
  refine (List.map_congr_left fun q hq => ?_).trans (List.map_id' l)
  rw [if_neg]
  intro hk
  have := List.lookup_eq_none_iff.mp h q hq
  simp [hk] at this

theorem switchOn_spec (h : n.switchOn k = .ok (m, b)) :
    m.funcMap = mapAt k IncComputation.enable n.funcMap ∧
      m.funcExcludeList = n.funcExcludeList.erase k := by
  simp only [switchOn, bind_eq_ok, pure_eq_ok] at h
  obtain ⟨⟨n₁, b₁⟩, he, h⟩ := h
  cases h
  have hnode : n₁.funcMap = mapAt k IncComputation.enable n.funcMap ∧
      n₁.funcExcludeList = n.funcExcludeList := by
    rcases enableFunction_cases he with ⟨hl, rfl, -⟩ | ⟨c, fib, -, -, rfl⟩
    · exact ⟨(mapAt_of_lookup_none hl).symm, rfl⟩
    · exact ⟨funcMap_update k _, rfl⟩
  dsimp only
  split
  · exact ⟨hnode.1, congrArg (List.erase · k) hnode.2⟩
  · next hc =>
    have hmem : k ∉ n.funcExcludeList := by
      rw [checkExcludeList, hnode.2] at hc
      simpa using hc
    exact ⟨hnode.1, hnode.2.trans (List.erase_of_not_mem hmem).symm⟩

theorem switchOff_spec (h : n.switchOff k = .ok (m, b)) :
    m.funcMap = mapAt k IncComputation.disable n.funcMap ∧
      m.funcExcludeList = n.funcExcludeList ++ [k] := by
  simp only [switchOff, bind_eq_ok, pure_eq_ok] at h
  obtain ⟨⟨n₁, b₁⟩, he, h⟩ := h
  cases h
  rcases disableFunction_cases he with ⟨hl, rfl, -⟩ | ⟨c, fib, -, -, rfl⟩
  · exact ⟨(mapAt_of_lookup_none hl).symm, rfl⟩
  · exact ⟨funcMap_update k _, rfl⟩

/-- Switching a function fails on a null pointer in the map only. -/
theorem switchOn_isOk : (∃ q, n.switchOn k = .ok q) ↔ n.funcMap.lookup k ≠ some none := by
  simp only [switchOn, bind_eq_ok, pure_eq_ok]
  unfold enableFunction
  rcases n.funcMap.lookup k with _ | _ | c <;> simp

theorem switchOff_isOk : (∃ q, n.switchOff k = .ok q) ↔ n.funcMap.lookup k ≠ some none := by
  simp only [switchOff, bind_eq_ok, pure_eq_ok]
  unfold disableFunction
  rcases n.funcMap.lookup k with _ | _ | c <;> simp

/-- One function of a command with operation `op`. -/
def switch (op : SwitchOp) (n : ComputeNode) (k : Str) : Except Fault (ComputeNode × Bool) :=
  match op with
  | .enable => n.switchOn k
  | .disable => n.switchOff k

/-- The change that an operation makes to an object. -/
def SwitchOp.effect : SwitchOp → IncComputation → IncComputation
  | .enable => IncComputation.enable
  | .disable => IncComputation.disable

/-- All functions of a command, replies left out. -/
def switchAll (op : SwitchOp) (n : ComputeNode) (ks : List Str) : Except Fault ComputeNode :=
  ks.foldlM (fun n k => do let q ← switch op n k; pure q.1) n

variable {op : SwitchOp} {ks : List Str}

theorem switch_isOk : (∃ q, switch op n k = .ok q) ↔ n.funcMap.lookup k ≠ some none := by
  cases op
  · exact switchOn_isOk
  · exact switchOff_isOk

theorem switch_funcMap (h : switch op n k = .ok (m, b)) :
    m.funcMap = mapAt k (SwitchOp.effect op) n.funcMap := by
  cases op
  · exact (switchOn_spec h).1
  · exact (switchOff_spec h).1

theorem switchAll_cons : switchAll op n (k :: ks) = .ok m ↔
    ∃ q, switch op n k = .ok q ∧ switchAll op q.1 ks = .ok m := by
  simp only [switchAll, List.foldlM_cons, bind_eq_ok, pure_eq_ok]
  constructor
  · rintro ⟨_, ⟨q, hq, rfl⟩, h⟩
    exact ⟨q, hq, h⟩
  · rintro ⟨q, hq, h⟩
    exact ⟨q.1, ⟨q, hq, rfl⟩, h⟩

theorem lookup_mapAt (l : List (Str × Option IncComputation)) (g : IncComputation → IncComputation)
    (p : Str) :
    (mapAt k g l).lookup p = (l.lookup p).map fun o => if p = k then o.map g else o :=
  Assoc.lookup_map_key l (fun q o => if q = k then o.map g else o) p

theorem lookup_mapAt_eq_null {l : List (Str × Option IncComputation)}
    {g : IncComputation → IncComputation} {p : Str} :
    (mapAt k g l).lookup p = some none ↔ l.lookup p = some none := by
  rw [lookup_mapAt]
  by_cases hp : p = k <;> rcases l.lookup p with _ | _ | c <;> simp [hp]

/-- A command fails on a null pointer under one of its functions only. -/
theorem switchAll_isOk :
    (∃ m, switchAll op n ks = .ok m) ↔ ∀ k ∈ ks, n.funcMap.lookup k ≠ some none := by
  induction ks generalizing n with
  | nil => simp [switchAll, pure, Except.pure]
  | cons k ks ih =>
    simp only [switchAll_cons, List.forall_mem_cons]
    constructor
    · rintro ⟨m, ⟨n₁, b⟩, hq, hm⟩
      refine ⟨switch_isOk.mp ⟨_, hq⟩, fun k' hk' => ?_⟩
      have := ih.mp ⟨m, hm⟩ k' hk'
      rwa [switch_funcMap hq, Ne, lookup_mapAt_eq_null] at this
    · rintro ⟨hk, hks⟩
      obtain ⟨⟨n₁, b⟩, hq⟩ := switch_isOk.mpr hk
      obtain ⟨m, hm⟩ := ih.mpr fun k' hk' => by
        rw [switch_funcMap hq, Ne, lookup_mapAt_eq_null]
        exact hks k' hk'
      exact ⟨m, (n₁, b), hq, hm⟩

/-! ## The handlers do their command -/

theorem getSubName_funcs (interest : Name) :
    ((List.range' 4 (interest.size - 4)).map fun i => (interest.getSubName i 1).toUri) =
      (interest.comps.drop 4).map funcKey := by
  refine List.ext_getElem? fun i => ?_
  rw [List.getElem?_map, List.getElem?_map, List.getElem?_drop]
  by_cases hi : i < interest.size - 4
  · have hlt : 4 + i < interest.comps.length := by
      rw [Name.size] at hi
      omega
    rw [List.getElem?_range' hi, List.getElem?_eq_getElem hlt]
    simp only [Option.map_some, Nat.one_mul]
    rw [Name.getSubName_one (List.getElem?_eq_getElem hlt), Name.toUri_singleton]
    rfl
  · have hge : interest.comps.length ≤ 4 + i := by
      rw [Name.size] at hi
      omega
    rw [List.getElem?_eq_none hge, List.getElem?_eq_none (by simpa using hi)]
    rfl

theorem ndnSwitchRound_eq (q : ComputeNode × Option Bool) :
    ndnSwitchRound ('/' :: op.text) q k = (do let r ← switch op q.1 k; pure (r.1, some r.2)) := by
  cases op with
  | enable =>
    have hen : ('/' :: SwitchOp.enable.text) = "/Enable".toList := rfl
    have hne : "/Enable".toList ≠ "/Disable".toList := by decide
    simp only [ndnSwitchRound, hen, if_pos, if_neg hne, switch]
    rcases q.1.switchOn k with e | ⟨m, b⟩ <;> rfl
  | disable =>
    have hdis : ('/' :: SwitchOp.disable.text) = "/Disable".toList := rfl
    have hne : "/Disable".toList ≠ "/Enable".toList := by decide
    simp only [ndnSwitchRound, hdis, if_pos, if_neg hne, switch, pure_bind]

/-- What one round of the NDN handler can do. -/
theorem ndnSwitchRound_cases {operation : Str} {q q' : ComputeNode × Option Bool}
    (h : ndnSwitchRound operation q k = .ok q') :
    (operation = '/' :: SwitchOp.enable.text ∧ ∃ b, q.1.switchOn k = .ok (q'.1, b)) ∨
    (operation = '/' :: SwitchOp.disable.text ∧ ∃ b, q.1.switchOff k = .ok (q'.1, b)) ∨
    (operation ≠ '/' :: SwitchOp.enable.text ∧ operation ≠ '/' :: SwitchOp.disable.text ∧
      q' = q) := by
  by_cases hen : operation = '/' :: SwitchOp.enable.text
  · rw [hen, ndnSwitchRound_eq, bind_eq_ok] at h
    obtain ⟨⟨m, b⟩, hs, h⟩ := h
    cases h
    exact Or.inl ⟨hen, b, hs⟩
  · by_cases hdis : operation = '/' :: SwitchOp.disable.text
    · rw [hdis, ndnSwitchRound_eq, bind_eq_ok] at h
      obtain ⟨⟨m, b⟩, hs, h⟩ := h
      cases h
      exact Or.inr (Or.inl ⟨hdis, b, hs⟩)
    · refine Or.inr (Or.inr ⟨hen, hdis, ?_⟩)
      have hen' : operation ≠ "/Enable".toList := hen
      have hdis' : operation ≠ "/Disable".toList := hdis
      simp only [ndnSwitchRound, if_neg hen', if_neg hdis', pure_bind, pure_eq_ok] at h
      exact h.symm

/-- The loop of the NDN handler does its command. -/
theorem foldlM_ndnSwitchRound (q : ComputeNode × Option Bool) :
    (ks.foldlM (ndnSwitchRound ('/' :: op.text)) q).map Prod.fst = switchAll op q.1 ks := by
  induction ks generalizing q with
  | nil => rfl
  | cons k ks ih =>
    rw [switchAll, List.foldlM_cons, List.foldlM_cons, ndnSwitchRound_eq]
    rcases switch op q.1 k with e | ⟨m, b⟩
    · rfl
    · exact ih (m, some b)

/-- A round of the loop of the UDP handler. -/
theorem udpSwitchLoop_cons_concat (q : ComputeNode × Bool) (f : Str) (funcs : List Str) (func : Str) :
    udpSwitchLoop op.text q (f :: (funcs ++ [func])) =
      (do let r ← switch op q.1 (funcKey f); udpSwitchLoop op.text r (funcs ++ [func])) := by
  have hne : funcs ++ [func] ≠ [] := List.append_ne_nil_of_right_ne_nil funcs (by simp)
  obtain ⟨g, rest, hg⟩ := List.exists_cons_of_ne_nil hne
  rw [hg]
  cases op <;> rfl

/-- The loop of the UDP handler does its command but for the last function. -/
theorem udpSwitchLoop_concat (q : ComputeNode × Bool) (funcs : List Str) (func : Str) :
    (udpSwitchLoop op.text q (funcs ++ [func])).map Prod.fst =
      switchAll op q.1 (funcs.map funcKey) := by
  induction funcs generalizing q with
  | nil => rfl
  | cons f funcs ih =>
    rw [List.cons_append, udpSwitchLoop_cons_concat, List.map_cons, switchAll, List.foldlM_cons]
    rcases switch op q.1 (funcKey f) with e | ⟨m, b⟩
    · rfl
    · exact ih (m, b)

theorem ndnFunctionSwitchHandler_fst (n : ComputeNode) (interest : Name) :
    (n.ndnFunctionSwitchHandler interest).map Prod.fst =
      (((interest.comps.drop 4).map funcKey).foldlM
        (ndnSwitchRound (interest.getSubName 3 1).toUri) (n, none)).map Prod.fst := by
  rw [← getSubName_funcs]
  show Except.map Prod.fst (List.foldlM _ _ _ >>= fun q => _) = _
  rcases List.foldlM (ndnSwitchRound (interest.getSubName 3 1).toUri) (n, none) _ with e | q
  · rfl
  · rfl

theorem getSubName_op (node : Str) (op : SwitchOp) (funcs : List Str) :
    ((switchName node op funcs).getSubName 3 1).toUri = '/' :: op.text := by
  rw [Name.getSubName_one (c := op.text) rfl, Name.toUri_singleton]

/-- **The NDN handler** switches every function of its command. -/
theorem ndnFunctionSwitchHandler_node (n : ComputeNode) (node : Str) (op : SwitchOp)
    (funcs : List Str) :
    (n.ndnFunctionSwitchHandler (switchName node op funcs)).map Prod.fst =
      switchAll op n (funcs.map funcKey) := by
  rw [ndnFunctionSwitchHandler_fst, getSubName_op]
  exact foldlM_ndnSwitchRound (n, none)

theorem splitOn_switchCommand {node : Str} {funcs : List Str} (hnode : '/' ∉ node)
    (hfuncs : ∀ f ∈ funcs, '/' ∉ f) :
    (switchCommand node op funcs).splitOn '/' =
      [] :: "Orchestrator".toList :: node :: "FunctionSwitch".toList :: op.text :: funcs := by
  rw [← toUri_switchName, switchName, Name.toUri_of_ne_nil (List.cons_ne_nil _ _)]
  exact Text.splitOn_segments (slash_switchName hnode hfuncs)

/-- **The UDP handler** switches every function of its command but the last. -/
theorem udpFunctionSwitchHandler_node (n : ComputeNode) {node : Str} {funcs : List Str} {func : Str}
    (hnode : '/' ∉ node) (hfuncs : ∀ f ∈ funcs ++ [func], '/' ∉ f) :
    (n.udpFunctionSwitchHandler (switchCommand node op (funcs ++ [func]))).map Prod.fst =
      switchAll op n (funcs.map funcKey) := by
  rw [udpFunctionSwitchHandler, splitOn_switchCommand hnode hfuncs,
    ← udpSwitchLoop_concat (n, false) funcs func]
  show Except.map Prod.fst (udpSwitchLoop op.text (n, false) (funcs ++ [func]) >>= fun q => _) = _
  rcases udpSwitchLoop op.text (n, false) (funcs ++ [func]) with e | q
  · rfl
  · rfl

end ComputeNode

/-- A node that knows one enabled function `f`. -/
def oneFunction : ComputeNode := .fresh "n".toList 10 4 [.fresh "f".toList 1 1 0]

end IncSim
