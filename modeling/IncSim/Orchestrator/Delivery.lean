import Mathlib.Logic.Function.Basic
import IncSim.Lib.Commute
import IncSim.Node.ExcludeList
import IncSim.Orchestrator.Management

/-!
# Delivering the commands of a round

The commands of one round reach their nodes over NDN, in any order.

* `NodeView`, `switchView`: what a command does to the statuses, the miss counters and the counts of
  the exclude list of a node; **`switchCommandStep_view`**: the NDN handler does this.
* `deliverControl`, `deliverView`: one command delivered, to the nodes and to their views.
* `deliverView_commutes`: commands that do not both enable and disable a function commute.
* **`deliveries_commute`**: every order of delivery leaves the same behind.
-/

namespace IncSim

open PartialRun

/-! ## The view of a node -/

namespace SwitchOp

/-- What an operation does to the status and the miss counter of a function. -/
def onFunction : SwitchOp → Bool × UInt32 → Bool × UInt32
  | .enable, _ => (true, 0)
  | .disable, q => (false, q.2)

/-- What an operation does to the count of a key that it names `x` times. -/
def onCount : SwitchOp → ℕ → ℕ → ℕ
  | .enable, c, x => c - x
  | .disable, c, x => c + x

theorem onFunction_onFunction (op : SwitchOp) (q : Bool × UInt32) :
    op.onFunction (op.onFunction q) = op.onFunction q := by
  cases op <;> rfl

theorem onCount_onCount (op : SwitchOp) (c x y : ℕ) :
    op.onCount (op.onCount c x) y = op.onCount c (x + y) := by
  cases op
  · exact Nat.sub_sub c x y
  · exact Nat.add_assoc c x y

theorem onCount_zero (op : SwitchOp) (c : ℕ) : op.onCount c 0 = c := by
  cases op <;> rfl

end SwitchOp

/-- What an order of commands could show in: the status and the miss counter of every function, and
how often each key is excluded. -/
@[ext] structure NodeView where
  functions : List (Str × Option (Bool × UInt32))
  excluded : Str → ℕ

namespace NodeView

/-- The view after a command that names the keys `ks`. -/
def apply (op : SwitchOp) (ks : List Str) (v : NodeView) : NodeView where
  functions := v.functions.map fun q => (q.1, if q.1 ∈ ks then q.2.map op.onFunction else q.2)
  excluded k := op.onCount (v.excluded k) (ks.count k)

/-- One of the keys holds a null pointer. -/
def hasNull (ks : List Str) (v : NodeView) : Bool :=
  ks.any fun k => v.functions.lookup k = some none

variable {v : NodeView} {op op' : SwitchOp} {ks ks' : List Str}

theorem map_onFunction_twice (o : Option (Bool × UInt32)) :
    (o.map op.onFunction).map op.onFunction = o.map op.onFunction := by
  cases o with
  | none => rfl
  | some q => exact congrArg some (op.onFunction_onFunction q)

theorem apply_nil : v.apply op [] = v := by
  ext1
  · simp [apply]
  · funext k
    exact op.onCount_zero _

theorem apply_cons (k : Str) (ks : List Str) :
    v.apply op (k :: ks) = (v.apply op [k]).apply op ks := by
  ext1
  · simp only [apply, List.map_map]
    refine List.map_congr_left fun q _ => ?_
    by_cases hk : q.1 = k
    · by_cases hks : q.1 ∈ ks
      · simp only [Function.comp, List.mem_cons, hk, true_or, List.not_mem_nil, or_false, if_true,
          map_onFunction_twice, ite_self]
      · simp only [Function.comp, List.mem_cons, hk, true_or, List.not_mem_nil, or_false, if_true,
          map_onFunction_twice, ite_self]
    · simp [hk]
  · funext k'
    simp only [apply, SwitchOp.onCount_onCount, List.count_cons, List.count_nil]
    congr 1
    omega

theorem hasNull_apply : (v.apply op ks).hasNull ks' = v.hasNull ks' := by
  unfold hasNull
  congr 1
  funext k
  rw [apply, Assoc.lookup_map_key v.functions fun q o => if q ∈ ks then o.map op.onFunction else o]
  rcases v.functions.lookup k with _ | _ | q
  · rfl
  · simp
  · by_cases hk : k ∈ ks <;> simp [hk]

/-- Commands that do not both enable and disable a key commute on a view. -/
theorem apply_comm (h : op = op' ∨ ks.Disjoint ks') :
    (v.apply op ks).apply op' ks' = (v.apply op' ks').apply op ks := by
  ext1
  · simp only [apply, List.map_map]
    refine List.map_congr_left fun q _ => ?_
    by_cases hk : q.1 ∈ ks
    · by_cases hk' : q.1 ∈ ks'
      · rcases h with rfl | h
        · simp only [Function.comp, if_pos hk, if_pos hk']
        · exact absurd hk' (h hk)
      · simp only [Function.comp, if_pos hk, if_neg hk']
    · simp only [Function.comp, if_neg hk]
  · funext k
    simp only [apply]
    rcases h with rfl | h
    · rw [SwitchOp.onCount_onCount, SwitchOp.onCount_onCount, Nat.add_comm]
    · by_cases hk : k ∈ ks
      · rw [List.count_eq_zero.mpr (h hk), SwitchOp.onCount_zero, SwitchOp.onCount_zero]
      · rw [List.count_eq_zero.mpr hk, SwitchOp.onCount_zero, SwitchOp.onCount_zero]

end NodeView

/-- A command at a view: it fails on a null pointer. -/
def switchView (op : SwitchOp) (ks : List Str) (v : NodeView) : Except Fault NodeView :=
  if v.hasNull ks then .error .nullPointer else .ok (v.apply op ks)

theorem switchView_comm {v : NodeView} {op op' : SwitchOp} {ks ks' : List Str}
    (h : op = op' ∨ ks.Disjoint ks') :
    (switchView op ks v >>= switchView op' ks') = (switchView op' ks' v >>= switchView op ks) := by
  have hboth : ∀ (o o' : SwitchOp) (l l' : List Str), (switchView o l v >>= switchView o' l') =
      if v.hasNull l || v.hasNull l' then .error .nullPointer
      else .ok ((v.apply o l).apply o' l') := by
    intro o o' l l'
    unfold switchView
    by_cases hl : v.hasNull l = true
    · simp [hl, bind, Except.bind]
    · simp [hl, bind, Except.bind, NodeView.hasNull_apply]
  rw [hboth, hboth, Bool.or_comm, NodeView.apply_comm h]

/-! ## The NDN handler on the view -/

namespace ComputeNode

variable {n m : ComputeNode} {op : SwitchOp} {ks : List Str} {k : Str}

/-- The status and the miss counter of a function. -/
def functionView (f : IncComputation) : Bool × UInt32 := (f.enableComputation, f.missExecCounter)

/-- The view of a node. -/
def nodeView (n : ComputeNode) : NodeView where
  functions := n.funcMap.map fun q => (q.1, q.2.map functionView)
  excluded k := n.funcExcludeList.count k

theorem hasNull_nodeView :
    n.nodeView.hasNull ks = true ↔ ∃ k ∈ ks, n.funcMap.lookup k = some none := by
  have hlookup : ∀ k, n.nodeView.functions.lookup k = some none ↔
      n.funcMap.lookup k = some none := by
    intro k
    have hmap := Assoc.lookup_map_key n.funcMap (fun _ o => o.map functionView) k
    rw [show n.nodeView.functions.lookup k = _ from hmap]
    rcases n.funcMap.lookup k with _ | _ | f <;> simp
  simp only [NodeView.hasNull, List.any_eq_true, decide_eq_true_eq, hlookup]

theorem functionView_effect (f : IncComputation) :
    functionView (SwitchOp.effect op f) = op.onFunction (functionView f) := by
  cases op <;> rfl

/-- One function of a command. -/
theorem switch_view {b : Bool} (h : switch op n k = .ok (m, b)) :
    m.nodeView = n.nodeView.apply op [k] := by
  ext1
  · simp only [nodeView, NodeView.apply, switch_funcMap h, mapAt, List.map_map]
    refine List.map_congr_left fun q _ => ?_
    by_cases hk : q.1 = k
    · have heffect : functionView ∘ SwitchOp.effect op = op.onFunction ∘ functionView :=
        funext functionView_effect
      simp only [Function.comp_apply, List.mem_singleton, if_pos hk, Option.map_map, heffect]
    · simp only [Function.comp, List.mem_singleton, if_neg hk]
  · funext k'
    simp only [nodeView, NodeView.apply, List.count_singleton]
    cases op with
    | enable =>
      rw [(switchOn_spec h).2, List.count_erase]
      rfl
    | disable =>
      rw [(switchOff_spec h).2, List.count_append, List.count_singleton]
      rfl

theorem switchAll_view (h : switchAll op n ks = .ok m) : m.nodeView = n.nodeView.apply op ks := by
  induction ks generalizing n with
  | nil =>
    cases h
    exact NodeView.apply_nil.symm
  | cons k ks ih =>
    obtain ⟨⟨n₁, b⟩, hq, hm⟩ := switchAll_cons.mp h
    rw [ih hm, switch_view hq, ← NodeView.apply_cons]

theorem switch_error {e : Fault} (h : switch op n k = .error e) : e = .nullPointer := by
  cases op with
  | enable =>
    simp only [switch, switchOn, enableFunction] at h
    rcases hl : n.funcMap.lookup k with _ | _ | c <;> rw [hl] at h <;> cases h
    rfl
  | disable =>
    simp only [switch, switchOff, disableFunction] at h
    rcases hl : n.funcMap.lookup k with _ | _ | c <;> rw [hl] at h <;> cases h
    rfl

theorem switchAll_error {e : Fault} (h : switchAll op n ks = .error e) : e = .nullPointer := by
  induction ks generalizing n with
  | nil => cases h
  | cons k ks ih =>
    rw [switchAll, List.foldlM_cons] at h
    rcases hq : switch op n k with e' | q
    · rw [hq] at h
      cases h
      exact switch_error hq
    · rw [hq] at h
      exact ih h

/-- **The NDN handler on the view.** -/
theorem switchCommandStep_view (n : ComputeNode) (node : Str) (op : SwitchOp) (funcs : List Str) :
    (n.switchCommandStep (switchName node op funcs)).map nodeView =
      switchView op (funcs.map funcKey) n.nodeView := by
  rw [switchCommandStep, ndnFunctionSwitchHandler_node, switchView]
  by_cases hnull : n.nodeView.hasNull (funcs.map funcKey) = true
  · rw [if_pos hnull]
    rcases hs : switchAll op n (funcs.map funcKey) with e | m
    · rw [switchAll_error hs]
      rfl
    · obtain ⟨k, hk, hl⟩ := hasNull_nodeView.mp hnull
      exact absurd hl (switchAll_isOk.mp ⟨m, hs⟩ k hk)
  · rw [if_neg hnull]
    obtain ⟨m, hs⟩ := switchAll_isOk.mpr fun k hk hl => hnull (hasNull_nodeView.mpr ⟨k, hk, hl⟩)
    rw [hs, ← switchAll_view hs]
    rfl

end ComputeNode

/-! ## One command delivered -/

/-- One command at the views of the nodes. -/
def deliverView (s : Str → NodeView) (c : ControlInterest) : Except Fault (Str → NodeView) :=
  (switchView c.op c.funcs (s c.node)).map (Function.update s c.node)

/-- Two commands to one node do not both enable and disable a function. -/
def Compatible (c c' : ControlInterest) : Prop :=
  c.node = c'.node → c.op = c'.op ∨ c.funcs.Disjoint c'.funcs

theorem deliverView_commutes {c c' : ControlInterest} (h : Compatible c c') :
    Commutes deliverView c c' := by
  intro s
  by_cases hnode : c.node = c'.node
  · have hone : ∀ d d' : ControlInterest, d.node = d'.node →
        (deliverView s d >>= fun t => deliverView t d') =
          (switchView d.op d.funcs (s d.node) >>= switchView d'.op d'.funcs).map
            (Function.update s d.node) := by
      intro d d' hd
      rw [deliverView]
      rcases switchView d.op d.funcs (s d.node) with e | v
      · rfl
      · show deliverView (Function.update s d.node v) d' = _
        rw [deliverView, ← hd, Function.update_self]
        show _ = (switchView d'.op d'.funcs v).map (Function.update s d.node)
        rcases switchView d'.op d'.funcs v with e | v'
        · rfl
        · exact congrArg Except.ok (Function.update_idem v v' s)
    rw [hone c c' hnode, hone c' c hnode.symm, hnode, switchView_comm (h hnode)]
  · have herr : ∀ {d : ControlInterest} {e : Fault} {v : NodeView},
        switchView d.op d.funcs v = .error e → e = .nullPointer := by
      intro d e v he
      unfold switchView at he
      split_ifs at he
      exact (Except.error.inj he).symm
    have hne : c'.node ≠ c.node := Ne.symm hnode
    simp only [deliverView]
    rcases hv : switchView c.op c.funcs (s c.node) with e | v <;>
      rcases hv' : switchView c'.op c'.funcs (s c'.node) with e' | v'
    · rw [herr hv, herr hv']
      rfl
    · simp [Except.map, bind, Except.bind, Function.update_of_ne hnode, hv]
    · simp [Except.map, bind, Except.bind, Function.update_of_ne hne, hv']
    · simp only [Except.map, bind, Except.bind, Function.update_of_ne hnode,
        Function.update_of_ne hne, hv, hv']
      exact congrArg Except.ok (Function.update_comm hnode v v' s)

/-- The name that a command spells out. -/
def ControlInterest.name (c : ControlInterest) : Name :=
  switchName (c.node.drop 1) c.op (c.funcs.map fun u => u.drop 1)

section Deliver

variable [NdnCxx]

/-- `SendOrchestrationRequest` makes a name of the command, and the node app handles it. -/
def deliverControl (nodes : Str → ComputeNode) (c : ControlInterest) :
    Except Fault (Str → ComputeNode) :=
  ((nodes c.node).switchCommandStep (NdnCxx.ofUri c.text)).map (Function.update nodes c.node)

/-- The views of all nodes. -/
def nodeViews (nodes : Str → ComputeNode) (K : Str) : NodeView := (nodes K).nodeView

/-- What a command names are single components. -/
def ControlInterest.Spelled (c : ControlInterest) : Prop :=
  c.node = funcKey (c.node.drop 1) ∧ ∀ u ∈ c.funcs, u = funcKey (u.drop 1)

omit [NdnCxx] in
theorem ControlInterest.Spelled.text_eq {c : ControlInterest} (h : c.Spelled) :
    c.text = c.name.toUri := by
  have hfuncs : (c.funcs.map fun u => u.drop 1).flatMap funcKey = c.funcs.flatten := by
    have hsame : c.funcs.map (fun u => funcKey (u.drop 1)) = c.funcs :=
      (List.map_congr_left fun u hu => (h.2 u hu).symm).trans (List.map_id _)
    rw [List.flatMap_map, List.flatMap_def, hsame]
  have hglue : ∀ {p q r t t' x x' : Str}, x = x' → t = t' →
      p ++ x ++ q ++ r ++ t = p ++ x' ++ q ++ r ++ t' := by
    rintro p q r t _ x _ rfl rfl
    rfl
  rw [ControlInterest.name, toUri_switchName]
  unfold ControlInterest.text switchCommand
  apply hglue
  · exact h.1
  · exact hfuncs.symm

theorem deliverControl_view {c : ControlInterest} (h : c.Spelled)
    (hread : NdnCxx.ofUri c.name.toUri = c.name) (nodes : Str → ComputeNode) :
    (deliverControl nodes c).map nodeViews = deliverView (nodeViews nodes) c := by
  have hfuncs : (c.funcs.map fun u => u.drop 1).map funcKey = c.funcs := by
    rw [List.map_map]
    exact (List.map_congr_left fun u hu => (h.2 u hu).symm).trans (List.map_id _)
  have hview := ComputeNode.switchCommandStep_view (nodes c.node) (c.node.drop 1) c.op
    (c.funcs.map fun u => u.drop 1)
  rw [hfuncs] at hview
  rw [deliverControl, h.text_eq, hread, deliverView, nodeViews, ← hview, ControlInterest.name]
  rcases (nodes c.node).switchCommandStep _ with e | m
  · rfl
  · refine congrArg Except.ok (funext fun K => ?_)
    by_cases hK : K = c.node
    · subst hK
      simp [nodeViews]
    · simp [nodeViews, hK]

/-! ## Any order -/

/-- What is compared: the status and the miss counter of every function, and what
`CheckExcludeList` says, at every node. -/
def observe (nodes : Str → ComputeNode) (K : Str) :
    List (Str × Option (Bool × UInt32)) × (Str → Bool) :=
  ((nodes K).nodeView.functions, (nodes K).checkExcludeList)

/-- The URI of a name with one component. -/
def IsComponent (u : Str) : Prop := ∃ s : Str, s ≠ [] ∧ '/' ∉ s ∧ u = funcKey s

/-- The nodes and functions of a table have names of one component. -/
def ManagementApp.SingleComponents (a : ManagementApp) : Prop :=
  ∀ K node, a.storage.find? K = some node →
    IsComponent K ∧ ∀ f ∈ node.functionsCurrent, IsComponent f.uri

omit [NdnCxx] in
theorem observe_eq {nodes nodes' : Str → ComputeNode} (h : nodeViews nodes = nodeViews nodes') :
    observe nodes = observe nodes' := by
  funext K
  have hview : (nodes K).nodeView = (nodes' K).nodeView := congrFun h K
  unfold observe
  ext1
  · exact congrArg NodeView.functions hview
  · funext k
    have hcount := congrFun (congrArg NodeView.excluded hview) k
    have hmem : k ∈ (nodes K).funcExcludeList ↔ k ∈ (nodes' K).funcExcludeList := by
      rw [← List.count_pos_iff, ← List.count_pos_iff]
      exact iff_of_eq (congrArg (0 < ·) hcount)
    show (nodes K).checkExcludeList k = (nodes' K).checkExcludeList k
    apply Bool.eq_iff_iff.mpr
    rw [ComputeNode.checkExcludeList, ComputeNode.checkExcludeList, List.contains_iff_mem,
      List.contains_iff_mem, hmem]

variable [Ns3Time] {a : ManagementApp}

omit [NdnCxx] in
theorem spelled_of_mem (hsingle : a.SingleComponents) {c : ControlInterest}
    (hc : c ∈ a.functionSwitchHandler) : c.Spelled := by
  have hkey : ∀ {u : Str}, IsComponent u → u = funcKey (u.drop 1) := by
    rintro _ ⟨s, -, -, rfl⟩
    rfl
  obtain ⟨-, -, K, node, hn, hplan⟩ := a.mem_functionSwitchHandler.mp hc
  have hnames : ∀ {p : FunctionInfo → Bool}, ∀ u ∈ ManagementApp.namesOf p node,
      u = funcKey (u.drop 1) := by
    intro p u hu
    obtain ⟨f, hf, rfl, -⟩ := ManagementApp.mem_namesOf.mp hu
    exact hkey ((hsingle K node hn).2 f hf)
  have hK := hkey (hsingle K node hn).1
  cases hplan with
  | disable hb => exact ⟨hK, hnames⟩
  | enable =>
    refine ⟨hK, fun u hu => ?_⟩
    rcases List.mem_append.mp hu with hu | hu
    · exact hnames u hu
    · split_ifs at hu
      · exact hnames u hu
      · exact absurd hu List.not_mem_nil
  | missed => exact ⟨hK, hnames⟩

/-- **The commands of a round commute.** In a table with distinct function names in every node,
where nodes and functions have names of one component, every order of delivery leaves the same
statuses, miss counters and excluded functions behind. -/
theorem deliveries_commute (a : ManagementApp)
    (hdistinct : ∀ K node, a.storage.find? K = some node →
      (node.functionsCurrent.map FunctionInfo.uri).Nodup)
    (hsingle : a.SingleComponents)
    (hread : ∀ c ∈ a.functionSwitchHandler, NdnCxx.ofUri c.name.toUri = c.name)
    (nodes : Str → ComputeNode) {l l' : List ControlInterest}
    (hl : l.Perm a.functionSwitchHandler) (hl' : l'.Perm a.functionSwitchHandler) :
    (run deliverControl nodes l).map observe = (run deliverControl nodes l').map observe := by
  have hcompatible : ∀ c ∈ a.functionSwitchHandler, ∀ c' ∈ a.functionSwitchHandler,
      Compatible c c' := by
    intro c hc c' hc' hnode
    by_contra hboth
    obtain ⟨hop, hshared⟩ := not_or.mp hboth
    apply hshared
    intro u hu hu'
    cases hcop : c.op with
    | enable =>
      cases hcop' : c'.op with
      | enable => exact hop (hcop.trans hcop'.symm)
      | disable =>
        exact ManagementApp.not_names_both hdistinct ⟨c', hc', hcop', hnode.symm, hu'⟩
          ⟨c, hc, hcop, rfl, hu⟩
    | disable =>
      cases hcop' : c'.op with
      | enable =>
        exact ManagementApp.not_names_both hdistinct ⟨c, hc, hcop, hnode, hu⟩
          ⟨c', hc', hcop', rfl, hu'⟩
      | disable => exact hop (hcop.trans hcop'.symm)
  have hview : ∀ {l : List ControlInterest}, l.Perm a.functionSwitchHandler →
      (run deliverControl nodes l).map nodeViews =
        run deliverView (nodeViews nodes) a.functionSwitchHandler := by
    intro l hl
    rw [run_map (g := id) fun c hc s => deliverControl_view
      (spelled_of_mem hsingle (hl.mem_iff.mp hc)) (hread c (hl.mem_iff.mp hc)) s, List.map_id]
    refine run_perm hl (fun c hc c' hc' => deliverView_commutes ?_) _
    exact hcompatible c (hl.mem_iff.mp hc) c' (hl.mem_iff.mp hc')
  have hsame : (run deliverControl nodes l).map nodeViews =
      (run deliverControl nodes l').map nodeViews := (hview hl).trans (hview hl').symm
  rcases hr : run deliverControl nodes l with e | t <;>
    rcases hr' : run deliverControl nodes l' with e' | t' <;> rw [hr, hr'] at hsame
  · exact congrArg Except.error (Except.error.inj hsame)
  · cases hsame
  · cases hsame
  · exact congrArg Except.ok (observe_eq (Except.ok.inj hsame))

end Deliver

/-! ## Two rounds over one node -/

/-- A round over one node that disables `/a/b` and enables `/a`. -/
def nestedRound : ManagementApp :=
  oneNodeRound [{ FunctionInfo.counted [] true 0 0 with funcName := ⟨["a".toList, "b".toList]⟩ },
    .counted "g".toList true 1 0, .counted "a".toList false 0 6]

/-- A node with the functions `a` and `b`. -/
def nestedNode : ComputeNode :=
  .fresh "n".toList 10 4 [.fresh "a".toList 1 1 0, .fresh "b".toList 1 1 0]

/-- A name with two components is read as two functions, one of which the other command of the round
enables. -/
theorem deliveries_differ :
    ¬ ∀ (_ : Ns3Time) (_ : NdnCxx) (a : ManagementApp) (nodes : Str → ComputeNode)
      (l l' : List ControlInterest),
      (∀ K node, a.storage.find? K = some node →
        (node.functionsCurrent.map FunctionInfo.uri).Nodup) →
      l.Perm a.functionSwitchHandler → l'.Perm a.functionSwitchHandler →
      (run deliverControl nodes l).map observe = (run deliverControl nodes l').map observe := by
  intro hall
  let round := @ManagementApp.functionSwitchHandler tickTime nestedRound
  have hdistinct : ∀ K node, nestedRound.storage.find? K = some node →
      (node.functionsCurrent.map FunctionInfo.uri).Nodup := by
    intro K node hn
    obtain ⟨-, rfl⟩ := oneNodeRound_find hn
    decide
  have h := hall tickTime plainUri nestedRound (fun _ => nestedNode) round round.reverse
    hdistinct (List.Perm.refl _) (List.reverse_perm _)
  have hat := congrArg (fun r => (r.toOption.map fun s => (s "/n".toList).1)) h
  revert hat
  decide

/-- A node with the functions of `busyRound`. -/
def busyNode : ComputeNode :=
  .fresh "n".toList 10 4
    [.fresh "f".toList 1 1 0, .fresh "g".toList 1 1 0, (.disable (.fresh "h".toList 1 1 0))]

/-- The round that disables `f` and enables `h`, in both orders. -/
theorem deliveries_commute_busyRound :
    (@run _ _ Fault (@deliverControl plainUri) (fun _ => busyNode)
      (@ManagementApp.functionSwitchHandler tickTime busyRound)).map observe =
    (@run _ _ Fault (@deliverControl plainUri) (fun _ => busyNode)
      (@ManagementApp.functionSwitchHandler tickTime busyRound).reverse).map observe := by
  have hsingle : busyRound.SingleComponents := by
    intro K node hn
    obtain ⟨rfl, rfl⟩ := oneNodeRound_find hn
    refine ⟨⟨"n".toList, by decide, by decide, rfl⟩, fun f hf => ?_⟩
    simp only [List.mem_cons, List.not_mem_nil, or_false] at hf
    rcases hf with rfl | rfl | rfl
    · exact ⟨"f".toList, by decide, by decide, rfl⟩
    · exact ⟨"g".toList, by decide, by decide, rfl⟩
    · exact ⟨"h".toList, by decide, by decide, rfl⟩
  exact @deliveries_commute plainUri tickTime busyRound busyRound_distinct hsingle (by decide)
    (fun _ => busyNode) _ _ (List.Perm.refl _) (List.reverse_perm _)

end IncSim
