import IncSim.Node.Status
import IncSim.Producer.Effects

/-!
# Null pointers in the function map

`GetFunction` is `operator[]` of the function map, so looking an unknown name up leaves a null pointer
under it. The switches and the status handlers dereference what they find.

* `NonNull`, `Known`: no value of the map is null; the map has the key.
* `nonNull_findFunction`: the lookups of a compute interest.
* `onInterest_nonNull_iff`: an interest keeps the map free of null pointers exactly when the names
  it asks for are known.
* `MapEvent`, `System.mapStep`: interests, switches and status requests.
* **`nonNull_iff_known`**: runs.
-/

namespace IncSim

open PartialRun

namespace ComputeNode

variable {n n' : ComputeNode} {k : Str}

/-- No value of the function map is null. -/
def NonNull (n : ComputeNode) : Prop := ∀ q ∈ n.funcMap, q.2 ≠ none

instance (n : ComputeNode) : Decidable n.NonNull := inferInstanceAs (Decidable (∀ _ ∈ _, _))

/-- The function map has the key. -/
def Known (n : ComputeNode) (k : Str) : Prop := (n.funcMap.lookup k).isSome = true

instance (n : ComputeNode) (k : Str) : Decidable (n.Known k) := inferInstanceAs (Decidable (_ = _))

/-- The keys of the map, and which of them hold an object. -/
def shape (n : ComputeNode) : List (Str × Bool) := n.funcMap.map fun q => (q.1, q.2.isSome)

theorem nonNull_iff_shape : n.NonNull ↔ ∀ q ∈ n.shape, q.2 = true := by
  unfold NonNull shape
  rw [List.forall_mem_map]
  exact forall₂_congr fun q _ => Option.isSome_iff_ne_none.symm

theorem NonNull.congr (h : n'.shape = n.shape) : n'.NonNull ↔ n.NonNull := by
  rw [nonNull_iff_shape, nonNull_iff_shape, h]

theorem shape_update (k : Str) (g : IncComputation → IncComputation) :
    (n.update k g).shape = n.shape := by
  unfold shape update
  rw [List.map_map]
  refine List.map_congr_left fun q _ => ?_
  by_cases hk : q.1 = k
  · simp [hk]
  · simp [hk]

theorem getFunction_of_known (h : n.Known k) : (n.getFunction k).1 = n := by
  unfold Known at h
  unfold getFunction
  split
  · next hl =>
    rw [hl] at h
    cases h
  · rfl
  · rfl

theorem getFunction_of_unknown (h : ¬ n.Known k) : ¬ (n.getFunction k).1.NonNull := by
  unfold Known at h
  have hl : n.funcMap.lookup k = none := Option.not_isSome_iff_eq_none.mp h
  intro hnon
  refine hnon (k, none) ?_ rfl
  unfold getFunction
  rw [hl]
  exact List.mem_append_right _ List.mem_cons_self

/-- `AddNewFunction` fills the map with objects. -/
theorem NonNull.addNewFunction (h : n.NonNull) (name : Str) (function : IncComputation) :
    (n.addNewFunction name function).NonNull := by
  unfold ComputeNode.addNewFunction
  split
  · exact h
  · intro q hq
    rcases List.mem_append.mp hq with hq | hq
    · exact h q hq
    · rw [List.mem_singleton.mp hq]
      exact Option.some_ne_none _

theorem shape_enableFunction {b : Bool} (h : n.enableFunction k = .ok (n', b)) :
    n'.shape = n.shape := by
  rcases enableFunction_cases h with ⟨-, rfl, -⟩ | ⟨c, fib, -, -, rfl⟩
  · rfl
  · exact shape_update k IncComputation.enable

theorem shape_disableFunction {b : Bool} (h : n.disableFunction k = .ok (n', b)) :
    n'.shape = n.shape := by
  rcases disableFunction_cases h with ⟨-, rfl, -⟩ | ⟨c, fib, -, -, rfl⟩
  · rfl
  · exact shape_update k IncComputation.disable

/-! ## What does not fail without null pointers -/

theorem mapM_of_nonNull {g : Str × Option IncComputation → Except Fault Str}
    (hg : ∀ k f, ∃ s, g (k, some f) = .ok s) (h : n.NonNull) : ∃ l, n.funcMap.mapM g = .ok l := by
  refine exists_mapM_eq_ok ?_
  rintro ⟨k, _ | f⟩ hq
  · exact absurd rfl (h _ hq)
  · exact hg k f

theorem lookup_of_nonNull (h : n.NonNull) (k : Str) : n.funcMap.lookup k ≠ some none :=
  fun hl => h (k, none) (Assoc.mem_of_lookup hl) rfl

/-! ## Lookups -/

theorem Known.getFunction {k' : Str} (h : n.Known k) : (n.getFunction k').1.Known k := by
  unfold Known at h ⊢
  unfold ComputeNode.getFunction
  split
  · show ((n.funcMap ++ [(k', none)]).lookup k).isSome = true
    rw [List.lookup_append, Option.isSome_or, h, Bool.true_or]
  · exact h
  · exact h

theorem known_getFunction (k : Str) : (n.getFunction k).1.Known k := by
  unfold Known ComputeNode.getFunction
  split
  · show ((n.funcMap ++ [(k, none)]).lookup k).isSome = true
    simp [List.lookup_append]
  · next hl => rw [hl]; rfl
  · next hl => rw [hl]; rfl

end ComputeNode

open ComputeNode (NonNull Known shape_update)

/-- The keys that the loop of `OnInterest` looks up. -/
def functionKeys : List Str → List Str
  | [] => []
  | c :: l => if c = functionComp then Name.toUri ⟨l.take 1⟩ :: functionKeys l else functionKeys l

/-- The engine takes the first of the keys. -/
theorem head?_functionKeys {l : List Str} {c : Str} (h : extractFunctionComp l = some c) :
    (functionKeys l).head? = some (Name.toUri ⟨[c]⟩) := by
  induction l with
  | nil => cases h
  | cons d l ih =>
    cases l with
    | nil => cases h
    | cons e l =>
      rw [extractFunctionComp] at h
      rw [functionKeys]
      split_ifs at h ⊢ with hd
      · cases h
        rfl
      · exact ih h

theorem mem_functionKeys {l : List Str} {c : Str} (h : extractFunctionComp l = some c) :
    Name.toUri ⟨[c]⟩ ∈ functionKeys l := List.mem_of_head? (head?_functionKeys h)

namespace Host

theorem nonNull_findFunction (n : ComputeNode) (p : Ptr) (l : List Str) :
    (findFunction n p l).1.NonNull ↔ n.NonNull ∧ ∀ k ∈ functionKeys l, n.Known k := by
  induction l generalizing n p with
  | nil => simp [findFunction, functionKeys]
  | cons c l ih =>
    rw [findFunction, functionKeys]
    split_ifs with hc
    · dsimp only
      rw [ih, List.forall_mem_cons]
      by_cases hk : n.Known (Name.toUri ⟨l.take 1⟩)
      · rw [ComputeNode.getFunction_of_known hk]
        simp [hk]
      · simp [hk, ComputeNode.getFunction_of_unknown hk]
    · exact ih n p

theorem known_of_known_findFunction {n : ComputeNode} {k : Str} (p : Ptr) (l : List Str)
    (h : n.Known k) : (findFunction n p l).1.Known k := by
  induction l generalizing n p with
  | nil => exact h
  | cons c l ih =>
    rw [findFunction]
    split_ifs
    · exact ih _ h.getFunction
    · exact ih p h

theorem known_findFunction (n : ComputeNode) (p : Ptr) {l : List Str} {k : Str}
    (h : k ∈ functionKeys l) : (findFunction n p l).1.Known k := by
  induction l generalizing n p with
  | nil => exact absurd h List.not_mem_nil
  | cons c l ih =>
    rw [functionKeys] at h
    rw [findFunction]
    split_ifs at h ⊢
    · rcases List.mem_cons.mp h with rfl | h
      · exact known_of_known_findFunction _ l (ComputeNode.known_getFunction _)
      · exact ih _ _ h
    · exact ih n p h

/-! ## What follows the lookups -/

variable {h h' : Host} {p : Ptr} {t : InterestComponentStruct} {now : Time} {cs : ContentStore}

/-- The engine looks up a function that the app has looked up before. -/
theorem getFetchDecisions_shape {interest : Name} {n n' : ComputeNode}
    {q : NREDecision × List Name} (hg : getFetchDecisions cs interest n = .ok (n', q))
    (hknown : ∀ k ∈ functionKeys interest.comps, n.Known k) : n'.shape = n.shape := by
  obtain ⟨rfl, -⟩ | ⟨funcName, hname, hcase⟩ := getFetchDecisions_node hg
  · rfl
  · have hget : (n.getFunction funcName.toUri).1 = n := by
      obtain ⟨c, hc, rfl⟩ := Option.map_eq_some_iff.mp hname
      exact ComputeNode.getFunction_of_known (hknown _ (mem_functionKeys hc))
    rw [hcase, hget]
    split_ifs
    · exact shape_update _ _
    · rfl

theorem forwardInterest_shape (hf : h.forwardInterest t = .ok h') :
    h'.node.shape = h.node.shape := by
  rw [ComputeNode.shape, ComputeNode.shape, forwardInterest_funcMap hf]

theorem doExecution_shape (hd : h.doExecution t = .ok h') : h'.node.shape = h.node.shape := by
  simp only [doExecution, bookResource, bind_eq_ok, pure_eq_ok] at hd
  obtain ⟨h₁, ⟨f, -, rfl⟩, rfl⟩ := hd
  show (Host.execute _ t.func).node.shape = h.node.shape
  cases t.func with
  | none => rfl
  | some k => exact shape_update k IncComputation.execute

theorem executeOrQueue_shape (he : h.executeOrQueue now t = .ok h') :
    h'.node.shape = h.node.shape := by
  obtain ⟨-, hd⟩ | ⟨-, ⟨-, hf⟩ | ⟨-, rfl⟩⟩ := executeOrQueue_ok he
  · exact doExecution_shape hd
  · exact forwardInterest_shape (h := { h with node := h.node.addNodeBusyCounter }) hf
  · show (h.node.incrementQueueFill now).1.shape = h.node.shape
    unfold ComputeNode.incrementQueueFill
    split_ifs <;> rfl

theorem resolveAndHandleDecisions_shape (hr : h.resolveAndHandleDecisions now cs t = .ok h')
    (hknown : ∀ k ∈ functionKeys t.interest.comps, h.node.Known k) :
    h'.node.shape = h.node.shape := by
  simp only [resolveAndHandleDecisions, resolve, bind_eq_ok, pure_eq_ok] at hr
  obtain ⟨⟨node, decision, names⟩, ⟨⟨n₁, q⟩, hg, f, -, hq⟩, hr⟩ := hr
  cases hq
  rw [← getFetchDecisions_shape hg hknown]
  split at hr
  · cases hr
    rfl
  · cases hr
    rfl
  · exact forwardInterest_shape hr
  · exact executeOrQueue_shape hr

/-! ## Interests -/

/-- The keys that an app looks up for an interest. -/
def lookedUp (name : Name) : List Str :=
  if name.getSubName 0 1 = ⟨[lambdaComp]⟩ then functionKeys name.comps
  else if name.getSubName 0 1 = ⟨[functionComp]⟩ then [(name.getSubName 1 1).toUri]
  else []

/-- **One interest** keeps the map free of null pointers exactly when the app is not active or knows
every name that it looks up. -/
theorem onInterest_nonNull_iff {name : Name} (ho : h.onInterest now cs name = .ok h')
    (hn : h.node.NonNull) :
    h'.node.NonNull ↔ (h.app.active = true → ∀ k ∈ lookedUp name, h.node.Known k) := by
  unfold lookedUp
  obtain ⟨hoff, rfl⟩ | ⟨hon, hcase⟩ := onInterest_cases ho
  · simp [hn, hoff]
  · rw [forall_prop_of_true hon]
    obtain ⟨hlambda, hr⟩ | ⟨hlambda, ⟨hfunction, hnode, -⟩ | ⟨hfunction, rfl⟩⟩ := hcase
    · have hshape := resolveAndHandleDecisions_shape hr fun k hk =>
        known_findFunction h.node none hk
      rw [if_pos hlambda, NonNull.congr hshape, nonNull_findFunction]
      exact and_iff_right hn
    · rw [if_neg hlambda, if_pos hfunction, List.forall_mem_singleton, hnode]
      by_cases hk : h.node.Known (name.getSubName 1 1).toUri
      · rw [ComputeNode.getFunction_of_known hk]
        exact iff_of_true hn hk
      · exact iff_of_false (ComputeNode.getFunction_of_unknown hk) hk
    · rw [if_neg hlambda, if_neg hfunction]
      exact iff_of_true hn (List.forall_mem_nil _)

end Host

/-! ## Runs -/

theorem ComputeNode.NonNull.fill {n : ComputeNode} (h : n.NonNull)
    (functions : List (Str × IncComputation)) : (n.fill functions).NonNull := by
  unfold ComputeNode.fill
  induction functions generalizing n with
  | nil => exact h
  | cons q functions ih => exact ih (h.addNewFunction q.1 q.2)

/-- What the node answers without a fault. -/
structure ComputeNode.Safe (n : ComputeNode) : Prop where
  enableFunction : ∀ f, ∃ q, n.enableFunction f = .ok q
  disableFunction : ∀ f, ∃ q, n.disableFunction f = .ok q
  statusReport : ∃ report, n.statusReport = .ok report
  ndnFunctionStatus : ∃ reply, n.ndnFunctionStatusRequestHandler = .ok reply
  udpFunctionStatus : ∃ reply, n.udpFunctionStatusRequestHandler = .ok reply

/-- Without null pointers nothing is dereferenced in vain. -/
theorem ComputeNode.NonNull.safe {n : ComputeNode} (h : n.NonNull) : n.Safe where
  enableFunction f := by
    have hl := ComputeNode.lookup_of_nonNull h f
    unfold ComputeNode.enableFunction
    rcases hf : n.funcMap.lookup f with _ | _ | c
    · exact ⟨_, rfl⟩
    · exact absurd hf hl
    · exact ⟨_, rfl⟩
  disableFunction f := by
    have hl := ComputeNode.lookup_of_nonNull h f
    unfold ComputeNode.disableFunction
    rcases hf : n.funcMap.lookup f with _ | _ | c
    · exact ⟨_, rfl⟩
    · exact absurd hf hl
    · exact ⟨_, rfl⟩
  statusReport := by
    obtain ⟨l, hl⟩ := ComputeNode.mapM_of_nonNull (g := functionStatus) (fun _ _ => ⟨_, rfl⟩) h
    exact ⟨_, by rw [ComputeNode.statusReport, hl]; rfl⟩
  ndnFunctionStatus := by
    obtain ⟨l, hl⟩ := ComputeNode.mapM_of_nonNull (g := functionStatusLine)
      (fun _ _ => ⟨_, rfl⟩) h
    exact ⟨_, by rw [ComputeNode.ndnFunctionStatusRequestHandler, hl]; rfl⟩
  udpFunctionStatus := by
    obtain ⟨l, hl⟩ := ComputeNode.mapM_of_nonNull (g := functionStatusLine)
      (fun _ _ => ⟨_, rfl⟩) h
    exact ⟨_, by rw [ComputeNode.udpFunctionStatusRequestHandler, hl]; rfl⟩

/-- What can happen to the function map of a node. -/
inductive MapEvent (ι : Type)
  /-- `OnInterest` of app `a` -/
  | interest (a : ι) (now : Time) (cs : ContentStore) (name : Name)
  | enableFunction (f : Str)
  | disableFunction (f : Str)
  /-- `StatusFetchHandler` over NDN, and over UDP -/
  | ndnStatus (name : Name)
  | udpStatus (packet_data : Str)
  /-- `FunctionStatusRequestHandler` over NDN, and over UDP -/
  | ndnFunctionStatus
  | udpFunctionStatus

section Runs

variable [NdnCxx] {ι : Type} [DecidableEq ι]

/-- One event at a node with any number of apps. -/
def System.mapStep (s : System ι) : MapEvent ι → Except Fault (System ι)
  | .interest a now cs name => s.step (a, .interest now cs name)
  | .enableFunction f => do let q ← s.node.enableFunction f; pure { s with node := q.1 }
  | .disableFunction f => do let q ← s.node.disableFunction f; pure { s with node := q.1 }
  | .ndnStatus name => do let q ← s.node.ndnStatusFetchHandler name; pure { s with node := q.2 }
  | .udpStatus packet => do let q ← s.node.udpStatusFetchHandler packet; pure { s with node := q.2 }
  | .ndnFunctionStatus => do let _ ← s.node.ndnFunctionStatusRequestHandler; pure s
  | .udpFunctionStatus => do let _ ← s.node.udpFunctionStatusRequestHandler; pure s

omit [NdnCxx] [DecidableEq ι] in
/-- An interest asks for known names only, or its app is not active. -/
def KnownLookups (s : System ι) : MapEvent ι → Prop
  | .interest a _ _ name => (s.apps a).active = true → ∀ k ∈ Host.lookedUp name, s.node.Known k
  | _ => True

theorem mapStep_nonNull_iff {s s' : System ι} {e : MapEvent ι} (hn : s.node.NonNull)
    (hs : s.mapStep e = .ok s') : s'.node.NonNull ↔ KnownLookups s e := by
  have hkeep : s'.node.shape = s.node.shape → (s'.node.NonNull ↔ True) := fun h =>
    iff_true_intro ((NonNull.congr h).mpr hn)
  cases e with
  | interest a now cs name =>
    simp only [System.mapStep, System.step, bind_eq_ok, pure_eq_ok] at hs
    obtain ⟨h', ho, rfl⟩ := hs
    exact Host.onInterest_nonNull_iff ho hn
  | enableFunction f =>
    simp only [System.mapStep, bind_eq_ok, pure_eq_ok] at hs
    obtain ⟨q, hq, rfl⟩ := hs
    exact hkeep (ComputeNode.shape_enableFunction hq)
  | disableFunction f =>
    simp only [System.mapStep, bind_eq_ok, pure_eq_ok] at hs
    obtain ⟨q, hq, rfl⟩ := hs
    exact hkeep (ComputeNode.shape_disableFunction hq)
  | ndnStatus name =>
    simp only [System.mapStep, ComputeNode.ndnStatusFetchHandler, bind_eq_ok, pure_eq_ok] at hs
    obtain ⟨q, ⟨report, -, hq⟩, rfl⟩ := hs
    cases hq
    apply hkeep
    rw [ComputeNode.atRequest_eq]
    rfl
  | udpStatus packet =>
    simp only [System.mapStep, ComputeNode.udpStatusFetchHandler, bind_eq_ok, pure_eq_ok] at hs
    obtain ⟨q, ⟨report, -, hq⟩, rfl⟩ := hs
    cases hq
    exact hkeep rfl
  | ndnFunctionStatus =>
    simp only [System.mapStep, bind_eq_ok, pure_eq_ok] at hs
    obtain ⟨-, -, rfl⟩ := hs
    exact hkeep rfl
  | udpFunctionStatus =>
    simp only [System.mapStep, bind_eq_ok, pure_eq_ok] at hs
    obtain ⟨-, -, rfl⟩ := hs
    exact hkeep rfl

/-- **The function map over a run.** On a node whose map is filled by `AddNewFunction`, no value is
ever null exactly when every interest asks for known names only; and then the switches and the
status handlers are safe in every state. -/
theorem nonNull_iff_known (n₀ : ComputeNode) (h₀ : n₀.funcMap = [])
    (functions : List (Str × IncComputation)) (apps : ι → NfnProducerApp) {es : List (MapEvent ι)}
    {s' : System ι} (hrun : run System.mapStep ⟨n₀.fill functions, apps⟩ es = .ok s') :
    (Always System.mapStep (fun s => s.node.NonNull) ⟨n₀.fill functions, apps⟩ es ↔
      StepsMeet System.mapStep KnownLookups ⟨n₀.fill functions, apps⟩ es) ∧
    (StepsMeet System.mapStep KnownLookups ⟨n₀.fill functions, apps⟩ es →
      Always System.mapStep (fun s => s.node.Safe) ⟨n₀.fill functions, apps⟩ es) := by
  have hempty : n₀.NonNull := by
    unfold NonNull
    rw [h₀]
    exact List.forall_mem_nil _
  have hiff := always_iff_stepsMeet (I := fun _ : System ι => True)
    (P := fun s => s.node.NonNull) (C := KnownLookups) (fun _ _ _ _ _ => trivial)
    (fun s e s' _ hn hs => mapStep_nonNull_iff hn hs) trivial (hempty.fill functions) hrun
  refine ⟨hiff, fun hmeet es₁ t hp ht => ?_⟩
  exact (hiff.mpr hmeet es₁ t hp ht).safe

end Runs

/-! ## Two runs -/

/-- A node that knows `f`, with one app. -/
def knowsF : System Unit :=
  ⟨(ComputeNode.fresh "n".toList 10 4 []).fill [("/f".toList, .fresh "f".toList 1 1 0)],
    fun _ => .start ⟨1, nfnProducerAppFace⟩⟩

/-- A code-drag interest for the function `k`. -/
def codeDragInterest (k : Str) : MapEvent Unit :=
  .interest () 0 (fun _ _ => false) ⟨[functionComp, k]⟩

/-- A code-drag interest for an unknown function leaves a null pointer. -/
theorem null_after_codeDrag :
    ¬ ∀ (n₀ : ComputeNode) (functions : List (Str × IncComputation)) (apps : Unit → NfnProducerApp)
      (es : List (MapEvent Unit)) (s' : System Unit), n₀.funcMap = [] →
      run (@System.mapStep plainUri Unit _) ⟨n₀.fill functions, apps⟩ es = .ok s' →
        s'.node.NonNull := by
  intro hall
  have h := hall (.fresh "n".toList 10 4 []) [("/f".toList, .fresh "f".toList 1 1 0)]
    (fun _ => .start ⟨1, nfnProducerAppFace⟩) [codeDragInterest "x".toList] _ rfl rfl
  revert h
  decide

/-- A code-drag interest for a known function does not. -/
theorem nonNull_iff_known_codeDrag :
    Always (@System.mapStep plainUri Unit _) (fun s => s.node.NonNull) knowsF
      [codeDragInterest "f".toList] := by
  have hrun : run (@System.mapStep plainUri Unit _) knowsF [codeDragInterest "f".toList] = .ok _ :=
    rfl
  refine (@nonNull_iff_known plainUri Unit _ (.fresh "n".toList 10 4 []) rfl
    [("/f".toList, .fresh "f".toList 1 1 0)] _ _ _ hrun).1.mpr ?_
  intro es₁ e t hp ht
  have hone : es₁ ++ [e] <+: [] ++ [codeDragInterest "f".toList] := hp
  obtain ⟨rfl, rfl⟩ | hp := concat_isPrefix_concat.mp hone
  · cases ht
    intro _
    decide
  · exact absurd (List.prefix_nil.mp hp) (by simp)

end IncSim
