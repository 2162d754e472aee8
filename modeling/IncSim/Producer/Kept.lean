import IncSim.Node.ExcludeList
import IncSim.Producer.Effects

/-!
# What the functions of a node keep

* `Admits`, `AdmitsExecute`, `AdmitsEnable`: a relation between a node before and after that admits
  the lookups of the engine, what an execution does, and what enabling a function does.
* **`step_admits`**: an event of an app keeps a node in every such relation.
* `Kept`, `Fixed`: attributes of a function that neither an execution nor a miss changes, and that
  the switches do not change either; `Kept.admits`, `Fixed.admits`: `Same` admits them.
* `switchCommandStep_same`, `udpFunctionSwitchHandler_same`: the switch commands.
-/

namespace IncSim

open PartialRun ComputeNode

/-! ## What an app does to its node -/

/-- The relation admits lookups and misses, and it asks for the functions and the exclude list only. -/
structure Admits (R : ComputeNode → ComputeNode → Prop) : Prop where
  trans : ∀ {n n' n''}, R n n' → R n' n'' → R n n''
  rest : ∀ {n n'}, n'.funcMap = n.funcMap → n'.funcExcludeList = n.funcExcludeList → R n n'
  lookup : ∀ n k, R n (n.getFunction k).1
  miss : ∀ n k, R n (n.update k IncComputation.addMissExecCounter)

/-- It admits executions, too. -/
structure AdmitsExecute (R : ComputeNode → ComputeNode → Prop) : Prop extends Admits R where
  execute : ∀ n k, R n (n.update k IncComputation.execute)

/-- It admits that a function is enabled, too. -/
structure AdmitsEnable (R : ComputeNode → ComputeNode → Prop) : Prop extends AdmitsExecute R where
  enable : ∀ {n n' f b}, n.enableFunction f = .ok (n', b) → R n n'

theorem Admits.refl {R : ComputeNode → ComputeNode → Prop} (hR : Admits R) (n : ComputeNode) : R n n :=
  hR.rest rfl rfl

namespace Host

variable {R : ComputeNode → ComputeNode → Prop} {h h' : Host} {t : InterestComponentStruct}
  {now : Time} {cs : ContentStore} {d : Name} {i : ℕ}

theorem resolve_admits (hR : Admits R) {n n' : ComputeNode} {q : NREDecision × List Name}
    (hr : resolve cs t n = .ok (n', q)) : R n n' := by
  simp only [resolve, bind_eq_ok, pure_eq_ok] at hr
  obtain ⟨⟨n₁, q₁⟩, hg, f, -, hn⟩ := hr
  cases hn
  obtain ⟨rfl, -⟩ | ⟨funcName, -, rfl⟩ := getFetchDecisions_node hg
  · exact hR.refl _
  · split_ifs
    · exact hR.trans (hR.lookup _ _) (hR.miss _ _)
    · exact hR.lookup _ _

theorem findFunction_admits (hR : Admits R) (n : ComputeNode) (p : Ptr) (l : List Str) :
    R n (findFunction n p l).1 := by
  induction l generalizing n p with
  | nil => exact hR.refl n
  | cons c l ih =>
    rw [findFunction]
    split_ifs
    · exact hR.trans (hR.lookup _ _) (ih _ _)
    · exact ih n p

theorem forwardInterest_admits (hR : Admits R) (hf : h.forwardInterest t = .ok h') :
    R h.node h'.node := by
  obtain ⟨fib, hnode⟩ := forwardInterest_node hf
  rw [hnode]
  exact hR.rest rfl rfl

theorem doExecution_admits (hR : AdmitsExecute R) (hd : h.doExecution t = .ok h') :
    R h.node h'.node := by
  simp only [doExecution, bookResource, bind_eq_ok, pure_eq_ok] at hd
  obtain ⟨h₁, ⟨f, -, rfl⟩, rfl⟩ := hd
  cases t.func with
  | none => exact hR.rest rfl rfl
  | some k => exact hR.trans (hR.execute h.node k) (hR.rest rfl rfl)

theorem resolveAndHandleDecisions_admits (hR : AdmitsExecute R)
    (hr : h.resolveAndHandleDecisions now cs t = .ok h') : R h.node h'.node := by
  simp only [resolveAndHandleDecisions, bind_eq_ok] at hr
  obtain ⟨⟨node, decision, names⟩, hres, hr⟩ := hr
  refine hR.trans (resolve_admits hR.toAdmits hres) ?_
  cases decision with
  | nack =>
    cases hr
    exact hR.refl _
  | fetch =>
    cases hr
    exact hR.refl _
  | forward =>
    have hforward := forwardInterest_admits hR.toAdmits hr
    exact hforward
  | execute =>
    obtain ⟨-, hd⟩ | ⟨-, ⟨-, hf⟩ | ⟨-, rfl⟩⟩ := executeOrQueue_ok hr
    · have hstart := doExecution_admits hR hd
      exact hstart
    · have hbusy : R node node.addNodeBusyCounter := hR.rest rfl rfl
      exact hR.trans hbusy (forwardInterest_admits hR.toAdmits hf)
    · obtain ⟨hmap, hlist⟩ := incrementQueueFill_funcMap (n := node) now
      exact hR.rest hmap hlist

theorem onInterest_admits (hR : AdmitsExecute R) {interest : Name}
    (ho : h.onInterest now cs interest = .ok h') : R h.node h'.node := by
  obtain ⟨-, rfl⟩ | ⟨-, ⟨-, hr⟩ | ⟨-, ⟨-, hnode, -⟩ | ⟨-, rfl⟩⟩⟩ := onInterest_cases ho
  · exact hR.refl _
  · have hresolve := resolveAndHandleDecisions_admits hR hr
    exact hR.trans (findFunction_admits hR.toAdmits _ _ _) hresolve
  · rw [hnode]
    exact hR.lookup _ _
  · exact hR.refl h.node

theorem scheduledExecutionEnd_admits (hR : AdmitsExecute R) {e : Execution}
    (hs : h.scheduledExecutionEnd now e = .ok h') : R h.node h'.node := by
  obtain ⟨g, hr, hcase⟩ := scheduledExecutionEnd_cases hs
  have hfree : R h.node g.node := by
    obtain ⟨f, -, hr⟩ := bind_eq_ok.mp hr
    cases hr
    exact hR.rest rfl rfl
  obtain ⟨-, rfl⟩ | ⟨-, hs⟩ := hcase
  · exact hfree
  · obtain ⟨t, rest, -, ⟨-, hd⟩ | ⟨-, rfl⟩⟩ := serveQueue_cases hs
    · obtain ⟨hmap, hlist⟩ := decrementQueueFill_funcMap (n := g.node) now
      exact hR.trans (hR.trans hfree (hR.rest hmap hlist)) (doExecution_admits hR hd)
    · exact hfree

theorem codeDrag_admits (hR : AdmitsEnable R) {goOn : Bool}
    (hc : h.codeDrag d t = .ok (h', goOn)) : R h.node h'.node := by
  unfold codeDrag at hc
  split at hc
  · obtain ⟨⟨node, enabled⟩, he, hc⟩ := bind_eq_ok.mp hc
    have henable := hR.enable he
    dsimp only at hc
    split at hc <;>
    · cases hc
      exact henable
  · cases hc
    exact hR.refl _

theorem visitEntry_admits (hR : AdmitsEnable R) (hv : h.visitEntry now cs d i = .ok h') :
    R h.node h'.node := by
  obtain ⟨t, -, ⟨-, rfl⟩ | ⟨-, ⟨g, hc, hs⟩ | hc⟩⟩ := visitEntry_cases hv
  · exact hR.refl _
  · refine hR.trans (codeDrag_admits hR hc) ?_
    obtain ⟨-, rfl⟩ | ⟨-, ⟨-, rfl⟩ | ⟨-, hr⟩⟩ := setPending_cases hs
    · exact hR.refl _
    · exact hR.refl g.node
    · have hresolve := resolveAndHandleDecisions_admits hR.toAdmitsExecute hr
      exact hresolve
  · exact codeDrag_admits hR hc

theorem visitEntries_admits (hR : AdmitsEnable R) {cs : ℕ → ContentStore}
    (hv : visitEntries now cs d i h = .ok h') : R h.node h'.node := by
  induction i generalizing h with
  | zero =>
    cases hv
    exact hR.refl _
  | succ i ih =>
    obtain ⟨g, hg, hv⟩ := bind_eq_ok.mp hv
    exact hR.trans (visitEntry_admits hR hg) (ih hv)

/-- **One event of an app.** -/
theorem step_admits (hR : AdmitsEnable R) {e : Event} (hs : h.step e = .ok h') :
    R h.node h'.node := by
  cases e with
  | interest now cs name => exact onInterest_admits hR.toAdmitsExecute hs
  | data now cs name =>
    have ho : h.onData now cs name = .ok h' := hs
    unfold onData at ho
    split at ho
    · cases ho
      exact hR.refl _
    · have hrounds := visitEntries_admits hR ho
      exact hrounds
  | executionEnd now k =>
    obtain ⟨e, -, hs⟩ := executionEnd_cases hs
    have hend := scheduledExecutionEnd_admits hR.toAdmitsExecute hs
    exact hend

end Host

/-! ## Attributes of functions -/

variable {α : Type} {attr : IncComputation → α}

/-- Neither an execution nor a miss changes `attr`. -/
structure Kept (attr : IncComputation → α) : Prop where
  execute : ∀ f, attr f.execute = attr f
  addMiss : ∀ f, attr f.addMissExecCounter = attr f

/-- The switches do not change `attr` either. -/
structure Fixed (attr : IncComputation → α) : Prop extends Kept attr where
  enable : ∀ f, attr f.enable = attr f
  disable : ∀ f, attr f.disable = attr f

theorem kept_enableComputation : Kept IncComputation.enableComputation where
  execute _ := rfl
  addMiss f := by
    unfold IncComputation.addMissExecCounter
    split_ifs <;> rfl

theorem fixed_paramNumber : Fixed IncComputation.paramNumber where
  execute _ := rfl
  addMiss f := by
    unfold IncComputation.addMissExecCounter
    split_ifs <;> rfl
  enable _ := rfl
  disable _ := rfl

theorem admits_same (ha : ∀ f, attr f.addMissExecCounter = attr f) : Admits (Same attr) where
  trans := Same.trans
  rest hmap _ := Same.of_funcMap hmap
  lookup _ k := same_getFunction k
  miss _ _ := same_update ha

theorem admits_execCounter : Admits (Same IncComputation.execCounter) :=
  admits_same fun f => by
    unfold IncComputation.addMissExecCounter
    split_ifs <;> rfl

theorem Kept.admits (ha : Kept attr) : AdmitsExecute (Same attr) where
  toAdmits := admits_same ha.addMiss
  execute _ _ := same_update ha.execute

theorem Fixed.admits (ha : Fixed attr) : AdmitsEnable (Same attr) where
  toAdmitsExecute := ha.toKept.admits
  enable he := same_enableFunction ha.enable he

/-! ## Switch commands -/

namespace ComputeNode

variable {n n' : ComputeNode} {f : Str} {b : Bool}

theorem switchOn_same (ha : Fixed attr) (hs : n.switchOn f = .ok (n', b)) : Same attr n n' := by
  obtain ⟨⟨m, c⟩, he, hs⟩ := bind_eq_ok.mp hs
  cases hs
  refine (same_enableFunction ha.enable he).trans (Same.of_funcMap ?_)
  split <;> rfl

theorem switchOff_same (ha : Fixed attr) (hs : n.switchOff f = .ok (n', b)) : Same attr n n' := by
  obtain ⟨⟨m, c⟩, he, hs⟩ := bind_eq_ok.mp hs
  cases hs
  exact (same_disableFunction ha.disable he).trans (Same.of_funcMap rfl)

/-- **A command as an NDN name.** -/
theorem switchCommandStep_same (ha : Fixed attr) {interest : Name}
    (hs : n.switchCommandStep interest = .ok n') : Same attr n n' := by
  rw [switchCommandStep, map_eq_ok] at hs
  obtain ⟨⟨m, reply⟩, hs, rfl⟩ := hs
  unfold ndnFunctionSwitchHandler at hs
  obtain ⟨⟨m', flag⟩, hloop, hm⟩ := bind_eq_ok.mp hs
  cases hm
  refine run_invariant (P := fun q : ComputeNode × Option Bool => Same attr n q.1)
    (fun q k q' hq hround => hq.trans ?_) (Same.refl attr n) hloop
  rcases ndnSwitchRound_cases hround with ⟨-, b, hon⟩ | ⟨-, b, hoff⟩ | ⟨-, -, rfl⟩
  · exact switchOn_same ha hon
  · exact switchOff_same ha hoff
  · exact Same.refl attr _

theorem udpSwitchLoop_same (ha : Fixed attr) {operation : Str} {tokens : List Str}
    {q q' : ComputeNode × Bool} (hs : udpSwitchLoop operation q tokens = .ok q') :
    Same attr q.1 q'.1 := by
  induction tokens generalizing q with
  | nil => cases hs
  | cons token tokens ih =>
    cases tokens with
    | nil =>
      cases hs
      exact Same.refl attr _
    | cons token' tokens =>
      unfold udpSwitchLoop at hs
      split_ifs at hs
      · obtain ⟨q₁, hq, hs⟩ := bind_eq_ok.mp hs
        exact (switchOn_same ha hq).trans (ih hs)
      · obtain ⟨q₁, hq, hs⟩ := bind_eq_ok.mp hs
        exact (switchOff_same ha hq).trans (ih hs)
      · exact ih hs

/-- **A command as a UDP packet.** -/
theorem udpFunctionSwitchHandler_same (ha : Fixed attr) {packet_data reply : Str}
    (hs : n.udpFunctionSwitchHandler packet_data = .ok (n', reply)) : Same attr n n' := by
  obtain ⟨⟨m, flag⟩, hloop, hs⟩ := bind_eq_ok.mp hs
  cases hs
  exact udpSwitchLoop_same ha hloop

end ComputeNode

end IncSim
