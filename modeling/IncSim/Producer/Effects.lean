import IncSim.Node.Frame
import IncSim.Producer.App

/-!
# What an app does to its node and its lists

* `checkResource_ok`, `bookResource_ok`, `releaseResource_ok`: the `uint32` arithmetic is exact
  where the guard passed, or where the sum stays below `2 ^ 32`.
* `getFetchDecisions_node`, `executeOrQueue_ok`, `onInterest_cases`, `setPending_cases`,
  `visitEntry_cases`, `serveQueue_cases`, `scheduledExecutionEnd_cases`: what each function of the app
  can do, branch by branch.
* `Resolved`, `resolveAndHandleDecisions_cases`: everything that resolving an interest can do.
* `Host.desk`, `Host.Accepts`, **`Host.step_move`**: one event of an app is one move of a desk of
  the scheduler.
* **`Host.step_ne_emptyQueue`**: when an event can reach for an empty queue.
-/

namespace IncSim

open PartialRun Relation

open ComputeNode (Frame Reaches)

/-- The execution that an interest asks for. -/
def InterestComponentStruct.job (t : InterestComponentStruct) : Execution := ⟨t.interest, t.func⟩

/-- The demand of an execution. -/
def ComputeNode.jobNeed (n : ComputeNode) (e : Execution) : Resource → ℕ := n.need e.func

namespace Host

variable {h h' : Host} {p : Ptr} {t : InterestComponentStruct} {now : Time} {cs : ContentStore}

/-! ## Resources -/

theorem checkResource_ok {b : Bool} (hc : h.checkResource p = .ok b) :
    b = true ↔ h.node.need p ≤ h.node.available := by
  simp only [checkResource, bind_eq_ok, pure_eq_ok] at hc
  obtain ⟨f, hf, rfl⟩ := hc
  rw [ComputeNode.need_eq_demand hf]
  constructor
  · intro hb r
    simp only [Bool.not_eq_true', Bool.or_eq_false_iff, decide_eq_false_iff_not, UInt32.not_lt,
      UInt32.le_iff_toNat_le] at hb
    cases r with
    | ram => exact hb.1
    | cores => exact hb.2
  · intro hle
    simp only [Bool.not_eq_true', Bool.or_eq_false_iff, decide_eq_false_iff_not, UInt32.not_lt,
      UInt32.le_iff_toNat_le]
    exact ⟨hle .ram, hle .cores⟩

/-- Booking is exact when the resources suffice. -/
theorem bookResource_ok (hb : h.bookResource p = .ok h') (hfit : h.node.need p ≤ h.node.available) :
    h'.app = h.app ∧
      Reaches h.node { h.node.pool with free := h.node.available - h.node.need p } h'.node := by
  simp only [bookResource, bind_eq_ok, pure_eq_ok] at hb
  obtain ⟨f, hf, rfl⟩ := hb
  rw [ComputeNode.need_eq_demand hf] at hfit ⊢
  refine ⟨rfl, Scheduler.Pool.ext ?_ rfl, rfl, rfl⟩
  funext r
  cases r with
  | ram => exact UInt32.toNat_sub_of_le _ _ (UInt32.le_iff_toNat_le.mpr (hfit .ram))
  | cores => exact UInt32.toNat_sub_of_le _ _ (UInt32.le_iff_toNat_le.mpr (hfit .cores))

/-- Releasing is exact when the sum is a `uint32`. -/
theorem releaseResource_ok (hr : h.releaseResource p = .ok h')
    (hfit : ∀ r, h.node.available r + h.node.need p r < 2 ^ 32) :
    h'.app = h.app ∧
      Reaches h.node { h.node.pool with free := h.node.available + h.node.need p } h'.node := by
  simp only [releaseResource, bind_eq_ok, pure_eq_ok] at hr
  obtain ⟨f, hf, rfl⟩ := hr
  rw [ComputeNode.need_eq_demand hf] at hfit ⊢
  refine ⟨rfl, Scheduler.Pool.ext ?_ rfl, rfl, rfl⟩
  funext r
  cases r with
  | ram => exact (UInt32.toNat_add _ _).trans (Nat.mod_eq_of_lt (hfit .ram))
  | cores => exact (UInt32.toNat_add _ _).trans (Nat.mod_eq_of_lt (hfit .cores))

theorem frame_execute : Frame h.node (h.execute p).node := by
  cases p with
  | none => exact Frame.refl _
  | some k => exact ComputeNode.frame_update ComputeNode.demand_execute

theorem app_execute : (h.execute p).app = h.app := by
  cases p <;> rfl

/-- An execution is scheduled, and one pending entry of its interest is gone. -/
theorem app_doExecution (hd : h.doExecution t = .ok h') :
    h'.app = NfnProducerApp.deletePendingContentTableEntry
      { h.app with inProgress := h.app.inProgress ++ [t.job] } t := by
  simp only [doExecution, bookResource, bind_eq_ok, pure_eq_ok] at hd
  obtain ⟨h₁, ⟨f, -, rfl⟩, rfl⟩ := hd
  rw [app_execute]
  rfl

/-- `t` starts: its resources are booked, its end is scheduled, its pending entry is gone. -/
structure Starts (h : Host) (t : InterestComponentStruct) (h' : Host) : Prop where
  fits : h.node.need t.func ≤ h.node.available
  node : Reaches h.node { h.node.pool with free := h.node.available - h.node.need t.func } h'.node
  app : h'.app = NfnProducerApp.deletePendingContentTableEntry
    { h.app with inProgress := h.app.inProgress ++ [t.job] } t

theorem doExecution_starts (hd : h.doExecution t = .ok h')
    (hfit : h.node.need t.func ≤ h.node.available) : Starts h t h' := by
  have happ := app_doExecution hd
  simp only [doExecution, bind_eq_ok, pure_eq_ok] at hd
  obtain ⟨h₁, hb, rfl⟩ := hd
  exact ⟨hfit, (bookResource_ok hb hfit).2.frame frame_execute, happ⟩

/-! ## Forwarding -/

theorem raiseCost_eq (h : Host) :
    ∃ fib, h.raiseCost = { h with node := { h.node with fib := fib } } := by
  unfold raiseCost
  split
  · exact ⟨h.node.fib, rfl⟩
  · split
    · exact ⟨_, rfl⟩
    · exact ⟨h.node.fib, rfl⟩

/-- Where forwarding goes through, the function is there under the name that it carries. -/
theorem forwardInterest_eq (hf : h.forwardInterest t = .ok h') :
    ∃ f g, h.node.deref t.func = .ok f ∧
      h.node.funcMap.lookup f.computationName.toUri = some (some g) ∧
      h' = (Host.send ⟨if g.enableComputation then
          h.raiseCost.node.notifyFibFunctionDisable f.computationName.toUri else h.raiseCost.node,
        h.raiseCost.app⟩ (.interest t.interest)).restoreCost := by
  obtain ⟨fib, hraise⟩ := raiseCost_eq h
  simp only [forwardInterest, bind_eq_ok, pure_eq_ok] at hf
  obtain ⟨f, hderef, g, hg, rfl⟩ := hf
  have hmap : h.raiseCost.node.funcMap = h.node.funcMap := by rw [hraise]
  refine ⟨f, g, ?_, ?_⟩
  · rw [← hderef, hraise]
    cases t.func <;> rfl
  · -- the object is there, so the lookup changes nothing
    rcases ComputeNode.getFunction_cases (n := h.raiseCost.node) f.computationName.toUri with
      ⟨heq, f', hf'⟩ | ⟨hnone, -⟩
    · rw [heq, ComputeNode.deref_eq_ok, hf'] at hg
      cases hg
      rw [heq]
      exact ⟨hmap ▸ hf', rfl⟩
    · rw [hnone] at hg
      cases hg

/-- Forwarding edits the FIB of the node. -/
theorem forwardInterest_node (hf : h.forwardInterest t = .ok h') :
    ∃ fib, h'.node = { h.node with fib := fib } := by
  obtain ⟨f, g, -, -, rfl⟩ := forwardInterest_eq hf
  obtain ⟨fib, hraise⟩ := raiseCost_eq h
  rw [hraise]
  split
  · obtain ⟨fib', hfib⟩ := ComputeNode.notifyFibFunctionDisable_eq
      (n := { h.node with fib := fib }) f.computationName.toUri
    dsimp only
    rw [hfib]
    exact ⟨_, rfl⟩
  · exact ⟨_, rfl⟩

theorem forwardInterest_funcMap (hf : h.forwardInterest t = .ok h') :
    h'.node.funcMap = h.node.funcMap := by
  obtain ⟨fib, hnode⟩ := forwardInterest_node hf
  rw [hnode]

/-- Forwarding sends the interest. -/
theorem forwardInterest_app (hf : h.forwardInterest t = .ok h') :
    h'.app = h.app.send (.interest t.interest) := by
  obtain ⟨f, g, -, -, rfl⟩ := forwardInterest_eq hf
  obtain ⟨fib, hraise⟩ := raiseCost_eq h
  rw [hraise]
  rfl

/-- Forwarding edits the FIB and sends packets. -/
theorem forwardInterest_ok (hf : h.forwardInterest t = .ok h') :
    Frame h.node h'.node ∧ ∃ l, h'.app = { h.app with sent := l } := by
  obtain ⟨f, g, -, -, rfl⟩ := forwardInterest_eq hf
  obtain ⟨fib, hraise⟩ := raiseCost_eq h
  rw [hraise]
  refine ⟨?_, _, rfl⟩
  have hfib : Frame h.node { h.node with fib := fib } := ComputeNode.frame_fib fib
  split
  · exact (hfib.trans (ComputeNode.frame_notifyFibFunctionDisable _)).trans (ComputeNode.frame_fib _)
  · exact hfib.trans (ComputeNode.frame_fib _)

/-! ## Resolving an interest -/

/-- What the engine does to the node: it looks up one function, and counts a miss when it
forwards. -/
theorem getFetchDecisions_node {interest : Name} {n n' : ComputeNode}
    {q : NREDecision × List Name} (hg : getFetchDecisions cs interest n = .ok (n', q)) :
    (n' = n ∧ q.1 = .nack) ∨ ∃ funcName, extractFunctionName interest = some funcName ∧
      n' = if q.1 = .forward then
          (n.getFunction funcName.toUri).1.update funcName.toUri IncComputation.addMissExecCounter
        else (n.getFunction funcName.toUri).1 := by
  unfold getFetchDecisions at hg
  split at hg
  · cases hg
    exact Or.inl ⟨rfl, rfl⟩
  · split at hg
    · cases hg
    · next funcName hname =>
      refine Or.inr ⟨funcName, hname, ?_⟩
      dsimp only at hg
      rcases ComputeNode.getFunction_cases (n := n) funcName.toUri with ⟨hget, -⟩ | ⟨hnone, -⟩
      · rw [hget] at hg ⊢
        obtain ⟨f, -, hg⟩ := bind_eq_ok.mp hg
        split at hg
        · cases hg
          rfl
        · split at hg
          · cases hg
            rfl
          · split at hg <;>
            · cases hg
              rfl
      · rw [hnone] at hg
        cases hg
        rfl

theorem getFetchDecisions_frame {interest : Name} {n n' : ComputeNode}
    {q : NREDecision × List Name} (hg : getFetchDecisions cs interest n = .ok (n', q)) :
    Frame n n' := by
  obtain ⟨rfl, -⟩ | ⟨funcName, -, rfl⟩ := getFetchDecisions_node hg
  · exact Frame.refl _
  · split_ifs
    · exact (ComputeNode.frame_getFunction _).trans
        (ComputeNode.frame_update ComputeNode.demand_addMissExecCounter)
    · exact ComputeNode.frame_getFunction _

theorem resolve_frame {n n' : ComputeNode} {q : NREDecision × List Name}
    (hr : resolve cs t n = .ok (n', q)) : Frame n n' := by
  simp only [resolve, bind_eq_ok, pure_eq_ok] at hr
  obtain ⟨⟨n₁, q₁⟩, hg, f, _, hn⟩ := hr
  cases hn
  exact getFetchDecisions_frame hg

/-- What resolving the interest of `t` can end in. -/
inductive Resolved (h : Host) (t : InterestComponentStruct) : Host → Prop
  /-- the interest is refused or sent on -/
  | passOn {node : ComputeNode} (l : List Packet) (hn : Frame h.node node) :
      Resolved h t ⟨node, { h.app with sent := l }⟩
  /-- the names that are missing are requested -/
  | fetch {node : ComputeNode} (names : List Name) (hn : Frame h.node node) :
      Resolved h t ⟨node, h.app.fetch t names⟩
  /-- the execution starts -/
  | start {h' : Host} (hs : Starts h t h') : Resolved h t h'
  /-- the resources do not suffice and `t` waits -/
  | wait {node : ComputeNode} (hfit : ¬ h.node.need t.func ≤ h.node.available)
      (hfull : h.node.pool.fill ≠ h.node.queueSize.toNat)
      (hn : Reaches h.node { h.node.pool with
        fill := Scheduler.countUp h.node.queueSize.toNat h.node.pool.fill } node) :
      Resolved h t ⟨node, { h.app with waitingList := h.app.waitingList ++ [t] }⟩

/-- Steps that leave pool and demands alone may come first. -/
theorem Resolved.of_frame {node : ComputeNode} (hn : Frame h.node node)
    (hr : Resolved ⟨node, h.app⟩ t h') : Resolved h t h' := by
  have hpool : node.pool = h.node.pool := hn.pool
  have havail : node.available = h.node.available := congrArg Scheduler.Pool.free hpool
  cases hr with
  | passOn l hn' => exact .passOn l (hn.trans hn')
  | fetch names hn' => exact .fetch names (hn.trans hn')
  | start hs =>
    obtain ⟨hfit, hnode, happ⟩ := hs
    dsimp only at hfit hnode happ
    rw [hn.need, havail] at hfit
    rw [hpool, hn.need, havail] at hnode
    exact .start ⟨hfit, Reaches.trans hn hnode, happ⟩
  | wait hfit hfull hn' =>
    dsimp only at hfit hfull hn'
    rw [hn.need, havail] at hfit
    rw [hpool, hn.queueSize] at hfull hn'
    exact .wait hfit hfull (Reaches.trans hn hn')

/-- An execution starts, or the queue is full, and `QUEUE_ACTION` says to forward, or it waits. -/
theorem executeOrQueue_ok (he : h.executeOrQueue now t = .ok h') :
    h.checkResource t.func = .ok true ∧ h.doExecution t = .ok h' ∨
      h.checkResource t.func = .ok false ∧
        (h.node.isQueueFull = true ∧
            Host.forwardInterest { h with node := h.node.addNodeBusyCounter } t = .ok h' ∨
          ¬ h.node.isQueueFull = true ∧
            h' = ⟨(h.node.incrementQueueFill now).1,
              { h.app with waitingList := h.app.waitingList ++ [t] }⟩) := by
  obtain ⟨b, hc, he⟩ := bind_eq_ok.mp he
  cases b with
  | true => exact Or.inl ⟨hc, he⟩
  | false =>
    refine Or.inr ⟨hc, ?_⟩
    rw [if_neg Bool.false_ne_true] at he
    split at he
    · next hfull => exact Or.inl ⟨hfull, he⟩
    · next hfull =>
      cases he
      exact Or.inr ⟨hfull, rfl⟩

theorem executeOrQueue_cases (he : h.executeOrQueue now t = .ok h') : Resolved h t h' := by
  obtain ⟨hc, hd⟩ | ⟨hc, hcase⟩ := executeOrQueue_ok he
  · exact .start (doExecution_starts hd ((checkResource_ok hc).mp rfl))
  · have hfit : ¬ h.node.need t.func ≤ h.node.available :=
      fun hle => Bool.false_ne_true ((checkResource_ok hc).mpr hle)
    obtain ⟨-, hf⟩ | ⟨hfull, rfl⟩ := hcase
    · obtain ⟨hn, l, happ⟩ := forwardInterest_ok hf
      obtain ⟨node, app⟩ := h'
      dsimp only at hn happ
      subst happ
      exact .passOn l (ComputeNode.frame_addNodeBusyCounter.trans hn)
    · refine .wait hfit (fun hfill => hfull ?_) (ComputeNode.reaches_incrementQueueFill now)
      exact beq_iff_eq.mpr (UInt32.toNat_inj.mp hfill)

/-- **Everything that `ResolveAndHandleDecisions` can do.** -/
theorem resolveAndHandleDecisions_cases (hr : h.resolveAndHandleDecisions now cs t = .ok h') :
    Resolved h t h' := by
  simp only [resolveAndHandleDecisions, bind_eq_ok] at hr
  obtain ⟨⟨node, decision, names⟩, hres, hr⟩ := hr
  have hn := resolve_frame hres
  dsimp only at hr
  cases decision with
  | nack =>
    cases hr
    exact .passOn _ hn
  | fetch =>
    cases hr
    exact .fetch names hn
  | forward =>
    obtain ⟨hn', l, happ⟩ := forwardInterest_ok hr
    obtain ⟨node', app⟩ := h'
    dsimp only at hn' happ
    subst happ
    exact .passOn l (hn.trans hn')
  | execute => exact (executeOrQueue_cases hr).of_frame hn

/-! ## The desk of an app -/

/-- The app and its node as a desk of the scheduler and its pool. -/
def desk (h : Host) : Scheduler.Pool Resource × Scheduler.Desk Execution :=
  (h.node.pool, ⟨h.app.waitingList.map InterestComponentStruct.job, h.app.inProgress⟩)

/-- From `h` to `h'` the desk takes jobs, and the queue size and the demands stay. -/
structure Accepts (h h' : Host) : Prop where
  queueSize : h'.node.queueSize = h.node.queueSize
  need : h'.node.need = h.node.need
  desk : ReflTransGen (Scheduler.Accept h.node.jobNeed h.node.queueSize.toNat) h.desk h'.desk

namespace Accepts

variable {h'' : Host}

theorem trans (ha : Accepts h h') (hb : Accepts h' h'') : Accepts h h'' := by
  refine ⟨hb.queueSize.trans ha.queueSize, hb.need.trans ha.need, ha.desk.trans ?_⟩
  have hdesk := hb.desk
  rwa [ha.queueSize, show h'.node.jobNeed = h.node.jobNeed by
    funext e; exact congrFun ha.need e.func] at hdesk

theorem of_frame (hn : Frame h.node h'.node) (hw : h'.app.waitingList = h.app.waitingList)
    (hp : h'.app.inProgress = h.app.inProgress) : Accepts h h' := by
  refine ⟨hn.queueSize, hn.need, ?_⟩
  have hdesk : h'.desk = h.desk := by rw [Host.desk, Host.desk, hn.pool, hw, hp]
  rw [hdesk]

theorem refl (h : Host) : Accepts h h := of_frame (Frame.refl _) rfl rfl

end Accepts

theorem fetch_lists (a : NfnProducerApp) (t : InterestComponentStruct) (names : List Name) :
    (a.fetch t names).active = a.active ∧ (a.fetch t names).waitingList = a.waitingList ∧
      (a.fetch t names).inProgress = a.inProgress := by
  have hfold : ∀ q : NfnProducerApp × InterestComponentStruct,
      (names.foldl NfnProducerApp.fetchName q).1.active = q.1.active ∧
      (names.foldl NfnProducerApp.fetchName q).1.waitingList = q.1.waitingList ∧
      (names.foldl NfnProducerApp.fetchName q).1.inProgress = q.1.inProgress := by
    induction names with
    | nil => exact fun q => ⟨rfl, rfl, rfl⟩
    | cons d names ih =>
      intro q
      obtain ⟨ha, hw, hp⟩ := ih (NfnProducerApp.fetchName q d)
      rw [List.foldl_cons, ha, hw, hp]
      unfold NfnProducerApp.fetchName
      dsimp only
      split <;> exact ⟨rfl, rfl, rfl⟩
  exact hfold (a, t)

theorem Starts.accept (hs : Starts h t h') :
    Scheduler.Accept h.node.jobNeed h.node.queueSize.toNat h.desk h'.desk := by
  have hdesk : h'.desk = ({ h.node.pool with free := h.node.pool.free - h.node.jobNeed t.job },
      { h.desk.2 with running := h.desk.2.running ++ [t.job] }) := by
    rw [desk, hs.node.pool, hs.app]
    rfl
  rw [hdesk]
  exact .start t.job hs.fits

theorem Resolved.accepts (hr : Resolved h t h') : Accepts h h' := by
  cases hr with
  | passOn l hn => exact Accepts.of_frame hn rfl rfl
  | fetch names hn => exact Accepts.of_frame hn (fetch_lists _ _ _).2.1 (fetch_lists _ _ _).2.2
  | start hs => exact ⟨hs.node.queueSize, hs.node.need, .single hs.accept⟩
  | @wait node hfit hfull hn =>
    refine ⟨hn.queueSize, hn.need, .single ?_⟩
    have hdesk : desk ⟨node, { h.app with waitingList := h.app.waitingList ++ [t] }⟩ =
        ({ h.node.pool with fill := Scheduler.countUp h.node.queueSize.toNat h.node.pool.fill },
          { h.desk.2 with queue := h.desk.2.queue ++ [t.job] }) := by
      rw [desk, hn.pool, List.map_append]
      rfl
    rw [hdesk]
    exact .enqueue t.job hfit hfull

/-! ## Arrivals -/

theorem findFunction_frame (n : ComputeNode) (func : Ptr) (l : List Str) :
    Frame n (findFunction n func l).1 := by
  induction l generalizing n func with
  | nil => exact Frame.refl n
  | cons c l ih =>
    rw [findFunction]
    split
    · exact (ComputeNode.frame_getFunction _).trans (ih _ _)
    · exact ih n func

/-- Everything that an arriving interest can do. -/
theorem onInterest_cases {name : Name} (ho : h.onInterest now cs name = .ok h') :
    h.app.active = false ∧ h' = h ∨ h.app.active = true ∧
      (name.getSubName 0 1 = ⟨[lambdaComp]⟩ ∧
          Host.resolveAndHandleDecisions ⟨(findFunction h.node none name.comps).1, h.app⟩ now cs
            ⟨name, (findFunction h.node none name.comps).2, []⟩ = .ok h' ∨
        name.getSubName 0 1 ≠ ⟨[lambdaComp]⟩ ∧
          (name.getSubName 0 1 = ⟨[functionComp]⟩ ∧
              h'.node = (h.node.getFunction (name.getSubName 1 1).toUri).1 ∧
              (h'.app = h.app ∨ h'.app = h.app.send (.data name)) ∨
            name.getSubName 0 1 ≠ ⟨[functionComp]⟩ ∧ h' = h.send (.data name))) := by
  unfold onInterest at ho
  split at ho
  · next hactive =>
    cases ho
    exact Or.inl ⟨by simpa using hactive, rfl⟩
  · next hactive =>
    refine Or.inr ⟨by simpa using hactive, ?_⟩
    split at ho
    · next hlambda => exact Or.inl ⟨hlambda, ho⟩
    · next hlambda =>
      refine Or.inr ⟨hlambda, ?_⟩
      split at ho
      · next hfunction =>
        refine Or.inl ⟨hfunction, ?_⟩
        dsimp only at ho
        split at ho
        · cases ho
          exact ⟨rfl, Or.inl rfl⟩
        · obtain ⟨f, -, ho⟩ := bind_eq_ok.mp ho
          cases ho
          split
          · exact ⟨rfl, Or.inr rfl⟩
          · exact ⟨rfl, Or.inl rfl⟩
      · next hfunction =>
        cases ho
        exact Or.inr ⟨hfunction, rfl⟩

theorem onInterest_accepts {name : Name} (ho : h.onInterest now cs name = .ok h') :
    Accepts h h' := by
  obtain ⟨-, rfl⟩ | ⟨-, ⟨-, hr⟩ | ⟨-, ⟨-, hnode, happ⟩ | ⟨-, rfl⟩⟩⟩ := onInterest_cases ho
  · exact Accepts.refl _
  · exact ((resolveAndHandleDecisions_cases hr).of_frame
      (findFunction_frame h.node none name.comps)).accepts
  · have hget : Frame h.node h'.node := by
      rw [hnode]
      exact ComputeNode.frame_getFunction _
    rcases happ with happ | happ
    · exact Accepts.of_frame hget (by rw [happ]) (by rw [happ])
    · exact Accepts.of_frame hget (by rw [happ]; rfl) (by rw [happ]; rfl)
  · exact Accepts.of_frame (Frame.refl _) rfl rfl

/-- Code drag enables the function, or drops the entry. -/
theorem codeDrag_cases {d : Name} {goOn : Bool} (hc : h.codeDrag d t = .ok (h', goOn)) :
    Frame h.node h'.node ∧ (h'.app = h.app ∧ goOn = true ∨
      h'.app = h.app.deletePendingContentTableEntry t ∧ goOn = false) := by
  unfold codeDrag at hc
  split at hc
  · simp only [bind_eq_ok] at hc
    obtain ⟨⟨node, enabled⟩, he, hc⟩ := hc
    have hn := ComputeNode.frame_enableFunction he
    dsimp only at hc
    split at hc
    · cases hc
      exact ⟨hn, Or.inl ⟨rfl, rfl⟩⟩
    · cases hc
      exact ⟨hn, Or.inr ⟨rfl, rfl⟩⟩
  · cases hc
    exact ⟨Frame.refl _, Or.inl ⟨rfl, rfl⟩⟩

/-- The flag of `d` is set in entry `i`. -/
def mark (h : Host) (d : Name) (i : ℕ) (t : InterestComponentStruct) : Host :=
  { h with app := { h.app with
      pendingContentTable := h.app.pendingContentTable.set i (t.setArg d true) } }

/-- Everything that the flag of `d` in entry `i` can lead to. -/
theorem setPending_cases {d : Name} {i : ℕ} (hs : h.setPending now cs d i t = .ok h') :
    t.pendingArgs.lookup d ≠ some false ∧ h' = h ∨
      t.pendingArgs.lookup d = some false ∧
        (¬ (t.setArg d true).pendingArgs.all (fun q => q.2) = true ∧ h' = h.mark d i t ∨
          (t.setArg d true).pendingArgs.all (fun q => q.2) = true ∧
            (h.mark d i t).resolveAndHandleDecisions now cs (t.setArg d true) = .ok h') := by
  unfold setPending at hs
  split at hs
  · next hw =>
    dsimp only at hs
    split at hs
    · next hall => exact Or.inr ⟨hw, Or.inr ⟨hall, hs⟩⟩
    · next hall =>
      cases hs
      exact Or.inr ⟨hw, Or.inl ⟨hall, rfl⟩⟩
  · next hw =>
    cases hs
    exact Or.inl ⟨hw, rfl⟩

/-- Everything that one round of the loop can do. -/
theorem visitEntry_cases {d : Name} {i : ℕ} (hv : h.visitEntry now cs d i = .ok h') :
    ∃ t, h.app.pendingContentTable[i]? = some t ∧
      (¬ t.pendingArgs.any (fun q => q.1 = d) = true ∧ h' = h ∨
        t.pendingArgs.any (fun q => q.1 = d) = true ∧
          ((∃ g, h.codeDrag d t = .ok (g, true) ∧ g.setPending now cs d i t = .ok h') ∨
            h.codeDrag d t = .ok (h', false))) := by
  unfold visitEntry at hv
  rcases ht : h.app.pendingContentTable[i]? with _ | t
  · rw [ht] at hv
    cases hv
  · rw [ht] at hv
    dsimp only at hv
    refine ⟨t, rfl, ?_⟩
    split at hv
    · next hkey =>
      obtain ⟨⟨g, goOn⟩, hc, hv⟩ := bind_eq_ok.mp hv
      cases goOn with
      | true => exact Or.inr ⟨hkey, Or.inl ⟨g, hc, hv⟩⟩
      | false =>
        cases hv
        exact Or.inr ⟨hkey, Or.inr hc⟩
    · next hkey =>
      cases hv
      exact Or.inl ⟨hkey, rfl⟩

theorem codeDrag_accepts {d : Name} {goOn : Bool} (hc : h.codeDrag d t = .ok (h', goOn)) :
    Accepts h h' := by
  obtain ⟨hn, ⟨happ, -⟩ | ⟨happ, -⟩⟩ := codeDrag_cases hc
  · exact Accepts.of_frame hn (by rw [happ]) (by rw [happ])
  · exact Accepts.of_frame hn (by rw [happ]; rfl) (by rw [happ]; rfl)

theorem setPending_accepts {d : Name} {i : ℕ} (hs : h.setPending now cs d i t = .ok h') :
    Accepts h h' := by
  have hmark : Accepts h (h.mark d i t) := Accepts.of_frame (Frame.refl _) rfl rfl
  obtain ⟨-, rfl⟩ | ⟨-, ⟨-, rfl⟩ | ⟨-, hr⟩⟩ := setPending_cases hs
  · exact Accepts.refl _
  · exact hmark
  · exact hmark.trans (resolveAndHandleDecisions_cases hr).accepts

theorem visitEntry_accepts {d : Name} {i : ℕ} (hv : h.visitEntry now cs d i = .ok h') :
    Accepts h h' := by
  obtain ⟨t, -, ⟨-, rfl⟩ | ⟨-, ⟨g, hc, hs⟩ | hc⟩⟩ := visitEntry_cases hv
  · exact Accepts.refl _
  · exact (codeDrag_accepts hc).trans (setPending_accepts hs)
  · exact codeDrag_accepts hc

theorem visitEntries_accepts {cs : ℕ → ContentStore} {d : Name} {i : ℕ}
    (hv : visitEntries now cs d i h = .ok h') : Accepts h h' := by
  induction i generalizing h with
  | zero =>
    cases hv
    exact Accepts.refl h'
  | succ i ih =>
    simp only [visitEntries, bind_eq_ok] at hv
    obtain ⟨h₁, h₁', hv⟩ := hv
    exact (visitEntry_accepts h₁').trans (ih hv)

theorem onData_accepts {cs : ℕ → ContentStore} {d : Name} (ho : h.onData now cs d = .ok h') :
    Accepts h h' := by
  unfold onData at ho
  split at ho
  · cases ho
    exact Accepts.refl h
  · have hdel : Accepts h { h with app := { h.app with
        sendingInterestList := h.app.sendingInterestList.filter fun s => s ≠ d } } :=
      Accepts.of_frame (Frame.refl _) rfl rfl
    exact hdel.trans (visitEntries_accepts ho)

/-! ## The end of an execution -/

theorem serveQueue_cases (hs : h.serveQueue now = .ok h') :
    ∃ t rest, h.app.waitingList = t :: rest ∧
      (h.checkResource t.func = .ok true ∧
          Host.doExecution ⟨(h.node.decrementQueueFill now).1, { h.app with waitingList := rest }⟩ t =
            .ok h' ∨
        h.checkResource t.func = .ok false ∧ h' = h) := by
  unfold serveQueue at hs
  split at hs
  · cases hs
  · next t rest hw =>
    obtain ⟨b, hc, hs⟩ := bind_eq_ok.mp hs
    refine ⟨t, rest, hw, ?_⟩
    cases b with
    | true => exact Or.inl ⟨hc, hs⟩
    | false =>
      cases hs
      exact Or.inr ⟨hc, rfl⟩

theorem scheduledExecutionEnd_cases {e : Execution}
    (hs : h.scheduledExecutionEnd now e = .ok h') :
    ∃ g, h.releaseResource e.func = .ok g ∧
      (g.node.isQueueEmpty = true ∧ h' = g.send (.data e.data) ∨
        ¬ g.node.isQueueEmpty = true ∧ (g.send (.data e.data)).serveQueue now = .ok h') := by
  obtain ⟨g, hr, hs⟩ := bind_eq_ok.mp hs
  refine ⟨g, hr, ?_⟩
  dsimp only at hs
  split at hs
  · next hq =>
    cases hs
    exact Or.inl ⟨hq, rfl⟩
  · next hq => exact Or.inr ⟨hq, hs⟩

theorem executionEnd_cases {k : ℕ} (hs : h.step (.executionEnd now k) = .ok h') :
    ∃ e, h.app.inProgress[k]? = some e ∧
      Host.scheduledExecutionEnd
        { h with app := { h.app with inProgress := h.app.inProgress.eraseIdx k } } now e =
          .ok h' := by
  unfold step at hs
  dsimp only at hs
  split at hs
  · cases hs
  · next e he => exact ⟨e, he, hs⟩

theorem serveQueue_serve (hs : h.serveQueue now = .ok h') (h₀ : h.node.pool.fill ≠ 0) :
    h'.node.queueSize = h.node.queueSize ∧ h'.node.need = h.node.need ∧
      Scheduler.Serve h.node.jobNeed h.desk h'.desk := by
  obtain ⟨t, rest, hw, hcase⟩ := serveQueue_cases hs
  have hq : h.desk.2.queue = t.job :: rest.map InterestComponentStruct.job := by
    rw [desk, hw, List.map_cons]
  obtain ⟨hc, hd⟩ | ⟨hc, rfl⟩ := hcase
  · have hfit := (checkResource_ok hc).mp rfl
    have hdec := ComputeNode.reaches_decrementQueueFill (n := h.node) now h₀
    have havail : (h.node.decrementQueueFill now).1.available = h.node.available :=
      congrArg Scheduler.Pool.free hdec.pool
    have hst := doExecution_starts hd (by
      dsimp only
      rwa [hdec.need, havail])
    obtain ⟨-, hnode, happ⟩ := hst
    dsimp only at hnode happ
    rw [hdec.need, havail, hdec.pool] at hnode
    refine ⟨hnode.queueSize.trans hdec.queueSize, hnode.need.trans hdec.need, ?_⟩
    have hdesk : h'.desk = (⟨h.node.pool.free - h.node.jobNeed t.job, h.node.pool.fill - 1⟩,
        ⟨rest.map InterestComponentStruct.job, h.desk.2.running ++ [t.job]⟩) := by
      rw [desk, hnode.pool, happ]
      rfl
    rw [hdesk]
    exact .serve h₀ hq hfit
  · have hmem := hq ▸ List.mem_cons_self
    refine ⟨rfl, rfl, .hold h₀ hmem fun hle => ?_⟩
    exact Bool.false_ne_true ((checkResource_ok hc).mpr hle)

theorem isQueueEmpty_iff {n : ComputeNode} : n.isQueueEmpty = true ↔ n.pool.fill = 0 := by
  rw [ComputeNode.isQueueEmpty, beq_iff_eq, ← UInt32.toNat_inj]
  rfl

/-- **One event of an app is one move of its desk**, when no running job holds more than the node
can take back. -/
theorem step_move {e : Event} (hs : h.step e = .ok h')
    (hfit : ∀ x ∈ h.app.inProgress, ∀ r, h.node.available r + h.node.need x.func r < 2 ^ 32) :
    h'.node.queueSize = h.node.queueSize ∧ h'.node.need = h.node.need ∧
      Scheduler.Move h.node.jobNeed h.node.queueSize.toNat h.desk h'.desk := by
  cases e with
  | interest now cs name =>
    have ha := onInterest_accepts hs
    exact ⟨ha.queueSize, ha.need, .accept ha.desk⟩
  | data now cs name =>
    have ha := onData_accepts hs
    exact ⟨ha.queueSize, ha.need, .accept ha.desk⟩
  | executionEnd now k =>
    obtain ⟨x, hx, hs⟩ := executionEnd_cases hs
    obtain ⟨hk, rfl⟩ := List.getElem?_eq_some_iff.mp hx
    obtain ⟨h₁, hr, hcase⟩ := scheduledExecutionEnd_cases hs
    obtain ⟨happ, hnode⟩ := releaseResource_ok hr (hfit _ (List.getElem_mem hk))
    -- the desk between the release and the look at the queue
    have hmid : (h₁.send (.data h.app.inProgress[k].data)).desk =
        ({ h.node.pool with free := h.node.pool.free + h.node.jobNeed h.app.inProgress[k] },
          { h.desk.2 with running := h.app.inProgress.eraseIdx k }) := by
      rw [desk, send, hnode.pool, happ]
      rfl
    have hrel : Scheduler.Release h.node.jobNeed h.desk
        (h₁.send (.data h.app.inProgress[k].data)).desk := by
      rw [hmid]
      exact .intro (List.getElem_cons_eraseIdx_perm hk).symm
    have hneed : h₁.node.jobNeed = h.node.jobNeed := by
      funext e
      exact congrFun hnode.need e.func
    obtain ⟨hq, rfl⟩ | ⟨hq, hs⟩ := hcase
    · exact ⟨hnode.queueSize, hnode.need, .finish hrel (.idle (isQueueEmpty_iff.mp hq))⟩
    · obtain ⟨hqs, hnd, hsv⟩ := serveQueue_serve hs fun h₀ => hq (isQueueEmpty_iff.mpr h₀)
      refine ⟨hqs.trans hnode.queueSize, hnd.trans hnode.need, .finish hrel ?_⟩
      rw [← hneed]
      exact hsv

/-! ## Faults -/

theorem deref_ne_emptyQueue (n : ComputeNode) (p : Ptr) : n.deref p ≠ .error .emptyQueue := by
  cases p with
  | none => simp [ComputeNode.deref]
  | some k =>
    rw [ComputeNode.deref_some_eq]
    cases (n.funcMap.lookup k).join <;> simp

theorem forwardInterest_ne_emptyQueue : h.forwardInterest t ≠ .error .emptyQueue := by
  refine bind_ne_error (deref_ne_emptyQueue _ _) fun f _ => ?_
  exact bind_ne_error (deref_ne_emptyQueue _ _) fun g _ => ok_ne_error

theorem getFetchDecisions_ne_emptyQueue (interest : Name) (n : ComputeNode) :
    getFetchDecisions cs interest n ≠ .error .emptyQueue := by
  unfold getFetchDecisions
  split
  · exact ok_ne_error
  · split
    · simp
    · dsimp only
      split
      · exact ok_ne_error
      · refine bind_ne_error (deref_ne_emptyQueue _ _) fun f _ => ?_
        repeat' split
        all_goals exact ok_ne_error

theorem doExecution_ne_emptyQueue : h.doExecution t ≠ .error .emptyQueue :=
  bind_ne_error (bind_ne_error (deref_ne_emptyQueue _ _) fun _ _ => ok_ne_error)
    fun _ _ => ok_ne_error

theorem checkResource_ne_emptyQueue : h.checkResource p ≠ .error .emptyQueue :=
  bind_ne_error (deref_ne_emptyQueue _ _) fun _ _ => ok_ne_error

theorem resolveAndHandleDecisions_ne_emptyQueue :
    h.resolveAndHandleDecisions now cs t ≠ .error .emptyQueue := by
  refine bind_ne_error ?_ fun q _ => ?_
  · refine bind_ne_error (getFetchDecisions_ne_emptyQueue _ _) fun q _ => ?_
    exact bind_ne_error (deref_ne_emptyQueue _ _) fun _ _ => ok_ne_error
  · obtain ⟨node, decision, names⟩ := q
    cases decision with
    | nack => exact ok_ne_error
    | fetch => exact ok_ne_error
    | forward => exact forwardInterest_ne_emptyQueue
    | execute =>
      refine bind_ne_error checkResource_ne_emptyQueue fun b _ => ?_
      split
      · exact doExecution_ne_emptyQueue
      · split
        · exact forwardInterest_ne_emptyQueue
        · exact ok_ne_error

theorem onInterest_ne_emptyQueue {name : Name} : h.onInterest now cs name ≠ .error .emptyQueue := by
  unfold onInterest
  split
  · exact ok_ne_error
  · split
    · exact resolveAndHandleDecisions_ne_emptyQueue
    · split
      · dsimp only
        split
        · exact ok_ne_error
        · exact bind_ne_error (deref_ne_emptyQueue _ _) fun _ _ => ok_ne_error
      · exact ok_ne_error

theorem enableFunction_ne_emptyQueue (n : ComputeNode) (f : Str) :
    n.enableFunction f ≠ .error .emptyQueue := by
  unfold ComputeNode.enableFunction
  split <;> simp

theorem visitEntry_ne_emptyQueue {d : Name} {i : ℕ} :
    h.visitEntry now cs d i ≠ .error .emptyQueue := by
  unfold visitEntry
  split
  · simp
  · split
    · refine bind_ne_error ?_ fun q _ => ?_
      · unfold codeDrag
        split
        · refine bind_ne_error (enableFunction_ne_emptyQueue _ _) fun q _ => ?_
          dsimp only
          split <;> exact ok_ne_error
        · exact ok_ne_error
      · dsimp only
        split
        · unfold setPending
          split
          · dsimp only
            split
            · exact resolveAndHandleDecisions_ne_emptyQueue
            · exact ok_ne_error
          · exact ok_ne_error
        · exact ok_ne_error
    · exact ok_ne_error

theorem visitEntries_ne_emptyQueue {cs : ℕ → ContentStore} {d : Name} {i : ℕ} :
    visitEntries now cs d i h ≠ .error .emptyQueue := by
  induction i generalizing h with
  | zero => exact ok_ne_error
  | succ i ih => exact bind_ne_error visitEntry_ne_emptyQueue fun _ _ => ih

theorem serveQueue_ne_emptyQueue (hw : h.app.waitingList ≠ []) :
    h.serveQueue now ≠ .error .emptyQueue := by
  unfold serveQueue
  split
  · exact absurd ‹_› hw
  · refine bind_ne_error checkResource_ne_emptyQueue fun b _ => ?_
    split
    · exact doExecution_ne_emptyQueue
    · exact ok_ne_error

theorem releaseResource_keeps (hr : h.releaseResource p = .ok h') :
    h'.app = h.app ∧ h'.node.queueFill = h.node.queueFill := by
  simp only [releaseResource, bind_eq_ok, pure_eq_ok] at hr
  obtain ⟨f, -, rfl⟩ := hr
  exact ⟨rfl, rfl⟩

/-- **Only the end of an execution can reach for an empty queue**: when the fill counter is not
zero and no computation of the app waits. -/
theorem step_ne_emptyQueue {e : Event}
    (hq : ∀ now k, e = .executionEnd now k → k < h.app.inProgress.length →
      h.node.isQueueEmpty = false → h.app.waitingList ≠ []) :
    h.step e ≠ .error .emptyQueue := by
  cases e with
  | interest now cs name => exact onInterest_ne_emptyQueue
  | data now cs name =>
    unfold step onData
    dsimp only
    split
    · exact ok_ne_error
    · exact visitEntries_ne_emptyQueue
  | executionEnd now k =>
    have hq := hq now k rfl
    unfold step
    dsimp only
    split
    · simp
    · next x hx =>
      have hq := hq (List.getElem?_eq_some_iff.mp hx).1
      refine bind_ne_error (bind_ne_error (deref_ne_emptyQueue _ _) fun _ _ => ok_ne_error) ?_
      intro h₁ hr
      obtain ⟨happ, hfill⟩ := releaseResource_keeps hr
      dsimp only
      split
      · exact ok_ne_error
      · next hempty =>
        refine serveQueue_ne_emptyQueue ?_
        show h₁.app.waitingList ≠ []
        rw [happ]
        refine hq (Bool.eq_false_of_not_eq_true ?_)
        change ¬ (h₁.node.queueFill == 0) = true at hempty
        rwa [hfill] at hempty

end Host

end IncSim
