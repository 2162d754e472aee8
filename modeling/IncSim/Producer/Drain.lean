import IncSim.Node.SwitchEffect
import IncSim.Producer.Allowed
import IncSim.Producer.Ledger
import IncSim.Producer.Sharing

/-!
# An app that comes to rest

What happens when nothing arrives any more: the executions in progress end, in any order, and the end
of an execution starts at most one computation that waits.

* `AdmitsSwitch`, `Host.commandedStep_cases`: what a switch command does to a node.
* `Host.Live`: the functions of all computations are there. `Fed.commanded`, `Live.commanded`: both
  invariants are kept by app events and switch commands.
* `due`, `executionEnd_due`: the answers that an app still owes, and the one that an end pays.
* `exists_executionEnd`: no end of an execution fails.
* **`queue_drains`**: the answers are sent one by one, and then the node is as it was in the beginning.
-/

namespace IncSim

open PartialRun

/-! ## Switch commands -/

namespace ComputeNode

/-- A relation between a node before and after something that the two switches respect. -/
structure AdmitsSwitch (R : ComputeNode → ComputeNode → Prop) : Prop where
  refl : ∀ n, R n n
  trans : ∀ {n n' n''}, R n n' → R n' n'' → R n n''
  on : ∀ {n n' : ComputeNode} {f b}, n.switchOn f = .ok (n', b) → R n n'
  off : ∀ {n n' : ComputeNode} {f b}, n.switchOff f = .ok (n', b) → R n n'

variable {n n' : ComputeNode} {R : ComputeNode → ComputeNode → Prop}

theorem need_eq_of_same (h : Same IncComputation.demand n n') : n'.need = n.need := by
  funext p
  cases p with
  | none => rfl
  | some k => rw [need_some, need_some, h k]

theorem demand_disable (f : IncComputation) : f.disable.demand = f.demand := by
  funext r
  cases r <;> rfl

theorem fixed_demand : Fixed IncComputation.demand where
  execute := demand_execute
  addMiss := demand_addMissExecCounter
  enable := demand_enable
  disable := demand_disable

theorem admitsSwitch_same {α : Type} {attr : IncComputation → α} (ha : Fixed attr) :
    AdmitsSwitch (Same attr) :=
  ⟨Same.refl attr, Same.trans, switchOn_same ha, switchOff_same ha⟩

/-- Nothing is booked, released or queued by a switch. -/
theorem admitsSwitch_frame : AdmitsSwitch Frame where
  refl := Frame.refl
  trans := Frame.trans
  on {n n' f b} h := by
    have hneed := need_eq_of_same (switchOn_same fixed_demand h)
    have hswitch : switch .enable n f = .ok (n', b) := h
    have hrecord := (switch_eq hswitch).2
    constructor
    · rw [hrecord]
      rfl
    · rw [hrecord]
    · exact hneed
  off {n n' f b} h := by
    have hneed := need_eq_of_same (switchOff_same fixed_demand h)
    have hswitch : switch .disable n f = .ok (n', b) := h
    have hrecord := (switch_eq hswitch).2
    constructor
    · rw [hrecord]
      rfl
    · rw [hrecord]
    · exact hneed

theorem AdmitsSwitch.ndn (hR : AdmitsSwitch R) {interest : Name}
    (hs : n.switchCommandStep interest = .ok n') : R n n' := by
  rw [switchCommandStep, map_eq_ok] at hs
  obtain ⟨⟨m, reply⟩, hs, rfl⟩ := hs
  obtain ⟨⟨m', flag⟩, hloop, hm⟩ := bind_eq_ok.mp hs
  cases hm
  refine run_invariant (P := fun q : ComputeNode × Option Bool => R n q.1)
    (fun q k q' hq hround => hR.trans hq ?_) (hR.refl n) hloop
  rcases ndnSwitchRound_cases hround with ⟨-, b, hon⟩ | ⟨-, b, hoff⟩ | ⟨-, -, rfl⟩
  · exact hR.on hon
  · exact hR.off hoff
  · exact hR.refl _

theorem AdmitsSwitch.udpLoop (hR : AdmitsSwitch R) {operation : Str} {tokens : List Str}
    {q q' : ComputeNode × Bool} (hs : udpSwitchLoop operation q tokens = .ok q') : R q.1 q'.1 := by
  induction tokens generalizing q with
  | nil => cases hs
  | cons token tokens ih =>
    cases tokens with
    | nil =>
      cases hs
      exact hR.refl _
    | cons token' tokens =>
      unfold udpSwitchLoop at hs
      split_ifs at hs
      · obtain ⟨q₁, hq, hs⟩ := bind_eq_ok.mp hs
        exact hR.trans (hR.on hq) (ih hs)
      · obtain ⟨q₁, hq, hs⟩ := bind_eq_ok.mp hs
        exact hR.trans (hR.off hq) (ih hs)
      · exact ih hs

end ComputeNode

open ComputeNode (Same Frame AdmitsSwitch)

namespace Host

variable {h h' : Host} {t : InterestComponentStruct} {now : Time} {k : ℕ}

/-- An event of the app, or a switch command, which leaves the app alone. -/
theorem commandedStep_cases {e : Commanded} (hs : h.commandedStep e = .ok h') :
    (∃ e', h.step e' = .ok h') ∨
      h'.app = h.app ∧ ∀ R : ComputeNode → ComputeNode → Prop, AdmitsSwitch R → R h.node h'.node := by
  cases e with
  | app e => exact Or.inl ⟨e, hs⟩
  | ndnSwitch interest =>
    obtain ⟨node, hnode, hs⟩ := bind_eq_ok.mp hs
    cases hs
    exact Or.inr ⟨rfl, fun R hR => hR.ndn hnode⟩
  | udpSwitch packet_data =>
    obtain ⟨⟨node, reply⟩, hnode, hs⟩ := bind_eq_ok.mp hs
    cases hs
    obtain ⟨⟨m, flag⟩, hloop, hm⟩ := bind_eq_ok.mp hnode
    cases hm
    exact Or.inr ⟨rfl, fun R hR => hR.udpLoop hloop⟩

/-! ## The invariants -/

/-- The functions of the computations that run or wait. -/
def pointers (h : Host) : List Ptr :=
  h.app.inProgress.map Execution.func ++ h.app.waitingList.map InterestComponentStruct.func

/-- All of them are there. -/
def Live (h : Host) : Prop := ∀ p ∈ h.pointers, ∃ f, h.node.deref p = .ok f

theorem fixed_unit : Fixed fun _ : IncComputation => () :=
  ⟨⟨fun _ => rfl, fun _ => rfl⟩, fun _ => rfl, fun _ => rfl⟩

theorem deref_of_same {n n' : ComputeNode} {α : Type} {attr : IncComputation → α} {p : Ptr}
    (hs : Same attr n n') (hp : ∃ f, n.deref p = .ok f) : ∃ f, n'.deref p = .ok f := by
  obtain ⟨f, hf⟩ := hp
  cases p with
  | none => cases hf
  | some k =>
    obtain ⟨g, hg, -⟩ := hs.deref hf
    exact ⟨g, hg⟩

theorem Live.mono {α : Type} {attr : IncComputation → α} (hl : h.Live)
    (hs : Same attr h.node h'.node) (hp : h'.pointers ⊆ h.pointers) : h'.Live :=
  fun p hmem => deref_of_same hs (hl p (hp hmem))

theorem checkResource_deref {p : Ptr} {b : Bool} (hc : h.checkResource p = .ok b) :
    ∃ f, h.node.deref p = .ok f := by
  obtain ⟨f, hf, -⟩ := bind_eq_ok.mp hc
  exact ⟨f, hf⟩

theorem Live.act {c : Call} (hl : h.Live) (hc : c.Act h h') : h'.Live := by
  obtain ⟨rfl, hr⟩ := hc
  simp only [resolveAndHandleDecisions, bind_eq_ok] at hr
  obtain ⟨⟨node, decision, names⟩, hres, hr⟩ := hr
  have hadmits := fixed_unit.admits.toAdmitsExecute
  have hnode : Live ⟨node, c.host.app⟩ :=
    hl.mono (resolve_admits hadmits.toAdmits hres) (List.Subset.refl _)
  cases decision with
  | nack =>
    cases hr
    exact hnode
  | fetch =>
    cases hr
    obtain ⟨-, hwaiting, hprogress⟩ := fetch_lists c.host.app c.ics names
    refine hnode.mono (Same.refl (fun _ => ()) _) fun p hp => ?_
    unfold pointers at hp
    dsimp only at hp
    rwa [hprogress, hwaiting] at hp
  | forward =>
    have happ := forwardInterest_app hr
    refine hnode.mono (forwardInterest_admits hadmits.toAdmits hr) fun p hp => ?_
    rw [pointers, happ] at hp
    exact hp
  | execute =>
    obtain ⟨hcheck, hd⟩ | ⟨hcheck, ⟨-, hf⟩ | ⟨-, rfl⟩⟩ := executeOrQueue_ok hr
    · have happ := app_doExecution hd
      have hsame : Same (fun _ => ()) node h'.node := doExecution_admits hadmits hd
      intro p hp
      refine deref_of_same hsame ?_
      rw [pointers, happ] at hp
      simp only [NfnProducerApp.deletePendingContentTableEntry, List.map_append, List.mem_append,
        List.map_cons, List.map_nil, List.mem_singleton] at hp
      rcases hp with (hp | rfl) | hp
      · exact hnode p (List.mem_append_left _ hp)
      · exact checkResource_deref hcheck
      · exact hnode p (List.mem_append_right _ hp)
    · have happ := forwardInterest_app hf
      have hbusy : Same (fun _ => ()) node node.addNodeBusyCounter := Same.of_funcMap rfl
      refine hnode.mono (hbusy.trans (forwardInterest_admits hadmits.toAdmits hf)) fun p hp => ?_
      rw [pointers, happ] at hp
      exact hp
    · have hfill : Same (fun _ => ()) node (node.incrementQueueFill c.now).1 :=
        ComputeNode.same_incrementQueueFill c.now
      intro p hp
      refine deref_of_same hfill ?_
      simp only [pointers, List.map_append, List.mem_append, List.map_cons, List.map_nil,
        List.mem_singleton] at hp
      rcases hp with hp | hp | rfl
      · exact hnode p (List.mem_append_left _ hp)
      · exact hnode p (List.mem_append_right _ hp)
      · exact checkResource_deref hcheck

/-- What the end of an execution does to the two lists and what it sends. -/
theorem executionEnd_lists (hs : h.step (.executionEnd now k) = .ok h') :
    ∃ x, h.app.inProgress[k]? = some x ∧ h'.app.sent = h.app.sent ++ [.data x.data] ∧
      (h'.app.inProgress = h.app.inProgress.eraseIdx k ∧ h'.app.waitingList = h.app.waitingList ∨
        ∃ t, h.app.waitingList = t :: h'.app.waitingList ∧
          h'.app.inProgress = h.app.inProgress.eraseIdx k ++ [t.job]) := by
  obtain ⟨x, g, hk, -, ⟨-, rfl⟩ | ⟨t, rest, hw, -, hd⟩⟩ := executionEnd_started hs
  · exact ⟨x, hk, rfl, Or.inl ⟨rfl, rfl⟩⟩
  · have happ := app_doExecution hd
    refine ⟨x, hk, by rw [happ]; rfl, Or.inr ⟨t, ?_, by rw [happ]; rfl⟩⟩
    rw [happ, hw]
    rfl

theorem append_subset_left {α : Type} {l l' m : List α} (h : l ⊆ l') : l ++ m ⊆ l' ++ m := by
  exact List.append_subset.mpr ⟨List.subset_append_of_subset_left m h, List.subset_append_right l' m⟩

theorem Live.idle (hl : h.Live) (hi : h.Idle h') : h'.Live := by
  refine hl.mono hi.execCounter fun p hp => ?_
  rwa [pointers, hi.inProgress, hi.waitingList] at hp

theorem Live.weave {cs : List Call} (hl : h.Live) (hw : Weave Quiet Call.Act h cs h') : h'.Live :=
  @Weave.foldl _ _ Unit Quiet Call.Act h h' cs (fun _ _ => ()) (fun g _ => g.Live) ()
    (fun _ _ _ hq hl => hl.idle hq.toIdle) (fun _ _ _ _ hc hl => hl.act hc) hl hw

theorem Live.step {e : Event} (hl : h.Live) (hs : h.step e = .ok h') : h'.Live := by
  cases e with
  | interest now cs name => exact hl.weave (step_weave hs nofun)
  | data now cs d =>
    have hopen : h.Idle (h.opened (.data now cs d)) := by
      unfold opened
      dsimp only
      split <;> exact ⟨rfl, rfl, rfl, List.prefix_refl _, Same.refl _ _⟩
    exact (hl.idle hopen).weave (step_weave hs nofun)
  | executionEnd now k =>
    refine hl.mono (step_admits fixed_unit.admits hs) fun p hp => ?_
    obtain ⟨x, -, -, ⟨hprogress, hwaiting⟩ | ⟨t, hwaiting, hprogress⟩⟩ := executionEnd_lists hs
    · rw [pointers, hprogress, hwaiting, ← List.eraseIdx_map] at hp
      exact append_subset_left List.eraseIdx_subset hp
    · rw [pointers, hprogress, List.map_append, ← List.eraseIdx_map, List.append_assoc] at hp
      rw [pointers, hwaiting]
      exact append_subset_left List.eraseIdx_subset hp

/-- **App events and switch commands keep all functions there.** -/
theorem Live.commanded {e : Commanded} (hl : h.Live) (hs : h.commandedStep e = .ok h') : h'.Live := by
  obtain ⟨e', hs⟩ | ⟨happ, hnode⟩ := commandedStep_cases hs
  · exact hl.step hs
  · refine hl.mono (hnode _ (ComputeNode.admitsSwitch_same fixed_unit)) fun p hp => ?_
    rwa [pointers, happ] at hp

/-- **App events and switch commands keep the desk busy.** -/
theorem Fed.commanded {q : UInt32} {need : Ptr → Resource → ℕ} {capacity : Resource → ℕ}
    {e : Commanded} (hcap : ∀ r, capacity r < 2 ^ 32) (hfits : ∀ p, need p ≤ capacity)
    (hf : Fed q need capacity h) (hs : h.commandedStep e = .ok h') : Fed q need capacity h' := by
  obtain ⟨e', hs⟩ | ⟨happ, hnode⟩ := commandedStep_cases hs
  · exact hf.step hcap hfits hs
  · have hframe := hnode _ ComputeNode.admitsSwitch_frame
    have hjob : h'.node.jobNeed = h.node.jobNeed := funext fun x => congrFun hframe.need x.func
    have hdesk : h'.desk = h.desk := by
      rw [desk, desk, hframe.pool, happ]
    refine ⟨hframe.queueSize.trans hf.queueSize, hframe.need.trans hf.need, ?_⟩
    rw [hjob, hdesk]
    exact hf.busy

/-! ## Answers -/

/-- The answers that the app still owes: to the interests that run and to those that wait. -/
def due (h : Host) : List Packet :=
  (h.app.inProgress ++ h.app.waitingList.map InterestComponentStruct.job).map fun x => .data x.data

/-- **One end of an execution pays one answer.** -/
theorem executionEnd_due (hs : h.step (.executionEnd now k) = .ok h') :
    ∃ p, h'.app.sent = h.app.sent ++ [p] ∧ (p :: h'.due).Perm h.due := by
  obtain ⟨x, hk, hsent, hlists⟩ := executionEnd_lists hs
  obtain ⟨hlt, rfl⟩ := List.getElem?_eq_some_iff.mp hk
  refine ⟨_, hsent, ?_⟩
  have herase : (h.app.inProgress[k] :: h.app.inProgress.eraseIdx k).Perm h.app.inProgress :=
    List.getElem_cons_eraseIdx_perm hlt
  unfold due
  rw [← List.map_cons (f := fun x : Execution => Packet.data x.data)]
  refine List.Perm.map _ ?_
  obtain ⟨hprogress, hwaiting⟩ | ⟨t, hwaiting, hprogress⟩ := hlists
  · rw [hprogress, hwaiting]
    exact herase.append_right _
  · rw [hprogress, hwaiting, List.append_assoc]
    exact herase.append_right _

/-- **Ends of executions** pay as many answers. -/
theorem run_executionEnd_due {ends : List (Time × ℕ)}
    (hrun : run step h (ends.map fun q => .executionEnd q.1 q.2) = .ok h') :
    ∃ ps, h'.app.sent = h.app.sent ++ ps ∧ ps.length = ends.length ∧ (ps ++ h'.due).Perm h.due := by
  induction ends using List.reverseRecOn generalizing h' with
  | nil =>
    cases hrun
    exact ⟨[], (List.append_nil _).symm, rfl, List.Perm.refl _⟩
  | append_singleton ends q ih =>
    rw [List.map_append] at hrun
    obtain ⟨g, hg, hs⟩ := run_concat.mp hrun
    obtain ⟨ps, hsent, hlen, hperm⟩ := ih hg
    obtain ⟨p, hsent', hperm'⟩ := executionEnd_due hs
    refine ⟨ps ++ [p], by rw [hsent', hsent, List.append_assoc], by simp [hlen], ?_⟩
    rw [List.append_assoc]
    exact (hperm'.append_left ps).trans hperm

/-! ## No end fails -/

theorem exists_doExecution (hp : ∃ f, h.node.deref t.func = .ok f) : ∃ h', h.doExecution t = .ok h' := by
  obtain ⟨f, hf⟩ := hp
  unfold doExecution bookResource
  rw [hf]
  exact ⟨_, rfl⟩

theorem exists_serveQueue (hw : h.app.waitingList ≠ []) (hl : h.Live) :
    ∃ h', h.serveQueue now = .ok h' := by
  obtain ⟨t, rest, hw⟩ := List.exists_cons_of_ne_nil hw
  have ht : ∃ f, h.node.deref t.func = .ok f := hl _ (by simp [pointers, hw])
  obtain ⟨f, hf⟩ := ht
  have hdec : Same (fun _ => ()) h.node (h.node.decrementQueueFill now).1 :=
    Same.of_funcMap (ComputeNode.decrementQueueFill_funcMap now).1
  unfold serveQueue checkResource
  rw [hw]
  dsimp only
  rw [hf]
  dsimp only [bind, Except.bind, pure, Except.pure]
  split_ifs
  · exact exists_doExecution (deref_of_same hdec ⟨f, hf⟩)
  · exact ⟨_, rfl⟩

/-- **Every execution in progress can end.** -/
theorem exists_executionEnd (hl : h.Live)
    (hw : ¬ h.node.isQueueEmpty = true → h.app.waitingList ≠ []) (now : Time)
    (hk : k < h.app.inProgress.length) : ∃ h', h.step (.executionEnd now k) = .ok h' := by
  have hx := List.getElem?_eq_getElem hk
  obtain ⟨f, hf⟩ := hl h.app.inProgress[k].func
    (List.mem_append_left _ (List.mem_map_of_mem (List.getElem_mem hk)))
  unfold step
  dsimp only
  rw [hx]
  dsimp only
  unfold scheduledExecutionEnd releaseResource
  dsimp only
  rw [hf]
  dsimp only [bind, Except.bind, pure, Except.pure]
  split_ifs with hempty
  · exact ⟨_, rfl⟩
  · have hsame : ∀ g : ComputeNode, g.funcMap = h.node.funcMap → Same (fun _ => ()) h.node g :=
      fun _ hmap => Same.of_funcMap hmap
    refine exists_serveQueue (hw hempty) (hl.mono (hsame _ rfl) ?_)
    exact append_subset_left (List.map_subset _ List.eraseIdx_subset)

end Host

/-! ## Coming to rest -/

/-- **The node comes to rest.** An app alone on a node that can hold each of its functions has run
with any arrivals and switch commands. From then on only executions end, in any order: no end fails;
each one sends one of the answers that are due, and the others stay due; and when nothing runs any
more, nothing waits, all answers are sent, and the resources are free again. -/
theorem queue_drains {n : ComputeNode} {a : NfnProducerApp} {q : UInt32} {es : List Commanded}
    {h h' : Host}
    (hfits : ∀ k f, n.funcMap.lookup k = some (some f) → ∀ r, f.demand r ≤ n.available r)
    (hw : a.waitingList = []) (hp : a.inProgress = [])
    (hrun : run Host.commandedStep ⟨n.setQueueSize q, a⟩ es = .ok h) {ends : List (Time × ℕ)}
    (hends : run Host.step h (ends.map fun q => .executionEnd q.1 q.2) = .ok h') :
    (∀ now, ∀ k < h'.app.inProgress.length, ∃ g, h'.step (.executionEnd now k) = .ok g) ∧
    (∃ ps, h'.app.sent = h.app.sent ++ ps ∧ ps.length = ends.length ∧ (ps ++ h'.due).Perm h.due) ∧
    (h'.app.inProgress = [] → ends.length = h.due.length ∧ h'.app.waitingList = [] ∧
      h'.node.available = n.available ∧ h'.node.queueFill = 0) := by
  have hfit := ComputeNode.need_le_available hfits
  have hcap := System.available_lt n
  have hinit : Host.Fed q n.need n.available ⟨n.setQueueSize q, a⟩ ∧
      Host.Live ⟨n.setQueueSize q, a⟩ := by
    refine ⟨⟨rfl, rfl, ?_⟩, fun p hmem => ?_⟩
    · have hdesk : Host.desk ⟨n.setQueueSize q, a⟩ = (⟨n.available, 0⟩, ⟨[], []⟩) := by
        rw [Host.desk, hw, hp]
        rfl
      rw [hdesk]
      exact ⟨rfl, rfl, Nat.zero_le _, fun hne => absurd rfl hne⟩
    · rw [Host.pointers, hw, hp] at hmem
      exact absurd hmem List.not_mem_nil
  obtain ⟨hfed₀, hlive₀⟩ := run_invariant
    (P := fun g : Host => g.Fed q n.need n.available ∧ g.Live)
    (fun _ _ _ hg hs => ⟨hg.1.commanded hcap hfit hs, hg.2.commanded hs⟩) hinit hrun
  obtain ⟨hfed, hlive⟩ := run_invariant
    (P := fun g : Host => g.Fed q n.need n.available ∧ g.Live)
    (fun _ _ _ hg hs => ⟨hg.1.step hcap hfit hs, hg.2.step hs⟩) ⟨hfed₀, hlive₀⟩ hends
  have hqueue : ∀ l, h'.app.waitingList = l → h'.desk.2.queue = l.map InterestComponentStruct.job :=
    fun l hl => hl ▸ rfl
  have hempty : ¬ h'.node.isQueueEmpty = true → h'.app.waitingList ≠ [] := by
    intro hne hnil
    refine hne (Host.isQueueEmpty_iff.mpr (hfed.busy.fill.trans ?_))
    rw [hqueue _ hnil]
    rfl
  obtain ⟨ps, hsent, hlen, hperm⟩ := Host.run_executionEnd_due hends
  refine ⟨fun now k hk => Host.exists_executionEnd hlive hempty now hk, ⟨ps, hsent, hlen, hperm⟩,
    fun hnone => ?_⟩
  have hwaiting : h'.app.waitingList = [] := by
    by_contra hne
    exact hfed.busy.running (fun hq => hne (List.map_eq_nil_iff.mp hq)) hnone
  have hdue : h'.due = [] := by
    rw [Host.due, hnone, hwaiting]
    rfl
  refine ⟨?_, hwaiting, hfed.busy.free hnone, ?_⟩
  · rw [← hperm.length_eq, hdue, List.append_nil, hlen]
  · have hfill : h'.node.queueFill.toNat = 0 := hfed.busy.fill.trans (by rw [hqueue _ hwaiting]; rfl)
    exact UInt32.toNat_inj.mp hfill

theorem crampedNode_fits (k : Str) (f : IncComputation)
    (hk : crampedNode.funcMap.lookup k = some (some f)) (r : Resource) :
    f.demand r ≤ crampedNode.available r := by
  rw [show crampedNode.funcMap = [("/f".toList, some hog)] from rfl, Assoc.lookup_singleton] at hk
  split at hk
  · cases hk
    cases r <;> decide
  · cases hk

/-- Two requests for `hog`, of which one waits, and the function is switched off. -/
def twoThenOff : List Commanded :=
  [.app hogInterest, .app hogInterest, .ndnSwitch (switchName "n".toList .disable ["f".toList])]

/-- Two ends later the node is at rest. -/
theorem queue_drains_twoThenOff :
    ∃ h h', run Host.commandedStep ⟨crampedNode.setQueueSize 2, twoApps.apps true⟩ twoThenOff = .ok h ∧
      run Host.step h ([(1, 0), (2, 0)].map fun q => .executionEnd q.1 q.2) = .ok h' ∧
      h.due.length = 2 ∧ h'.app.waitingList = [] ∧ h'.node.available = crampedNode.available := by
  have hboth : (run Host.commandedStep ⟨crampedNode.setQueueSize 2, twoApps.apps true⟩ twoThenOff).bind
      (fun h => run Host.step h ([(1, 0), (2, 0)].map fun q => .executionEnd q.1 q.2)) = .ok _ := rfl
  obtain ⟨h, hrun, hends⟩ := bind_eq_ok.mp hboth
  obtain ⟨-, -, hrest⟩ := queue_drains crampedNode_fits rfl rfl hrun hends
  obtain ⟨hlen, hwaiting, hfree, -⟩ := hrest rfl
  exact ⟨h, _, hrun, hends, hlen.symm, hwaiting, hfree⟩

end IncSim
