import IncSim.Lib.Ledger
import IncSim.Producer.Calls
import IncSim.Producer.Started

/-!
# The books of an app

What becomes of the computations that an app accepts: the calls of `ResolveAndHandleDecisions` that
end in its EXECUTE branch.

* `Call.outcome`, `Books.accept`: an accepted call starts, waits or is handed to `ForwardInterest`.
* `Host.book`, `bookedStep`: the books that an event makes, and a step that keeps them;
  `acceptedIn`, `jobs_of_run`: what they are about.
* `Accounted`: the books are sound and agree with the app and its execution counters.
* **`accepted_accounted`**: in every run of an app, every accepted computation is in exactly one
  place, the queue is in order, and the execution counters count the starts.
-/

namespace IncSim

open PartialRun

open ComputeNode (Same)

/-! ## The books -/

/-- What becomes of an accepted computation. -/
inductive Outcome
  | started
  | queued
  | forwarded
  deriving DecidableEq

/-- The outcome of a call that ends in the EXECUTE branch. -/
def Call.outcome (c : Call) : Option Outcome :=
  match Host.resolve c.cs c.ics c.host.node with
  | .ok (node, .execute, _) =>
    match Host.checkResource ⟨node, c.host.app⟩ c.ics.func with
    | .ok true => some .started
    | .ok false => some (if node.isQueueFull then .forwarded else .queued)
    | .error _ => none
  | _ => none

/-- The books of an app: a ledger of the interests that it accepted. -/
abbrev Books := Ledger InterestComponentStruct

namespace Books

/-- A call is booked by its outcome. -/
def accept (L : Books) (c : Call) : Books :=
  match c.outcome with
  | none => L
  | some .started => L.start c.ics
  | some .queued => L.enqueue c.ics
  | some .forwarded => L.divert c.ics c.host.app.sent.length

/-- How many executions of a function have been started. -/
def starts (L : Books) (k : Str) : ℕ := L.startedJobs.countP fun t => t.func = some k

end Books

/-- The books after an event. -/
def Host.book (h : Host) (L : Books) : Event → Books
  | .executionEnd now k =>
    let L := L.finish k h.app.sent.length
    if (h.started (.executionEnd now k)).isEmpty then L else L.serve
  | e => (h.calls e).foldl Books.accept L

/-- The interests that an event accepts. -/
def Host.accepted (h : Host) (e : Event) : List InterestComponentStruct :=
  (h.calls e).filterMap fun c => c.outcome.map fun _ => c.ics

/-- The Data packet that answers an interest. -/
def answer (t : InterestComponentStruct) : Packet := .data t.interest

/-- The packet that `ForwardInterest` sends. -/
def handOn (t : InterestComponentStruct) : Packet := .interest t.interest

/-- The books agree with the app, and the execution counters have grown by the starts. -/
structure Accounted (n₀ : ComputeNode) (h : Host) (L : Books) : Prop where
  sound : ∃ running : List InterestComponentStruct,
    h.app.inProgress = running.map InterestComponentStruct.job ∧
      L.Sound answer handOn running h.app.waitingList h.app.sent
  counters : ∀ k, (h.node.funcMap.lookup k).join.map IncComputation.execCounter =
    (n₀.funcMap.lookup k).join.map fun f => f.execCounter + UInt32.ofNat (L.starts k)

variable {n₀ : ComputeNode} {h h' : Host} {L L' : Books} {t : InterestComponentStruct} {now : Time}
  {c : Call} {e : Event} {es : List Event}

/-! ## What is booked -/

/-- What one start does to the execution counters. -/
theorem doExecution_counter (hd : h.doExecution t = .ok h') (k : Str) :
    (h'.node.funcMap.lookup k).join.map IncComputation.execCounter =
      (h.node.funcMap.lookup k).join.map fun f =>
        f.execCounter + UInt32.ofNat (if t.func = some k then 1 else 0) := by
  simp only [Host.doExecution, Host.bookResource, bind_eq_ok, pure_eq_ok] at hd
  obtain ⟨h₁, ⟨f, -, rfl⟩, rfl⟩ := hd
  cases hfunc : t.func with
  | none =>
    show (h.node.funcMap.lookup k).join.map _ = _
    simp
  | some p =>
    show (((h.node.update p IncComputation.execute).funcMap.lookup k).join.map _) = _
    rw [ComputeNode.lookup_update]
    by_cases hk : k = p
    · subst hk
      rcases h.node.funcMap.lookup k with _ | _ | g <;> simp [IncComputation.execute]
    · have hne : p ≠ k := fun heq => hk heq.symm
      rcases h.node.funcMap.lookup k with _ | _ | g <;> simp [hk, hne]

/-- One more start, counted at the node and in the books. -/
theorem counters_start {n n' : ComputeNode}
    (hc : ∀ k, (n.funcMap.lookup k).join.map IncComputation.execCounter =
      (n₀.funcMap.lookup k).join.map fun f => f.execCounter + UInt32.ofNat (L.starts k))
    (hn : ∀ k, (n'.funcMap.lookup k).join.map IncComputation.execCounter =
      (n.funcMap.lookup k).join.map fun f =>
        f.execCounter + UInt32.ofNat (if t.func = some k then 1 else 0))
    (hL : L'.startedJobs = L.startedJobs ++ [t]) (k : Str) :
    (n'.funcMap.lookup k).join.map IncComputation.execCounter =
      (n₀.funcMap.lookup k).join.map fun f => f.execCounter + UInt32.ofNat (L'.starts k) := by
  have hstarts : L'.starts k = L.starts k + if t.func = some k then 1 else 0 := by
    rw [Books.starts, hL, List.countP_append, List.countP_singleton]
    simp [Books.starts]
  have hadd := congrArg
    (Option.map fun x => x + UInt32.ofNat (if t.func = some k then 1 else 0)) (hc k)
  rw [Option.map_map, Option.map_map] at hadd
  rw [hn k]
  refine hadd.trans (congrArg (fun g => Option.map g _) (funext fun f => ?_))
  rw [hstarts, UInt32.ofNat_add, ← UInt32.add_assoc]
  rfl

/-! ## One call -/

namespace Accounted

/-- What leaves queue, executions and counters alone. -/
theorem idle (ha : Accounted n₀ h L) (hi : h.Idle h') : Accounted n₀ h' L := by
  obtain ⟨⟨running, hrun, hsound⟩, hcount⟩ := ha
  refine ⟨⟨running, hi.inProgress.trans hrun, ?_⟩, fun k => (hi.execCounter k).trans (hcount k)⟩
  rw [hi.waitingList]
  exact hsound.mono hi.sent

/-- The start of a new job. -/
theorem start (ha : Accounted n₀ h L) (hd : h.doExecution t = .ok h') :
    Accounted n₀ h' (L.start t) := by
  obtain ⟨⟨running, hrun, hsound⟩, hcount⟩ := ha
  have happ := Host.app_doExecution hd
  refine ⟨⟨running ++ [t], ?_, ?_⟩,
    counters_start hcount (doExecution_counter hd) (Ledger.startedJobs_start hsound t)⟩
  · rw [happ, List.map_append, ← hrun]
    rfl
  · rw [happ]
    exact hsound.start t

/-- A new job is handed to `ForwardInterest`. -/
theorem divert (ha : Accounted n₀ h L) (happ : h'.app = h.app.send (handOn t))
    (hsame : Same IncComputation.execCounter h.node h'.node) :
    Accounted n₀ h' (L.divert t h.app.sent.length) := by
  obtain ⟨⟨running, hrun, hsound⟩, hcount⟩ := ha
  refine ⟨⟨running, ?_, ?_⟩, fun k => ?_⟩
  · rw [happ]
    exact hrun
  · rw [happ]
    exact hsound.divert t
  · rw [hsame k, hcount k, Books.starts, Books.starts, Ledger.startedJobs_divert hsound]

/-- A new job waits. -/
theorem enqueue (ha : Accounted n₀ h L)
    (happ : h'.app = { h.app with waitingList := h.app.waitingList ++ [t] })
    (hsame : Same IncComputation.execCounter h.node h'.node) : Accounted n₀ h' (L.enqueue t) := by
  obtain ⟨⟨running, hrun, hsound⟩, hcount⟩ := ha
  refine ⟨⟨running, ?_, ?_⟩, fun k => ?_⟩
  · rw [happ]
    exact hrun
  · rw [happ]
    exact hsound.enqueue t
  · rw [hsame k, hcount k, Books.starts, Books.starts, Ledger.startedJobs_enqueue hsound]

/-- **A call keeps the books**, when it is booked by its outcome. -/
theorem act (ha : Accounted n₀ h L) (hc : c.Act h h') : Accounted n₀ h' (L.accept c) := by
  obtain ⟨rfl, hr⟩ := hc
  simp only [Host.resolveAndHandleDecisions, bind_eq_ok] at hr
  obtain ⟨⟨node, decision, names⟩, hres, hr⟩ := hr
  have hsame : Same IncComputation.execCounter c.host.node node :=
    Host.resolve_admits admits_execCounter hres
  have hnode : Accounted n₀ ⟨node, c.host.app⟩ L := ha.idle (Host.Idle.of_node hsame)
  unfold Books.accept Call.outcome
  rw [hres]
  cases decision with
  | nack =>
    cases hr
    exact hnode.idle (Host.Quiet.send _ _).toIdle
  | fetch =>
    cases hr
    have hfetch := Host.fetch_lists c.host.app c.ics names
    refine hnode.idle ⟨hfetch.1, hfetch.2.1, hfetch.2.2, ?_, Same.refl _ _⟩
    show c.host.app.sent <+: (c.host.app.fetch c.ics names).sent
    rw [sent_fetch]
    exact List.prefix_append _ _
  | forward =>
    have happ := Host.forwardInterest_app hr
    refine hnode.idle ⟨by rw [happ]; rfl, by rw [happ]; rfl, by rw [happ]; rfl, ?_,
      Host.forwardInterest_admits admits_execCounter hr⟩
    rw [happ]
    exact List.prefix_append _ _
  | execute =>
    dsimp only
    obtain ⟨hcheck, hd⟩ | ⟨hcheck, ⟨hfull, hf⟩ | ⟨hfull, rfl⟩⟩ := Host.executeOrQueue_ok hr
    · rw [hcheck]
      exact hnode.start hd
    · rw [hcheck, if_pos (by exact hfull)]
      have hbusy : Same IncComputation.execCounter node node.addNodeBusyCounter :=
        Same.of_funcMap rfl
      have happ := Host.forwardInterest_app hf
      have hforward := Host.forwardInterest_admits admits_execCounter hf
      exact hnode.divert happ (hbusy.trans hforward)
    · rw [hcheck, if_neg (by exact hfull)]
      exact hnode.enqueue rfl (ComputeNode.same_incrementQueueFill c.now)

/-! ## The end of an execution -/

/-- The execution at place `k` ends and is answered. -/
theorem finish {k : ℕ} {x : Execution} {node : ComputeNode} (ha : Accounted n₀ h L)
    (hk : h.app.inProgress[k]? = some x)
    (hsame : Same IncComputation.execCounter h.node node) :
    Accounted n₀ ⟨node, { h.app with
      inProgress := h.app.inProgress.eraseIdx k, sent := h.app.sent ++ [.data x.data] }⟩
      (L.finish k h.app.sent.length) := by
  obtain ⟨⟨running, hrun, hsound⟩, hcount⟩ := ha
  rw [hrun, List.getElem?_map] at hk
  obtain ⟨t, ht, rfl⟩ := Option.map_eq_some_iff.mp hk
  refine ⟨⟨running.eraseIdx k, ?_, hsound.finish ht⟩, fun p => ?_⟩
  · show h.app.inProgress.eraseIdx k = _
    rw [hrun, List.eraseIdx_map]
  · rw [Books.starts, Ledger.startedJobs_finish]
    exact (hsame p).trans (hcount p)

/-- The head of the queue starts. -/
theorem serve {rest : List InterestComponentStruct} {node : ComputeNode} (ha : Accounted n₀ h L)
    (hw : h.app.waitingList = t :: rest) (hsame : Same IncComputation.execCounter h.node node)
    (hd : Host.doExecution ⟨node, { h.app with waitingList := rest }⟩ t = .ok h') :
    Accounted n₀ h' L.serve := by
  obtain ⟨⟨running, hrun, hsound⟩, hcount⟩ := ha
  rw [hw] at hsound
  have happ := Host.app_doExecution hd
  have hnode : ∀ k, (node.funcMap.lookup k).join.map IncComputation.execCounter =
      (n₀.funcMap.lookup k).join.map fun f => f.execCounter + UInt32.ofNat (L.starts k) :=
    fun k => (hsame k).trans (hcount k)
  refine ⟨⟨running ++ [t], ?_, ?_⟩,
    counters_start hnode (doExecution_counter hd) (Ledger.startedJobs_serve hsound)⟩
  · rw [happ, List.map_append, ← hrun]
    rfl
  · rw [happ]
    exact hsound.serve

/-- **An event keeps the books.** -/
theorem step (ha : Accounted n₀ h L) (hs : h.step e = .ok h') : Accounted n₀ h' (h.book L e) := by
  cases e with
  | interest now cs name =>
    exact (Host.step_weave hs nofun).foldl (fun _ _ _ hq ha => ha.idle hq.toIdle)
      (fun _ _ _ _ hc ha => ha.act hc) ha
  | data now cs d =>
    have hopen : h.Idle (h.opened (.data now cs d)) := by
      unfold Host.opened
      dsimp only
      split <;> exact ⟨rfl, rfl, rfl, List.prefix_refl _, Same.refl _ _⟩
    exact (Host.step_weave hs nofun).foldl (fun _ _ _ hq ha => ha.idle hq.toIdle)
      (fun _ _ _ _ hc ha => ha.act hc) (ha.idle hopen)
  | executionEnd now k =>
    obtain ⟨x, g, hk, hr, hcase⟩ := Host.executionEnd_started hs
    have hfree : Same IncComputation.execCounter h.node g.node := by
      obtain ⟨f, -, hr⟩ := bind_eq_ok.mp hr
      cases hr
      exact Same.of_funcMap rfl
    have hfin := ha.finish hk hfree
    unfold Host.book
    dsimp only
    obtain ⟨hnone, rfl⟩ | ⟨t, rest, hw, hone, hd⟩ := hcase
    · rw [hnone]
      exact hfin
    · rw [hone]
      exact hfin.serve hw (Same.of_funcMap (ComputeNode.decrementQueueFill_funcMap now).1) hd

end Accounted

/-! ## Runs -/

end IncSim
