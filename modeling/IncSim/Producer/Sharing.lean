import IncSim.Producer.Effects

/-!
# Apps that share a compute node

* `System.hall`, `System.step_hall`: the apps of one node are desks over one pool.
* `System.Ledger`, **`resources_conserved`**: the free and the booked resources add up.
* `Host.Fed`, **`queue_not_stranded`**: an app that is alone runs something while others wait.
* `System.Counted`, **`queueGuard_iff_ownQueue`**: the guard on the shared fill counter protects
  the own queue exactly when no other app queues while the own queue is empty.
-/

namespace IncSim

open PartialRun Scheduler

/-! ## The apps of a node as desks -/

namespace System

variable {ι : Type} [DecidableEq ι] {s s' s₀ : System ι} {e : ι × Event} {es : List (ι × Event)}

/-- The apps and their node as desks over one pool. -/
def hall (s : System ι) : Hall ι Execution Resource := ⟨s.node.pool, fun a => (s.host a).desk.2⟩

/-- **One event is one move of one desk.** -/
theorem step_hall (hs : s.step e = .ok s')
    (hfit : ∀ x ∈ (s.apps e.1).inProgress, ∀ r,
      s.node.available r + s.node.need x.func r < 2 ^ 32) :
    s'.node.queueSize = s.node.queueSize ∧ s'.node.need = s.node.need ∧
      Hall.Step s.node.jobNeed s.node.queueSize.toNat e.1 s.hall s'.hall := by
  simp only [step, bind_eq_ok, pure_eq_ok] at hs
  obtain ⟨h, hh, rfl⟩ := hs
  obtain ⟨hq, hn, hmove⟩ := Host.step_move hh hfit
  refine ⟨hq, hn, ?_, fun b hb => ?_⟩
  · have hdesk : (s.put e.1 h).hall.desk e.1 = h.desk := by
      simp [hall, Hall.desk, host, put, Host.desk]
    rw [hdesk]
    exact hmove
  · simp [hall, host, put, Host.desk, Function.update_of_ne hb]

/-! ## Resources -/

variable [Fintype ι]

/-- The free resources and those of all executions in progress. -/
def balance (s : System ι) : Resource → ℕ :=
  s.node.available + ∑ a, load s.node.jobNeed (s.apps a).inProgress

/-- The demands are `need`, and free and booked resources add up to the capacity. -/
structure Ledger (need : Ptr → Resource → ℕ) (capacity : Resource → ℕ) (s : System ι) : Prop where
  need : s.node.need = need
  balance : s.balance = capacity

omit [DecidableEq ι] in
theorem Ledger.fits {need : Ptr → Resource → ℕ} {capacity : Resource → ℕ}
    (hl : Ledger need capacity s) {a : ι} {x : Execution} (hx : x ∈ (s.apps a).inProgress)
    (r : Resource) : s.node.available r + need x.func r ≤ capacity r := by
  have hjob : s.node.jobNeed x r ≤ load s.node.jobNeed (s.apps a).inProgress r := need_le_load hx r
  have hsum : load s.node.jobNeed (s.apps a).inProgress r ≤
      ∑ b, load s.node.jobNeed (s.apps b).inProgress r :=
    Finset.single_le_sum (f := fun b => load s.node.jobNeed (s.apps b).inProgress r)
      (fun b _ => Nat.zero_le _) (Finset.mem_univ a)
  have hneed : s.node.jobNeed x r = need x.func r := congrFun (congrFun hl.need x.func) r
  have hbal := congrFun hl.balance r
  simp only [System.balance, Pi.add_apply, Finset.sum_apply] at hbal
  omega

theorem Ledger.step {need : Ptr → Resource → ℕ} {capacity : Resource → ℕ}
    (hcap : ∀ r, capacity r < 2 ^ 32) (hl : Ledger need capacity s) (hs : s.step e = .ok s') :
    Ledger need capacity s' := by
  obtain ⟨-, hn, hstep⟩ := step_hall hs fun x hx r => by
    rw [hl.need]
    exact (hl.fits hx r).trans_lt (hcap r)
  refine ⟨hn.trans hl.need, ?_⟩
  have hcons := hstep.conserve
  have hjob : s'.node.jobNeed = s.node.jobNeed := by
    funext x
    exact congrFun hn x.func
  rw [← hl.balance, System.balance, System.balance, hjob]
  exact hcons

theorem available_lt (n : ComputeNode) (r : Resource) : n.available r < 2 ^ 32 := by
  cases r with
  | ram => exact n.ram.toNat_lt
  | cores => exact n.processorCore.toNat_lt

theorem ledger_of_run (h₀ : ∀ a, (s₀.apps a).inProgress = [])
    (hrun : run System.step s₀ es = .ok s) : Ledger s₀.node.need s₀.node.available s := by
  refine run_invariant (fun _ _ _ hl hs => hl.step (available_lt s₀.node) hs) ?_ hrun
  refine ⟨rfl, ?_⟩
  have hzero : ∀ a, load s₀.node.jobNeed (s₀.apps a).inProgress = 0 := fun a => by
    rw [h₀ a, load_nil]
  rw [System.balance, Finset.sum_congr rfl fun a _ => hzero a, Finset.sum_const_zero, add_zero]

end System

/-- **Resources are conserved.** Whatever the apps of a node receive and in whatever order their
executions end, free and booked resources add up to the initial capacity; the addition of a release
and the subtraction of a booking are exact. -/
theorem resources_conserved {ι : Type} [Fintype ι] [DecidableEq ι] {s₀ s : System ι}
    {es : List (ι × Event)} (h₀ : ∀ a, (s₀.apps a).inProgress = [])
    (hrun : run System.step s₀ es = .ok s) :
    (∀ r, s.node.available r +
      ∑ a, ((s.apps a).inProgress.map fun x => s₀.node.need x.func r).sum =
        s₀.node.available r) ∧
    (∀ a, ∀ x ∈ (s.apps a).inProgress, ∀ h, (s.host a).releaseResource x.func = .ok h →
      ∀ r, h.node.available r = s.node.available r + s₀.node.need x.func r) ∧
    (∀ (h h' : Host) (p : Ptr), h.checkResource p = .ok true → h.bookResource p = .ok h' →
      ∀ r, h'.node.available r + h.node.need p r = h.node.available r) := by
  have hl := System.ledger_of_run h₀ hrun
  refine ⟨fun r => ?_, fun a x hx h hr r => ?_, fun h h' p hc hb r => ?_⟩
  · have hbal := congrFun hl.balance r
    have hjob : s.node.jobNeed = s₀.node.jobNeed := by
      funext x
      exact congrFun hl.need x.func
    rw [System.balance, hjob, Pi.add_apply, Finset.sum_apply] at hbal
    exact hbal
  · obtain ⟨-, hnode⟩ := Host.releaseResource_ok hr fun r => by
      show s.node.available r + s.node.need x.func r < 2 ^ 32
      rw [hl.need]
      exact (hl.fits hx r).trans_lt (System.available_lt s₀.node r)
    have havail := congrFun (congrArg Pool.free hnode.pool) r
    rw [← hl.need]
    exact havail
  · have hfit := (Host.checkResource_ok hc).mp rfl
    obtain ⟨-, hnode⟩ := Host.bookResource_ok hb hfit
    have havail : h'.node.available r = h.node.available r - h.node.need p r :=
      congrFun (congrArg Pool.free hnode.pool) r
    rw [havail]
    exact Nat.sub_add_cancel (hfit r)

/-- A function that needs the whole of `crampedNode`. -/
def hog : IncComputation := .fresh "f".toList 10 1 0

/-- A node with room for one execution of `hog`. -/
def crampedNode : ComputeNode := .fresh "n".toList 10 1 [hog]

/-- Two apps on `crampedNode`. -/
def twoApps : System Bool :=
  ⟨crampedNode, fun _ => .start ⟨1, nfnProducerAppFace⟩⟩

/-- A request for `hog`. -/
def hogInterest : Event := .interest 0 (fun _ _ => true) ⟨[lambdaComp, functionComp, "f".toList]⟩

/-- After one request at each app the first executes, the second waits, and the units add up. -/
theorem resources_conserved_twoApps :
    ∃ s, run System.step twoApps [(true, hogInterest), (false, hogInterest)] = .ok s ∧
      (∀ r, s.node.available r +
        ∑ a, ((s.apps a).inProgress.map fun x => twoApps.node.need x.func r).sum =
          twoApps.node.available r) := by
  have hrun : run System.step twoApps [(true, hogInterest), (false, hogInterest)] = .ok _ := rfl
  exact ⟨_, hrun, (resources_conserved (fun _ => rfl) hrun).1⟩

/-! ## An app alone on its node -/

namespace Host

variable {h h' : Host} {e : Event} {q : UInt32} {need : Ptr → Resource → ℕ}
  {capacity : Resource → ℕ}

/-- The queue size and the demands are as given, and the desk of the app is busy. -/
structure Fed (q : UInt32) (need : Ptr → Resource → ℕ) (capacity : Resource → ℕ) (h : Host) :
    Prop where
  queueSize : h.node.queueSize = q
  need : h.node.need = need
  busy : Busy h.node.jobNeed q.toNat capacity h.desk

theorem Fed.step (hcap : ∀ r, capacity r < 2 ^ 32) (hfits : ∀ p, need p ≤ capacity)
    (hf : Fed q need capacity h) (hs : h.step e = .ok h') : Fed q need capacity h' := by
  have hload : ∀ x ∈ h.app.inProgress, ∀ r,
      h.node.available r + h.node.need x.func r < 2 ^ 32 := by
    intro x hx r
    have hjob : h.node.jobNeed x r ≤ load h.node.jobNeed h.app.inProgress r := need_le_load hx r
    have htot : h.node.available r + load h.node.jobNeed h.app.inProgress r = capacity r :=
      congrFun hf.busy.total r
    have hneed : h.node.jobNeed x r = h.node.need x.func r := rfl
    have hcap := hcap r
    omega
  obtain ⟨hq, hn, hmove⟩ := step_move hs hload
  refine ⟨hq.trans hf.queueSize, hn.trans hf.need, ?_⟩
  have hjob : h'.node.jobNeed = h.node.jobNeed := by
    funext x
    exact congrFun hn x.func
  rw [hf.queueSize] at hmove
  rw [hjob]
  refine hmove.busy (fun x => ?_) hf.busy
  rw [ComputeNode.jobNeed, hf.need]
  exact hfits x.func

end Host

theorem ComputeNode.need_le_available {n : ComputeNode}
    (hfits : ∀ k f, n.funcMap.lookup k = some (some f) → ∀ r, f.demand r ≤ n.available r)
    (p : Ptr) : n.need p ≤ n.available := by
  intro r
  cases p with
  | none => exact Nat.zero_le _
  | some k =>
    rw [need_some]
    rcases hk : n.funcMap.lookup k with _ | _ | f
    · exact Nat.zero_le _
    · exact Nat.zero_le _
    · exact hfits k f hk r

/-- **No queued computation is stranded.** An app alone on a node that can hold each of its
functions keeps the fill counter at the length of its queue, and while its queue is not empty some
execution is in progress. -/
theorem queue_not_stranded {n : ComputeNode} {a : NfnProducerApp} {q : UInt32} {es : List Event}
    {h : Host}
    (hfits : ∀ k f, n.funcMap.lookup k = some (some f) → ∀ r, f.demand r ≤ n.available r)
    (hw : a.waitingList = []) (hp : a.inProgress = [])
    (hrun : run Host.step ⟨n.setQueueSize q, a⟩ es = .ok h) :
    h.node.queueFill.toNat = h.app.waitingList.length ∧ h.app.waitingList.length ≤ q.toNat ∧
      (h.app.waitingList ≠ [] → h.app.inProgress ≠ []) := by
  have hinit : Host.Fed q n.need n.available ⟨n.setQueueSize q, a⟩ := by
    refine ⟨rfl, rfl, ?_⟩
    have hdesk : Host.desk ⟨n.setQueueSize q, a⟩ = (⟨n.available, 0⟩, ⟨[], []⟩) := by
      rw [Host.desk, hw, hp]
      rfl
    rw [hdesk]
    exact ⟨rfl, rfl, Nat.zero_le _, fun hne => absurd rfl hne⟩
  have hfed : Host.Fed q n.need n.available h :=
    run_invariant (fun _ _ _ hf hs => hf.step (System.available_lt n)
      (ComputeNode.need_le_available hfits) hs) hinit hrun
  have hlen : h.desk.2.queue.length = h.app.waitingList.length := List.length_map _
  refine ⟨hfed.busy.fill.trans hlen, hlen ▸ hfed.busy.bound, fun hne => ?_⟩
  refine hfed.busy.running fun hq => hne ?_
  exact List.map_eq_nil_iff.mp hq

/-- Two requests for `hog` at one app: one executes, one waits. -/
theorem queue_not_stranded_two :
    ∃ h, run Host.step ⟨crampedNode.setQueueSize 2, twoApps.apps true⟩ [hogInterest, hogInterest] =
        .ok h ∧ h.app.waitingList ≠ [] ∧ h.app.inProgress ≠ [] := by
  have hrun : run Host.step ⟨crampedNode.setQueueSize 2, twoApps.apps true⟩
      [hogInterest, hogInterest] = .ok _ := rfl
  refine ⟨_, hrun, by decide, (queue_not_stranded ?_ rfl rfl hrun).2.2 (by decide)⟩
  intro k f hk r
  rw [show crampedNode.funcMap = [("/f".toList, some hog)] from rfl, Assoc.lookup_singleton] at hk
  split at hk
  · cases hk
    cases r <;> decide
  · cases hk

/-! ## The shared fill counter -/

namespace System

variable {ι : Type} [DecidableEq ι] {s s' s₀ : System ι} {e : ι × Event} {es : List (ι × Event)}

/-- When an execution of an app ends and the node says that its queue is not empty, the app has a
computation in its own queue. -/
def QueueGuard (s : System ι) (e : ι × Event) : Prop :=
  match e.2 with
  | .executionEnd _ k =>
    k < (s.apps e.1).inProgress.length → s.node.isQueueEmpty = false →
      (s.apps e.1).waitingList ≠ []
  | _ => True

/-- When an execution of an app ends while another app has a queued computation, so has the app. -/
def OwnQueue (s : System ι) (e : ι × Event) : Prop :=
  match e.2 with
  | .executionEnd _ k =>
    k < (s.apps e.1).inProgress.length → (∃ b ≠ e.1, (s.apps b).waitingList ≠ []) →
      (s.apps e.1).waitingList ≠ []
  | _ => True

variable [Fintype ι]

/-- The resources add up, and the fill counter is the number of all queued computations. -/
structure Counted (need : Ptr → Resource → ℕ) (capacity : Resource → ℕ) (s : System ι) : Prop where
  ledger : Ledger need capacity s
  bound : s.hall.pool.fill ≤ s.node.queueSize.toNat
  fill : s.hall.pool.fill = ∑ a, (s.hall.desks a).queue.length

theorem Counted.step {need : Ptr → Resource → ℕ} {capacity : Resource → ℕ}
    (hcap : ∀ r, capacity r < 2 ^ 32) (hc : Counted need capacity s) (hs : s.step e = .ok s') :
    Counted need capacity s' := by
  obtain ⟨hq, -, hstep⟩ := step_hall hs fun x hx r => by
    rw [hc.ledger.need]
    exact (hc.ledger.fits hx r).trans_lt (hcap r)
  obtain ⟨hb, hf⟩ := hstep.fill hc.bound hc.fill
  exact ⟨hc.ledger.step hcap hs, hq ▸ hb, hf⟩

theorem Counted.queueGuard_iff {need : Ptr → Resource → ℕ} {capacity : Resource → ℕ}
    (hc : Counted need capacity s) (e : ι × Event) : s.QueueGuard e ↔ s.OwnQueue e := by
  obtain ⟨a, e⟩ := e
  cases e with
  | interest now cs name => exact Iff.rfl
  | data now cs name => exact Iff.rfl
  | executionEnd now k =>
    have hempty : s.node.isQueueEmpty = false ↔ ∃ b, (s.apps b).waitingList ≠ [] := by
      rw [← Bool.not_eq_true, Host.isQueueEmpty_iff]
      refine (Hall.fill_ne_zero hc.fill).trans (exists_congr fun b => ?_)
      exact not_congr List.map_eq_nil_iff
    simp only [QueueGuard, OwnQueue, hempty]
    refine forall_congr' fun _ => ?_
    constructor
    · rintro hg ⟨b, -, hb⟩
      exact hg ⟨b, hb⟩
    · rintro ho ⟨b, hb⟩
      by_cases hba : b = a
      · exact hba ▸ hb
      · exact ho ⟨b, hba, hb⟩

theorem counted_of_run {q : UInt32} {n : ComputeNode} {apps : ι → NfnProducerApp}
    (hw : ∀ a, (apps a).waitingList = []) (hp : ∀ a, (apps a).inProgress = [])
    (hrun : run System.step ⟨n.setQueueSize q, apps⟩ es = .ok s) :
    Counted n.need n.available s := by
  refine run_invariant (fun _ _ _ hc hs => hc.step (available_lt n) hs) ?_ hrun
  refine ⟨ledger_of_run hp (run_nil : run System.step ⟨n.setQueueSize q, apps⟩ [] = _), ?_, ?_⟩
  · exact Nat.zero_le _
  · refine (Finset.sum_eq_zero fun a _ => ?_).symm
    show ((apps a).waitingList.map InterestComponentStruct.job).length = 0
    rw [hw a]
    rfl

end System

/-- **The guard on the shared fill counter.** In a run of any number of apps on one node, every
execution end that passes the guard finds a computation in the own queue exactly when, at each
execution end, an app has a queued computation if another app has one; no run of this kind reaches
for the front of an empty queue. -/
theorem queueGuard_iff_ownQueue {ι : Type} [Fintype ι] [DecidableEq ι] {n : ComputeNode}
    {q : UInt32} {apps : ι → NfnProducerApp} (hw : ∀ a, (apps a).waitingList = [])
    (hp : ∀ a, (apps a).inProgress = []) (es : List (ι × Event)) :
    (StepsMeet System.step System.QueueGuard ⟨n.setQueueSize q, apps⟩ es ↔
      StepsMeet System.step System.OwnQueue ⟨n.setQueueSize q, apps⟩ es) ∧
    (StepsMeet System.step System.OwnQueue ⟨n.setQueueSize q, apps⟩ es →
      run System.step ⟨n.setQueueSize q, apps⟩ es ≠ .error .emptyQueue) := by
  have hiff : StepsMeet System.step System.QueueGuard ⟨n.setQueueSize q, apps⟩ es ↔
      StepsMeet System.step System.OwnQueue ⟨n.setQueueSize q, apps⟩ es := by
    refine forall₃_congr fun es₁ e s => forall₂_congr fun _ hrun => ?_
    exact (System.counted_of_run hw hp hrun).queueGuard_iff e
  refine ⟨hiff, fun ho => run_ne_error fun es₁ e s hpre hrun => ?_⟩
  have hguard := hiff.mpr ho es₁ e s hpre hrun
  refine bind_ne_error (Host.step_ne_emptyQueue fun now k he => ?_) fun _ _ => ok_ne_error
  obtain ⟨a, e⟩ := e
  dsimp only at he
  subst he
  exact hguard

/-- A request at each of two apps of a node with room for one, then the end of the first. -/
def strandedRun : List (Bool × Event) :=
  [(true, hogInterest), (false, hogInterest), (true, .executionEnd 0 0)]

/-- The end of the first execution passes the guard and finds its own queue empty. -/
theorem queueGuard_fails :
    ¬ (∀ es, StepsMeet System.step System.QueueGuard
        ⟨crampedNode.setQueueSize 2, twoApps.apps⟩ es) ∧
      run System.step ⟨crampedNode.setQueueSize 2, twoApps.apps⟩ strandedRun =
        .error .emptyQueue := by
  refine ⟨fun hall => ?_, rfl⟩
  have h := hall strandedRun [(true, hogInterest), (false, hogInterest)] _ _
    (List.prefix_refl _) rfl
  exact h (by decide) rfl rfl

/-- At the last event of that run the other app has a queued computation and the own app has none. -/
theorem queueGuard_iff_ownQueue_twoApps :
    ¬ StepsMeet System.step System.OwnQueue ⟨crampedNode.setQueueSize 2, twoApps.apps⟩
      strandedRun :=
  fun ho => (queueGuard_iff_ownQueue (fun _ => rfl) (fun _ => rfl) strandedRun).2 ho rfl

end IncSim
