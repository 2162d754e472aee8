import IncSim.Producer.Effects

/-!
# The queue-full timer

The trace `FullQueueTimer` of a compute node, "Duration for which the node's queue was full". The
timer is started by an increment that finds the queue full, but `NfnProducerApp` asks
`IsQueueFull` before it increments. Only the constructor without arguments turns the timer off: a node
of the topology reader starts with whatever its flag holds.

* `QueueOp`, `queueStep`: the queue operations as the app makes them; `executeOrQueue_waits`,
  `serveQueue_serves`: where it makes them.
* `QueueWatch`: a node with the firings of the trace, and with those that measure the spans
  during which its queue was full.
* `never_fires`: the trace does not fire any more once the timer is off.
* **`measured_iff`**: the firings are the right ones exactly when, at every decrement, the queue is not
  full and the timer off, or the timer happens to measure the span that ends.
-/

namespace IncSim

open PartialRun

/-! ## Operations -/

/-- A queue operation at a time. -/
inductive QueueOp
  | increment (now : Time)
  | decrement (now : Time)

namespace QueueOp

/-- When the operation is made. -/
def now : QueueOp → Time
  | increment t => t
  | decrement t => t

end QueueOp

/-- A queue operation of the app: it increments only when the queue is not full, and decrements only
when it is not empty. -/
def queueStep (n : ComputeNode) : QueueOp → Except Unit ComputeNode
  | .increment now => if n.isQueueFull then .error () else .ok (n.incrementQueueFill now).1
  | .decrement now => if n.isQueueEmpty then .error () else .ok (n.decrementQueueFill now).1

section App

variable {h h' : Host} {now : Time} {t : InterestComponentStruct}

/-- A computation that has to wait is counted. -/
theorem executeOrQueue_waits (hres : h.checkResource t.func = .ok false)
    (hfull : ¬ h.node.isQueueFull = true) (he : h.executeOrQueue now t = .ok h') :
    queueStep h.node (.increment now) = .ok h'.node := by
  rcases Host.executeOrQueue_ok he with ⟨hc, -⟩ | ⟨-, ⟨hf, -⟩ | ⟨-, rfl⟩⟩
  · rw [hres] at hc
    cases hc
  · exact absurd hf hfull
  · rw [queueStep, if_neg hfull]

/-- A computation that is taken from the queue starts behind the decrement. -/
theorem serveQueue_serves {rest : List InterestComponentStruct}
    (hwait : h.app.waitingList = t :: rest) (hres : h.checkResource t.func = .ok true)
    (hempty : ¬ h.node.isQueueEmpty = true) (hs : h.serveQueue now = .ok h') :
    ∃ n, queueStep h.node (.decrement now) = .ok n ∧
      Host.doExecution ⟨n, { h.app with waitingList := rest }⟩ t = .ok h' := by
  unfold Host.serveQueue at hs
  rw [hwait] at hs
  dsimp only at hs
  rw [hres] at hs
  refine ⟨_, by rw [queueStep, if_neg hempty], hs⟩

end App

/-! ## Watching the queue -/

/-- A node whose queue is watched. -/
structure QueueWatch where
  node : ComputeNode
  /-- the firings of `FullQueueTimer`: when, and with which value -/
  fired : List (Time × Time)
  /-- since when the queue has been full -/
  since : Option Time
  /-- the firings that are due: at the end of each span during which the queue was full, with its
  length -/
  due : List (Time × Time)

namespace QueueWatch

/-- The watch of a node whose queue gets capacity `q`. -/
def start (n : ComputeNode) (q : UInt32) : QueueWatch := ⟨n.setQueueSize q, [], none, []⟩

/-- One operation. Operations at one time are taken in their order. -/
def step (w : QueueWatch) (op : QueueOp) : Except Unit QueueWatch := do
  let n ← queueStep w.node op
  pure
    { node := n
      fired := w.fired ++
        (n.fullQueueTimer.drop w.node.fullQueueTimer.length).map fun v => (op.now, v)
      since := if n.isQueueFull then some (w.since.getD op.now) else none
      due := w.due ++
        if n.isQueueFull then [] else w.since.toList.map fun a => (op.now, op.now - a) }

/-- The trace has fired as it should. -/
def Measured (w : QueueWatch) : Prop := w.fired = w.due

/-- A decrement finds the timer off and the queue not full, or the timer started at the time since which
the queue has been full. -/
def MeetsTimer (w : QueueWatch) : QueueOp → Prop
  | .increment _ => True
  | .decrement _ =>
    if w.node.fullTimerStarted then w.since = some w.node.qFullTime else w.node.isQueueFull = false

/-- A span is open exactly while the queue is full. -/
structure Spanned (w : QueueWatch) : Prop where
  fill : w.node.queueFill ≤ w.node.queueSize
  since : w.since = none ↔ w.node.isQueueFull = false

variable {w w' : QueueWatch} {op : QueueOp} {n n' : ComputeNode} {now : Time}

/-! ## One operation -/

/-- **An increment** of a queue that is not full. -/
theorem queueStep_increment (hle : n.queueFill ≤ n.queueSize)
    (h : queueStep n (.increment now) = .ok n') : n.isQueueFull = false ∧
      n'.fullTimerStarted = n.fullTimerStarted ∧ n'.fullQueueTimer = n.fullQueueTimer ∧
      n'.queueSize = n.queueSize ∧ n'.queueFill = n.queueFill + 1 ∧ n.queueFill < n.queueSize := by
  rw [queueStep] at h
  split_ifs at h with hfull
  cases h
  have hne : n.queueFill ≠ n.queueSize := fun heq => hfull (beq_iff_eq.mpr heq)
  have hlt : n.queueFill < n.queueSize := UInt32.lt_of_le_of_ne hle hne
  refine ⟨Bool.eq_false_of_not_eq_true hfull, ?_⟩
  unfold ComputeNode.incrementQueueFill
  rw [if_pos hlt]
  split_ifs <;> exact ⟨rfl, rfl, rfl, rfl, hlt⟩

/-- **A decrement** of a queue that is not empty stops the timer. -/
theorem queueStep_decrement (h : queueStep n (.decrement now) = .ok n') :
    n' = { n with
      queueFill := n.queueFill - 1
      fullTimerStarted := false
      fullQueueTimer := n.fullQueueTimer ++
        if n.fullTimerStarted then [now - n.qFullTime] else [] } ∧ 0 < n.queueFill := by
  rw [queueStep] at h
  split_ifs at h with hempty
  cases h
  have hpos : 0 < n.queueFill := by
    refine UInt32.pos_iff_ne_zero.mpr fun h₀ => hempty ?_
    exact beq_iff_eq.mpr h₀
  refine ⟨?_, hpos⟩
  unfold ComputeNode.decrementQueueFill
  rw [if_pos hpos]
  dsimp only
  split_ifs with hstarted
  · rfl
  · rw [List.append_nil, ← Bool.eq_false_of_not_eq_true hstarted]

theorem toNat_succ_fill (hlt : n.queueFill < n.queueSize) :
    (n.queueFill + 1).toNat = n.queueFill.toNat + 1 := by
  have hlt := UInt32.lt_iff_toNat_lt.mp hlt
  have hsize := n.queueSize.toNat_lt
  rw [UInt32.toNat_add, UInt32.toNat_one]
  exact Nat.mod_eq_of_lt (by omega)

theorem toNat_pred_fill (hpos : 0 < n.queueFill) :
    (n.queueFill - 1).toNat + 1 = n.queueFill.toNat := by
  have hpos := UInt32.lt_iff_toNat_lt.mp hpos
  rw [UInt32.toNat_zero] at hpos
  have hone : (1 : UInt32) ≤ n.queueFill := UInt32.le_iff_toNat_le.mpr hpos
  rw [UInt32.toNat_sub_of_le _ _ hone, UInt32.toNat_one]
  omega

theorem step_ok (h : w.step op = .ok w') : ∃ n, queueStep w.node op = .ok n ∧ w' =
    { node := n
      fired := w.fired ++
        (n.fullQueueTimer.drop w.node.fullQueueTimer.length).map fun v => (op.now, v)
      since := if n.isQueueFull then some (w.since.getD op.now) else none
      due := w.due ++
        if n.isQueueFull then [] else w.since.toList.map fun a => (op.now, op.now - a) } := by
  obtain ⟨n, hn, h⟩ := bind_eq_ok.mp h
  cases h
  exact ⟨n, hn, rfl⟩

/-- What a decrement lets fire is what is due. -/
theorem meetsTimer_decrement_iff (hw : Spanned w) :
    w.MeetsTimer (.decrement now) ↔
      (if w.node.fullTimerStarted then [now - w.node.qFullTime] else []).map (fun v => (now, v)) =
        w.since.toList.map fun a => (now, now - a) := by
  rw [MeetsTimer]
  split_ifs with hstarted
  · cases w.since <;> simp [eq_comm]
  · rw [← hw.since]
    cases w.since <;> simp

/-- **One operation** keeps the spans, and lets the right firings be followed by the right ones exactly
when it meets the timer. -/
theorem Spanned.step (hw : Spanned w) (h : w.step op = .ok w') :
    Spanned w' ∧ (w.Measured → (w'.Measured ↔ w.MeetsTimer op)) := by
  obtain ⟨n, hn, rfl⟩ := step_ok h
  cases op with
  | increment now =>
    obtain ⟨hfull, -, htimer, hsize, hfill, hlt⟩ := queueStep_increment hw.fill hn
    have hnone := hw.since.mpr hfull
    rw [hnone]
    refine ⟨⟨?_, ?_⟩, fun hmeasured => iff_of_true ?_ trivial⟩
    · rw [UInt32.le_iff_toNat_le]
      dsimp only
      rw [hsize, hfill, toNat_succ_fill hlt]
      exact UInt32.lt_iff_toNat_lt.mp hlt
    · dsimp only
      split_ifs with hfull' <;> simp [hfull']
    · rw [Measured] at hmeasured ⊢
      dsimp only
      rw [htimer, List.drop_length, hmeasured]
      split_ifs <;> rfl
  | decrement now =>
    obtain ⟨rfl, hpos⟩ := queueStep_decrement hn
    have hpred := toNat_pred_fill hpos
    have hle := UInt32.le_iff_toNat_le.mp hw.fill
    have hfull' : (w.node.queueFill - 1 == w.node.queueSize) = false := by
      refine beq_eq_false_iff_ne.mpr fun heq => ?_
      rw [← UInt32.toNat_inj] at heq
      omega
    simp only [ComputeNode.isQueueFull, hfull', Bool.false_eq_true, if_false]
    refine ⟨⟨?_, iff_of_true rfl hfull'⟩, fun hmeasured => ?_⟩
    · rw [UInt32.le_iff_toNat_le]
      dsimp only
      omega
    · rw [Measured] at hmeasured
      rw [meetsTimer_decrement_iff hw, Measured]
      dsimp only [QueueOp.now]
      rw [List.drop_left, hmeasured, List.append_cancel_left_eq]

/-- **Once the timer is off, the trace does not fire.** -/
theorem never_fires {ops : List QueueOp} (hw : Spanned w) (hoff : w.node.fullTimerStarted = false)
    (h : run step w ops = .ok w') : w'.fired = w.fired := by
  suffices hinv : Spanned w' ∧ w'.node.fullTimerStarted = false ∧ w'.fired = w.fired from hinv.2.2
  refine run_invariant
    (P := fun v => Spanned v ∧ v.node.fullTimerStarted = false ∧ v.fired = w.fired) ?_
    ⟨hw, hoff, rfl⟩ h
  rintro v op v' ⟨hspan, hoff, hfired⟩ hs
  refine ⟨(hspan.step hs).1, ?_⟩
  obtain ⟨n, hn, rfl⟩ := step_ok hs
  cases op with
  | increment now =>
    obtain ⟨-, hsame, htimer, -⟩ := queueStep_increment hspan.fill hn
    refine ⟨hsame.trans hoff, ?_⟩
    dsimp only
    rw [htimer, List.drop_length, List.map_nil, List.append_nil, hfired]
  | decrement now =>
    obtain ⟨rfl, -⟩ := queueStep_decrement hn
    refine ⟨rfl, ?_⟩
    dsimp only
    rw [hoff, List.drop_left, hfired]
    exact List.append_nil _

/-! ## Whole runs -/

theorem spanned_start {q : UInt32} (hq : 0 < q) : Spanned (start n q) where
  fill := UInt32.zero_le
  since := by
    refine iff_of_true rfl (beq_eq_false_iff_ne.mpr ?_)
    exact (UInt32.pos_iff_ne_zero.mp hq).symm

/-- **The firings measure the spans during which the queue was full** exactly when every decrement of
the run meets the timer. -/
theorem measured_iff {q : UInt32} {ops : List QueueOp} (hq : 0 < q)
    (hrun : run step (start n q) ops = .ok w') :
    Always step Measured (start n q) ops ↔ StepsMeet step MeetsTimer (start n q) ops := by
  refine always_iff_stepsMeet (I := Spanned) (fun _ _ _ hw hs => (hw.step hs).1) ?_
    (spanned_start hq) rfl hrun
  intro w op w' hw hmeasured hs
  exact (hw.step hs).2 hmeasured

/-- A node that is watched. -/
def watchedNode : ComputeNode := .fresh "compute_node_0".toList 100 1 []

/-- Two places, one computation that waits from 3 to 10. -/
theorem measured_twoPlaces :
    Always step Measured (start watchedNode 2) [.increment 3, .decrement 10] := by
  refine (measured_iff (by decide) rfl).mpr (stepsMeet_cons trivial fun w hw => ?_)
  refine stepsMeet_cons ?_ fun _ _ => stepsMeet_nil
  cases hw
  rfl

/-- One place: the queue is full from 3 to 10, and the trace does not fire. -/
theorem not_measured_onePlace :
    ∃ w, run step (start watchedNode 1) [.increment 3, .decrement 10] = .ok w ∧
      w.due = [(10, 7)] ∧ w.fired = [] ∧ ¬ w.Measured := by
  refine ⟨_, rfl, rfl, rfl, ?_⟩
  intro hmeasured
  cases hmeasured

end QueueWatch

end IncSim
