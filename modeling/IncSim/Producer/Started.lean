import IncSim.Producer.Effects

/-!
# Which functions are started

Every call of `DoExecution` in an event of a single app, with the node as it is at the call.

* `started`: the calls of an event.
* **`step_inProgress`**: the calls are the executions that an event adds.
-/

namespace IncSim

open PartialRun

/-- A call of `DoExecution`: the node at the call, and what is started. -/
abbrev Start := ComputeNode × InterestComponentStruct

namespace Host

/-! ## The calls of an event -/

/-- The call in `ResolveAndHandleDecisions`. -/
def resolveStarts (h : Host) (cs : ContentStore) (t : InterestComponentStruct) : List Start :=
  match resolve cs t h.node with
  | .ok (node, .execute, _) =>
    match Host.checkResource ⟨node, h.app⟩ t.func with
    | .ok true => [(node, t)]
    | _ => []
  | _ => []

/-- The calls in `OnInterest`. -/
def interestStarts (h : Host) (cs : ContentStore) (interest : Name) : List Start :=
  if !h.app.active then []
  else if interest.getSubName 0 1 = ⟨[lambdaComp]⟩ then
    let (node, func) := findFunction h.node none interest.comps
    resolveStarts ⟨node, h.app⟩ cs ⟨interest, func, []⟩
  else []

/-- The calls behind the flag of `d` in entry `i`. -/
def pendingStarts (h : Host) (cs : ContentStore) (d : Name) (i : ℕ) (t : InterestComponentStruct) :
    List Start :=
  if t.pendingArgs.lookup d = some false then
    let t := t.setArg d true
    let h := { h with app :=
      { h.app with pendingContentTable := h.app.pendingContentTable.set i t } }
    if t.pendingArgs.all fun q => q.2 then h.resolveStarts cs t else []
  else []

/-- The calls in one round of the loop of `OnData`. -/
def entryStarts (h : Host) (cs : ContentStore) (d : Name) (i : ℕ) : List Start :=
  match h.app.pendingContentTable[i]? with
  | none => []
  | some t =>
    if t.pendingArgs.any fun q => q.1 = d then
      match h.codeDrag d t with
      | .ok (h, true) => h.pendingStarts cs d i t
      | _ => []
    else []

/-- The calls in the loop of `OnData`. -/
def entriesStarts (now : Time) (cs : ℕ → ContentStore) (d : Name) : ℕ → Host → List Start
  | 0, _ => []
  | i + 1, h => h.entryStarts (cs i) d i ++
    match h.visitEntry now (cs i) d i with
    | .ok h => entriesStarts now cs d i h
    | .error _ => []

/-- The calls in `OnData`. -/
def dataStarts (h : Host) (now : Time) (cs : ℕ → ContentStore) (d : Name) : List Start :=
  if !h.app.active then []
  else
    let h := { h with app :=
      { h.app with sendingInterestList := h.app.sendingInterestList.filter fun s => s ≠ d } }
    entriesStarts now cs d h.app.pendingContentTable.length h

/-- The call behind the test of the queue. -/
def queueStarts (h : Host) (now : Time) : List Start :=
  match h.app.waitingList with
  | [] => []
  | t :: _ =>
    match h.checkResource t.func with
    | .ok true => [((h.node.decrementQueueFill now).1, t)]
    | _ => []

/-- The call in `ScheduledExecutionEnd`. -/
def endStarts (h : Host) (now : Time) (e : Execution) : List Start :=
  match h.releaseResource e.func with
  | .ok h =>
    let h := h.send (.data e.data)
    if h.node.isQueueEmpty then [] else h.queueStarts now
  | .error _ => []

/-- The calls of `DoExecution` in an event. -/
def started (h : Host) : Event → List Start
  | .interest _ cs name => h.interestStarts cs name
  | .data now cs name => h.dataStarts now cs name
  | .executionEnd now k =>
    match h.app.inProgress[k]? with
    | none => []
    | some e =>
      endStarts { h with app := { h.app with inProgress := h.app.inProgress.eraseIdx k } } now e

/-! ## The calls are the executions that are added -/

variable {h h' : Host} {t : InterestComponentStruct} {now : Time} {cs : ContentStore}

/-- The executions that the calls schedule. -/
def jobs (l : List Start) : List Execution := l.map fun q => q.2.job

theorem doExecution_inProgress (hd : h.doExecution t = .ok h') :
    h'.app.inProgress = h.app.inProgress ++ [t.job] := by
  rw [app_doExecution hd]
  rfl

theorem resolve_inProgress (hr : h.resolveAndHandleDecisions now cs t = .ok h') :
    h'.app.inProgress = h.app.inProgress ++ jobs (h.resolveStarts cs t) := by
  simp only [resolveAndHandleDecisions, bind_eq_ok] at hr
  obtain ⟨⟨node, decision, names⟩, hres, hr⟩ := hr
  unfold resolveStarts
  rw [hres]
  have hforward : ∀ {g : Host}, g.app = h.app → g.forwardInterest t = .ok h' →
      h'.app.inProgress = h.app.inProgress := by
    intro g hg hf
    obtain ⟨-, l, happ⟩ := forwardInterest_ok hf
    rw [happ, ← hg]
  cases decision with
  | nack =>
    cases hr
    exact (List.append_nil _).symm
  | fetch =>
    cases hr
    exact (fetch_lists h.app t names).2.2.trans (List.append_nil _).symm
  | forward =>
    exact (hforward (g := ⟨node, h.app⟩) rfl hr).trans (List.append_nil _).symm
  | execute =>
    dsimp only
    obtain ⟨hc, hd⟩ | ⟨hc, hcase⟩ := executeOrQueue_ok hr
    · rw [hc]
      have hadd := doExecution_inProgress hd
      exact hadd
    · rw [hc]
      refine Eq.trans ?_ (List.append_nil _).symm
      obtain ⟨-, hf⟩ | ⟨-, rfl⟩ := hcase
      · exact hforward (g := { node := node.addNodeBusyCounter, app := h.app }) rfl hf
      · rfl

theorem interest_inProgress {name : Name} (ho : h.onInterest now cs name = .ok h') :
    h'.app.inProgress = h.app.inProgress ++ jobs (h.interestStarts cs name) := by
  unfold interestStarts
  obtain ⟨hoff, rfl⟩ | ⟨hon, hcase⟩ := onInterest_cases ho
  · rw [if_pos (by simp [hoff])]
    exact (List.append_nil _).symm
  · rw [if_neg (by simp [hon])]
    obtain ⟨hlambda, hr⟩ | ⟨hlambda, hcase⟩ := hcase
    · rw [if_pos hlambda]
      exact resolve_inProgress hr
    · rw [if_neg hlambda]
      refine Eq.trans ?_ (List.append_nil _).symm
      obtain ⟨-, -, happ | happ⟩ | ⟨-, rfl⟩ := hcase
      · rw [happ]
      · rw [happ]
        rfl
      · rfl

theorem codeDrag_inProgress {d : Name} {goOn : Bool} (hc : h.codeDrag d t = .ok (h', goOn)) :
    h'.app.inProgress = h.app.inProgress := by
  obtain ⟨-, ⟨happ, -⟩ | ⟨happ, -⟩⟩ := codeDrag_cases hc
  · rw [happ]
  · rw [happ]
    rfl

theorem pending_inProgress {d : Name} {i : ℕ} (hs : h.setPending now cs d i t = .ok h') :
    h'.app.inProgress = h.app.inProgress ++ jobs (h.pendingStarts cs d i t) := by
  unfold pendingStarts
  obtain ⟨hw, rfl⟩ | ⟨hw, ⟨hall, rfl⟩ | ⟨hall, hr⟩⟩ := setPending_cases hs
  · rw [if_neg hw]
    exact (List.append_nil _).symm
  · rw [if_pos hw]
    dsimp only
    rw [if_neg hall]
    exact (List.append_nil _).symm
  · rw [if_pos hw]
    dsimp only
    rw [if_pos hall]
    have hadd := resolve_inProgress hr
    exact hadd

theorem entry_inProgress {d : Name} {i : ℕ} (hv : h.visitEntry now cs d i = .ok h') :
    h'.app.inProgress = h.app.inProgress ++ jobs (h.entryStarts cs d i) := by
  obtain ⟨t, ht, hcase⟩ := visitEntry_cases hv
  unfold entryStarts
  rw [ht]
  dsimp only
  obtain ⟨hkey, rfl⟩ | ⟨hkey, ⟨g, hc, hs⟩ | hc⟩ := hcase
  · rw [if_neg hkey]
    exact (List.append_nil _).symm
  · rw [if_pos hkey, hc, ← codeDrag_inProgress hc]
    exact pending_inProgress hs
  · rw [if_pos hkey, hc, ← codeDrag_inProgress hc]
    exact (List.append_nil _).symm

theorem entries_inProgress {cs : ℕ → ContentStore} {d : Name} {i : ℕ}
    (hv : visitEntries now cs d i h = .ok h') :
    h'.app.inProgress = h.app.inProgress ++ jobs (entriesStarts now cs d i h) := by
  induction i generalizing h with
  | zero =>
    cases hv
    exact (List.append_nil _).symm
  | succ i ih =>
    obtain ⟨h₁, he, hv⟩ := bind_eq_ok.mp hv
    rw [entriesStarts, he, ih hv, entry_inProgress he, jobs, jobs, jobs, List.map_append,
      List.append_assoc]

theorem data_inProgress {cs : ℕ → ContentStore} {d : Name} (ho : h.onData now cs d = .ok h') :
    h'.app.inProgress = h.app.inProgress ++ jobs (h.dataStarts now cs d) := by
  unfold onData at ho
  unfold dataStarts
  split at ho
  · next hactive =>
    cases ho
    rw [if_pos hactive]
    exact (List.append_nil _).symm
  · next hactive =>
    rw [if_neg hactive]
    exact entries_inProgress ho

/-- The end of an execution releases its resources and answers, and starts the head of the queue or
nothing. -/
theorem executionEnd_started {k : ℕ} (hs : h.step (.executionEnd now k) = .ok h') :
    ∃ e g, h.app.inProgress[k]? = some e ∧ h.releaseResource e.func = .ok g ∧
      let app := { h.app with
        inProgress := h.app.inProgress.eraseIdx k, sent := h.app.sent ++ [.data e.data] }
      (h.started (.executionEnd now k) = [] ∧ h' = ⟨g.node, app⟩ ∨
        ∃ t rest, h.app.waitingList = t :: rest ∧
          h.started (.executionEnd now k) = [((g.node.decrementQueueFill now).1, t)] ∧
          Host.doExecution ⟨(g.node.decrementQueueFill now).1, { app with waitingList := rest }⟩ t =
            .ok h') := by
  obtain ⟨e, hk, hs⟩ := executionEnd_cases hs
  obtain ⟨g, hr, hcase⟩ := scheduledExecutionEnd_cases hs
  obtain ⟨f, hf, hg⟩ := bind_eq_ok.mp hr
  cases hg
  refine ⟨e, _, hk, bind_eq_ok.mpr ⟨f, hf, rfl⟩, ?_⟩
  unfold started
  dsimp only
  rw [hk]
  dsimp only [endStarts]
  rw [hr]
  dsimp only
  obtain ⟨hempty, rfl⟩ | ⟨hempty, hs⟩ := hcase
  · exact Or.inl ⟨if_pos hempty, rfl⟩
  · rw [if_neg (by exact hempty)]
    obtain ⟨t, rest, hw, ⟨hc, hd⟩ | ⟨hc, rfl⟩⟩ := serveQueue_cases hs
    · refine Or.inr ⟨t, rest, hw, ?_, hd⟩
      rw [queueStarts, hw]
      dsimp only
      rw [hc]
      rfl
    · refine Or.inl ⟨?_, rfl⟩
      rw [queueStarts, hw]
      dsimp only
      rw [hc]

/-- **The calls of `DoExecution`** are the executions that an event adds to those in progress. -/
theorem step_inProgress {e : Event} (hs : h.step e = .ok h') :
    h'.app.inProgress = (match e with
      | .executionEnd _ k => h.app.inProgress.eraseIdx k
      | _ => h.app.inProgress) ++ jobs (h.started e) := by
  cases e with
  | interest now cs name => exact interest_inProgress hs
  | data now cs name => exact data_inProgress hs
  | executionEnd now k =>
    obtain ⟨e, g, -, -, ⟨hnone, rfl⟩ | ⟨t, rest, -, hone, hd⟩⟩ := executionEnd_started hs
    · rw [hnone]
      exact (List.append_nil _).symm
    · rw [hone]
      exact doExecution_inProgress hd

end Host

end IncSim
