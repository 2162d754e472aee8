import IncSim.Producer.Drain
import IncSim.Producer.Excluded

/-!
# Starts from the queue

What may happen to a function while an interest waits for it.

* `turns`, `turned`: what an event, and a run, does to the switch of a function; **`enabled_run`**:
  a function is enabled when the last turn is on.
* `Joins`, `commandedStep_queue`: what joins the queue was let pass, and the head is what leaves it.
* `Wait`, `waits`: since when each interest waits, and what has happened since; `waits_run`.
* `Wait.Clears`, **`allowed_iff_clears`**: what lets the head of the queue be started.
* `Warranted`, **`startsAllowed_iff_warranted`**: in a run only allowed functions are started exactly
  when every start is warranted.
-/

namespace IncSim

open PartialRun Tally

open ComputeNode (Same)

namespace Host

variable {h h' g : Host} {t : InterestComponentStruct} {now : Time} {cs : ContentStore} {d : Name}
  {i : ℕ} {k : Str} {e : Commanded} {es : List Commanded}

/-! ## The switch of a function -/

instance (n : ComputeNode) (d : Name) (k : Str) : Decidable (Dragged n d k) :=
  decidable_of_iff (Brings d k ∧ (n.deref (some k)).isOk = true) <| by
    refine and_congr_right fun _ => ?_
    cases n.deref (some k) <;> simp [Except.isOk, Except.toBool]

/-- What an event does to the switch of `k`: `true` for off, `false` for on. Data that brings `k` to
an entry of the table turns it on. -/
def turns (h : Host) (k : Str) : Commanded → List Bool
  | .app (.data _ _ d) =>
    if h.app.active = true ∧
        (∃ t ∈ h.app.pendingContentTable, (t.pendingArgs.any fun q => q.1 = d) = true) ∧
          Dragged h.node d k then [false]
    else []
  | e => e.tells k

/-- What a run does to the switch of `k`. -/
def turned (k : Str) : Host → List Commanded → List Bool
  | _, [] => []
  | h, e :: es => h.turns k e ++
    match h.commandedStep e with
    | .ok h => turned k h es
    | .error _ => []

theorem fixed_computationName : Fixed IncComputation.computationName where
  execute _ := rfl
  addMiss f := by
    unfold IncComputation.addMissExecCounter
    split_ifs <;> rfl
  enable _ := rfl
  disable _ := rfl

theorem commandedStep_same {α : Type} {attr : IncComputation → α} (ha : Fixed attr)
    (hs : h.commandedStep e = .ok h') : Same attr h.node h'.node := by
  obtain ⟨e', hs⟩ | ⟨-, hswitch⟩ := commandedStep_cases hs
  · exact step_admits ha.admits hs
  · exact hswitch _ (ComputeNode.admitsSwitch_same ha)

theorem run_same {α : Type} {attr : IncComputation → α} (ha : Fixed attr)
    (hrun : run commandedStep h es = .ok h') : Same attr h.node h'.node :=
  run_invariant (P := fun g => Same attr h.node g.node)
    (fun _ _ _ hsame hs => hsame.trans (commandedStep_same ha hs)) (Same.refl attr h.node) hrun

/-- One event: a function that the node has is enabled when the last turn is on, or when there is no
turn and it was enabled. -/
theorem commandedStep_enabled (hs : h.commandedStep e = .ok h') (k : Str) :
    h'.node.Enabled k ↔ (∃ c, h.node.funcMap.lookup k = some (some c)) ∧
      LastDown (h.node.Enabled k) (h.turns k e) := by
  have hkept : ∀ {l : List Bool}, l = [] → (h'.node.Enabled k ↔ h.node.Enabled k) →
      (h'.node.Enabled k ↔ (∃ c, h.node.funcMap.lookup k = some (some c)) ∧
        LastDown (h.node.Enabled k) l) := by
    rintro l rfl hiff
    rw [hiff, lastDown_nil]
    exact ⟨fun hf => ⟨hf.imp fun c hc => hc.1, hf⟩, And.right⟩
  cases e with
  | ndnSwitch interest => exact (rounds_of_switches rfl hs).enabled
  | udpSwitch packet_data => exact (rounds_of_switches rfl hs).enabled
  | app e =>
    cases e with
    | interest now cs name =>
      exact hkept rfl ((onInterest_admits kept_enableComputation.admits hs).enabled k)
    | executionEnd now i =>
      obtain ⟨x, -, hend⟩ := executionEnd_cases hs
      have hsame := scheduledExecutionEnd_admits kept_enableComputation.admits hend
      exact hkept rfl (hsame.enabled k)
    | data now cs d =>
      have hdata := onData_enabled hs k
      unfold turns
      dsimp only
      split_ifs with hturn
      · obtain ⟨f, hf⟩ := hturn.2.2.2
        exact iff_of_true (hdata.mpr (Or.inr hturn))
          ⟨⟨f, ComputeNode.deref_eq_ok.mp hf⟩, Or.inl rfl⟩
      · exact hkept rfl (hdata.trans (or_iff_left hturn))

/-- **A function is enabled** after a run when the last turn is on, or when there is no turn and it
was enabled. -/
theorem enabled_run {c : IncComputation} (hc : h.node.deref (some k) = .ok c)
    (hrun : run commandedStep h es = .ok g) :
    g.node.Enabled k ↔ LastDown (h.node.Enabled k) (turned k h es) := by
  induction es generalizing h c with
  | nil =>
    cases hrun
    exact lastDown_nil.symm
  | cons e es ih =>
    obtain ⟨h₁, hs, hrun⟩ := run_cons.mp hrun
    obtain ⟨c₁, hc₁, -⟩ := (commandedStep_same fixed_computationName hs).deref hc
    rw [turned, hs, lastDown_append, ih hc₁ hrun, commandedStep_enabled hs,
      and_iff_right ⟨c, ComputeNode.deref_eq_ok.mp hc⟩]

/-! ## What joins the queue -/

/-- What an event of the app may do to the functions while an interest joins: none is disabled,
renamed or excluded. -/
structure Spares (n n' : ComputeNode) : Prop where
  enabled : ∀ k, n.Enabled k → n'.Enabled k
  name : Same IncComputation.computationName n n'
  excludeList : n'.funcExcludeList = n.funcExcludeList

theorem spares_of_same {n n' : ComputeNode} (hen : Same IncComputation.enableComputation n n')
    (hname : Same IncComputation.computationName n n')
    (hlist : n'.funcExcludeList = n.funcExcludeList) : Spares n n' :=
  ⟨fun k => (hen.enabled k).mpr, hname, hlist⟩

theorem admits_spares : AdmitsEnable Spares where
  trans hs hs' := ⟨fun _ hk => hs'.enabled _ (hs.enabled _ hk), hs.name.trans hs'.name,
    hs'.excludeList.trans hs.excludeList⟩
  rest hmap hlist := spares_of_same (Same.of_funcMap hmap) (Same.of_funcMap hmap) hlist
  lookup n k := spares_of_same (ComputeNode.same_getFunction k) (ComputeNode.same_getFunction k)
    (ComputeNode.excludeList_getFunction n k)
  miss _ _ := spares_of_same (ComputeNode.same_update kept_enableComputation.addMiss)
    (ComputeNode.same_update fixed_computationName.addMiss) rfl
  execute _ _ := spares_of_same (ComputeNode.same_update kept_enableComputation.execute)
    (ComputeNode.same_update fixed_computationName.execute) rfl
  enable he := ⟨fun _ hk => (ComputeNode.enabled_enableFunction he).mpr (Or.inl hk),
    ComputeNode.same_enableFunction fixed_computationName.enable he,
    ComputeNode.excludeList_enableFunction he⟩

theorem passes_of_spares {n n' : ComputeNode} (hp : Passes n t) (hs : Spares n n') : Passes n' t := by
  obtain ⟨name, hname, hen⟩ := hp.engine
  obtain ⟨f, hf, hex⟩ := hp.listed
  refine ⟨⟨name, hname, hs.enabled _ hen⟩, ?_⟩
  cases hfunc : t.func with
  | none =>
    rw [hfunc] at hf
    cases hf
  | some k =>
    rw [hfunc] at hf
    obtain ⟨f', hf', heq⟩ := hs.name.deref hf
    refine ⟨f', hf', ?_⟩
    rw [heq, ComputeNode.checkExcludeList, hs.excludeList]
    exact hex

/-- Interests join the queue, each of them let pass. -/
def Joins (h h' : Host) : Prop :=
  ∃ l, h'.app.waitingList = h.app.waitingList ++ l ∧ ∀ t ∈ l, Passes h'.node t

theorem Joins.of_eq (hw : h'.app.waitingList = h.app.waitingList) : Joins h h' :=
  ⟨[], hw.trans (List.append_nil _).symm, List.forall_mem_nil _⟩

theorem Joins.trans (hj : Joins h g) (hs : Spares g.node h'.node) (hj' : Joins g h') : Joins h h' := by
  obtain ⟨l, hl, hp⟩ := hj
  obtain ⟨l', hl', hp'⟩ := hj'
  refine ⟨l ++ l', by rw [hl', hl, List.append_assoc], fun t ht => ?_⟩
  rcases List.mem_append.mp ht with ht | ht
  · exact passes_of_spares (hp t ht) hs
  · exact hp' t ht

theorem resolve_joins (hr : h.resolveAndHandleDecisions now cs t = .ok h') : Joins h h' := by
  obtain ⟨⟨node, decision, names⟩, hres, hr⟩ := bind_eq_ok.mp hr
  have hforward : ∀ {g : Host}, g.app = h.app → g.forwardInterest t = .ok h' → Joins h h' := by
    intro g hg hf
    refine .of_eq ?_
    rw [forwardInterest_app hf, ← hg]
    rfl
  cases decision with
  | nack =>
    cases hr
    exact .of_eq rfl
  | fetch =>
    cases hr
    exact .of_eq (fetch_lists h.app t names).2.1
  | forward => exact hforward (g := ⟨node, h.app⟩) rfl hr
  | execute =>
    obtain ⟨rfl, hp⟩ := resolve_execute hres
    dsimp only at hr
    obtain ⟨-, hd⟩ | ⟨-, ⟨-, hf⟩ | ⟨-, rfl⟩⟩ := executeOrQueue_ok hr
    · refine .of_eq ?_
      rw [app_doExecution hd]
      rfl
    · exact hforward (g := ⟨h.node.addNodeBusyCounter, h.app⟩) rfl hf
    · obtain ⟨hmap, hlist⟩ := ComputeNode.incrementQueueFill_funcMap (n := h.node) now
      refine ⟨[t], rfl, fun t' ht' => ?_⟩
      obtain rfl := List.mem_singleton.mp ht'
      exact passes_of_spares hp (admits_spares.rest hmap hlist)

theorem visitEntry_joins (hv : h.visitEntry now cs d i = .ok h') : Joins h h' := by
  obtain ⟨t, ht, ⟨-, rfl⟩ | ⟨-, ⟨g, hc, hs⟩ | hc⟩⟩ := visitEntry_cases hv
  · exact .of_eq rfl
  · have hdrag : g.app.waitingList = h.app.waitingList := by
      obtain ⟨-, ⟨happ, -⟩ | ⟨-, hfalse⟩⟩ := codeDrag_cases hc
      · rw [happ]
      · cases hfalse
    obtain ⟨-, rfl⟩ | ⟨-, ⟨-, rfl⟩ | ⟨-, hr⟩⟩ := setPending_cases hs
    · exact .of_eq hdrag
    · exact .of_eq hdrag
    · obtain ⟨l, hl, hp⟩ := resolve_joins hr
      have hlist : h'.app.waitingList = g.app.waitingList ++ l := hl
      exact ⟨l, hlist.trans (by rw [hdrag]), hp⟩
  · refine .of_eq ?_
    obtain ⟨-, ⟨happ, -⟩ | ⟨happ, -⟩⟩ := codeDrag_cases hc
    · rw [happ]
    · rw [happ]
      rfl

theorem visitEntries_joins {cs : ℕ → ContentStore} (hv : visitEntries now cs d i h = .ok h') :
    Joins h h' := by
  induction i generalizing h with
  | zero =>
    cases hv
    exact .of_eq rfl
  | succ i ih =>
    obtain ⟨g, hg, hv⟩ := bind_eq_ok.mp hv
    exact (visitEntry_joins hg).trans (visitEntries_admits admits_spares hv) (ih hv)

theorem onInterest_joins {name : Name} (ho : h.onInterest now cs name = .ok h') : Joins h h' := by
  obtain ⟨-, rfl⟩ | ⟨-, ⟨-, hr⟩ | ⟨-, ⟨-, -, happ⟩ | ⟨-, rfl⟩⟩⟩ := onInterest_cases ho
  · exact .of_eq rfl
  · obtain ⟨l, hl, hp⟩ := resolve_joins hr
    exact ⟨l, hl, hp⟩
  · refine .of_eq ?_
    rcases happ with happ | happ
    · rw [happ]
    · rw [happ]
      rfl
  · exact .of_eq rfl

theorem onData_joins {cs : ℕ → ContentStore} (ho : h.onData now cs d = .ok h') : Joins h h' := by
  unfold onData at ho
  split at ho
  · cases ho
    exact .of_eq rfl
  · obtain ⟨l, hl, hp⟩ := visitEntries_joins (h := h.received d) ho
    exact ⟨l, hl, hp⟩

/-- How many interests an event takes from the queue. -/
def taken (h : Host) : Commanded → ℕ
  | .app (.executionEnd now k) => (h.started (.executionEnd now k)).length
  | _ => 0

/-- **The queue in one event**: the head leaves when it is started, and what joins is let pass. -/
theorem commandedStep_queue (hs : h.commandedStep e = .ok h') :
    ∃ l, h'.app.waitingList = h.app.waitingList.drop (h.taken e) ++ l ∧ ∀ t ∈ l, Passes h'.node t := by
  cases e with
  | ndnSwitch interest =>
    obtain ⟨node, -, hs⟩ := bind_eq_ok.mp hs
    cases hs
    exact Joins.of_eq rfl
  | udpSwitch packet_data =>
    obtain ⟨⟨node, reply⟩, -, hs⟩ := bind_eq_ok.mp hs
    cases hs
    exact Joins.of_eq rfl
  | app e =>
    cases e with
    | interest now cs name => exact onInterest_joins hs
    | data now cs d => exact onData_joins hs
    | executionEnd now k =>
      refine ⟨[], ?_, List.forall_mem_nil _⟩
      rw [List.append_nil, taken]
      obtain ⟨x, g, -, -, ⟨hnone, rfl⟩ | ⟨t, rest, hw, hone, hd⟩⟩ := executionEnd_started hs
      · rw [hnone]
        rfl
      · rw [hone, hw, app_doExecution hd]
        rfl

end Host

/-! ## Waiting -/

/-- The wait of an interest: the app and its node when it had joined the queue, and what has happened
since. -/
structure Wait where
  joined : Host
  since : List Commanded

/-- The wait goes on. -/
def Wait.hear (e : Commanded) (w : Wait) : Wait := { w with since := w.since ++ [e] }

namespace Host

variable {h h' g : Host} {t : InterestComponentStruct} {k : Str} {e : Commanded}
  {es : List Commanded} {w : Wait} {ws : List Wait}

/-- The waits of the queue after an event that leads from `h` to `h'`. -/
def waitsAfter (h h' : Host) (e : Commanded) (ws : List Wait) : List Wait :=
  let stay := (ws.drop (h.taken e)).map (Wait.hear e)
  stay ++ List.replicate (h'.app.waitingList.length - stay.length) ⟨h', []⟩

/-- The waits of the queue after a run. -/
def waits : Host → List Wait → List Commanded → List Wait
  | _, ws, [] => ws
  | h, ws, e :: es =>
    match h.commandedStep e with
    | .ok h' => waits h' (waitsAfter h h' e ws) es
    | .error _ => ws

/-- The interest joined the queue when it was let pass, and `h` is what the run has come to since. -/
structure Waited (h : Host) (t : InterestComponentStruct) (w : Wait) : Prop where
  run : run commandedStep w.joined w.since = .ok h
  passes : Passes w.joined.node t

theorem commandedStep_waited (hs : h.commandedStep e = .ok h')
    (hw : List.Forall₂ (Waited h) h.app.waitingList ws) :
    List.Forall₂ (Waited h') h'.app.waitingList (waitsAfter h h' e ws) := by
  obtain ⟨l, hl, hp⟩ := commandedStep_queue hs
  have hstay : List.Forall₂ (Waited h') (h.app.waitingList.drop (h.taken e))
      ((ws.drop (h.taken e)).map (Wait.hear e)) := by
    refine List.forall₂_map_right_iff.mpr ((List.forall₂_drop _ hw).imp fun t w ht => ?_)
    exact ⟨run_concat.mpr ⟨h, ht.run, hs⟩, ht.passes⟩
  have hjoin : ∀ l : List InterestComponentStruct, (∀ t ∈ l, Passes h'.node t) →
      List.Forall₂ (Waited h') l (List.replicate l.length ⟨h', []⟩) := by
    intro l hp
    induction l with
    | nil => exact .nil
    | cons t l ih =>
      obtain ⟨ht, hl⟩ := List.forall_mem_cons.mp hp
      exact .cons ⟨rfl, ht⟩ (ih hl)
  unfold waitsAfter
  dsimp only
  rw [hl, List.length_append, hstay.length_eq, Nat.add_sub_cancel_left]
  exact List.rel_append hstay (hjoin l hp)

/-- **The waits of a run** belong to the interests that wait. -/
theorem waits_run (hw : List.Forall₂ (Waited h) h.app.waitingList ws)
    (hrun : run commandedStep h es = .ok g) :
    List.Forall₂ (Waited g) g.app.waitingList (waits h ws es) := by
  induction es generalizing h ws with
  | nil =>
    cases hrun
    exact hw
  | cons e es ih =>
    obtain ⟨h₁, hs, hrun⟩ := run_cons.mp hrun
    unfold waits
    rw [hs]
    exact ih (commandedStep_waited hs hw) hrun

end Host

/-! ## What lets the head of the queue be started -/

/-- What has happened during the wait lets `t` be started. In every final segment its function is
enabled at least as often as it is disabled; and the switch of the function was last turned on, or it
was not turned and the function is the one that the engine has looked at, or was enabled. -/
def Wait.Clears (w : Wait) (t : InterestComponentStruct) : Prop :=
  ∃ k f, t.func = some k ∧ w.joined.node.deref (some k) = .ok f ∧
    (∀ s, s <:+ said f.computationName.toUri w.since → s.count true ≤ s.count false) ∧
      LastDown (AsksForOne t ∨ w.joined.node.Enabled k) (Host.turned k w.joined w.since)

namespace Host

variable {h h' g : Host} {t : InterestComponentStruct} {k : ℕ} {e : Commanded}
  {es : List Commanded} {w : Wait}

/-- **The head of the queue** is allowed when its wait clears it. -/
theorem allowed_iff_clears (hw : Waited g t w) : g.node.Allowed t.func ↔ w.Clears t := by
  obtain ⟨f, hf, hex⟩ := hw.passes.listed
  unfold ComputeNode.Allowed Wait.Clears
  rcases hfunc : t.func with _ | k
  · rw [hfunc] at hf
    cases hf
  rw [hfunc] at hf
  obtain ⟨f', hf', hname⟩ := (run_same fixed_computationName hw.run).deref hf
  -- the exclude list at the end of the wait
  have hlist : g.node.checkExcludeList f'.computationName.toUri = false ↔
      ∀ s, s <:+ said f.computationName.toUri w.since → s.count true ≤ s.count false := by
    have hzero : w.joined.node.funcExcludeList.count f.computationName.toUri = 0 := by
      rw [ComputeNode.checkExcludeList] at hex
      exact List.count_eq_zero.mpr (by simpa using hex)
    have hcount := count_excludeList (f := f.computationName.toUri) hw.run
    rw [hzero] at hcount
    rw [← tally_zero_eq_zero, ← hcount, List.count_eq_zero, hname, ComputeNode.checkExcludeList]
    simp
  -- the function that the engine has looked at was enabled when the wait began
  have hbase : AsksForOne t ∨ w.joined.node.Enabled k ↔ w.joined.node.Enabled k := by
    refine or_iff_right_of_imp fun hone => ?_
    obtain ⟨name, hextract, hen⟩ := hw.passes.engine
    have hk := hone name hextract
    rw [hfunc] at hk
    cases hk
    exact hen
  have hen := enabled_run hf hw.run
  constructor
  · rintro ⟨c, hc, hon, hallowed⟩
    cases hc.symm.trans hf'
    exact ⟨k, f, rfl, hf, hlist.mp hallowed, by
      rw [hbase, ← hen]
      exact ⟨f', ComputeNode.deref_eq_ok.mp hf', hon⟩⟩
  · rintro ⟨k', c, hk', hc, hsaid, hlast⟩
    cases hk'
    cases hc.symm.trans hf
    rw [hbase, ← hen] at hlast
    exact ⟨f', hf', ComputeNode.enabled_of_deref hf' hlast, hlist.mpr hsaid⟩

/-! ## Runs -/

/-- What the starts of an event need: an interest that is started at once runs the function that the
engine has looked at, or one that is enabled or brought by the data; the wait of the head of the queue
clears it. -/
def WarrantedIn (h : Host) (ws : List Wait) : Commanded → Prop
  | .app (.interest now cs name) =>
    ∀ q ∈ h.started (.interest now cs name), AsksForOne q.2 ∨ RunsEnabled h.node.Enabled q.2
  | .app (.data now cs d) =>
    ∀ q ∈ h.started (.data now cs d), AsksForOne q.2 ∨ RunsEnabled (h.EnabledWith d) q.2
  | .app (.executionEnd _ k) => ∀ t, h.TakesHead k t → ∀ w ∈ ws.head?, w.Clears t
  | _ => True

/-- Every start of a run is warranted. -/
def Warranted (h : Host) (es : List Commanded) : Prop :=
  ∀ es₁ e g, es₁ ++ [e] <+: es → run commandedStep h es₁ = .ok g → g.WarrantedIn (waits h [] es₁) e

/-- The executions that an event adds are those that it starts. -/
def AddsStarted (h : Host) (e : Commanded) : Prop :=
  ∀ h', h.commandedStep e = .ok h' →
    h'.app.inProgress = (match e with
      | .app (.executionEnd _ k) => h.app.inProgress.eraseIdx k
      | _ => h.app.inProgress) ++ jobs (h.startedIn e)

theorem addsStarted (h : Host) (e : Commanded) : h.AddsStarted e := by
  intro h' hs
  cases e with
  | ndnSwitch interest =>
    obtain ⟨node, -, hs⟩ := bind_eq_ok.mp hs
    cases hs
    exact (List.append_nil _).symm
  | udpSwitch packet_data =>
    obtain ⟨⟨node, reply⟩, -, hs⟩ := bind_eq_ok.mp hs
    cases hs
    exact (List.append_nil _).symm
  | app e =>
    have hadd := step_inProgress hs
    cases e with
    | interest now cs name => exact hadd
    | data now cs d => exact hadd
    | executionEnd now k => exact hadd

/-- What is started at once. -/
theorem starts_allowed_iff {l : List Start} {enabled : Str → Prop}
    (hl : ∀ q ∈ l, Passes q.1 q.2 ∧ ∀ k, q.1.Enabled k ↔ enabled k) :
    (∀ q ∈ l, q.1.Allowed q.2.func) ↔ ∀ q ∈ l, AsksForOne q.2 ∨ RunsEnabled enabled q.2 := by
  refine forall₂_congr fun q hq => ?_
  obtain ⟨hp, hen⟩ := hl q hq
  rw [hp.allowed_iff]
  exact or_congr_right (exists_congr fun k => and_congr_right fun _ => hen k)

/-- **One event.** -/
theorem startsAllowed_iff_warrantedIn {ws : List Wait}
    (hw : List.Forall₂ (Waited h) h.app.waitingList ws) : h.StartsAllowed e ↔ h.WarrantedIn ws e := by
  cases e with
  | ndnSwitch interest => exact iff_of_true (List.forall_mem_nil _) trivial
  | udpSwitch packet_data => exact iff_of_true (List.forall_mem_nil _) trivial
  | app e =>
    cases e with
    | interest now cs name => exact starts_allowed_iff fun q hq => interestStarts_passes hq
    | data now cs d => exact starts_allowed_iff fun q hq => dataStarts_passes hq
    | executionEnd now k =>
      refine executionEnd_allowed_iff.trans (forall₂_congr fun t ht => ?_)
      obtain ⟨x, rest, f, c, -, hlist, -⟩ := ht
      rw [hlist] at hw
      cases hw with
      | cons hhead _ =>
        rw [allowed_iff_clears hhead]
        exact ⟨fun hc w' hw' => Option.some.inj hw' ▸ hc, fun hc => hc _ rfl⟩

/-- **A disabled or excluded function is never started** in a run that begins with an empty queue,
exactly when every start of the run is warranted. What the events start are the executions that they
add. -/
theorem startsAllowed_iff_warranted (hstart : h.app.waitingList = []) (es : List Commanded) :
    StepsMeet commandedStep AddsStarted h es ∧
      (StepsMeet commandedStep StartsAllowed h es ↔ h.Warranted es) := by
  refine ⟨fun _ e g _ _ => addsStarted g e, ?_⟩
  refine forall₅_congr fun es₁ e g hp hrun => ?_
  refine startsAllowed_iff_warrantedIn (waits_run ?_ hrun)
  rw [hstart]
  exact .nil

end Host

/-- One core, and a function that takes it. -/
def oneCore : Host :=
  ⟨.fresh "n".toList 10 1 [.fresh "f".toList 1 1 0], .start ⟨1, nfnProducerAppFace⟩⟩

/-- The second interest waits for the core; meanwhile the function is switched off. -/
def switchedOff : List Commanded :=
  [.app (.interest 0 (fun _ _ => true) ⟨[lambdaComp, functionComp, "f".toList]⟩),
   .app (.interest 0 (fun _ _ => true) ⟨[lambdaComp, functionComp, "f".toList, "again".toList]⟩),
   .ndnSwitch (switchName "n".toList .disable ["f".toList]),
   .app (.executionEnd 1 0)]

/-- The end of the first execution starts the function that was switched off. -/
theorem not_startsAllowed_switchedOff :
    ¬ StepsMeet Host.commandedStep Host.StartsAllowed oneCore switchedOff := by
  intro hall
  have hallowed := hall (switchedOff.take 3) _ _ (List.prefix_refl _) rfl
  obtain ⟨f, hf, hen, -⟩ := hallowed _ List.mem_cons_self
  cases hf
  cases hen

/-- The function is started from the queue after it was disabled and excluded. -/
theorem started_disabled :
    ¬ ∀ (h : Host) (es : List Commanded) (h' : Host), run Host.commandedStep h es = .ok h' →
      StepsMeet Host.commandedStep Host.StartsAllowed h es :=
  fun hall => not_startsAllowed_switchedOff (hall oneCore switchedOff _ rfl)

/-- That start is not warranted. -/
theorem not_warranted_switchedOff : ¬ oneCore.Warranted switchedOff :=
  fun hw => not_startsAllowed_switchedOff
    ((Host.startsAllowed_iff_warranted rfl switchedOff).2.mpr hw)

end IncSim
