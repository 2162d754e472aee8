import IncSim.Orchestrator.Round

/-!
# The orchestration loop

Poll, switch, poll, switch: what the loop does to the functions of the network while no requests of
consumers come in.

* `Complete`: a cycle that polls every node and delivers every command.
* `cycle_spec`, `run_cycles`, **`cycles_refine`**: the loop refines the rounds of the relay.
* `Wanted`, `Flaps`, `StaysOn`: what becomes of a function, read off the first state.
* **`loop_settles`**: from the fourth cycle on the loop names exactly the functions that flap.
-/

namespace IncSim

open PartialRun

namespace Network

variable {N N' : Network} {K u : Str}

/-- The function is enabled at the node. -/
def IsOn (N : Network) (K u : Str) : Prop :=
  ∃ f, N.cell K u = some f ∧ f.enableComputation = true

/-! ## What becomes of a function -/

section Fate

variable [Ns3Time]

/-- Some busy node runs the function often, and has it enabled or is about to. -/
def Wanted (N : Network) (u : Str) : Prop :=
  ∃ K f, N.cell K u = some f ∧ N.Busy K ∧ 8 < f.execCounter.toNat ∧
    (f.enableComputation = true ∨ 5 < f.missExecCounter.toNat)

/-- The node passes for busy and for idle, did not run the function, and the function is wanted. -/
def Flaps (N : Network) (K u : Str) : Prop :=
  ∃ f, N.cell K u = some f ∧ N.Busy K ∧ f.execCounter = 0 ∧ N.Idle K ∧ N.Wanted u

/-- The function has a cause to be enabled, and the node none to disable it. -/
def StaysOn (N : Network) (K u : Str) : Prop :=
  ∃ f, N.cell K u = some f ∧ ¬ (N.Busy K ∧ f.execCounter = 0) ∧
    (f.enableComputation = true ∨ 5 < f.missExecCounter.toNat ∨ N.Idle K ∧ N.Wanted u)

theorem mem_rests_iff {f : IncComputation} (hf : N.cell K u = some f) :
    (K, u) ∈ N.relay.rests ↔ N.Busy K ∧ f.execCounter = 0 := by
  refine and_congr_right fun _ => ⟨?_, fun hexe => ⟨f, hf, hexe⟩⟩
  rintro ⟨f', hf', hexe⟩
  rw [hf, Option.some.injEq] at hf'
  exact hf' ▸ hexe

theorem mem_serves_iff {f : IncComputation} (hf : N.cell K u = some f) :
    (K, u) ∈ N.relay.serves ↔ N.Idle K :=
  and_iff_left (Option.isSome_iff_exists.mpr ⟨f, hf⟩)

theorem mem_hot_iff : u ∈ N.relay.hot N.switches ↔ N.Wanted u := by
  constructor
  · rintro ⟨⟨K, u⟩, ⟨hb, f, hf, hexe⟩, hcause, rfl⟩
    exact ⟨K, f, hf, hb, hexe, hcause.imp (mem_on_iff hf).mp (mem_late_iff hf).mp⟩
  · rintro ⟨K, f, hf, hb, hexe, hcause⟩
    exact ⟨(K, u), ⟨hb, f, hf, hexe⟩, hcause.imp (mem_on_iff hf).mpr (mem_late_iff hf).mpr, rfl⟩

theorem mem_flaps_iff : (K, u) ∈ N.relay.flaps N.switches ↔ N.Flaps K u := by
  constructor
  · rintro ⟨⟨hb, f, hf, hexe⟩, hserves, hhot⟩
    exact ⟨f, hf, hb, hexe, (mem_serves_iff hf).mp hserves, mem_hot_iff.mp hhot⟩
  · rintro ⟨f, hf, hb, hexe, hidle, hwanted⟩
    exact ⟨⟨hb, f, hf, hexe⟩, (mem_serves_iff hf).mpr hidle, mem_hot_iff.mpr hwanted⟩

theorem mem_kept_iff : (K, u) ∈ N.relay.kept N.switches ↔ N.StaysOn K u := by
  constructor
  · rintro ⟨hrest, hcause⟩
    obtain ⟨f, hf⟩ : ∃ f, N.cell K u = some f := by
      rcases hcause with ⟨f, hf, -⟩ | ⟨f, hf, -⟩ | ⟨⟨-, hsome⟩, -⟩
      · exact ⟨f, hf⟩
      · exact ⟨f, hf⟩
      · exact Option.isSome_iff_exists.mp hsome
    refine ⟨f, hf, (mem_rests_iff hf).not.mp hrest, ?_⟩
    exact hcause.imp (mem_on_iff hf).mp (Or.imp (mem_late_iff hf).mp
      (And.imp (mem_serves_iff hf).mp mem_hot_iff.mp))
  · rintro ⟨f, hf, hrest, hcause⟩
    refine ⟨(mem_rests_iff hf).not.mpr hrest, ?_⟩
    exact hcause.imp (mem_on_iff hf).mpr (Or.imp (mem_late_iff hf).mpr
      (And.imp (mem_serves_iff hf).mpr mem_hot_iff.mpr))

end Fate

variable [NdnCxx]

/-! ## One cycle -/

/-- The cycle polls every node of the table, once or more often, and delivers every command of its
round once, in any order. -/
structure Complete (N : Network) (c : Cycle) : Prop where
  asks : ∀ q ∈ c.fetches, Asks q.interest .nodeStatusFetch
  known : ∀ q ∈ c.fetches, (N.app.storage.find? q.node).isSome
  every : ∀ K, (N.app.storage.find? K).isSome → ∃ q ∈ c.fetches, q.node = K
  once : ∀ l, ((c.order l).map Prod.fst).Perm l

theorem Keeps.complete (h : N.Keeps N') {c : Cycle} (hc : N.Complete c) : N'.Complete c where
  asks := hc.asks
  known q hq := (h.isSome _).trans (hc.known q hq)
  every K hK := hc.every K ((h.isSome K).symm.trans hK)
  once := hc.once

variable [Ns3Time]

/-- **One cycle** is a round of the relay. -/
theorem cycle_spec (hread : NdnCxx.ReadsPlain) (h : N.Wired)
    {c : Cycle} (hc : N.Complete c) :
    ∃ N₁ N', run poll N c.fetches = .ok N₁ ∧ N.cycle c = .ok N' ∧ N'.Wired ∧ N.Keeps N' ∧
      N'.switches = N.relay.step N.switches ∧
      ∀ K u, (N₁.app.Names .disable K u ↔ (K, u) ∈ N.relay.leaves N.switches) ∧
        (N₁.app.Names .enable K u ↔ (K, u) ∈ N.relay.joins N.switches) := by
  obtain ⟨N₁, hrun, hpolls⟩ := run_poll hread h hc.asks hc.known
  have ht : ∀ K, N₁.ToldAt K := by
    intro K e he
    have hk := (hpolls.keeps.isSome K).symm.trans (Option.isSome_iff_exists.mpr ⟨e, he⟩)
    exact hpolls.told K (Or.inr (hc.every K hk)) e he
  have hswitches : N₁.switches = N.switches := by
    unfold switches
    simp only [hpolls.cells]
  have haddressed : ∀ q ∈ c.order N₁.app.functionSwitchHandler, N₁.Addressed q.1 := fun q hq =>
    addressed_of_mem hpolls.wired ((hc.once _).mem_iff.mp (List.mem_map_of_mem hq))
  obtain ⟨N', hrun', hcommands⟩ := run_command hread hpolls.wired haddressed
  refine ⟨N₁, N', hrun, ?_, hcommands.wired, hpolls.keeps.trans hcommands.keeps, ?_, fun K u => ?_⟩
  · rw [cycle, hrun]
    exact hrun'
  · rw [switches_of_commands hpolls.wired ht (hc.once _) hcommands, hpolls.keeps.relay_eq,
      hswitches]
  · rw [← hpolls.keeps.relay_eq, ← hswitches]
    exact ⟨names_disable_iff_leaves hpolls.wired ht,
      names_enable_iff_joins hpolls.wired ht⟩

/-! ## The loop -/

theorem run_cycles (hread : NdnCxx.ReadsPlain) (h : N.Wired)
    {cs : List Cycle} (hcs : ∀ c ∈ cs, N.Complete c) :
    ∃ N', run cycle N cs = .ok N' ∧ N'.Wired ∧ N.Keeps N' ∧
      N'.switches = N.relay.step^[cs.length] N.switches := by
  induction cs using List.reverseRecOn with
  | nil => exact ⟨N, rfl, h, .refl N, rfl⟩
  | append_singleton cs c ih =>
    obtain ⟨N₁, hrun, hwired, hkeeps, hswitches⟩ := ih fun c' hc' =>
      hcs c' (List.mem_append_left _ hc')
    have hc := hkeeps.complete (hcs c (List.mem_append_right _ List.mem_cons_self))
    obtain ⟨-, N', -, hcycle, hwired', hkeeps', hstep, -⟩ :=
      cycle_spec hread hwired hc
    refine ⟨N', run_concat.mpr ⟨N₁, hrun, hcycle⟩, hwired', hkeeps.trans hkeeps', ?_⟩
    rw [hstep, hkeeps.relay_eq, hswitches, List.length_append, List.length_singleton,
      Function.iterate_succ_apply']

/-- **The loop refines the relay.** While the counters of executions stand still, any number of
complete cycles end without a fault, whatever the order of the polls and of the deliveries. The
functions that are enabled and those that were missed are those of as many rounds of the relay, and
the commands of the next cycle name exactly what the next round switches. -/
theorem cycles_refine (hread : NdnCxx.ReadsPlain) (h : N.Wired)
    {cs : List Cycle} (hcs : ∀ c ∈ cs, N.Complete c) :
    ∃ N' s, run cycle N cs = .ok N' ∧ s = N.relay.step^[cs.length] N.switches ∧ N'.switches = s ∧
      ∀ c, N.Complete c → ∃ N₁, run poll N' c.fetches = .ok N₁ ∧
        ∀ K u, (N₁.app.Names .disable K u ↔ (K, u) ∈ N.relay.leaves s) ∧
          (N₁.app.Names .enable K u ↔ (K, u) ∈ N.relay.joins s) := by
  obtain ⟨N', hrun, hwired, hkeeps, hswitches⟩ := run_cycles hread h hcs
  refine ⟨N', _, hrun, rfl, hswitches, fun c hc => ?_⟩
  obtain ⟨N₁, -, hpolls, -, -, -, -, hnames⟩ :=
    cycle_spec hread hwired (hkeeps.complete hc)
  refine ⟨N₁, hpolls, fun K u => ?_⟩
  rw [(hnames K u).1, (hnames K u).2, hkeeps.relay_eq, hswitches]
  exact ⟨Iff.rfl, Iff.rfl⟩

/-- **When the loop settles.** After three or more complete cycles every function that does not flap
is enabled or disabled for good, and the next cycle names exactly the functions that flap: it disables
those that are enabled and enables the others, so that each of them is switched. It sends nothing
exactly when no function flaps. -/
theorem loop_settles (hread : NdnCxx.ReadsPlain) (h : N.Wired)
    {cs : List Cycle} (hcs : ∀ c ∈ cs, N.Complete c) (hlen : 3 ≤ cs.length) :
    ∃ N', run cycle N cs = .ok N' ∧
      (∀ K u, ¬ N.Flaps K u → (N'.IsOn K u ↔ N.StaysOn K u)) ∧
      ∀ c, N.Complete c → ∃ N₁ N₂, run poll N' c.fetches = .ok N₁ ∧ N'.cycle c = .ok N₂ ∧
        (∀ K u, N₁.app.Names .disable K u ↔ N.Flaps K u ∧ N'.IsOn K u) ∧
        (∀ K u, N₁.app.Names .enable K u ↔ N.Flaps K u ∧ ¬ N'.IsOn K u) ∧
        (∀ K u, N.Flaps K u → (N₂.IsOn K u ↔ ¬ N'.IsOn K u)) ∧
        (N₁.app.functionSwitchHandler = [] ↔ ∀ K u, ¬ N.Flaps K u) := by
  obtain ⟨N', hrun, hwired, hkeeps, hswitches⟩ := run_cycles hread h hcs
  obtain ⟨n, hn⟩ := Nat.exists_eq_add_of_le' hlen
  rw [hn] at hswitches
  refine ⟨N', hrun, fun K u hflaps => ?_, fun c hc => ?_⟩
  · have hsteady := Relay.steady (mem_flaps_iff.not.mpr hflaps) n
    rw [← hswitches, mem_kept_iff] at hsteady
    exact hsteady
  · obtain ⟨N₁, N₂, hpolls, hcycle, -, -, hstep, hnames⟩ :=
      cycle_spec hread hwired (hkeeps.complete hc)
    have hdisable : ∀ K u, N₁.app.Names .disable K u ↔ N.Flaps K u ∧ N'.IsOn K u := by
      intro K u
      rw [(hnames K u).1, hkeeps.relay_eq, hswitches, Relay.mem_leaves_iterate, mem_flaps_iff,
        ← hswitches]
      rfl
    have henable : ∀ K u, N₁.app.Names .enable K u ↔ N.Flaps K u ∧ ¬ N'.IsOn K u := by
      intro K u
      rw [(hnames K u).2, hkeeps.relay_eq, hswitches, Relay.mem_joins_iterate, mem_flaps_iff,
        ← hswitches]
      rfl
    have hflips : ∀ K u, N.Flaps K u → (N₂.IsOn K u ↔ ¬ N'.IsOn K u) := by
      intro K u hflaps
      have halternates := Relay.alternates (mem_flaps_iff.mpr hflaps) (n + 2)
      rw [Function.iterate_succ_apply', ← hswitches, ← hkeeps.relay_eq, ← hstep] at halternates
      exact halternates
    refine ⟨N₁, N₂, hpolls, hcycle, hdisable, henable, hflips, ?_⟩
    constructor
    · intro hnil K u hflaps
      have hnone : ∀ op, ¬ N₁.app.Names op K u := by
        rintro op ⟨c, hc, -⟩
        rw [hnil] at hc
        exact List.not_mem_nil hc
      by_cases hon : N'.IsOn K u
      · exact hnone .disable ((hdisable K u).mpr ⟨hflaps, hon⟩)
      · exact hnone .enable ((henable K u).mpr ⟨hflaps, hon⟩)
    · intro hflaps
      refine List.eq_nil_iff_forall_not_mem.mpr fun c hc => ?_
      obtain ⟨u, hu⟩ := List.exists_mem_of_ne_nil _ (N₁.app.mem_functionSwitchHandler.mp hc).2.1
      cases hop : c.op with
      | disable => exact hflaps _ _ ((hdisable c.node u).mp ⟨c, hc, hop, rfl, hu⟩).1
      | enable => exact hflaps _ _ ((henable c.node u).mp ⟨c, hc, hop, rfl, hu⟩).1

end Network

/-! ## Two nodes -/

section Example

attribute [local instance] plainUri tickTime

/-- The functions of the node `n`: `f` has not run, `g` has. -/
def lightFunctions : List (Str × IncComputation) :=
  [("f".toList, .fresh "f".toList 1 1 0), ("g".toList, (IncComputation.fresh "g".toList 1 1 0).execute)]

/-- The functions of the node `m`: `f` has run nine times. -/
def heavyFunctions : List (Str × IncComputation) :=
  [("f".toList, { IncComputation.fresh "f".toList 1 1 0 with execCounter := 9 })]

def lightNode : ComputeNode := .fresh "n".toList 10 4 (lightFunctions.map Prod.snd)

def heavyNode : ComputeNode := .fresh "m".toList 10 4 (heavyFunctions.map Prod.snd)

/-- The two nodes, as their bootstrap reports leave the table. -/
def twoNodeLoop : Network where
  nodes K := if K = "/n".toList then lightNode else heavyNode
  app :=
    { interval := 100
      communicationModel := "In-Band".toList
      storage := (OrdMap.single "/n".toList (.ofReport lightNode lightFunctions [])).insertNew
        "/m".toList (.ofReport heavyNode heavyFunctions []) }
  inBand := rfl

/-- Both nodes are polled, and the commands are delivered as they are sent. -/
def twoNodeCycle : Network.Cycle where
  fetches :=
    [⟨"/n".toList, ⟨["Orchestrator".toList, "n".toList, "NodeStatusFetch".toList]⟩, []⟩,
      ⟨"/m".toList, ⟨["Orchestrator".toList, "m".toList, "NodeStatusFetch".toList]⟩, []⟩]
  order l := l.map fun c => (c, [])

theorem twoNodeLoop_find {K : Str} {e : NodeInfo}
    (h : twoNodeLoop.app.storage.find? K = some e) :
    (K = "/n".toList ∧ e = .ofReport lightNode lightFunctions []) ∨
      (K = "/m".toList ∧ e = .ofReport heavyNode heavyFunctions []) := by
  have hmem : (K, e) ∈ twoNodeLoop.app.storage.entries := OrdMap.find?_eq_some_iff_mem.mp h
  have hentries : twoNodeLoop.app.storage.entries =
      [("/m".toList, .ofReport heavyNode heavyFunctions []),
        ("/n".toList, .ofReport lightNode lightFunctions [])] := by decide
  rw [hentries] at hmem
  simp only [List.mem_cons, Prod.mk.injEq, List.not_mem_nil, or_false] at hmem
  exact hmem.symm

theorem reportable_lightNode : Reportable lightNode lightFunctions [] where
  funcMap := rfl
  functions := by
    simp only [lightFunctions, List.forall_mem_cons, List.not_mem_nil, false_imp_iff, implies_true,
      and_true]
    exact ⟨by constructor <;> decide, by constructor <;> decide⟩
  data := reportable_nullNode.data
  name := by decide
  links := by decide
  runtimes := by decide
  processorCore := by decide
  ram := by decide
  rom := by decide
  nodeBusyCounter := by decide

theorem reportable_heavyNode : Reportable heavyNode heavyFunctions [] where
  funcMap := rfl
  functions := by
    simp only [heavyFunctions, List.forall_mem_cons, List.not_mem_nil, false_imp_iff, implies_true,
      and_true]
    constructor <;> decide
  data := reportable_nullNode.data
  name := by decide
  links := by decide
  runtimes := by decide
  processorCore := by decide
  ram := by decide
  rom := by decide
  nodeBusyCounter := by decide

theorem plainComp_letters : PlainComp "f".toList ∧ PlainComp "g".toList ∧ PlainComp "n".toList ∧
    PlainComp "m".toList :=
  ⟨.of_all (by decide) (by decide), .of_all (by decide) (by decide), .of_all (by decide) (by decide),
    .of_all (by decide) (by decide)⟩

theorem twoNodeLoop_wired : twoNodeLoop.Wired := by
  obtain ⟨hf, hg, hn, hm⟩ := plainComp_letters
  intro K e he
  rcases twoNodeLoop_find he with ⟨rfl, rfl⟩ | ⟨rfl, rfl⟩
  · refine ⟨lightFunctions, [], rfl, hn, ?_, by decide, reportable_lightNode, by decide, by decide,
      by decide⟩
    simp only [lightFunctions, List.forall_mem_cons, List.not_mem_nil, false_imp_iff, implies_true,
      and_true]
    exact ⟨hf, hg⟩
  · refine ⟨heavyFunctions, [], rfl, hm, ?_, by decide, reportable_heavyNode, by decide, by decide,
      by decide⟩
    simp only [heavyFunctions, List.forall_mem_cons, List.not_mem_nil, false_imp_iff, implies_true,
      and_true]
    exact hf

theorem twoNodeCycle_complete : twoNodeLoop.Complete twoNodeCycle where
  asks := by
    simp only [twoNodeCycle, List.forall_mem_cons, List.not_mem_nil, false_imp_iff, implies_true,
      and_true]
    exact ⟨⟨rfl, rfl, rfl⟩, ⟨rfl, rfl, rfl⟩⟩
  known := by decide
  every K hK := by
    obtain ⟨e, he⟩ := Option.isSome_iff_exists.mp hK
    rcases twoNodeLoop_find he with ⟨rfl, -⟩ | ⟨rfl, -⟩
    · exact ⟨_, List.mem_cons_self, rfl⟩
    · exact ⟨_, List.mem_cons_of_mem _ List.mem_cons_self, rfl⟩
  once l := by
    have hid : (twoNodeCycle.order l).map Prod.fst = l := by
      rw [twoNodeCycle, List.map_map]
      exact List.map_id _
    rw [hid]

theorem busy_idle_lightNode : twoNodeLoop.Busy "/n".toList ∧ twoNodeLoop.Idle "/n".toList :=
  ⟨⟨_, rfl, by decide⟩, ⟨_, rfl, by decide⟩⟩

/-- The first cycle disables the function `f` of the node `n`. -/
theorem cycles_refine_twoNodes : ∃ N', run Network.cycle twoNodeLoop [twoNodeCycle] = .ok N' ∧
    ("/n".toList, "/f".toList) ∉ N'.switches.on := by
  have hcycles : ∀ c ∈ [twoNodeCycle], twoNodeLoop.Complete c := by
    simp only [List.forall_mem_cons, List.not_mem_nil, false_imp_iff, implies_true, and_true]
    exact twoNodeCycle_complete
  obtain ⟨N', _, hrun, rfl, hswitches, -⟩ :=
    Network.cycles_refine plainUri_readsPlain twoNodeLoop_wired hcycles
  have hon : ("/n".toList, "/f".toList) ∈ twoNodeLoop.switches.on := ⟨_, rfl, rfl⟩
  have hrests : ("/n".toList, "/f".toList) ∈ twoNodeLoop.relay.rests :=
    ⟨busy_idle_lightNode.1, _, rfl, rfl⟩
  refine ⟨N', hrun, ?_⟩
  rw [hswitches]
  exact fun h => (Relay.mem_on_step_of_on hon).mp h hrests

/-- The function `f` of the node `n` flaps: the round after three cycles names it again. -/
theorem loop_settles_twoNodes :
    ∃ N', run Network.cycle twoNodeLoop [twoNodeCycle, twoNodeCycle, twoNodeCycle] = .ok N' ∧
      ∃ N₁, run Network.poll N' twoNodeCycle.fetches = .ok N₁ ∧
        N₁.app.functionSwitchHandler ≠ [] := by
  have hcycles : ∀ c ∈ [twoNodeCycle, twoNodeCycle, twoNodeCycle], twoNodeLoop.Complete c := by
    simp only [List.forall_mem_cons, List.not_mem_nil, false_imp_iff, implies_true, and_true,
      and_self]
    exact twoNodeCycle_complete
  obtain ⟨N', hrun, -, hnext⟩ := Network.loop_settles plainUri_readsPlain
    twoNodeLoop_wired hcycles (by decide)
  obtain ⟨N₁, -, hpolls, -, -, -, -, hnil⟩ := hnext twoNodeCycle twoNodeCycle_complete
  refine ⟨N', hrun, N₁, hpolls, hnil.not.mpr fun hflaps => ?_⟩
  obtain ⟨hbusy, hidle⟩ := busy_idle_lightNode
  have hwanted : twoNodeLoop.Wanted "/f".toList :=
    ⟨"/m".toList, _, rfl, ⟨_, rfl, by decide⟩, by decide, Or.inl rfl⟩
  exact hflaps "/n".toList "/f".toList ⟨_, rfl, hbusy, rfl, hidle, hwanted⟩

end Example

end IncSim
