import IncSim.Lib.Relay
import IncSim.Orchestrator.Network

/-!
# Rounds at the nodes

A round of commands, computed from a table that is up to date and delivered in any order, is a round
of an abstract relay.

* `told_iff`: what the table says after the polls is what the nodes are.
* `relay`, `switches`: the functions of the network as cells that are switched in rounds.
* **`names_disable_iff_leaves`**, **`names_enable_iff_joins`**: the commands of a round.
* `cell_of_commands`, **`switches_of_commands`**: the effect of the commands.
-/

namespace IncSim

open PartialRun

namespace Network

variable {N N' : Network} {K u : Str}

/-! ## The relay -/

/-- The functions that are enabled, and those that were missed more than five times. -/
def switches (N : Network) : Relay.State (Str × Str) where
  on := {c | ∃ f, N.cell c.1 c.2 = some f ∧ f.enableComputation = true}
  late := {c | ∃ f, N.cell c.1 c.2 = some f ∧ 5 < f.missExecCounter.toNat}

theorem Keeps.exists_cell (h : N.Keeps N') {K u : Str} (P : UInt32 → Prop)
    (hf : ∃ f, N.cell K u = some f ∧ P f.execCounter) :
    ∃ f, N'.cell K u = some f ∧ P f.execCounter := by
  obtain ⟨f, hf, hP⟩ := hf
  have hcounters := h.counters K u
  rw [hf, Option.map_some, Option.map_eq_some_iff] at hcounters
  obtain ⟨f', hf', hexec⟩ := hcounters
  exact ⟨f', hf', hexec ▸ hP⟩

theorem off_iff {f : IncComputation} (hf : N.cell K u = some f) :
    (K, u) ∉ N.switches.on ↔ f.enableComputation = false := by
  rw [← Bool.not_eq_true]
  refine not_congr ⟨?_, fun hst => ⟨f, hf, hst⟩⟩
  rintro ⟨f', hf', hst⟩
  rw [hf, Option.some.injEq] at hf'
  exact hf' ▸ hst

theorem mem_on_iff {f : IncComputation} (hf : N.cell K u = some f) :
    (K, u) ∈ N.switches.on ↔ f.enableComputation = true := by
  rw [← not_iff_not, off_iff hf, Bool.not_eq_true]

theorem mem_late_iff {f : IncComputation} (hf : N.cell K u = some f) :
    (K, u) ∈ N.switches.late ↔ 5 < f.missExecCounter.toNat := by
  refine ⟨?_, fun hmiss => ⟨f, hf, hmiss⟩⟩
  rintro ⟨f', hf', hmiss⟩
  rw [hf, Option.some.injEq] at hf'
  exact hf' ▸ hmiss

theorem find?_of_cell {f : IncComputation} (hf : N.cell K u = some f) :
    ∃ e, N.app.storage.find? K = some e := by
  rw [← Option.ne_none_iff_exists']
  intro hnone
  rw [cell_of_none hnone] at hf
  cases hf

section Relay

variable [Ns3Time]

/-- The functions of node `K` have run so often that the first pass takes the node for busy. -/
def Busy (N : Network) (K : Str) : Prop :=
  ∃ e, N.app.storage.find? K = some e ∧ N.app.busyTest e (N.nodes K).executions = true

/-- The second pass takes node `K` for idle. -/
def Idle (N : Network) (K : Str) : Prop :=
  ∃ e, N.app.storage.find? K = some e ∧ N.app.idleTest e (N.nodes K).executions = true

/-- The functions of the network as cells: a node with a function each. -/
def relay (N : Network) : Relay (Str × Str) Str where
  item := Prod.snd
  rests := {c | N.Busy c.1 ∧ ∃ f, N.cell c.1 c.2 = some f ∧ f.execCounter = 0}
  serves := {c | N.Idle c.1 ∧ (N.cell c.1 c.2).isSome}
  calls := {c | N.Busy c.1 ∧ ∃ f, N.cell c.1 c.2 = some f ∧ 8 < f.execCounter.toNat}
  not_rests := by
    rintro c ⟨-, f, hf, hexec⟩ ⟨-, f', hf', hzero⟩
    rw [hf, Option.some.injEq] at hf'
    rw [hf', hzero] at hexec
    exact absurd hexec (by decide)

theorem Keeps.busy (h : N.Keeps N') {K : Str} (hb : N.Busy K) : N'.Busy K := by
  obtain ⟨e, he, hb⟩ := hb
  have hcpu := h.cpu K
  rw [he, Option.map_some, Option.map_eq_some_iff] at hcpu
  obtain ⟨e', he', hcpu⟩ := hcpu
  refine ⟨e', he', ?_⟩
  rw [h.executions, h.app]
  unfold ManagementApp.busyTest at hb ⊢
  rwa [hcpu]

theorem Keeps.idle (h : N.Keeps N') {K : Str} (hi : N.Idle K) : N'.Idle K := by
  obtain ⟨e, he, hi⟩ := hi
  have hcpu := h.cpu K
  rw [he, Option.map_some, Option.map_eq_some_iff] at hcpu
  obtain ⟨e', he', hcpu⟩ := hcpu
  refine ⟨e', he', ?_⟩
  rw [h.executions, h.app]
  unfold ManagementApp.idleTest at hi ⊢
  rwa [hcpu]

/-- Polls and commands leave the relay as it is. -/
theorem Keeps.relay_eq (h : N.Keeps N') : N'.relay = N.relay := by
  have hbusy : ∀ K, N'.Busy K ↔ N.Busy K := fun K => ⟨h.symm.busy, h.busy⟩
  have hidle : ∀ K, N'.Idle K ↔ N.Idle K := fun K => ⟨h.symm.idle, h.idle⟩
  have hcell : ∀ (K u : Str) (P : UInt32 → Prop),
      (∃ f, N'.cell K u = some f ∧ P f.execCounter) ↔ ∃ f, N.cell K u = some f ∧ P f.execCounter :=
    fun K u P => ⟨h.symm.exists_cell P, h.exists_cell P⟩
  have hsome : ∀ K u, (N'.cell K u).isSome = (N.cell K u).isSome := fun K u => by
    rw [← Option.isSome_map (f := IncComputation.execCounter), h.counters, Option.isSome_map]
  ext c
  · rfl
  · exact and_congr (hbusy c.1) (hcell c.1 c.2 (· = 0))
  · exact and_congr (hidle c.1) (by rw [hsome])
  · exact and_congr (hbusy c.1) (hcell c.1 c.2 (8 < ·.toNat))

end Relay

/-! ## The effect of the commands -/

section Act

variable {cs : List ControlInterest} {op : SwitchOp}

theorem foldl_act_of_not_named (h : ∀ c ∈ cs, ¬ NamesAt K u c) (f : IncComputation) :
    cs.foldl (act K u) f = f := by
  induction cs with
  | nil => rfl
  | cons c cs ih =>
    rw [List.foldl_cons, act, if_neg (h c List.mem_cons_self)]
    exact ih fun c' hc' => h c' (List.mem_cons_of_mem _ hc')

/-- Commands of one kind act like one of them, in any order. -/
theorem foldl_act_of_named (hop : ∀ c ∈ cs, NamesAt K u c → c.op = op)
    (h : ∃ c ∈ cs, NamesAt K u c) (f : IncComputation) :
    cs.foldl (act K u) f = ComputeNode.SwitchOp.effect op f := by
  induction cs generalizing f with
  | nil => simp at h
  | cons c cs ih =>
    have hop' : ∀ c' ∈ cs, NamesAt K u c' → c'.op = op := fun c' hc' =>
      hop c' (List.mem_cons_of_mem _ hc')
    by_cases hrest : ∃ c' ∈ cs, NamesAt K u c'
    · rw [List.foldl_cons, ih hop' hrest, act]
      split_ifs with hc
      · rw [hop c List.mem_cons_self hc, ComputeNode.effect_effect]
      · rfl
    · have hc : NamesAt K u c := by
        obtain ⟨c', hc', hnames⟩ := h
        rcases List.mem_cons.mp hc' with rfl | hc'
        · exact hnames
        · exact absurd ⟨c', hc', hnames⟩ hrest
      rw [List.foldl_cons, foldl_act_of_not_named fun c' hc' hn => hrest ⟨c', hc', hn⟩, act,
        if_pos hc, hop c List.mem_cons_self hc]

end Act

variable [NdnCxx] {e : NodeInfo} {fs : List (Str × IncComputation)} {ds : List (Str × UInt32)}

/-! ## What the table says -/

section Table

variable {n : ComputeNode} (h : Wiring K n e fs ds) (ht : Told n e)

include h

theorem nodup_uris : (e.functionsCurrent.map FunctionInfo.uri).Nodup := by
  have hkeys : (fs.map fun p => '/' :: p.1) = (fs.map Prod.fst).map ('/' :: ·) :=
    List.map_map.symm
  rw [h.listed.nodup_iff, hkeys]
  exact h.nodup.map fun _ _ heq => (List.cons.inj heq).2

include ht

/-- The records of the entry are the functions of the node. -/
theorem told_iff (P : Bool → UInt32 → UInt32 → Prop) :
    (∃ r ∈ e.functionsCurrent, r.uri = u ∧ P r.status r.funcExeCounter r.funcInterestCounter) ↔
      ∃ f, n.funcMap.lookup u = some (some f) ∧
        P f.enableComputation f.execCounter f.missExecCounter := by
  constructor
  · rintro ⟨r, hr, rfl, hP⟩
    obtain ⟨p, hp, huri⟩ := List.mem_map.mp (h.listed.mem_iff.mp (List.mem_map_of_mem hr))
    have hmem : (r.uri, some p.2) ∈ n.funcMap := h.mem_funcMap.mpr ⟨p, hp, huri.symm, rfl⟩
    obtain ⟨r', hr', hshows⟩ := ht _ _ hmem
    -- the record that is found has the same name, so it is the same
    have huri' := List.find?_some hr'
    have hsame : r' = r := List.inj_on_of_nodup_map (nodup_uris h) (List.mem_of_find?_eq_some hr') hr
      (of_decide_eq_true huri')
    subst hsame
    refine ⟨p.2, h.lookup_funcMap.mpr hmem, ?_⟩
    rwa [← hshows.status, ← hshows.funcExeCounter, ← hshows.funcInterestCounter]
  · rintro ⟨f, hf, hP⟩
    obtain ⟨r, hr, hshows⟩ := ht _ _ (h.lookup_funcMap.mp hf)
    have huri := List.find?_some hr
    refine ⟨r, List.mem_of_find?_eq_some hr, of_decide_eq_true huri, ?_⟩
    rwa [hshows.status, hshows.funcExeCounter, hshows.funcInterestCounter]

/-- The sum of the counters in the table is that of the node. -/
theorem load_eq_executions : ManagementApp.load e = n.executions := by
  -- both are the sum, over the keys of the node, of what the node has under them
  let counter : Str → ℕ := fun k => (n.funcMap.lookup k).join.elim 0 fun f => f.execCounter.toNat
  have htable : e.functionsCurrent.map (fun r => r.funcExeCounter.toNat) =
      (e.functionsCurrent.map FunctionInfo.uri).map counter := by
    rw [List.map_map]
    refine List.map_congr_left fun r hr => ?_
    obtain ⟨f, hf, hexec⟩ := (told_iff h ht fun _ x _ => x = r.funcExeCounter).mp ⟨r, hr, rfl, rfl⟩
    show r.funcExeCounter.toNat = counter r.uri
    simp only [counter, hf, Option.join_some, Option.elim_some, hexec]
  have hnode : n.funcMap.map (fun q => q.2.elim 0 fun f => f.execCounter.toNat) =
      (n.funcMap.map Prod.fst).map counter := by
    rw [List.map_map]
    refine List.map_congr_left fun q hq => ?_
    have hlookup := (Assoc.lookup_eq_some_iff_mem h.nodup_keys (a := q.2)).mpr hq
    simp only [Function.comp_apply, counter, hlookup, Option.join_some]
  have hkeys : (fs.map fun p => '/' :: p.1) = n.funcMap.map Prod.fst := by
    rw [h.reportable.funcMap, List.map_map]
    rfl
  rw [ManagementApp.load, ComputeNode.executions, htable, hnode, ← hkeys]
  exact (h.listed.map counter).sum_eq

/-- The counters in the table are below `2 ^ 31`. -/
theorem countersFit : ManagementApp.CountersFit e := by
  have hfit : ∀ {u : Str} {f : IncComputation}, n.funcMap.lookup u = some (some f) →
      FitsInt f.execCounter ∧ FitsInt f.missExecCounter := by
    intro u f hf
    obtain ⟨p, hp, -, rfl⟩ := h.mem_funcMap.mp (h.lookup_funcMap.mp hf)
    exact ⟨(h.reportable.functions p hp).execCounter, (h.reportable.functions p hp).missExecCounter⟩
  refine ⟨fun r hr => ?_, fun r hr => ?_, load_eq_executions h ht ▸ h.executions⟩
  · obtain ⟨f, hf, hexec⟩ := (told_iff h ht fun _ x _ => x = r.funcExeCounter).mp ⟨r, hr, rfl, rfl⟩
    exact hexec ▸ (hfit hf).1
  · obtain ⟨f, hf, hmiss⟩ :=
      (told_iff h ht fun _ _ y => y = r.funcInterestCounter).mp ⟨r, hr, rfl, rfl⟩
    exact hmiss ▸ (hfit hf).2

end Table

section Round

variable (h : N.Wired) (ht : ∀ K, N.ToldAt K)

include h ht in
/-- What the table holds is what the nodes are. -/
theorem holds_iff (Q : NodeInfo → Prop) (P : Bool → UInt32 → UInt32 → Prop) :
    N.app.Holds K u (fun node r => Q node ∧
        P r.status r.funcExeCounter r.funcInterestCounter) ↔
      (∃ e, N.app.storage.find? K = some e ∧ Q e) ∧
        ∃ f, N.cell K u = some f ∧ P f.enableComputation f.execCounter f.missExecCounter := by
  have hjoin : ∀ {o : Option (Option IncComputation)} {f : IncComputation},
      o.join = some f ↔ o = some (some f) := by
    intro o f
    rcases o with _ | _ | f' <;> simp
  constructor
  · rintro ⟨e, he, r, hr, huri, hQ, hP⟩
    obtain ⟨fs, ds, hw⟩ := h K e he
    obtain ⟨f, hf, hP⟩ := (told_iff hw (ht K e he) P).mp ⟨r, hr, huri, hP⟩
    exact ⟨⟨e, he, hQ⟩, f, (cell_of_find? he).trans (hjoin.mpr hf), hP⟩
  · rintro ⟨⟨e, he, hQ⟩, f, hf, hP⟩
    obtain ⟨fs, ds, hw⟩ := h K e he
    rw [cell_of_find? he, hjoin] at hf
    obtain ⟨r, hr, huri, hP⟩ := (told_iff hw (ht K e he) P).mpr ⟨f, hf, hP⟩
    exact ⟨e, he, r, hr, huri, hQ, hP⟩

include h ht in
theorem load_eq (he : N.app.storage.find? K = some e) :
    ManagementApp.load e = (N.nodes K).executions := by
  obtain ⟨fs, ds, hw⟩ := h K e he
  exact load_eq_executions hw (ht K e he)

include h ht in
theorem table_countersFit (K : Str) (e : NodeInfo) (he : N.app.storage.find? K = some e) :
    ManagementApp.CountersFit e := by
  obtain ⟨fs, ds, hw⟩ := h K e he
  exact countersFit hw (ht K e he)

/-! ## The commands of a round -/

variable [Ns3Time]

include h ht in
theorem busy_iff_table : N.Busy K ↔ ∃ e, N.app.storage.find? K = some e ∧ N.app.Busy e :=
  exists_congr fun _ => and_congr_right fun he => by rw [ManagementApp.Busy, load_eq h ht he]

include h ht in
theorem idle_iff_table : N.Idle K ↔ ∃ e, N.app.storage.find? K = some e ∧ N.app.Idle e :=
  exists_congr fun _ => and_congr_right fun he => by rw [ManagementApp.Idle, load_eq h ht he]

include h ht

/-- **What a round disables.** -/
theorem names_disable_iff_leaves :
    N.app.Names .disable K u ↔ (K, u) ∈ N.relay.leaves N.switches := by
  rw [ManagementApp.names_disable_content N.communicates (table_countersFit h ht),
    holds_iff h ht N.app.Busy fun st exe _ => st = true ∧ exe = 0, ← busy_iff_table h ht]
  constructor
  · rintro ⟨hb, f, hf, hst, hexe⟩
    exact ⟨⟨f, hf, hst⟩, hb, f, hf, hexe⟩
  · rintro ⟨⟨f, hf, hst⟩, hb, f', hf', hexe⟩
    rw [hf, Option.some.injEq] at hf'
    exact ⟨hb, f, hf, hst, hf' ▸ hexe⟩

/-- The functions that a round finds in frequent use at a busy node. -/
theorem mem_called_iff : u ∈ N.relay.called N.switches ↔ ∃ K', N.app.Holds K' u fun node' f' =>
    N.app.Busy node' ∧ f'.status = true ∧ 8 < f'.funcExeCounter.toNat := by
  have hat : ∀ K', N.app.Holds K' u (fun node' f' => N.app.Busy node' ∧ f'.status = true ∧
      8 < f'.funcExeCounter.toNat) ↔ N.Busy K' ∧ ∃ f, N.cell K' u = some f ∧
        f.enableComputation = true ∧ 8 < f.execCounter.toNat := fun K' => by
    rw [holds_iff h ht N.app.Busy fun st exe _ => st = true ∧ 8 < exe.toNat, busy_iff_table h ht]
  simp only [hat]
  constructor
  · rintro ⟨⟨K', u⟩, ⟨hb, f, hf, hexe⟩, ⟨f', hf', hst⟩, rfl⟩
    rw [hf, Option.some.injEq] at hf'
    exact ⟨K', hb, f, hf, hf' ▸ hst, hexe⟩
  · rintro ⟨K', hb, f, hf, hst, hexe⟩
    exact ⟨(K', u), ⟨hb, f, hf, hexe⟩, ⟨f, hf, hst⟩, rfl⟩

/-- **What a round enables.** -/
theorem names_enable_iff_joins :
    N.app.Names .enable K u ↔ (K, u) ∈ N.relay.joins N.switches := by
  have hmissed : N.app.Holds K u (fun _ r => True ∧ r.status = false ∧
      5 < r.funcInterestCounter.toNat) ↔ (∃ e, N.app.storage.find? K = some e ∧ True) ∧
        ∃ f, N.cell K u = some f ∧ f.enableComputation = false ∧ 5 < f.missExecCounter.toNat :=
    holds_iff h ht (fun _ => True) fun st _ miss => st = false ∧ 5 < miss.toNat
  have hoffered : N.app.Holds K u (fun node r => N.app.Idle node ∧ r.status = false) ↔
      N.Idle K ∧ ∃ f, N.cell K u = some f ∧ f.enableComputation = false := by
    rw [holds_iff h ht N.app.Idle fun st _ _ => st = false, idle_iff_table h ht]
  rw [ManagementApp.names_enable_content N.communicates (table_countersFit h ht), ← mem_called_iff h ht]
  constructor
  · rintro ⟨node, hn, r, hr, huri, hst, hmiss | ⟨hi, hcalled⟩⟩
    · obtain ⟨-, f, hf, hoff, hlate⟩ := hmissed.mp ⟨node, hn, r, hr, huri, trivial, hst, hmiss⟩
      exact ⟨(off_iff hf).mpr hoff, Or.inl ⟨f, hf, hlate⟩⟩
    · obtain ⟨hidle, f, hf, hoff⟩ := hoffered.mp ⟨node, hn, r, hr, huri, hi, hst⟩
      refine ⟨(off_iff hf).mpr hoff, Or.inr ⟨⟨hidle, ?_⟩, hcalled⟩⟩
      exact Option.isSome_iff_exists.mpr ⟨f, hf⟩
  · rintro ⟨hoff, ⟨f, hf, hlate⟩ | ⟨⟨hidle, hsome⟩, hcalled⟩⟩
    · have hst := (off_iff hf).mp hoff
      obtain ⟨e, he⟩ := find?_of_cell hf
      obtain ⟨node, hn, r, hr, huri, -, hst, hmiss⟩ :=
        hmissed.mpr ⟨⟨e, he, trivial⟩, f, hf, hst, hlate⟩
      exact ⟨node, hn, r, hr, huri, hst, Or.inl hmiss⟩
    · obtain ⟨f, hf⟩ := Option.isSome_iff_exists.mp hsome
      obtain ⟨node, hn, r, hr, huri, hi, hst⟩ :=
        hoffered.mpr ⟨hidle, f, hf, (off_iff hf).mp hoff⟩
      exact ⟨node, hn, r, hr, huri, hst, Or.inr ⟨hi, hcalled⟩⟩

end Round

/-! ## A round -/

section Commands

variable [Ns3Time]

/-- The commands of a round name functions of nodes of the table. -/
theorem addressed_of_mem (h : N.Wired) {c : ControlInterest} (hc : c ∈ N.app.functionSwitchHandler) :
    N.Addressed c := by
  obtain ⟨-, -, K, node, hn, hplan⟩ := N.app.mem_functionSwitchHandler.mp hc
  have hnode : c.node = K := by cases hplan <;> rfl
  refine ⟨hnode ▸ Option.isSome_iff_exists.mpr ⟨node, hn⟩, fun u hu => ?_⟩
  have hholds : N.app.Holds c.node u fun _ _ => True := by
    cases hop : c.op with
    | enable =>
      obtain ⟨e, he, r, hr, huri, -⟩ := ManagementApp.disabled_of_names ⟨c, hc, hop, rfl, hu⟩
      exact ⟨e, he, r, hr, huri, trivial⟩
    | disable =>
      obtain ⟨e, he, r, hr, huri, -⟩ := ManagementApp.enabled_of_names ⟨c, hc, hop, rfl, hu⟩
      exact ⟨e, he, r, hr, huri, trivial⟩
  obtain ⟨e, he, r, hr, rfl, -⟩ := hholds
  obtain ⟨fs, ds, hw⟩ := h c.node e he
  obtain ⟨p, hp, huri⟩ := List.mem_map.mp (hw.listed.mem_iff.mp (List.mem_map_of_mem hr))
  exact ⟨p.1, hw.functions p hp, huri.symm⟩

section Round

variable {N₁ : Network} {cs : List ControlInterest} (h : N.Wired)
  (ht : ∀ K, N.ToldAt K) (hcs : cs.Perm N.app.functionSwitchHandler) (hN₁ : Commands N cs N₁)

include h ht hcs hN₁

/-- What a function becomes in a round. -/
theorem cell_of_commands {f : IncComputation} (hf : N.cell K u = some f) :
    ((K, u) ∈ N.relay.leaves N.switches ∧ N₁.cell K u = some f.disable) ∨
    ((K, u) ∈ N.relay.joins N.switches ∧ N₁.cell K u = some f.enable) ∨
    ((K, u) ∉ N.relay.leaves N.switches ∧ (K, u) ∉ N.relay.joins N.switches ∧
      N₁.cell K u = some f) := by
  have hmem : ∀ {op}, N.app.Names op K u ↔ ∃ c ∈ cs, NamesAt K u c ∧ c.op = op := by
    intro op
    simp only [ManagementApp.Names, NamesAt, hcs.mem_iff]
    exact exists_congr fun c => and_congr_right fun _ => and_rotate.trans and_assoc.symm
  have hdistinct : ∀ K node, N.app.storage.find? K = some node →
      (node.functionsCurrent.map FunctionInfo.uri).Nodup := by
    intro K node hn
    obtain ⟨fs, ds, hw⟩ := h K node hn
    exact nodup_uris hw
  have hcell := hN₁.cells K u
  rw [hf, Option.map_some] at hcell
  rw [← names_disable_iff_leaves h ht, ← names_enable_iff_joins h ht]
  by_cases hd : N.app.Names .disable K u
  · have hop : ∀ c ∈ cs, NamesAt K u c → c.op = .disable := by
      intro c hc hat
      cases hop : c.op with
      | disable => rfl
      | enable =>
        exact (ManagementApp.not_names_both hdistinct hd (hmem.mpr ⟨c, hc, hat, hop⟩)).elim
    obtain ⟨c, hc, hat, -⟩ := hmem.mp hd
    exact Or.inl ⟨hd, hcell.trans (congrArg some (foldl_act_of_named hop ⟨c, hc, hat⟩ f))⟩
  · by_cases he : N.app.Names .enable K u
    · have hop : ∀ c ∈ cs, NamesAt K u c → c.op = .enable := by
        intro c hc hat
        cases hop : c.op with
        | enable => rfl
        | disable => exact absurd (hmem.mpr ⟨c, hc, hat, hop⟩) hd
      obtain ⟨c, hc, hat, -⟩ := hmem.mp he
      exact Or.inr (Or.inl
        ⟨he, hcell.trans (congrArg some (foldl_act_of_named hop ⟨c, hc, hat⟩ f))⟩)
    · refine Or.inr (Or.inr ⟨hd, he, hcell.trans (congrArg some ?_)⟩)
      refine foldl_act_of_not_named (fun c hc hat => ?_) f
      cases hop : c.op with
      | enable => exact he (hmem.mpr ⟨c, hc, hat, hop⟩)
      | disable => exact hd (hmem.mpr ⟨c, hc, hat, hop⟩)

/-- **The commands of a round** are a round of the relay. -/
theorem switches_of_commands : N₁.switches = N.relay.step N.switches := by
  have hnone : ∀ {K u}, N.cell K u = none → N₁.cell K u = none ∧
      (K, u) ∉ N.relay.joins N.switches := by
    intro K u hf
    refine ⟨by rw [hN₁.cells, hf]; rfl, ?_⟩
    rintro ⟨-, ⟨f, hf', -⟩ | ⟨⟨-, hsome⟩, -⟩⟩
    · exact absurd (hf.symm.trans hf') (Option.some_ne_none f).symm
    · rw [show N.cell K u = none from hf] at hsome
      cases hsome
  ext ⟨K, u⟩
  · rcases hf : N.cell K u with _ | f
    · obtain ⟨hf₁, hjoins⟩ := hnone hf
      refine iff_of_false ?_ ?_
      · rintro ⟨f, hf', -⟩
        exact absurd (hf₁.symm.trans hf') (Option.some_ne_none f).symm
      · rintro (⟨⟨f, hf', -⟩, -⟩ | hj)
        · exact absurd (hf.symm.trans hf') (Option.some_ne_none f).symm
        · exact hjoins hj
    · rcases cell_of_commands h ht hcs hN₁ hf with ⟨hl, hf₁⟩ | ⟨hj, hf₁⟩ | ⟨hl, hj, hf₁⟩
      · refine iff_of_false ((mem_on_iff hf₁).not.mpr Bool.false_ne_true) ?_
        rintro (⟨-, hnot⟩ | hj)
        · exact hnot hl
        · exact hj.1 hl.1
      · exact iff_of_true ((mem_on_iff hf₁).mpr rfl) (Or.inr hj)
      · rw [mem_on_iff hf₁, ← mem_on_iff hf]
        exact ⟨fun hst => Or.inl ⟨hst, hl⟩, fun hst => hst.elim And.left fun hj' => absurd hj' hj⟩
  · rcases hf : N.cell K u with _ | f
    · obtain ⟨hf₁, -⟩ := hnone hf
      refine iff_of_false ?_ ?_
      · rintro ⟨f, hf', -⟩
        exact absurd (hf₁.symm.trans hf') (Option.some_ne_none f).symm
      · rintro ⟨⟨f, hf', -⟩, -⟩
        exact absurd (hf.symm.trans hf') (Option.some_ne_none f).symm
    · rcases cell_of_commands h ht hcs hN₁ hf with ⟨hl, hf₁⟩ | ⟨hj, hf₁⟩ | ⟨hl, hj, hf₁⟩
      · rw [mem_late_iff hf₁, IncComputation.disable, ← mem_late_iff hf]
        exact ⟨fun hmiss => ⟨hmiss, fun hj => hj.1 hl.1⟩, And.left⟩
      · refine iff_of_false ((mem_late_iff hf₁).not.mpr (by simp [IncComputation.enable])) ?_
        exact fun hmiss => hmiss.2 hj
      · rw [mem_late_iff hf₁, ← mem_late_iff hf]
        exact ⟨fun hmiss => ⟨hmiss, hj⟩, And.left⟩

end Round

end Commands

end Network

end IncSim
