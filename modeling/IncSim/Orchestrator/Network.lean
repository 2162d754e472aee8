import IncSim.Node.Requests
import IncSim.Node.SwitchEffect
import IncSim.Orchestrator.Delivery
import IncSim.Orchestrator.History
import IncSim.Orchestrator.Transport

/-!
# The orchestrator and its nodes

Nodes and orchestrator together, with the communication model In-Band: an interest of the orchestrator
reaches a node, the data that answers it comes back.

* `Network`, `exchange`: one interest and the data that answers it. `poll`, `command`: the two kinds.
* `Cycle`, `cycle`: every node is polled, a round is computed, and its commands are delivered.
* `cell`: the object of a function at a node of the table.
* `Wiring`, `Told`: what a node and its entry have in common, and what a poll brings.
* **`run_poll`**: after any polls the network is wired, and what was polled is in the table.
* **`run_command`**: after any commands each object is as the commands that name it make it.
-/

namespace IncSim

open PartialRun Text

/-- The compute nodes, by URI, and an orchestrator whose commands go to its NDN communication app. -/
structure Network where
  nodes : Str → ComputeNode
  app : ManagementApp
  inBand : app.communicationModel = "In-Band".toList

namespace Network

theorem communicates (N : Network) : N.app.Communicates := Or.inl N.inBand

section Exchange

variable [NdnCxx] (N : Network)

/-- `OnData` for the answer to an interest; the reply to a command that switches nothing has no
determined text, and `HandleMessage` does not look at it. -/
def onReply (t : Table) (interest : Name) (behind : Str) : Option Str → Except Fault Table
  | some content => ndnOnData t interest content behind
  | none => .ok t

/-- An interest for node `K`, and the data that answers it. -/
def exchange (K : Str) (interest : Name) (behind : Str) : Except Fault Network := do
  let (n, payload) ← (N.nodes K).ndnOrchestratorRequestResolution interest
  let t ← onReply N.app.storage interest behind payload
  .ok ⟨Function.update N.nodes K n, { N.app with storage := t }, N.inBand⟩

end Exchange

/-- A status request of a communication app: its node, its interest and what follows the content of
the answer in memory. -/
structure Fetch where
  node : Str
  interest : Name
  behind : Str

variable [NdnCxx]

/-- `SendInterest` with a status request. -/
def poll (N : Network) (q : Fetch) : Except Fault Network := N.exchange q.node q.interest q.behind

/-- `SendOrchestrationRequest` with a command of a round. -/
def command (N : Network) (q : ControlInterest × Str) : Except Fault Network :=
  N.exchange q.1.node (NdnCxx.ofUri q.1.text) q.2

/-- What may differ from one cycle to the next: the status requests, and the order in which the
commands of a round reach their nodes. -/
structure Cycle where
  fetches : List Fetch
  order : List ControlInterest → List (ControlInterest × Str)

/-- Status requests, `FunctionSwitchHandler`, and its commands. -/
def cycle [Ns3Time] (N : Network) (c : Cycle) : Except Fault Network := do
  let N ← run poll N c.fetches
  run command N (c.order N.app.functionSwitchHandler)

end Network

/-! ## Nodes and their entries -/

/-- How often the functions of a node have run. -/
def ComputeNode.executions (n : ComputeNode) : ℕ :=
  (n.funcMap.map fun q => q.2.elim 0 fun f => f.execCounter.toNat).sum

/-- A node with plain names and the entry that the table has for it. -/
structure Wiring [NdnCxx] (K : Str) (n : ComputeNode) (e : NodeInfo)
    (fs : List (Str × IncComputation)) (ds : List (Str × UInt32)) : Prop where
  key : K = '/' :: n.name
  name : PlainComp n.name
  functions : ∀ p ∈ fs, PlainComp p.1
  nodup : (fs.map Prod.fst).Nodup
  reportable : Reportable n fs ds
  /-- the texts of a report end where their last character is -/
  terminated : '\x00' ∉ n.links ∧ '\x00' ∉ n.supportedRuntimes ∧ '\x00' ∉ n.providedData ∧
    ∀ p ∈ fs, '\x00' ∉ p.2.inputList
  listed : (e.functionsCurrent.map FunctionInfo.uri).Perm (fs.map fun p => '/' :: p.1)
  executions : n.executions < 2147483648

/-- The entry has the values of the functions of the node. -/
def Told (n : ComputeNode) (e : NodeInfo) : Prop :=
  ∀ k f, (k, some f) ∈ n.funcMap →
    ∃ r, (e.functionsCurrent.find? fun r => r.uri = k) = some r ∧ r.Shows f

theorem PlainComp.free_null {c : Str} (h : PlainComp c) : Free ['\x00'] c :=
  fun a ha => List.mem_singleton.mp ha ▸ h.not_mem (by decide) (by decide) (by decide)

/-- The functions of a node after a command for the keys `ks`. -/
def switchedFunctions (op : SwitchOp) (ks : List Str) (fs : List (Str × IncComputation)) :
    List (Str × IncComputation) :=
  fs.map fun p => (p.1, if '/' :: p.1 ∈ ks then ComputeNode.SwitchOp.effect op p.2 else p.2)

section Wiring

variable [NdnCxx] {K : Str} {n : ComputeNode} {e : NodeInfo} {fs : List (Str × IncComputation)}
  {ds : List (Str × UInt32)}

theorem uriExact_of_plain (hread : NdnCxx.ReadsPlain) {c : Str} (hc : PlainComp c) :
    UriExact ('/' :: c) := by
  rw [UriExact, hread.ofUri_cons hc, Name.toUri_singleton]

namespace Wiring

variable (h : Wiring K n e fs ds)

include h

/-- A report has no null character in it. -/
theorem null_not_mem_report : '\x00' ∉ [';'].intercalate (n.reportTokens fs) := by
  obtain ⟨hlinks, hruntimes, hdata, hinputs⟩ := h.terminated
  have hfree : ∀ {s : Str}, '\x00' ∉ s → Free ['\x00'] s :=
    fun hs c hc => List.mem_singleton.mp hc ▸ hs
  have hdec : ∀ x, Free ['\x00'] (decimal x) := free_decimal _ (by decide)
  have htoken : ∀ {k v : Str}, Free ['\x00'] k → Free ['\x00'] v → Free ['\x00'] (k ++ '=' :: v) :=
    fun hk hv => hk.append_cons (by decide) hv
  have hkey : ∀ f : StatusField, Free ['\x00'] f.key := fun f => f.key_free.mono (by decide)
  have hfunction : ∀ p ∈ fs, Free ['\x00'] (functionText p.1 p.2) := by
    intro p hp
    refine Free.intercalate (by decide) ?_
    simp only [functionFields, List.forall_mem_cons, List.not_mem_nil, false_imp_iff, implies_true,
      and_true]
    exact ⟨(h.functions p hp).free_null, free_flagText (by decide) _, hdec _, hdec _, hdec _,
      hdec _, hdec _, hdec _, hfree (hinputs p hp)⟩
  have hfunctions : Free ['\x00'] (functionsText fs) := by
    intro c hc hmem
    obtain ⟨p, hp, hmem⟩ := List.mem_flatMap.mp hmem
    rcases List.mem_cons.mp hmem with rfl | hmem
    · exact absurd hc (by decide)
    · exact hfunction p hp c hc hmem
  have htokens : ∀ v ∈ n.reportTokens fs, Free ['\x00'] v := by
    simp only [ComputeNode.reportTokens, List.forall_mem_cons, List.not_mem_nil, false_imp_iff,
      implies_true, and_true]
    exact ⟨htoken (hkey _) ((free_nil _).append_cons (by decide) h.name.free_null),
      htoken (hkey _) (hdec _), htoken (by decide) (hdec _), htoken (hkey _) (hdec _),
      htoken (hkey _) (hdec _), htoken (hkey _) (hfree hlinks), htoken (hkey _) (hfree hruntimes),
      htoken (hkey _) (hdec _), htoken (hkey _) (hfree hdata), htoken (hkey _) hfunctions⟩
  exact Free.intercalate (by decide) htokens '\x00' List.mem_cons_self

theorem mem_funcMap {k : Str} {f : IncComputation} :
    (k, some f) ∈ n.funcMap ↔ ∃ p ∈ fs, k = '/' :: p.1 ∧ f = p.2 := by
  rw [h.reportable.funcMap, List.mem_map]
  simp only [Prod.mk.injEq, Option.some.injEq, eq_comm]

theorem nodup_keys : (n.funcMap.map Prod.fst).Nodup := by
  have hkeys : n.funcMap.map Prod.fst = (fs.map Prod.fst).map ('/' :: ·) := by
    rw [h.reportable.funcMap, List.map_map, List.map_map]
    rfl
  rw [hkeys]
  exact h.nodup.map fun _ _ heq => (List.cons.inj heq).2

theorem lookup_funcMap {k : Str} {f : IncComputation} :
    n.funcMap.lookup k = some (some f) ↔ (k, some f) ∈ n.funcMap :=
  Assoc.lookup_eq_some_iff_mem h.nodup_keys

/-- There is no null pointer in the function map. -/
theorem lookup_ne_null (k : Str) : n.funcMap.lookup k ≠ some none := by
  rw [ne_eq, Assoc.lookup_eq_some_iff_mem h.nodup_keys, h.reportable.funcMap, List.mem_map]
  rintro ⟨p, -, heq⟩
  cases (Prod.mk.inj heq).2

/-- After a poll the node has another busy counter, and the entry has the values of the node. -/
theorem update (hread : NdnCxx.ReadsPlain) :
    Wiring K n.resetNodeBusyCounter (e.update n fs ds) fs ds := by
  have huri : ∀ p ∈ fs, UriExact ('/' :: p.1) := fun p hp =>
    uriExact_of_plain hread (h.functions p hp)
  have hmap : (e.update n fs ds).functionsCurrent.map FunctionInfo.uri =
      e.functionsCurrent.map FunctionInfo.uri := map_uri_foldl huri _
  exact
    { key := h.key, name := h.name, functions := h.functions, nodup := h.nodup
      reportable := { h.reportable with nodeBusyCounter := (by decide : FitsInt 0) }
      terminated := h.terminated
      listed := hmap ▸ h.listed
      executions := h.executions }

theorem told_update (hread : NdnCxx.ReadsPlain) :
    Told n.resetNodeBusyCounter (e.update n fs ds) := by
  intro k f hf
  obtain ⟨p, hp, rfl, rfl⟩ := h.mem_funcMap.mp hf
  refine find?_foldl_updateFunction (fun p hp => uriExact_of_plain hread (h.functions p hp))
    h.nodup e.functionsCurrent (fun p hp => ?_) p hp
  exact h.listed.mem_iff.mpr (List.mem_map_of_mem (f := fun p => '/' :: p.1) hp)

/-- A command leaves a node wired to its entry. -/
theorem switched (op : SwitchOp) (ks : List Str) (excluded : List Str) (fib : Fib) {n' : ComputeNode}
    (hn' : n' = { n with
      funcMap := (switchedFunctions op ks fs).map fun p => ('/' :: p.1, some p.2)
      funcExcludeList := excluded, fib := fib })
    (hexecutions : n'.executions = n.executions) :
    Wiring K n' e (switchedFunctions op ks fs) ds := by
  have hkeys : (switchedFunctions op ks fs).map Prod.fst = fs.map Prod.fst := by
    rw [switchedFunctions, List.map_map]
    rfl
  have huris : ((switchedFunctions op ks fs).map fun p => '/' :: p.1) =
      fs.map fun p => '/' :: p.1 := by
    rw [switchedFunctions, List.map_map]
    rfl
  have hcases : ∀ p ∈ switchedFunctions op ks fs, ∃ f, (p.1, f) ∈ fs ∧
      (p.2 = ComputeNode.SwitchOp.effect op f ∨ p.2 = f) := by
    intro p hp
    obtain ⟨q, hq, rfl⟩ := List.mem_map.mp hp
    refine ⟨q.2, hq, ?_⟩
    dsimp only
    split_ifs
    · exact Or.inl rfl
    · exact Or.inr rfl
  have hreportable : ∀ p ∈ switchedFunctions op ks fs, ReportableFunction p.1 p.2 := by
    intro p hp
    obtain ⟨f, hf, heq | heq⟩ := hcases p hp
    · have hrep := h.reportable.functions _ hf
      rw [heq]
      cases op with
      | enable => exact { hrep with missExecCounter := (by decide : FitsInt 0) }
      | disable => exact { hrep with }
    · rw [heq]
      exact h.reportable.functions _ hf
  have hinputs : ∀ p ∈ switchedFunctions op ks fs, '\x00' ∉ p.2.inputList := by
    intro p hp
    obtain ⟨f, hf, heq | heq⟩ := hcases p hp
    · rw [heq]
      cases op with
      | enable => exact h.terminated.2.2.2 _ hf
      | disable => exact h.terminated.2.2.2 _ hf
    · rw [heq]
      exact h.terminated.2.2.2 _ hf
  have hlimit : n'.executions < 2147483648 := hexecutions ▸ h.executions
  subst hn'
  exact
    { key := h.key, name := h.name
      functions := fun p hp => by
        obtain ⟨f, hf, -⟩ := hcases p hp
        exact h.functions (p.1, f) hf
      nodup := hkeys ▸ h.nodup
      reportable := { h.reportable with funcMap := rfl, functions := hreportable }
      terminated := ⟨h.terminated.1, h.terminated.2.1, h.terminated.2.2.1, hinputs⟩
      listed := huris ▸ h.listed
      executions := hlimit }

/-- **A command at a node** that is wired to its entry. -/
theorem switchAll {op : SwitchOp} {ks : List Str} {m : ComputeNode}
    (hm : ComputeNode.switchAll op n ks = .ok m) :
    Wiring K m e (switchedFunctions op ks fs) ds ∧ m.executions = n.executions := by
  have hmap := ComputeNode.funcMap_switchAll hm
  have hexecutions : m.executions = n.executions := by
    unfold ComputeNode.executions
    rw [hmap, ComputeNode.mapAll, List.map_map]
    refine congrArg List.sum (List.map_congr_left fun q _ => ?_)
    obtain ⟨k, _ | f⟩ := q
    · by_cases hk : k ∈ ks <;> simp [hk]
    · by_cases hk : k ∈ ks <;> simp [hk, ComputeNode.effect_eq]
  have hlist : ComputeNode.mapAll ks (ComputeNode.SwitchOp.effect op) n.funcMap =
      (switchedFunctions op ks fs).map fun p => ('/' :: p.1, some p.2) := by
    rw [h.reportable.funcMap, ComputeNode.mapAll, switchedFunctions, List.map_map, List.map_map]
    refine List.map_congr_left fun p _ => ?_
    by_cases hp : '/' :: p.1 ∈ ks <;> simp [hp]
  have hrest := ComputeNode.switchAll_eq hm
  rw [hlist] at hrest
  exact ⟨h.switched op ks _ _ hrest hexecutions, hexecutions⟩

end Wiring

end Wiring

namespace Network

/-! ## What polls and commands leave alone -/

section Keeps

variable (N : Network)

/-- The object of function `u` at node `K`, if the table has the node. -/
def cell (K u : Str) : Option IncComputation :=
  if (N.app.storage.find? K).isSome then ((N.nodes K).funcMap.lookup u).join else none

/-- Every node of the table is wired to its entry. -/
def Wired [NdnCxx] : Prop :=
  ∀ K e, N.app.storage.find? K = some e → ∃ fs ds, Wiring K (N.nodes K) e fs ds

/-- The table has the values of node `K`. -/
def ToldAt (K : Str) : Prop := ∀ e, N.app.storage.find? K = some e → Told (N.nodes K) e

/-- What polls and commands leave alone. -/
structure Keeps (N' : Network) : Prop where
  app : N'.app = { N.app with storage := N'.app.storage }
  cpu : ∀ K, (N'.app.storage.find? K).map NodeInfo.cpu = (N.app.storage.find? K).map NodeInfo.cpu
  counters : ∀ K u, (N'.cell K u).map IncComputation.execCounter =
    (N.cell K u).map IncComputation.execCounter
  executions : ∀ K, (N'.nodes K).executions = (N.nodes K).executions

variable {N} {N₁ N₂ : Network} {K u : Str}

theorem Keeps.refl (N : Network) : N.Keeps N := ⟨rfl, fun _ => rfl, fun _ _ => rfl, fun _ => rfl⟩

theorem Keeps.trans (h₁ : N.Keeps N₁) (h₂ : N₁.Keeps N₂) : N.Keeps N₂ where
  app := by rw [h₂.app, h₁.app]
  cpu K := (h₂.cpu K).trans (h₁.cpu K)
  counters K u := (h₂.counters K u).trans (h₁.counters K u)
  executions K := (h₂.executions K).trans (h₁.executions K)

theorem Keeps.symm (h : N.Keeps N₁) : N₁.Keeps N where
  app := by rw [h.app]
  cpu K := (h.cpu K).symm
  counters K u := (h.counters K u).symm
  executions K := (h.executions K).symm

theorem Keeps.isSome (h : N.Keeps N₁) (K : Str) :
    (N₁.app.storage.find? K).isSome = (N.app.storage.find? K).isSome := by
  rw [← Option.isSome_map (f := NodeInfo.cpu), h.cpu, Option.isSome_map]

theorem cell_of_find? {e : NodeInfo} (h : N.app.storage.find? K = some e) :
    N.cell K u = ((N.nodes K).funcMap.lookup u).join := if_pos (by rw [h]; rfl)

theorem cell_of_none (h : N.app.storage.find? K = none) : N.cell K u = none :=
  if_neg (by rw [h]; exact Bool.false_ne_true)

end Keeps

/-! ## One node and its entry replaced -/

section Put

/-- Node `K` and its entry replaced. -/
def put (N : Network) (K : Str) (n : ComputeNode) (e : NodeInfo) : Network :=
  ⟨Function.update N.nodes K n, { N.app with storage := N.app.storage.put K e }, N.inBand⟩

variable {N : Network} {K K' u : Str} {n : ComputeNode} {e e₀ : NodeInfo}

theorem nodes_put_self : (N.put K n e).nodes K = n := Function.update_self ..

theorem nodes_put_of_ne (h : K' ≠ K) : (N.put K n e).nodes K' = N.nodes K' :=
  Function.update_of_ne h ..

theorem find?_put_self (he : N.app.storage.find? K = some e₀) :
    (N.put K n e).app.storage.find? K = some e := OrdMap.find?_put_self he

theorem find?_put_of_ne (h : K' ≠ K) :
    (N.put K n e).app.storage.find? K' = N.app.storage.find? K' :=
  (OrdMap.find?_put ..).trans (if_neg h)

theorem cell_put_of_ne (h : K' ≠ K) : (N.put K n e).cell K' u = N.cell K' u := by
  rw [cell, cell, find?_put_of_ne h, nodes_put_of_ne h]

theorem cell_put_self (he : N.app.storage.find? K = some e₀) :
    (N.put K n e).cell K u = (n.funcMap.lookup u).join := by
  rw [cell_of_find? (find?_put_self he), nodes_put_self]

theorem Wired.put [NdnCxx] (h : N.Wired) (he : N.app.storage.find? K = some e₀)
    {fs : List (Str × IncComputation)} {ds : List (Str × UInt32)} (hw : Wiring K n e fs ds) :
    (N.put K n e).Wired := by
  intro K' e' he'
  by_cases hK : K' = K
  · subst hK
    rw [find?_put_self he, Option.some.injEq] at he'
    rw [nodes_put_self, ← he']
    exact ⟨fs, ds, hw⟩
  · rw [find?_put_of_ne hK] at he'
    rw [nodes_put_of_ne hK]
    exact h K' e' he'

theorem keeps_put (he : N.app.storage.find? K = some e₀) (hcpu : e.cpu = e₀.cpu)
    (hcounters : ∀ u, (n.funcMap.lookup u).join.map IncComputation.execCounter =
      ((N.nodes K).funcMap.lookup u).join.map IncComputation.execCounter)
    (hexecutions : n.executions = (N.nodes K).executions) : N.Keeps (N.put K n e) := by
  refine ⟨rfl, fun K' => ?_, fun K' u => ?_, fun K' => ?_⟩
  · by_cases hK : K' = K
    · rw [hK, find?_put_self he, he, Option.map_some, Option.map_some, hcpu]
    · rw [find?_put_of_ne hK]
  · by_cases hK : K' = K
    · rw [hK, cell_put_self he, cell_of_find? he, hcounters]
    · rw [cell_put_of_ne hK]
  · by_cases hK : K' = K
    · rw [hK, nodes_put_self, hexecutions]
    · rw [nodes_put_of_ne hK]

end Put

variable [NdnCxx] {N N₁ N₂ : Network} {e : NodeInfo} {fs : List (Str × IncComputation)}
  {ds : List (Str × UInt32)}

/-! ## Polls -/

/-- **One poll.** -/
theorem poll_eq (hread : NdnCxx.ReadsPlain) {q : Fetch} (hi : Asks q.interest .nodeStatusFetch)
    (he : N.app.storage.find? q.node = some e) (hw : Wiring q.node (N.nodes q.node) e fs ds) :
    N.poll q = .ok (N.put q.node (N.nodes q.node).resetNodeBusyCounter
      (e.update (N.nodes q.node) fs ds)) := by
  have huri : ∀ r : StatusRequest, UriExact r.text.toList := by
    rintro (_ | _)
    · exact uriExact_of_plain hread (c := "BootstrapInfo".toList) (.of_all (by decide) (by decide))
    · exact uriExact_of_plain hread (c := "NodeStatusFetch".toList) (.of_all (by decide) (by decide))
  have hstatus : (N.nodes q.node).ndnOrchestratorRequestResolution q.interest =
      .ok ((N.nodes q.node).resetNodeBusyCounter,
        some ([';'].intercalate ((N.nodes q.node).reportTokens fs))) := by
    have hreply := ndnStatusFetchHandler_eq hw.reportable q.interest
    rw [atRequest_status huri hi] at hreply
    unfold ComputeNode.ndnOrchestratorRequestResolution
    refine (if_pos (Or.inr hi.request)).trans ?_
    rw [hreply]
    rfl
  have htable := nodeStatusFetchHandler_report hw.reportable (t := N.app.storage) (hw.key ▸ he)
  rw [← hw.key] at htable
  have hcontent := ndnOnData_reply huri hi N.app.storage
    ([';'].intercalate ((N.nodes q.node).reportTokens fs)) q.behind
  rw [cString_of_not_mem hw.null_not_mem_report, handleMessage_nodeStatusFetch, htable] at hcontent
  simp only [poll, exchange, hstatus, onReply, bind, Except.bind, hcontent]
  rfl

/-- What polls do to a network. -/
structure Polls (N : Network) (qs : List Fetch) (N' : Network) : Prop where
  wired : N'.Wired
  keeps : N.Keeps N'
  cells : ∀ K u, N'.cell K u = N.cell K u
  told : ∀ K, N.ToldAt K ∨ (∃ q ∈ qs, q.node = K) → N'.ToldAt K

theorem Polls.trans {qs qs' : List Fetch} (h₁ : Polls N qs N₁) (h₂ : Polls N₁ qs' N₂) :
    Polls N (qs ++ qs') N₂ where
  wired := h₂.wired
  keeps := h₁.keeps.trans h₂.keeps
  cells K u := (h₂.cells K u).trans (h₁.cells K u)
  told K := by
    rintro (h | ⟨q, hq, rfl⟩)
    · exact h₂.told K (Or.inl (h₁.told K (Or.inl h)))
    · rcases List.mem_append.mp hq with hq | hq
      · exact h₂.told _ (Or.inl (h₁.told _ (Or.inr ⟨q, hq, rfl⟩)))
      · exact h₂.told _ (Or.inr ⟨q, hq, rfl⟩)

/-- The step of a run of polls. -/
theorem poll_spec (hread : NdnCxx.ReadsPlain) (h : N.Wired) {q : Fetch}
    (hi : Asks q.interest .nodeStatusFetch) (hk : (N.app.storage.find? q.node).isSome) :
    ∃ N', N.poll q = .ok N' ∧ Polls N [q] N' := by
  obtain ⟨e, he⟩ := Option.isSome_iff_exists.mp hk
  obtain ⟨fs, ds, hw⟩ := h q.node e he
  have hmap : (N.nodes q.node).resetNodeBusyCounter.funcMap = (N.nodes q.node).funcMap := rfl
  refine ⟨_, poll_eq hread hi he hw, h.put he (hw.update hread),
    keeps_put he rfl (fun _ => rfl) rfl, fun K u => ?_, fun K hK e' he' => ?_⟩
  · by_cases hq : K = q.node
    · rw [hq, cell_put_self he, cell_of_find? he, hmap]
    · rw [cell_put_of_ne hq]
  · by_cases hq : K = q.node
    · rw [hq, find?_put_self he, Option.some.injEq] at he'
      rw [hq, nodes_put_self, ← he']
      exact hw.told_update hread
    · rw [find?_put_of_ne hq] at he'
      rw [nodes_put_of_ne hq]
      refine (hK.resolve_right ?_) e' he'
      rintro ⟨q', hq', rfl⟩
      exact hq (congrArg Fetch.node (List.mem_singleton.mp hq'))

/-- **Any polls of nodes in the table.** -/
theorem run_poll (hread : NdnCxx.ReadsPlain) {qs : List Fetch} (h : N.Wired)
    (hi : ∀ q ∈ qs, Asks q.interest .nodeStatusFetch)
    (hk : ∀ q ∈ qs, (N.app.storage.find? q.node).isSome) :
    ∃ N', run poll N qs = .ok N' ∧ Polls N qs N' := by
  induction qs generalizing N with
  | nil => exact ⟨N, rfl, h, .refl N, fun _ _ => rfl, fun K hK => hK.resolve_right (by simp)⟩
  | cons q qs ih =>
    obtain ⟨N₁, hN₁, hq⟩ := poll_spec hread h (hi q List.mem_cons_self) (hk q List.mem_cons_self)
    obtain ⟨N', hN', hqs⟩ := ih hq.wired (fun q' hq' => hi q' (List.mem_cons_of_mem _ hq'))
      fun q' hq' => (hq.keeps.isSome _).trans (hk q' (List.mem_cons_of_mem _ hq'))
    exact ⟨N', run_cons.mpr ⟨N₁, hN₁, hN'⟩, hq.trans hqs⟩

/-! ## Commands -/

/-- A command that names functions of a node of the table, by plain names. -/
def Addressed (N : Network) (c : ControlInterest) : Prop :=
  (N.app.storage.find? c.node).isSome ∧ ∀ u ∈ c.funcs, ∃ s, PlainComp s ∧ u = funcKey s

/-- The command names function `u` of node `K`. -/
def NamesAt (K u : Str) (c : ControlInterest) : Prop := c.node = K ∧ u ∈ c.funcs

instance (K u : Str) (c : ControlInterest) : Decidable (NamesAt K u c) :=
  inferInstanceAs (Decidable (_ ∧ _))

/-- What a command makes of the object of function `u` at node `K`. -/
def act (K u : Str) (f : IncComputation) (c : ControlInterest) : IncComputation :=
  if NamesAt K u c then ComputeNode.SwitchOp.effect c.op f else f

/-- What commands do to a network. -/
structure Commands (N : Network) (cs : List ControlInterest) (N' : Network) : Prop where
  wired : N'.Wired
  keeps : N.Keeps N'
  app : N'.app = N.app
  cells : ∀ K u, N'.cell K u = (N.cell K u).map fun f => cs.foldl (act K u) f

theorem Commands.trans {cs cs' : List ControlInterest} (h₁ : Commands N cs N₁)
    (h₂ : Commands N₁ cs' N₂) : Commands N (cs ++ cs') N₂ where
  wired := h₂.wired
  keeps := h₁.keeps.trans h₂.keeps
  app := h₂.app.trans h₁.app
  cells K u := by
    rw [h₂.cells, h₁.cells, Option.map_map]
    simp only [List.foldl_append]
    rfl

section Switch

variable {node : Str} {op : SwitchOp} {funcs : List Str}

theorem ofUri_switchName (hread : NdnCxx.ReadsPlain) (hnode : PlainComp node)
    (hfuncs : ∀ s ∈ funcs, PlainComp s) :
    NdnCxx.ofUri (switchName node op funcs).toUri = switchName node op funcs := by
  refine hread.ofUri_toUri _ ?_
  simp only [List.forall_mem_cons]
  refine ⟨.of_all (by decide) (by decide), hnode, .of_all (by decide) (by decide), ?_, hfuncs⟩
  cases op with
  | enable => exact .of_all (by decide) (by decide)
  | disable => exact .of_all (by decide) (by decide)

/-- The reply to a command changes nothing in the table. -/
theorem onReply_switchName (hread : NdnCxx.ReadsPlain) (hnode : PlainComp node)
    (hfuncs : ∀ s ∈ funcs, PlainComp s) (t : Table) (behind : Str) (payload : Option Str) :
    onReply t (switchName node op funcs) behind payload = .ok t := by
  have hrequest : (switchName node op funcs).getSubName 2 1 = ⟨["FunctionSwitch".toList]⟩ := rfl
  have hne : ∀ c : Str, PlainComp c → "FunctionSwitch".toList ≠ c →
      (switchName node op funcs).getSubName 2 1 ≠ NdnCxx.ofUri ('/' :: c) := by
    intro c hc hne heq
    rw [hrequest, hread.ofUri_cons hc] at heq
    exact hne (List.cons.inj (Name.mk.inj heq)).1
  have hboot := hne "BootstrapInfo".toList (.of_all (by decide) (by decide)) (by decide)
  have hfetch := hne "NodeStatusFetch".toList (.of_all (by decide) (by decide)) (by decide)
  have haction : ndnAction (switchName node op funcs) = "/Others" := by
    unfold ndnAction
    split_ifs with horch hb hf
    · exact absurd hb hboot
    · exact absurd hf hfetch
    · rfl
    · rfl
  cases payload with
  | none => rfl
  | some content =>
    rw [onReply, ndnOnData, ofUri_switchName hread hnode hfuncs, haction]
    rfl

end Switch

/-- **One command.** -/
theorem command_eq (hread : NdnCxx.ReadsPlain) {q : ControlInterest × Str}
    (hq : ∀ u ∈ q.1.funcs, ∃ s, PlainComp s ∧ u = funcKey s)
    (he : N.app.storage.find? q.1.node = some e) (hw : Wiring q.1.node (N.nodes q.1.node) e fs ds) :
    ∃ m, ComputeNode.switchAll q.1.op (N.nodes q.1.node) q.1.funcs = .ok m ∧
      N.command q = .ok (N.put q.1.node m e) := by
  obtain ⟨c, behind⟩ := q
  dsimp only at hq he hw ⊢
  have hkeys : ∀ u ∈ c.funcs, u = funcKey (u.drop 1) ∧ PlainComp (u.drop 1) := by
    intro u hu
    obtain ⟨s, hs, rfl⟩ := hq u hu
    exact ⟨rfl, hs⟩
  have hspelled : c.Spelled := by
    refine ⟨?_, fun u hu => (hkeys u hu).1⟩
    rw [hw.key]
    rfl
  have hname : c.node.drop 1 = (N.nodes c.node).name := congrArg (List.drop 1) hw.key
  have hplain : ∀ s ∈ c.funcs.map fun u => u.drop 1, PlainComp s := by
    intro s hs
    obtain ⟨u, hu, rfl⟩ := List.mem_map.mp hs
    exact (hkeys u hu).2
  have hnode : PlainComp (c.node.drop 1) := hname ▸ hw.name
  have hfuncs : (c.funcs.map fun u => u.drop 1).map funcKey = c.funcs := by
    rw [List.map_map]
    exact (List.map_congr_left fun u hu => (hkeys u hu).1.symm).trans (List.map_id _)
  obtain ⟨m, hm⟩ : ∃ m, ComputeNode.switchAll c.op (N.nodes c.node) c.funcs = .ok m :=
    ComputeNode.switchAll_isOk.mpr fun k _ => hw.lookup_ne_null k
  have hhandler := ComputeNode.ndnFunctionSwitchHandler_node (N.nodes c.node) (c.node.drop 1) c.op
    (c.funcs.map fun u => u.drop 1)
  rw [hfuncs, hm] at hhandler
  obtain ⟨⟨m', reply⟩, hreply, rfl⟩ := map_eq_ok.mp hhandler
  have hread' : NdnCxx.ofUri c.text = c.name := by
    rw [hspelled.text_eq]
    exact ofUri_switchName hread hnode hplain
  have hresolve : (N.nodes c.node).ndnOrchestratorRequestResolution c.name = .ok (m', reply) :=
    (ndn_resolution_of_switchName hread _).trans hreply
  have htable : onReply N.app.storage c.name behind reply = .ok N.app.storage :=
    onReply_switchName hread hnode hplain _ _ _
  refine ⟨m', hm, ?_⟩
  simp only [command, exchange, hread', hresolve, bind, Except.bind, htable]
  rw [put, OrdMap.put_self he]

/-- The step of a run of commands. -/
theorem command_spec (hread : NdnCxx.ReadsPlain) (h : N.Wired) {q : ControlInterest × Str}
    (hq : N.Addressed q.1) : ∃ N', N.command q = .ok N' ∧ Commands N [q.1] N' := by
  obtain ⟨e, he⟩ := Option.isSome_iff_exists.mp hq.1
  obtain ⟨fs, ds, hw⟩ := h q.1.node e he
  obtain ⟨m, hm, hN'⟩ := command_eq hread hq.2 he hw
  obtain ⟨hwiring, hexecutions⟩ := hw.switchAll hm
  have hlookup : ∀ u, (m.funcMap.lookup u).join =
      ((N.nodes q.1.node).funcMap.lookup u).join.map fun f => act q.1.node u f q.1 := by
    intro u
    have hat : NamesAt q.1.node u q.1 ↔ u ∈ q.1.funcs := and_iff_right rfl
    rw [ComputeNode.lookup_switchAll_eq hm]
    unfold act
    rcases (N.nodes q.1.node).funcMap.lookup u with _ | _ | f
    · rfl
    · by_cases hu : u ∈ q.1.funcs <;> simp [hu]
    · by_cases hu : u ∈ q.1.funcs <;> simp [hat, hu]
  refine ⟨_, hN', h.put he hwiring, keeps_put he rfl (fun u => ?_) hexecutions, ?_, fun K u => ?_⟩
  · rw [hlookup, Option.map_map]
    refine congrArg (Option.map · _) (funext fun f => ?_)
    unfold act
    dsimp only [Function.comp_apply]
    split_ifs
    · rw [ComputeNode.effect_eq]
    · rfl
  · rw [put, OrdMap.put_self he]
  · by_cases hK : K = q.1.node
    · rw [hK, cell_put_self he, cell_of_find? he, hlookup]
      rfl
    · have hact : ∀ f, act K u f q.1 = f := fun f => if_neg fun h => hK h.1.symm
      rw [cell_put_of_ne hK]
      simp only [List.foldl_cons, List.foldl_nil, hact, Option.map_id']

/-- **Any commands for nodes of the table.** -/
theorem run_command (hread : NdnCxx.ReadsPlain) {qs : List (ControlInterest × Str)} (h : N.Wired)
    (hq : ∀ q ∈ qs, N.Addressed q.1) :
    ∃ N', run command N qs = .ok N' ∧ Commands N (qs.map Prod.fst) N' := by
  induction qs generalizing N with
  | nil => exact ⟨N, rfl, h, .refl N, rfl, fun _ _ => Option.map_id'.symm⟩
  | cons q qs ih =>
    obtain ⟨N₁, hN₁, hc⟩ := command_spec hread h (hq q List.mem_cons_self)
    obtain ⟨N', hN', hcs⟩ := ih hc.wired fun q' hq' => by
      have hq' := hq q' (List.mem_cons_of_mem _ hq')
      exact ⟨(hc.keeps.isSome _).trans hq'.1, hq'.2⟩
    exact ⟨N', run_cons.mpr ⟨N₁, hN₁, hN'⟩, hc.trans hcs⟩

end Network

end IncSim
