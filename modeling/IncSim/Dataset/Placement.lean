import IncSim.Dataset.Parser
import IncSim.Topology.Reader

/-!
# Applications on consumers

The scenario pairs the vector of the parser with the consumer nodes of the reader by position.

* `attach`: its loops over that vector.
* `Installed`: the names agree, so that everything goes to the consumer named in its row.
* **`installed_iff`**: this holds exactly for the files in which no consumer is named before all
  consumers with smaller numbers have been named.
-/

namespace IncSim

open PartialRun Grouping ParserNodeInfo

/-- A loop of the scenario: the element at position `k` goes to `NC_nodes.second.Get (k)`. -/
def attach (nodes : List Str) (prefixes : ConsumerNode → List Str) (v : List ConsumerNode) :
    List (Option Str × Str) :=
  v.zipIdx.flatMap fun q => (prefixes q.1).map fun p => (nodes[q.2]?, p)

/-- The element at position `k` has the name of the consumer node at position `k`. -/
def NamesAgree (nodes : List Str) (v : List ConsumerNode) : Prop :=
  ∀ (k : ℕ) (n : ConsumerNode), v[k]? = some n → nodes[k]? = some n.name

/-- **Rows are installed on the consumer that they name.** -/
structure Installed (lines nodes : List Str) (v : List ConsumerNode) : Prop where
  names : NamesAgree nodes v
  /-- the applications that send requests -/
  requests : ∀ q ∈ attach nodes ConsumerNode.functionPrefix v, ∃ row ∈ consumerRows lines,
    q.1 = some row.name ∧ q.2 = generateFuncFirstPrefix (row.getD 1 []) (row.getD 2 [])
  /-- the data producers -/
  data : ∀ q ∈ attach nodes ConsumerNode.dataPrefixProvided v, ∃ row ∈ dataRows lines,
    q.1 = some row.name ∧ q.2 = generateDataPrefix (row.getD 1 [])
  /-- the origins of prefixes, for the given number of consumers -/
  origins : ∀ num, ∀ q ∈ attach nodes ConsumerNode.dataPrefixProvided (v.take num),
    ∃ row ∈ dataRows lines, q.1 = some row.name ∧ q.2 = generateDataPrefix (row.getD 1 [])

variable {lines nodes : List Str} {v : List ConsumerNode}

theorem mem_attach {prefixes : ConsumerNode → List Str} {q : Option Str × Str}
    (hn : NamesAgree nodes v) (hq : q ∈ attach nodes prefixes v) :
    ∃ n ∈ v, q.1 = some n.name ∧ q.2 ∈ prefixes n := by
  obtain ⟨⟨n, k⟩, hk, hq⟩ := List.mem_flatMap.mp hq
  obtain ⟨p, hp, rfl⟩ := List.mem_map.mp hq
  have hget : v[k]? = some n := List.mem_zipIdx_iff_getElem?.mp hk
  exact ⟨n, List.mem_of_getElem? hget, hn k n hget, hp⟩

theorem NamesAgree.take (h : NamesAgree nodes v) (num : ℕ) : NamesAgree nodes (v.take num) := by
  intro k n hk
  rw [List.getElem?_take] at hk
  split_ifs at hk
  exact h k n hk

/-- Where the names agree, everything goes to the consumer named in its row. -/
theorem NamesAgree.installed (h : NamesAgree nodes v) (hv : ∀ n ∈ v, Collected lines n) :
    Installed lines nodes v where
  names := h
  requests q hq := by
    obtain ⟨n, hn, hnode, hp⟩ := mem_attach h hq
    obtain ⟨row, hrow, hname, hprefix⟩ := (hv n hn).requests _ hp
    exact ⟨row, hrow, by rw [hnode, hname], hprefix⟩
  data q hq := by
    obtain ⟨n, hn, hnode, hp⟩ := mem_attach h hq
    obtain ⟨row, hrow, hname, hprefix⟩ := (hv n hn).data _ hp
    exact ⟨row, hrow, by rw [hnode, hname], hprefix⟩
  origins num q hq := by
    obtain ⟨n, hn, hnode, hp⟩ := mem_attach (h.take num) hq
    obtain ⟨row, hrow, hname, hprefix⟩ := (hv n (List.mem_of_mem_take hn)).data _ hp
    exact ⟨row, hrow, by rw [hnode, hname], hprefix⟩

/-- Against the consumers of the router section the names agree when they count up from 0. -/
theorem namesAgree_iff {num : ℕ} (hmem : ∀ n ∈ v, ∃ k < num, n.name = consumerName k) :
    NamesAgree ((List.range num).map consumerName) v ↔
      Enumerates consumerName (v.map ConsumerNode.name) := by
  unfold Enumerates
  rw [List.length_map]
  constructor
  · intro h
    refine List.ext_getElem? fun k => ?_
    rw [List.getElem?_map, List.getElem?_map]
    rcases hk : v[k]? with _ | n
    · rw [List.getElem?_eq_none_iff] at hk
      rw [List.getElem?_eq_none (by simpa using hk)]
      rfl
    · obtain ⟨hlt, -⟩ := List.getElem?_eq_some_iff.mp hk
      have hname := h k n hk
      rw [List.getElem?_map] at hname
      have hnum : k < num := by
        by_contra hge
        rw [List.getElem?_eq_none (by simpa using hge)] at hname
        cases hname
      rw [List.getElem?_range hnum] at hname
      rw [List.getElem?_range hlt]
      exact hname.symm
  · intro h k n hk
    obtain ⟨hlt, -⟩ := List.getElem?_eq_some_iff.mp hk
    have hname : (v.map ConsumerNode.name)[k]? = some n.name := by rw [List.getElem?_map, hk]; rfl
    rw [h, List.getElem?_map, List.getElem?_range hlt] at hname
    have hname : consumerName k = n.name := Option.some.inj hname
    obtain ⟨j, hj, hnj⟩ := hmem n (List.mem_of_getElem? hk)
    obtain rfl : k = j := DataGen.consumerName_injective (hname.trans hnj)
    rw [List.getElem?_map, List.getElem?_range hj, Option.map_some, hname]

section Whole

variable [NdnCxx] [Ns3Names] {junk : Junk} {num : ℕ}

/-- The names of the nodes in `NC_nodes.second`. -/
def consumerNodesOf (junk : Junk) (lines : List Str) : Option (List Str) :=
  (Topology.readTopology junk lines).map Topology.consumerNodes

/-- **Rows are installed on the consumer that they name** exactly when no row names a consumer before
rows have named all consumers with smaller numbers. -/
theorem installed_iff
    (hnodes : consumerNodesOf junk lines = some ((List.range num).map consumerName))
    (hrows : ∀ name ∈ rowNames lines, ∃ k < num, name = consumerName k)
    (hv : updateConsumerInfo lines = .ok v) :
    (∀ nodes ∈ consumerNodesOf junk lines, Installed lines nodes v) ↔
      InOrder consumerName (rowNames lines) := by
  have hnames := map_name_updateConsumerInfo hv
  have hmem : ∀ n ∈ v, ∃ k < num, n.name = consumerName k := by
    intro n hn
    have hfirst : n.name ∈ firsts (rowNames lines) := hnames ▸ List.mem_map_of_mem hn
    exact hrows _ (mem_firsts.mp hfirst)
  have hkeys : ∀ name ∈ rowNames lines, ∃ k, name = consumerName k := by
    intro name hname
    obtain ⟨k, -, hk⟩ := hrows name hname
    exact ⟨k, hk⟩
  rw [← firsts_enumerate_iff DataGen.consumerName_injective hkeys, ← hnames, ← namesAgree_iff hmem,
    hnodes]
  constructor
  · intro h
    exact (h _ rfl).names
  · rintro h nodes ⟨⟩
    exact h.installed (collected_of_updateConsumerInfo hv)

end Whole

/-- Two consumers; the first request is one of `consumer_1`. -/
def secondFirst : List Str :=
  ["router", "orchestrator\t100\t30\t10\t4000\t40960\t2000\t10\tl1,l2,l3\tdocker,python,java",
    "consumer_0\t20\t0\tNaN\tNaN\tNaN\tNaN\tNaN\tNaN",
    "consumer_1\t20\t1\tNaN\tNaN\tNaN\tNaN\tNaN\tNaN",
    "", "links", "", "functions", "", "initial function status", "", "consumer section",
    "consumer_1\tfunc-0\tOperand_0\t5\t20\t7\t134", "consumer_0\tfunc-0\tOperand_1\t5\t20\t7\t134",
    "", "initial data section", "consumer_0\tOperand_0\t500\t2", "consumer_1\tOperand_1\t500\t2",
    ""].map String.toList

theorem consumerNodesOf_secondFirst :
    @consumerNodesOf plainUri listNames ⟨fun _ => default, fun _ _ => 0⟩ secondFirst =
      some ((List.range 2).map consumerName) := by
  decide +kernel

theorem rowNames_secondFirst :
    rowNames secondFirst = [consumerName 1, consumerName 0, consumerName 0, consumerName 1] := by
  decide

theorem updateConsumerInfo_secondFirst : ∃ v, updateConsumerInfo secondFirst = .ok v := by
  exact ⟨_, rfl⟩

theorem exists_of_mem_rowNames_secondFirst :
    ∀ name ∈ rowNames secondFirst, ∃ k < 2, name = consumerName k := by
  rw [rowNames_secondFirst]
  decide

theorem installed_iff_secondFirst :
    ∃ v, (∀ nodes ∈ @consumerNodesOf plainUri listNames ⟨fun _ => default, fun _ _ => 0⟩ secondFirst,
      Installed secondFirst nodes v) ↔ InOrder consumerName (rowNames secondFirst) := by
  obtain ⟨v, hv⟩ := updateConsumerInfo_secondFirst
  exact ⟨v, @installed_iff _ _ plainUri listNames _ _ consumerNodesOf_secondFirst
    exists_of_mem_rowNames_secondFirst hv⟩

/-- The request of `consumer_1` is installed on `consumer_0`. -/
theorem not_installed : ¬ ∀ [NdnCxx] [Ns3Names] (junk : Junk) (lines : List Str) (num : ℕ)
    (v : List ConsumerNode),
    consumerNodesOf junk lines = some ((List.range num).map consumerName) →
    (∀ name ∈ rowNames lines, ∃ k < num, name = consumerName k) →
    updateConsumerInfo lines = .ok v →
    ∀ nodes ∈ consumerNodesOf junk lines, Installed lines nodes v := by
  intro h
  obtain ⟨v, hv⟩ := updateConsumerInfo_secondFirst
  have hinst := @h plainUri listNames _ secondFirst 2 v consumerNodesOf_secondFirst
    exists_of_mem_rowNames_secondFirst hv _ consumerNodesOf_secondFirst
  have hnames := map_name_updateConsumerInfo hv
  rw [rowNames_secondFirst] at hnames
  have hfirst : (v.map ConsumerNode.name)[0]? = some (consumerName 1) := by
    rw [hnames]
    decide
  rw [List.getElem?_map] at hfirst
  obtain ⟨n, hn, hname⟩ := Option.map_eq_some_iff.mp hfirst
  have hnode := hinst.names 0 n hn
  rw [hname] at hnode
  revert hnode
  decide

end IncSim
