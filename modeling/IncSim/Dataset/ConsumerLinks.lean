import IncSim.Dataset.Hierarchy
import Mathlib.Data.List.Count

/-!
# Consumers at the last tier

The two loops of `DataGen::generate_data` that link the consumers deal the consumers out to the nodes
of the last tier, so each consumer has one link, and the nodes have equally many up to one, where the
loops find their nodes.

* `linksTo`, `linksFrom`: how many links lead to a name, or start at it.
* `lastTier`: the nodes that the loops take from `m_node_list`.
* `AttachedEvenly`; **`consumers_attached_iff`**: when the loops stay within `m_node_list`, and what
  they write then.
-/

namespace IncSim

namespace DataGen

variable {p : GenParams} {i : ℕ} {n : NodeProperties}

/-- The links that lead to the name. -/
def linksTo (links : List Row) (name : Str) : ℕ := (links.map fun r => r.getD 1 []).count name

/-- The links that start at the name. -/
def linksFrom (links : List Row) (name : Str) : ℕ := (links.map Row.name).count name

/-- Node `i` of the last tier, where the sum is one of `uint32_t`. -/
def lastTier (p : GenParams) (i : ℕ) : Option NodeProperties :=
  (nodeList p)[(p.t2Nodes + 2 + i) % 2 ^ 32]?

/-- Each consumer has one link, to a node of the last tier, and these nodes have equally many links
up to one. -/
structure AttachedEvenly (p : GenParams) (links : List Row) : Prop where
  once : ∀ s, linksTo links (consumerName s) = if s < p.numConsumerNodes then 1 else 0
  ends : ∀ r ∈ links, ∃ i < p.t3Nodes, ∃ s < p.numConsumerNodes, ∃ n, lastTier p i = some n ∧
    r = linkRow n.name (consumerName s) "250Mbps" "1" "2ms" "10"
  even : ∀ i < p.t3Nodes, ∀ j < p.t3Nodes, ∀ a b, lastTier p i = some a → lastTier p j = some b →
    linksFrom links a.name ≤ linksFrom links b.name + 1

theorem exists_lastTier (hi : (p.t2Nodes + 2 + i) % 2 ^ 32 < nodeCount p) :
    ∃ n, lastTier p i = some n ∧ n.name = computeName ((p.t2Nodes + 2 + i) % 2 ^ 32) :=
  exists_node hi

theorem name_of_lastTier (h : lastTier p i = some n) :
    n.name = computeName ((p.t2Nodes + 2 + i) % 2 ^ 32) := by
  have hname := getElem?_nodeList (p := p) (i := (p.t2Nodes + 2 + i) % 2 ^ 32)
  unfold lastTier at h
  rw [h] at hname
  split_ifs at hname
  · exact Option.some.inj hname
  · cases hname

theorem linksTo_attach (h₃ : 1 ≤ p.t3Nodes) (s : ℕ) :
    linksTo ((consumerPairs p).map (attach p)) (consumerName s) =
      if s < p.numConsumerNodes then 1 else 0 := by
  have htargets : ((consumerPairs p).map (attach p)).map (fun r => r.getD 1 []) =
      ((consumerPairs p).map Prod.snd).map consumerName := by
    rw [List.map_map, List.map_map]
    rfl
  rw [linksTo, htargets, List.count_map_of_injective _ _ consumerName_injective,
    consumerPairs_eq_deal, Deal.map_snd_deal h₃, List.nodup_range.count]
  simp only [List.mem_range]

/-- The links that start at a node are those of its hand: different hands have different nodes. -/
theorem linksFrom_attach (hi : i < p.t3Nodes) :
    linksFrom ((consumerPairs p).map (attach p)) (computeName ((p.t2Nodes + 2 + i) % 2 ^ 32)) =
      ((Deal.deal p.t3Nodes p.numConsumerNodes).map Prod.fst).count i := by
  have hlt := p.t3_lt
  unfold linksFrom
  rw [List.map_map, ← consumerPairs_eq_deal, List.count_eq_countP, List.count_eq_countP,
    List.countP_map, List.countP_map]
  refine List.countP_congr fun s hs => ?_
  have hs := (lt_of_mem_consumerPairs hs).1
  have hname : (attach p s).name = computeName ((p.t2Nodes + 2 + s.1) % 2 ^ 32) := rfl
  simp only [Function.comp_apply, beq_iff_eq, hname, computeName_injective.eq_iff]
  omega

/-- **What the loops write** attaches the consumers evenly. -/
theorem attachedEvenly_attach (h₃ : 1 ≤ p.t3Nodes) (hfit : ConsumersFit p) :
    AttachedEvenly p ((consumerPairs p).map (attach p)) where
  once := linksTo_attach h₃
  ends := by
    intro r hr
    obtain ⟨s, hs, rfl⟩ := List.mem_map.mp hr
    obtain ⟨hi, hc⟩ := lt_of_mem_consumerPairs hs
    obtain ⟨n, hn, hname⟩ := exists_lastTier (consumersFit_iff_pairs.mp hfit s hs)
    refine ⟨s.1, hi, s.2, hc, n, hn, ?_⟩
    rw [hname]
    rfl
  even := by
    intro i hi j hj a b ha hb
    rw [name_of_lastTier ha, name_of_lastTier hb, linksFrom_attach hi, linksFrom_attach hj]
    exact Deal.count_deal_le hi hj

end DataGen

open DataGen

/-- **The consumers are attached once and evenly**, by loops that stay within `m_node_list`, exactly
when the list has the nodes of the last tier that get a consumer. -/
theorem consumers_attached_iff (p : GenParams) (hn : 1 ≤ p.numConsumerNodes) (h₃ : 1 ≤ p.t3Nodes) :
    (∃ links, consumerLinks p = .ok links ∧ AttachedEvenly p links) ↔
      (p.t2Nodes + 2) % 2 ^ 32 + min p.t3Nodes p.numConsumerNodes ≤
        (p.t1Nodes + p.t2Nodes + p.t3Nodes + 2) % 2 ^ 32 - 1 := by
  rw [show (p.t1Nodes + p.t2Nodes + p.t3Nodes + 2) % 2 ^ 32 - 1 = nodeCount p from rfl,
    ← consumersFit_iff h₃ hn]
  constructor
  · rintro ⟨links, hlinks, -⟩
    by_contra hfit
    rw [consumerLinks_eq h₃, if_neg hfit] at hlinks
    cases hlinks
  · intro hfit
    exact ⟨_, by rw [consumerLinks_eq h₃, if_pos hfit], attachedEvenly_attach h₃ hfit⟩

/-- Seven consumers at four nodes: one for each, and one more for the first three. -/
theorem consumers_attached_seven : ∃ links, consumerLinks (tiers 7 1 2 4) = .ok links ∧
    AttachedEvenly (tiers 7 1 2 4) links :=
  (consumers_attached_iff (tiers 7 1 2 4) (by decide) (by decide)).mpr (by decide)

/-- The sum of the tiers wraps, and the list of nodes is empty. -/
theorem consumers_outOfRange :
    ¬ ∀ p : GenParams, 1 ≤ p.numConsumerNodes → 1 ≤ p.t1Nodes → 1 ≤ p.t2Nodes → 1 ≤ p.t3Nodes →
      ∃ links, consumerLinks p = .ok links ∧ AttachedEvenly p links := by
  intro hall
  obtain ⟨links, hlinks, -⟩ :=
    hall (tiers 1 4294967293 1 1) (by decide) (by decide) (by decide) (by decide)
  rw [consumerLinks_eq (by decide), if_neg (by decide)] at hlinks
  cases hlinks

end IncSim
