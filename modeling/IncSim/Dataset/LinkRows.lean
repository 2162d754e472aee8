import IncSim.Dataset.Hierarchy
import IncSim.Topology.Links
import IncSim.Topology.Settings

/-!
# The rows of the links section

* `Forward`: the direction of a generated link; `forward_asymm`.
* `Written`, `written_of_linksSection`: a row with six columns, in one direction.
* `Written.rowLink`, `Written.ends`: the link that is read; `unreversed_written`, **`found_iff`**: all
  rows are read where their nodes are declared.
-/

namespace IncSim

open PartialRun Extract

namespace DataGen

variable {p : GenParams} {r : Row}

theorem exists_computeName_of_mem {n : NodeProperties} (hn : n ∈ nodeList p) :
    ∃ i, n.name = computeName i := by
  have hmem : n.name ∈ (nodeList p).map NodeProperties.name := List.mem_map_of_mem hn
  rw [map_name_nodeList] at hmem
  obtain ⟨i, -, hi⟩ := List.mem_map.mp hmem
  exact ⟨i, hi.symm⟩

theorem consumerName_ne_orchestratorName (i : ℕ) : consumerName i ≠ orchestratorName := by
  intro h
  have hc : (consumerName i)[0]? = some 'c' := rfl
  have ho : orchestratorName[0]? = some 'o' := rfl
  rw [h, ho] at hc
  exact absurd (Option.some.inj hc) (by decide)

/-- From the orchestrator to a compute node, from a compute node to a later one, or from a compute node
to a consumer. -/
def Forward (a b : Str) : Prop :=
  (∃ j, a = orchestratorName ∧ b = computeName j) ∨
  (∃ i j, i < j ∧ a = computeName i ∧ b = computeName j) ∨
  ∃ i s, a = computeName i ∧ b = consumerName s

/-- **A link is not generated in both directions.** -/
theorem forward_asymm {a b : Str} (h : Forward a b) : ¬ Forward b a := by
  intro h'
  rcases h with ⟨j, ha, hb⟩ | ⟨i, j, hlt, ha, hb⟩ | ⟨i, s, ha, hb⟩
  · rcases h' with ⟨j', -, ha'⟩ | ⟨i', j', -, -, ha'⟩ | ⟨i', s', -, ha'⟩
    · exact computeName_ne_orchestratorName j' (ha'.symm.trans ha)
    · exact computeName_ne_orchestratorName j' (ha'.symm.trans ha)
    · exact consumerName_ne_orchestratorName s' (ha'.symm.trans ha)
  · rcases h' with ⟨j', hb', -⟩ | ⟨i', j', hlt', hb', ha'⟩ | ⟨i', s', -, ha'⟩
    · exact computeName_ne_orchestratorName j (hb.symm.trans hb')
    · have hi := computeName_injective (ha.symm.trans ha')
      have hj := computeName_injective (hb.symm.trans hb')
      omega
    · exact computeName_ne_consumerName i s' (ha.symm.trans ha')
  · rcases h' with ⟨j', hb', -⟩ | ⟨i', j', -, hb', -⟩ | ⟨i', s', hb', -⟩
    · exact consumerName_ne_orchestratorName s (hb.symm.trans hb')
    · exact computeName_ne_consumerName i' s (hb'.symm.trans hb)
    · exact computeName_ne_consumerName i' s (hb'.symm.trans hb)

/-- The metric of a link. -/
def rowMetric (r : Row) : UInt16 := if r.name = orchestratorName then 50 else 1

/-- A capacity, a delay and a queue length. -/
structure Quantities (c d q : Str) : Prop where
  capacity : ∃ n < 2 ^ 16, c = Text.decimal n ++ "Mbps".toList
  delay : ∃ n < 2 ^ 16, d = Text.decimal n ++ "ms".toList
  maxPackets : ∃ n < 2 ^ 16, q = Text.decimal n

/-- A row of six columns, in one direction, with its metric. -/
structure Written (r : Row) : Prop where
  columns : ∃ a b c m d q : Str, r = [a, b, c, m, d, q]
  words : ∀ w ∈ r, Word w
  quantities : Quantities (r.getD 2 []) (r.getD 4 []) (r.getD 5 [])
  forward : Forward (r.getD 0 []) (r.getD 1 [])
  metric : Topology.lexicalCast (r.getD 3 []) = some (rowMetric r)

theorem word_append_decimal {s : Str} (hs : Word s) (n : ℕ) : Word (s ++ Text.decimal n) := by
  refine ⟨by simp [hs.1], fun c hc => ?_⟩
  rcases List.mem_append.mp hc with hc | hc
  · exact hs.2 c hc
  · exact Text.isSpace_of_isDigit (Text.isDigit_of_mem_decimal hc)

theorem word_computeName (i : ℕ) : Word (computeName i) :=
  word_append_decimal (Word.of_all (by decide) rfl) i

theorem word_consumerName (i : ℕ) : Word (consumerName i) :=
  word_append_decimal (Word.of_all (by decide) rfl) i

theorem word_orchestratorName : Word orchestratorName := Word.of_all (by decide) rfl

theorem word_columns (cs : List String) (hne : (cs.all fun c => !c.toList.isEmpty) = true)
    (hall : (cs.all fun c => c.toList.all fun a => !Text.isSpace a) = true) :
    ∀ c ∈ cs, Word c.toList := by
  intro c hc
  have hc' := List.all_eq_true.mp hne c hc
  refine Word.of_all (fun hnil => ?_) (List.all_eq_true.mp hall c hc)
  rw [hnil] at hc'
  cases hc'

theorem written_linkRow {a b : Str} {c m d q : String} (ha : Word a) (hb : Word b)
    (hwords : ∀ w ∈ [c, m, d, q], Word w.toList) (hquantities : Quantities c.toList d.toList q.toList)
    (hforward : Forward a b) (hmetric : Topology.lexicalCast m.toList =
      some (if a = orchestratorName then 50 else 1)) : Written (linkRow a b c m d q) where
  columns := ⟨_, _, _, _, _, _, rfl⟩
  words := by
    simp only [List.forall_mem_cons, List.not_mem_nil, false_imp_iff, implies_true, and_true]
      at hwords
    simp only [linkRow, List.forall_mem_cons, List.not_mem_nil, false_imp_iff, implies_true, and_true]
    exact ⟨ha, hb, hwords⟩
  quantities := hquantities
  forward := hforward
  metric := hmetric

/-- **A row of the links section** has six columns, in one direction. -/
theorem written_of_linksSection {rows : List Row} (h : linksSection p = .ok rows) (hr : r ∈ rows) :
    Written r := by
  obtain ⟨-, -, links, hlinks, rfl⟩ := linksSection_eq_ok_iff.mp h
  rcases List.mem_append.mp hr with hr | hr
  · rcases List.mem_append.mp hr with hr | hr
    · obtain ⟨n, hn, rfl⟩ := List.mem_map.mp hr
      obtain ⟨j, hj⟩ := exists_computeName_of_mem (List.mem_of_mem_tail hn)
      rw [hj]
      exact written_linkRow word_orchestratorName (word_computeName j) (word_columns _ rfl rfl)
        ⟨⟨10000, by decide, rfl⟩, ⟨5, by decide, rfl⟩, ⟨1000, by decide, rfl⟩⟩
        (Or.inl ⟨j, rfl, rfl⟩) (by rw [if_pos rfl]; decide)
    · obtain ⟨i, j, hlt, -, delay, hdelay, rfl⟩ := mem_computeLinks hlinks hr
      obtain ⟨hwords, htime⟩ : (∀ c ∈ ["10000Mbps", "1", delay, "1000"], Word c.toList) ∧
          ∃ n < 2 ^ 16, delay.toList = Text.decimal n ++ "ms".toList := by
        rw [List.mem_cons, List.mem_cons, List.mem_singleton] at hdelay
        rcases hdelay with rfl | rfl | rfl
        · exact ⟨word_columns _ rfl rfl, 200, by decide, rfl⟩
        · exact ⟨word_columns _ rfl rfl, 25, by decide, rfl⟩
        · exact ⟨word_columns _ rfl rfl, 5, by decide, rfl⟩
      exact written_linkRow (word_computeName i) (word_computeName j) hwords
        ⟨⟨10000, by decide, rfl⟩, htime, ⟨1000, by decide, rfl⟩⟩ (Or.inr (Or.inl ⟨i, j, hlt, rfl, rfl⟩))
        (by rw [if_neg (computeName_ne_orchestratorName i)]; decide)
  · obtain ⟨s, -, rfl⟩ := List.mem_map.mp hr
    exact written_linkRow (word_computeName _) (word_consumerName _) (word_columns _ rfl rfl)
      ⟨⟨250, by decide, rfl⟩, ⟨2, by decide, rfl⟩, ⟨10, by decide, rfl⟩⟩ (Or.inr (Or.inr ⟨_, _, rfl, rfl⟩))
      (by rw [if_neg (computeName_ne_orchestratorName _)]; decide)

/-! ## What is read -/

/-- A row is read as the link of its columns. -/
theorem Written.rowLink (h : Written r) : Topology.rowLink r.line =
    ⟨r.getD 0 [], r.getD 1 [], r.getD 2 [], r.getD 3 [], r.getD 4 [], r.getD 5 [], []⟩ := by
  have hcolumns := columns_intercalate h.words 7
  obtain ⟨a, b, c, m, d, q, rfl⟩ := h.columns
  rw [Topology.rowLink_eq]
  exact (congrArg Topology.ofColumns hcolumns).trans rfl

theorem Written.ends (h : Written r) :
    (Topology.rowLink r.line).ends = (r.getD 0 [], r.getD 1 []) := by rw [h.rowLink, Link.ends]

variable {rows : List Row}

theorem unreversed_written (h : ∀ r ∈ rows, Written r) :
    Topology.Unreversed (rows.map fun r => Topology.rowLink r.line) := by
  refine List.pairwise_map.mpr (List.pairwise_of_forall_mem_list fun r hr r' hr' heq => ?_)
  rw [(h r hr).ends, (h r' hr').ends] at heq
  have h₁ : r'.getD 1 [] = r.getD 0 [] := congrArg Prod.fst heq
  have h₂ : r'.getD 0 [] = r.getD 1 [] := congrArg Prod.snd heq
  have hforward := (h r' hr').forward
  rw [h₁, h₂] at hforward
  exact forward_asymm (h r hr).forward hforward

/-- **The nodes of all rows are found** where the last node that a link names is declared. -/
theorem found_iff [Ns3Names] (hnames : Ns3Names.Documented) {router : List Row}
    (hr : routerSection p = .ok router) (hl : linksSection p = .ok rows) {top : Topology}
    (htop : ∀ name, name ∈ top.names ↔ name ∈ declared router) :
    (∀ line ∈ rows.map Row.line, top.Found (Topology.rowLink line)) ↔ lastLinked p < nodeCount p := by
  rw [← endpointsDeclared_iff hr hl, List.forall_mem_map]
  refine forall₂_congr fun r hmem => ?_
  have hends := (written_of_linksSection hl hmem).ends
  have hsource : (Topology.rowLink r.line).source = r.getD 0 [] := congrArg Prod.fst hends
  have htarget : (Topology.rowLink r.line).target = r.getD 1 [] := congrArg Prod.snd hends
  rw [Topology.Found, hnames.finds_iff, hnames.finds_iff, htop, htop, hsource, htarget]

end DataGen

end IncSim
