import IncSim.Lib.Oriented
import IncSim.Topology.Reader

/-!
# The links of a topology

`ReadTopology` notes every link that it makes in `processedLinks` under its first node, and looks for
a duplicate in the other direction only.

* `routerLines`, `linkLines`: the rows of the first sections; `ends`: the nodes that a row names.
* **`sections_of_readTopology`**: how a file is read.
* `Processed`: the links are those that are noted; `foldlM_readLink`, **`links_readTopology`**: the links
  that are read.
* **`links_once_iff`**: there is one link for each pair of nodes that is named exactly when no row
  repeats the first row of its pair.
-/

namespace IncSim

open Extract Oriented

/-- The nodes that a link joins. -/
def Link.ends (l : Link) : Str × Str := (l.source, l.target)

namespace Topology

/-- The nodes that a row of the links section names. -/
def ends (line : Str) : Str × Str :=
  let (source, s) := word (some line)
  let (target, _) := word s
  (source, target)

/-- The rows of the router section. -/
def routerLines (lines : List Str) : List Str :=
  (Sections.read ["links".toList] (Sections.skipTo "router".toList lines)).rows

/-- The rows of the links section. -/
def linkLines (lines : List Str) : List Str :=
  let router := Sections.read ["links".toList] (Sections.skipTo "router".toList lines)
  (Sections.read linksEnd router.rest).rows

/-- A link with the given columns. -/
def ofColumns (c : List Str) : Link :=
  ⟨c.getD 0 [], c.getD 1 [], c.getD 2 [], c.getD 3 [], c.getD 4 [], c.getD 5 [], c.getD 6 []⟩

theorem rowLink_eq (line : Str) : rowLink line = ofColumns (columns 7 (some line)) := by
  simp only [rowLink, ofColumns, columns, List.getD_cons_zero, List.getD_cons_succ]

/-- The links are those that are noted. -/
def Processed (top : Topology) : Prop := top.links.map Link.ends = top.processedLinks

variable [Ns3Names] {top t : Topology} {junk : Junk} {lines : List Str}

/-! ## The sections -/

/-- **How a file is read**: the nodes, the links, and at most the sections behind them. -/
theorem sections_of_readTopology [NdnCxx] (h : readTopology junk lines = some t) :
    ∃ nodes links, (routerLines lines).foldlM (readNode junk.node) empty = some nodes ∧
      (linkLines lines).foldlM readLink nodes = some links ∧
      (t = links ∨ ∃ title rest, t = links.readFunctions junk.function title rest) := by
  unfold readTopology at h
  dsimp only at h
  split_ifs at h with hempty hrest hend
  · obtain ⟨nodes, hnodes, h⟩ := Option.bind_eq_some_iff.mp h
    cases h
    have hnone : linkLines lines = [] := by
      unfold linkLines
      dsimp only
      rw [hrest]
      rfl
    exact ⟨t, t, hnodes, by rw [hnone]; rfl, Or.inl rfl⟩
  · obtain ⟨nodes, hnodes, h⟩ := Option.bind_eq_some_iff.mp h
    obtain ⟨links, hlinks, h⟩ := Option.bind_eq_some_iff.mp h
    cases h
    exact ⟨nodes, t, hnodes, hlinks, Or.inl rfl⟩
  · obtain ⟨nodes, hnodes, h⟩ := Option.bind_eq_some_iff.mp h
    obtain ⟨links, hlinks, h⟩ := Option.bind_eq_some_iff.mp h
    cases h
    exact ⟨nodes, links, hnodes, hlinks, Or.inr ⟨_, _, rfl⟩⟩

omit [Ns3Names] in
theorem ends_rowLink (line : Str) : (rowLink line).ends = ends line := rfl

/-- **A row** of the links section makes a link of what it notes. -/
theorem Processed.readLink (h : Processed top) {line : Str} (hl : readLink top line = some t) :
    Processed t ∧ t.processedLinks = keep top.processedLinks (ends line) := by
  unfold Topology.readLink at hl
  rw [← ends_rowLink, keep]
  by_cases hold : ((rowLink line).target, (rowLink line).source) ∈ top.processedLinks
  · rw [if_pos hold] at hl
    cases hl
    exact ⟨h, (if_pos hold).symm⟩
  · rw [if_neg hold] at hl
    split_ifs at hl
    cases hl
    refine ⟨?_, (if_neg hold).symm⟩
    rw [Processed, List.map_append, h]
    rfl

theorem foldlM_readLink_ends (h : Processed top) {lines : List Str}
    (hl : lines.foldlM readLink top = some t) :
    Processed t ∧ t.processedLinks = (lines.map ends).foldl keep top.processedLinks := by
  induction lines generalizing top with
  | nil =>
    cases hl
    exact ⟨h, rfl⟩
  | cons line lines ih =>
    rw [List.foldlM_cons] at hl
    obtain ⟨top', hline, hl⟩ := Option.bind_eq_some_iff.mp hl
    obtain ⟨hprocessed, hkeep⟩ := h.readLink hline
    rw [List.map_cons, List.foldl_cons, ← hkeep]
    exact ih hprocessed hl

theorem links_foldlM_readNode {unset : ℕ → ComputeNode.Unset} {lines : List Str}
    (h : lines.foldlM (readNode unset) top = some t) :
    t.links = top.links ∧ t.processedLinks = top.processedLinks := by
  refine Sections.foldlM_invariant (P := fun t => t.links = top.links ∧
    t.processedLinks = top.processedLinks) (fun a line b ha hline => ?_) ⟨rfl, rfl⟩ h
  unfold readNode at hline
  dsimp only at hline
  split_ifs at hline <;> cases hline <;> exact ha

/-- The nodes of the link are found. -/
def Found (top : Topology) (link : Link) : Prop :=
  Ns3Names.finds top.names link.source = true ∧ Ns3Names.finds top.names link.target = true

instance (top : Topology) (link : Link) : Decidable (top.Found link) :=
  inferInstanceAs (Decidable (_ ∧ _))

omit [Ns3Names] in
/-- No link is the reverse of an earlier one. -/
def Unreversed (links : List Link) : Prop := links.Pairwise fun l l' => l'.ends.swap ≠ l.ends

/-- **Rows without reverses** become links, all of them, exactly when their nodes are found. -/
theorem foldlM_readLink (h : Processed top) {lines : List Str}
    (hun : Unreversed (top.links ++ lines.map rowLink)) : lines.foldlM readLink top =
      if ∀ line ∈ lines, top.Found (rowLink line) then
        some { top with
          processedLinks := top.processedLinks ++ lines.map (fun l => (rowLink l).ends)
          links := top.links ++ lines.map rowLink }
      else none := by
  induction lines generalizing top with
  | nil => simp
  | cons line lines ih =>
    rw [List.map_cons, List.append_cons] at hun
    have hnew : ((rowLink line).target, (rowLink line).source) ∉ top.processedLinks := by
      rw [← h]
      intro hmem
      obtain ⟨l, hl, heq⟩ := List.mem_map.mp hmem
      have hpair := (List.pairwise_append.mp (List.pairwise_append.mp hun).1).2.2
      exact hpair l hl (rowLink line) List.mem_cons_self heq.symm
    rw [List.foldlM_cons, Topology.readLink, if_neg hnew]
    by_cases hfound : top.Found (rowLink line)
    · rw [if_pos (Bool.and_eq_true_iff.mpr hfound)]
      have hprocessed : Processed { top with
          processedLinks := top.processedLinks ++ [((rowLink line).source, (rowLink line).target)]
          links := top.links ++ [rowLink line] } := by
        rw [Processed, List.map_append, h]
        rfl
      have hiff : (∀ l ∈ lines, top.Found (rowLink l)) ↔
          ∀ l ∈ line :: lines, top.Found (rowLink l) := by
        rw [List.forall_mem_cons, and_iff_right hfound]
      refine (ih hprocessed hun).trans (if_congr hiff ?_ rfl)
      simp only [List.map_cons, List.append_assoc, List.singleton_append, Link.ends]
    · rw [if_neg fun hand => hfound (Bool.and_eq_true_iff.mp hand),
        if_neg fun hall => hfound (hall line List.mem_cons_self)]
      rfl

variable [NdnCxx]

omit [Ns3Names] in
/-- The sections behind the links leave them alone. -/
theorem links_readFunctions (junk : ℕ → ℕ → UInt32) (top : Topology) (title : Option Str)
    (lines : List Str) : (top.readFunctions junk title lines).links = top.links := by
  unfold readFunctions readStatus
  dsimp only
  split_ifs <;> rfl

/-- **The links that are read** join the pairs that the rows keep. -/
theorem links_readTopology (h : readTopology junk lines = some t) :
    t.links.map Link.ends = kept ((linkLines lines).map ends) := by
  obtain ⟨nodes, links, hnodes, hlinks, ht⟩ := sections_of_readTopology h
  obtain ⟨hnil, hnone⟩ := links_foldlM_readNode hnodes
  have hstart : Processed nodes := by
    rw [Processed, hnil, hnone]
    rfl
  obtain ⟨hprocessed, hkept⟩ := foldlM_readLink_ends hstart hlinks
  rw [hnone] at hkept
  rcases ht with rfl | ⟨title, rest, rfl⟩
  · exact hprocessed.trans hkept
  · rw [links_readFunctions]
    exact hprocessed.trans hkept

/-! ## One link for a pair of nodes -/

theorem countP_links (h : readTopology junk lines = some t) (z : Sym2 Str) :
    t.links.countP (joined ·.ends = z) =
      (kept ((linkLines lines).map ends)).countP (joined · = z) := by
  rw [← links_readTopology h, List.countP_map]
  rfl

/-- **There is one link for each pair of nodes that is named** exactly when no row repeats the first
row of its pair in the same direction, self loops apart. -/
theorem links_once_iff (h : readTopology junk lines = some t) :
    (∀ z : Sym2 Str, t.links.countP (joined ·.ends = z) ≤ 1 ∧
      ((∃ line ∈ linkLines lines, joined (ends line) = z) →
        1 ≤ t.links.countP (joined ·.ends = z))) ↔
      FirstOnce ((linkLines lines).map ends) := by
  rw [← kept_once_iff]
  simp only [countP_links h]
  refine ⟨fun hall z => (hall z).1, fun hall z => ⟨hall z, ?_⟩⟩
  rintro ⟨line, hline, rfl⟩
  exact countP_kept_pos (List.mem_map_of_mem hline)

omit [Ns3Names] [NdnCxx]

/-- A file with two nodes that ends with its links section. -/
def linksFile (links : List String) : List Str :=
  (["router", "consumer_0\t20\t0\tNaN\tNaN\tNaN\tNaN\tNaN\tNaN",
    "consumer_1\t20\t1\tNaN\tNaN\tNaN\tNaN\tNaN\tNaN", "", "links"] ++ links).map String.toList

/-- A link that is named in both directions. -/
theorem links_once_reverse :
    let lines := linksFile ["consumer_0\tconsumer_1\t250Mbps\t1\t2ms\t10",
      "consumer_1\tconsumer_0\t250Mbps\t1\t2ms\t10"]
    ∃ t, @readTopology plainUri listNames ⟨fun _ => default, fun _ _ => 0⟩ lines = some t ∧
      ∀ z : Sym2 Str, t.links.countP (joined ·.ends = z) ≤ 1 ∧
        ((∃ line ∈ linkLines lines, joined (ends line) = z) →
          1 ≤ t.links.countP (joined ·.ends = z)) := by
  obtain ⟨t, ht⟩ : ∃ t, @readTopology plainUri listNames ⟨fun _ => default, fun _ _ => 0⟩
      (linksFile ["consumer_0\tconsumer_1\t250Mbps\t1\t2ms\t10",
        "consumer_1\tconsumer_0\t250Mbps\t1\t2ms\t10"]) = some t :=
    Option.isSome_iff_exists.mp (by decide +kernel)
  exact ⟨t, ht, (@links_once_iff listNames _ _ _ plainUri ht).mpr (by decide)⟩

/-- A link that is named twice in one direction is made twice. -/
theorem links_twice :
    ∃ t, @readTopology plainUri listNames ⟨fun _ => default, fun _ _ => 0⟩
        (linksFile ["consumer_0\tconsumer_1\t250Mbps\t1\t2ms\t10",
          "consumer_0\tconsumer_1\t250Mbps\t1\t2ms\t10"]) = some t ∧
      ¬ ∀ z : Sym2 Str, t.links.countP (joined ·.ends = z) ≤ 1 := by
  obtain ⟨t, ht⟩ : ∃ t, @readTopology plainUri listNames ⟨fun _ => default, fun _ _ => 0⟩
      (linksFile ["consumer_0\tconsumer_1\t250Mbps\t1\t2ms\t10",
        "consumer_0\tconsumer_1\t250Mbps\t1\t2ms\t10"]) = some t :=
    Option.isSome_iff_exists.mp (by decide +kernel)
  refine ⟨t, ht, fun h => ?_⟩
  have htwo := h s("consumer_0".toList, "consumer_1".toList)
  rw [@countP_links listNames _ _ _ plainUri ht] at htwo
  exact absurd htwo (by decide)

end Topology

end IncSim
