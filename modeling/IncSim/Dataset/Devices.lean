import IncSim.Dataset.ReadBack

/-!
# The devices of a generated dataset

What `ReadTopology`, `ApplySettings` and `ApplyOspfMetric` make of the links section of a dataset.

* `rowInstalled`, `rowMetric`: what a row is installed as; `Written.accepted`: ns-3 takes its texts.
* **`installed_dataset`**: where all links join declared nodes, every row is read, in its order, as one
  link with its own settings and metric.
-/

namespace IncSim

open PartialRun Extract

namespace DataGen

variable {p : GenParams} {r : Row} {rows : List Row}

/-- What a row of the links section is installed as. -/
def rowInstalled (r : Row) : Topology.Installed where
  source := r.getD 0 []
  target := r.getD 1 []
  queueMaxSize := some (Topology.maxSize (r.getD 5 []))
  dataRate := some (r.getD 2 [])
  delay := some (r.getD 4 [])
  receiveErrorModel := none

section Settings

open IncSim.Topology IncSim.Topology.PointToPointHelper

variable {P : Type} [PointToPointHelper P]

/-- **ns-3 takes the texts of a row.** -/
theorem Written.accepted (h : Written r) (hunits : ReadsUnits P) :
    Accepted P (Topology.rowLink r.line) := by
  obtain ⟨⟨rate, hrate, hc⟩, ⟨time, htime, hd⟩, ⟨size, hsize, hq⟩⟩ := h.quantities
  rw [h.rowLink]
  constructor
  · intro text htext
    rw [← (mem_failSafe.mp htext).2, hq]
    exact hunits.isQueueSize size hsize
  · rw [hc]
    exact hunits.isDataRate rate hrate
  · intro text htext
    rw [← (mem_failSafe.mp htext).2, hd]
    exact hunits.isTime time htime
  · rfl

theorem Written.given (h : Written r) : r.getD 4 [] ≠ [] ∧ r.getD 5 [] ≠ [] := by
  have hwords := h.words
  obtain ⟨a, b, c, m, d, q, rfl⟩ := h.columns
  exact ⟨(hwords d (by simp)).1, (hwords q (by simp)).1⟩

/-- The settings of a row are those that it is installed with. -/
theorem Written.own (h : Written r) : Told.own P (Topology.rowLink r.line) = rowInstalled r := by
  obtain ⟨hdelay, hmax⟩ := h.given
  rw [h.rowLink, Told.own, Told.set, Told.install, rowInstalled]
  dsimp only [failSafe]
  rw [if_neg hdelay, if_neg hmax]
  rfl

/-- The settings that the rows are read with are their own. -/
theorem settings_written (hp : Documented P) (hunits : ReadsUnits P) (h : ∀ r ∈ rows, Written r) :
    applySettings P (rows.map fun r => Topology.rowLink r.line) = some (rows.map rowInstalled) := by
  have haccepted : ∀ l ∈ rows.map (fun r => Topology.rowLink r.line), Accepted P l :=
    List.forall_mem_map.mpr fun r hr => (h r hr).accepted hunits
  have hgiven : ∀ l ∈ rows.map (fun r => Topology.rowLink r.line), l.delay ≠ [] ∧ l.maxPackets ≠ [] := by
    refine List.forall_mem_map.mpr fun r hr => ?_
    rw [(h r hr).rowLink]
    exact (h r hr).given
  have hown := (installAll_eq_own_iff (P := P) (rows.map fun r => Topology.rowLink r.line)).mpr
    (List.pairwise_of_forall_mem_list fun _ _ l' hl' =>
      ⟨fun hnil => absurd hnil (hgiven l' hl').1, fun hnil => absurd hnil (hgiven l' hl').2⟩)
  rw [applySettings_eq hp, if_pos haccepted, hown, List.map_map]
  exact congrArg some (List.map_congr_left fun r hr => (h r hr).own)

end Settings

theorem metrics_written (h : ∀ r ∈ rows, Written r) :
    Topology.applyOspfMetric (rows.map fun r => Topology.rowLink r.line) =
      some (rows.map rowMetric) := by
  induction rows with
  | nil => rfl
  | cons r rows ih =>
    obtain ⟨hr, hrows⟩ := List.forall_mem_cons.mp h
    have hospf : Topology.lexicalCast (Topology.rowLink r.line).ospf = some (rowMetric r) := by
      rw [← hr.metric, hr.rowLink]
    have ih := ih hrows
    unfold Topology.applyOspfMetric at ih ⊢
    rw [List.map_cons, List.mapM_cons, hospf, ih]
    rfl

section Whole

variable [NdnCxx] [Ns3Names] {P : Type} [Topology.PointToPointHelper P] {R : Type} [Zero R]
  [DecidableEq R] [LE R] [DecidableLE R] {dist : ℕ → R} {ds : List ℕ} {us : List R} {d : Dataset}

/-- **The network of a generated dataset.** Where the last node that a link names is declared, its file is
read, and every row of the links section becomes one link, in the order of the rows, whose devices,
queues and channel have the settings of the row and whose faces have its metric; elsewhere an assertion
of the reader fails. -/
theorem installed_dataset (hnames : Ns3Names.Documented)
    (hp : Topology.PointToPointHelper.Documented P) (hunits : Topology.PointToPointHelper.ReadsUnits P)
    (h : generateData p dist ds us = .ok d) (junk : Junk) :
    if lastLinked p < nodeCount p then
      ∃ top, Topology.readTopology junk d.lines = some top ∧
        Topology.applySettings P top.links = some (d.links.map rowInstalled) ∧
        Topology.applyOspfMetric top.links = some (d.links.map rowMetric)
    else Topology.readTopology junk d.lines = none := by
  obtain ⟨_, _, _, _, _, _, _, -, -, -, -, hrouter, hlinks, -⟩ := generateData_ok h
  have hwritten : ∀ r ∈ d.links, Written r := fun r hr => written_of_linksSection hlinks hr
  obtain ⟨top, -, htop, hread⟩ := readTopology_lines hnames junk hrouter hlinks
  split_ifs with hlast
  · rw [if_pos hlast] at hread
    refine ⟨_, hread, ?_, ?_⟩
    · rw [Topology.links_readFunctions, htop]
      exact settings_written hp hunits hwritten
    · rw [Topology.links_readFunctions, htop]
      exact metrics_written hwritten
  · rwa [if_neg hlast] at hread

end Whole

/-- One function, two consumers: the links of eight compute nodes. -/
theorem installed_dataset_generateOne : ∃ d, generateOne 0 = .ok d ∧
    ∃ top, @Topology.readTopology plainUri listNames ⟨fun _ => default, fun _ _ => 0⟩ d.lines =
        some top ∧
      @Topology.applySettings _ Topology.plainHelper top.links = some (d.links.map rowInstalled) ∧
      Topology.applyOspfMetric top.links = some (d.links.map rowMetric) := by
  have hrun : generateOne 0 = .ok _ := rfl
  have hinstalled := @installed_dataset _ plainUri listNames _ Topology.plainHelper _ _ _ _ _ _ _ _ _
    listNames_documented Topology.plainHelper_documented Topology.plainHelper_readsUnits hrun
    ⟨fun _ => default, fun _ _ => 0⟩
  rw [if_pos (by decide)] at hinstalled
  exact ⟨_, hrun, hinstalled⟩

end DataGen

end IncSim
