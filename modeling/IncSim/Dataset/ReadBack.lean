import IncSim.Dataset.LinkRows
import IncSim.Dataset.Served
import IncSim.Node.Frame

/-!
# Reading a generated file back

What the topology reader makes of the lines of a dataset.

* `Row.Regular`: rows that are neither skipped nor taken for a title; all generated rows are.
* `foldlM_readNode`, `foldl_readInputs`: what a section of rows changes.
* **`readTopology_lines`**: the file is read exactly when every link joins nodes that are declared.
* `ReadBack`, `exists_readBack`: the nodes that are declared, and at every compute node but the first
  the functions of the dataset.
-/

namespace IncSim

open PartialRun Extract

/-! ## Rows and sections -/

/-- Two columns at least, the first of them a word that starts no comment. -/
def Row.Regular (r : Row) : Prop := ∃ x y l, r = x :: y :: l ∧ Word x ∧ x.head? ≠ some '#'

variable {r : Row} {rows : List Row}

theorem Row.line_cons (x y : Str) (l : List Str) :
    Row.line (x :: y :: l) = x ++ '\t' :: Row.line (y :: l) := by
  simp [Row.line, List.intercalate]

theorem Row.Regular.not_skipped (h : r.Regular) : ¬ Sections.Skipped r.line := by
  obtain ⟨x, y, l, rfl, hx, hhash⟩ := h
  obtain ⟨c, x, rfl⟩ := List.exists_cons_of_ne_nil hx.1
  rw [Row.line_cons]
  rintro (h | h)
  · cases h
  · exact hhash h

theorem Row.Regular.tab_mem (h : r.Regular) : '\t' ∈ r.line := by
  obtain ⟨x, y, l, rfl, -, -⟩ := h
  rw [Row.line_cons]
  simp

/-- A regular row begins with its name. -/
theorem Row.Regular.word_line (h : r.Regular) : ∃ s, word (some r.line) = (r.name, some s) := by
  obtain ⟨x, y, l, rfl, hx, -⟩ := h
  rw [Row.line_cons, word_append hx (by decide)]
  exact ⟨_, rfl⟩

/-- A section of regular rows reads back as these rows. -/
theorem read_rows {titles ls : List Str} {t : Str} (h : ∀ r ∈ rows, r.Regular)
    (htitles : ∀ t ∈ titles, '\t' ∉ t) (hs : ¬ Sections.Skipped t) (ht : t ∈ titles) :
    Sections.read titles (rows.map Row.line ++ [] :: t :: ls) = ⟨rows.map Row.line, some t, ls⟩ := by
  refine Sections.read_section (fun l hl => ?_) hs ht
  obtain ⟨r, hr, rfl⟩ := List.mem_map.mp hl
  exact ⟨(h r hr).not_skipped, fun hmem => htitles _ hmem (h r hr).tab_mem⟩

/-! ## Sections of rows -/

namespace Topology

variable {top : Topology} {functions : List FunctionEntry}

/-- The reader takes the name for one of a compute node. -/
def isCompute (name : Str) : Bool :=
  Str.contains name "orchestrator".toList || Str.contains name "compute".toList

/-- The reader takes the name for one of a consumer. -/
def isConsumer (name : Str) : Bool := !isCompute name && Str.contains name "consumer".toList

section Nodes

variable [Ns3Names] (unset : ℕ → ComputeNode.Unset)

theorem readNode_line (top : Topology) (h : r.Regular)
    (hadds : Ns3Names.adds top.names r.name = true) :
    ∃ node : ComputeNode, node.name = r.name ∧ node.funcMap = [] ∧
    readNode unset top r.line =
      if isCompute r.name then some { top with computeNodes := top.computeNodes ++ [node] }
      else if Str.contains r.name "consumer".toList then
        some { top with consumerNodes := top.consumerNodes ++ [r.name] }
      else some top := by
  obtain ⟨s, hs⟩ := h.word_line
  have hne : r.name ≠ [] := by
    obtain ⟨x, y, l, rfl, hx, -⟩ := h
    exact hx.1
  unfold readNode
  rw [hs]
  dsimp only
  rw [if_neg hne, if_pos hadds, if_pos hadds]
  exact ⟨_, rfl, rfl, rfl⟩

/-- The nodes that are fresh, with the names that compute nodes and consumers are to have. -/
structure Nodes (computeNames consumerNames : List Str) (top : Topology) : Prop where
  computeNodes : top.computeNodes.map ComputeNode.name = computeNames
  consumerNodes : top.consumerNodes = consumerNames
  funcMap : ∀ n ∈ top.computeNodes, n.funcMap = []
  functionList : top.functionList = []

omit [Ns3Names] in
theorem Nodes.names_eq {names names' : List Str} (h : Nodes names names' top) :
    top.names = names ++ names' := by
  rw [Topology.names, h.computeNodes, h.consumerNodes]

/-- **The router section**, when no name is given twice. -/
theorem foldlM_readNode (hnames : Ns3Names.Documented) {names names' : List Str}
    (h : ∀ r ∈ rows, r.Regular) (hnodup : (rows.map Row.name).Nodup)
    (hnew : ∀ r ∈ rows, r.name ∉ names ++ names') (htop : Nodes names names' top) :
    ∃ t, (rows.map Row.line).foldlM (readNode unset) top = some t ∧
      Nodes (names ++ (rows.map Row.name).filter isCompute)
        (names' ++ (rows.map Row.name).filter isConsumer) t := by
  induction rows generalizing top names names' with
  | nil => exact ⟨top, rfl, by simpa using htop⟩
  | cons r rows ih =>
    obtain ⟨hr, hrows⟩ := List.forall_mem_cons.mp h
    obtain ⟨hnew, hnews⟩ := List.forall_mem_cons.mp hnew
    obtain ⟨hne, hnodup⟩ := List.nodup_cons.mp hnodup
    have hne : ∀ r' ∈ rows, r'.name ≠ r.name := fun r' hr' heq => hne (heq ▸ List.mem_map_of_mem hr')
    obtain ⟨node, hname, hmap, hread⟩ := readNode_line unset top hr
      ((hnames.adds_iff _ _).mpr (by rw [htop.names_eq]; exact hnew))
    rw [List.map_cons, List.map_cons, List.foldlM_cons, hread]
    by_cases hcompute : isCompute r.name = true
    · have hconsumer : isConsumer r.name = false := by simp [isConsumer, hcompute]
      rw [if_pos hcompute, List.filter_cons_of_pos hcompute,
        List.filter_cons_of_neg (by simp [hconsumer]), List.append_cons names]
      refine ih hrows hnodup (fun r' hr' hmem => ?_) ⟨?_, htop.consumerNodes, ?_, htop.functionList⟩
      · have hmem : r'.name ∈ names ++ names' ∨ r'.name = r.name := by
          simp only [List.mem_append, List.mem_singleton] at hmem ⊢
          tauto
        exact hmem.elim (hnews r' hr') (hne r' hr')
      · rw [List.map_append, htop.computeNodes, List.map_singleton, hname]
      · intro n hn
        rcases List.mem_append.mp hn with hn | hn
        · exact htop.funcMap n hn
        · rw [List.mem_singleton.mp hn]
          exact hmap
    · rw [if_neg hcompute, List.filter_cons_of_neg hcompute]
      by_cases hconsumer : Str.contains r.name "consumer".toList = true
      · have hconsumer' : isConsumer r.name = true := by
          rw [isConsumer, hconsumer]
          simp [hcompute]
        rw [if_pos hconsumer, List.filter_cons_of_pos hconsumer', List.append_cons names']
        refine ih hrows hnodup (fun r' hr' hmem => ?_) ⟨htop.computeNodes, ?_, htop.funcMap,
          htop.functionList⟩
        · rw [← List.append_assoc] at hmem
          rcases List.mem_append.mp hmem with hmem | hmem
          · exact hnews r' hr' hmem
          · exact hne r' hr' (List.mem_singleton.mp hmem)
        · rw [← htop.consumerNodes]
      · have hconsumer' : ¬ isConsumer r.name = true := by
          rw [isConsumer, Bool.eq_false_of_not_eq_true hconsumer]
          simp
        rw [if_neg hconsumer, List.filter_cons_of_neg hconsumer']
        exact ih hrows hnodup hnews htop

end Nodes

/-! ## Functions -/

section Functions

variable [NdnCxx]

/-- The name of a function and the number of its parameters. -/
def arity (f : FunctionEntry) : Name × UInt32 :=
  (f.computation.computationName, f.computation.paramNumber)

theorem readFunction_line (junk : ℕ → UInt32) {x y : Str} {l : List Str} (hx : Word x) (hy : Word y)
    (hl : l ≠ []) : arity (readFunction junk (Row.line (x :: y :: l))) =
      (NdnCxx.ofUri x, UInt32.ofNat (numInputs y)) := by
  obtain ⟨z, l, rfl⟩ := List.exists_cons_of_ne_nil hl
  unfold readFunction
  rw [Row.line_cons, word_append hx (by decide)]
  dsimp only
  rw [word_space (by decide), Row.line_cons, word_append hy (by decide)]
  rfl

omit [NdnCxx] in
/-- `AddToInputList` leaves the name and the number of parameters alone. -/
theorem foldl_addToInputList (f : IncComputation) (values : List Str) :
    ∃ inputs, values.foldl addToInputList f = { f with inputList := inputs } := by
  induction values generalizing f with
  | nil => exact ⟨f.inputList, rfl⟩
  | cons v values ih =>
    have hone : ∃ inputs, addToInputList f v = { f with inputList := inputs } := by
      unfold addToInputList
      split_ifs
      · exact ⟨v, rfl⟩
      · exact ⟨f.inputList, rfl⟩
      · exact ⟨_, rfl⟩
    obtain ⟨inputs, hone⟩ := hone
    obtain ⟨inputs', hrest⟩ := ih (addToInputList f v)
    refine ⟨inputs', ?_⟩
    rw [List.foldl_cons, hrest, hone]

/-- **The consumer section** changes input lists. -/
theorem foldl_readInputs (ls : List Str) (functions : List FunctionEntry) :
    (ls.foldl readInputs functions).map arity = functions.map arity := by
  induction ls generalizing functions with
  | nil => rfl
  | cons l ls ih =>
    rw [List.foldl_cons, ih]
    unfold readInputs
    dsimp only
    split_ifs
    · rfl
    · rw [List.map_map]
      refine List.map_congr_left fun f _ => ?_
      rw [Function.comp_apply]
      split_ifs
      · obtain ⟨inputs, h⟩ := foldl_addToInputList f.computation
          ((word (word (word (some l)).2).2).1.splitOn ',')
        rw [arity, arity, h]
      · rfl

omit [NdnCxx] in
/-- The functions leave the names of the nodes alone. -/
theorem map_name_addFunctions (top : Topology) :
    top.addFunctions.computeNodes.map ComputeNode.name = top.computeNodes.map ComputeNode.name := by
  have hfill : ∀ functions : List (Str × IncComputation),
      (top.computeNodes.drop 1).map (ComputeNode.name ∘ (·.fill functions)) =
        (top.computeNodes.drop 1).map ComputeNode.name :=
    fun functions => List.map_congr_left fun n _ => ComputeNode.name_fill functions
  rw [addFunctions, List.map_append, List.map_map, hfill, ← List.map_append, List.take_append_drop]

end Functions

end Topology

/-! ## Generated rows -/

namespace DataGen

variable {p : GenParams}

theorem regular_computeName (i : ℕ) (y : Str) (l : List Str) :
    Row.Regular (computeName i :: y :: l) :=
  ⟨_, _, _, rfl, word_append_decimal (Word.of_all (by decide) rfl) i, nofun⟩

theorem regular_consumerName (i : ℕ) (y : Str) (l : List Str) :
    Row.Regular (consumerName i :: y :: l) :=
  ⟨_, _, _, rfl, word_append_decimal (Word.of_all (by decide) rfl) i, nofun⟩

theorem regular_orchestratorName (y : Str) (l : List Str) :
    Row.Regular (orchestratorName :: y :: l) :=
  ⟨_, _, _, rfl, Word.of_all (by decide) rfl, nofun⟩

theorem regular_routerSection (h : routerSection p = .ok rows) : ∀ r ∈ rows, r.Regular := by
  obtain ⟨-, rfl⟩ := routerSection_eq_ok_iff.mp h
  intro r hr
  rcases List.mem_append.mp hr with hr | hr
  · rcases List.mem_cons.mp hr with rfl | hr
    · exact regular_orchestratorName _ _
    · obtain ⟨n, hn, rfl⟩ := List.mem_map.mp hr
      obtain ⟨i, hi⟩ := exists_computeName_of_mem hn
      rw [NodeProperties.row, hi]
      exact regular_computeName _ _ _
  · obtain ⟨i, -, rfl⟩ := List.mem_map.mp hr
    exact regular_consumerName _ _ _

theorem Written.regular (h : Written r) : r.Regular := by
  have hforward := h.forward
  obtain ⟨a, b, c, m, d, q, rfl⟩ := h.columns
  rcases hforward with ⟨j, ha, -⟩ | ⟨i, j, -, ha, -⟩ | ⟨i, s, ha, -⟩
  · obtain rfl : a = orchestratorName := ha
    exact regular_orchestratorName _ _
  · obtain rfl : a = computeName i := ha
    exact regular_computeName _ _ _
  · obtain rfl : a = computeName i := ha
    exact regular_computeName _ _ _

theorem regular_linksSection (h : linksSection p = .ok rows) : ∀ r ∈ rows, r.Regular :=
  fun _ hr => (written_of_linksSection h hr).regular

/-! ## Names of nodes -/

theorem isCompute_computeName (i : ℕ) : Topology.isCompute (computeName i) = true := by
  have h : "compute".toList <:+: computeName i :=
    (List.prefix_append _ ("_node_".toList ++ Text.decimal i)).isInfix
  rw [Topology.isCompute, Str.contains_iff.mpr h, Bool.or_true]

theorem isCompute_consumerName (i : ℕ) : Topology.isCompute (consumerName i) = false := by
  have hnot : ∀ c, c ∉ "consumer_".toList → c.isDigit = false → c ∉ consumerName i := by
    intro c hc hdigit hmem
    rcases List.mem_append.mp hmem with hmem | hmem
    · exact hc hmem
    · exact Text.not_mem_decimal hdigit i hmem
  rw [Topology.isCompute, Bool.or_eq_false_iff]
  constructor
  · refine Bool.eq_false_iff.mpr fun h => hnot 'h' (by decide) (by decide) ?_
    exact (Str.contains_iff.mp h).subset (by decide)
  · refine Bool.eq_false_iff.mpr fun h => hnot 'p' (by decide) (by decide) ?_
    exact (Str.contains_iff.mp h).subset (by decide)

theorem isConsumer_consumerName (i : ℕ) : Topology.isConsumer (consumerName i) = true := by
  have h : "consumer".toList <:+: consumerName i :=
    (List.prefix_append _ ('_' :: Text.decimal i)).isInfix
  rw [Topology.isConsumer, isCompute_consumerName, Str.contains_iff.mpr h]
  rfl

/-- The names of the compute nodes that a file declares. -/
def computeNames (p : GenParams) : List Str :=
  orchestratorName :: (List.range (nodeCount p)).map computeName

/-- The names of the consumers that a file declares. -/
def consumerNames (p : GenParams) : List Str := (List.range p.numConsumerNodes).map consumerName

theorem filter_isCompute_declared (h : routerSection p = .ok rows) :
    (declared rows).filter Topology.isCompute = computeNames p := by
  rw [declared_eq h, List.filter_append, List.filter_cons_of_pos (by decide)]
  have hcompute : ∀ name ∈ (List.range (nodeCount p)).map computeName,
      Topology.isCompute name = true :=
    List.forall_mem_map.mpr fun i _ => isCompute_computeName i
  have hconsumer : ∀ name ∈ (List.range p.numConsumerNodes).map consumerName,
      ¬ Topology.isCompute name = true :=
    List.forall_mem_map.mpr fun i _ => by rw [isCompute_consumerName]; exact Bool.false_ne_true
  rw [List.filter_eq_self.mpr hcompute, List.filter_eq_nil_iff.mpr hconsumer, List.append_nil,
    computeNames]

theorem filter_isConsumer_declared (h : routerSection p = .ok rows) :
    (declared rows).filter Topology.isConsumer = consumerNames p := by
  rw [declared_eq h, List.filter_append, List.filter_cons_of_neg (by decide)]
  have hcompute : ∀ name ∈ (List.range (nodeCount p)).map computeName,
      ¬ Topology.isConsumer name = true :=
    List.forall_mem_map.mpr fun i _ => by
      rw [Topology.isConsumer, isCompute_computeName]
      exact Bool.false_ne_true
  have hconsumer : ∀ name ∈ (List.range p.numConsumerNodes).map consumerName,
      Topology.isConsumer name = true :=
    List.forall_mem_map.mpr fun i _ => isConsumer_consumerName i
  rw [List.filter_eq_nil_iff.mpr hcompute, List.filter_eq_self.mpr hconsumer, List.nil_append,
    consumerNames]

/-- No name is declared twice. -/
theorem nodup_declared (h : routerSection p = .ok rows) : (declared rows).Nodup := by
  rw [declared_eq h, List.cons_append, List.nodup_cons, List.nodup_append]
  refine ⟨?_, List.nodup_range.map computeName_injective, List.nodup_range.map consumerName_injective,
    ?_⟩
  · intro hmem
    rcases List.mem_append.mp hmem with hmem | hmem
    · obtain ⟨i, -, hi⟩ := List.mem_map.mp hmem
      exact computeName_ne_orchestratorName i hi
    · obtain ⟨i, -, hi⟩ := List.mem_map.mp hmem
      exact consumerName_ne_orchestratorName i hi
  · rintro name hname name' hname' rfl
    obtain ⟨i, -, hi⟩ := List.mem_map.mp hname
    obtain ⟨j, -, hj⟩ := List.mem_map.mp hname'
    exact computeName_ne_consumerName i j (hi.trans hj.symm)

/-! ## The whole file -/

/-- The lines behind the title of the functions section. -/
def Dataset.functionLines (d : Dataset) : List Str :=
  d.functions.map Row.line ++
    [] :: "initial function status".toList :: (d.initialStatus.map Row.line ++
      [] :: "consumer section".toList :: ((d.requests.map Request.row).map Row.line ++
        [] :: "initial data section".toList :: (d.data.map Row.line ++ [[]])))

theorem Dataset.lines_eq (d : Dataset) : d.lines =
    "router".toList :: (d.router.map Row.line ++
      [] :: "links".toList :: (d.links.map Row.line ++ [] :: "functions".toList :: d.functionLines)) := by
  simp only [Dataset.lines, Dataset.functionLines, sectionLines, List.append_assoc, List.cons_append]

/-- **A generated file** is read beyond its links exactly when the last node that a link names is
declared. -/
theorem readTopology_lines [NdnCxx] [Ns3Names] (hnames : Ns3Names.Documented) (junk : Junk)
    {d : Dataset} (hrouter : routerSection p = .ok d.router) (hlinks : linksSection p = .ok d.links) :
    ∃ top : Topology, Topology.Nodes (computeNames p) (consumerNames p) top ∧
      top.links = d.links.map (fun r => Topology.rowLink r.line) ∧
      Topology.readTopology junk d.lines = if lastLinked p < nodeCount p then
        some (top.readFunctions junk.function (some "functions".toList) d.functionLines)
      else none := by
  have hempty : Topology.Nodes [] [] Topology.empty := ⟨rfl, rfl, List.forall_mem_nil _, rfl⟩
  obtain ⟨top, hread, hnodes⟩ := Topology.foldlM_readNode junk.node hnames
    (regular_routerSection hrouter) (nodup_declared hrouter) (fun _ _ => List.not_mem_nil) hempty
  obtain ⟨hnil, hnone⟩ := Topology.links_foldlM_readNode hread
  have hprocessed : Topology.Processed top := by
    rw [Topology.Processed, hnil, hnone]
    rfl
  have hmap : (d.links.map Row.line).map Topology.rowLink =
      d.links.map fun r => Topology.rowLink r.line := List.map_map
  have hun : Topology.Unreversed (top.links ++ (d.links.map Row.line).map Topology.rowLink) := by
    rw [hnil, hmap]
    exact unreversed_written fun r hr => written_of_linksSection hlinks hr
  rw [List.nil_append, List.nil_append] at hnodes
  have hnodes : Topology.Nodes (computeNames p) (consumerNames p) top := by
    rw [← filter_isCompute_declared hrouter, ← filter_isConsumer_declared hrouter]
    exact hnodes
  have hdeclared : ∀ name, name ∈ top.names ↔ name ∈ declared d.router := by
    intro name
    rw [hnodes.names_eq, declared_eq hrouter, computeNames, consumerNames]
  -- the links are read after the nodes
  have hlinked := Topology.foldlM_readLink hprocessed hun
  simp only [found_iff hnames hrouter hlinks hdeclared] at hlinked
  have hrest : d.functionLines ≠ [] := by simp [Dataset.functionLines]
  refine ⟨{ top with
      processedLinks := top.processedLinks ++
        ((d.links.map Row.line).map fun l => (Topology.rowLink l).ends)
      links := top.links ++ (d.links.map Row.line).map Topology.rowLink },
    ⟨hnodes.computeNodes, hnodes.consumerNodes, hnodes.funcMap, hnodes.functionList⟩,
    by rw [hnil, hmap]; rfl, ?_⟩
  unfold Topology.readTopology
  rw [Dataset.lines_eq, Sections.skipTo_self]
  dsimp only
  rw [if_neg (by simp), read_rows (regular_routerSection hrouter) (by decide) (by decide) (by decide)]
  dsimp only
  rw [hread, Option.bind_eq_bind, Option.bind_some, if_neg (by simp),
    read_rows (regular_linksSection hlinks) (by decide) (by decide) (by decide)]
  dsimp only
  simp only [if_neg hrest, hlinked]
  split_ifs
  · rfl
  · rfl

/-- The columns of a function that the reader takes its name and its arity from. -/
def FuncProperties.Readable (f : FuncProperties) : Prop :=
  Word f.name ∧ f.name.head? ≠ some '#' ∧ Word f.inputSignature

theorem FuncProperties.Readable.regular {f : FuncProperties} (h : f.Readable) : f.row.Regular :=
  ⟨_, _, _, rfl, h.1, h.2.1⟩

section Whole

variable [NdnCxx]

/-- What the reader makes of a file with the functions `funcs`. -/
structure ReadBack (p : GenParams) (funcs : List FuncProperties) (top : Topology) : Prop where
  computeNodes : top.computeNodes.map ComputeNode.name = computeNames p
  consumerNodes : top.consumerNodes = consumerNames p
  functionList : top.functionList.map Topology.arity = funcs.map fun f =>
    (NdnCxx.ofUri f.name, UInt32.ofNat (Topology.numInputs f.inputSignature))
  /-- every compute node but the first has all functions -/
  filled : ∀ n ∈ top.computeNodes.drop 1, ∃ n₀ : ComputeNode, n₀.funcMap = [] ∧
    n = n₀.fill top.functionMap

theorem arity_readFunctions (junk : ℕ → ℕ → UInt32) {funcs : List FuncProperties}
    (h : ∀ f ∈ funcs, f.Readable) :
    (((funcs.map FuncProperties.row).map Row.line).mapIdx fun i => Topology.readFunction (junk i)).map
      Topology.arity =
      funcs.map fun f => (NdnCxx.ofUri f.name, UInt32.ofNat (Topology.numInputs f.inputSignature)) := by
  refine List.ext_getElem? fun i => ?_
  rw [List.getElem?_map, List.getElem?_mapIdx, List.getElem?_map, List.getElem?_map, List.getElem?_map]
  rcases hi : funcs[i]? with _ | f
  · rfl
  · obtain ⟨hname, -, hsignature⟩ := h f (List.mem_of_getElem? hi)
    exact congrArg some (Topology.readFunction_line (junk i) hname hsignature (List.cons_ne_nil _ _))

/-- The sections behind the functions section. -/
theorem readStatus_rows (top : Topology) {status requests : List Row} (ls : List Str)
    (hstatus : ∀ r ∈ status, r.Regular) (hrequests : ∀ r ∈ requests, r.Regular) :
    ∃ status' functionList, functionList.map Topology.arity = top.functionList.map Topology.arity ∧
      top.readStatus (status.map Row.line ++ [] :: "consumer section".toList ::
        (requests.map Row.line ++ [] :: "initial data section".toList :: ls)) =
          Topology.addFunctions
            { top with initialFuncStatus := status', functionList := functionList } := by
  unfold Topology.readStatus
  rw [read_rows hstatus (by decide) (by decide) (by decide)]
  dsimp only
  rw [read_rows hrequests (by decide) (by decide) (by decide)]
  exact ⟨_, _, Topology.foldl_readInputs _ _, rfl⟩

/-- The functions section and what is behind it. -/
theorem readFunctions_rows (junk : ℕ → ℕ → UInt32) (top : Topology) {funcs : List FuncProperties}
    {status requests : List Row} (ls : List Str) (hfuncs : ∀ f ∈ funcs, f.Readable)
    (hstatus : ∀ r ∈ status, r.Regular) (hrequests : ∀ r ∈ requests, r.Regular)
    (htop : top.functionList = []) :
    ∃ status' functionList,
      functionList.map Topology.arity = funcs.map (fun f =>
        (NdnCxx.ofUri f.name, UInt32.ofNat (Topology.numInputs f.inputSignature))) ∧
      top.readFunctions junk (some "functions".toList) ((funcs.map FuncProperties.row).map Row.line ++
        [] :: "initial function status".toList :: (status.map Row.line ++
          [] :: "consumer section".toList :: (requests.map Row.line ++
            [] :: "initial data section".toList :: ls))) =
          Topology.addFunctions
            { top with initialFuncStatus := status', functionList := functionList } := by
  have hrows : ∀ r ∈ funcs.map FuncProperties.row, r.Regular :=
    List.forall_mem_map.mpr fun f hf => (hfuncs f hf).regular
  unfold Topology.readFunctions
  rw [if_neg (by decide), read_rows hrows (by decide) (by decide) (by decide)]
  dsimp only
  rw [if_neg (by simp)]
  obtain ⟨status', functionList, harity, hread⟩ := readStatus_rows { top with
    functionList := top.functionList ++ ((funcs.map FuncProperties.row).map Row.line).mapIdx
      fun i => Topology.readFunction (junk i) } ls hstatus hrequests
  refine ⟨status', functionList, ?_, hread⟩
  rw [harity, htop, List.nil_append, arity_readFunctions junk hfuncs]

theorem readBack_addFunctions {funcs : List FuncProperties} {top : Topology}
    {status : List (Str × List Str)}
    {functionList : List FunctionEntry}
    (hnodes : Topology.Nodes (computeNames p) (consumerNames p) top)
    (harity : functionList.map Topology.arity = funcs.map fun f =>
      (NdnCxx.ofUri f.name, UInt32.ofNat (Topology.numInputs f.inputSignature))) :
    ReadBack p funcs (Topology.addFunctions
      { top with initialFuncStatus := status, functionList := functionList }) where
  computeNodes := by
    rw [Topology.map_name_addFunctions]
    exact hnodes.computeNodes
  consumerNodes := by
    rw [← hnodes.consumerNodes]
    rfl
  functionList := harity
  filled := by
    have hdrop : ∀ functions : List (Str × IncComputation),
        (top.computeNodes.take 1 ++ (top.computeNodes.drop 1).map (·.fill functions)).drop 1 =
          (top.computeNodes.drop 1).map (·.fill functions) := by
      intro functions
      cases top.computeNodes with
      | nil => rfl
      | cons n l => rfl
    intro n hn
    rw [Topology.addFunctions, hdrop] at hn
    obtain ⟨n₀, hn₀, rfl⟩ := List.mem_map.mp hn
    exact ⟨n₀, hnodes.funcMap n₀ (List.mem_of_mem_drop hn₀), rfl⟩

variable {d : Dataset}

/-- **A generated file** whose links join declared nodes is read back to its end. -/
theorem exists_readBack [Ns3Names] (hnames : Ns3Names.Documented) (junk : Junk)
    {funcs : List FuncProperties} (hrouter : routerSection p = .ok d.router)
    (hlinks : linksSection p = .ok d.links) (hlast : lastLinked p < nodeCount p)
    (hfunctions : d.functions = funcs.map FuncProperties.row) (hfuncs : ∀ f ∈ funcs, f.Readable)
    (hstatus : d.initialStatus = funcs.map fun f => [computeName 0, f.name]) :
    ∃ top, Topology.readTopology junk d.lines = some top ∧ ReadBack p funcs top := by
  have hstatus' : ∀ r ∈ d.initialStatus, r.Regular := by
    rw [hstatus]
    exact List.forall_mem_map.mpr fun f _ => regular_computeName _ _ _
  have hrequests : ∀ r ∈ d.requests.map Request.row, r.Regular :=
    List.forall_mem_map.mpr fun r _ => regular_consumerName _ _ _
  obtain ⟨top, hnodes, -, hread⟩ := readTopology_lines hnames junk hrouter hlinks
  rw [if_pos hlast, Dataset.functionLines, hfunctions] at hread
  obtain ⟨status, functionList, harity, hfunctions⟩ := readFunctions_rows junk.function top
    (d.data.map Row.line ++ [[]]) hfuncs hstatus' hrequests hnodes.functionList
  rw [hfunctions] at hread
  exact ⟨_, hread, readBack_addFunctions hnodes harity⟩

end Whole

end DataGen

end IncSim
