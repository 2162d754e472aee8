import IncSim.Topology.Links
import IncSim.Dataset.ReadBack

/-!
# Saved topologies

`SaveTopology`, and `Read`, which is the reader of the files that it writes.

* `linkColumns`, `saveTopology`: the file that is written.
* `Reading`, `readRouter`, `read`: what `Read` makes of a file.
* `Columns`, `links_of_readTopology`: the links that are read; `Named`, `named_of_readTopology`: the names.
* **`read_saveTopology`**: a topology that was read, saved and read again.
-/

namespace IncSim

open Extract

namespace Topology

/-! ## `SaveTopology` -/

/-- The row of a compute node; its position is given as the texts of `-y` and `x`. -/
def nodeRow (name : Str) (position : Str × Str) : Row :=
  [name, "NA".toList, position.1, position.2]

/-- The columns of a link: a setting that is missing ends them. -/
def linkColumns (link : Link) : List Str :=
  [link.source, link.target, link.dataRate, link.ospf] ++
    if link.delay = [] then []
    else link.delay ::
      if link.maxPackets = [] then []
      else link.maxPackets :: if link.lossRate = [] then [] else [link.lossRate]

/-- The row of a link, with a tab behind each column. -/
def saveLink (link : Link) : Str := (linkColumns link).flatMap (· ++ ['\t'])

/-- The lines in front of the nodes. -/
def routerHead : List Str :=
  ["# any empty lines and lines starting with '#' symbol is ignored", "",
    "# The file should contain exactly two sections: router and link, each starting with the corresponding keyword", "",
    "# router section defines topology nodes and their relative positions (e.g., to use in visualizer)", "router", "",
    "# each line in this section represents one router and should have the following data",
    "# node  comment     yPos    xPos"].map String.toList

/-- The lines in front of the links. -/
def linkHead : List Str :=
  ["# link section defines point-to-point links between nodes and characteristics of these links",
    "", "link", "",
    "# Each line should be in the following format (only first two are required, the rest can be omitted)",
    "# srcNode   dstNode     bandwidth   metric  delay   queue",
    "# bandwidth: link bandwidth", "# metric: routing metric", "# delay:  link delay",
    "# queue:  MaxPackets for transmission queue on the link (both directions)",
    "# error:  comma-separated list, specifying class for ErrorModel and necessary attributes"].map
    String.toList

/-- `SaveTopology`, for the positions of the compute nodes in their order. -/
def saveTopology (position : ℕ → Str × Str) (top : Topology) : List Str :=
  routerHead ++ (top.computeNodes.mapIdx fun i n => (nodeRow n.name (position i)).line) ++
    linkHead ++ top.links.map saveLink ++ [[]]

/-! ## `Read` -/

/-- What `Read` leaves, and whether `ApplySettings` was called. -/
structure Reading where
  top : Topology
  settingsApplied : Bool

/-- A compute node of `Read`, which does not set the size of the queue. -/
def routerNode (unset : ComputeNode.Unset) (name : Str) (cores speed ram rom : UInt32)
    (links runtimes : Str) : ComputeNode :=
  { ComputeNode.ofSystemId unset with
    name := name, processorCore := cores, processorSpeed := speed, ram := ram, rom := rom
    links := links, supportedRuntimes := runtimes }

/-- A row of the router section. -/
def readRouter [Ns3Names] (unset : ℕ → ComputeNode.Unset) (top : Topology) (line : Str) :
    Option Topology :=
  let (name, s) := word (some line)
  let (_city, s) := word s
  let s := double (double s)
  let (cores, s) := unsigned 0 s
  let (speed, s) := unsigned 0 s
  let (ram, s) := unsigned 0 s
  let (rom, s) := unsigned 0 s
  let (links, s) := word s
  let (_uuid, s) := unsigned 0 s
  let (runtimes, _) := word s
  if name = [] then some top
  else if Ns3Names.adds top.names name then
    let node := routerNode (unset top.computeNodes.length) name cores speed ram rom links runtimes
    some { top with computeNodes := top.computeNodes ++ [node] }
  else none

section Functions

variable [NdnCxx]

/-- A row of the functions section, with the key under which the compute nodes get the function. -/
def readPlainFunction (junk : ℕ → UInt32) (line : Str) : Str × FunctionEntry :=
  let (name, s) := word (some line)
  let (_inputList, s) := word s
  let (runtimesRequired, s) := word s
  let (ram, s) := unsigned (junk 0) s
  let (rom, s) := unsigned (junk 1) s
  let (cpu, _) := unsigned (junk 2) s
  let computation : IncComputation :=
    { computationName := NdnCxx.ofUri name, enableComputation := false, execCounter := 0
      missExecCounter := 0, ram := ram, rom := rom, cpu := cpu, funcSize := 0
      paramNumber := junk 3, inputList := "null".toList }
  (name, ⟨computation, splitRuntimes [] runtimesRequired⟩)

/-- The functions are added to all compute nodes. -/
def addPlainFunctions (top : Topology) (functions : List (Str × FunctionEntry)) : Topology :=
  { top with
    functionList := top.functionList ++ functions.map Prod.snd
    computeNodes := top.computeNodes.map
      (·.fill (functions.map fun f => (f.1, f.2.computation))) }

/-- The last section of a file, and `ApplySettings`. -/
def readPlainStatus (top : Topology) (lines : List Str) : Reading where
  top := { top with
    initialFuncStatus :=
      (Sections.read [] lines).rows.foldl readInitialStatus top.initialFuncStatus }
  settingsApplied := true

/-- The titles that end the link section. -/
def plainLinksEnd : List Str := ["functions", "initial function status"].map String.toList

/-- The sections behind the links. `Read` returns early where the file ends before its last
section. -/
def readPlainFunctions (junk : ℕ → ℕ → UInt32) (top : Topology) (title : Option Str)
    (lines : List Str) : Reading :=
  if title = some "initial function status".toList then top.readPlainStatus lines
  else
    let functions := Sections.read ["initial function status".toList] lines
    let top := top.addPlainFunctions (functions.rows.mapIdx fun i => readPlainFunction (junk i))
    if functions.rest = [] then ⟨top, false⟩ else top.readPlainStatus functions.rest

/-- `Read`, whose loop over the links is the one of `ReadTopology`; none is a fatal error, a failure of
`Names` or an assertion that fails. -/
def read [Ns3Names] (junk : Junk) (lines : List Str) : Option Reading :=
  let lines := Sections.skipTo "router".toList lines
  if lines = [] then none
  else do
    let router := Sections.read ["link".toList] lines
    let top ← router.rows.foldlM (readRouter junk.node) empty
    if router.rest = [] then some ⟨top, false⟩
    else
      let links := Sections.read plainLinksEnd router.rest
      let top ← links.rows.foldlM readLink top
      if links.rest = [] then some ⟨top, false⟩
      else some (top.readPlainFunctions junk.function links.title links.rest)

end Functions

/-! ## The links that are read -/

variable {top t : Topology} {links : List Link} {link : Link}

/-- The columns of the link are words, and only empty ones follow an empty one. -/
def Columns (link : Link) : Prop := ∃ ws : List Str, (∀ w ∈ ws, Word w) ∧ link = ofColumns (pad 7 ws)

theorem columns_rowLink (line : Str) : Columns (rowLink line) := by
  obtain ⟨ws, hws, heq⟩ := exists_columns 7 (some line)
  exact ⟨ws, hws, by rw [rowLink_eq, heq]⟩

/-- **The links of a topology that was read** have columns, and none is the reverse of another. -/
theorem links_of_readTopology [NdnCxx] [Ns3Names] {junk : Junk} {lines : List Str}
    (h : readTopology junk lines = some t) : Unreversed t.links ∧ ∀ l ∈ t.links, Columns l := by
  obtain ⟨nodes, linked, hnodes, hlinks, ht⟩ := sections_of_readTopology h
  obtain ⟨hnil, hnone⟩ := links_foldlM_readNode hnodes
  have hlinks : Processed linked ∧ Unreversed linked.links ∧ ∀ l ∈ linked.links, Columns l := by
    refine Sections.foldlM_invariant (P := fun top => Processed top ∧ Unreversed top.links ∧
      ∀ l ∈ top.links, Columns l) (fun top line top' htop hline => ?_) ?_ hlinks
    · obtain ⟨hprocessed, hun, hcolumns⟩ := htop
      refine ⟨(hprocessed.readLink hline).1, ?_⟩
      unfold readLink at hline
      dsimp only at hline
      split_ifs at hline with hold
      · cases hline
        exact ⟨hun, hcolumns⟩
      · cases hline
        constructor
        · refine List.pairwise_append.mpr ⟨hun, List.pairwise_singleton _ _, fun l hl l' hl' heq => ?_⟩
          rw [List.mem_singleton.mp hl'] at heq
          refine hold ?_
          rw [← hprocessed]
          exact List.mem_map.mpr ⟨l, hl, heq.symm⟩
        · intro l hl
          rcases List.mem_append.mp hl with hl | hl
          · exact hcolumns l hl
          · rw [List.mem_singleton.mp hl]
            exact columns_rowLink line
    · rw [Processed, hnil, hnone]
      exact ⟨rfl, List.Pairwise.nil, List.forall_mem_nil _⟩
  rcases ht with rfl | ⟨title, rest, rfl⟩
  · exact hlinks.2
  · rw [links_readFunctions]
    exact hlinks.2

/-! ## Links that are written -/

/-- The row of a link: its columns with a tab behind each, at least four of them. -/
theorem saveLink_ofColumns {ws : List Str} (hws : ∀ w ∈ ws, Word w) :
    saveLink (ofColumns (pad 7 ws)) =
      (ws.take 7).flatMap (· ++ ['\t']) ++ List.replicate (4 - ws.length) '\t' := by
  have hne : ∀ w ∈ ws, w ≠ [] := fun w hw => (hws w hw).1
  rcases ws with _ | ⟨a, _ | ⟨b, _ | ⟨c, _ | ⟨d, _ | ⟨e, _ | ⟨f, _ | ⟨g, r⟩⟩⟩⟩⟩⟩⟩
  · rfl
  · simp [saveLink, linkColumns, ofColumns, pad]
  · simp [saveLink, linkColumns, ofColumns, pad]
  · simp [saveLink, linkColumns, ofColumns, pad]
  · simp [saveLink, linkColumns, ofColumns, pad]
  · have he : e ≠ [] := hne e (by simp)
    simp [saveLink, linkColumns, ofColumns, pad, he]
  · have he : e ≠ [] := hne e (by simp)
    have hf : f ≠ [] := hne f (by simp)
    simp [saveLink, linkColumns, ofColumns, pad, he, hf]
  · have he : e ≠ [] := hne e (by simp)
    have hf : f ≠ [] := hne f (by simp)
    have hg : g ≠ [] := hne g (by simp)
    simp [saveLink, linkColumns, ofColumns, pad, he, hf, hg]

/-- **A link is written** so that its row reads back as the link. -/
theorem rowLink_saveLink (h : Columns link) : rowLink (saveLink link) = link := by
  obtain ⟨ws, hws, rfl⟩ := h
  have htabs : ∀ c ∈ List.replicate (4 - ws.length) '\t', Text.isSpace c = true := by
    intro c hc
    rw [List.eq_of_mem_replicate hc]
    decide
  rw [rowLink_eq, saveLink_ofColumns hws,
    columns_append (fun w hw => hws w (List.mem_of_mem_take hw)) htabs, pad_take]

/-! ## The names that are read -/

/-- The names of the compute nodes. -/
def computeNodeNames (top : Topology) : List Str := top.computeNodes.map ComputeNode.name

/-- The names of the compute nodes are words, and no name is given twice. -/
structure Named (top : Topology) : Prop where
  words : ∀ name ∈ top.computeNodeNames, Word name
  nodup : top.names.Nodup

theorem Named.readNode [Ns3Names] (hnames : Ns3Names.Documented) {unset : ℕ → ComputeNode.Unset}
    (h : Named top) {line : Str} (hline : readNode unset top line = some t) : Named t := by
  rcases word_cases (some line) with hword | ⟨name, s, hname, hword⟩
  · unfold Topology.readNode at hline
    rw [hword] at hline
    dsimp only at hline
    rw [if_pos rfl] at hline
    cases hline
    exact h
  · unfold Topology.readNode at hline
    rw [hword] at hline
    dsimp only at hline
    split_ifs at hline with _ _ hadds _ hadds
    · cases hline
      exact h
    · cases hline
      have hnew := (hnames.adds_iff _ _).mp hadds
      constructor
      · intro name' hname'
        rw [computeNodeNames, List.map_append] at hname'
        rcases List.mem_append.mp hname' with hname' | hname'
        · exact h.words name' hname'
        · rw [List.mem_singleton.mp hname']
          exact hname
      · rw [Topology.names, List.map_append, List.append_assoc]
        exact List.nodup_middle.mpr (List.nodup_cons.mpr ⟨hnew, h.nodup⟩)
    · cases hline
      have hnew := (hnames.adds_iff _ _).mp hadds
      refine ⟨h.words, ?_⟩
      rw [Topology.names, ← List.append_assoc]
      exact List.nodup_append_comm.mp (List.nodup_cons.mpr ⟨hnew, h.nodup⟩)
    · cases hline
      exact h

theorem named_of_readTopology [NdnCxx] [Ns3Names] (hnames : Ns3Names.Documented) {junk : Junk}
    {lines : List Str} (h : readTopology junk lines = some t) : Named t := by
  obtain ⟨nodes, linked, hnodes, hlinks, ht⟩ := sections_of_readTopology h
  have hstart : Named empty := ⟨List.forall_mem_nil _, List.nodup_nil⟩
  have hnodes : Named nodes :=
    Sections.foldlM_invariant (P := Named) (fun _ _ _ htop hline => htop.readNode hnames hline)
      hstart hnodes
  have hlinks : Named linked := by
    refine Sections.foldlM_invariant (P := Named) (fun top line top' htop hline => ?_) hnodes hlinks
    unfold readLink at hline
    dsimp only at hline
    split_ifs at hline
    · cases hline
      exact htop
    · cases hline
      exact ⟨htop.words, htop.nodup⟩
  rcases ht with rfl | ⟨title, rest, rfl⟩
  · exact hlinks
  · have hfunctions : ∀ top : Topology, Named top → Named top.addFunctions := by
      intro top htop
      have hsame : top.addFunctions.computeNodeNames = top.computeNodeNames := map_name_addFunctions top
      refine ⟨by rw [hsame]; exact htop.words, ?_⟩
      have hsame' : top.addFunctions.names = top.names := congrArg (· ++ top.consumerNodes) hsame
      rw [hsame']
      exact htop.nodup
    have hkept : ∀ status functions, Named { linked with
        initialFuncStatus := status, functionList := functions } :=
      fun _ _ => ⟨hlinks.words, hlinks.nodup⟩
    unfold readFunctions readStatus
    dsimp only
    split_ifs
    · exact hfunctions _ (hkept _ _)
    · exact hkept _ _
    · exact hfunctions _ (hkept _ _)

/-! ## Nodes that are written -/

/-- A compute node of which only the name was saved. -/
def savedNode (unset : ComputeNode.Unset) (name : Str) : ComputeNode :=
  routerNode unset name 0 0 0 0 [] []

variable [Ns3Names]

/-- **The row of a node** reads back as its name. -/
theorem readRouter_nodeRow (unset : ℕ → ComputeNode.Unset) (top : Topology) {name : Str}
    {position : Str × Str} (hname : Word name) (hy : Printed position.1) (hx : Printed position.2) :
    readRouter unset top (nodeRow name position).line =
      if Ns3Names.adds top.names name then
        some { top with
          computeNodes := top.computeNodes ++ [savedNode (unset top.computeNodes.length) name] }
      else none := by
  have hline : (nodeRow name position).line = name ++ '\t' ::
      ("NA".toList ++ '\t' :: (position.1 ++ '\t' :: (position.2 ++ []))) := by
    simp [nodeRow, Row.line, List.intercalate]
  have hna : Word "NA".toList := Word.of_all (by decide) rfl
  have hrest : double (double (some ('\t' :: (position.1 ++ '\t' :: (position.2 ++ []))))) =
        some [] ∨
      double (double (some ('\t' :: (position.1 ++ '\t' :: (position.2 ++ []))))) = none := by
    rcases double_printed hy (Or.inr ⟨'\t', position.2 ++ [], by decide, rfl⟩) with h | h
    · rw [h]
      exact double_printed hx (Or.inl rfl)
    · rw [h]
      exact Or.inr rfl
  unfold readRouter
  rw [hline, word_append hname (by decide)]
  dsimp only
  rw [word_space (by decide), word_append hna (by decide)]
  dsimp only
  rw [if_neg hname.1]
  rcases hrest with h | h
  · rw [h]
    rfl
  · rw [h]
    rfl

/-! ## A file that was saved -/

theorem foldlM_readRouter (hnames : Ns3Names.Documented) (unset : ℕ → ComputeNode.Unset)
    {ps : List (Str × Str × Str)} (hps : ∀ q ∈ ps, Word q.1 ∧ Printed q.2.1 ∧ Printed q.2.2)
    (hnodup : (ps.map Prod.fst).Nodup) (hnew : ∀ q ∈ ps, q.1 ∉ top.names) :
    (ps.map fun q => (nodeRow q.1 q.2).line).foldlM (readRouter unset) top =
      some { top with
        computeNodes := top.computeNodes ++
          ps.mapIdx fun i q => savedNode (unset (top.computeNodes.length + i)) q.1 } := by
  induction ps generalizing top with
  | nil => simp
  | cons q ps ih =>
    obtain ⟨⟨hname, hy, hx⟩, hps⟩ := List.forall_mem_cons.mp hps
    obtain ⟨hnew, hnews⟩ := List.forall_mem_cons.mp hnew
    obtain ⟨hne, hnodup⟩ := List.nodup_cons.mp hnodup
    rw [List.map_cons, List.foldlM_cons, readRouter_nodeRow unset top hname hy hx,
      if_pos ((hnames.adds_iff _ _).mpr hnew)]
    refine (ih hps hnodup fun q' hq' hmem => ?_).trans ?_
    · rw [Topology.names, List.map_append] at hmem
      have hmem : q'.1 ∈ top.names ∨ q'.1 = q.1 := by
        rcases List.mem_append.mp hmem with hmem | hmem
        · rcases List.mem_append.mp hmem with hmem | hmem
          · exact Or.inl (List.mem_append_left _ hmem)
          · exact Or.inr (List.mem_singleton.mp hmem)
        · exact Or.inl (List.mem_append_right _ hmem)
      rcases hmem with hmem | heq
      · exact hnews q' hq' hmem
      · exact hne (heq ▸ List.mem_map_of_mem hq')
    · simp only [List.mapIdx_cons, List.append_assoc, List.singleton_append, List.length_append,
        List.length_singleton, Nat.add_zero, Nat.add_assoc, Nat.add_comm 1]

/-- The positions of the nodes were printed, and no name starts a comment. -/
structure Savable (position : ℕ → Str × Str) (top : Topology) : Prop where
  position : ∀ i, Printed (position i).1 ∧ Printed (position i).2
  names : ∀ n ∈ top.computeNodes, n.name.head? ≠ some '#'
  sources : ∀ l ∈ top.links, l.source.head? ≠ some '#'

omit [Ns3Names] in
/-- What is read of a saved file: the names of the compute nodes, and the links. -/
def saved (unset : ℕ → ComputeNode.Unset) (top : Topology) : Topology :=
  { empty with
    computeNodes := top.computeNodeNames.mapIdx fun i name => savedNode (unset i) name
    links := top.links
    processedLinks := top.links.map Link.ends }

omit [Ns3Names] in
theorem saveLink_row (hsource : link.source.head? ≠ some '#') :
    ¬ Sections.Skipped (saveLink link) ∧ saveLink link ∉ plainLinksEnd := by
  have hline : saveLink link = link.source ++ '\t' ::
      ((linkColumns link).drop 1).flatMap (· ++ ['\t']) := by simp [saveLink, linkColumns]
  rw [hline]
  constructor
  · rintro (h | h)
    · exact absurd h (by simp)
    · cases hs : link.source with
      | nil => rw [hs] at h; cases h
      | cons c s => rw [hs] at h hsource; exact hsource h
  · intro hmem
    have htab : ∀ title ∈ plainLinksEnd, '\t' ∉ title := by decide
    exact htab _ hmem (by simp)

omit [Ns3Names] in
/-- The lines of a saved file behind its first title. -/
theorem skipTo_saveTopology (position : ℕ → Str × Str) (top : Topology) :
    Sections.skipTo "router".toList (top.saveTopology position) =
      routerHead.drop 6 ++ ((top.computeNodes.mapIdx fun i n => (nodeRow n.name (position i)).line) ++
        (linkHead ++ (top.links.map saveLink ++ [[]]))) := by
  have hhead : routerHead = routerHead.take 5 ++ "router".toList :: routerHead.drop 6 := rfl
  rw [saveTopology, hhead]
  simp only [List.append_assoc, List.cons_append]
  exact Sections.skipTo_append (by decide) _

/-- **Saving and reading again.** The file that `SaveTopology` writes of a topology that was read is read
by `Read` exactly when every link joins two compute nodes; the names and the links come back with all
their attributes, in their order, the resources do not, and the settings of the links are not applied. -/
theorem read_saveTopology [NdnCxx] (hnames : Ns3Names.Documented) {junk : Junk} {lines : List Str}
    (h : readTopology junk lines = some t) {position : ℕ → Str × Str}
    (hsavable : t.Savable position) (junk' : Junk) :
    read junk' (t.saveTopology position) =
      if ∀ l ∈ t.links, l.source ∈ t.computeNodeNames ∧ l.target ∈ t.computeNodeNames then
        some ⟨t.saved junk'.node, false⟩
      else none := by
  obtain ⟨hun, hcolumns⟩ := links_of_readTopology h
  have hnamed := named_of_readTopology hnames h
  -- the rows of the nodes, each with its position
  obtain ⟨ps, hps, hfst, hrows⟩ : ∃ ps : List (Str × Str × Str),
      (∀ q ∈ ps, (Word q.1 ∧ Printed q.2.1 ∧ Printed q.2.2) ∧ q.1.head? ≠ some '#') ∧
      ps.map Prod.fst = t.computeNodeNames ∧
      (t.computeNodes.mapIdx fun i n => (nodeRow n.name (position i)).line) =
        ps.map fun q => (nodeRow q.1 q.2).line := by
    refine ⟨t.computeNodes.zipIdx.map fun q => (q.1.name, position q.2), fun q hq => ?_, ?_, ?_⟩
    · obtain ⟨⟨n, i⟩, hn, rfl⟩ := List.mem_map.mp hq
      have hmem := List.fst_mem_of_mem_zipIdx hn
      exact ⟨⟨hnamed.words _ (List.mem_map_of_mem hmem), hsavable.position i⟩, hsavable.names n hmem⟩
    · have hfst : (t.computeNodes.zipIdx.map Prod.fst).map ComputeNode.name = t.computeNodeNames := by
        rw [List.zipIdx_map_fst, computeNodeNames]
      rw [← hfst, List.map_map, List.map_map]
      rfl
    · rw [List.mapIdx_eq_zipIdx_map, List.map_map]
      rfl
  have hregular : ∀ l ∈ ps.map (fun q => (nodeRow q.1 q.2).line), ¬ Sections.Skipped l ∧
      l ∉ ["link".toList] := by
    intro l hl
    obtain ⟨q, hq, rfl⟩ := List.mem_map.mp hl
    have hrow : (nodeRow q.1 q.2).Regular := ⟨_, _, _, rfl, (hps q hq).1.1, (hps q hq).2⟩
    refine ⟨hrow.not_skipped, fun hmem => ?_⟩
    have htab := hrow.tab_mem
    rw [List.mem_singleton.mp hmem] at htab
    exact absurd htab (by decide)
  have hlinks : ∀ l ∈ t.links.map saveLink, ¬ Sections.Skipped l ∧ l ∉ plainLinksEnd := by
    intro l hl
    obtain ⟨link, hlink, rfl⟩ := List.mem_map.mp hl
    exact saveLink_row (hsavable.sources link hlink)
  have hlinkHead : linkHead = linkHead.take 2 ++ "link".toList :: linkHead.drop 3 := rfl
  unfold read
  rw [skipTo_saveTopology, hrows]
  dsimp only
  rw [if_neg (by simp), Sections.read_skipped (by decide), Sections.read_append hregular, hlinkHead,
    List.append_assoc, Sections.read_skipped (by decide), List.cons_append,
    Sections.read_title (by decide) (by decide)]
  dsimp only
  -- the nodes that are read have the names that were saved
  obtain ⟨top, htop⟩ : ∃ top : Topology, top = { empty with
      computeNodes := empty.computeNodes ++
        ps.mapIdx fun i q => savedNode (junk'.node (empty.computeNodes.length + i)) q.1 } := ⟨_, rfl⟩
  have hnodes : top.computeNodes =
      t.computeNodeNames.mapIdx fun i name => savedNode (junk'.node i) name := by
    rw [htop, ← hfst]
    refine List.ext_getElem? fun i => ?_
    simp only [empty, List.nil_append, List.getElem?_mapIdx, List.getElem?_map, Option.map_map,
      List.length_nil, Nat.zero_add]
    rfl
  have hfound : ∀ l, top.Found l ↔
      l.source ∈ t.computeNodeNames ∧ l.target ∈ t.computeNodeNames := by
    have hsame : top.names = t.computeNodeNames := by
      have hconsumers : top.consumerNodes = [] := by rw [htop]; rfl
      rw [Topology.names, hconsumers, List.append_nil, hnodes]
      refine List.ext_getElem? fun i => ?_
      rw [List.getElem?_map, List.getElem?_mapIdx, Option.map_map]
      exact Option.map_id'
    intro l
    rw [Found, hnames.finds_iff, hnames.finds_iff, hsame]
  have hprocessed : Processed top := by rw [htop]; rfl
  have hnil : top.links = [] := by rw [htop]; rfl
  have hrowLink : (t.links.map saveLink).map rowLink = t.links := by
    rw [List.map_map]
    exact (List.map_congr_left fun l hl => rowLink_saveLink (hcolumns l hl)).trans (List.map_id _)
  have hsaved : { top with
      processedLinks := top.processedLinks ++ (t.links.map saveLink).map fun l => (rowLink l).ends
      links := top.links ++ (t.links.map saveLink).map rowLink } = t.saved junk'.node := by
    have hends : (t.links.map saveLink).map (fun l => (rowLink l).ends) = t.links.map Link.ends :=
      List.map_map.symm.trans (congrArg (List.map Link.ends) hrowLink)
    rw [saved, ← hnodes, hends, hrowLink, htop]
    rfl
  have hall : (∀ line ∈ t.links.map saveLink, top.Found (rowLink line)) ↔
      ∀ l ∈ t.links, l.source ∈ t.computeNodeNames ∧ l.target ∈ t.computeNodeNames := by
    rw [List.forall_mem_map]
    refine forall₂_congr fun l hl => ?_
    rw [rowLink_saveLink (hcolumns l hl), hfound]
  rw [List.append_nil, foldlM_readRouter hnames junk'.node (fun q hq => (hps q hq).1)
      (by rw [hfst]; exact hnamed.nodup.of_append_left) (fun _ _ => List.not_mem_nil),
    ← htop, Option.bind_eq_bind, Option.bind_some, if_neg (by simp [linkHead]),
    Sections.read_skipped (by decide), Sections.read_append hlinks, Sections.read_blank, Sections.read]
  dsimp only
  rw [List.append_nil, foldlM_readLink hprocessed (by rw [hnil, hrowLink]; exact hun), hsaved]
  simp only [hall]
  split_ifs
  · rfl
  · rfl

omit [Ns3Names]

/-- Two compute nodes, a consumer, and the given links. -/
def threeNodes (links : List String) : List Str :=
  (["router", "compute_node_0\t1\t2\t8\t2000\t4096\t100\t5\tl1\tpython",
    "compute_node_1\t1\t3\t8\t2000\t4096\t100\t5\tl1\tpython",
    "consumer_0\t20\t0\tNaN\tNaN\tNaN\tNaN\tNaN\tNaN", "", "links"] ++ links).map String.toList

theorem savable_threeNodes
    (hnames : t.computeNodeNames = ["compute_node_0".toList, "compute_node_1".toList])
    (hsources : ∀ l ∈ t.links, l.source ∈ t.computeNodeNames) :
    t.Savable fun _ => ("1".toList, "1".toList) := by
  have hone : Printed "1".toList :=
    @Printed.mk false "1".toList [] [] (by decide) (List.forall_mem_singleton.mpr rfl) (Or.inl rfl)
      (Or.inl rfl)
  have hhead : ∀ name ∈ t.computeNodeNames, name.head? ≠ some '#' := by
    rw [hnames]
    decide
  exact ⟨fun _ => ⟨hone, hone⟩, fun n hn => hhead _ (List.mem_map_of_mem hn),
    fun l hl => hhead _ (hsources l hl)⟩

/-- A link of two compute nodes is read again; with a link to the consumer the file cannot be read. -/
theorem read_saveTopology_threeNodes :
    let junk : Junk := ⟨fun _ => default, fun _ _ => 0⟩
    (∃ t, @readTopology plainUri listNames junk
        (threeNodes ["compute_node_0\tcompute_node_1\t10Mbps\t1\t5ms"]) = some t ∧
      @read plainUri listNames junk (t.saveTopology fun _ => ("1".toList, "1".toList)) =
        some ⟨t.saved junk.node, false⟩) ∧
    ∃ t, @readTopology plainUri listNames junk
        (threeNodes ["compute_node_1\tconsumer_0\t10Mbps\t1\t5ms\t10"]) = some t ∧
      @read plainUri listNames junk (t.saveTopology fun _ => ("1".toList, "1".toList)) = none := by
  intro junk
  constructor
  · have hread : (@readTopology plainUri listNames junk
        (threeNodes ["compute_node_0\tcompute_node_1\t10Mbps\t1\t5ms"])).map
        (fun t => (t.computeNodeNames, t.links)) =
          some (["compute_node_0".toList, "compute_node_1".toList],
            [rowLink "compute_node_0\tcompute_node_1\t10Mbps\t1\t5ms".toList]) := by decide +kernel
    obtain ⟨t, ht, heq⟩ := Option.map_eq_some_iff.mp hread
    obtain ⟨hnames, hlinks⟩ := Prod.mk.inj heq
    refine ⟨t, ht, ?_⟩
    rw [@read_saveTopology t listNames plainUri listNames_documented _ _ ht _
      (savable_threeNodes hnames (by rw [hnames, hlinks]; decide)) junk, if_pos]
    rw [hlinks, hnames]
    decide
  · have hread : (@readTopology plainUri listNames junk
        (threeNodes ["compute_node_1\tconsumer_0\t10Mbps\t1\t5ms\t10"])).map
        (fun t => (t.computeNodeNames, t.links)) =
          some (["compute_node_0".toList, "compute_node_1".toList],
            [rowLink "compute_node_1\tconsumer_0\t10Mbps\t1\t5ms\t10".toList]) := by decide +kernel
    obtain ⟨t, ht, heq⟩ := Option.map_eq_some_iff.mp hread
    obtain ⟨hnames, hlinks⟩ := Prod.mk.inj heq
    refine ⟨t, ht, ?_⟩
    rw [@read_saveTopology t listNames plainUri listNames_documented _ _ ht _
      (savable_threeNodes hnames (by rw [hnames, hlinks]; decide)) junk, if_neg]
    rw [hlinks, hnames]
    decide

end Topology

end IncSim
