import IncSim.Lib.Text
import IncSim.Ndn.Name

/-!
# Trace summaries

The rows that `PrintSum` writes in four tracers, under the headers of `PrintHeader`. Lists of names
are written through one string stream.

* `Stringstream`: `clear` resets the error flags and keeps the text.
* `IncComputeTracer`, `IncOrchestratorCommunicationTracer`, `IncOrchestratorTracerNode`,
  `IncComputeNodeTracer`: the tracers, with the statistics that `PrintSum` reads.
* `Summary.KeepsApart`: what the columns should show.
* **`summaries_not_apart`**: no tracer writes such a row.
-/

namespace IncSim

/-! ## Streams -/

/-- `operator<<` of a `double`: in the classic locale no separator is written. -/
class Ostream (ν : Type) where
  text : ν → Str
  text_free : ∀ x, Text.Free [',', '<', '\n'] (text x)

/-- `std::stringstream`, as far as text is written to it. -/
structure Stringstream where
  str : Str
  failbit : Bool

namespace Stringstream

def empty : Stringstream := ⟨[], false⟩

/-- `operator<<`. -/
def insert (ss : Stringstream) (s : Str) : Stringstream :=
  if ss.failbit then ss else { ss with str := ss.str ++ s }

/-- `clear ()`: the state becomes `goodbit`, the text stays. -/
def clear (ss : Stringstream) : Stringstream := { ss with failbit := false }

/-- `ss << "<" << boost::algorithm::join (names, sep) << ">"`. -/
def insertNames (ss : Stringstream) (names : List Str) (sep : String) : Stringstream :=
  ((ss.insert ['<']).insert (sep.toList.intercalate names)).insert ['>']

end Stringstream

/-- The field of a list of names. -/
def nameField (names : List Str) (sep : String) : Str :=
  '<' :: (sep.toList.intercalate names ++ ['>'])

/-! ## Tracers -/

/-- `IncComputeTracer`. -/
structure IncComputeTracer (ν : Type) where
  node : Str
  overallInterestReceived : ν
  overallInterestSend : ν
  overallDataReceived : ν
  overallDataSend : ν
  overallIntQueued : ν
  overallNodeBusy : ν
  overallIntForwarded : ν
  overallFuncDisabled : ν
  overallNfnFuncEnabled : ν
  sendInterestsNames : List Str
  rcvInterestsNames : List Str
  nodeBusyFuncNames : List Str
  funcDisabledFuncNames : List Str
  nfnFuncEnabledFuncNames : List Str

/-- `IncOrchestratorCommunicationTracer`. -/
structure IncOrchestratorCommunicationTracer (ν : Type) where
  node : Str
  overallOrchestrationInterestSend : ν
  overallOrchestrationDataReceived : ν
  overallOrchestrationDecisionsSend : ν
  interestsNames : List Str
  orchestrationDecisions : List Str

/-- `IncOrchestratorTracerNode`. -/
structure IncOrchestratorTracerNode (ν : Type) where
  node : Str
  enableFunctions : ν
  enabledFunctionsNames : List Str
  disableFunctions : ν
  disabledFunctionsNames : List Str

/-- `IncComputeNodeTracer`. -/
structure IncComputeNodeTracer (ν : Type) where
  node : Str
  overallExecutions : ν
  overallCPUUtilized : ν
  overallRAMUtilized : ν
  overallROMUtilized : ν
  overallExecTime : ν
  executedFuncNames : List Str

/-- A header, a row, and what the fields of the lists of names should be, under their titles. -/
structure Summary where
  header : Str
  row : Str
  nameFields : List (Str × Str)

/-- The titles of a header. -/
def titles (l : List String) : List Str := l.map String.toList

/-- Fields with commas between them. -/
def commaRow (fields : List Str) : Str := [','].intercalate fields

section Print

variable {ν : Type} [Ostream ν]

open Ostream

namespace IncComputeTracer

def printHeader : Str :=
  commaRow (titles ["Node", "IReceived", "ISent", "DReceived", "DSent", "IQueued", "Nodebusy",
    "InterestForwarded", "FuncDisabled", "NFNFuncEnabled", "SentInterestNames",
    "ReceivedInterestNames", "FuncNames", "DisabledFuncNames", "NfnEnabledFuncNames"])

def printSum (t : IncComputeTracer ν) : Str :=
  let ss := Stringstream.empty.insertNames t.sendInterestsNames "; "
  let sendInterestsNamesStr := ss.str
  let ss := ss.clear.insertNames t.rcvInterestsNames "; "
  let rcvInterestsNamesStr := ss.str
  let ss := ss.clear.insertNames t.nodeBusyFuncNames "; "
  let nbFuncNamesStr := ss.str
  let ss := ss.clear.insertNames t.funcDisabledFuncNames "; "
  let disFuncNamesStr := ss.str
  let ss := ss.insertNames t.nfnFuncEnabledFuncNames ";"
  let enFuncNamesStr := ss.str
  commaRow [t.node, text t.overallInterestReceived, text t.overallInterestSend,
    text t.overallDataReceived, text t.overallDataSend, text t.overallIntQueued,
    text t.overallNodeBusy, text t.overallIntForwarded, text t.overallFuncDisabled,
    text t.overallNfnFuncEnabled, sendInterestsNamesStr, rcvInterestsNamesStr, nbFuncNamesStr,
    disFuncNamesStr, enFuncNamesStr] ++ ['\n']

/-- The summary; the last list has a separator of its own. -/
def summary (t : IncComputeTracer ν) : Summary :=
  ⟨printHeader, t.printSum,
    [("SentInterestNames".toList, nameField t.sendInterestsNames "; "),
      ("ReceivedInterestNames".toList, nameField t.rcvInterestsNames "; "),
      ("FuncNames".toList, nameField t.nodeBusyFuncNames "; "),
      ("DisabledFuncNames".toList, nameField t.funcDisabledFuncNames "; "),
      ("NfnEnabledFuncNames".toList, nameField t.nfnFuncEnabledFuncNames ";")]⟩

end IncComputeTracer

namespace IncOrchestratorCommunicationTracer

def printHeader : Str :=
  commaRow (titles ["Node", "ISent", "DReceived", "DecisionsSent", "OrchestratorInterestNames",
    "OrchestratorDecisions"])

def printSum (t : IncOrchestratorCommunicationTracer ν) : Str :=
  let ss := Stringstream.empty.insertNames t.interestsNames "; "
  let interestsNamesStr := ss.str
  let ss := ss.clear.insertNames t.orchestrationDecisions "; "
  let decisionsNamesStr := ss.str
  commaRow [t.node, text t.overallOrchestrationInterestSend, text t.overallOrchestrationDataReceived,
    text t.overallOrchestrationDecisionsSend, interestsNamesStr, decisionsNamesStr] ++ ['\n']

def summary (t : IncOrchestratorCommunicationTracer ν) : Summary :=
  ⟨printHeader, t.printSum,
    [("OrchestratorInterestNames".toList, nameField t.interestsNames "; "),
      ("OrchestratorDecisions".toList, nameField t.orchestrationDecisions "; ")]⟩

end IncOrchestratorCommunicationTracer

namespace IncOrchestratorTracerNode

def printHeader : Str :=
  commaRow (titles ["Node", "Functions Enabled", "Enabled Functions Names", "Functions Disabled",
    "Disabled Functions Names"])

def printSum (t : IncOrchestratorTracerNode ν) : Str :=
  let ss := Stringstream.empty.insertNames t.enabledFunctionsNames "; "
  let enFunctionsNamesStr := ss.str
  let ss := ss.clear.insertNames t.disabledFunctionsNames "; "
  let disFunctionsNamesStr := ss.str
  commaRow [t.node, text t.enableFunctions, enFunctionsNamesStr, text t.disableFunctions,
    disFunctionsNamesStr] ++ ['\n']

def summary (t : IncOrchestratorTracerNode ν) : Summary :=
  ⟨printHeader, t.printSum,
    [("Enabled Functions Names".toList, nameField t.enabledFunctionsNames "; "),
      ("Disabled Functions Names".toList, nameField t.disabledFunctionsNames "; ")]⟩

end IncOrchestratorTracerNode

namespace IncComputeNodeTracer

def printHeader : Str :=
  commaRow (titles ["Node", "TotalNumExecutions", "TotalCPUUtilized", "TotalRAMUtilized",
    "TotalROMUtilized", "TotalOccupancyTime", "FunctionsExecuted", "FunctionsExecTime"])

def printSum (t : IncComputeNodeTracer ν) : Str :=
  let ss := Stringstream.empty.insertNames t.executedFuncNames "; "
  let executedFuncNames := ss.str
  commaRow [t.node, text t.overallExecutions, text t.overallCPUUtilized, text t.overallRAMUtilized,
    text t.overallROMUtilized, text t.overallExecTime, executedFuncNames] ++ ['\n']

/-- The summary; no field is written for the last title. -/
def summary (t : IncComputeNodeTracer ν) : Summary :=
  ⟨printHeader, t.printSum, [("FunctionsExecuted".toList, nameField t.executedFuncNames "; ")]⟩

end IncComputeNodeTracer

end Print

/-! ## Columns -/

namespace Summary

/-- The fields under their titles. -/
def columns (s : Summary) : List (Str × Str) :=
  (s.header.splitOn ',').zip (s.row.dropLast.splitOn ',')

/-- The row has as many fields as the header, and under each title of a list of names is
the list with its own names. -/
def KeepsApart (s : Summary) : Prop :=
  (s.row.dropLast.splitOn ',').length = (s.header.splitOn ',').length ∧
    ∀ q ∈ s.nameFields, s.columns.lookup q.1 = some q.2

end Summary

/-- Names to be written in one field. -/
def PlainNames (names : List Str) : Prop := ∀ name ∈ names, Text.Free [',', '\n'] name

instance (names : List Str) : Decidable (PlainNames names) :=
  List.decidableBAll (fun name => Text.Free [',', '\n'] name) names

variable {names names' : List Str} {sep : String} {ss : Stringstream}

theorem str_insertNames (h : ss.failbit = false) :
    ss.insertNames names sep = ⟨ss.str ++ nameField names sep, false⟩ := by
  obtain ⟨str, failbit⟩ := ss
  obtain rfl : failbit = false := h
  simp [Stringstream.insertNames, Stringstream.insert, nameField]

theorem comma_notMem_nameField (h : PlainNames names) (hsep : ',' ∉ sep.toList) :
    ',' ∉ nameField names sep := by
  intro hmem
  rw [nameField, List.mem_cons, List.mem_append, List.mem_singleton] at hmem
  rcases hmem with hmem | hmem | hmem
  · exact absurd hmem (by decide)
  · rcases Text.mem_intercalate hmem with hmem | ⟨name, hname, hmem⟩
    · exact hsep hmem
    · exact h name hname ',' List.mem_cons_self hmem
  · exact absurd hmem (by decide)

/-- **The columns of a row** in whose fields, but for the first, no comma stands. -/
theorem columns_commaRow {l : List String} {node : Str} {cells : List Str}
    {nameFields : List (Str × Str)} (hl : ∀ t ∈ titles l, ',' ∉ t) (hne : titles l ≠ [])
    (hcells : ∀ c ∈ cells, ',' ∉ c) (hne' : cells ≠ []) :
    Summary.KeepsApart ⟨commaRow (titles l), commaRow (node :: cells) ++ ['\n'], nameFields⟩ ↔
      (node.splitOn ',').length + cells.length = l.length ∧ ∀ q ∈ nameFields,
        ((titles l).zip (node.splitOn ',' ++ cells)).lookup q.1 = some q.2 := by
  unfold Summary.KeepsApart Summary.columns commaRow
  dsimp only
  rw [List.dropLast_concat, List.splitOn_intercalate ',' hl hne,
    Text.splitOn_intercalate_cons node hcells hne', List.length_append, titles, List.length_map]

/-- A list in front of a field does not leave the field as it is. -/
theorem nameField_append_ne (names : List Str) (sep : String) (s : Str) :
    nameField names sep ++ s ≠ s := by
  intro h
  have hlen := congrArg List.length h
  rw [nameField, List.length_append, List.length_cons] at hlen
  omega

/-- **A field behind another list**: a row with a field for each title, in which a list of names has
another one in front of it. -/
theorem not_keepsApart_of_append {l : List String} {node : Str} {cells : List Str}
    {nameFields : List (Str × Str)} (hl : ∀ t ∈ titles l, ',' ∉ t)
    (hcells : ∀ c ∈ cells, ',' ∉ c) (hne : cells ≠ []) (hlen : l.length = cells.length + 1)
    {title s : Str} (hfield : (title, s) ∈ nameFields) (hcell : ∀ x,
      ((titles l).zip (x :: cells)).lookup title = some (nameField names sep ++ s)) :
    ¬ Summary.KeepsApart ⟨commaRow (titles l), commaRow (node :: cells) ++ ['\n'], nameFields⟩ := by
  have htitles : titles l ≠ [] := by
    intro h
    rw [List.map_eq_nil_iff.mp h] at hlen
    exact absurd hlen (Nat.succ_ne_zero _).symm
  rw [columns_commaRow hl htitles hcells hne]
  rintro ⟨hcount, hfields⟩
  obtain ⟨x, hx⟩ := List.length_eq_one_iff.mp (show (node.splitOn ',').length = 1 by omega)
  have h := hfields _ hfield
  rw [hx, List.singleton_append, hcell] at h
  exact nameField_append_ne _ _ _ (Option.some.inj h)

/-! ## The four tracers -/

section Tracers

variable {ν : Type} [Ostream ν]

open Ostream

theorem comma_notMem_text (x : ν) : ',' ∉ text x := text_free x ',' (by decide)

namespace IncComputeTracer

variable {t : IncComputeTracer ν}

theorem printSum_eq (t : IncComputeTracer ν) : t.printSum =
    commaRow (t.node :: [text t.overallInterestReceived, text t.overallInterestSend,
      text t.overallDataReceived, text t.overallDataSend, text t.overallIntQueued,
      text t.overallNodeBusy, text t.overallIntForwarded, text t.overallFuncDisabled,
      text t.overallNfnFuncEnabled, nameField t.sendInterestsNames "; ",
      nameField t.sendInterestsNames "; " ++ nameField t.rcvInterestsNames "; ",
      nameField t.sendInterestsNames "; " ++ nameField t.rcvInterestsNames "; " ++
        nameField t.nodeBusyFuncNames "; ",
      nameField t.sendInterestsNames "; " ++ nameField t.rcvInterestsNames "; " ++
        nameField t.nodeBusyFuncNames "; " ++ nameField t.funcDisabledFuncNames "; ",
      nameField t.sendInterestsNames "; " ++ nameField t.rcvInterestsNames "; " ++
        nameField t.nodeBusyFuncNames "; " ++ nameField t.funcDisabledFuncNames "; " ++
        nameField t.nfnFuncEnabledFuncNames ";"]) ++ ['\n'] := by
  simp [printSum, Stringstream.empty, Stringstream.clear, str_insertNames]

/-- The lists of names are plain. -/
def Plain (t : IncComputeTracer ν) : Prop :=
  PlainNames t.sendInterestsNames ∧ PlainNames t.rcvInterestsNames ∧
    PlainNames t.nodeBusyFuncNames ∧ PlainNames t.funcDisabledFuncNames ∧
    PlainNames t.nfnFuncEnabledFuncNames

/-- The names received are written behind the names sent. -/
theorem not_keepsApart (h : t.Plain) : ¬ t.summary.KeepsApart := by
  obtain ⟨h₁, h₂, h₃, h₄, h₅⟩ := h
  have hsep : ',' ∉ "; ".toList := by decide
  have hone := comma_notMem_nameField h₁ hsep
  have htwo := comma_notMem_nameField h₂ hsep
  have hthree := comma_notMem_nameField h₃ hsep
  have hfour := comma_notMem_nameField h₄ hsep
  have hfive := comma_notMem_nameField h₅ (show ',' ∉ ";".toList by decide)
  rw [summary, printSum_eq, printHeader]
  exact not_keepsApart_of_append (by decide)
    (by simp [comma_notMem_text, hone, htwo, hthree, hfour, hfive]) (List.cons_ne_nil _ _) rfl
    (List.mem_cons_of_mem _ List.mem_cons_self) fun _ => rfl

end IncComputeTracer

namespace IncOrchestratorCommunicationTracer

variable {t : IncOrchestratorCommunicationTracer ν}

theorem printSum_eq (t : IncOrchestratorCommunicationTracer ν) : t.printSum =
    commaRow (t.node :: [text t.overallOrchestrationInterestSend,
      text t.overallOrchestrationDataReceived, text t.overallOrchestrationDecisionsSend,
      nameField t.interestsNames "; ",
      nameField t.interestsNames "; " ++ nameField t.orchestrationDecisions "; "]) ++ ['\n'] := by
  simp [printSum, Stringstream.empty, Stringstream.clear, str_insertNames]

def Plain (t : IncOrchestratorCommunicationTracer ν) : Prop :=
  PlainNames t.interestsNames ∧ PlainNames t.orchestrationDecisions

/-- The decisions are written behind the interests. -/
theorem not_keepsApart (h : t.Plain) : ¬ t.summary.KeepsApart := by
  obtain ⟨h₁, h₂⟩ := h
  have hsep : ',' ∉ "; ".toList := by decide
  have hone := comma_notMem_nameField h₁ hsep
  have htwo := comma_notMem_nameField h₂ hsep
  rw [summary, printSum_eq, printHeader]
  exact not_keepsApart_of_append (by decide) (by simp [comma_notMem_text, hone, htwo])
    (List.cons_ne_nil _ _) rfl (List.mem_cons_of_mem _ List.mem_cons_self) fun _ => rfl

end IncOrchestratorCommunicationTracer

namespace IncOrchestratorTracerNode

variable {t : IncOrchestratorTracerNode ν}

theorem printSum_eq (t : IncOrchestratorTracerNode ν) : t.printSum =
    commaRow (t.node :: [text t.enableFunctions, nameField t.enabledFunctionsNames "; ",
      text t.disableFunctions, nameField t.enabledFunctionsNames "; " ++
        nameField t.disabledFunctionsNames "; "]) ++ ['\n'] := by
  simp [printSum, Stringstream.empty, Stringstream.clear, str_insertNames]

def Plain (t : IncOrchestratorTracerNode ν) : Prop :=
  PlainNames t.enabledFunctionsNames ∧ PlainNames t.disabledFunctionsNames

/-- The disabled functions are written behind the enabled ones. -/
theorem not_keepsApart (h : t.Plain) : ¬ t.summary.KeepsApart := by
  obtain ⟨h₁, h₂⟩ := h
  have hsep : ',' ∉ "; ".toList := by decide
  have hone := comma_notMem_nameField h₁ hsep
  have htwo := comma_notMem_nameField h₂ hsep
  rw [summary, printSum_eq, printHeader]
  exact not_keepsApart_of_append (by decide) (by simp [comma_notMem_text, hone, htwo])
    (List.cons_ne_nil _ _) rfl (List.mem_cons_of_mem _ List.mem_cons_self) fun _ => rfl

end IncOrchestratorTracerNode

namespace IncComputeNodeTracer

variable {t : IncComputeNodeTracer ν}

theorem printSum_eq (t : IncComputeNodeTracer ν) : t.printSum =
    commaRow (t.node :: [text t.overallExecutions, text t.overallCPUUtilized,
      text t.overallRAMUtilized, text t.overallROMUtilized, text t.overallExecTime,
      nameField t.executedFuncNames "; "]) ++ ['\n'] := by
  simp [printSum, Stringstream.empty, str_insertNames]

def Plain (t : IncComputeNodeTracer ν) : Prop := PlainNames t.executedFuncNames

/-- No field is written under the last title, so that either there are too few fields, or the node
takes up two of them and a number stands under the title of the names. -/
theorem not_keepsApart (h : t.Plain) : ¬ t.summary.KeepsApart := by
  have hnames := comma_notMem_nameField h (show ',' ∉ "; ".toList by decide)
  rw [summary, printSum_eq, printHeader, columns_commaRow (by decide) (by decide)
    (by simp [comma_notMem_text, hnames]) (List.cons_ne_nil _ _)]
  rintro ⟨hlen, hfields⟩
  have hnode : (t.node.splitOn ',').length = 2 := by simpa using hlen
  obtain ⟨x, y, hnode⟩ := List.length_eq_two.mp hnode
  rw [hnode] at hfields
  have hfield : text t.overallExecTime = nameField t.executedFuncNames "; " :=
    Option.some.inj (hfields _ (List.mem_singleton_self _))
  have hfree := text_free t.overallExecTime '<' (by decide)
  rw [hfield] at hfree
  exact hfree List.mem_cons_self

end IncComputeNodeTracer

/-- **No tracer keeps its columns apart**, whatever its statistics are. -/
theorem summaries_not_apart {t₁ : IncComputeTracer ν} {t₂ : IncOrchestratorCommunicationTracer ν}
    {t₃ : IncOrchestratorTracerNode ν} {t₄ : IncComputeNodeTracer ν} (h₁ : t₁.Plain) (h₂ : t₂.Plain)
    (h₃ : t₃.Plain) (h₄ : t₄.Plain) :
    ¬ t₁.summary.KeepsApart ∧ ¬ t₂.summary.KeepsApart ∧ ¬ t₃.summary.KeepsApart ∧
      ¬ t₄.summary.KeepsApart :=
  ⟨t₁.not_keepsApart h₁, t₂.not_keepsApart h₂, t₃.not_keepsApart h₃, t₄.not_keepsApart h₄⟩

end Tracers

/-! ## One function enabled, one disabled -/

/-- Counters below a million are written as whole numbers. -/
@[reducible] def counterOstream : Ostream ℕ := ⟨Text.decimal, Text.free_decimal _ (by decide)⟩

def oneOfEach : IncOrchestratorTracerNode ℕ :=
  { node := "compute_node_1".toList, enableFunctions := 1
    enabledFunctionsNames := ["/f".toList], disableFunctions := 1
    disabledFunctionsNames := ["/g".toList] }

def oneInterest : IncComputeTracer ℕ :=
  { node := "compute_node_1".toList, overallInterestReceived := 0, overallInterestSend := 1
    overallDataReceived := 0, overallDataSend := 0, overallIntQueued := 0, overallNodeBusy := 0
    overallIntForwarded := 0, overallFuncDisabled := 0, overallNfnFuncEnabled := 0
    sendInterestsNames := ["/f".toList], rcvInterestsNames := [], nodeBusyFuncNames := []
    funcDisabledFuncNames := [], nfnFuncEnabledFuncNames := [] }

def oneDecision : IncOrchestratorCommunicationTracer ℕ :=
  { node := "orchestrator".toList, overallOrchestrationInterestSend := 0
    overallOrchestrationDataReceived := 0, overallOrchestrationDecisionsSend := 1
    interestsNames := [], orchestrationDecisions := ["/d".toList] }

def oneExecution : IncComputeNodeTracer ℕ :=
  { node := "compute_node_1".toList, overallExecutions := 1, overallCPUUtilized := 1
    overallRAMUtilized := 100, overallROMUtilized := 16, overallExecTime := 3
    executedFuncNames := ["/f".toList] }

theorem summaries_not_apart_one :
    ¬ (@IncComputeTracer.summary _ counterOstream oneInterest).KeepsApart ∧
      ¬ (@IncOrchestratorCommunicationTracer.summary _ counterOstream oneDecision).KeepsApart ∧
      ¬ (@IncOrchestratorTracerNode.summary _ counterOstream oneOfEach).KeepsApart ∧
      ¬ (@IncComputeNodeTracer.summary _ counterOstream oneExecution).KeepsApart :=
  @summaries_not_apart _ counterOstream _ _ _ _ (by unfold IncComputeTracer.Plain; decide)
    (by unfold IncOrchestratorCommunicationTracer.Plain; decide)
    (by unfold IncOrchestratorTracerNode.Plain; decide) (by unfold IncComputeNodeTracer.Plain; decide)

/-- `/f` stands under "Disabled Functions Names", too. -/
theorem printSum_oneOfEach :
    PlainNames oneOfEach.enabledFunctionsNames ∧
      PlainNames oneOfEach.disabledFunctionsNames ∧
      @IncOrchestratorTracerNode.printSum _ counterOstream oneOfEach =
        "compute_node_1,1,</f>,1,</f></g>\n".toList ∧
      ¬ (@IncOrchestratorTracerNode.summary _ counterOstream oneOfEach).KeepsApart := by
  have hplain : PlainNames oneOfEach.enabledFunctionsNames ∧
      PlainNames oneOfEach.disabledFunctionsNames := by decide
  exact ⟨hplain.1, hplain.2, rfl, @IncOrchestratorTracerNode.not_keepsApart _ counterOstream _ hplain⟩

end IncSim
