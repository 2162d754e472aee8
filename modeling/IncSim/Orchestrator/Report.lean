import IncSim.Node.Status
import IncSim.Orchestrator.Message

/-!
# Well-formed reports

What the report of a node consists of, and what its parts are read back as.

* `separators`, `FitsInt`: what a name may not contain, and the numbers that `std::stoi` reads.
* `functionText`, `dataText`: the text of one function and of a data list.
* `Reportable`: a node with such names and numbers; `reportTokens`: the tokens of its report.
* **`statusReport_eq`**, **`splitOn_report`**: a report is its tokens with `;` between them, and
  splits into them.
* `readNumber_decimal`, **`readFunction_functionText`**, **`mapM_readData`**: reading back.
-/

namespace IncSim

open PartialRun Text

/-- The separators of a report. -/
def separators : List Char := ['/', ':', ';', ',', '=']

/-- The separators that may not stand in a list of names with `,` between them. -/
def listSeparators : List Char := ['/', ':', ';', '=']

/-- The number is below `2 ^ 31`, as `std::stoi` needs it. -/
def FitsInt (x : UInt32) : Prop := x.toNat < 2147483648

instance (x : UInt32) : Decidable (FitsInt x) := Nat.decLt _ _

/-! ## Functions -/

/-- The fields of one function. -/
def functionFields (s : Str) (f : IncComputation) : List Str :=
  [s, flagText f.enableComputation, decimal f.execCounter.toNat, decimal f.missExecCounter.toNat,
    decimal f.cpu.toNat, decimal f.ram.toNat, decimal f.rom.toNat, decimal f.funcSize.toNat,
    f.inputList]

/-- The text of one function behind its slash. -/
def functionText (s : Str) (f : IncComputation) : Str := [':'].intercalate (functionFields s f)

/-- The function `/s` can be reported. -/
structure ReportableFunction (s : Str) (f : IncComputation) : Prop where
  name : Free separators s
  inputs : Free listSeparators f.inputList
  execCounter : FitsInt f.execCounter
  missExecCounter : FitsInt f.missExecCounter
  cpu : FitsInt f.cpu
  ram : FitsInt f.ram
  rom : FitsInt f.rom
  funcSize : FitsInt f.funcSize

theorem functionStatus_eq (s : Str) (f : IncComputation) :
    functionStatus ('/' :: s, some f) = .ok ('/' :: functionText s f) := by
  simp [functionStatus, functionText, functionFields, List.intercalate]

theorem free_flagText {seps : List Char} (hs : (seps.all fun c => !c.isDigit) = true) (b : Bool) :
    Free seps (flagText b) := by
  intro c hc h
  have hdigit : c.isDigit = true := by
    cases b with
    | false => rw [List.mem_singleton.mp h]; rfl
    | true => rw [List.mem_singleton.mp h]; rfl
  have hseps := List.all_eq_true.mp hs c hc
  rw [hdigit] at hseps
  cases hseps

theorem listSeparators_isDigit : (listSeparators.all fun c => !c.isDigit) = true := by decide

theorem listSeparators_subset : listSeparators ⊆ separators := by decide

namespace ReportableFunction

variable {s : Str} {f : IncComputation}

theorem fields_free (h : ReportableFunction s f) :
    ∀ v ∈ functionFields s f, Free listSeparators v := by
  simp only [functionFields, List.forall_mem_cons, List.not_mem_nil, false_imp_iff, implies_true,
    and_true]
  exact ⟨h.name.mono listSeparators_subset, free_flagText listSeparators_isDigit _,
    free_decimal _ listSeparators_isDigit _, free_decimal _ listSeparators_isDigit _,
    free_decimal _ listSeparators_isDigit _, free_decimal _ listSeparators_isDigit _,
    free_decimal _ listSeparators_isDigit _, free_decimal _ listSeparators_isDigit _, h.inputs⟩

theorem splitOn_functionText (h : ReportableFunction s f) :
    (functionText s f).splitOn ':' = functionFields s f :=
  List.splitOn_intercalate ':' (fun v hv => h.fields_free v hv ':' (by decide))
    (List.cons_ne_nil _ _)

theorem functionText_free (h : ReportableFunction s f) : Free ['/', ';', '='] (functionText s f) :=
  Free.intercalate (by decide) fun v hv => (h.fields_free v hv).mono (by decide)

end ReportableFunction

/-! ## Data lists -/

/-- One `name:size`. -/
def dataItem (d : Str × UInt32) : Str := d.1 ++ ':' :: decimal d.2.toNat

/-- The text of a data list. -/
def dataText (ds : List (Str × UInt32)) : Str :=
  if ds = [] then "null".toList else [','].intercalate (ds.map dataItem)

/-- The text lists the data `ds`. -/
structure ListsData (s : Str) (ds : List (Str × UInt32)) : Prop where
  text : s = dataText ds
  names : ∀ d ∈ ds, Free separators d.1
  sizes : ∀ d ∈ ds, FitsInt d.2

theorem dataItem_free {d : Str × UInt32} (h : Free separators d.1) :
    Free ['/', ';', ',', '='] (dataItem d) := by
  have hname : Free ['/', ';', ',', '='] d.1 := h.mono (by decide)
  exact hname.append_cons (by decide) (free_decimal _ (by decide) _)

namespace ListsData

variable {s : Str} {ds : List (Str × UInt32)}

theorem free (h : ListsData s ds) : Free ['/', ';', '='] s := by
  rw [h.text, dataText]
  split
  · decide
  · refine Free.intercalate (by decide) fun v hv => ?_
    obtain ⟨d, hd, rfl⟩ := List.mem_map.mp hv
    exact (dataItem_free (h.names d hd)).mono (by decide)

/-- A list with an item in it is not the text `null`. -/
theorem ne_null (h : ListsData s ds) (hds : ds ≠ []) : s ≠ "null".toList := by
  obtain ⟨d, ds, rfl⟩ := List.exists_cons_of_ne_nil hds
  have hcolon : ':' ∈ s := by
    rw [h.text, dataText, if_neg hds]
    cases ds <;> simp [List.intercalate, dataItem]
  intro hnull
  rw [hnull] at hcolon
  exact absurd hcolon (by decide)

theorem splitOn (h : ListsData s ds) (hds : ds ≠ []) : s.splitOn ',' = ds.map dataItem := by
  have hitems : ∀ v ∈ ds.map dataItem, ',' ∉ v := by
    intro v hv
    obtain ⟨d, hd, rfl⟩ := List.mem_map.mp hv
    exact dataItem_free (h.names d hd) ',' (by decide)
  rw [h.text, dataText, if_neg hds]
  exact List.splitOn_intercalate ',' hitems (by rwa [ne_eq, List.map_eq_nil_iff])

end ListsData

/-! ## Reports -/

/-- A node that can be reported: `fs` are the functions of its map in emission order, each key
without its slash, and `ds` the data it provides. -/
structure Reportable (n : ComputeNode) (fs : List (Str × IncComputation))
    (ds : List (Str × UInt32)) : Prop where
  funcMap : n.funcMap = fs.map fun p => ('/' :: p.1, some p.2)
  functions : ∀ p ∈ fs, ReportableFunction p.1 p.2
  data : ListsData n.providedData ds
  name : Free separators n.name
  links : Free listSeparators n.links
  runtimes : Free listSeparators n.supportedRuntimes
  processorCore : FitsInt n.processorCore
  ram : FitsInt n.ram
  rom : FitsInt n.rom
  nodeBusyCounter : FitsInt n.nodeBusyCounter

theorem StatusField.key_free (f : StatusField) : Free ['\x00', '/', ';'] f.key := by
  cases f <;> decide

/-- The value of the last token. -/
def functionsText (fs : List (Str × IncComputation)) : Str :=
  fs.flatMap fun p => '/' :: functionText p.1 p.2

/-- The tokens of a report. -/
def ComputeNode.reportTokens (n : ComputeNode) (fs : List (Str × IncComputation)) : List Str :=
  [StatusField.name.token ('/' :: n.name),
    StatusField.processorCore.token (decimal n.processorCore.toNat),
    "processor_type".toList ++ '=' :: decimal n.processorSpeed.toNat,
    StatusField.ram.token (decimal n.ram.toNat),
    StatusField.rom.token (decimal n.rom.toNat),
    StatusField.links.token n.links,
    StatusField.runtimes.token n.supportedRuntimes,
    StatusField.nodeBusyCounter.token (decimal n.nodeBusyCounter.toNat),
    StatusField.data.token n.providedData,
    StatusField.functions.token (functionsText fs)]

theorem functionsText_free {fs : List (Str × IncComputation)}
    (h : ∀ p ∈ fs, ReportableFunction p.1 p.2) : Free [';', '='] (functionsText fs) := by
  intro c hc hmem
  obtain ⟨p, hp, hmem⟩ := List.mem_flatMap.mp hmem
  rcases List.mem_cons.mp hmem with rfl | hmem
  · exact absurd hc (by decide)
  · exact (h p hp).functionText_free c (List.mem_cons_of_mem _ hc) hmem

theorem functionsText_eq (fs : List (Str × IncComputation)) :
    functionsText fs = (fs.map fun p => functionText p.1 p.2).flatMap fun v => '/' :: v :=
  (List.flatMap_map _ _ _).symm

theorem slash_not_mem_functionTexts {fs : List (Str × IncComputation)}
    (h : ∀ p ∈ fs, ReportableFunction p.1 p.2) :
    ∀ v ∈ fs.map fun p => functionText p.1 p.2, '/' ∉ v := by
  intro v hv
  obtain ⟨p, hp, rfl⟩ := List.mem_map.mp hv
  exact (h p hp).functionText_free '/' (by decide)

theorem splitFunctions_functionsText {fs : List (Str × IncComputation)}
    (h : ∀ p ∈ fs, ReportableFunction p.1 p.2) :
    splitFunctions (functionsText fs) = fs.map fun p => functionText p.1 p.2 := by
  rw [splitFunctions, functionsText_eq, splitOn_segments (slash_not_mem_functionTexts h),
    List.tail_cons]

namespace Reportable

variable {n : ComputeNode} {fs : List (Str × IncComputation)} {ds : List (Str × UInt32)}

theorem statusReport_eq (h : Reportable n fs ds) :
    n.statusReport = .ok ([';'].intercalate (n.reportTokens fs)) := by
  have hloop : n.funcMap.mapM functionStatus =
      .ok (fs.map fun p => '/' :: functionText p.1 p.2) := by
    rw [h.funcMap, List.mapM_map]
    exact mapM_eq_ok fun p _ => functionStatus_eq p.1 p.2
  have hflat : (fs.map fun p => '/' :: functionText p.1 p.2).flatten = functionsText fs := rfl
  simp only [ComputeNode.statusReport, hloop, hflat, bind, Except.bind, Except.ok.injEq]
  simp [ComputeNode.reportTokens, StatusField.token, StatusField.key, StatusField.text,
    List.intercalate]

theorem free_name (h : Reportable n fs ds) : Free [';', '='] ('/' :: n.name) :=
  (free_nil _).append_cons (by decide) (h.name.mono (by decide))

theorem free_links (h : Reportable n fs ds) : Free [';', '='] n.links := h.links.mono (by decide)

theorem free_runtimes (h : Reportable n fs ds) : Free [';', '='] n.supportedRuntimes :=
  h.runtimes.mono (by decide)

theorem free_data (h : Reportable n fs ds) : Free [';', '='] n.providedData :=
  h.data.free.mono (by decide)

theorem free_functions (h : Reportable n fs ds) : Free [';', '='] (functionsText fs) :=
  functionsText_free h.functions

/-- **The tokens of a report**, as the orchestrator splits them. -/
theorem splitOn_report (h : Reportable n fs ds) :
    ([';'].intercalate (n.reportTokens fs)).splitOn ';' = n.reportTokens fs := by
  have htoken : ∀ {k v : Str}, Free [';'] k → Free [';', '='] v → ';' ∉ k ++ '=' :: v :=
    fun hk hv => hk.append_cons (by decide) (hv.mono (by decide)) ';' List.mem_cons_self
  have hkey : ∀ f : StatusField, Free [';'] f.key := fun f => f.key_free.mono (by decide)
  have hdec : ∀ x, Free [';', '='] (decimal x) := free_decimal _ (by decide)
  refine List.splitOn_intercalate ';' ?_ (List.cons_ne_nil _ _)
  simp only [ComputeNode.reportTokens, List.forall_mem_cons, List.not_mem_nil, false_imp_iff,
    implies_true, and_true]
  exact ⟨htoken (hkey _) h.free_name, htoken (hkey _) (hdec _), htoken (by decide) (hdec _),
    htoken (hkey _) (hdec _), htoken (hkey _) (hdec _), htoken (hkey _) h.free_links,
    htoken (hkey _) h.free_runtimes, htoken (hkey _) (hdec _), htoken (hkey _) h.free_data,
    htoken (hkey _) h.free_functions⟩

end Reportable

/-! ## Reading back -/

theorem readNumber_decimal {x : UInt32} (h : FitsInt x) : readNumber (decimal x.toNat) = .ok x := by
  have hmod : ((x.toNat : ℤ) % 2 ^ 32).toNat = x.toNat := by
    have := x.toNat_lt
    omega
  simp only [readNumber, stoi_decimal h, UInt32.ofInt, hmod, UInt32.ofNat_toNat]

theorem flagText_eq_one (b : Bool) : decide (flagText b = ['1']) = b := by cases b <;> rfl

variable [NdnCxx]

/-- The record of a function in the table, as its report describes it. -/
def FunctionInfo.ofReport (s : Str) (f : IncComputation) : FunctionInfo :=
  { funcName := NdnCxx.ofUri ('/' :: s), funcExeCounter := f.execCounter
    funcInterestCounter := f.missExecCounter, cores := f.cpu, ram := f.ram, rom := f.rom
    sizeBytes := f.funcSize, status := f.enableComputation
    inputDataList := if f.inputList = "null".toList then [] else f.inputList.splitOn ',' }

/-- The record of a data item in the table. -/
def DataInfo.ofReport (d : Str × UInt32) : DataInfo :=
  { dataName := NdnCxx.ofUri d.1, sizeBytes := d.2 }

/-- **Reading a function back.** -/
theorem readFunction_functionText {s : Str} {f : IncComputation} (h : ReportableFunction s f) :
    readFunction (functionText s f) = .ok (.ofReport s f) := by
  simp only [readFunction, h.splitOn_functionText]
  simp only [functionFields, field, List.getElem?_cons_zero, List.getElem?_cons_succ, bind,
    Except.bind, readNumber_decimal h.execCounter, readNumber_decimal h.missExecCounter,
    readNumber_decimal h.cpu, readNumber_decimal h.ram, readNumber_decimal h.rom,
    readNumber_decimal h.funcSize, flagText_eq_one]
  rfl

/-- **Reading a data list back.** -/
theorem mapM_readData {s : Str} {ds : List (Str × UInt32)} (h : ListsData s ds) (hds : ds ≠ []) :
    (s.splitOn ',').mapM readData = .ok (ds.map .ofReport) := by
  rw [h.splitOn hds, List.mapM_map]
  refine mapM_eq_ok fun d hd => ?_
  have hname : ':' ∉ d.1 := h.names d hd ':' (by decide)
  have hdec : ':' ∉ decimal d.2.toNat := not_mem_decimal (by decide) _
  show readData (dataItem d) = .ok (.ofReport d)
  simp only [readData, dataItem, splitOn_pair hname hdec, field, List.getElem?_cons_zero,
    List.getElem?_cons_succ, bind, Except.bind, readNumber_decimal (h.sizes d hd)]
  rfl

end IncSim
