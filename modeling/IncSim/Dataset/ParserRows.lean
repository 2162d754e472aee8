import IncSim.Dataset.Parser

/-!
# The rows of a consumer

`update_consumer_info` collects the columns of all rows that name a consumer in vectors that are read
side by side. With enough columns in every row nothing is lost, and the vectors stay aligned.

* `requested`, `provided`: what rows add to a consumer when all their columns are there.
* `updateConsumerInfo_eq`: all consumers in closed form.
* `Gathered`: the vectors of a consumer hold the columns of its rows, in the order of the file.
* **`consumers_gathered`**: what the parser returns.
-/

namespace IncSim

open PartialRun

namespace ParserNodeInfo

open ConsumerNode

variable {lines : List Str} {row : Row} {rows : List Row} {n : ConsumerNode} {i : ℕ} {name : Str}

/-! ## What rows add -/

/-- Column `i` of a row that has it. -/
def col (i : ℕ) (row : Row) : Str := row.getD i []

def requestPrefix (row : Row) : Str := generateFuncFirstPrefix (col 1 row) (col 2 row)

def dataPrefix (row : Row) : Str := generateDataPrefix (col 1 row)

/-- The consumer after rows of the consumer section. -/
def requested (rows : List Row) (n : ConsumerNode) : ConsumerNode :=
  { n with
    functionPrefix := n.functionPrefix ++ rows.map requestPrefix
    requestFrequency := n.requestFrequency ++ rows.map (col 3)
    lifetime := n.lifetime ++ rows.map (col 4)
    startTime := n.startTime ++ rows.map (col 5)
    stopTime := n.stopTime ++ rows.map (col 6) }

/-- The consumer after rows of the initial data section. -/
def provided (rows : List Row) (n : ConsumerNode) : ConsumerNode :=
  { n with
    dataPrefixProvided := n.dataPrefixProvided ++ rows.map dataPrefix
    dataSize := n.dataSize ++ rows.map (col 2)
    freshness := n.freshness ++ rows.map (col 3) }

theorem column_eq (h : i < row.length) : column row i = .ok (col i row) := by
  unfold column col
  rw [List.getD_eq_getElem?_getD, List.getElem?_eq_getElem h]
  rfl

theorem addRequest_eq (h : 7 ≤ row.length) : addRequest row n = .ok (requested [row] n) := by
  unfold addRequest
  rw [column_eq (by omega : 1 < row.length), column_eq (by omega : 2 < row.length),
    column_eq (by omega : 3 < row.length), column_eq (by omega : 4 < row.length),
    column_eq (by omega : 5 < row.length), column_eq (by omega : 6 < row.length)]
  rfl

theorem addData_eq (h : 4 ≤ row.length) : addData row n = .ok (provided [row] n) := by
  unfold addData
  rw [column_eq (by omega : 1 < row.length), column_eq (by omega : 2 < row.length),
    column_eq (by omega : 3 < row.length)]
  rfl

theorem foldl_requested : rows.foldl (fun n row => requested [row] n) n = requested rows n := by
  induction rows generalizing n with
  | nil => simp [requested]
  | cons row rows ih =>
    rw [List.foldl_cons, ih]
    simp [requested]

theorem foldl_provided : rows.foldl (fun n row => provided [row] n) n = provided rows n := by
  induction rows generalizing n with
  | nil => simp [provided]
  | cons row rows ih =>
    rw [List.foldl_cons, ih]
    simp [provided]

/-! ## All rows -/

/-- The rows that name the consumer. -/
def naming (name : Str) (rows : List Row) : List Row := rows.filter (·.name = name)

theorem naming_eq_nil (h : name ∉ rows.map Row.name) : naming name rows = [] := by
  rw [naming, List.filter_eq_nil_iff]
  intro row hrow hname
  exact h (of_decide_eq_true hname ▸ List.mem_map_of_mem hrow)

/-- One section, when its rows have the columns that `add` reads. -/
theorem run_updateRow {add : Row → ConsumerNode → Except Fault ConsumerNode}
    {upd : Row → ConsumerNode → ConsumerNode} {names : List Str} {g : Str → ConsumerNode}
    (hadd : ∀ row ∈ rows, ∀ n, add row n = .ok (upd row n)) (hnames : names.Nodup)
    (hfresh : ∀ a ∉ names, g a = named a) (hname : ∀ a, (g a).name = a)
    (hupd : ∀ row n, (upd row n).name = n.name) :
    run (updateRow add) (names.map g) rows =
      .ok (((rows.map Row.name).foldl Grouping.noted names).map fun name =>
        (naming name rows).foldl (fun n row => upd row n) (g name)) :=
  Grouping.run_map hnames hname hupd hfresh hadd

/-- The consumer with everything that the file says about it. -/
def consumerOf (lines : List Str) (name : Str) : ConsumerNode :=
  provided (naming name (dataRows lines)) (requested (naming name (consumerRows lines)) (named name))

/-- **The consumers in closed form.** -/
theorem updateConsumerInfo_eq (hc : ∀ row ∈ consumerRows lines, 7 ≤ row.length)
    (hd : ∀ row ∈ dataRows lines, 4 ≤ row.length) :
    updateConsumerInfo lines =
      .ok ((Grouping.firsts (rowNames lines)).map (consumerOf lines)) := by
  have hrequests : run (updateRow addRequest) (([] : List Str).map named) (consumerRows lines) =
      .ok ((Grouping.firsts ((consumerRows lines).map Row.name)).map fun name =>
        requested (naming name (consumerRows lines)) (named name)) := by
    rw [run_updateRow (fun row hrow _ => addRequest_eq (hc row hrow)) List.nodup_nil
      (fun _ _ => rfl) (fun _ => rfl) fun _ _ => rfl]
    simp only [foldl_requested]
    rfl
  have hfresh : ∀ a ∉ Grouping.firsts ((consumerRows lines).map Row.name),
      requested (naming a (consumerRows lines)) (named a) = named a := by
    intro a ha
    rw [Grouping.mem_firsts] at ha
    rw [naming_eq_nil ha]
    rfl
  have hdata := run_updateRow (fun row hrow _ => addData_eq (hd row hrow)) (Grouping.nodup_firsts _)
    hfresh (fun _ => rfl) fun _ _ => rfl
  rw [List.map_nil] at hrequests
  rw [updateConsumerInfo, hrequests, ok_bind, hdata, rowNames, List.map_append, Grouping.firsts,
    Grouping.firsts, List.foldl_append]
  simp only [foldl_provided]
  rfl

/-! ## The vectors of a consumer -/

/-- The vectors hold the columns of the rows that name the consumer, in the order of the file. -/
structure Gathered (lines : List Str) (n : ConsumerNode) : Prop where
  functionPrefix : n.functionPrefix = (naming n.name (consumerRows lines)).map requestPrefix
  requestFrequency : n.requestFrequency = (naming n.name (consumerRows lines)).map (col 3)
  lifetime : n.lifetime = (naming n.name (consumerRows lines)).map (col 4)
  startTime : n.startTime = (naming n.name (consumerRows lines)).map (col 5)
  stopTime : n.stopTime = (naming n.name (consumerRows lines)).map (col 6)
  dataPrefixProvided : n.dataPrefixProvided = (naming n.name (dataRows lines)).map dataPrefix
  dataSize : n.dataSize = (naming n.name (dataRows lines)).map (col 2)
  freshness : n.freshness = (naming n.name (dataRows lines)).map (col 3)

/-- The vectors that are read side by side have equal lengths. -/
structure Aligned (n : ConsumerNode) : Prop where
  requestFrequency : n.requestFrequency.length = n.functionPrefix.length
  lifetime : n.lifetime.length = n.functionPrefix.length
  startTime : n.startTime.length = n.functionPrefix.length
  stopTime : n.stopTime.length = n.functionPrefix.length
  dataSize : n.dataSize.length = n.dataPrefixProvided.length
  freshness : n.freshness.length = n.dataPrefixProvided.length

theorem gathered_consumerOf (lines : List Str) (name : Str) : Gathered lines (consumerOf lines name) :=
  ⟨rfl, rfl, rfl, rfl, rfl, rfl, rfl, rfl⟩

theorem Gathered.aligned (h : Gathered lines n) : Aligned n := by
  constructor <;> simp [h.functionPrefix, h.requestFrequency, h.lifetime, h.startTime, h.stopTime,
    h.dataPrefixProvided, h.dataSize, h.freshness]

/-! ## The number of rows -/

/-- The lines of the consumer section. -/
def consumerLines (lines : List Str) : List Str :=
  (Sections.skipTo "consumer section".toList lines).takeWhile (· ≠ "initial data section".toList)

/-- The lines behind the title of the initial data section. -/
def dataLines (lines : List Str) : List Str := (consumerSection lines).rest

/-- Lines that are neither blank nor comments. -/
def numRows (ls : List Str) : ℕ := ls.countP (¬ Sections.Skipped ·)

theorem length_consumerRows (lines : List Str) :
    (consumerRows lines).length = numRows (consumerLines lines) := by
  have htitle : ∀ l ∈ ["initial data section".toList], ¬ Sections.Skipped l := by decide
  rw [consumerRows, consumerSection, List.length_map, Sections.rows_read htitle, numRows,
    List.countP_eq_length_filter, consumerLines]
  simp only [List.mem_singleton]

theorem length_dataRows (lines : List Str) : (dataRows lines).length = numRows (dataLines lines) := by
  have hall : ∀ l ∈ dataLines lines, decide (l ∉ ([] : List Str)) = true :=
    fun _ _ => decide_eq_true List.not_mem_nil
  rw [dataRows, List.length_map, Sections.rows_read (List.forall_mem_nil _), ← dataLines,
    List.takeWhile_eq_self_iff.mpr hall, numRows, List.countP_eq_length_filter]

end ParserNodeInfo

open ParserNodeInfo

/-- **The parser loses and mixes nothing.** The consumers have different names, each holds the columns
of its rows in the order of the file, and together they hold all rows of both sections. -/
theorem consumers_gathered (lines : List Str) (hc : ∀ row ∈ consumerRows lines, 7 ≤ row.length)
    (hd : ∀ row ∈ dataRows lines, 4 ≤ row.length) :
    ∃ v, updateConsumerInfo lines = .ok v ∧ (v.map ConsumerNode.name).Nodup ∧
      (∀ n ∈ v, Gathered lines n ∧ Aligned n) ∧
      (v.map fun n => n.functionPrefix.length).sum = numRows (consumerLines lines) ∧
      (v.map fun n => n.dataPrefixProvided.length).sum = numRows (dataLines lines) := by
  have hnames := Grouping.nodup_firsts (rowNames lines)
  have hmem : ∀ row ∈ consumerRows lines ++ dataRows lines,
      row.name ∈ Grouping.firsts (rowNames lines) :=
    fun row hrow => Grouping.mem_firsts.mpr (List.mem_map_of_mem hrow)
  refine ⟨_, updateConsumerInfo_eq hc hd, ?_, ?_, ?_, ?_⟩
  · have hid : ConsumerNode.name ∘ consumerOf lines = id := rfl
    rw [List.map_map, hid, List.map_id]
    exact hnames
  · intro n hn
    obtain ⟨name, -, rfl⟩ := List.mem_map.mp hn
    exact ⟨gathered_consumerOf lines name, (gathered_consumerOf lines name).aligned⟩
  · rw [← length_consumerRows, List.map_map, ← Grouping.sum_length_filter hnames fun row hrow =>
      hmem row (List.mem_append_left _ hrow)]
    refine congrArg List.sum (List.map_congr_left fun name _ => ?_)
    rw [Function.comp_apply, (gathered_consumerOf lines name).functionPrefix, List.length_map]
    rfl
  · rw [← length_dataRows, List.map_map, ← Grouping.sum_length_filter hnames fun row hrow =>
      hmem row (List.mem_append_right _ hrow)]
    refine congrArg List.sum (List.map_congr_left fun name _ => ?_)
    rw [Function.comp_apply, (gathered_consumerOf lines name).dataPrefixProvided, List.length_map]
    rfl

/-- Two consumers in turn, the second one only in the first section and a third only in the second. -/
def interleaved : List Str :=
  ["router", "consumer section", "# requests", "consumer_0\tf1\td1,d2\t1s\t4s\t0\t90",
    "consumer_1\tf2\td1,null\t2s\t4s\t5\t80", "", "consumer_0\tf2\td3\t3s\t2s\t1\t70",
    "initial data section", "consumer_2\td1\t1000\t5.0", "# more", "consumer_0\td2\t10\t0.1"].map
    String.toList

theorem consumers_gathered_interleaved :
    ∃ v, updateConsumerInfo interleaved = .ok v ∧ (v.map ConsumerNode.name).Nodup ∧
      (∀ n ∈ v, Gathered interleaved n ∧ Aligned n) ∧
      (v.map fun n => n.functionPrefix.length).sum = numRows (consumerLines interleaved) ∧
      (v.map fun n => n.dataPrefixProvided.length).sum = numRows (dataLines interleaved) :=
  consumers_gathered interleaved (by decide) (by decide)

end IncSim
