import IncSim.Dataset.Hierarchy
import IncSim.Lib.Grouping
import IncSim.Lib.Sections
import IncSim.Node.ComputeNode

/-!
# The parser of consumers

`parserNodeInfo`: the requests and the data of the consumers, read from a topology file that is given
as its lines. A fresh parser holds no consumers.

* `generateFuncFirstPrefix`, `generateDataPrefix`: names from the columns of a row.
* `ConsumerNode`, `addRequest`, `addData`: a consumer and what a row adds to it.
* `updateConsumerInfo`; `map_name_updateConsumerInfo`: whom it returns, and in which order.
* `Collected`: everything that is returned for a consumer stands in a row that names it.
-/

namespace IncSim

open PartialRun

/-! ## Names -/

/-- The loop of `generate_func_first_prefix` over the inputs. -/
def appendInputs : Bool → Str → List Str → Str
  | _, funcPrefix, [] => funcPrefix
  | first, funcPrefix, input :: l =>
    if input = "null".toList then funcPrefix
    else
      let funcPrefix := if first then funcPrefix ++ "/Data".toList else funcPrefix
      appendInputs false (funcPrefix ++ '/' :: input) l

def generateFuncFirstPrefix (funcName inputsList : Str) : Str :=
  appendInputs true ("/lambda/Function/".toList ++ funcName) (inputsList.splitOn ',')

def generateDataPrefix (dataName : Str) : Str := "/Data/".toList ++ dataName

/-! ## Consumers -/

/-- `consumer_node_struct`. -/
structure ConsumerNode where
  name : Str
  functionPrefix : List Str
  dataPrefixProvided : List Str
  requestFrequency : List Str
  startTime : List Str
  stopTime : List Str
  lifetime : List Str
  dataSize : List Str
  freshness : List Str

namespace ConsumerNode

/-- A new element of the vector. -/
def named (name : Str) : ConsumerNode := ⟨name, [], [], [], [], [], [], [], []⟩

/-- `row_info.at (i)`. -/
def column (row : Row) (i : ℕ) : Except Fault Str :=
  match row[i]? with
  | some c => .ok c
  | none => .error .outOfRange

/-- A row of the consumer section. -/
def addRequest (row : Row) (n : ConsumerNode) : Except Fault ConsumerNode := do
  let functionName ← column row 1
  let inputArguments ← column row 2
  let frequency ← column row 3
  let lifetime ← column row 4
  let start ← column row 5
  let stop ← column row 6
  pure { n with
    functionPrefix := n.functionPrefix ++ [generateFuncFirstPrefix functionName inputArguments]
    requestFrequency := n.requestFrequency ++ [frequency]
    lifetime := n.lifetime ++ [lifetime]
    startTime := n.startTime ++ [start]
    stopTime := n.stopTime ++ [stop] }

/-- A row of the initial data section. -/
def addData (row : Row) (n : ConsumerNode) : Except Fault ConsumerNode := do
  let dataName ← column row 1
  let size ← column row 2
  let freshness ← column row 3
  pure { n with
    dataPrefixProvided := n.dataPrefixProvided ++ [generateDataPrefix dataName]
    dataSize := n.dataSize ++ [size]
    freshness := n.freshness ++ [freshness] }

end ConsumerNode

/-! ## The file -/

namespace ParserNodeInfo

open ConsumerNode

def parseRow (line : Str) : Row := line.splitOn '\t'

/-- The consumer section, up to the title of the next one. -/
def consumerSection (lines : List Str) : Sections.Part :=
  Sections.read ["initial data section".toList] (Sections.skipTo "consumer section".toList lines)

def consumerRows (lines : List Str) : List Row := (consumerSection lines).rows.map parseRow

/-- The rows behind that title, to the end of the file. -/
def dataRows (lines : List Str) : List Row :=
  (Sections.read [] (consumerSection lines).rest).rows.map parseRow

/-- The search for the consumer that a row names; `add` is what the row adds to it. -/
def updateRow (add : Row → ConsumerNode → Except Fault ConsumerNode) (nodes : List ConsumerNode)
    (row : Row) : Except Fault (List ConsumerNode) :=
  Grouping.insert ConsumerNode.name named (add row) row.name nodes

/-- `update_consumer_info`; its argument is not used. -/
def updateConsumerInfo (lines : List Str) : Except Fault (List ConsumerNode) := do
  let nodes ← run (updateRow addRequest) [] (consumerRows lines)
  run (updateRow addData) nodes (dataRows lines)

/-! ## What the parser returns -/

/-- The consumers that the rows name, in the order of the file. -/
def rowNames (lines : List Str) : List Str := (consumerRows lines ++ dataRows lines).map Row.name

variable {lines : List Str} {v : List ConsumerNode} {row : Row} {n n' : ConsumerNode} {c : Str} {i : ℕ}

theorem column_ok (h : column row i = .ok c) : row[i]? = some c := by
  unfold column at h
  split at h
  · next hc =>
    cases h
    exact hc
  · cases h

/-- What a row of the consumer section adds. -/
theorem addRequest_ok (h : addRequest row n = .ok n') :
    n'.name = n.name ∧ n'.dataPrefixProvided = n.dataPrefixProvided ∧
      n'.functionPrefix = n.functionPrefix ++
        [generateFuncFirstPrefix (row.getD 1 []) (row.getD 2 [])] := by
  obtain ⟨f, hf, h⟩ := bind_eq_ok.mp h
  obtain ⟨inputs, hinputs, h⟩ := bind_eq_ok.mp h
  obtain ⟨_, -, h⟩ := bind_eq_ok.mp h
  obtain ⟨_, -, h⟩ := bind_eq_ok.mp h
  obtain ⟨_, -, h⟩ := bind_eq_ok.mp h
  obtain ⟨_, -, h⟩ := bind_eq_ok.mp h
  cases h
  refine ⟨rfl, rfl, ?_⟩
  rw [List.getD_eq_getElem?_getD, List.getD_eq_getElem?_getD, column_ok hf, column_ok hinputs]
  rfl

/-- What a row of the initial data section adds. -/
theorem addData_ok (h : addData row n = .ok n') :
    n'.name = n.name ∧ n'.functionPrefix = n.functionPrefix ∧
      n'.dataPrefixProvided = n.dataPrefixProvided ++ [generateDataPrefix (row.getD 1 [])] := by
  obtain ⟨d, hd, h⟩ := bind_eq_ok.mp h
  obtain ⟨_, -, h⟩ := bind_eq_ok.mp h
  obtain ⟨_, -, h⟩ := bind_eq_ok.mp h
  cases h
  refine ⟨rfl, rfl, ?_⟩
  rw [List.getD_eq_getElem?_getD, column_ok hd]
  rfl

/-- **The consumers come in the order in which rows first name them.** -/
theorem map_name_updateConsumerInfo (h : updateConsumerInfo lines = .ok v) :
    v.map ConsumerNode.name = Grouping.firsts (rowNames lines) := by
  obtain ⟨nodes, hnodes, h⟩ := bind_eq_ok.mp h
  have h₁ := Grouping.map_key_run (fun _ => rfl) (fun _ _ _ hr => (addRequest_ok hr).1) hnodes
  have h₂ := Grouping.map_key_run (fun _ => rfl) (fun _ _ _ hr => (addData_ok hr).1) h
  rw [h₂, h₁, Grouping.firsts, rowNames, List.map_append, List.foldl_append]
  rfl

/-- The prefixes of the consumer stand in rows that name it. -/
structure Collected (lines : List Str) (n : ConsumerNode) : Prop where
  requests : ∀ p ∈ n.functionPrefix, ∃ row ∈ consumerRows lines, row.name = n.name ∧
    p = generateFuncFirstPrefix (row.getD 1 []) (row.getD 2 [])
  data : ∀ p ∈ n.dataPrefixProvided, ∃ row ∈ dataRows lines, row.name = n.name ∧
    p = generateDataPrefix (row.getD 1 [])

theorem Collected.named (name : Str) : Collected lines (ConsumerNode.named name) :=
  ⟨List.forall_mem_nil _, List.forall_mem_nil _⟩

theorem Collected.addRequest (hn : Collected lines n) (hrow : row ∈ consumerRows lines)
    (hname : n.name = row.name) (h : addRequest row n = .ok n') : Collected lines n' := by
  obtain ⟨hn', hdata, hrequests⟩ := addRequest_ok h
  refine ⟨fun p hp => ?_, ?_⟩
  · rw [hn']
    rcases List.mem_append.mp (hrequests ▸ hp) with hp | hp
    · exact hn.requests p hp
    · exact ⟨row, hrow, hname.symm, List.mem_singleton.mp hp⟩
  · rw [hn', hdata]
    exact hn.data

theorem Collected.addData (hn : Collected lines n) (hrow : row ∈ dataRows lines)
    (hname : n.name = row.name) (h : addData row n = .ok n') : Collected lines n' := by
  obtain ⟨hn', hrequests, hdata⟩ := addData_ok h
  refine ⟨?_, fun p hp => ?_⟩
  · rw [hn', hrequests]
    exact hn.requests
  · rw [hn']
    rcases List.mem_append.mp (hdata ▸ hp) with hp | hp
    · exact hn.data p hp
    · exact ⟨row, hrow, hname.symm, List.mem_singleton.mp hp⟩

/-- **Nothing is returned for a consumer that no row gives to it.** -/
theorem collected_of_updateConsumerInfo (h : updateConsumerInfo lines = .ok v) :
    ∀ n ∈ v, Collected lines n := by
  obtain ⟨nodes, hnodes, h⟩ := bind_eq_ok.mp h
  have h₁ : ∀ n ∈ nodes, Collected lines n :=
    Grouping.forall_run Collected.named (fun _ => rfl)
      (fun row hrow n n' hn hname hadd => hn.addRequest hrow hname hadd) (List.forall_mem_nil _) hnodes
  exact Grouping.forall_run Collected.named (fun _ => rfl)
    (fun row hrow n n' hn hname hadd => hn.addData hrow hname hadd) h₁ h

end ParserNodeInfo

end IncSim
