import IncSim.Node.ComputeNode

/-!
# The interest resolution engine

`NfnInterestResolutionEngine`: reading a compute interest and deciding what to do with it.

* `ContentStore`: the answers of the local content store, one for each lookup.
* `extractFunctionName`, `extractDataNames`, `getFetchDecisions`.
-/

namespace IncSim

/-- The content store during one resolution: whether the `j`-th lookup, for the given name, hits. -/
abbrev ContentStore := ℕ → Name → Bool

/-- `NRE_Decision`. -/
inductive NREDecision
  | nack
  | fetch
  | execute
  | forward
  deriving DecidableEq

def lambdaComp : Str := "lambda".toList
def functionComp : Str := "Function".toList
def dataComp : Str := "Data".toList

/-- The loop of `ExtractFunctionName` over the components that are left. -/
def extractFunctionComp : List Str → Option Str
  | c :: c' :: l => if c = functionComp then some c' else extractFunctionComp (c' :: l)
  | _ => none

/-- `ExtractFunctionName`: the component after the first `/Function` that has one. -/
def extractFunctionName (interest : Name) : Option Name :=
  (extractFunctionComp interest.comps).map fun c => ⟨[c]⟩

/-- The loop of `ExtractDataNames`, with its flag `isData`. -/
def extractDataLoop : Bool → List Str → List Name
  | _, [] => []
  | isData, c :: l =>
    if c = lambdaComp then extractDataLoop isData l
    else if c = dataComp then extractDataLoop true l
    else if c = functionComp then extractDataLoop false l
    else if isData then
      if Str.contains (Name.toUri ⟨[c]⟩) "/%FE".toList then [] else ⟨[c]⟩ :: extractDataLoop isData l
    else extractDataLoop isData l

/-- `ExtractDataNames`. -/
def extractDataNames (interest : Name) : List Name := extractDataLoop false interest.comps

/-- `Name("/Data").append (param)`. -/
def dataName (param : Name) : Name := Name.append ⟨[dataComp]⟩ param

/-- `Name("/Function").append (func_name)`. -/
def functionName (func : Name) : Name := Name.append ⟨[functionComp]⟩ func

/-- The names that the content-store loop adds to the fetch decisions, from lookup `j` on. -/
def missingData (cs : ContentStore) : ℕ → List Name → List Name
  | _, [] => []
  | j, p :: ps =>
    if cs j (dataName p) then missingData cs (j + 1) ps
    else dataName p :: missingData cs (j + 1) ps

/-- `GetFetchDecisions`: the node afterwards, the decision and the names to fetch. -/
def getFetchDecisions (cs : ContentStore) (interest : Name) (n : ComputeNode) :
    Except Fault (ComputeNode × NREDecision × List Name) :=
  if interest.size < 2 then .ok (n, .nack, [])
  else
    match extractFunctionName interest with
    | none => .error .nullPointer
    | some funcName =>
      let parameterList := extractDataNames interest
      let (n, func) := n.getFunction funcName.toUri
      match func with
      | none => .ok (n, .nack, [])
      | some k => do
        let f ← n.deref (some k)
        let fetchFunc := if f.enableComputation then [] else [functionName funcName]
        if parameterList.length ≠ f.paramNumber.toNat then
          .ok (n, .nack, fetchFunc)
        else
          let missing := missingData cs 0 parameterList
          let fetch := fetchFunc ++ missing
          if (!f.enableComputation && missing.length == parameterList.length) ||
              n.checkExcludeList funcName.toUri then
            .ok (n.update k IncComputation.addMissExecCounter, .forward, fetch)
          else if f.enableComputation && missing.length == 0 then .ok (n, .execute, fetch)
          else .ok (n, .fetch, fetch)

end IncSim
