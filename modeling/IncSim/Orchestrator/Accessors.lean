import IncSim.Lib.Slot
import IncSim.Orchestrator.Storage

/-!
# The accessors of the node table

The getters of `OrchestratorNodeInfoStorage`, and what they have to do with the setters.

* `getNode`, `getFunc` and their members: the getters.
* `NodeField`, `FuncField`: the pairs of a getter and a setter, with the slot of the entry that each
  pair is about.
* `StoreLaws`: what a setter owes its getter; **`storeLaws_put_iff`**: writing the slot, and nothing
  else.
* `NodeField.Fits`, `FuncField.Fits`: where the setters of the CPU, of the two counters and of the
  inputs happen to do it.
* **`store_laws_iff`**: for every pair, when the laws hold.
-/

namespace IncSim

open PartialRun

/-! ## The getters -/

namespace Table

variable {α : Type} (t : Table) (nodeID : Str)

/-- What the getters of a node share: the half that the flag selects. -/
def getNode (unknown : Except Fault α) (p : NodeInfo → α × α) (defaultvalue : Bool) : Except Fault α :=
  match t.find? nodeID with
  | none => unknown
  | some e => .ok (if defaultvalue then (p e).1 else (p e).2)

def getNodeRAM : Bool → Except Fault UInt32 := getNode t nodeID (.ok 0) NodeInfo.ram

def getNodeROM : Bool → Except Fault UInt32 := getNode t nodeID (.ok 0) NodeInfo.rom

def getNodeBusyCounter : Bool → Except Fault UInt32 :=
  getNode t nodeID (.ok 0) NodeInfo.nodeBusyCounter

def getNodeCPU : Bool → Except Fault UInt32 := getNode t nodeID (.ok 0) NodeInfo.cpu

/-- `getNodeLinks` returns nothing for an unknown node. -/
def getNodeLinks : Bool → Except Fault (List Str) :=
  getNode t nodeID (.error .noReturn) NodeInfo.links

/-- `getNodeRuntimes` returns nothing for an unknown node. -/
def getNodeRuntimes : Bool → Except Fault (List Str) :=
  getNode t nodeID (.error .noReturn) NodeInfo.runtimesSupported

variable (index : ℕ)

/-- What the getters of a function share: `at (index)` throws outside the list. -/
def getFunc (unknown : Except Fault α) (p : FunctionInfo → α) (defaultvalue : Bool) : Except Fault α :=
  match t.find? nodeID with
  | none => unknown
  | some e =>
    match (e.functions defaultvalue)[index]? with
    | none => .error .outOfRange
    | some f => .ok (p f)

/-- `getFuncName` makes a name of a null pointer for an unknown node. -/
def getFuncName : Bool → Except Fault Name :=
  getFunc t nodeID index (.error .nullPointer) FunctionInfo.funcName

def getFuncExeCounter : Bool → Except Fault UInt32 :=
  getFunc t nodeID index (.ok 0) FunctionInfo.funcExeCounter

def getFuncInterestCounter : Bool → Except Fault UInt32 :=
  getFunc t nodeID index (.ok 0) FunctionInfo.funcInterestCounter

/-! The other getters return nothing for an unknown node. -/

def getFuncStatus : Bool → Except Fault Bool :=
  getFunc t nodeID index (.error .noReturn) FunctionInfo.status

def getFuncCpu : Bool → Except Fault UInt32 :=
  getFunc t nodeID index (.error .noReturn) FunctionInfo.cores

def getFuncRam : Bool → Except Fault UInt32 :=
  getFunc t nodeID index (.error .noReturn) FunctionInfo.ram

def getFuncRom : Bool → Except Fault UInt32 :=
  getFunc t nodeID index (.error .noReturn) FunctionInfo.rom

def getFuncSize : Bool → Except Fault UInt32 :=
  getFunc t nodeID index (.error .noReturn) FunctionInfo.sizeBytes

def getFuncInputs : Bool → Except Fault (List Str) :=
  getFunc t nodeID index (.error .noReturn) FunctionInfo.inputDataList

end Table

/-! ## The pairs -/

/-- The pairs for a node, each with the type of its values. -/
inductive NodeField : Type → Type
  | ram : NodeField UInt32
  | rom : NodeField UInt32
  | cpu : NodeField UInt32
  | busyCounter : NodeField UInt32
  | links : NodeField (List Str)
  | runtimes : NodeField (List Str)

/-- The pairs for a function of a node. -/
inductive FuncField : Type → Type
  | name : FuncField Name
  | exeCounter : FuncField UInt32
  | interestCounter : FuncField UInt32
  | status : FuncField Bool
  | cpu : FuncField UInt32
  | ram : FuncField UInt32
  | rom : FuncField UInt32
  | size : FuncField UInt32
  | inputs : FuncField (List Str)

namespace NodeField

variable {α : Type}

def setter : NodeField α → Table → Str → α → Bool → Table × Bool
  | ram => Table.setNodeRAM
  | rom => Table.setNodeROM
  | cpu => Table.setNodeCPU
  | busyCounter => Table.setNodeBusyCounter
  | links => Table.setNodeLinks
  | runtimes => Table.setNodeRuntimes

def getter : NodeField α → Table → Str → Bool → Except Fault α
  | ram => Table.getNodeRAM
  | rom => Table.getNodeROM
  | cpu => Table.getNodeCPU
  | busyCounter => Table.getNodeBusyCounter
  | links => Table.getNodeLinks
  | runtimes => Table.getNodeRuntimes

/-- The two values of a field. -/
def pair : NodeField α → Slot NodeInfo (α × α)
  | ram => .field NodeInfo.ram (fun p e => { e with ram := p }) (fun _ _ => rfl) (fun _ => rfl)
      fun _ _ _ => rfl
  | rom => .field NodeInfo.rom (fun p e => { e with rom := p }) (fun _ _ => rfl) (fun _ => rfl)
      fun _ _ _ => rfl
  | cpu => .field NodeInfo.cpu (fun p e => { e with cpu := p }) (fun _ _ => rfl) (fun _ => rfl)
      fun _ _ _ => rfl
  | busyCounter => .field NodeInfo.nodeBusyCounter (fun p e => { e with nodeBusyCounter := p })
      (fun _ _ => rfl) (fun _ => rfl) fun _ _ _ => rfl
  | links => .field NodeInfo.links (fun p e => { e with links := p }) (fun _ _ => rfl)
      (fun _ => rfl) fun _ _ _ => rfl
  | runtimes => .field NodeInfo.runtimesSupported (fun p e => { e with runtimesSupported := p })
      (fun _ _ => rfl) (fun _ => rfl) fun _ _ _ => rfl

/-- The value that the flag selects. -/
def slot (f : NodeField α) (defaultvalue : Bool) : Slot NodeInfo α :=
  f.pair.comp (.half defaultvalue)

/-- The entry that the setter leaves. -/
def write : NodeField α → Bool → α → NodeInfo → NodeInfo
  | cpu, false, v, e => { e with ram := (e.ram.1, v) }
  | f, defaultvalue, v, e => (f.slot defaultvalue).set v e

/-- The setter writes its slot: that of the current CPU does so only when the value is there
already, and in the current RAM as well. -/
def Fits : NodeField α → Bool → α → NodeInfo → Prop
  | cpu, false, v, e => e.cpu.2 = v ∧ e.ram.2 = v
  | _, _, _, _ => True

end NodeField

namespace FuncField

variable {α : Type}

def setter : FuncField α → Table → Str → ℕ → α → Bool → Except Fault (Table × Bool)
  | name => Table.setFuncName
  | exeCounter => Table.setFuncExeCounter
  | interestCounter => Table.setFuncInterestCounter
  | status => Table.setFuncStatus
  | cpu => Table.setFuncCpu
  | ram => Table.setFuncRam
  | rom => Table.setFuncRom
  | size => Table.setFuncSize
  | inputs => Table.setFuncInputs

def getter : FuncField α → Table → Str → ℕ → Bool → Except Fault α
  | name => Table.getFuncName
  | exeCounter => Table.getFuncExeCounter
  | interestCounter => Table.getFuncInterestCounter
  | status => Table.getFuncStatus
  | cpu => Table.getFuncCpu
  | ram => Table.getFuncRam
  | rom => Table.getFuncRom
  | size => Table.getFuncSize
  | inputs => Table.getFuncInputs

/-- The field of a record. -/
def record : FuncField α → Slot FunctionInfo α
  | name => .field FunctionInfo.funcName (fun v f => { f with funcName := v }) (fun _ _ => rfl)
      (fun _ => rfl) fun _ _ _ => rfl
  | exeCounter => .field FunctionInfo.funcExeCounter (fun v f => { f with funcExeCounter := v })
      (fun _ _ => rfl) (fun _ => rfl) fun _ _ _ => rfl
  | interestCounter => .field FunctionInfo.funcInterestCounter
      (fun v f => { f with funcInterestCounter := v }) (fun _ _ => rfl) (fun _ => rfl)
      fun _ _ _ => rfl
  | status => .field FunctionInfo.status (fun v f => { f with status := v }) (fun _ _ => rfl)
      (fun _ => rfl) fun _ _ _ => rfl
  | cpu => .field FunctionInfo.cores (fun v f => { f with cores := v }) (fun _ _ => rfl)
      (fun _ => rfl) fun _ _ _ => rfl
  | ram => .field FunctionInfo.ram (fun v f => { f with ram := v }) (fun _ _ => rfl) (fun _ => rfl)
      fun _ _ _ => rfl
  | rom => .field FunctionInfo.rom (fun v f => { f with rom := v }) (fun _ _ => rfl) (fun _ => rfl)
      fun _ _ _ => rfl
  | size => .field FunctionInfo.sizeBytes (fun v f => { f with sizeBytes := v }) (fun _ _ => rfl)
      (fun _ => rfl) fun _ _ _ => rfl
  | inputs => .field FunctionInfo.inputDataList (fun v f => { f with inputDataList := v })
      (fun _ _ => rfl) (fun _ => rfl) fun _ _ _ => rfl

end FuncField

/-- The function list that the flag selects. -/
def NodeInfo.functionsSlot (defaultvalue : Bool) : Slot NodeInfo (List FunctionInfo) :=
  .field (fun e => e.functions defaultvalue)
    (fun l e => if defaultvalue then { e with functionsInitial := l }
      else { e with functionsCurrent := l })
    (by cases defaultvalue <;> exact fun _ _ => rfl) (by cases defaultvalue <;> exact fun _ => rfl)
    (by cases defaultvalue <;> exact fun _ _ _ => rfl)

/-- The field of the function with the index, in the list that the flag selects. -/
def FuncField.slot {α : Type} (f : FuncField α) (index : ℕ) (defaultvalue : Bool) :
    Slot NodeInfo α :=
  ((NodeInfo.functionsSlot defaultvalue).comp (.nth index)).comp f.record

/-- The value that the setter stores, for a record as it is before. -/
def FuncField.stored {α : Type} : FuncField α → Bool → α → FunctionInfo → α
  | .exeCounter, true, _, _ => 0
  | .interestCounter, true, _, _ => 0
  | .inputs, _, v, r => r.inputDataList ++ v
  | _, _, v, _ => v

/-- The setter stores its value: those of the two counters store zero as a bootstrap value, and that
of the inputs appends to the old ones. -/
def FuncField.Fits {α : Type} : FuncField α → Bool → α → FunctionInfo → Prop
  | .exeCounter, true, v, _ => v = 0
  | .interestCounter, true, v, _ => v = 0
  | .inputs, _, _, r => r.inputDataList = []
  | _, _, _, _ => True

/-! ## The laws -/

section Laws

variable {α : Type} {t : Table} {K : Str} {e e' : NodeInfo} {r : FunctionInfo} {i : ℕ} {v : α}
  {defaultvalue : Bool}

/-- What a setter owes its getter, for a slot of the entry of `K`: after it returns true the getter
returns the value set, the slot apart the entry is as it was, and so are the entries of all other
nodes; when it returns false the table is as it was. -/
def StoreLaws (l : Slot NodeInfo α) (getter : Table → Except Fault α) (t : Table) (K : Str) (v : α) :
    Except Fault (Table × Bool) → Prop
  | .error _ => False
  | .ok (t', true) => getter t' = .ok v ∧ (∀ K', K' ≠ K → t'.find? K' = t.find? K') ∧
      ∃ e e', t.find? K = some e ∧ t'.find? K = some e' ∧ l.Elsewhere e' e
  | .ok (t', false) => t' = t

/-- **The laws hold** for a setter that writes the slot, and for no other. -/
theorem storeLaws_put_iff {l : Slot NodeInfo α} {getter : Table → Except Fault α}
    (he : t.find? K = some e) (hl : (l.get e).isSome)
    (hget : ∀ t' e', t'.find? K = some e' → (getter t' = .ok v ↔ l.get e' = some v)) :
    StoreLaws l getter t K v (.ok (t.put K e', true)) ↔ e' = l.set v e := by
  have he' : (t.put K e').find? K = some e' := OrdMap.find?_put_self he
  rw [Slot.eq_set_iff hl, ← hget _ _ he']
  constructor
  · rintro ⟨hg, -, e₁, e₂, h₁, h₂, helse⟩
    cases he.symm.trans h₁
    cases he'.symm.trans h₂
    exact ⟨hg, helse⟩
  · rintro ⟨hg, helse⟩
    refine ⟨hg, fun K' hK' => ?_, e, e', he, he', helse⟩
    rw [OrdMap.find?_put, if_neg hK']

theorem setNode_of_find? (he : t.find? K = some e) (g : NodeInfo → NodeInfo) :
    t.setNode K g = (t.put K (g e), true) := by
  rw [Table.setNode, he]
  exact congrArg (·, true) (OrdMap.modify_eq_put he g)

/-! ## The pairs of a node -/

namespace NodeField

theorem setter_of_unknown (f : NodeField α) (h : t.find? K = none) (v : α) (defaultvalue : Bool) :
    f.setter t K v defaultvalue = (t, false) := by
  have hset : ∀ g, t.setNode K g = (t, false) := fun g => by rw [Table.setNode, h]
  cases f <;> exact hset _

theorem setter_of_find? (f : NodeField α) (he : t.find? K = some e) (v : α) (defaultvalue : Bool) :
    f.setter t K v defaultvalue = (t.put K (f.write defaultvalue v e), true) := by
  cases f <;> cases defaultvalue <;> exact setNode_of_find? he _

theorem getter_of_find? (f : NodeField α) (he : t.find? K = some e) (defaultvalue : Bool) :
    f.getter t K defaultvalue = .ok v ↔ (f.slot defaultvalue).get e = some v := by
  have hget : ∀ unknown (p : NodeInfo → α × α), t.getNode K unknown p defaultvalue = .ok v ↔
      (if defaultvalue then (p e).1 else (p e).2) = v := by
    intro unknown p
    rw [Table.getNode, he]
    exact pure_eq_ok
  have hslot : ∀ a : α, some a = some v ↔ a = v := fun a => Option.some_inj
  cases f <;> exact (hget _ _).trans (hslot _).symm

theorem slot_isSome (f : NodeField α) (defaultvalue : Bool) (e : NodeInfo) :
    ((f.slot defaultvalue).get e).isSome := by cases f <;> rfl

theorem write_eq_iff (f : NodeField α) :
    f.write defaultvalue v e = (f.slot defaultvalue).set v e ↔ f.Fits defaultvalue v e := by
  cases f with
  | cpu =>
    cases defaultvalue with
    | true => exact iff_of_true rfl trivial
    | false =>
      show (ram.slot false).set v e = (cpu.slot false).set v e ↔ e.cpu.2 = v ∧ e.ram.2 = v
      constructor
      · intro h
        exact ⟨congrArg (fun e : NodeInfo => e.cpu.2) h,
          (congrArg (fun e : NodeInfo => e.ram.2) h).symm⟩
      · rintro ⟨hcpu, hram⟩
        rw [Slot.set_get _ v e (congrArg some hram), Slot.set_get _ v e (congrArg some hcpu)]
  | _ => exact iff_of_true rfl trivial

theorem storeLaws_iff (f : NodeField α) (t : Table) (K : Str) (v : α) (defaultvalue : Bool) :
    StoreLaws (f.slot defaultvalue) (f.getter · K defaultvalue) t K v
        (.ok (f.setter t K v defaultvalue)) ↔
      ∀ e, t.find? K = some e → f.Fits defaultvalue v e := by
  cases he : t.find? K with
  | none =>
    rw [f.setter_of_unknown he]
    exact iff_of_true rfl nofun
  | some e =>
    rw [f.setter_of_find? he, storeLaws_put_iff he (f.slot_isSome defaultvalue e)
      fun t' e' he' => f.getter_of_find? he' defaultvalue, write_eq_iff]
    simp only [Option.some.injEq, forall_eq']

end NodeField

/-! ## The pairs of a function -/

/-- Assigning to a record through `at (index)` writes the slot. -/
theorem modifyFunc_eq_set (f : FuncField α) (hr : (e.functions defaultvalue)[i]? = some r)
    (g : FunctionInfo → FunctionInfo) (hg : g r = f.record.set v r) :
    e.modifyFunc i g defaultvalue = (f.slot i defaultvalue).set v e := by
  have hlist : (e.functions defaultvalue).modify i g = (e.functions defaultvalue).set i (g r) := by
    obtain ⟨hi, rfl⟩ := List.getElem?_eq_some_iff.mp hr
    have := Inhabited.mk (e.functions defaultvalue)[i]
    rw [List.modify_eq_set, hr]
    rfl
  have hslot : ((NodeInfo.functionsSlot defaultvalue).comp (.nth i)).get e = some r := hr
  have hset : ((NodeInfo.functionsSlot defaultvalue).comp (.nth i)).set (g r) e =
      (NodeInfo.functionsSlot defaultvalue).set ((e.functions defaultvalue).set i (g r)) e := rfl
  rw [FuncField.slot, Slot.comp_set hslot, ← hg, hset, ← hlist]
  cases defaultvalue <;> rfl

namespace FuncField

theorem setter_of_unknown (f : FuncField α) (h : t.find? K = none) (i : ℕ) (v : α)
    (defaultvalue : Bool) : f.setter t K i v defaultvalue = .ok (t, false) := by
  have hset : ∀ g, t.setFunc K i g defaultvalue = .ok (t, false) := fun g => by rw [Table.setFunc, h]
  cases f with
  | inputs =>
    show Table.setFuncInputs t K i v defaultvalue = _
    rw [Table.setFuncInputs, h, hset]
    exact ite_self _
  | _ => exact hset _

theorem setFunc_of_find? (f : FuncField α) (he : t.find? K = some e)
    (hr : (e.functions defaultvalue)[i]? = some r) (g : FunctionInfo → FunctionInfo)
    (hg : g r = f.record.set v r) : t.setFunc K i g defaultvalue =
      .ok (t.put K ((f.slot i defaultvalue).set v e), true) := by
  have hi : i < (e.functions defaultvalue).length := (List.getElem?_eq_some_iff.mp hr).1
  rw [Table.setFunc, he]
  simp only [if_pos hi, OrdMap.modify_eq_put he, modifyFunc_eq_set f hr g hg]

theorem slot_get (f : FuncField α) (hr : (e.functions defaultvalue)[i]? = some r) :
    (f.slot i defaultvalue).get e = f.record.get r := by
  show ((e.functions defaultvalue)[i]?).bind _ = _
  rw [hr]
  rfl

theorem setter_of_find? (f : FuncField α) (he : t.find? K = some e)
    (hr : (e.functions defaultvalue)[i]? = some r) (v : α) : f.setter t K i v defaultvalue =
      .ok (t.put K ((f.slot i defaultvalue).set (f.stored defaultvalue v r) e), true) := by
  cases f with
  | inputs =>
    show Table.setFuncInputs t K i v defaultvalue = _
    rw [Table.setFuncInputs]
    split
    · next hv =>
      have hstored : stored inputs defaultvalue v r = r.inputDataList := by
        rw [hv]
        exact List.append_nil _
      rw [hstored, Slot.set_get _ _ e (slot_get inputs hr), OrdMap.put_self he, he]
      rfl
    · exact setFunc_of_find? inputs he hr _ rfl
  | exeCounter => cases defaultvalue <;> exact setFunc_of_find? exeCounter he hr _ rfl
  | interestCounter => cases defaultvalue <;> exact setFunc_of_find? interestCounter he hr _ rfl
  | _ => exact setFunc_of_find? _ he hr _ rfl

theorem getter_of_find? (f : FuncField α) (he : t.find? K = some e) (i : ℕ) (v : α)
    (defaultvalue : Bool) :
    f.getter t K i defaultvalue = .ok v ↔ (f.slot i defaultvalue).get e = some v := by
  have hget : ∀ unknown (p : FunctionInfo → α), t.getFunc K i unknown p defaultvalue = .ok v ↔
      (e.functions defaultvalue)[i]?.map p = some v := by
    intro unknown p
    rw [Table.getFunc, he]
    dsimp only
    rcases (e.functions defaultvalue)[i]? with _ | r
    · exact iff_of_false ok_ne_error.symm (Option.some_ne_none v).symm
    · exact pure_eq_ok.trans Option.some_inj.symm
  have hslot : ∀ p : FunctionInfo → α, ((e.functions defaultvalue)[i]?.bind fun r => some (p r)) =
      (e.functions defaultvalue)[i]?.map p := fun p => Option.map_eq_bind.symm
  cases f <;> exact (hget _ _).trans (iff_of_eq (congrArg (· = some v) (hslot _).symm))

theorem stored_eq_iff (f : FuncField α) (r : FunctionInfo) :
    f.stored defaultvalue v r = v ↔ f.Fits defaultvalue v r := by
  have hzero : ∀ x : UInt32, 0 = x ↔ x = 0 := fun x => eq_comm
  cases f with
  | exeCounter =>
    cases defaultvalue with
    | true => exact hzero v
    | false => exact iff_of_true rfl trivial
  | interestCounter =>
    cases defaultvalue with
    | true => exact hzero v
    | false => exact iff_of_true rfl trivial
  | inputs => exact List.append_left_eq_self
  | _ => exact iff_of_true rfl trivial

theorem storeLaws_iff (f : FuncField α) (t : Table) (K : Str) (i : ℕ) (v : α) (defaultvalue : Bool)
    (hin : ∀ e, t.find? K = some e → i < (e.functions defaultvalue).length) :
    StoreLaws (f.slot i defaultvalue) (f.getter · K i defaultvalue) t K v
        (f.setter t K i v defaultvalue) ↔
      ∀ e r, t.find? K = some e → (e.functions defaultvalue)[i]? = some r →
        f.Fits defaultvalue v r := by
  cases he : t.find? K with
  | none =>
    rw [f.setter_of_unknown he]
    exact iff_of_true rfl nofun
  | some e =>
    obtain ⟨r, hr⟩ : ∃ r, (e.functions defaultvalue)[i]? = some r :=
      ⟨_, List.getElem?_eq_getElem (hin e he)⟩
    have hsome : ((f.slot i defaultvalue).get e).isSome := by
      rw [f.slot_get hr]
      cases f <;> rfl
    rw [f.setter_of_find? he hr, storeLaws_put_iff he hsome
      fun t' e' he' => f.getter_of_find? he' i v defaultvalue, Slot.set_injective hsome,
      stored_eq_iff]
    constructor
    · rintro h e' r' he' hr'
      cases he'
      cases hr.symm.trans hr'
      exact h
    · exact fun h => h e _ rfl hr

end FuncField

end Laws

/-- **The store laws.** For every pair of a getter and a setter, with an index in range, they hold
exactly where the setter fits its slot, and for an unknown node. -/
theorem store_laws_iff (t : Table) (K : Str) (defaultvalue : Bool) :
    (∀ (α : Type) (f : NodeField α) (v : α),
      StoreLaws (f.slot defaultvalue) (f.getter · K defaultvalue) t K v
          (.ok (f.setter t K v defaultvalue)) ↔
        ∀ e, t.find? K = some e → f.Fits defaultvalue v e) ∧
    ∀ (α : Type) (f : FuncField α) (i : ℕ) (v : α),
      (∀ e, t.find? K = some e → i < (e.functions defaultvalue).length) →
      (StoreLaws (f.slot i defaultvalue) (f.getter · K i defaultvalue) t K v
          (f.setter t K i v defaultvalue) ↔
        ∀ e r, t.find? K = some e → (e.functions defaultvalue)[i]? = some r →
          f.Fits defaultvalue v r) :=
  ⟨fun _ f v => f.storeLaws_iff t K v defaultvalue,
    fun _ f i v hin => f.storeLaws_iff t K i v defaultvalue hin⟩

/-! ## A node with one function, which has an input -/

/-- The record of the function, in both lists. -/
def oneInput : FunctionInfo :=
  { funcName := ⟨["f".toList]⟩, funcExeCounter := 0, funcInterestCounter := 0, cores := 1, ram := 1
    rom := 0, sizeBytes := 0, inputDataList := ["a".toList], status := true }

def oneInputTable : Table :=
  .single "/n".toList { NodeInfo.new with
    functionsInitial := [oneInput], functionsCurrent := [oneInput] }

theorem oneInputTable_lt (defaultvalue : Bool) : ∀ e, oneInputTable.find? "/n".toList = some e →
    0 < (e.functions defaultvalue).length := by
  intro e he
  cases he
  cases defaultvalue <;> decide

/-- The current CPU, the bootstrap counters and the inputs are not stored. -/
theorem store_laws_fail :
    let K := "/n".toList
    ¬ StoreLaws (NodeField.cpu.slot false) (NodeField.cpu.getter · K false) oneInputTable K 4
        (.ok (oneInputTable.setNodeCPU K 4 false)) ∧
      ¬ StoreLaws (FuncField.exeCounter.slot 0 true) (FuncField.exeCounter.getter · K 0 true)
        oneInputTable K 7 (oneInputTable.setFuncExeCounter K 0 7 true) ∧
      ¬ StoreLaws (FuncField.interestCounter.slot 0 true)
        (FuncField.interestCounter.getter · K 0 true) oneInputTable K 7
        (oneInputTable.setFuncInterestCounter K 0 7 true) ∧
      ¬ StoreLaws (FuncField.inputs.slot 0 false) (FuncField.inputs.getter · K 0 false)
        oneInputTable K ["b".toList] (oneInputTable.setFuncInputs K 0 ["b".toList] false) := by
  have hseven : ¬ (7 : UInt32) = 0 := by decide
  have hinput : ¬ oneInput.inputDataList = [] := by decide
  refine ⟨fun h => ?_, fun h => ?_, fun h => ?_, fun h => ?_⟩
  · have hfits := (NodeField.cpu.storeLaws_iff ..).mp h _ rfl
    exact absurd hfits.1 (by decide)
  · have hfits := (FuncField.exeCounter.storeLaws_iff _ _ _ _ _ (oneInputTable_lt true)).mp h
    exact hseven (hfits _ oneInput rfl rfl)
  · have hfits := (FuncField.interestCounter.storeLaws_iff _ _ _ _ _ (oneInputTable_lt true)).mp h
    exact hseven (hfits _ oneInput rfl rfl)
  · have hfits := (FuncField.inputs.storeLaws_iff _ _ _ _ _ (oneInputTable_lt false)).mp h
    exact hinput (hfits _ oneInput rfl rfl)

/-- The name of the function is stored. -/
theorem store_laws_oneInputTable :
    let K := "/n".toList
    StoreLaws (FuncField.name.slot 0 false) (FuncField.name.getter · K 0 false) oneInputTable K
      ⟨["g".toList]⟩ (oneInputTable.setFuncName K 0 ⟨["g".toList]⟩ false) :=
  ((store_laws_iff oneInputTable "/n".toList false).2 Name .name 0 ⟨["g".toList]⟩
    (oneInputTable_lt false)).mpr fun _ _ _ _ => trivial

end IncSim
