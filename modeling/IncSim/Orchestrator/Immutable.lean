import IncSim.Orchestrator.Message

/-!
# What messages never change

The default half of an entry, and the functions that it lists.

* `NodeInfo.Keeps`: the bootstrap data and the sequence of function names are the same.
* `NodeInfo.Aligned`: both function lists name the same functions, by names that were read.
* `Frozen`: a table keeps its entries; one lemma for each operation of the storage.
* **`handleMessage_frozen`**, **`bootstrap_data_immutable`**: one message, and every history.
-/

namespace IncSim

open PartialRun OrdMap

section Immutable

variable [NdnCxx] {t t' t'' : Table} {K : Str} {e e' e'' : NodeInfo}

/-! ## Entries -/

/-- The names of the current functions, in order. -/
def NodeInfo.names (e : NodeInfo) : List Name := e.functionsCurrent.map FunctionInfo.funcName

/-- The bootstrap data and the names of the functions are the same. -/
structure NodeInfo.Keeps (e e' : NodeInfo) : Prop where
  nodeName : e'.nodeName = e.nodeName
  ram : e'.ram.1 = e.ram.1
  rom : e'.rom.1 = e.rom.1
  cpu : e'.cpu.1 = e.cpu.1
  nodeBusyCounter : e'.nodeBusyCounter.1 = e.nodeBusyCounter.1
  links : e'.links.1 = e.links.1
  runtimesSupported : e'.runtimesSupported.1 = e.runtimesSupported.1
  dataInitial : e'.dataInitial = e.dataInitial
  functionsInitial : e'.functionsInitial = e.functionsInitial
  names : e'.names = e.names

/-- Both function lists name the same functions, and ndn-cxx reads their URIs as these names. -/
structure NodeInfo.Aligned (e : NodeInfo) : Prop where
  names : e.names = e.functionsInitial.map FunctionInfo.funcName
  read : ∀ f ∈ e.names, NdnCxx.ofUri f.toUri = f

omit [NdnCxx] in
theorem NodeInfo.Keeps.refl (e : NodeInfo) : e.Keeps e :=
  ⟨rfl, rfl, rfl, rfl, rfl, rfl, rfl, rfl, rfl, rfl⟩

omit [NdnCxx] in
theorem NodeInfo.Keeps.trans (h : e.Keeps e') (h' : e'.Keeps e'') : e.Keeps e'' where
  nodeName := h'.nodeName.trans h.nodeName
  ram := h'.ram.trans h.ram
  rom := h'.rom.trans h.rom
  cpu := h'.cpu.trans h.cpu
  nodeBusyCounter := h'.nodeBusyCounter.trans h.nodeBusyCounter
  links := h'.links.trans h.links
  runtimesSupported := h'.runtimesSupported.trans h.runtimesSupported
  dataInitial := h'.dataInitial.trans h.dataInitial
  functionsInitial := h'.functionsInitial.trans h.functionsInitial
  names := h'.names.trans h.names

theorem NodeInfo.Aligned.of_keeps (h : e.Aligned) (hk : e.Keeps e') : e'.Aligned where
  names := by rw [hk.names, hk.functionsInitial, h.names]
  read := by rw [hk.names]; exact h.read

/-! ## Tables -/

/-- From a table of aligned entries, every entry is kept, and all entries are aligned. -/
def Frozen (t t' : Table) : Prop :=
  All NodeInfo.Aligned t → All NodeInfo.Aligned t' ∧ Carries NodeInfo.Keeps t t'

theorem Frozen.refl (t : Table) : Frozen t t := fun h => ⟨h, .refl NodeInfo.Keeps.refl t⟩

theorem Frozen.trans (h : Frozen t t') (h' : Frozen t' t'') : Frozen t t'' := by
  intro ht
  obtain ⟨ht', hc⟩ := h ht
  obtain ⟨ht'', hc'⟩ := h' ht'
  exact ⟨ht'', hc.trans NodeInfo.Keeps.trans hc'⟩

theorem frozen_modify {g : NodeInfo → NodeInfo}
    (hg : ∀ e : NodeInfo, t.find? K = some e → e.Aligned → e.Keeps (g e)) :
    Frozen t (t.modify K g) := by
  intro ht
  refine ⟨ht.modify fun e he ha => ha.of_keeps (hg e he ha), ?_⟩
  exact carries_modify NodeInfo.Keeps.refl fun e he => hg e he (ht K e he)

theorem frozen_setNode {g : NodeInfo → NodeInfo} (hg : ∀ e : NodeInfo, e.Keeps (g e)) :
    Frozen t (t.setNode K g).1 := by
  unfold Table.setNode
  split
  · exact .refl t
  · exact frozen_modify fun e _ _ => hg e

/-- A setter of a function's current values, at an index where it keeps the name. -/
theorem frozen_setFunc {g : FunctionInfo → FunctionInfo} {i : ℕ} {q : Table × Bool}
    (hg : ∀ e f, t.find? K = some e → e.Aligned → e.functionsCurrent[i]? = some f →
      (g f).funcName = f.funcName)
    (h : t.setFunc K i g false = .ok q) : Frozen t q.1 := by
  unfold Table.setFunc at h
  split at h
  · cases h
    exact .refl t
  · split at h
    · cases h
      refine frozen_modify fun e he ha => { NodeInfo.Keeps.refl e with names := ?_ }
      exact Assoc.map_key_modify fun f hf => hg e f he ha hf
    · cases h

/-! ## The status handler -/

theorem statusFunction_frozen {s : Str} (h : statusFunction K t s = .ok t') : Frozen t t' := by
  simp only [statusFunction, bind_eq_ok] at h
  obtain ⟨name, -, ⟨found, i⟩, hindex, h⟩ := h
  cases found with
  | false =>
    cases h
    exact .refl t
  | true =>
    rw [if_pos rfl] at h
    simp only [bind_eq_ok] at h
    obtain ⟨q₁, h₁, status, -, q₂, h₂, c₃, -, x₃, -, q₃, h₃, c₄, -, x₄, -, q₄, h₄, c₅, -, x₅, -, q₅,
      h₅, c₆, -, x₆, -, q₆, h₆, c₇, -, x₇, -, q₇, h₇, c₈, -, x₈, -, q₈, h₈, c₉, -, q₉, h₉, h⟩ := h
    cases h
    -- The name that `setFuncName` writes is the name that `getFuncIndex` has found there.
    have hname : Frozen t q₁.1 := by
      refine frozen_setFunc (fun e f he ha hf => ?_) h₁
      obtain ⟨f', hf', huri⟩ := Table.getFuncIndex_spec hindex he
      have hf' : e.functionsCurrent[i]? = some f' := hf'
      rw [hf', Option.some.injEq] at hf
      subst hf
      show NdnCxx.ofUri ('/' :: name) = f'.funcName
      rw [← huri]
      exact ha.read f'.funcName (List.mem_map_of_mem (List.mem_of_getElem? hf'))
    have hrest : ∀ {q q' : Table × Bool} {g : FunctionInfo → FunctionInfo},
        q.1.setFunc K i g false = .ok q' → (∀ f, (g f).funcName = f.funcName) → Frozen q.1 q'.1 :=
      fun h hg => frozen_setFunc (fun _ f _ _ _ => hg f) h
    have hinputs : Frozen q₈.1 q₉.1 := by
      simp only [Table.setFuncInputs] at h₉
      rw [if_neg (List.splitOn_ne_nil _ _)] at h₉
      exact hrest h₉ fun _ => rfl
    exact hname.trans <| (hrest h₂ fun _ => rfl).trans <| (hrest h₃ fun _ => rfl).trans <|
      (hrest h₄ fun _ => rfl).trans <| (hrest h₅ fun _ => rfl).trans <|
      (hrest h₆ fun _ => rfl).trans <| (hrest h₇ fun _ => rfl).trans <|
      (hrest h₈ fun _ => rfl).trans hinputs

theorem statusValue_frozen {s s' : Str × Table} {values : List Str} {f : StatusField}
    (h : statusValue s values f = .ok s') : Frozen s.2 s'.2 := by
  have hset : ∀ {g : NodeInfo → NodeInfo}, (∀ e : NodeInfo, e.Keeps (g e)) →
      Frozen s.2 (s.2.setNode s.1 g).1 := fun hg => frozen_setNode hg
  cases f with
  | name =>
    obtain ⟨uuid, -, h⟩ := bind_eq_ok.mp h
    cases h
    exact .refl s.2
  | processorCore =>
    simp only [statusValue, bind_eq_ok] at h
    obtain ⟨v, -, cpu, -, h⟩ := h
    cases h
    exact hset fun e => { NodeInfo.Keeps.refl e with ram := rfl }
  | ram =>
    simp only [statusValue, bind_eq_ok] at h
    obtain ⟨v, -, ram, -, h⟩ := h
    cases h
    exact hset fun e => { NodeInfo.Keeps.refl e with ram := rfl }
  | rom =>
    simp only [statusValue, bind_eq_ok] at h
    obtain ⟨v, -, rom, -, h⟩ := h
    cases h
    exact hset fun e => { NodeInfo.Keeps.refl e with rom := rfl }
  | links =>
    simp only [statusValue, bind_eq_ok] at h
    obtain ⟨v, -, h⟩ := h
    cases h
    exact hset fun e => { NodeInfo.Keeps.refl e with links := rfl }
  | runtimes =>
    simp only [statusValue, bind_eq_ok] at h
    obtain ⟨v, -, h⟩ := h
    cases h
    exact hset fun e => { NodeInfo.Keeps.refl e with runtimesSupported := rfl }
  | nodeBusyCounter =>
    simp only [statusValue, bind_eq_ok] at h
    obtain ⟨v, -, counter, -, h⟩ := h
    cases h
    exact hset fun e => { NodeInfo.Keeps.refl e with nodeBusyCounter := rfl }
  | data =>
    simp only [statusValue, bind_eq_ok] at h
    obtain ⟨list, -, h⟩ := h
    split at h
    · cases h
      exact .refl s.2
    · obtain ⟨dl, -, h⟩ := bind_eq_ok.mp h
      cases h
      exact hset fun e => { NodeInfo.Keeps.refl e with dataInitial := rfl }
  | functions =>
    simp only [statusValue, bind_eq_ok] at h
    obtain ⟨v, -, t, hrun, h⟩ := h
    cases h
    exact run_invariant (P := fun t => Frozen s.2 t)
      (fun _ _ _ ht hstep => ht.trans (statusFunction_frozen hstep)) (.refl s.2) hrun

theorem nodeStatusFetchHandler_frozen {content : Str}
    (h : nodeStatusFetchHandler t content = .ok t') : Frozen t t' := by
  obtain ⟨s, hrun, h⟩ := bind_eq_ok.mp h
  cases h
  refine run_invariant (P := fun s : Str × Table => Frozen t s.2) (fun s token s' hs hstep => ?_)
    (.refl t) hrun
  obtain ⟨k, -, hstep⟩ := bind_eq_ok.mp hstep
  split at hstep
  · exact hs.trans (statusValue_frozen hstep)
  · cases hstep
    exact hs

/-! ## The bootstrap handler -/

theorem readFunction_name {s : Str} {f : FunctionInfo} (h : readFunction s = .ok f) :
    ∃ uri, f.funcName = NdnCxx.ofUri uri := by
  simp only [readFunction, bind_eq_ok] at h
  obtain ⟨name, -, _, -, _, -, _, -, _, -, _, -, _, -, _, -, _, -, _, -, _, -, _, -, _, -, _, -, _, -,
    h⟩ := h
  cases h
  exact ⟨'/' :: name, rfl⟩

/-- A report being read fills both function lists with the same functions. -/
theorem bootstrapField_aligned (hUri : UriStable) {s : Str}
    (h : bootstrapField e s = .ok e') (he : e.functionsInitial = e.functionsCurrent ∧ e.Aligned) :
    e'.functionsInitial = e'.functionsCurrent ∧ e'.Aligned := by
  have hsame : ∀ e' : NodeInfo, e'.functionsInitial = e.functionsInitial →
      e'.functionsCurrent = e.functionsCurrent →
        e'.functionsInitial = e'.functionsCurrent ∧ e'.Aligned := by
    intro e' hi hc
    have hnames : e'.names = e.names := congrArg (List.map FunctionInfo.funcName) hc
    exact ⟨by rw [hi, hc, he.1], by rw [hnames, hi, he.2.names], by rw [hnames]; exact he.2.read⟩
  obtain ⟨k, -, h⟩ := bind_eq_ok.mp h
  split at h
  · next f _ =>
    cases f with
    | name | links | runtimes =>
      simp only [bootstrapValue, bind_eq_ok] at h
      obtain ⟨_, -, h⟩ := h
      cases h
      exact hsame _ rfl rfl
    | processorCore | ram | rom =>
      simp only [bootstrapValue, bind_eq_ok] at h
      obtain ⟨_, -, _, -, h⟩ := h
      cases h
      exact hsame _ rfl rfl
    | nodeBusyCounter =>
      cases h
      exact hsame _ rfl rfl
    | data =>
      simp only [bootstrapValue, bind_eq_ok] at h
      obtain ⟨_, -, h⟩ := h
      split at h
      · cases h
        exact he
      · obtain ⟨_, -, h⟩ := bind_eq_ok.mp h
        cases h
        exact hsame _ rfl rfl
    | functions =>
      simp only [bootstrapValue, bind_eq_ok] at h
      obtain ⟨_, -, fs, hfs, h⟩ := h
      cases h
      have hnames := congrArg (fun l => (l ++ fs).map FunctionInfo.funcName) he.1.symm
      refine ⟨congrArg (· ++ fs) he.1, hnames, ?_⟩
      intro f hf
      obtain ⟨r, hr, rfl⟩ := List.mem_map.mp hf
      rcases List.mem_append.mp hr with hr | hr
      · exact he.2.read _ (List.mem_map_of_mem hr)
      · obtain ⟨s, -, hs⟩ := mem_of_mapM_eq_ok hfs hr
        obtain ⟨uri, huri⟩ := readFunction_name hs
        rw [huri]
        exact hUri uri
  · cases h
    exact he

theorem readBootstrap_aligned (hUri : UriStable) {content : Str}
    (h : readBootstrap content = .ok e) : e.Aligned := by
  have hnew : NodeInfo.new.functionsInitial = NodeInfo.new.functionsCurrent ∧ NodeInfo.new.Aligned :=
    ⟨rfl, rfl, nofun⟩
  exact (run_invariant (P := fun e : NodeInfo => e.functionsInitial = e.functionsCurrent ∧ e.Aligned)
    (fun _ _ _ he hstep => bootstrapField_aligned hUri hstep he) hnew h).2

theorem bootstrapPhaseHandler_frozen (hUri : UriStable) {content : Str}
    (h : bootstrapPhaseHandler t content = .ok t') : Frozen t t' := by
  obtain ⟨e, he, h⟩ := bind_eq_ok.mp h
  cases h
  intro ht
  exact ⟨ht.insertNew (readBootstrap_aligned hUri he),
    carries_insertNew NodeInfo.Keeps.refl t e.nodeName.toUri e⟩

/-- A repeated bootstrap changes nothing. -/
theorem bootstrapPhaseHandler_known {content : Str} {newNode : NodeInfo}
    (h : readBootstrap content = .ok newNode) (hk : t.find? newNode.nodeName.toUri = some e) :
    bootstrapPhaseHandler t content = .ok t := by
  simp only [bootstrapPhaseHandler, h, bind, Except.bind, Table.addNodeToTable,
    insertNew_of_find? hk]

/-! ## Histories of messages -/

/-- The step of a history: a message with its action and content. -/
def receive (t : Table) (m : Str × Str) : Except Fault Table := handleMessage t m.1 m.2

theorem handleMessage_frozen (hUri : UriStable) {actionToDo content : Str}
    (h : handleMessage t actionToDo content = .ok t') : Frozen t t' := by
  unfold handleMessage at h
  split at h
  · exact bootstrapPhaseHandler_frozen hUri h
  · split at h
    · exact nodeStatusFetchHandler_frozen h
    · cases h
      exact .refl t

theorem run_receive_frozen (hUri : UriStable) {ms : List (Str × Str)}
    (h : run receive t ms = .ok t') : Frozen t t' :=
  run_invariant (P := fun t' => Frozen t t')
    (fun _ _ _ ht hstep => ht.trans (handleMessage_frozen hUri hstep)) (.refl t) h

/-- **Bootstrap data is immutable.** In every history of messages from the empty table: whatever
messages follow, every entry stays under its key with its name, the default halves of its values,
its initial data and its initial functions; a bootstrap of a node that is known changes nothing; and
the current functions of every entry are named as its initial ones. -/
theorem bootstrap_data_immutable (hUri : UriStable) {ms ms' : List (Str × Str)}
    (h : run receive OrdMap.empty ms = .ok t) :
    (∀ t', run receive t ms' = .ok t' → ∀ k e, t.find? k = some e →
      ∃ e', t'.find? k = some e' ∧ e'.nodeName = e.nodeName ∧ e'.ram.1 = e.ram.1 ∧
        e'.rom.1 = e.rom.1 ∧ e'.cpu.1 = e.cpu.1 ∧ e'.nodeBusyCounter.1 = e.nodeBusyCounter.1 ∧
        e'.links.1 = e.links.1 ∧ e'.runtimesSupported.1 = e.runtimesSupported.1 ∧
        e'.dataInitial = e.dataInitial ∧ e'.functionsInitial = e.functionsInitial) ∧
    (∀ content newNode, readBootstrap content = .ok newNode →
      (t.find? newNode.nodeName.toUri).isSome →
        handleMessage t "/BootstrapInfo".toList content = .ok t) ∧
    ∀ k e, t.find? k = some e →
      e.functionsCurrent.map FunctionInfo.funcName = e.functionsInitial.map FunctionInfo.funcName := by
  have hall : All NodeInfo.Aligned t := (run_receive_frozen hUri h all_empty).1
  refine ⟨fun t' h' k e he => ?_, fun content newNode hread hk => ?_,
    fun k e he => (hall k e he).names⟩
  · obtain ⟨e', he', hk⟩ := (run_receive_frozen hUri h' hall).2 k e he
    exact ⟨e', he', hk.nodeName, hk.ram, hk.rom, hk.cpu, hk.nodeBusyCounter, hk.links,
      hk.runtimesSupported, hk.dataInitial, hk.functionsInitial⟩
  · obtain ⟨e, he⟩ := Option.isSome_iff_exists.mp hk
    exact bootstrapPhaseHandler_known hread he

end Immutable

/-! ## A bootstrap and an update -/

section Example

attribute [local instance] plainUri

/-- A node with one function, and its later report. -/
def exampleMessages : List (Str × Str) :=
  [("/BootstrapInfo".toList, "name=/n;RAM=8;functions=/f:1:0:0:1:2:0:0:null".toList),
    ("/NodeStatusFetch".toList, "name=/n;RAM=6;functions=/f:0:3:0:1:2:0:0:null".toList)]

/-- The table after the bootstrap. -/
def exampleTable : Table :=
  (run receive OrdMap.empty (exampleMessages.take 1)).toOption.getD OrdMap.empty

theorem bootstrap_data_immutable_oneFunction :
    ∃ t' e', run receive OrdMap.empty (exampleMessages.take 1) = .ok exampleTable ∧
      run receive exampleTable (exampleMessages.drop 1) = .ok t' ∧ t'.find? "/n".toList = some e' ∧
      e'.ram.1 = 8 ∧ e'.functionsInitial.map FunctionInfo.status = [true] := by
  have hrun : run receive OrdMap.empty (exampleMessages.take 1) = .ok exampleTable := rfl
  have hrun' : run receive exampleTable (exampleMessages.drop 1) = .ok _ := rfl
  obtain ⟨e', he', -, hram, -, -, -, -, -, -, hfuncs⟩ :=
    (bootstrap_data_immutable plainUri_stable hrun).1 _ hrun' "/n".toList _ rfl
  exact ⟨_, e', hrun, hrun', he', hram, by rw [hfuncs]; rfl⟩

end Example

end IncSim
