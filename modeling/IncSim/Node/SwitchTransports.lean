import IncSim.Node.SwitchEffect

/-!
# Switch commands over two transports

* `switchState`, `SameSwitch`: what a command is about, and two outcomes that agree on it.
* `sameSwitch_enable_iff`, `not_sameSwitch_disable`: one more function at the end of a command.
* **`switch_transports_agree_iff`**: when a command does the same over both transports.
-/

namespace IncSim

open PartialRun

namespace ComputeNode

variable {n m : ComputeNode} {op : SwitchOp} {k : Str} {ks : List Str}

/-- What a command is about: the enable status and the miss counter of every function, and the
exclude list. -/
def switchState (n : ComputeNode) : List (Str × Option (Bool × UInt32)) × List Str :=
  (n.funcMap.map fun q => (q.1, q.2.map fun f => (f.enableComputation, f.missExecCounter)),
    n.funcExcludeList)

/-- Two outcomes of a command leave the same behind: both fail, or the states agree. -/
def SameSwitch (r r' : Except Fault ComputeNode) : Prop :=
  (r.map switchState).toOption = (r'.map switchState).toOption

instance (r r' : Except Fault ComputeNode) : Decidable (SameSwitch r r') :=
  inferInstanceAs (Decidable (_ = _))

theorem switchAll_concat : switchAll op n (ks ++ [k]) =
    (switchAll op n ks >>= fun m => do let q ← switch op m k; pure q.1) := by
  simp only [switchAll, List.foldlM_append, List.foldlM_cons, List.foldlM_nil, bind_pure]

/-- Each mention of a key takes it off the exclude list once. -/
theorem count_switchAll_enable (h : switchAll .enable n ks = .ok m) (k : Str) :
    m.funcExcludeList.count k = n.funcExcludeList.count k - ks.count k := by
  rw [funcExcludeList_switchAll h, foldl_exclude_enable, List.count_diff]

/-- The object is what enabling makes of it. -/
def IsEnabled (f : IncComputation) : Prop := f.enableComputation = true ∧ f.missExecCounter = 0

theorem switchState_enable_iff (k : Str) (l : List (Str × Option IncComputation)) :
    ((mapAt k IncComputation.enable l).map fun q =>
        (q.1, q.2.map fun f => (f.enableComputation, f.missExecCounter))) =
      (l.map fun q => (q.1, q.2.map fun f => (f.enableComputation, f.missExecCounter))) ↔
    ∀ f, (k, some f) ∈ l → IsEnabled f := by
  rw [mapAt, List.map_map, List.map_inj_left]
  constructor
  · intro h f hf
    have := h _ hf
    simp only [Function.comp, if_true, Option.map_some, Prod.mk.injEq, true_and,
      Option.some.injEq] at this
    exact ⟨this.1.symm, this.2.symm⟩
  · rintro h ⟨k', _ | f⟩ hq
    · simp
    · by_cases hk : k' = k
      · subst hk
        obtain ⟨hen, hmiss⟩ := h f hq
        simp [hen, hmiss, IncComputation.enable]
      · simp [hk]

/-- One more function at the end of an `Enable` changes nothing exactly when it is known to be
enabled with a miss counter of zero and is not excluded. -/
theorem sameSwitch_enable_iff (k : Str) :
    SameSwitch (.ok n) (do let q ← switch .enable n k; pure q.1) ↔
      n.funcMap.lookup k ≠ some none ∧ (∀ f, (k, some f) ∈ n.funcMap → IsEnabled f) ∧
        k ∉ n.funcExcludeList := by
  by_cases hk : n.funcMap.lookup k = some none
  · have herr : ¬ ∃ q, switch .enable n k = .ok q := fun h => switch_isOk.mp h hk
    rcases hq : switch .enable n k with e | q
    · simp [SameSwitch, hk, bind, Except.bind, Except.map, Except.toOption]
    · exact absurd ⟨q, hq⟩ herr
  · have hok : ∃ q, switch .enable n k = .ok q := switch_isOk.mpr hk
    obtain ⟨⟨m, b⟩, hq⟩ := hok
    obtain ⟨hmap, hex⟩ := switchOn_spec hq
    rw [hq]
    have herase : n.funcExcludeList = n.funcExcludeList.erase k ↔ k ∉ n.funcExcludeList := by
      rw [eq_comm, List.erase_eq_self_iff]
    show some n.switchState = some m.switchState ↔ _
    rw [Option.some.injEq, switchState, switchState, Prod.mk.injEq, hmap, hex, herase, eq_comm,
      switchState_enable_iff]
    simp [hk]

/-- One more function at the end of a `Disable` changes the exclude list. -/
theorem not_sameSwitch_disable (k : Str) :
    ¬ SameSwitch (.ok n) (do let q ← switch .disable n k; pure q.1) := by
  intro h
  rcases hq : switch .disable n k with e | ⟨m, b⟩
  · rw [hq] at h
    exact Option.some_ne_none _ h
  · rw [hq] at h
    have hstate : n.switchState = m.switchState := Option.some.inj h
    have hlen := congrArg (fun s => s.2.length) hstate
    simp [switchState, (switchOff_spec hq).2] at hlen

theorem forall_switchAll_enable (h : switchAll .enable n ks = .ok m) (k : Str) :
    (∀ f, (k, some f) ∈ m.funcMap → IsEnabled f) ↔
      ∀ f, (k, some f) ∈ n.funcMap → k ∈ ks ∨ IsEnabled f := by
  rw [funcMap_switchAll h, mapAll]
  constructor
  · intro hall f hf
    by_cases hk : k ∈ ks
    · exact Or.inl hk
    · exact Or.inr (hall f (List.mem_map.mpr ⟨(k, some f), hf, by simp [hk]⟩))
  · intro hall f hf
    obtain ⟨⟨k', o⟩, hq, he⟩ := List.mem_map.mp hf
    obtain ⟨rfl, ho⟩ := Prod.mk.inj he
    dsimp only at ho hq
    by_cases hk : k' ∈ ks
    · rw [if_pos hk, Option.map_eq_some_iff] at ho
      obtain ⟨c, -, rfl⟩ := ho
      exact ⟨rfl, rfl⟩
    · rw [if_neg hk] at ho
      subst ho
      exact (hall f hq).resolve_left hk

/-- A command makes no null pointer, and takes none away. -/
theorem lookup_switchAll (h : switchAll op n ks = .ok m) (k : Str) :
    m.funcMap.lookup k = some none ↔ n.funcMap.lookup k = some none := by
  rw [lookup_switchAll_eq h]
  rcases n.funcMap.lookup k with _ | _ | f
  · rfl
  · simp
  · by_cases hk : k ∈ ks <;> simp [hk]

end ComputeNode

open ComputeNode

theorem funcKey_injective : Function.Injective funcKey := fun _ _ h => (List.cons.inj h).2

/-- The condition under which the last function of a command changes nothing: a null pointer ends
both handlers before it, or the command is an `Enable` and its last function is not known to be
disabled or missed and is not on the exclude list after the functions before it. -/
def LastIsSpare (n : ComputeNode) (op : SwitchOp) (funcs : List Str) (func : Str) : Prop :=
  (∃ f ∈ funcs, n.funcMap.lookup (funcKey f) = some none) ∨
  (op = .enable ∧ n.funcMap.lookup (funcKey func) ≠ some none ∧
    (∀ c, (funcKey func, some c) ∈ n.funcMap → func ∈ funcs ∨ IsEnabled c) ∧
    n.funcExcludeList.count (funcKey func) ≤ funcs.count func)

/-- **A switch command over both transports.** The UDP handler leaves the last function of a command
out, so it does what the NDN handler does exactly when that function is spare. -/
theorem switch_transports_agree_iff (n : ComputeNode) (node : Str) (op : SwitchOp)
    (funcs : List Str) (func : Str) (hnode : '/' ∉ node) (hfuncs : ∀ f ∈ funcs ++ [func], '/' ∉ f) :
    SameSwitch
      ((n.udpFunctionSwitchHandler (switchCommand node op (funcs ++ [func]))).map Prod.fst)
      ((n.ndnFunctionSwitchHandler (switchName node op (funcs ++ [func]))).map Prod.fst) ↔
      LastIsSpare n op funcs func := by
  rw [udpFunctionSwitchHandler_node n hnode hfuncs, ndnFunctionSwitchHandler_node, List.map_append,
    List.map_cons, List.map_nil, switchAll_concat, LastIsSpare]
  by_cases hnull : ∃ f ∈ funcs, n.funcMap.lookup (funcKey f) = some none
  · rcases hr : switchAll op n (funcs.map funcKey) with e | m
    · exact iff_of_true rfl (Or.inl hnull)
    · obtain ⟨f, hf, hl⟩ := hnull
      exact absurd hl (switchAll_isOk.mp ⟨m, hr⟩ _ (List.mem_map_of_mem hf))
  · obtain ⟨m, hm⟩ := switchAll_isOk.mpr fun k hk => by
      obtain ⟨f, hf, rfl⟩ := List.mem_map.mp hk
      exact fun hl => hnull ⟨f, hf, hl⟩
    rw [hm, or_iff_right hnull]
    show SameSwitch (.ok m) (do let q ← switch op m (funcKey func); pure q.1) ↔ _
    cases op with
    | disable => exact iff_of_false (not_sameSwitch_disable _) fun h => SwitchOp.noConfusion h.1
    | enable =>
      have hcount : (funcs.map funcKey).count (funcKey func) = funcs.count func :=
        List.count_map_of_injective funcs funcKey funcKey_injective func
      rw [sameSwitch_enable_iff, Ne, lookup_switchAll hm, forall_switchAll_enable hm,
        ← List.count_eq_zero, count_switchAll_enable hm, hcount, List.mem_map_of_injective
        funcKey_injective, Nat.sub_eq_zero_iff_le]
      simp

/-- Over UDP a `Disable` for one function does nothing. -/
theorem switch_transports_differ :
    ¬ ∀ (n : ComputeNode) (op : SwitchOp) (funcs : List Str), funcs ≠ [] →
      (∀ f ∈ funcs, f ≠ [] ∧ '/' ∉ f) →
      SameSwitch ((n.udpFunctionSwitchHandler (switchCommand "n".toList op funcs)).map Prod.fst)
        ((n.ndnFunctionSwitchHandler (switchName "n".toList op funcs)).map Prod.fst) := by
  intro hall
  have h := hall oneFunction .disable ["f".toList] (by decide) (by decide)
  revert h
  decide

/-- An `Enable` for the enabled function is spare. -/
theorem switch_transports_agree_oneFunction :
    SameSwitch
      ((oneFunction.udpFunctionSwitchHandler
        (switchCommand "n".toList .enable ([] ++ ["f".toList]))).map Prod.fst)
      ((oneFunction.ndnFunctionSwitchHandler
        (switchName "n".toList .enable ([] ++ ["f".toList]))).map Prod.fst) := by
  refine (switch_transports_agree_iff oneFunction "n".toList .enable [] "f".toList (by decide)
    (by decide)).mpr (Or.inr ⟨rfl, by decide, fun c hc => Or.inr ?_, by decide⟩)
  obtain ⟨-, hc⟩ := Prod.mk.inj (List.mem_singleton.mp hc)
  cases hc
  exact ⟨rfl, rfl⟩

end IncSim
