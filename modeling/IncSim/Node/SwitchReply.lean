import IncSim.Node.SwitchEffect

/-!
# The reply to a switch command

* `lastKnown`: the flag that the reply is built from: only the function switched last counts.
* `ndnFunctionSwitchHandler_eq`, `udpFunctionSwitchHandler_eq`: node and reply of both handlers.
* `SwitchedAt`: one function is switched, its object and the exclude list.
* `Agrees`: the reply tells whether all functions are known, they are switched then, and unknown names
  leave no trace.
* `ReplyFits`, `agrees_iff`: when it does.
* **`switch_reply_agrees_iff`**: both handlers.
-/

namespace IncSim

open PartialRun

namespace ComputeNode

variable {n m : ComputeNode} {op : SwitchOp} {k : Str} {ks done : List Str}

/-! ## The flag -/

/-- Whether the node knows the last one of the functions. -/
def lastKnown (n : ComputeNode) (ks : List Str) : Option Bool :=
  ks.getLast?.map fun k => (n.funcMap.lookup k).isSome

theorem lookup_isSome_mapAt (g : IncComputation → IncComputation)
    (l : List (Str × Option IncComputation)) (p : Str) :
    ((mapAt k g l).lookup p).isSome = (l.lookup p).isSome := by
  rw [lookup_mapAt, Option.isSome_map]

theorem lastKnown_congr (h : ∀ k, (m.funcMap.lookup k).isSome = (n.funcMap.lookup k).isSome) :
    m.lastKnown ks = n.lastKnown ks := Option.map_congr fun k _ => h k

theorem lastKnown_switch {b : Bool} (h : switch op n k = .ok (m, b)) :
    m.lastKnown ks = n.lastKnown ks :=
  lastKnown_congr fun p => by rw [switch_funcMap h, lookup_isSome_mapAt]

theorem lastKnown_cons (n : ComputeNode) (k : Str) (ks : List Str) :
    n.lastKnown (k :: ks) = (n.lastKnown ks).or (some (n.funcMap.lookup k).isSome) := by
  rw [lastKnown, lastKnown, List.getLast?_cons]
  rcases ks.getLast? with _ | k' <;> rfl

/-- The loop of the NDN handler, with its flag. -/
theorem foldlM_ndnSwitchRound_eq (n : ComputeNode) (flag : Option Bool) :
    ks.foldlM (ndnSwitchRound ('/' :: op.text)) (n, flag) =
      (switchAll op n ks).map fun m => (m, (n.lastKnown ks).or flag) := by
  induction ks generalizing n flag with
  | nil => rfl
  | cons k ks ih =>
    rw [List.foldlM_cons, ndnSwitchRound_eq, switchAll, List.foldlM_cons]
    dsimp only
    rcases hq : switch op n k with e | ⟨n₁, b⟩
    · rfl
    · rw [lastKnown_cons, Option.or_assoc, ← lastKnown_switch hq, ← (switch_eq hq).1]
      exact ih n₁ (some b)

/-- The loop of the UDP handler, with its flag. -/
theorem udpSwitchLoop_eq (n : ComputeNode) (flag : Bool) (funcs : List Str) (func : Str) :
    udpSwitchLoop op.text (n, flag) (funcs ++ [func]) =
      (switchAll op n (funcs.map funcKey)).map fun m =>
        (m, (n.lastKnown (funcs.map funcKey)).getD flag) := by
  induction funcs generalizing n flag with
  | nil => rfl
  | cons f funcs ih =>
    rw [List.cons_append, udpSwitchLoop_cons_concat, List.map_cons, switchAll, List.foldlM_cons]
    dsimp only
    rcases hq : switch op n (funcKey f) with e | ⟨n₁, b⟩
    · rfl
    · have hflag : ∀ o : Option Bool, (o.or (some b)).getD flag = o.getD b := by
        rintro (_ | o) <;> rfl
      rw [lastKnown_cons, ← (switch_eq hq).1, hflag, ← lastKnown_switch hq]
      exact ih n₁ b

theorem ndnFunctionSwitchHandler_eq (n : ComputeNode) (node : Str) (op : SwitchOp)
    (funcs : List Str) :
    n.ndnFunctionSwitchHandler (switchName node op funcs) =
      (switchAll op n (funcs.map funcKey)).map fun m =>
        (m, (n.lastKnown (funcs.map funcKey)).map switchReply) := by
  have hdrop : (switchName node op funcs).comps.drop 4 = funcs := rfl
  unfold ndnFunctionSwitchHandler
  rw [getSubName_funcs, getSubName_op, hdrop]
  dsimp only
  rw [foldlM_ndnSwitchRound_eq, Option.or_none]
  rcases switchAll op n (funcs.map funcKey) with e | m <;> rfl

theorem udpFunctionSwitchHandler_eq (n : ComputeNode) {node : Str} (op : SwitchOp)
    {funcs : List Str} {func : Str} (hnode : '/' ∉ node) (hfuncs : ∀ f ∈ funcs ++ [func], '/' ∉ f) :
    n.udpFunctionSwitchHandler (switchCommand node op (funcs ++ [func])) =
      (switchAll op n (funcs.map funcKey)).map fun m =>
        (m, switchReply ((n.lastKnown (funcs.map funcKey)).getD false)) := by
  rw [udpFunctionSwitchHandler, splitOn_switchCommand hnode hfuncs]
  show (udpSwitchLoop op.text (n, false) (funcs ++ [func]) >>= fun q => _) = _
  rw [udpSwitchLoop_eq]
  rcases switchAll op n (funcs.map funcKey) with e | m <;> rfl

/-! ## Replies that agree with the effect -/

/-- The object under a key. -/
def object (n : ComputeNode) (k : Str) : Option IncComputation := (n.funcMap.lookup k).join

/-- What the operation does to the places of a name on the exclude list: it is there once more, or
once less if it was there. -/
def SwitchOp.Excludes (op : SwitchOp) (l l' : List Str) (k : Str) : Prop :=
  match op with
  | .enable => k ∈ l → l'.count k < l.count k
  | .disable => l.count k < l'.count k

instance : ∀ (op : SwitchOp) (l l' : List Str) (k : Str), Decidable (SwitchOp.Excludes op l l' k)
  | .enable, l, l', k => inferInstanceAs (Decidable (k ∈ l → l'.count k < l.count k))
  | .disable, l, l', k => inferInstanceAs (Decidable (l.count k < l'.count k))

/-- The operation has reached the function under `k`: its object is changed, and the exclude list. -/
def SwitchedAt (n : ComputeNode) (op : SwitchOp) (m : ComputeNode) (k : Str) : Prop :=
  (n.object k).isSome ∧ m.object k = (n.object k).map (SwitchOp.effect op) ∧
    SwitchOp.Excludes op n.funcExcludeList m.funcExcludeList k

/-- The outcome of a command with operation `op` for `ks`: it ends, it is a success exactly when the
node knows every function, all of them are switched then, and a name that the node does not know
leaves no trace. -/
def Agrees (n : ComputeNode) (op : SwitchOp) (ks : List Str) :
    Except Fault (ComputeNode × Option Str) → Prop
  | .error _ => False
  | .ok (m, reply) =>
    (reply = some "operation success".toList ↔ ∀ k ∈ ks, (n.funcMap.lookup k).isSome) ∧
    (reply = some "operation success".toList → ∀ k ∈ ks, n.SwitchedAt op m k) ∧
    ∀ k ∈ ks, n.funcMap.lookup k = none →
      m.funcMap.lookup k = none ∧ m.funcExcludeList.count k = n.funcExcludeList.count k

/-- An `Enable` finds nothing to do at the function: it is enabled, without misses, and not on the
exclude list. A `Disable` always adds to the list. -/
def Spare (n : ComputeNode) (op : SwitchOp) (k : Str) : Prop :=
  op = .enable ∧ k ∉ n.funcExcludeList ∧ (n.object k).isSome ∧
    (n.object k).map IncComputation.enable = n.object k

/-- The condition for it, when the handler gets to the functions `done` of `ks`: there is no null
pointer under them; those that the node does not know are taken off an exclude list that does not
have them; and either the last of them is known, as all functions are, and there is nothing to do at
what is left out, or the last of them, if any, is unknown. -/
structure ReplyFits (n : ComputeNode) (op : SwitchOp) (done ks : List Str) : Prop where
  noNull : ∀ k ∈ done, n.funcMap.lookup k ≠ some none
  noTrace : ∀ k ∈ done, n.funcMap.lookup k = none → op = .enable ∧ k ∉ n.funcExcludeList
  reply : if n.lastKnown done = some true then
      ∀ k ∈ ks, (n.funcMap.lookup k).isSome ∧ (k ∉ done → n.Spare op k)
    else ∃ k ∈ ks, n.funcMap.lookup k = none

theorem switchReply_eq_success {b : Bool} :
    switchReply b = "operation success".toList ↔ b = true := by
  cases b <;> decide

/-- The reply says what the flag of the last function says. -/
theorem reply_eq_success_iff : some (switchReply ((n.lastKnown done).getD false)) =
    some "operation success".toList ↔ n.lastKnown done = some true := by
  rw [Option.some.injEq, switchReply_eq_success]
  rcases n.lastKnown done with _ | _ | _ <;> simp

theorem lookup_switchAll_eq_none (h : switchAll op n done = .ok m)
    (hk : n.funcMap.lookup k = none) : m.funcMap.lookup k = none := by
  rw [lookup_switchAll_eq h, hk]
  rfl

/-- A known function that the handler gets to is switched. -/
theorem switchedAt_of_mem (h : switchAll op n done = .ok m) (hk : k ∈ done)
    (hnull : n.funcMap.lookup k ≠ some none) (hknown : (n.funcMap.lookup k).isSome) :
    n.SwitchedAt op m k := by
  obtain ⟨o, ho⟩ := Option.isSome_iff_exists.mp hknown
  have hobject : ∃ f, o = some f :=
    Option.ne_none_iff_exists'.mp fun hnone => hnull (ho.trans (congrArg some hnone))
  obtain ⟨f, rfl⟩ := hobject
  have hpos : 0 < done.count k := List.count_pos_iff.mpr hk
  refine ⟨by rw [object, ho]; rfl, ?_, ?_⟩
  · rw [object, object, lookup_switchAll_eq h, ho, Option.map_some, if_pos hk]
    rfl
  · rw [funcExcludeList_switchAll h]
    cases op with
    | enable =>
      intro hmem
      have hcount : 0 < n.funcExcludeList.count k := List.count_pos_iff.mpr hmem
      rw [foldl_exclude_enable, List.count_diff]
      omega
    | disable =>
      show n.funcExcludeList.count k < _
      rw [foldl_exclude_disable, List.count_append]
      omega

/-- The places of an unknown name on the exclude list stay as many as they are exactly when it is
not there to be taken off. -/
theorem count_exclude_iff (h : switchAll op n done = .ok m) (hk : k ∈ done) :
    m.funcExcludeList.count k = n.funcExcludeList.count k ↔ op = .enable ∧ k ∉ n.funcExcludeList := by
  have hpos : 0 < done.count k := List.count_pos_iff.mpr hk
  rw [funcExcludeList_switchAll h]
  cases op with
  | enable =>
    rw [foldl_exclude_enable, List.count_diff, ← List.count_eq_zero]
    constructor
    · intro heq
      exact ⟨rfl, by omega⟩
    · rintro ⟨-, hzero⟩
      omega
  | disable =>
    rw [foldl_exclude_disable, List.count_append]
    constructor
    · intro heq
      omega
    · rintro ⟨h, -⟩
      cases h

theorem count_exclude_of_not_mem (h : switchAll op n done = .ok m) (hk : k ∉ done) :
    m.funcExcludeList.count k = n.funcExcludeList.count k := by
  have hzero : done.count k = 0 := List.count_eq_zero.mpr hk
  rw [funcExcludeList_switchAll h]
  cases op with
  | enable => rw [foldl_exclude_enable, List.count_diff, hzero, Nat.sub_zero]
  | disable => rw [foldl_exclude_disable, List.count_append, hzero, Nat.add_zero]

/-- A function that the handler leaves out is switched exactly when there is nothing to do at it. -/
theorem switchedAt_iff_spare (h : switchAll op n done = .ok m) (hk : k ∉ done) :
    n.SwitchedAt op m k ↔ n.Spare op k := by
  have hobject : m.object k = n.object k := by
    rw [object, object, lookup_switchAll_eq h]
    simp only [if_neg hk, Option.map_id']
  have hcount := count_exclude_of_not_mem h hk
  rw [SwitchedAt, Spare, hobject]
  cases op with
  | enable =>
    have hexcludes : SwitchOp.Excludes .enable n.funcExcludeList m.funcExcludeList k ↔
        k ∉ n.funcExcludeList := by
      show (_ → _ < _) ↔ _
      rw [hcount]
      exact ⟨fun hmem hk => lt_irrefl _ (hmem hk), fun hnot hk => absurd hk hnot⟩
    rw [hexcludes, eq_comm (a := n.object k)]
    exact ⟨fun ⟨hsome, heq, hnot⟩ => ⟨rfl, hnot, hsome, heq⟩,
      fun ⟨_, hnot, hsome, heq⟩ => ⟨hsome, heq, hnot⟩⟩
  | disable =>
    refine iff_of_false (fun hswitched => ?_) fun hspare => SwitchOp.noConfusion hspare.1
    have hlt : n.funcExcludeList.count k < m.funcExcludeList.count k := hswitched.2.2
    rw [hcount] at hlt
    exact lt_irrefl _ hlt

/-- **When reply and effect agree**, for a handler that switches the functions `done` of `ks`. -/
theorem agrees_iff (hsub : done ⊆ ks) :
    Agrees n op ks ((switchAll op n done).map fun m =>
      (m, some (switchReply ((n.lastKnown done).getD false)))) ↔ ReplyFits n op done ks := by
  by_cases hnull : ∀ k ∈ done, n.funcMap.lookup k ≠ some none
  swap
  · have herr : ¬ ∃ m, switchAll op n done = .ok m := fun h => hnull (switchAll_isOk.mp h)
    refine iff_of_false ?_ fun h => hnull h.noNull
    rcases hm : switchAll op n done with e | m
    · exact id
    · exact absurd ⟨m, hm⟩ herr
  obtain ⟨m, hm⟩ := switchAll_isOk.mpr hnull
  rw [hm]
  show (_ ↔ _) ∧ (_ → _) ∧ _ ↔ _
  rw [reply_eq_success_iff]
  constructor
  · rintro ⟨hiff, hswitched, hleft⟩
    refine ⟨hnull, fun k hk hnone => ?_, ?_⟩
    · exact (count_exclude_iff hm hk).mp (hleft k (hsub hk) hnone).2
    · split_ifs with hlast
      · refine fun k hk => ⟨hiff.mp hlast k hk, fun hdone => ?_⟩
        exact (switchedAt_iff_spare hm hdone).mp (hswitched hlast k hk)
      · by_contra hall
        refine hlast (hiff.mpr fun k hk => ?_)
        rw [Option.isSome_iff_ne_none]
        exact fun hnone => hall ⟨k, hk, hnone⟩
  · rintro ⟨-, htrace, hreply⟩
    refine ⟨?_, fun hlast k hk => ?_, fun k hk hnone =>
      ⟨lookup_switchAll_eq_none hm hnone, ?_⟩⟩
    · split_ifs at hreply with hlast
      · exact iff_of_true hlast fun k hk => (hreply k hk).1
      · obtain ⟨k, hk, hnone⟩ := hreply
        refine iff_of_false hlast fun hall => ?_
        have hsome := hall k hk
        rw [hnone] at hsome
        cases hsome
    · rw [if_pos hlast] at hreply
      obtain ⟨hknown, hspare⟩ := hreply k hk
      by_cases hdone : k ∈ done
      · exact switchedAt_of_mem hm hdone (hnull k hdone) hknown
      · exact (switchedAt_iff_spare hm hdone).mpr (hspare hdone)
    · by_cases hdone : k ∈ done
      · exact (count_exclude_iff hm hdone).mpr (htrace k hdone hnone)
      · exact count_exclude_of_not_mem hm hdone

instance (n : ComputeNode) (op : SwitchOp) (m : ComputeNode) (k : Str) :
    Decidable (n.SwitchedAt op m k) := inferInstanceAs (Decidable (_ ∧ _ ∧ _))

instance (n : ComputeNode) (op : SwitchOp) (k : Str) : Decidable (n.Spare op k) :=
  inferInstanceAs (Decidable (_ ∧ _ ∧ _ ∧ _))

instance (n : ComputeNode) (op : SwitchOp) (ks : List Str) :
    ∀ r : Except Fault (ComputeNode × Option Str), Decidable (Agrees n op ks r)
  | .error _ => inferInstanceAs (Decidable False)
  | .ok (_, _) => inferInstanceAs (Decidable (_ ∧ _ ∧ _))

end ComputeNode

open ComputeNode

/-- **Reply and effect of a switch command.** At the NDN handler, which gets to all functions, and
at the UDP handler, which leaves the last one out, they agree exactly under the condition. -/
theorem switch_reply_agrees_iff (n : ComputeNode) (node : Str) (op : SwitchOp) {funcs : List Str}
    (hne : funcs ≠ []) (hnode : '/' ∉ node) (hfuncs : ∀ f ∈ funcs, '/' ∉ f) :
    (Agrees n op (funcs.map funcKey) (n.ndnFunctionSwitchHandler (switchName node op funcs)) ↔
      ReplyFits n op (funcs.map funcKey) (funcs.map funcKey)) ∧
    (Agrees n op (funcs.map funcKey)
        ((n.udpFunctionSwitchHandler (switchCommand node op funcs)).map fun q => (q.1, some q.2)) ↔
      ReplyFits n op (funcs.dropLast.map funcKey) (funcs.map funcKey)) := by
  constructor
  · rw [ndnFunctionSwitchHandler_eq, ← agrees_iff (List.Subset.refl _)]
    have hflag : ∃ b, n.lastKnown (funcs.map funcKey) = some b := by
      rw [lastKnown, List.getLast?_map, List.getLast?_eq_some_getLast hne]
      exact ⟨_, rfl⟩
    obtain ⟨b, hb⟩ := hflag
    rw [hb]
    rfl
  · have hsplit := List.dropLast_append_getLast hne
    have hsub : funcs.dropLast.map funcKey ⊆ funcs.map funcKey :=
      List.map_subset _ (List.dropLast_subset funcs)
    have heq := udpFunctionSwitchHandler_eq n op hnode (hsplit.symm ▸ hfuncs)
    rw [hsplit] at heq
    rw [heq, ← agrees_iff hsub]
    rcases switchAll op n (funcs.dropLast.map funcKey) with e | m <;> rfl

/-- A `Disable` for a function that the node does not know and one that it knows. -/
theorem switch_reply_disagrees :
    let funcs := ["x".toList, "f".toList]
    ¬ Agrees oneFunction .disable (funcs.map funcKey)
        (oneFunction.ndnFunctionSwitchHandler (switchName "n".toList .disable funcs)) ∧
      ¬ Agrees oneFunction .disable (funcs.map funcKey)
        ((oneFunction.udpFunctionSwitchHandler (switchCommand "n".toList .disable funcs)).map
          fun q => (q.1, some q.2)) := by
  decide

/-- A command that names its one function twice. -/
theorem switch_reply_agrees_oneFunction :
    let funcs := ["f".toList, "f".toList]
    Agrees oneFunction .disable (funcs.map funcKey)
        (oneFunction.ndnFunctionSwitchHandler (switchName "n".toList .disable funcs)) ∧
      Agrees oneFunction .disable (funcs.map funcKey)
        ((oneFunction.udpFunctionSwitchHandler (switchCommand "n".toList .disable funcs)).map
          fun q => (q.1, some q.2)) := by
  intro funcs
  have h := @switch_reply_agrees_iff oneFunction "n".toList .disable funcs (by decide) (by decide)
    (by decide)
  exact ⟨h.1.mpr ⟨by decide, by decide, by decide⟩, h.2.mpr ⟨by decide, by decide, by decide⟩⟩

end IncSim
