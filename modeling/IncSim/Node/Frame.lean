import IncSim.Lib.Assoc
import IncSim.Lib.Scheduler
import IncSim.Node.ComputeNode

/-!
# What the member functions of a compute node leave alone

* `lookup_update`, `deref_eq_ok`, `getFunction_cases`, `lookup_fill`: reading the function map back.
* `enableFunction_cases`, `disableFunction_cases`: what the two switches can do.
* `Enabled`: which functions are enabled. `Same`: what of the functions stays.
* `pool`: the free resources and the fill counter.
* `Reaches`, `Frame`: the pool changes as said, or not at all; the queue size and the demands of
  the functions stay as they are.
-/

namespace IncSim

open PartialRun

namespace ComputeNode

variable {n n' n'' : ComputeNode}

/-! ## The function map -/

theorem lookup_update (k p : Str) (g : IncComputation → IncComputation) :
    (n.update k g).funcMap.lookup p =
      (n.funcMap.lookup p).map fun o => if p = k then o.map g else o := by
  have hmap : (n.update k g).funcMap =
      n.funcMap.map fun q => (q.1, if q.1 = k then q.2.map g else q.2) := by
    refine List.map_congr_left fun q _ => ?_
    split <;> rfl
  rw [hmap]
  exact Assoc.lookup_map_key n.funcMap (fun q o => if q = k then o.map g else o) p

theorem deref_some_eq (k : Str) :
    n.deref (some k) = (n.funcMap.lookup k).join.elim (.error .nullPointer) .ok := by
  simp only [deref]
  rcases n.funcMap.lookup k with _ | _ | f <;> rfl

/-- A pointer can be followed when there is an object behind it. -/
theorem deref_eq_ok {k : Str} {f : IncComputation} :
    n.deref (some k) = .ok f ↔ n.funcMap.lookup k = some (some f) := by
  rw [deref_some_eq]
  rcases n.funcMap.lookup k with _ | _ | g <;> simp

theorem need_some (k : Str) :
    n.need (some k) = ((n.funcMap.lookup k).join.map IncComputation.demand).getD fun _ => 0 := by
  simp only [need, deref_some_eq]
  rcases n.funcMap.lookup k with _ | _ | f <;> rfl

theorem need_eq_demand {p : Ptr} {f : IncComputation} (h : n.deref p = .ok f) :
    n.need p = f.demand := by
  rw [need, h]

theorem need_update {k : Str} {g : IncComputation → IncComputation}
    (hg : ∀ f, (g f).demand = f.demand) : (n.update k g).need = n.need := by
  funext p
  cases p with
  | none => rfl
  | some p =>
    rw [need_some, need_some, lookup_update]
    by_cases h : p = k
    · rcases n.funcMap.lookup p with _ | _ | f <;> simp [h, hg]
    · simp [h]

/-- `getFunction` finds the object of a key that has one, and adds a null pointer at most. -/
theorem getFunction_cases (k : Str) :
    (n.getFunction k = (n, some k) ∧ ∃ f, n.funcMap.lookup k = some (some f)) ∨
    ((n.getFunction k).2 = none ∧ (n.funcMap.lookup k).join = none ∧
      ((n.getFunction k).1 = n ∨
        (n.getFunction k).1 = { n with funcMap := n.funcMap ++ [(k, none)] })) := by
  unfold getFunction
  rcases h : n.funcMap.lookup k with _ | _ | f
  · exact Or.inr ⟨rfl, rfl, Or.inr rfl⟩
  · exact Or.inr ⟨rfl, rfl, Or.inl rfl⟩
  · exact Or.inl ⟨rfl, f, rfl⟩

theorem need_getFunction (k : Str) : (n.getFunction k).1.need = n.need := by
  rcases getFunction_cases (n := n) k with ⟨h, _⟩ | ⟨_, _, h | h⟩
  · rw [h]
  · rw [h]
  · rw [h]
    funext p
    cases p with
    | none => rfl
    | some p =>
      rw [need_some, need_some, List.lookup_append]
      rcases n.funcMap.lookup p with _ | _ | f
      · by_cases hp : p = k <;> simp [List.lookup_cons, hp, beq_false_of_ne]
      · rfl
      · rfl

theorem name_addNewFunction (name : Str) (f : IncComputation) :
    (n.addNewFunction name f).name = n.name := by
  unfold addNewFunction
  split <;> rfl

theorem lookup_addNewFunction (name : Str) (f : IncComputation) (k : Str) :
    (n.addNewFunction name f).funcMap.lookup k =
      (n.funcMap.lookup k).or (if k = name then some (some f.copy) else none) := by
  unfold addNewFunction
  split
  · next o ho =>
    split_ifs with hk
    · rw [hk, ho]
      rfl
    · rw [Option.or_none]
  · exact (List.lookup_append ..).trans (congrArg _ Assoc.lookup_singleton)

theorem name_fill (functions : List (Str × IncComputation)) : (n.fill functions).name = n.name := by
  unfold fill
  induction functions generalizing n with
  | nil => rfl
  | cons q functions ih => rw [List.foldl_cons, ih, name_addNewFunction]

/-- **A filled map** keeps what it had, and else has a copy of the first function with the key. -/
theorem lookup_fill (functions : List (Str × IncComputation)) (k : Str) :
    (n.fill functions).funcMap.lookup k =
      (n.funcMap.lookup k).or ((functions.lookup k).map fun f => some f.copy) := by
  unfold fill
  induction functions generalizing n with
  | nil => exact (Option.or_none ..).symm
  | cons q functions ih =>
    obtain ⟨name, f⟩ := q
    rw [List.foldl_cons, ih, lookup_addNewFunction, List.lookup_cons, Option.or_assoc]
    by_cases hk : k = name
    · simp [hk]
    · simp [hk, beq_false_of_ne hk]

/-! ## The two switches -/

theorem notifyFibFunctionEnable_eq (f : Str) :
    ∃ fib, n.notifyFibFunctionEnable f = { n with fib := fib } := by
  unfold notifyFibFunctionEnable
  dsimp only
  split
  · exact ⟨_, rfl⟩
  · exact ⟨_, rfl⟩

theorem notifyFibFunctionDisable_eq (f : Str) :
    ∃ fib, n.notifyFibFunctionDisable f = { n with fib := fib } := by
  unfold notifyFibFunctionDisable
  split
  · exact ⟨n.fib, rfl⟩
  · split
    · exact ⟨n.fib, rfl⟩
    · exact ⟨_, rfl⟩

/-- `EnableFunction` fails on a key that is not there, and else enables what the key holds. -/
theorem enableFunction_cases {f : Str} {b : Bool} (h : n.enableFunction f = .ok (n', b)) :
    (n.funcMap.lookup f = none ∧ n' = n ∧ b = false) ∨
    (∃ c fib, n.funcMap.lookup f = some (some c) ∧ b = true ∧
      n' = { n.update f IncComputation.enable with fib := fib }) := by
  unfold enableFunction at h
  split at h
  · cases h
    exact Or.inl ⟨‹_›, rfl, rfl⟩
  · cases h
  · next c hc =>
    cases h
    refine Or.inr ?_
    split
    · obtain ⟨fib, hfib⟩ := notifyFibFunctionEnable_eq (n := n.update f IncComputation.enable) f
      exact ⟨c, fib, hc, rfl, hfib⟩
    · exact ⟨c, n.fib, hc, rfl, rfl⟩

/-- `DisableFunction` fails on a key that is not there, and else disables what the key holds. -/
theorem disableFunction_cases {f : Str} {b : Bool} (h : n.disableFunction f = .ok (n', b)) :
    (n.funcMap.lookup f = none ∧ n' = n ∧ b = false) ∨
    (∃ c fib, n.funcMap.lookup f = some (some c) ∧ b = true ∧
      n' = { n.update f IncComputation.disable with fib := fib }) := by
  unfold disableFunction at h
  split at h
  · cases h
    exact Or.inl ⟨‹_›, rfl, rfl⟩
  · cases h
  · next c hc =>
    cases h
    refine Or.inr ?_
    split
    · obtain ⟨fib, hfib⟩ := notifyFibFunctionDisable_eq (n := n.update f IncComputation.disable) f
      exact ⟨c, fib, hc, rfl, hfib⟩
    · exact ⟨c, n.fib, hc, rfl, rfl⟩

/-! ## Enabled functions -/

/-- The function is known and enabled. -/
def Enabled (n : ComputeNode) (f : Str) : Prop :=
  ∃ c, n.funcMap.lookup f = some (some c) ∧ c.enableComputation = true

theorem enabled_update {f : Str} (n : ComputeNode) (k : Str) (g : IncComputation → IncComputation) :
    (n.update k g).Enabled f ↔
      ∃ c, n.funcMap.lookup f = some (some c) ∧
        (if f = k then g c else c).enableComputation = true := by
  unfold Enabled
  rw [lookup_update]
  rcases n.funcMap.lookup f with _ | _ | c
  · simp
  · simp
  · by_cases hf : f = k <;> simp [hf]

/-- `EnableFunction` enables the function that it finds. -/
theorem enabled_enableFunction {f k : Str} {b : Bool} (h : n.enableFunction f = .ok (n', b)) :
    n'.Enabled k ↔ n.Enabled k ∨ (b = true ∧ k = f) := by
  rcases enableFunction_cases h with ⟨-, rfl, rfl⟩ | ⟨c, fib, hc, rfl, rfl⟩
  · simp
  · have hupd : Enabled { n.update f IncComputation.enable with fib := fib } k ↔
        (n.update f IncComputation.enable).Enabled k := Iff.rfl
    rw [hupd, enabled_update]
    by_cases hk : k = f
    · refine iff_of_true ⟨c, hk ▸ hc, ?_⟩ (Or.inr ⟨rfl, hk⟩)
      rw [if_pos hk]
      rfl
    · simp only [hk, and_false, or_false]
      rfl

theorem decrementQueueFill_funcMap (now : Time) :
    (n.decrementQueueFill now).1.funcMap = n.funcMap ∧
      (n.decrementQueueFill now).1.funcExcludeList = n.funcExcludeList := by
  unfold decrementQueueFill
  split_ifs <;> exact ⟨rfl, rfl⟩

theorem incrementQueueFill_funcMap (now : Time) :
    (n.incrementQueueFill now).1.funcMap = n.funcMap ∧
      (n.incrementQueueFill now).1.funcExcludeList = n.funcExcludeList := by
  unfold incrementQueueFill
  split_ifs <;> exact ⟨rfl, rfl⟩

theorem enabled_of_deref {k : Str} {f : IncComputation} (h : n.deref (some k) = .ok f)
    (he : n.Enabled k) : f.enableComputation = true := by
  obtain ⟨c, hc, hen⟩ := he
  rw [deref_eq_ok, hc] at h
  cases h
  exact hen

/-! ## What functions keep -/

section Same

variable {α : Type} {attr : IncComputation → α}

/-- Under every key `attr` is as it was. -/
def Same (attr : IncComputation → α) (n n' : ComputeNode) : Prop :=
  ∀ k, (n'.funcMap.lookup k).join.map attr = (n.funcMap.lookup k).join.map attr

theorem Same.refl (attr : IncComputation → α) (n : ComputeNode) : Same attr n n := fun _ => rfl

theorem Same.trans (h : Same attr n n') (h' : Same attr n' n'') : Same attr n n'' :=
  fun k => (h' k).trans (h k)

theorem Same.symm (h : Same attr n n') : Same attr n' n := fun k => (h k).symm

theorem Same.of_funcMap (h : n'.funcMap = n.funcMap) : Same attr n n' := fun k => by rw [h]

theorem same_update {k : Str} {g : IncComputation → IncComputation} (hg : ∀ f, attr (g f) = attr f) :
    Same attr n (n.update k g) := by
  intro p
  rw [lookup_update]
  by_cases hp : p = k
  · rcases n.funcMap.lookup p with _ | _ | f <;> simp [hp, hg]
  · simp [hp]

theorem same_getFunction (k : Str) : Same attr n (n.getFunction k).1 := by
  rcases getFunction_cases (n := n) k with ⟨h, _⟩ | ⟨_, hk, h | h⟩
  · rw [h]
    exact Same.refl attr n
  · rw [h]
    exact Same.refl attr n
  · rw [h]
    intro p
    rw [List.lookup_append, Assoc.lookup_singleton]
    by_cases hp : p = k
    · rw [hp, hk, if_pos rfl]
      rcases hl : n.funcMap.lookup k with _ | _ | f
      · rfl
      · rfl
      · rw [hl] at hk
        cases hk
    · rw [if_neg hp, Option.or_none]

theorem same_enableFunction {f : Str} {b : Bool} (hg : ∀ f, attr f.enable = attr f)
    (h : n.enableFunction f = .ok (n', b)) : Same attr n n' := by
  rcases enableFunction_cases h with ⟨-, rfl, -⟩ | ⟨c, fib, -, -, rfl⟩
  · exact Same.refl attr _
  · exact (same_update hg).trans (Same.of_funcMap rfl)

theorem same_disableFunction {f : Str} {b : Bool} (hg : ∀ f, attr f.disable = attr f)
    (h : n.disableFunction f = .ok (n', b)) : Same attr n n' := by
  rcases disableFunction_cases h with ⟨-, rfl, -⟩ | ⟨c, fib, -, -, rfl⟩
  · exact Same.refl attr _
  · exact (same_update hg).trans (Same.of_funcMap rfl)

theorem same_incrementQueueFill (now : Time) : Same attr n (n.incrementQueueFill now).1 :=
  Same.of_funcMap (incrementQueueFill_funcMap now).1

theorem enabled_iff {k : Str} : n.Enabled k ↔
    (n.funcMap.lookup k).join.map IncComputation.enableComputation = some true := by
  unfold Enabled
  rcases n.funcMap.lookup k with _ | _ | c <;> simp

/-- Where it is kept which functions are enabled, the same ones are. -/
theorem Same.enabled (h : Same IncComputation.enableComputation n n') (k : Str) :
    n'.Enabled k ↔ n.Enabled k := by
  rw [enabled_iff, enabled_iff, h k]

theorem Same.deref (h : Same attr n n') {k : Str} {f : IncComputation}
    (hf : n.deref (some k) = .ok f) : ∃ g, n'.deref (some k) = .ok g ∧ attr g = attr f := by
  have hk := h k
  rw [deref_eq_ok.mp hf] at hk
  obtain ⟨g, hg, hattr⟩ := Option.map_eq_some_iff.mp hk
  exact ⟨g, deref_eq_ok.mpr (Option.join_eq_some_iff.mp hg), hattr⟩

end Same

/-! ## Steps on the pool -/

/-- The free resources of the node and its count of waiting computations. -/
def pool (n : ComputeNode) : Scheduler.Pool Resource := ⟨n.available, n.queueFill.toNat⟩

/-- From `n` to `n'` the pool became `p`; the queue size and the demands stay. -/
structure Reaches (n : ComputeNode) (p : Scheduler.Pool Resource) (n' : ComputeNode) : Prop where
  pool : n'.pool = p
  queueSize : n'.queueSize = n.queueSize
  need : n'.need = n.need

/-- From `n` to `n'` nothing was booked, released or queued. -/
abbrev Frame (n n' : ComputeNode) : Prop := Reaches n n.pool n'

theorem Frame.refl (n : ComputeNode) : Frame n n := ⟨rfl, rfl, rfl⟩

theorem Reaches.trans {p q : Scheduler.Pool Resource} (h : Reaches n p n') (h' : Reaches n' q n'') :
    Reaches n q n'' :=
  ⟨h'.pool, h'.queueSize.trans h.queueSize, h'.need.trans h.need⟩

theorem Reaches.frame {p : Scheduler.Pool Resource} (h : Reaches n p n') (h' : Frame n' n'') :
    Reaches n p n'' :=
  h.pool ▸ h.trans h'

theorem Frame.trans (h : Frame n n') (h' : Frame n' n'') : Frame n n'' := Reaches.frame h h'

theorem frame_fib (fib : Fib) : Frame n { n with fib := fib } := ⟨rfl, rfl, rfl⟩

theorem frame_update {k : Str} {g : IncComputation → IncComputation}
    (hg : ∀ f, (g f).demand = f.demand) : Frame n (n.update k g) :=
  ⟨rfl, rfl, need_update hg⟩

theorem frame_getFunction (k : Str) : Frame n (n.getFunction k).1 := by
  refine ⟨?_, ?_, need_getFunction k⟩
  · unfold getFunction
    split <;> rfl
  · unfold getFunction
    split <;> rfl

theorem frame_addNodeBusyCounter : Frame n n.addNodeBusyCounter := ⟨rfl, rfl, rfl⟩

theorem frame_notifyFibFunctionDisable (f : Str) : Frame n (n.notifyFibFunctionDisable f) := by
  obtain ⟨fib, h⟩ := notifyFibFunctionDisable_eq (n := n) f
  exact h ▸ frame_fib fib

theorem demand_enable (f : IncComputation) : f.enable.demand = f.demand := by
  funext r
  cases r <;> rfl

theorem demand_execute (f : IncComputation) : f.execute.demand = f.demand := by
  funext r
  cases r <;> rfl

theorem demand_addMissExecCounter (f : IncComputation) :
    f.addMissExecCounter.demand = f.demand := by
  unfold IncComputation.addMissExecCounter
  split
  · rfl
  · funext r
    cases r <;> rfl

theorem frame_enableFunction {f : Str} {b : Bool} (h : n.enableFunction f = .ok (n', b)) :
    Frame n n' := by
  rcases enableFunction_cases h with ⟨_, rfl, _⟩ | ⟨c, fib, _, _, rfl⟩
  · exact Frame.refl _
  · exact (frame_update demand_enable).trans (frame_fib fib)

/-- One more computation waits. -/
theorem reaches_incrementQueueFill (now : Time) :
    Reaches n { n.pool with fill := Scheduler.countUp n.queueSize.toNat n.pool.fill }
      (n.incrementQueueFill now).1 := by
  unfold incrementQueueFill
  by_cases h : n.queueFill < n.queueSize
  · have hn : n.queueFill.toNat < n.queueSize.toNat := UInt32.lt_iff_toNat_lt.mp h
    have hfill : (n.queueFill + 1).toNat = n.queueFill.toNat + 1 := by
      have := UInt32.toNat_lt n.queueSize
      rw [UInt32.toNat_add]
      exact Nat.mod_eq_of_lt (by simp only [UInt32.reduceToNat]; omega)
    rw [if_pos h]
    refine ⟨Scheduler.Pool.ext ?_ ?_, ?_, ?_⟩
    · dsimp only
      split <;> rfl
    · have hcount : Scheduler.countUp n.queueSize.toNat n.pool.fill = n.queueFill.toNat + 1 := if_pos hn
      dsimp only
      rw [hcount]
      split <;> exact hfill
    · dsimp only
      split <;> rfl
    · dsimp only
      split <;> rfl
  · have hn : ¬ n.queueFill.toNat < n.queueSize.toNat := fun hn => h (UInt32.lt_iff_toNat_lt.mpr hn)
    rw [if_neg h]
    refine ⟨Scheduler.Pool.ext ?_ ?_, ?_, ?_⟩
    · dsimp only
      split <;> rfl
    · have hcount : Scheduler.countUp n.queueSize.toNat n.pool.fill = n.queueFill.toNat := if_neg hn
      dsimp only
      rw [hcount]
      split <;> rfl
    · dsimp only
      split <;> rfl
    · dsimp only
      split <;> rfl

/-- One computation less waits. -/
theorem reaches_decrementQueueFill (now : Time) (h : n.pool.fill ≠ 0) :
    Reaches n { n.pool with fill := n.pool.fill - 1 } (n.decrementQueueFill now).1 := by
  have hpos : (0 : UInt32) < n.queueFill := by
    refine UInt32.lt_iff_toNat_lt.mpr ?_
    exact Nat.pos_of_ne_zero h
  have hfill : (n.queueFill - 1).toNat = n.queueFill.toNat - 1 :=
    UInt32.toNat_sub_of_le _ _ (UInt32.le_iff_toNat_le.mpr (Nat.pos_of_ne_zero h))
  unfold decrementQueueFill
  rw [if_pos hpos]
  refine ⟨Scheduler.Pool.ext ?_ ?_, ?_, ?_⟩
  · dsimp only
    split <;> rfl
  · dsimp only [pool]
    split <;> exact hfill
  · dsimp only
    split <;> rfl
  · dsimp only
    split <;> rfl

end ComputeNode

end IncSim
