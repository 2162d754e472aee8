import Mathlib.Data.List.Basic
import IncSim.Node.Switch

/-!
# The whole effect of a switch command

* `SwitchOp.status`, `SwitchOp.exclude`: what an operation makes of a status and of the exclude list.
* `mapAll`: the objects under several keys changed.
* `switch_eq`: one function of a command, with its flag. `switchAll_eq`, `lookup_switchAll_eq`: all of
  them.
* `Switched`, **`switched_of_switchAll`**: a command changes what it names and nothing else.
-/

namespace IncSim

open PartialRun

namespace ComputeNode

/-- The enable status that an operation leaves. -/
def SwitchOp.status : SwitchOp → Bool
  | .enable => true
  | .disable => false

/-- The exclude list after one function of a command. -/
def SwitchOp.exclude : SwitchOp → List Str → Str → List Str
  | .enable, l, k => l.erase k
  | .disable, l, k => l ++ [k]

/-- The objects under `ks` changed by `g`. -/
def mapAll (ks : List Str) (g : IncComputation → IncComputation)
    (l : List (Str × Option IncComputation)) : List (Str × Option IncComputation) :=
  l.map fun q => (q.1, if q.1 ∈ ks then q.2.map g else q.2)

variable {n m : ComputeNode} {op : SwitchOp} {k : Str} {ks : List Str} {b : Bool}

@[simp] theorem mapAll_nil (g : IncComputation → IncComputation)
    (l : List (Str × Option IncComputation)) : mapAll [] g l = l := by simp [mapAll]

/-- Changing an object again by the same operation changes nothing. -/
theorem mapAll_mapAt {g : IncComputation → IncComputation} (hg : ∀ f, g (g f) = g f)
    (l : List (Str × Option IncComputation)) : mapAll ks g (mapAt k g l) = mapAll (k :: ks) g l := by
  have htwice : ∀ o : Option IncComputation, (o.map g).map g = o.map g := by
    rintro (_ | f)
    · rfl
    · exact congrArg some (hg f)
  rw [mapAll, mapAll, mapAt, List.map_map]
  refine List.map_congr_left fun q _ => ?_
  by_cases hk : q.1 = k
  · by_cases hks : k ∈ ks <;> simp [hk, hks, htwice]
  · simp [hk]

theorem lookup_mapAll (g : IncComputation → IncComputation)
    (l : List (Str × Option IncComputation)) (k : Str) :
    (mapAll ks g l).lookup k = (l.lookup k).map fun o => if k ∈ ks then o.map g else o :=
  Assoc.lookup_map_key l (fun q o => if q ∈ ks then o.map g else o) k

theorem effect_effect (op : SwitchOp) (f : IncComputation) :
    SwitchOp.effect op (SwitchOp.effect op f) = SwitchOp.effect op f := by cases op <;> rfl

/-! ## One function -/

/-- **One function of a command.** The flag says whether the node knows it. -/
theorem switch_eq (h : switch op n k = .ok (m, b)) :
    b = (n.funcMap.lookup k).isSome ∧
      m = { n with
        funcMap := mapAt k (SwitchOp.effect op) n.funcMap
        funcExcludeList := SwitchOp.exclude op n.funcExcludeList k
        fib := m.fib } := by
  cases op with
  | enable =>
    obtain ⟨hmap, hex⟩ := switchOn_spec h
    have h : n.switchOn k = .ok (m, b) := h
    simp only [switchOn, bind_eq_ok, pure_eq_ok] at h
    obtain ⟨⟨n₁, b₁⟩, he, h⟩ := h
    obtain ⟨hm, rfl⟩ := Prod.mk.inj h
    have hrest : m = { n₁ with funcExcludeList := m.funcExcludeList } := by
      rw [← hm]
      dsimp only
      split <;> rfl
    rcases enableFunction_cases he with ⟨hl, rfl, rfl⟩ | ⟨c, fib, hl, rfl, rfl⟩
    · refine ⟨by rw [hl]; rfl, ?_⟩
      rw [SwitchOp.effect, SwitchOp.exclude, ← hmap, ← hex]
      rw [hrest]
    · refine ⟨by rw [hl]; rfl, ?_⟩
      rw [SwitchOp.effect, SwitchOp.exclude, ← hmap, ← hex]
      rw [hrest]
      rfl
  | disable =>
    obtain ⟨hmap, hex⟩ := switchOff_spec h
    have h : n.switchOff k = .ok (m, b) := h
    simp only [switchOff, bind_eq_ok, pure_eq_ok] at h
    obtain ⟨⟨n₁, b₁⟩, he, h⟩ := h
    obtain ⟨rfl, rfl⟩ := Prod.mk.inj h
    rcases disableFunction_cases he with ⟨hl, rfl, rfl⟩ | ⟨c, fib, hl, rfl, rfl⟩
    · refine ⟨by rw [hl]; rfl, ?_⟩
      rw [SwitchOp.effect, SwitchOp.exclude, ← hmap, ← hex]
      rfl
    · refine ⟨by rw [hl]; rfl, ?_⟩
      rw [SwitchOp.effect, SwitchOp.exclude, ← hmap, ← hex]
      rfl

/-! ## All functions -/

theorem foldl_exclude_enable (l : List Str) :
    ks.foldl (SwitchOp.exclude .enable) l = l.diff ks := (List.diff_eq_foldl l ks).symm

theorem foldl_exclude_disable (l : List Str) :
    ks.foldl (SwitchOp.exclude .disable) l = l ++ ks := by
  induction ks generalizing l with
  | nil => exact (List.append_nil l).symm
  | cons k ks ih =>
    rw [List.foldl_cons, ih, SwitchOp.exclude, List.append_assoc]
    rfl

/-- **All functions of a command.** -/
theorem switchAll_eq (h : switchAll op n ks = .ok m) :
    m = { n with
      funcMap := mapAll ks (SwitchOp.effect op) n.funcMap
      funcExcludeList := ks.foldl (SwitchOp.exclude op) n.funcExcludeList
      fib := m.fib } := by
  induction ks generalizing n with
  | nil =>
    cases h
    rw [mapAll_nil]
    rfl
  | cons k ks ih =>
    obtain ⟨⟨n₁, b⟩, hq, hm⟩ := switchAll_cons.mp h
    have hstep := (switch_eq hq).2
    have hrest := ih hm
    rw [hstep] at hrest
    rw [hrest]
    dsimp only
    rw [mapAll_mapAt (effect_effect op), List.foldl_cons]

theorem funcMap_switchAll (h : switchAll op n ks = .ok m) :
    m.funcMap = mapAll ks (SwitchOp.effect op) n.funcMap := by rw [switchAll_eq h]

theorem funcExcludeList_switchAll (h : switchAll op n ks = .ok m) :
    m.funcExcludeList = ks.foldl (SwitchOp.exclude op) n.funcExcludeList := by rw [switchAll_eq h]

theorem lookup_switchAll_eq (h : switchAll op n ks = .ok m) (k : Str) : m.funcMap.lookup k =
    (n.funcMap.lookup k).map fun o => if k ∈ ks then o.map (SwitchOp.effect op) else o := by
  rw [funcMap_switchAll h, lookup_mapAll]

/-- A command with operation `op` for the functions `ks` makes `m` of `n`. -/
structure Switched (op : SwitchOp) (ks : List Str) (n m : ComputeNode) : Prop where
  /-- the function map, the exclude list and the FIB apart, the node is as it was -/
  record : m = { n with
    funcMap := m.funcMap, funcExcludeList := m.funcExcludeList, fib := m.fib }
  keys : m.funcMap.map Prod.fst = n.funcMap.map Prod.fst
  /-- a function that is named has the status of the operation, and an enabled one no misses -/
  named : ∀ k ∈ ks, ∀ f, n.deref (some k) = .ok f → m.deref (some k) = .ok { f with
    enableComputation := SwitchOp.status op
    missExecCounter := if op = .enable then 0 else f.missExecCounter }
  unnamed : ∀ k ∉ ks, m.funcMap.lookup k = n.funcMap.lookup k
  excluded : op = .disable → m.funcExcludeList = n.funcExcludeList ++ ks
  /-- one occurrence less for each mention -/
  readmitted : op = .enable → m.funcExcludeList = n.funcExcludeList.diff ks

theorem effect_eq (op : SwitchOp) (f : IncComputation) : SwitchOp.effect op f = { f with
    enableComputation := SwitchOp.status op
    missExecCounter := if op = .enable then 0 else f.missExecCounter } := by cases op <;> rfl

/-- **A command changes what it names and nothing else.** -/
theorem switched_of_switchAll (h : switchAll op n ks = .ok m) : Switched op ks n m := by
  have hmap := funcMap_switchAll h
  have hex := funcExcludeList_switchAll h
  refine ⟨by rw [hmap, hex]; exact switchAll_eq h, ?_, fun k hk f hf => ?_, fun k hk => ?_, ?_, ?_⟩
  · rw [hmap, mapAll, List.map_map]
    rfl
  · rw [deref_eq_ok] at hf ⊢
    rw [lookup_switchAll_eq h, hf, Option.map_some, if_pos hk, Option.map_some, effect_eq]
  · rw [lookup_switchAll_eq h]
    simp only [if_neg hk, Option.map_id']
  · rintro rfl
    rw [hex, foldl_exclude_disable]
  · rintro rfl
    rw [hex, foldl_exclude_enable]

end ComputeNode

end IncSim
