import Mathlib.Data.Set.Basic
import Mathlib.Logic.Function.Iterate

/-!
# Cells that are switched in rounds

Every cell has an item and is on or off. A round looks at all cells at once: cells that rest are
switched off if they are on, and cells that are off are switched on if they are late, or if they
serve and a cell that is on calls for their item.

* `Relay`, `Relay.State`, `step`: the cells and one round.
* `hot`, **`called_iterate`**: from the second round on, the same items are called for.
* `settled_iterate`: from the third round on, no cell is switched on for being late.
* `flaps`, **`alternates`**, **`steady`**: what the cells do in the long run.
* **`mem_leaves_iterate`**, **`mem_joins_iterate`**: from the fourth round on, only the cells that
  flap are switched.
-/

universe u v

/-- Cells that are switched in rounds. -/
@[ext] structure Relay (ι : Type u) (κ : Type v) where
  item : ι → κ
  /-- the cells that are switched off when they are found on -/
  rests : Set ι
  /-- the cells that are switched on when their item is called for -/
  serves : Set ι
  /-- the cells that call for their item while they are on -/
  calls : Set ι
  not_rests : ∀ c ∈ calls, c ∉ rests

namespace Relay

variable {ι : Type u} {κ : Type v}

/-- The cells that are on, and those that are switched on when they are found off. -/
@[ext] structure State (ι : Type u) where
  on : Set ι
  late : Set ι

variable (r : Relay ι κ) (s : State ι)

/-- The items that are called for. -/
def called : Set κ := {x | ∃ c ∈ r.calls, c ∈ s.on ∧ r.item c = x}

/-- The cells that are switched off. -/
def leaves : Set ι := {c | c ∈ s.on ∧ c ∈ r.rests}

/-- The cells that are switched on. -/
def joins : Set ι := {c | c ∉ s.on ∧ (c ∈ s.late ∨ c ∈ r.serves ∧ r.item c ∈ r.called s)}

/-- One round. A cell that is switched on is not late any more. -/
def step : State ι where
  on := (s.on \ r.leaves s) ∪ r.joins s
  late := s.late \ r.joins s

/-- The items that some cell calls for after a round. -/
def hot : Set κ := {x | ∃ c ∈ r.calls, (c ∈ s.on ∨ c ∈ s.late) ∧ r.item c = x}

/-- The cells that are switched off and on again for ever. -/
def flaps : Set ι := {c | c ∈ r.rests ∧ c ∈ r.serves ∧ r.item c ∈ r.hot s}

/-- The cells that are on for good. -/
def kept : Set ι :=
  {c | c ∉ r.rests ∧ (c ∈ s.on ∨ c ∈ s.late ∨ c ∈ r.serves ∧ r.item c ∈ r.hot s)}

/-- No cell is to be switched on for being late, now or later. -/
def Settled : Prop := ∀ c ∈ s.late, c ∈ s.on ∧ c ∉ r.rests

variable {r s} {c : ι} {n : ℕ}

/-! ## One round -/

theorem mem_on_step_of_on (h : c ∈ s.on) : c ∈ (r.step s).on ↔ c ∉ r.rests := by
  simp [step, leaves, joins, h]

theorem mem_on_step_of_off (h : c ∉ s.on) :
    c ∈ (r.step s).on ↔ c ∈ s.late ∨ c ∈ r.serves ∧ r.item c ∈ r.called s := by
  simp [step, joins, h]

theorem late_step_subset : (r.step s).late ⊆ s.late := fun _ h => h.1

theorem called_subset_hot : r.called s ⊆ r.hot s := by
  rintro _ ⟨c, hc, hon, rfl⟩
  exact ⟨c, hc, Or.inl hon, rfl⟩

/-- A cell that is on after a round was on, or late, or serves an item that is called for. -/
theorem cause_of_mem_on_step (h : c ∈ (r.step s).on) :
    c ∈ s.on ∨ c ∈ s.late ∨ c ∈ r.serves ∧ r.item c ∈ r.called s := by
  by_cases hon : c ∈ s.on
  · exact Or.inl hon
  · exact Or.inr ((mem_on_step_of_off hon).mp h)

/-- A cell that does not rest is on after a round if it was on or late. -/
theorem mem_on_step (hrest : c ∉ r.rests) (h : c ∈ s.on ∨ c ∈ s.late) : c ∈ (r.step s).on := by
  by_cases hon : c ∈ s.on
  · exact (mem_on_step_of_on hon).mpr hrest
  · exact (mem_on_step_of_off hon).mpr (Or.inl (h.resolve_left hon))

/-- **After one round the hot items are called for.** -/
theorem called_step : r.called (r.step s) = r.hot s := by
  ext x
  constructor
  · rintro ⟨c, hc, hon, rfl⟩
    rcases cause_of_mem_on_step hon with hon | hlate | ⟨-, hcalled⟩
    · exact ⟨c, hc, Or.inl hon, rfl⟩
    · exact ⟨c, hc, Or.inr hlate, rfl⟩
    · exact called_subset_hot hcalled
  · rintro ⟨c, hc, h, rfl⟩
    exact ⟨c, hc, mem_on_step (r.not_rests c hc) h, rfl⟩

theorem hot_step : r.hot (r.step s) = r.hot s := by
  refine Set.Subset.antisymm ?_ (called_step.symm.subset.trans called_subset_hot)
  rintro _ ⟨c, hc, hon | hlate, rfl⟩
  · exact called_step.subset ⟨c, hc, hon, rfl⟩
  · exact ⟨c, hc, Or.inr (late_step_subset hlate), rfl⟩

/-- A late cell that is still late after a round was on. -/
theorem on_of_late_step (h : c ∈ (r.step s).late) : c ∈ s.on := by
  by_contra hoff
  exact h.2 ⟨hoff, Or.inl h.1⟩

theorem settled_step_step : r.Settled (r.step (r.step s)) := by
  intro c hlate
  have hon₁ := on_of_late_step hlate
  have hon := on_of_late_step (late_step_subset hlate)
  have hrest : c ∉ r.rests := (mem_on_step_of_on hon).mp hon₁
  exact ⟨(mem_on_step_of_on hon₁).mpr hrest, hrest⟩

theorem Settled.step (h : r.Settled s) : r.Settled (r.step s) := by
  intro c hlate
  obtain ⟨hon, hrest⟩ := h c (late_step_subset hlate)
  exact ⟨(mem_on_step_of_on hon).mpr hrest, hrest⟩

/-! ## Any number of rounds -/

theorem hot_iterate (n : ℕ) : r.hot (r.step^[n] s) = r.hot s := by
  induction n with
  | zero => rfl
  | succ n ih => rw [Function.iterate_succ_apply', hot_step, ih]

theorem late_iterate_subset (n : ℕ) : (r.step^[n] s).late ⊆ s.late := by
  induction n with
  | zero => exact subset_rfl
  | succ n ih =>
    rw [Function.iterate_succ_apply']
    exact late_step_subset.trans ih

/-- **From the second round on, the hot items are called for.** -/
theorem called_iterate (n : ℕ) : r.called (r.step^[n + 1] s) = r.hot s := by
  rw [Function.iterate_succ_apply', called_step, hot_iterate]

theorem settled_iterate (n : ℕ) : r.Settled (r.step^[n + 2] s) := by
  induction n with
  | zero => exact settled_step_step
  | succ n ih =>
    rw [show n + 1 + 2 = (n + 2) + 1 from rfl, Function.iterate_succ_apply']
    exact ih.step

theorem cause_of_mem_on_iterate (h : c ∈ (r.step^[n] s).on) :
    c ∈ s.on ∨ c ∈ s.late ∨ c ∈ r.serves ∧ r.item c ∈ r.hot s := by
  induction n with
  | zero => exact Or.inl h
  | succ n ih =>
    rw [Function.iterate_succ_apply'] at h
    rcases cause_of_mem_on_step h with hon | hlate | ⟨hserves, hcalled⟩
    · exact ih hon
    · exact Or.inr (Or.inl (late_iterate_subset n hlate))
    · exact Or.inr (Or.inr ⟨hserves, hot_iterate n ▸ called_subset_hot hcalled⟩)

/-- A cell that does not rest stays on. -/
theorem mem_on_iterate_add (hrest : c ∉ r.rests) {m : ℕ} (h : c ∈ (r.step^[m] s).on) (n : ℕ) :
    c ∈ (r.step^[n + m] s).on := by
  induction n with
  | zero => rwa [Nat.zero_add]
  | succ n ih =>
    rw [Nat.succ_add, Function.iterate_succ_apply']
    exact mem_on_step hrest (Or.inl ih)

/-- After two rounds the cells that are on for good are on. -/
theorem mem_on_of_kept (h : c ∈ r.kept s) (n : ℕ) : c ∈ (r.step^[n + 2] s).on := by
  obtain ⟨hrest, hcause⟩ := h
  refine mem_on_iterate_add hrest ?_ n
  by_cases hon : c ∈ (r.step s).on
  · exact mem_on_step hrest (Or.inl hon)
  · have hserves : c ∈ r.serves ∧ r.item c ∈ r.hot s := by
      rcases hcause with h | h | h
      · exact absurd (mem_on_step hrest (Or.inl h)) hon
      · exact absurd (mem_on_step hrest (Or.inr h)) hon
      · exact h
    exact (mem_on_step_of_off hon).mpr (Or.inr ⟨hserves.1, called_step.symm.subset hserves.2⟩)

/-- **A cell that flaps** is switched in every round from the second on. -/
theorem alternates (h : c ∈ r.flaps s) (n : ℕ) :
    c ∈ (r.step^[n + 2] s).on ↔ c ∉ (r.step^[n + 1] s).on := by
  obtain ⟨hrest, hserves, hhot⟩ := h
  rw [show n + 2 = (n + 1) + 1 from rfl, Function.iterate_succ_apply' r.step (n + 1)]
  by_cases hon : c ∈ (r.step^[n + 1] s).on
  · rw [mem_on_step_of_on hon]
    exact iff_of_false (fun h => h hrest) fun h => h hon
  · rw [mem_on_step_of_off hon, called_iterate]
    exact iff_of_true (Or.inr ⟨hserves, hhot⟩) hon

/-- **Every other cell** is from the fourth round on as it stays. -/
theorem steady (h : c ∉ r.flaps s) (n : ℕ) : c ∈ (r.step^[n + 3] s).on ↔ c ∈ r.kept s := by
  refine ⟨fun hon => ⟨fun hrest => ?_, cause_of_mem_on_iterate hon⟩,
    fun hkept => mem_on_of_kept hkept (n + 1)⟩
  -- a cell that rests was off one round ago, and has no cause to be on
  have hlast : c ∈ (r.step (r.step^[n + 2] s)).on := by
    rwa [← Function.iterate_succ_apply' r.step (n + 2)]
  have hoff : c ∉ (r.step^[n + 2] s).on := fun hon' =>
    (mem_on_step_of_on hon').mp hlast hrest
  rcases (mem_on_step_of_off hoff).mp hlast with hlate | ⟨hserves, hcalled⟩
  · exact hoff (settled_iterate n c hlate).1
  · exact h ⟨hrest, hserves, (called_iterate (n + 1)).subset hcalled⟩

/-! ## What is switched in the long run -/

/-- **What is switched off** from the fourth round on. -/
theorem mem_leaves_iterate (n : ℕ) :
    c ∈ r.leaves (r.step^[n + 3] s) ↔ c ∈ r.flaps s ∧ c ∈ (r.step^[n + 3] s).on := by
  constructor
  · rintro ⟨hon, hrest⟩
    refine ⟨?_, hon⟩
    by_contra hflaps
    exact ((steady hflaps n).mp hon).1 hrest
  · rintro ⟨hflaps, hon⟩
    exact ⟨hon, hflaps.1⟩

/-- **What is switched on** from the fourth round on. -/
theorem mem_joins_iterate (n : ℕ) :
    c ∈ r.joins (r.step^[n + 3] s) ↔ c ∈ r.flaps s ∧ c ∉ (r.step^[n + 3] s).on := by
  constructor
  · rintro ⟨hoff, hlate | ⟨hserves, hcalled⟩⟩
    · exact absurd (settled_iterate (n + 1) c hlate).1 hoff
    · refine ⟨?_, hoff⟩
      have hhot := (called_iterate (n + 2)).subset hcalled
      by_contra hflaps
      refine hoff ((steady hflaps n).mpr ⟨fun hrest => ?_, Or.inr (Or.inr ⟨hserves, hhot⟩)⟩)
      exact hflaps ⟨hrest, hserves, hhot⟩
  · rintro ⟨⟨-, hserves, hhot⟩, hoff⟩
    exact ⟨hoff, Or.inr ⟨hserves, (called_iterate (n + 2)).symm.subset hhot⟩⟩

end Relay
