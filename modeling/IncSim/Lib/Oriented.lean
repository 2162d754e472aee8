import Mathlib.Data.List.Count
import Mathlib.Data.Sym.Sym2

/-!
# Oriented pairs

Pairs come one by one, and a pair is left out when its reverse was kept before.

* `joined`: the unordered pair; `keep`, `kept`: one pair, all pairs.
* `first`, **`mem_kept_iff`**: what is kept is what comes first of its unordered pair.
* **`countP_kept_pos`**: what comes is kept in one of its directions; `count_kept`,
  `count_kept_self`: how often.
* `FirstOnce`, **`kept_once_iff`**: an unordered pair is kept at most once exactly when the direction
  that comes first does not come again.
-/

namespace Oriented

universe u

variable {α : Type u}

/-- The unordered pair. -/
abbrev joined (p : α × α) : Sym2 α := s(p.1, p.2)

theorem joined_swap (p : α × α) : joined p.swap = joined p := Sym2.eq_swap

variable [DecidableEq α]

/-- A pair is left out when its reverse is there. -/
def keep (l : List (α × α)) (p : α × α) : List (α × α) := if p.swap ∈ l then l else l ++ [p]

def kept (l : List (α × α)) : List (α × α) := l.foldl keep []

/-- The first pair of an unordered pair. -/
def first (l : List (α × α)) (z : Sym2 α) : Option (α × α) := l.find? (joined · = z)

variable {l : List (α × α)} {p q : α × α} {z : Sym2 α}

theorem kept_concat (l : List (α × α)) (p : α × α) : kept (l ++ [p]) = keep (kept l) p := by
  rw [kept, List.foldl_append]
  rfl

theorem first_concat (l : List (α × α)) (p : α × α) (z : Sym2 α) :
    first (l ++ [p]) z = (first l z).or (if joined p = z then some p else none) := by
  unfold first
  rw [List.find?_append, List.find?_singleton]
  simp

theorem joined_of_first (h : first l z = some p) : joined p = z := by
  simpa using List.find?_some h

theorem mem_of_first (h : first l z = some p) : p ∈ l := List.mem_of_find?_eq_some h

/-- What comes first of an unordered pair is a given direction of it, or the reverse. -/
theorem first_joined (h : first l (joined p) = some q) : q = p ∨ q = p.swap :=
  Sym2.mk_eq_mk_iff.mp (joined_of_first h)

theorem mem_keep : p ∈ keep l q ↔ p ∈ l ∨ p = q ∧ q.swap ∉ l := by
  unfold keep
  split_ifs with h
  · exact (or_iff_left fun hq => hq.2 h).symm
  · rw [List.mem_append, List.mem_singleton, and_iff_left h]

/-- **What is kept** is what comes first of its unordered pair. -/
theorem mem_kept_iff : p ∈ kept l ↔ first l (joined p) = some p := by
  induction l using List.reverseRecOn generalizing p with
  | nil => exact iff_of_false List.not_mem_nil nofun
  | append_singleton l q ih =>
    have hswap : p.swap ∈ kept l ↔ first l (joined p) = some p.swap := by rw [ih, joined_swap]
    rw [kept_concat, mem_keep, ih, first_concat]
    cases hfirst : first l (joined p) with
    | none =>
      have hq : (p = q ∧ q.swap ∉ kept l) ↔ q = p := by
        rw [hfirst] at hswap
        refine ⟨fun h => h.1.symm, ?_⟩
        rintro rfl
        exact ⟨rfl, fun h => nomatch hswap.mp h⟩
      rw [hq, or_iff_right nofun, Option.none_or]
      split_ifs with hjoined
      · exact Option.some_inj.symm
      · exact iff_of_false (fun h => hjoined (congrArg joined h)) nofun
    | some r =>
      rw [Option.some_or, or_iff_left_of_imp]
      rintro ⟨rfl, hq⟩
      rcases first_joined hfirst with rfl | rfl
      · rfl
      · exact absurd (hswap.mpr hfirst) hq

/-- One direction of a pair that comes is kept. -/
theorem mem_kept_or (h : p ∈ l) : p ∈ kept l ∨ p.swap ∈ kept l := by
  obtain ⟨r, hr⟩ : ∃ r, first l (joined p) = some r := by
    refine Option.isSome_iff_exists.mp (List.find?_isSome.mpr ⟨p, h, ?_⟩)
    exact decide_eq_true rfl
  rcases first_joined hr with rfl | rfl
  · exact Or.inl (mem_kept_iff.mpr hr)
  · refine Or.inr (mem_kept_iff.mpr ?_)
    rw [joined_swap]
    exact hr

theorem swap_notMem_kept (hne : p.swap ≠ p) (h : p ∈ kept l) : p.swap ∉ kept l := by
  rw [mem_kept_iff] at h
  rw [mem_kept_iff, joined_swap, h]
  exact fun hswap => hne (Option.some.inj hswap).symm

/-- **What comes is kept** in one of its directions. -/
theorem countP_kept_pos (h : p ∈ l) : 0 < (kept l).countP (joined · = joined p) := by
  rw [List.countP_pos_iff]
  rcases mem_kept_or h with h | h
  · exact ⟨p, h, decide_eq_true rfl⟩
  · exact ⟨p.swap, h, decide_eq_true (joined_swap p)⟩

/-! ## How often -/

/-- A direction of two different ends is kept each time it comes, or never. -/
theorem count_kept (hne : p.swap ≠ p) (h : p ∈ kept l) : (kept l).count p = l.count p := by
  induction l using List.reverseRecOn with
  | nil => rfl
  | append_singleton l q ih =>
    rw [kept_concat] at h ⊢
    rw [List.count_append]
    by_cases hp : p ∈ kept l
    · have hswap := swap_notMem_kept hne hp
      unfold keep
      split_ifs with hq
      · have hqp : q ≠ p := by
          rintro rfl
          exact hswap hq
        rw [ih hp, List.count_singleton, if_neg (by simpa using hqp), Nat.add_zero]
      · rw [List.count_append, ih hp]
    · obtain ⟨rfl, hswap⟩ := (mem_keep.mp h).resolve_left hp
      have hl : p ∉ l := fun hmem => (mem_kept_or hmem).elim hp hswap
      rw [keep, if_neg hswap, List.count_append, List.count_eq_zero.mpr hp,
        List.count_eq_zero.mpr hl]

/-- A pair of one element is kept once. -/
theorem count_kept_self (hself : p.swap = p) : (kept l).count p ≤ 1 := by
  induction l using List.reverseRecOn with
  | nil => exact Nat.zero_le 1
  | append_singleton l q ih =>
    rw [kept_concat, keep]
    split_ifs with h
    · exact ih
    · rw [List.count_append, List.count_singleton]
      split_ifs with hq
      · rw [beq_iff_eq] at hq
        rw [hq, hself] at h
        rw [List.count_eq_zero.mpr h]
      · exact ih

/-- The direction of two different ends that comes first comes once. -/
def FirstOnce (l : List (α × α)) : Prop :=
  ∀ p, p.1 ≠ p.2 → first l (joined p) = some p → l.count p = 1

instance (l : List (α × α)) : Decidable (FirstOnce l) :=
  decidable_of_iff (∀ p ∈ l, p.1 ≠ p.2 → first l (joined p) = some p → l.count p = 1)
    ⟨fun h p hp hfirst => h p (mem_of_first hfirst) hp hfirst, fun h p _ => h p⟩

theorem countP_joined (l : List (α × α)) (p : α × α) :
    l.countP (joined · = joined p) = l.count p + if p.swap = p then 0 else l.count p.swap := by
  induction l with
  | nil => simp
  | cons q l ih =>
    have hjoined : joined q = joined p ↔ q = p ∨ q = p.swap := Sym2.mk_eq_mk_iff
    rw [List.countP_cons, ih, List.count_cons, List.count_cons]
    simp only [hjoined, beq_iff_eq, decide_eq_true_eq]
    by_cases hself : p.swap = p
    · simp only [hself, or_self, if_true]
      omega
    · by_cases hq : q = p
      · subst hq
        simp only [true_or, if_true, hself, if_false, Ne.symm hself]
        omega
      · simp only [hq, false_or, if_false, hself]
        omega

/-- **An unordered pair is kept at most once** exactly when the direction that comes first does not
come again. -/
theorem kept_once_iff : (∀ z, (kept l).countP (joined · = z) ≤ 1) ↔ FirstOnce l := by
  have hswap : ∀ p : α × α, p.swap = p ↔ p.1 = p.2 := by
    rintro ⟨a, b⟩
    simp [Prod.ext_iff, eq_comm]
  constructor
  · intro h p hp hfirst
    have hne : p.swap ≠ p := (hswap p).not.mpr hp
    have hmem : p ∈ kept l := mem_kept_iff.mpr hfirst
    have hle := h (joined p)
    have hpos := List.count_pos_iff.mpr hmem
    rw [countP_joined, count_kept hne hmem] at hle
    rw [count_kept hne hmem] at hpos
    omega
  · intro h z
    cases hfirst : first l z with
    | none =>
      have hzero : (kept l).countP (joined · = z) = 0 := by
        refine List.countP_eq_zero.mpr fun q hq hjoined => ?_
        rw [mem_kept_iff, of_decide_eq_true hjoined, hfirst] at hq
        cases hq
      rw [hzero]
      exact Nat.zero_le 1
    | some p =>
      obtain rfl := joined_of_first hfirst
      have hmem : p ∈ kept l := mem_kept_iff.mpr hfirst
      rw [countP_joined]
      split_ifs with hself
      · exact count_kept_self hself
      · rw [count_kept hself hmem, h p ((hswap p).not.mp hself) hfirst,
          List.count_eq_zero.mpr (swap_notMem_kept hself hmem)]

end Oriented
