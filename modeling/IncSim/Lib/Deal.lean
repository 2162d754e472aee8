import Mathlib.Data.List.Basic
import Mathlib.Tactic.Ring

/-!
# Dealing out

The cards `0, ..., n - 1` go to the hands `0, ..., t - 1`: a block of `n / t` cards to each hand, and
what remains one by one to the first hands.

* `blocks`, `rest`, `deal`: pairs of a hand and a card, in the order in which they are dealt.
* **`map_snd_deal`**: every card is dealt once.
* **`count_deal`**: how many cards a hand gets; `count_deal_le`: no two hands differ by two cards.
-/

namespace Deal

variable {t n q m i j : ℕ}

/-- Blocks of `q` cards. -/
def blocks (t q : ℕ) : List (ℕ × ℕ) :=
  (List.range t).flatMap fun i => (List.range q).map fun j => (i, j + i * q)

/-- One card for each hand while there are cards. -/
def rest (t n : ℕ) : List (ℕ × ℕ) :=
  ((List.range t).takeWhile fun i => i + n / t * t < n).map fun i => (i, i + n / t * t)

def deal (t n : ℕ) : List (ℕ × ℕ) := blocks t (n / t) ++ rest t n

/-! ## The blocks -/

theorem blocks_succ (t q : ℕ) :
    blocks (t + 1) q = blocks t q ++ (List.range q).map fun j => (t, j + t * q) := by
  rw [blocks, List.range_succ, List.flatMap_append, List.flatMap_singleton]
  rfl

theorem map_snd_blocks (t q : ℕ) : (blocks t q).map Prod.snd = List.range (t * q) := by
  induction t with
  | zero => simp [blocks]
  | succ t ih =>
    rw [blocks_succ, List.map_append, ih, List.map_map, Nat.succ_mul, List.range_add]
    congr 1
    exact List.map_congr_left fun j _ => Nat.add_comm j (t * q)

theorem count_blocks : ((blocks t q).map Prod.fst).count i = if i < t then q else 0 := by
  induction t with
  | zero => simp [blocks]
  | succ t ih =>
    have hblock : ((List.range q).map fun j => (t, j + t * q)).map Prod.fst = List.replicate q t := by
      rw [List.map_map, List.eq_replicate_iff]
      simp
    rw [blocks_succ, List.map_append, List.count_append, ih, hblock, List.count_replicate]
    simp only [beq_iff_eq]
    split_ifs <;> omega

/-! ## The rest -/

/-- An initial segment ends where a bound does. -/
theorem takeWhile_range (h : n - m ≤ t) :
    ((List.range t).takeWhile fun i => i + m < n) = List.range (n - m) := by
  obtain ⟨k, rfl⟩ := Nat.exists_eq_add_of_le h
  rw [List.range_add, List.takeWhile_append_of_pos]
  · cases k with
    | zero => exact List.append_nil _
    | succ k =>
      have hstop : ¬ n - m + 0 + m < n := by omega
      rw [List.range_succ_eq_map, List.map_cons, List.takeWhile_cons_of_neg, List.append_nil]
      exact fun h => hstop (of_decide_eq_true h)
  · intro i hi
    rw [List.mem_range] at hi
    exact decide_eq_true (by omega)

theorem sub_div_mul (t n : ℕ) : n - n / t * t = n % t := by
  have := Nat.div_add_mod' n t
  omega

theorem rest_eq (h : 0 < t) :
    rest t n = (List.range (n % t)).map fun i => (i, i + n / t * t) := by
  have hle : n - n / t * t ≤ t := by
    rw [sub_div_mul]
    exact (Nat.mod_lt n h).le
  rw [rest, takeWhile_range hle, sub_div_mul]

/-! ## All cards -/

/-- **Every card is dealt once.** -/
theorem map_snd_deal (h : 0 < t) : (deal t n).map Prod.snd = List.range n := by
  rw [deal, List.map_append, map_snd_blocks, rest_eq h, List.map_map]
  calc List.range (t * (n / t)) ++ (List.range (n % t)).map (Prod.snd ∘ fun i => (i, i + n / t * t))
      = List.range (t * (n / t) + n % t) := by
        rw [List.range_add]
        congr 1
        exact List.map_congr_left fun i _ => by rw [Function.comp_apply]; ring
    _ = List.range n := by rw [Nat.div_add_mod]

/-- **What a hand gets.** -/
theorem count_deal (h : i < t) :
    ((deal t n).map Prod.fst).count i = n / t + if i < n % t then 1 else 0 := by
  have hrest : ((rest t n).map Prod.fst).count i = if i < n % t then 1 else 0 := by
    have hid : (Prod.fst ∘ fun i => (i, i + n / t * t)) = id := rfl
    rw [rest_eq (Nat.zero_lt_of_lt h), List.map_map, hid, List.map_id, List.nodup_range.count]
    simp only [List.mem_range]
  rw [deal, List.map_append, List.count_append, count_blocks, if_pos h, hrest]

/-- **The hands are even.** -/
theorem count_deal_le (hi : i < t) (hj : j < t) :
    ((deal t n).map Prod.fst).count i ≤ ((deal t n).map Prod.fst).count j + 1 := by
  rw [count_deal hi, count_deal hj]
  split_ifs <;> omega

theorem lt_of_mem_deal {s : ℕ × ℕ} (hs : s ∈ deal t n) : s.1 < t ∧ s.2 < n := by
  have hhand : s.1 < t := by
    rcases List.mem_append.mp hs with hs | hs
    · obtain ⟨i, hi, hs⟩ := List.mem_flatMap.mp hs
      obtain ⟨j, -, rfl⟩ := List.mem_map.mp hs
      exact List.mem_range.mp hi
    · obtain ⟨i, hi, rfl⟩ := List.mem_map.mp hs
      exact List.mem_range.mp ((List.takeWhile_sublist _).subset hi)
  refine ⟨hhand, ?_⟩
  have hcard : s.2 ∈ (deal t n).map Prod.snd := List.mem_map_of_mem hs
  rw [map_snd_deal (Nat.zero_lt_of_lt hhand)] at hcard
  exact List.mem_range.mp hcard

/-- **The hands that get a card.** -/
theorem mem_map_fst_deal : i ∈ (deal t n).map Prod.fst ↔ i < min t n := by
  rw [lt_min_iff, ← List.count_pos_iff]
  by_cases h : i < t
  · have hdiv : n / t = 0 ↔ n < t := Nat.div_eq_zero_iff_lt (Nat.zero_lt_of_lt h)
    rw [count_deal h]
    by_cases hn : n < t
    · rw [hdiv.mpr hn, Nat.mod_eq_of_lt hn]
      split_ifs <;> omega
    · have hpos := Nat.pos_of_ne_zero (mt hdiv.mp hn)
      exact iff_of_true (by omega) ⟨h, by omega⟩
  · refine iff_of_false (fun hpos => h ?_) fun hlt => h hlt.1
    obtain ⟨s, hs, rfl⟩ := List.mem_map.mp (List.count_pos_iff.mp hpos)
    exact (lt_of_mem_deal hs).1

end Deal
