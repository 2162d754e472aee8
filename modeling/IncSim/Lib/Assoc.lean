import Mathlib.Data.List.Basic

/-!
# Association lists

* `lookup_map_key`: changing every value by a function of its key. `lookup_of_getElem?`: the value
  of a key that stands at one place.
* **`lookup_set`**: setting the value of a key, which is added when it is not there.
* `lookup_eq_some_iff_mem`, `lookup_perm`, `lookup_filter`, `lookup_erase`: where every key stands
  once, its value is the one beside it, in any order and with entries left out.
* **`find?_modify`**: changing the first record with a given key in a list of records.
-/

namespace Assoc

variable {κ α : Type} [BEq κ] [LawfulBEq κ] [DecidableEq κ] {l : List (κ × α)} {k k' : κ} {a : α}

omit [DecidableEq κ] in
theorem lookup_map_key {β : Type} (l : List (κ × α)) (g : κ → α → β) (k : κ) :
    (l.map fun q => (q.1, g q.1 q.2)).lookup k = (l.lookup k).map (g k) := by
  induction l with
  | nil => rfl
  | cons q l ih =>
    obtain ⟨k', a⟩ := q
    by_cases h : k = k'
    · simp [h]
    · have hb : (k == k') = false := beq_false_of_ne h
      simp only [List.map_cons, List.lookup_cons, hb]
      exact ih

theorem lookup_isSome : (l.lookup k).isSome = l.any fun q => q.1 = k := by
  induction l with
  | nil => rfl
  | cons q l ih =>
    obtain ⟨k', a⟩ := q
    by_cases h : k = k'
    · simp [h]
    · have hb : (k == k') = false := beq_false_of_ne h
      simp only [List.lookup_cons, hb, List.any_cons, ih, Ne.symm h, decide_false, Bool.false_or]

theorem lookup_singleton : [(k', a)].lookup k = if k = k' then some a else none := by
  by_cases h : k = k'
  · simp [h]
  · rw [if_neg h, List.lookup_cons, beq_false_of_ne h]
    rfl

omit [DecidableEq κ] in
theorem mem_of_lookup (h : l.lookup k = some a) : (k, a) ∈ l := by
  obtain ⟨l₁, l₂, rfl, -⟩ := List.lookup_eq_some_iff.mp h
  exact List.mem_append_right l₁ List.mem_cons_self

omit [DecidableEq κ] in
/-- The value of a key that stands at one place only. -/
theorem lookup_of_getElem? {i : ℕ} (hi : l[i]? = some (k, a))
    (hone : ∀ j q, l[j]? = some q → q.1 = k → j = i) : l.lookup k = some a := by
  induction l generalizing i with
  | nil => cases hi
  | cons q l ih =>
    obtain ⟨k', b⟩ := q
    cases i with
    | zero =>
      obtain ⟨rfl, rfl⟩ := Prod.mk.inj (Option.some.inj hi)
      exact List.lookup_cons_self
    | succ i =>
      have hne : (k == k') = false := beq_false_of_ne fun h => absurd (hone 0 _ rfl h.symm) (by omega)
      rw [List.lookup_cons, hne]
      exact ih hi fun j q hq hk => Nat.succ.inj (hone (j + 1) q hq hk)

/-- Setting the value of a key: in place when the key is there, at the end when it is not. -/
theorem lookup_set (l : List (κ × α)) (k k' : κ) (a : α) :
    (if l.any fun q => q.1 = k' then l.map fun q => if q.1 = k' then (k', a) else q
      else l ++ [(k', a)]).lookup k = if k = k' then some a else l.lookup k := by
  rw [← lookup_isSome]
  split
  · next hs =>
    have hmap : (l.map fun q => if q.1 = k' then (k', a) else q) =
        l.map fun q => (q.1, if q.1 = k' then a else q.2) := by
      refine List.map_congr_left fun q _ => ?_
      split
      · next h => rw [h]
      · rfl
    rw [hmap, lookup_map_key l fun q v => if q = k' then a else v]
    by_cases h : k = k'
    · subst h
      obtain ⟨v, hv⟩ := Option.isSome_iff_exists.mp hs
      simp [hv]
    · simp [h]
  · next hs =>
    rw [List.lookup_append, lookup_singleton]
    by_cases h : k = k'
    · subst h
      simp [Option.not_isSome_iff_eq_none.mp hs]
    · simp [h]

/-! ## Keys that stand once -/

omit [DecidableEq κ] in
theorem lookup_eq_some_iff_mem (h : (l.map Prod.fst).Nodup) : l.lookup k = some a ↔ (k, a) ∈ l := by
  induction l with
  | nil => simp
  | cons q l ih =>
    obtain ⟨kq, b⟩ := q
    obtain ⟨hq, hl⟩ := List.nodup_cons.mp h
    by_cases hk : k = kq
    · subst hk
      have hnot : (k, a) ∉ l := fun hmem => hq (List.mem_map.mpr ⟨(k, a), hmem, rfl⟩)
      simp [hnot, eq_comm]
    · rw [List.lookup_cons, beq_false_of_ne hk, List.mem_cons, Prod.mk.injEq]
      simp [hk, ih hl]

omit [DecidableEq κ] in
theorem lookup_perm {l' : List (κ × α)} (h : (l.map Prod.fst).Nodup) (hp : l.Perm l') :
    l.lookup k = l'.lookup k := by
  have h' : (l'.map Prod.fst).Nodup := (hp.map Prod.fst).nodup_iff.mp h
  ext a
  rw [lookup_eq_some_iff_mem h, lookup_eq_some_iff_mem h', hp.mem_iff]

/-- Where every key stands once, a filter decides about the value of a key. -/
theorem lookup_filter {r : κ × α → Bool} (h : (l.map Prod.fst).Nodup) :
    (l.filter r).lookup k = (l.lookup k).filter fun a => r (k, a) := by
  induction l with
  | nil => rfl
  | cons x l ih =>
    obtain ⟨k', a⟩ := x
    obtain ⟨hk', hl⟩ := List.nodup_cons.mp h
    rw [List.filter_cons]
    by_cases hk : k = k'
    · subst hk
      have hnone : l.lookup k = none := by
        rw [List.lookup_eq_none_iff]
        rintro ⟨k₁, b⟩ hy
        rw [bne_iff_ne]
        rintro rfl
        exact hk' (List.mem_map.mpr ⟨_, hy, rfl⟩)
      by_cases hr : r (k, a) = true
      · simp [hr, Option.filter_some]
      · simp [hr, ih hl, hnone, Option.filter_some]
    · rw [List.lookup_cons, beq_false_of_ne hk, ← ih hl]
      by_cases hr : r (k', a) = true
      · rw [if_pos hr, List.lookup_cons, beq_false_of_ne hk]
      · rw [if_neg hr]

/-- Leaving one key out. -/
theorem lookup_erase (h : (l.map Prod.fst).Nodup) (k k' : κ) :
    (l.filter fun q => q.1 ≠ k').lookup k = if k = k' then none else l.lookup k := by
  rw [lookup_filter h]
  cases l.lookup k with
  | none => simp
  | some a => by_cases hk : k = k' <;> simp [hk, Option.filter_some]

/-! ## Lists of records -/

section Records

omit [BEq κ] [LawfulBEq κ]

variable {key : α → κ} {g : α → α} {l : List α} {i : ℕ} {a : α}

omit [DecidableEq κ] in
/-- The key of the record that is changed stays: so do all keys. -/
theorem map_key_modify (hg : ∀ a, l[i]? = some a → key (g a) = key a) :
    (l.modify i g).map key = l.map key := by
  induction l generalizing i with
  | nil => rw [List.modify_nil]
  | cons b l ih =>
    cases i with
    | zero => rw [List.modify_zero_cons, List.map_cons, List.map_cons, hg b rfl]
    | succ i =>
      rw [List.modify_succ_cons, List.map_cons, List.map_cons, ih fun a ha => hg a ha]

theorem findIdx?_key (h : (l.findIdx? fun a => key a = k) = some i) :
    ∃ a, l[i]? = some a ∧ key a = k := by
  obtain ⟨hi, hk, -⟩ := List.findIdx?_eq_some_iff_getElem.mp h
  exact ⟨l[i], List.getElem?_eq_getElem hi, of_decide_eq_true hk⟩

theorem exists_find?_key (h : k ∈ l.map key) : ∃ a, (l.find? fun a => key a = k) = some a := by
  obtain ⟨a, ha, hk⟩ := List.mem_map.mp h
  have hsome : (l.find? fun a => key a = k).isSome := by
    rw [List.find?_isSome]
    exact ⟨a, ha, decide_eq_true hk⟩
  exact Option.isSome_iff_exists.mp hsome

/-- **The first record with key `k`**, changed by a function that keeps its key, is seen at `k`
only. -/
theorem find?_modify (hi : (l.findIdx? fun a => key a = k) = some i)
    (hg : ∀ a, key a = k → key (g a) = k) (k' : κ) :
    ((l.modify i g).find? fun a => key a = k') =
      if k' = k then (l.find? fun a => key a = k).map g else l.find? fun a => key a = k' := by
  induction l generalizing i with
  | nil => cases hi
  | cons b l ih =>
    rw [List.findIdx?_cons] at hi
    by_cases hb : key b = k
    · rw [if_pos (decide_eq_true hb), Option.some.injEq] at hi
      subst hi
      have hgb := hg b hb
      rw [List.modify_zero_cons]
      by_cases hk : k' = k
      · simp [hk, hb, hgb]
      · simp [hk, hb, hgb, Ne.symm hk]
    · rw [if_neg (by simpa using hb), Option.map_eq_some_iff] at hi
      obtain ⟨j, hj, rfl⟩ := hi
      rw [List.modify_succ_cons]
      by_cases hk' : key b = k'
      · have hne : k' ≠ k := fun h => hb (hk'.trans h)
        simp [hk', hne]
      · simp only [List.find?_cons, decide_eq_false hk', decide_eq_false hb]
        exact ih hj

end Records

end Assoc
