import Mathlib.Order.Lattice
import Mathlib.Order.Defs.LinearOrder
import Mathlib.Data.List.Basic
import IncSim.Lib.Assoc

/-!
# Ordered maps

A map whose entries are kept in the order of their keys, each key once (`std::map`).

* `OrdMap`, `find?`, `find?_eq_some_iff_mem`: the entries, sorted by key, and the value of a key.
* `insertNew`, **`find?_insertNew`**: insertion, which leaves the value of a key that is there.
* `modify`, **`find?_modify`**: changing the value of a key in place.
* `put`: replacing the value of a key that is there; a chain of changes to one key is one `put`.
* `erase`, **`find?_erase`**: erasure of a key. `first`: the least key.
* `All`, `Carries`: what holds of all values, and how the values of a map survive in a later one.
-/

/-- A map with its entries in the order of their keys. -/
structure OrdMap (κ α : Type) [LinearOrder κ] where
  entries : List (κ × α)
  sorted : (entries.map Prod.fst).Pairwise (· < ·)

namespace OrdMap

variable {κ α : Type} [LinearOrder κ] {m : OrdMap κ α} {k k' : κ} {a b : α} {l : List (κ × α)}

/-- The map with no entry. -/
def empty : OrdMap κ α := ⟨[], List.Pairwise.nil⟩

/-- The map with one entry. -/
def single (k : κ) (a : α) : OrdMap κ α := ⟨[(k, a)], List.pairwise_singleton _ _⟩

/-- The value of a key. -/
def find? (m : OrdMap κ α) (k : κ) : Option α := m.entries.lookup k

@[simp] theorem find?_empty : (empty : OrdMap κ α).find? k = none := rfl

/-- The value of a key is the one that stands beside it. -/
theorem find?_eq_some_iff_mem : m.find? k = some a ↔ (k, a) ∈ m.entries :=
  Assoc.lookup_eq_some_iff_mem (m.sorted.imp ne_of_lt)

/-! ## Insertion -/

/-- The entries with a new one at its place; the entry of a key that is there stays. -/
def insertEntry (k : κ) (a : α) : List (κ × α) → List (κ × α)
  | [] => [(k, a)]
  | q :: l =>
    if k < q.1 then (k, a) :: q :: l
    else if k = q.1 then q :: l
    else q :: insertEntry k a l

theorem mem_keys_insertEntry (h : k' ∈ (insertEntry k a l).map Prod.fst) :
    k' = k ∨ k' ∈ l.map Prod.fst := by
  induction l with
  | nil => exact Or.inl (List.mem_singleton.mp h)
  | cons q l ih =>
    rw [insertEntry] at h
    split at h
    · rcases List.mem_cons.mp h with h | h
      · exact Or.inl h
      · exact Or.inr h
    · split at h
      · exact Or.inr h
      · rcases List.mem_cons.mp h with h | h
        · exact Or.inr (h ▸ List.mem_cons_self)
        · exact (ih h).imp_right (List.mem_cons_of_mem _)

theorem sorted_insertEntry (h : (l.map Prod.fst).Pairwise (· < ·)) :
    ((insertEntry k a l).map Prod.fst).Pairwise (· < ·) := by
  induction l with
  | nil => exact List.pairwise_singleton _ _
  | cons q l ih =>
    obtain ⟨hq, hl⟩ := List.pairwise_cons.mp h
    rw [insertEntry]
    split
    · next hlt =>
      refine List.pairwise_cons.mpr ⟨fun k' hk' => ?_, h⟩
      rcases List.mem_cons.mp hk' with rfl | hk'
      · exact hlt
      · exact lt_trans hlt (hq k' hk')
    · next hlt =>
      split
      · exact h
      · next hne =>
        refine List.pairwise_cons.mpr ⟨fun k' hk' => ?_, ih hl⟩
        rcases mem_keys_insertEntry hk' with rfl | hk'
        · exact lt_of_le_of_ne (le_of_not_gt hlt) (Ne.symm hne)
        · exact hq k' hk'

theorem lookup_eq_none_of_lt (h : ∀ k' ∈ l.map Prod.fst, k < k') : l.lookup k = none := by
  rw [List.lookup_eq_none_iff]
  intro q hq
  exact bne_iff_ne.mpr (ne_of_lt (h q.1 (List.mem_map_of_mem hq)))

theorem lookup_cons_eq_none {q : κ × α} (h : ((q :: l).map Prod.fst).Pairwise (· < ·))
    (hlt : k < q.1) : (q :: l).lookup k = none := by
  obtain ⟨hq, -⟩ := List.pairwise_cons.mp h
  refine lookup_eq_none_of_lt fun k' hk' => ?_
  rcases List.mem_cons.mp hk' with rfl | hk'
  · exact hlt
  · exact lt_trans hlt (hq k' hk')

theorem lookup_insertEntry (h : (l.map Prod.fst).Pairwise (· < ·)) :
    (insertEntry k a l).lookup k' =
      if k' = k then some ((l.lookup k).getD a) else l.lookup k' := by
  induction l with
  | nil => exact Assoc.lookup_singleton
  | cons q l ih =>
    obtain ⟨kq, b⟩ := q
    obtain ⟨hq, hl⟩ := List.pairwise_cons.mp h
    rw [insertEntry]
    split
    · next hlt =>
      rw [lookup_cons_eq_none h hlt, Option.getD_none]
      by_cases hk : k' = k
      · subst hk; simp
      · rw [if_neg hk, List.lookup_cons, beq_false_of_ne hk]
    · next hlt =>
      split
      · next heq =>
        have heq : k = kq := heq
        subst heq
        by_cases hk : k' = k
        · subst hk; simp
        · rw [if_neg hk]
      · next hne =>
        have hne : k ≠ kq := hne
        by_cases hk : k' = kq
        · subst hk
          simp [Ne.symm hne]
        · simp only [List.lookup_cons, beq_false_of_ne hk, beq_false_of_ne hne]
          exact ih hl

theorem insertEntry_of_lookup (h : (l.map Prod.fst).Pairwise (· < ·)) (hb : l.lookup k = some b) :
    insertEntry k a l = l := by
  induction l with
  | nil => cases hb
  | cons q l ih =>
    obtain ⟨hq, hl⟩ := List.pairwise_cons.mp h
    rw [insertEntry]
    split
    · next hlt =>
      rw [lookup_cons_eq_none h hlt] at hb
      cases hb
    · split
      · rfl
      · next hne =>
        rw [List.lookup_cons, beq_false_of_ne hne] at hb
        rw [ih hl hb]

/-- `map::insert`: the value of a key that is there stays. -/
def insertNew (m : OrdMap κ α) (k : κ) (a : α) : OrdMap κ α :=
  ⟨insertEntry k a m.entries, sorted_insertEntry m.sorted⟩

/-- **Insertion** gives a new key its value and changes nothing else. -/
theorem find?_insertNew (m : OrdMap κ α) (k k' : κ) (a : α) :
    (m.insertNew k a).find? k' = if k' = k then some ((m.find? k).getD a) else m.find? k' :=
  lookup_insertEntry m.sorted

theorem insertNew_of_find? (h : m.find? k = some b) : m.insertNew k a = m := by
  obtain ⟨l, hl⟩ := m
  simp only [insertNew, mk.injEq]
  exact insertEntry_of_lookup hl h

/-! ## Changing a value -/

/-- The map with the value of `k` changed by `g`. -/
def modify (m : OrdMap κ α) (k : κ) (g : α → α) : OrdMap κ α where
  entries := m.entries.map fun q => (q.1, if q.1 = k then g q.2 else q.2)
  sorted := by
    have hkeys : (fun q : κ × α => (q.1, if q.1 = k then g q.2 else q.2).1) = Prod.fst := rfl
    rw [List.map_map]
    exact hkeys ▸ m.sorted

/-- **A change** of one value is seen at its key only. -/
theorem find?_modify (m : OrdMap κ α) (k k' : κ) (g : α → α) :
    (m.modify k g).find? k' = if k' = k then (m.find? k).map g else m.find? k' := by
  rw [find?, modify, Assoc.lookup_map_key m.entries fun q v => if q = k then g v else v]
  by_cases h : k' = k
  · subst h; simp [find?]
  · simp [h, find?]

theorem modify_modify (m : OrdMap κ α) (k : κ) (g g' : α → α) :
    (m.modify k g).modify k g' = m.modify k (g' ∘ g) := by
  simp only [modify, mk.injEq, List.map_map]
  refine List.map_congr_left fun q _ => ?_
  by_cases h : q.1 = k
  · simp [h]
  · simp [h]

/-- The map with the value of `k`, where it has one, replaced by `a`. -/
def put (m : OrdMap κ α) (k : κ) (a : α) : OrdMap κ α := m.modify k fun _ => a

theorem find?_put (m : OrdMap κ α) (k k' : κ) (a : α) :
    (m.put k a).find? k' = if k' = k then (m.find? k).map fun _ => a else m.find? k' :=
  find?_modify m k k' _

theorem find?_put_self (h : m.find? k = some b) : (m.put k a).find? k = some a := by
  rw [find?_put, if_pos rfl, h, Option.map_some]

theorem modify_put (m : OrdMap κ α) (k : κ) (a : α) (g : α → α) :
    (m.put k a).modify k g = m.put k (g a) := modify_modify m k _ g

theorem put_put (m : OrdMap κ α) (k : κ) (a b : α) : (m.put k a).put k b = m.put k b :=
  modify_put m k a fun _ => b

/-- Putting back the value that is there. -/
theorem put_self (h : m.find? k = some a) : m.put k a = m := by
  obtain ⟨l, hl⟩ := m
  simp only [put, modify, mk.injEq]
  simp only [find?] at h
  induction l with
  | nil => rfl
  | cons q l ih =>
    obtain ⟨kq, b⟩ := q
    obtain ⟨hq, hl⟩ := List.pairwise_cons.mp hl
    by_cases hk : k = kq
    · subst hk
      have hb : b = a := by simpa using h
      subst hb
      have hrest : ∀ q ∈ l, q.1 ≠ k := fun q hq' => ne_of_gt (hq q.1 (List.mem_map_of_mem hq'))
      simp only [List.map_cons, if_pos, List.cons.injEq, true_and]
      refine (List.map_congr_left fun q hq' => ?_).trans (List.map_id l)
      rw [if_neg (hrest q hq')]
      rfl
    · rw [List.lookup_cons, beq_false_of_ne hk] at h
      simp only [List.map_cons, if_neg (Ne.symm hk), List.cons.injEq, true_and]
      exact ih hl h

/-- Changing the value that is there. -/
theorem modify_eq_put (h : m.find? k = some a) (g : α → α) : m.modify k g = m.put k (g a) := by
  rw [← modify_put, put_self h]

/-! ## Erasure -/

/-- `map::erase`. -/
def erase (m : OrdMap κ α) (k : κ) : OrdMap κ α where
  entries := m.entries.filter fun q => q.1 ≠ k
  sorted := m.sorted.sublist (List.filter_sublist.map Prod.fst)

/-- **Erasure** takes one key out. -/
theorem find?_erase (m : OrdMap κ α) (k k' : κ) :
    (m.erase k).find? k' = if k' = k then none else m.find? k' :=
  Assoc.lookup_erase (m.sorted.imp ne_of_lt) k' k

/-- The least key (`*map::begin ()`). -/
def first (m : OrdMap κ α) : Option κ := m.entries.head?.map Prod.fst

theorem find?_first (h : m.first = some k) : ∃ a, m.find? k = some a := by
  obtain ⟨q, hq, rfl⟩ := Option.map_eq_some_iff.mp h
  exact ⟨q.2, find?_eq_some_iff_mem.mpr (List.mem_of_mem_head? hq)⟩

theorem first_eq_none : m.first = none ↔ m.entries = [] := by
  rw [first, Option.map_eq_none_iff, List.head?_eq_none_iff]

/-- Where the least key is above all keys, it is the only one. -/
theorem entries_erase_first (h : m.first = some k) (htop : ∀ k', ¬ k < k') :
    (m.erase k).entries = [] := by
  obtain ⟨q, hq, rfl⟩ := Option.map_eq_some_iff.mp h
  obtain ⟨l, hl⟩ := List.head?_eq_some_iff.mp hq
  have hsorted := m.sorted
  rw [hl, List.map_cons, List.pairwise_cons] at hsorted
  have hnil : l = [] := by
    cases l with
    | nil => rfl
    | cons q' l => exact absurd (hsorted.1 q'.1 List.mem_cons_self) (htop _)
  simp [erase, hl, hnil]

/-! ## Values along a history -/

/-- Every value of the map satisfies `P`. -/
def All (P : α → Prop) (m : OrdMap κ α) : Prop := ∀ k a, m.find? k = some a → P a

/-- Every key of `m` is in `m'`, where its value is related by `R`. -/
def Carries (R : α → α → Prop) (m m' : OrdMap κ α) : Prop :=
  ∀ k a, m.find? k = some a → ∃ a', m'.find? k = some a' ∧ R a a'

variable {P : α → Prop} {R : α → α → Prop} {m' m'' : OrdMap κ α} {g : α → α}

theorem all_empty : All P (empty : OrdMap κ α) := nofun

theorem All.modify (h : All P m) (hg : ∀ a, m.find? k = some a → P a → P (g a)) :
    All P (m.modify k g) := by
  intro k' b hb
  rw [find?_modify] at hb
  split at hb
  · obtain ⟨a, ha, rfl⟩ := Option.map_eq_some_iff.mp hb
    exact hg a ha (h k a ha)
  · exact h k' b hb

theorem All.insertNew (h : All P m) (ha : P a) : All P (m.insertNew k a) := by
  intro k' b hb
  rw [find?_insertNew] at hb
  split at hb
  · rw [Option.some.injEq] at hb
    cases hold : m.find? k with
    | none => rw [hold, Option.getD_none] at hb; exact hb ▸ ha
    | some c => rw [hold, Option.getD_some] at hb; exact hb ▸ h k c hold
  · exact h k' b hb

theorem Carries.refl (hR : ∀ a, R a a) (m : OrdMap κ α) : Carries R m m :=
  fun _ a ha => ⟨a, ha, hR a⟩

theorem Carries.trans (hR : ∀ {a b c}, R a b → R b c → R a c) (h : Carries R m m')
    (h' : Carries R m' m'') : Carries R m m'' := by
  intro k a ha
  obtain ⟨b, hb, hab⟩ := h k a ha
  obtain ⟨c, hc, hbc⟩ := h' k b hb
  exact ⟨c, hc, hR hab hbc⟩

theorem carries_modify (hR : ∀ a, R a a) (hg : ∀ a, m.find? k = some a → R a (g a)) :
    Carries R m (m.modify k g) := by
  intro k' a ha
  rw [find?_modify]
  split
  · next hk =>
    subst hk
    exact ⟨g a, by rw [ha, Option.map_some], hg a ha⟩
  · exact ⟨a, ha, hR a⟩

theorem carries_insertNew (hR : ∀ a, R a a) (m : OrdMap κ α) (k : κ) (b : α) :
    Carries R m (m.insertNew k b) := by
  intro k' a ha
  rw [find?_insertNew]
  split
  · next hk =>
    subst hk
    exact ⟨a, by rw [ha, Option.getD_some], hR a⟩
  · exact ⟨a, ha, hR a⟩

end OrdMap
