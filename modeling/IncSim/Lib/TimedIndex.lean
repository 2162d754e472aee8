import Mathlib.Data.List.Sort
import Mathlib.Data.List.Nodup
import IncSim.Lib.Assoc

/-!
# Timed indexes

Keys with a time each, each key once, walked through in the order of the times
(`boost::multi_index_container` with a unique index over the keys and a non-unique one over the
times).

* `TimedIndex`, `find?`, `find?_eq_some_iff_mem`: the entries, and the time of a key.
* `insert`, **`find?_insert`**: insertion, which fails for a key that is there.
* `erase`, **`find?_erase`**: erasure of a key.
* `front`, `find?_front`, `length_erase_front`: the entry with the least time.
-/

/-- Entries in the order of their times. -/
structure TimedIndex (κ τ : Type) [LinearOrder τ] where
  entries : List (κ × τ)
  nodup : (entries.map Prod.fst).Nodup
  sorted : entries.Pairwise fun p q => p.2 ≤ q.2

namespace TimedIndex

variable {κ τ : Type} [DecidableEq κ] [LinearOrder τ] {m : TimedIndex κ τ} {k k' : κ} {t : τ}
  {l : List (κ × τ)}

/-- The index with no entry. -/
def empty : TimedIndex κ τ := ⟨[], List.nodup_nil, List.Pairwise.nil⟩

/-- The time of a key. -/
def find? (m : TimedIndex κ τ) (k : κ) : Option τ := m.entries.lookup k

@[simp] theorem find?_empty : (empty : TimedIndex κ τ).find? k = none := rfl

/-- The time of a key is the one that stands beside it. -/
theorem find?_eq_some_iff_mem : m.find? k = some t ↔ (k, t) ∈ m.entries :=
  Assoc.lookup_eq_some_iff_mem m.nodup

/-! ## Insertion -/

/-- The entries with a new one behind those that are not later. -/
def insertEntry (p : κ × τ) (l : List (κ × τ)) : List (κ × τ) :=
  l.orderedInsert (fun p q => p.2 < q.2) p

omit [DecidableEq κ] in
theorem perm_insertEntry (p : κ × τ) (l : List (κ × τ)) : (insertEntry p l).Perm (p :: l) :=
  List.perm_orderedInsert _ p l

omit [DecidableEq κ] in
theorem sorted_insertEntry {p : κ × τ} (h : l.Pairwise fun p q => p.2 ≤ q.2) :
    (insertEntry p l).Pairwise fun p q => p.2 ≤ q.2 := by
  induction l with
  | nil => exact List.pairwise_singleton _ _
  | cons q l ih =>
    obtain ⟨hq, hl⟩ := List.pairwise_cons.mp h
    rw [insertEntry, List.orderedInsert_cons]
    split_ifs with hlt
    · refine List.pairwise_cons.mpr ⟨fun r hr => ?_, h⟩
      rcases List.mem_cons.mp hr with rfl | hr
      · exact le_of_lt hlt
      · exact le_trans (le_of_lt hlt) (hq r hr)
    · refine List.pairwise_cons.mpr ⟨fun r hr => ?_, ih hl⟩
      rcases List.mem_cons.mp ((perm_insertEntry p l).mem_iff.mp hr) with rfl | hr
      · exact le_of_not_gt hlt
      · exact hq r hr

/-- `insert`: fails when the key is there, which keeps its time. -/
def insert (m : TimedIndex κ τ) (k : κ) (t : τ) : TimedIndex κ τ :=
  if h : k ∈ m.entries.map Prod.fst then m
  else
    { entries := insertEntry (k, t) m.entries
      nodup := by
        rw [((perm_insertEntry (k, t) m.entries).map Prod.fst).nodup_iff]
        exact List.nodup_cons.mpr ⟨h, m.nodup⟩
      sorted := sorted_insertEntry m.sorted }

/-- **Insertion** gives a new key its time and changes nothing else. -/
theorem find?_insert (m : TimedIndex κ τ) (k k' : κ) (t : τ) :
    (m.insert k t).find? k' = if k' = k then some ((m.find? k).getD t) else m.find? k' := by
  by_cases h : k ∈ m.entries.map Prod.fst
  · obtain ⟨⟨k, u⟩, hmem, rfl⟩ := List.mem_map.mp h
    rw [insert, dif_pos h, find?_eq_some_iff_mem.mpr hmem, Option.getD_some]
    split_ifs with hk
    · rw [hk, find?_eq_some_iff_mem.mpr hmem]
    · rfl
  · have hnone : m.find? k = none := by
      refine Option.eq_none_iff_forall_ne_some.mpr fun u hu => h ?_
      exact List.mem_map.mpr ⟨(k, u), find?_eq_some_iff_mem.mp hu, rfl⟩
    have hperm := perm_insertEntry (k, t) m.entries
    have hnodup : ((insertEntry (k, t) m.entries).map Prod.fst).Nodup := by
      rw [(hperm.map Prod.fst).nodup_iff]
      exact List.nodup_cons.mpr ⟨h, m.nodup⟩
    rw [insert, dif_neg h, hnone, Option.getD_none]
    change (insertEntry (k, t) m.entries).lookup k' = _
    rw [Assoc.lookup_perm hnodup hperm, List.lookup_cons]
    split_ifs with hk
    · simp [hk]
    · rw [beq_false_of_ne hk]
      rfl

/-! ## Erasure -/

/-- `erase`. -/
def erase (m : TimedIndex κ τ) (k : κ) : TimedIndex κ τ where
  entries := m.entries.filter fun q => q.1 ≠ k
  nodup := m.nodup.sublist (List.filter_sublist.map Prod.fst)
  sorted := m.sorted.filter _

/-- **Erasure** takes one key out. -/
theorem find?_erase (m : TimedIndex κ τ) (k k' : κ) :
    (m.erase k).find? k' = if k' = k then none else m.find? k' :=
  Assoc.lookup_erase m.nodup k' k

/-! ## The least time -/

/-- The entry with the least time, the one that came first when there are several. -/
def front (m : TimedIndex κ τ) : Option (κ × τ) := m.entries.head?

theorem find?_front (h : m.front = some (k, t)) : m.find? k = some t :=
  find?_eq_some_iff_mem.mpr (List.mem_of_mem_head? h)

omit [DecidableEq κ] in
/-- No entry is earlier than the front. -/
theorem front_le (h : m.front = some (k, t)) {q : κ × τ} (hq : q ∈ m.entries) : t ≤ q.2 := by
  obtain ⟨l, hl⟩ := List.head?_eq_some_iff.mp h
  have hsorted := m.sorted
  rw [hl] at hq hsorted
  rcases List.mem_cons.mp hq with rfl | hq
  · exact le_refl t
  · exact (List.pairwise_cons.mp hsorted).1 q hq

theorem length_erase_front (h : m.front = some (k, t)) :
    (m.erase k).entries.length < m.entries.length := by
  obtain ⟨l, hl⟩ := List.head?_eq_some_iff.mp h
  change (m.entries.filter fun q => q.1 ≠ k).length < _
  rw [hl, List.filter_cons_of_neg (by simp), List.length_cons]
  exact Nat.lt_succ_of_le (List.length_filter_le _ _)

end TimedIndex
