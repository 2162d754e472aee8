import Mathlib.Algebra.GroupWithZero.Nat
import IncSim.Lib.Run
import Mathlib.Algebra.BigOperators.Group.Finset.Basic

/-!
# Grouping rows by a key

Rows are added one by one to the group with their key, which is made at the end of the list when
there is none.

* `insert`: one row; `map_key_insert`, `forall_insert`: the keys afterwards, and what all groups keep.
* `map_key_run`, `forall_run`: the same for all rows.
* `gathered`, **`run_map`**: all rows when no row fails; each group is made of its own rows in order.
* `firsts`: keys in order of their first occurrence.
* `sum_length_filter`: the sizes of the groups add up to the number of rows.
* `InOrder`, **`firsts_enumerate_iff`**: the groups come in a given order exactly when no row
  comes before the first row of an earlier group.
-/

namespace Grouping

open PartialRun

universe u v w

section Insert

variable {β : Type u} {κ : Type u} {φ : Type w} [DecidableEq κ] (key : β → κ)

/-- Change the first group with key `k`, or a fresh one behind all groups. -/
def insert (fresh : κ → β) (add : β → Except φ β) (k : κ) : List β → Except φ (List β)
  | [] => do
    let b ← add (fresh k)
    pure [b]
  | b :: bs =>
    if key b = k then do
      let b ← add b
      pure (b :: bs)
    else do
      let bs ← insert fresh add k bs
      pure (b :: bs)

/-- The keys with `k` among them. -/
def noted (l : List κ) (k : κ) : List κ := if k ∈ l then l else l ++ [k]

variable {key} {fresh : κ → β} {add : β → Except φ β} {k : κ} {ks : List κ} {bs bs' : List β}

theorem noted_cons_self : noted (k :: ks) k = k :: ks := if_pos List.mem_cons_self

theorem noted_cons_of_ne {a : κ} (h : a ≠ k) : noted (a :: ks) k = a :: noted ks k := by
  have hmem : k ∈ a :: ks ↔ k ∈ ks := by rw [List.mem_cons, or_iff_right (Ne.symm h)]
  unfold noted
  split_ifs with h₁ h₂ h₂
  · rfl
  · exact absurd (hmem.mp h₁) h₂
  · exact absurd (hmem.mpr h₂) h₁
  · rfl

theorem mem_noted {a : κ} : a ∈ noted ks k ↔ a ∈ ks ∨ a = k := by
  unfold noted
  split_ifs with hk
  · refine (or_iff_left_of_imp ?_).symm
    rintro rfl
    exact hk
  · simp

theorem nodup_noted (h : ks.Nodup) : (noted ks k).Nodup := by
  unfold noted
  split_ifs with hk
  · exact h
  · exact h.append (List.nodup_singleton k) (by simpa using hk)

/-- **One row** notes its key. -/
theorem map_key_insert (hfresh : key (fresh k) = k) (hadd : ∀ b b', add b = .ok b' → key b' = key b)
    (h : insert key fresh add k bs = .ok bs') : bs'.map key = noted (bs.map key) k := by
  induction bs generalizing bs' with
  | nil =>
    obtain ⟨b, hb, h⟩ := bind_eq_ok.mp h
    cases h
    rw [List.map_singleton, hadd _ _ hb, hfresh]
    rfl
  | cons b bs ih =>
    rw [insert] at h
    split_ifs at h with hk
    · obtain ⟨b', hb, h⟩ := bind_eq_ok.mp h
      cases h
      rw [noted, if_pos (hk ▸ List.mem_map_of_mem List.mem_cons_self), List.map_cons, List.map_cons,
        hadd _ _ hb]
    · obtain ⟨bs₁, hbs, h⟩ := bind_eq_ok.mp h
      cases h
      rw [List.map_cons, List.map_cons, ih hbs, noted_cons_of_ne hk]

/-- **All rows** note their keys. -/
theorem map_key_run {ρ : Type v} {keyOf : ρ → κ} {add : ρ → β → Except φ β} {rs : List ρ}
    (hfresh : ∀ k, key (fresh k) = k) (hadd : ∀ r b b', add r b = .ok b' → key b' = key b)
    (h : run (fun bs r => insert key fresh (add r) (keyOf r) bs) bs rs = .ok bs') :
    bs'.map key = (rs.map keyOf).foldl noted (bs.map key) := by
  induction rs generalizing bs with
  | nil =>
    cases h
    rfl
  | cons r rs ih =>
    obtain ⟨bs₁, h₁, h⟩ := run_cons.mp h
    rw [ih h, map_key_insert (hfresh _) (hadd r) h₁]
    rfl

/-- **What every group keeps**, a group that is made included. -/
theorem forall_insert {P : β → Prop} (hfresh : P (fresh k)) (hkey : key (fresh k) = k)
    (hadd : ∀ b b', P b → key b = k → add b = .ok b' → P b') (hbs : ∀ b ∈ bs, P b)
    (h : insert key fresh add k bs = .ok bs') : ∀ b ∈ bs', P b := by
  induction bs generalizing bs' with
  | nil =>
    obtain ⟨b, hb, h⟩ := bind_eq_ok.mp h
    cases h
    intro b' hb'
    rw [List.mem_singleton.mp hb']
    exact hadd _ _ hfresh hkey hb
  | cons b bs ih =>
    have hhead := hbs b List.mem_cons_self
    have htail : ∀ b ∈ bs, P b := fun b' hb' => hbs b' (List.mem_cons_of_mem _ hb')
    rw [insert] at h
    split_ifs at h with hk
    · obtain ⟨b', hb, h⟩ := bind_eq_ok.mp h
      cases h
      exact List.forall_mem_cons.mpr ⟨hadd _ _ hhead hk hb, htail⟩
    · obtain ⟨bs₁, hbs₁, h⟩ := bind_eq_ok.mp h
      cases h
      exact List.forall_mem_cons.mpr ⟨hhead, ih htail hbs₁⟩

theorem forall_run {ρ : Type v} {keyOf : ρ → κ} {add : ρ → β → Except φ β} {rs : List ρ}
    {P : β → Prop} (hfresh : ∀ k, P (fresh k)) (hkey : ∀ k, key (fresh k) = k)
    (hadd : ∀ r ∈ rs, ∀ b b', P b → key b = keyOf r → add r b = .ok b' → P b') (hbs : ∀ b ∈ bs, P b)
    (h : run (fun bs r => insert key fresh (add r) (keyOf r) bs) bs rs = .ok bs') :
    ∀ b ∈ bs', P b := by
  induction rs generalizing bs with
  | nil =>
    cases h
    exact hbs
  | cons r rs ih =>
    obtain ⟨bs₁, h₁, h⟩ := run_cons.mp h
    have hr := hadd r List.mem_cons_self
    refine ih (fun r' hr' => hadd r' (List.mem_cons_of_mem _ hr')) ?_ h
    exact forall_insert (hfresh _) (hkey _) hr hbs h₁

/-! ## Groups in closed form -/

/-- One row, when the groups are those of the keys `ks` and the row changes the one with its key. -/
theorem insert_map {g g' : κ → β} (hks : ks.Nodup) (hkey : ∀ a, key (g a) = a)
    (hfresh : k ∉ ks → g k = fresh k) (hadd : add (g k) = .ok (g' k)) (hne : ∀ a ≠ k, g' a = g a) :
    insert key fresh add k (ks.map g) = .ok ((noted ks k).map g') := by
  induction ks with
  | nil =>
    rw [hfresh List.not_mem_nil] at hadd
    rw [List.map_nil, insert, hadd]
    rfl
  | cons a ks ih =>
    obtain ⟨ha, hks⟩ := List.nodup_cons.mp hks
    rw [List.map_cons, insert, hkey]
    split_ifs with hk
    · subst hk
      have htail : ks.map g' = ks.map g :=
        List.map_congr_left fun b hb => hne b fun hba => ha (hba ▸ hb)
      rw [hadd, noted_cons_self, List.map_cons, htail]
      rfl
    · have hrec := ih hks fun hmem => hfresh fun h =>
        hmem ((List.mem_cons.mp h).resolve_left (Ne.symm hk))
      rw [hrec, noted_cons_of_ne hk, List.map_cons, hne a hk]
      rfl

variable {ρ : Type v} {keyOf : ρ → κ} {upd : ρ → β → β} {r : ρ} {rs : List ρ} {b : β}

/-- What the rows with key `k` make of a group. -/
def gathered (keyOf : ρ → κ) (upd : ρ → β → β) (rs : List ρ) (k : κ) (b : β) : β :=
  (rs.filter (keyOf · = k)).foldl (fun b r => upd r b) b

theorem gathered_cons : gathered keyOf upd (r :: rs) k b =
    gathered keyOf upd rs k (if keyOf r = k then upd r b else b) := by
  unfold gathered
  rw [List.filter_cons]
  simp only [decide_eq_true_eq]
  split_ifs <;> rfl

/-- **All rows**, when none of them fails: each group is made of its own rows in their order. -/
theorem run_map {add : ρ → β → Except φ β} {g : κ → β} (hks : ks.Nodup) (hkey : ∀ a, key (g a) = a)
    (hupd : ∀ r b, key (upd r b) = key b) (hfresh : ∀ a ∉ ks, g a = fresh a)
    (hadd : ∀ r ∈ rs, ∀ b, add r b = .ok (upd r b)) :
    run (fun bs r => insert key fresh (add r) (keyOf r) bs) (ks.map g) rs =
      .ok (((rs.map keyOf).foldl noted ks).map fun k => gathered keyOf upd rs k (g k)) := by
  induction rs generalizing ks g with
  | nil => rfl
  | cons r rs ih =>
    let g' : κ → β := fun a => if keyOf r = a then upd r (g a) else g a
    have hself : g' (keyOf r) = upd r (g (keyOf r)) := if_pos rfl
    have hne : ∀ a ≠ keyOf r, g' a = g a := fun a ha => if_neg (Ne.symm ha)
    have hstep : insert key fresh (add r) (keyOf r) (ks.map g) =
        .ok ((noted ks (keyOf r)).map g') :=
      insert_map hks hkey (hfresh (keyOf r))
        ((hadd r List.mem_cons_self _).trans (congrArg Except.ok hself.symm)) hne
    have hkey' : ∀ a, key (g' a) = a := by
      intro a
      by_cases ha : a = keyOf r
      · rw [ha, hself, hupd, hkey]
      · rw [hne a ha, hkey]
    have hfresh' : ∀ a ∉ noted ks (keyOf r), g' a = fresh a := by
      intro a ha
      rw [mem_noted, not_or] at ha
      rw [hne a ha.2, hfresh a ha.1]
    rw [run_cons_of_ok hstep, ih (nodup_noted hks) hkey' hfresh' fun r' hr' =>
      hadd r' (List.mem_cons_of_mem _ hr')]
    exact congrArg Except.ok (List.map_congr_left fun k _ => gathered_cons.symm)

end Insert

/-! ## The order of the groups -/

section Order

variable {κ : Type u} (e : ℕ → κ)

/-- The list is `e 0, e 1, ...`. -/
def Enumerates (l : List κ) : Prop := l = (List.range l.length).map e

/-- A key `e k` comes only when all keys `e j` with `j < k` have come. -/
def InOrder (ks : List κ) : Prop := ∀ l k, l ++ [e k] <+: ks → ∀ j < k, e j ∈ l

variable {e} {ks : List κ} {l : List κ} {k : ℕ}

theorem enumerates_concat {a : κ} :
    Enumerates e (l ++ [a]) ↔ Enumerates e l ∧ a = e l.length := by
  unfold Enumerates
  rw [List.length_append, List.length_singleton, List.range_succ, List.map_append, List.map_singleton]
  constructor
  · intro h
    obtain ⟨hl, ha⟩ := List.append_inj h (by simp)
    exact ⟨hl, List.singleton_inj.mp ha⟩
  · rintro ⟨hl, rfl⟩
    rw [← hl]

theorem Enumerates.mem_iff (he : Function.Injective e) (h : Enumerates e l) :
    e k ∈ l ↔ k < l.length := by
  unfold Enumerates at h
  rw [h, List.mem_map_of_injective he, List.mem_range, List.length_map, List.length_range]

theorem inOrder_concat (he : Function.Injective e) :
    InOrder e (ks ++ [e k]) ↔ InOrder e ks ∧ ∀ j < k, e j ∈ ks := by
  constructor
  · intro h
    refine ⟨fun l i hp => h l i (hp.trans (List.prefix_append _ _)), ?_⟩
    exact h ks k (List.prefix_refl _)
  · rintro ⟨h, hk⟩ l i hp
    rcases concat_isPrefix_concat.mp hp with ⟨rfl, hi⟩ | hp
    · rw [he hi]
      exact hk
    · exact h l i hp

variable [DecidableEq κ]

/-- The keys in order of their first occurrence. -/
def firsts (ks : List κ) : List κ := ks.foldl noted []

theorem firsts_concat (ks : List κ) (k : κ) : firsts (ks ++ [k]) = noted (firsts ks) k := by
  rw [firsts, List.foldl_append]
  rfl

theorem nodup_firsts (ks : List κ) : (firsts ks).Nodup := by
  induction ks using List.reverseRecOn with
  | nil => exact List.nodup_nil
  | append_singleton ks k ih =>
    rw [firsts_concat]
    exact nodup_noted ih

@[simp] theorem mem_firsts {a : κ} : a ∈ firsts ks ↔ a ∈ ks := by
  induction ks using List.reverseRecOn with
  | nil => rfl
  | append_singleton ks k ih => rw [firsts_concat, mem_noted, ih, List.mem_append, List.mem_singleton]

/-- **Nothing is left out**: rows with keys in the list are the rows with each of these keys. -/
theorem sum_length_filter {ρ : Type v} {keyOf : ρ → κ} {rs : List ρ} (hl : l.Nodup)
    (hrs : ∀ r ∈ rs, keyOf r ∈ l) :
    (l.map fun k => (rs.filter (keyOf · = k)).length).sum = rs.length := by
  have hcount : ∀ k, (rs.filter (keyOf · = k)).length = (rs.map keyOf : Multiset κ).count k := by
    intro k
    rw [Multiset.coe_count, List.count_eq_countP, List.countP_map, List.countP_eq_length_filter]
    rfl
  have hmem : ∀ a ∈ (rs.map keyOf : Multiset κ), a ∈ l.toFinset := by
    intro a ha
    obtain ⟨r, hr, rfl⟩ := List.mem_map.mp (Multiset.mem_coe.mp ha)
    exact List.mem_toFinset.mpr (hrs r hr)
  simp only [hcount]
  rw [← List.sum_toFinset _ hl, Multiset.sum_count_eq_card hmem, Multiset.coe_card, List.length_map]

/-- **The first occurrences come in order** exactly when the keys do. -/
theorem firsts_enumerate_iff (he : Function.Injective e) (hks : ∀ a ∈ ks, ∃ k, a = e k) :
    Enumerates e (firsts ks) ↔ InOrder e ks := by
  induction ks using List.reverseRecOn with
  | nil =>
    refine iff_of_true rfl fun l k hp => ?_
    exact absurd (List.prefix_nil.mp hp) (by simp)
  | append_singleton ks a ih =>
    have ih := ih fun a ha => hks a (List.mem_append_left _ ha)
    obtain ⟨k, rfl⟩ := hks a (by simp)
    rw [firsts_concat, inOrder_concat he, ← ih, noted]
    split_ifs with hk
    · refine ⟨fun h => ⟨h, fun j hj => ?_⟩, And.left⟩
      have hlt := (h.mem_iff he).mp hk
      exact mem_firsts.mp ((h.mem_iff he).mpr (hj.trans hlt))
    · rw [enumerates_concat]
      refine and_congr_right fun h => ?_
      have hle : (firsts ks).length ≤ k := by
        rw [h.mem_iff he] at hk
        exact Nat.le_of_not_lt hk
      constructor
      · intro hlen j hj
        rw [he hlen] at hj
        exact mem_firsts.mp ((h.mem_iff he).mpr hj)
      · intro hall
        by_contra hne
        have hlt : (firsts ks).length < k := lt_of_le_of_ne hle fun hlen => hne (congrArg e hlen.symm)
        exact absurd ((h.mem_iff he).mp (mem_firsts.mpr (hall _ hlt))) (lt_irrefl _)

end Order

end Grouping
