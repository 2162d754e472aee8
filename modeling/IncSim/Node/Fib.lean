import IncSim.Lib.Assoc
import Mathlib.Data.List.Sort
import IncSim.Ndn.Name

/-!
# The forwarding table of a node

The FIB of the forwarder below a compute node: a map from prefixes to next hops, with the four
operations that the node uses.

* `findExactMatch`, `insert`, `addOrUpdateNextHop`, `removeNextHop`.
* `nextHops`: the next hops of a prefix; **`mem_nextHops_add`**, **`mem_nextHops_remove`**: as a set,
  after the operations.
-/

namespace IncSim

/-- A face of the forwarder. -/
structure Face where
  id : ℕ
  remoteUri : Str
  deriving DecidableEq

/-- The remote URI that every `NfnProducerApp` gives its face. -/
def nfnProducerAppFace : Str := "nfnProducerAppFace://".toList

structure NextHop where
  face : Face
  cost : ℕ
  deriving DecidableEq

/-- A FIB: prefixes, by their URI, and their next hops. -/
abbrev Fib := List (Str × List NextHop)

namespace Fib

/-- `Fib::findExactMatch`. -/
def findExactMatch (fib : Fib) (p : Str) : Option (List NextHop) := fib.lookup p

/-- `Fib::insert`: the entry is created without next hops when it is not there. -/
def insert (fib : Fib) (p : Str) : Fib :=
  if (fib.findExactMatch p).isSome then fib else fib ++ [(p, [])]

/-- The next hops after `addOrUpdateNextHop`, which sorts them by their cost. -/
def addHop (hops : List NextHop) (face : Face) (cost : ℕ) : List NextHop :=
  (if hops.any (fun h => h.face = face) then
    hops.map fun h => if h.face = face then ⟨face, cost⟩ else h
  else hops ++ [⟨face, cost⟩]).insertionSort fun h h' => h.cost ≤ h'.cost

/-- `Fib::addOrUpdateNextHop` on the entry of `p`. -/
def addOrUpdateNextHop (fib : Fib) (p : Str) (face : Face) (cost : ℕ) : Fib :=
  fib.map fun q => if q.1 = p then (q.1, addHop q.2 face cost) else q

/-- `Fib::removeNextHop` on the entry of `p`; an entry that loses its last next hop goes. -/
def removeNextHop (fib : Fib) (p : Str) (face : Face) : Fib :=
  match fib.findExactMatch p with
  | none => fib
  | some hops =>
    if hops.any (fun h => h.face = face) then
      (fib.map fun q => if q.1 = p then (q.1, q.2.filter fun h => h.face ≠ face) else q).filter
        fun q => q.1 ≠ p ∨ q.2 ≠ []
    else fib

/-! ## Next hops as sets -/

/-- The next hops of a prefix; a prefix without entry has none. -/
def nextHops (fib : Fib) (p : Str) : List NextHop := (fib.findExactMatch p).getD []

/-- Every prefix has one entry. -/
def Distinct (fib : Fib) : Prop := (fib.map Prod.fst).Nodup

instance (fib : Fib) : Decidable fib.Distinct := inferInstanceAs (Decidable (List.Nodup _))

variable {fib : Fib} {p p' : Str} {face : Face} {cost : ℕ} {q : NextHop}

theorem mem_addHop {hops : List NextHop} :
    q ∈ addHop hops face cost ↔ (q.face ≠ face ∧ q ∈ hops) ∨ q = ⟨face, cost⟩ := by
  unfold addHop
  rw [List.mem_insertionSort]
  split
  · next hany =>
    obtain ⟨r, hr, hface⟩ := List.any_eq_true.mp hany
    have hface : r.face = face := of_decide_eq_true hface
    rw [List.mem_map]
    constructor
    · rintro ⟨r', hr', rfl⟩
      split_ifs with h
      · exact Or.inr rfl
      · exact Or.inl ⟨h, hr'⟩
    · rintro (⟨hne, hq⟩ | rfl)
      · exact ⟨q, hq, if_neg hne⟩
      · exact ⟨r, hr, if_pos hface⟩
  · next hany =>
    have hnone : ∀ r ∈ hops, r.face ≠ face := by simpa using hany
    rw [List.mem_append, List.mem_singleton]
    constructor
    · rintro (hq | hq)
      · exact Or.inl ⟨hnone q hq, hq⟩
      · exact Or.inr hq
    · rintro (⟨-, hq⟩ | hq)
      · exact Or.inl hq
      · exact Or.inr hq

theorem findExactMatch_insert :
    (fib.insert p).findExactMatch p' =
      if p' = p then some (fib.nextHops p) else fib.findExactMatch p' := by
  unfold insert
  split
  · next hs =>
    split_ifs with hp
    · subst hp
      obtain ⟨hops, hhops⟩ := Option.isSome_iff_exists.mp hs
      rw [nextHops, hhops, Option.getD_some]
    · rfl
  · next hs =>
    have hnone : fib.findExactMatch p = none := Option.not_isSome_iff_eq_none.mp hs
    rw [nextHops, hnone, findExactMatch, List.lookup_append, Assoc.lookup_singleton]
    split_ifs with hp
    · subst hp
      rw [show List.lookup p' fib = none from hnone]
      rfl
    · rw [Option.or_none]
      rfl

theorem findExactMatch_addOrUpdateNextHop :
    (fib.addOrUpdateNextHop p face cost).findExactMatch p' =
      (fib.findExactMatch p').map fun hops => if p' = p then addHop hops face cost else hops := by
  have hmap : fib.addOrUpdateNextHop p face cost =
      fib.map fun q => (q.1, if q.1 = p then addHop q.2 face cost else q.2) := by
    refine List.map_congr_left fun q _ => ?_
    split <;> rfl
  rw [hmap]
  exact Assoc.lookup_map_key fib (fun k hops => if k = p then addHop hops face cost else hops) p'

/-- **A next hop is added** to an entry that is there. -/
theorem mem_nextHops_add (hp : (fib.findExactMatch p).isSome = true) :
    q ∈ (fib.addOrUpdateNextHop p face cost).nextHops p' ↔
      if p' = p then (q.face ≠ face ∧ q ∈ fib.nextHops p') ∨ q = ⟨face, cost⟩
      else q ∈ fib.nextHops p' := by
  unfold nextHops
  rw [findExactMatch_addOrUpdateNextHop]
  split_ifs with h
  · subst h
    obtain ⟨hops, hhops⟩ := Option.isSome_iff_exists.mp hp
    simp only [hhops, Option.map_some, Option.getD_some, mem_addHop]
  · rw [Option.map_id']

/-- **A next hop is added** to an entry that is made when it is not there. -/
theorem mem_nextHops_insert_add :
    q ∈ ((fib.insert p).addOrUpdateNextHop p face cost).nextHops p' ↔
      if p' = p then (q.face ≠ face ∧ q ∈ fib.nextHops p') ∨ q = ⟨face, cost⟩
      else q ∈ fib.nextHops p' := by
  have hsome : ((fib.insert p).findExactMatch p).isSome = true := by
    rw [findExactMatch_insert, if_pos rfl]
    rfl
  have hsame : (fib.insert p).nextHops p' = fib.nextHops p' := by
    rw [nextHops, findExactMatch_insert]
    split_ifs with h
    · rw [h]
      rfl
    · rfl
  rw [mem_nextHops_add hsome, hsame]

/-- **A next hop is removed.** -/
theorem mem_nextHops_remove (hd : fib.Distinct) :
    q ∈ (fib.removeNextHop p face).nextHops p' ↔
      q ∈ fib.nextHops p' ∧ (p' = p → q.face ≠ face) := by
  have hkept : (∀ r ∈ fib.nextHops p, r.face ≠ face) →
      (q ∈ fib.nextHops p' ↔ q ∈ fib.nextHops p' ∧ (p' = p → q.face ≠ face)) := by
    intro hnone
    refine (and_iff_left_of_imp fun hq hp => ?_).symm
    subst hp
    exact hnone q hq
  unfold removeNextHop
  split
  · next hp =>
    apply hkept
    rw [nextHops, hp]
    exact List.forall_mem_nil _
  · next hops hp =>
    split
    · have hmap : (fib.map fun q => if q.1 = p then (q.1, q.2.filter fun h => h.face ≠ face) else q) =
          fib.map fun q => (q.1, if q.1 = p then q.2.filter fun h => h.face ≠ face else q.2) := by
        refine List.map_congr_left fun q _ => ?_
        split <;> rfl
      have hkeys : ((fib.map fun q => (q.1, if q.1 = p then q.2.filter fun h => h.face ≠ face
          else q.2)).map Prod.fst).Nodup := by
        rw [List.map_map]
        exact hd
      unfold nextHops findExactMatch
      rw [hmap, Assoc.lookup_filter hkeys, Assoc.lookup_map_key fib fun k hops =>
        if k = p then hops.filter fun h => h.face ≠ face else hops]
      rcases fib.lookup p' with _ | hops'
      · simp
      · by_cases hp' : p' = p
        · subst hp'
          rw [Option.map_some, if_pos rfl, Option.filter_some]
          by_cases hempty : hops'.filter (fun h => h.face ≠ face) = []
          · -- the entry goes
            have hall : ∀ r ∈ hops', r.face = face := by simpa using hempty
            rw [if_neg (by simpa using hall)]
            simpa using hall q
          · rw [if_pos (by simpa using hempty)]
            simp
        · simp [hp', Option.filter_some]
    · next hany =>
      apply hkept
      rw [nextHops, hp]
      simpa using hany

/-! ## Every prefix keeps its one entry -/

theorem Distinct.insert (hd : fib.Distinct) : (fib.insert p).Distinct := by
  unfold Fib.insert
  split
  · exact hd
  · next hs =>
    have hnone : fib.lookup p = none := Option.not_isSome_iff_eq_none.mp hs
    unfold Distinct
    rw [List.map_append, List.nodup_append]
    refine ⟨hd, List.pairwise_singleton _ _, ?_⟩
    rintro k hk k' hk' rfl
    obtain ⟨r, hr, rfl⟩ := List.mem_map.mp hk
    have hne := List.lookup_eq_none_iff.mp hnone r hr
    exact (bne_iff_ne.mp hne) (List.mem_singleton.mp hk').symm

theorem Distinct.map {g : Str × List NextHop → Str × List NextHop} (hd : fib.Distinct)
    (hg : ∀ r, (g r).1 = r.1) : Distinct (fib.map g) := by
  have hkeys : (fib.map g).map Prod.fst = fib.map Prod.fst := by
    rw [List.map_map]
    exact List.map_congr_left fun r _ => hg r
  unfold Distinct
  rw [hkeys]
  exact hd

theorem Distinct.addOrUpdateNextHop (hd : fib.Distinct) :
    (fib.addOrUpdateNextHop p face cost).Distinct := by
  apply hd.map
  intro r
  split <;> rfl

theorem Distinct.removeNextHop (hd : fib.Distinct) : (fib.removeNextHop p face).Distinct := by
  unfold Fib.removeNextHop
  split
  · exact hd
  · split
    · refine List.Nodup.sublist (List.Sublist.map _ List.filter_sublist) (hd.map ?_)
      intro r
      split <;> rfl
    · exact hd

end Fib

end IncSim
