import Mathlib.Data.List.Infix
import IncSim.Lib.Text

/-!
# Strings and NDN names

* `Str`: a `std::string`; `Str.contains`: the test for a substring.
* `Name`, `toUri`, `getSubName`: the names of ndn-cxx; `contains_toUri`: the test on a URI;
  `eq_of_toUri_eq`: names that are known by their URI.
* `NdnCxx`: the part of ndn-cxx that reads a URI, a parameter of the model; `UriExact`: URIs that
  it reads and writes back unchanged; `ReadsPlain`: what it does with letters and digits; `plainUri`:
  what it does on URIs without escapes.
-/

namespace IncSim

/-- A `std::string`. -/
abbrev Str := List Char

/-- Does the text contain `pat`? (`find (pat) != npos`) -/
def Str.contains (s pat : Str) : Bool := s.tails.any fun t => pat.isPrefixOf t

theorem Str.contains_iff {s pat : Str} : Str.contains s pat = true ↔ pat <:+: s := by
  unfold Str.contains
  simp only [List.any_eq_true, List.mem_tails, List.isPrefixOf_iff_prefix]
  rw [List.infix_iff_prefix_suffix]
  exact exists_congr fun _ => and_comm

/-- An ndn-cxx name: its components, each as the text that `toUri` writes for it. -/
structure Name where
  comps : List Str
  deriving DecidableEq

namespace Name

/-- `Name::toUri`. -/
def toUri (n : Name) : Str := if n.comps = [] then ['/'] else n.comps.flatMap fun c => '/' :: c

/-- `Name::getSubName (i, count)`. -/
def getSubName (n : Name) (i count : ℕ) : Name := ⟨(n.comps.drop i).take count⟩

/-- `Name::size`. -/
def size (n : Name) : ℕ := n.comps.length

/-- `Name::append` of a whole name. -/
def append (n m : Name) : Name := ⟨n.comps ++ m.comps⟩

@[simp] theorem toUri_singleton (c : Str) : (⟨[c]⟩ : Name).toUri = '/' :: c := by simp [toUri]

theorem toUri_of_ne_nil {l : List Str} (h : l ≠ []) :
    (⟨l⟩ : Name).toUri = l.flatMap fun c => '/' :: c := if_neg h

theorem getSubName_one {n : Name} {i : ℕ} {c : Str} (h : n.comps[i]? = some c) :
    n.getSubName i 1 = ⟨[c]⟩ := by
  obtain ⟨hi, rfl⟩ := List.getElem?_eq_some_iff.mp h
  rw [getSubName, List.drop_eq_getElem_cons hi, List.take_succ_cons, List.take_zero]

/-- A text with a slash in front occurs in a URI where it begins a component. -/
theorem contains_toUri {n : Name} {p : Str} (hp : '/' ∉ p) (hne : p ≠ [])
    (hn : ∀ c ∈ n.comps, '/' ∉ c) :
    Str.contains n.toUri ('/' :: p) = true ↔ ∃ c ∈ n.comps, p <+: c := by
  obtain ⟨l⟩ := n
  rw [Str.contains_iff]
  cases l with
  | nil => simp [Name.toUri, List.infix_cons_iff, hne]
  | cons c l => rw [Name.toUri_of_ne_nil (List.cons_ne_nil c l), Text.infix_segments_iff hp hn]

/-- A name of two or more components is known by its URI. -/
theorem eq_of_toUri_eq {n m : Name} (hn : ∀ c ∈ n.comps, '/' ∉ c) (hm : ∀ c ∈ m.comps, '/' ∉ c)
    (hsize : 2 ≤ m.size) (h : n.toUri = m.toUri) : n = m := by
  obtain ⟨l⟩ := n
  obtain ⟨l'⟩ := m
  have hl' : l' ≠ [] := by
    rintro rfl
    exact absurd hsize (by decide)
  rw [Name.toUri_of_ne_nil hl'] at h
  have hsplit := Text.splitOn_segments hm
  rw [← h] at hsplit
  by_cases hl : l = []
  · subst hl
    have hroot : ([] : Str) :: l' = [[], []] := hsplit.symm
    cases hroot
    exact absurd hsize (by decide)
  · rw [Name.toUri_of_ne_nil hl, Text.splitOn_segments hn] at hsplit
    exact congrArg Name.mk (List.cons.inj hsplit).2

end Name

/-- What the model takes from ndn-cxx: the constructor of a name from a URI. -/
class NdnCxx where
  /-- `Name (uri)`. -/
  ofUri : Str → Name

/-- A URI as `toUri` writes it: it is read as a name that is written as it was. -/
abbrev UriExact [NdnCxx] (s : Str) : Prop := (NdnCxx.ofUri s).toUri = s

/-- Reading the URI of a name that was read gives the name again. -/
def UriStable [NdnCxx] : Prop := ∀ s, NdnCxx.ofUri (NdnCxx.ofUri s).toUri = NdnCxx.ofUri s

/-- Reading URIs without escapes: the components are the non-empty texts between the slashes. -/
@[reducible] def plainUri : NdnCxx := ⟨fun s => ⟨(s.splitOn '/').filter (· ≠ [])⟩⟩

/-- The URI of a name with plain components is read as that name. -/
theorem plainUri_toUri {l : List Str} (hfree : ∀ c ∈ l, '/' ∉ c) (hne : ∀ c ∈ l, c ≠ []) :
    plainUri.ofUri (⟨l⟩ : Name).toUri = ⟨l⟩ := by
  have hfilter : l.filter (· ≠ []) = l :=
    List.filter_eq_self.mpr fun c hc => decide_eq_true (hne c hc)
  by_cases hl : l = []
  · subst hl
    rfl
  · rw [Name.toUri_of_ne_nil hl]
    show (⟨((l.flatMap fun c => '/' :: c).splitOn '/').filter (· ≠ [])⟩ : Name) = ⟨l⟩
    rw [Text.splitOn_segments hfree, List.filter_cons_of_neg (by simp), hfilter]

theorem plainUri_stable : @UriStable plainUri := by
  intro s
  refine plainUri_toUri (fun c hc => ?_) fun c hc => ?_
  · exact Text.not_mem_of_mem_splitOn (List.mem_of_mem_filter hc)
  · have hne := (List.mem_filter.mp hc).2
    exact of_decide_eq_true hne

/-- A component of letters, digits, `-` and `_`, which a URI shows as it is. -/
def PlainComp (c : Str) : Prop := c ≠ [] ∧ ∀ a ∈ c, a.isAlphanum = true ∨ a = '-' ∨ a = '_'

/-- The check of a component, as a computation. -/
theorem PlainComp.of_all {c : Str} (hne : c ≠ [])
    (hall : (c.all fun a => a.isAlphanum || a == '-' || a == '_') = true) : PlainComp c := by
  refine ⟨hne, fun a ha => ?_⟩
  have h := List.all_eq_true.mp hall a ha
  simpa [or_assoc] using h

/-- URIs of plain components are read as these components, with a slash in front or without. -/
structure NdnCxx.ReadsPlain [NdnCxx] : Prop where
  ofUri_comp : ∀ c, PlainComp c → NdnCxx.ofUri c = ⟨[c]⟩
  ofUri_toUri : ∀ l, (∀ c ∈ l, PlainComp c) → NdnCxx.ofUri (Name.toUri ⟨l⟩) = ⟨l⟩

/-- One component that a URI shows as it is. -/
theorem NdnCxx.ReadsPlain.ofUri_cons [NdnCxx] (hread : NdnCxx.ReadsPlain) {c : Str}
    (hc : PlainComp c) : NdnCxx.ofUri ('/' :: c) = ⟨[c]⟩ := by
  rw [← Name.toUri_singleton]
  exact hread.ofUri_toUri [c] fun c' hc' => List.mem_singleton.mp hc' ▸ hc

theorem PlainComp.not_mem {c : Str} (h : PlainComp c) {a : Char} (ha : a.isAlphanum = false)
    (hdash : a ≠ '-') (hline : a ≠ '_') : a ∉ c := by
  intro hmem
  rcases h.2 a hmem with h | h | h
  · rw [ha] at h
    cases h
  · exact hdash h
  · exact hline h

theorem PlainComp.slash {c : Str} (h : PlainComp c) : '/' ∉ c :=
  h.not_mem (by decide) (by decide) (by decide)

/-- A text in front of a number. -/
theorem PlainComp.append_decimal {c : Str} (h : PlainComp c) (n : ℕ) :
    PlainComp (c ++ Text.decimal n) := by
  refine ⟨by simp [h.1], fun a ha => ?_⟩
  rcases List.mem_append.mp ha with ha | ha
  · exact h.2 a ha
  · left
    rw [Char.isAlphanum, Text.isDigit_of_mem_decimal ha, Bool.or_true]

theorem plainUri_readsPlain : @NdnCxx.ReadsPlain plainUri := by
  let := plainUri
  refine ⟨fun c hc => ?_, fun l hl => ?_⟩
  · have hsplit : c.splitOn '/' = [c] := List.splitOn_eq_singleton hc.slash
    show (⟨(c.splitOn '/').filter (· ≠ [])⟩ : Name) = ⟨[c]⟩
    rw [hsplit, List.filter_cons_of_pos (by simpa using hc.1)]
    rfl
  · exact plainUri_toUri (fun c hc => (hl c hc).slash) fun c hc => (hl c hc).1

end IncSim
