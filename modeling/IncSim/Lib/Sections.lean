import Mathlib.Data.List.Basic
import IncSim.Lib.Text

/-!
# Text files in sections

A file is the list of its lines, as `getline` delivers them: the last line ends where the file ends,
and the end is reached when no line is left.

* `skipTo`: the lines behind a title.
* `read`: the rows up to the next title, without blank lines and comments.
* `rows_read`: which lines are rows; `read_section`: a section reads back as its rows.
* `foldlM_invariant`: rows that are read one after the other.
-/

namespace Sections

abbrev Line := List Char

/-- A blank line, or a comment. -/
def Skipped (l : Line) : Prop := l = [] ∨ l.head? = some '#'

instance (l : Line) : Decidable (Skipped l) := inferInstanceAs (Decidable (_ ∨ _))

/-- What is read of a section: its rows, the title that ends it, and the lines behind that title. -/
structure Part where
  rows : List Line
  title : Option Line
  rest : List Line

def skipTo (title : Line) : List Line → List Line
  | [] => []
  | l :: ls => if l = title then ls else skipTo title ls

def read (titles : List Line) : List Line → Part
  | [] => ⟨[], none, []⟩
  | l :: ls =>
    if Skipped l then read titles ls
    else if l ∈ titles then ⟨[], some l, ls⟩
    else { read titles ls with rows := l :: (read titles ls).rows }

variable {titles rows ls : List Line} {l : Line}

@[simp] theorem skipTo_self (l : Line) (ls : List Line) : skipTo l (l :: ls) = ls := if_pos rfl

theorem skipTo_append (h : l ∉ rows) (ls : List Line) : skipTo l (rows ++ l :: ls) = ls := by
  induction rows with
  | nil => exact skipTo_self l ls
  | cons l' rows ih =>
    have hne : l' ≠ l := fun heq => h (heq ▸ List.mem_cons_self)
    rw [List.cons_append, skipTo, if_neg hne]
    exact ih fun hmem => h (List.mem_cons_of_mem _ hmem)

@[simp] theorem read_blank : read titles ([] :: ls) = read titles ls := if_pos (Or.inl rfl)

theorem read_skipped (h : ∀ l ∈ rows, Skipped l) : read titles (rows ++ ls) = read titles ls := by
  induction rows with
  | nil => rfl
  | cons l rows ih =>
    rw [List.cons_append, read, if_pos (h l List.mem_cons_self)]
    exact ih fun l' hl' => h l' (List.mem_cons_of_mem _ hl')

theorem read_title (hs : ¬ Skipped l) (hl : l ∈ titles) : read titles (l :: ls) = ⟨[], some l, ls⟩ := by
  rw [read, if_neg hs, if_pos hl]

theorem read_append (h : ∀ l ∈ rows, ¬ Skipped l ∧ l ∉ titles) :
    read titles (rows ++ ls) = { read titles ls with rows := rows ++ (read titles ls).rows } := by
  induction rows with
  | nil => rfl
  | cons l rows ih =>
    have hl := h l List.mem_cons_self
    have hrows := ih fun l' hl' => h l' (List.mem_cons_of_mem _ hl')
    rw [List.cons_append, read, if_neg hl.1, if_neg hl.2, hrows]
    rfl

/-- The rows of a section are its lines up to the title that are neither blank nor a comment. -/
theorem rows_read (h : ∀ l ∈ titles, ¬ Skipped l) :
    (read titles ls).rows = (ls.takeWhile (· ∉ titles)).filter (¬ Skipped ·) := by
  induction ls with
  | nil => rfl
  | cons l ls ih =>
    by_cases hs : Skipped l
    · have hl : l ∉ titles := fun hl => h l hl hs
      rw [read, if_pos hs, ih, List.takeWhile_cons_of_pos (by simpa using hl),
        List.filter_cons_of_neg (by simpa using hs)]
    · by_cases hl : l ∈ titles
      · rw [read, if_neg hs, if_pos hl, List.takeWhile_cons_of_neg (by simpa using hl)]
        rfl
      · rw [read, if_neg hs, if_neg hl, List.takeWhile_cons_of_pos (by simpa using hl),
          List.filter_cons_of_pos (by simpa using hs), ← ih]

/-- **A section that a title ends**, with a blank line before the title. -/
theorem read_section (h : ∀ l ∈ rows, ¬ Skipped l ∧ l ∉ titles) (hs : ¬ Skipped l) (hl : l ∈ titles) :
    read titles (rows ++ [] :: l :: ls) = ⟨rows, some l, ls⟩ := by
  rw [read_append h, read_blank, read_title hs hl]
  dsimp only
  rw [List.append_nil]

/-- **What every row keeps** holds behind the rows, if all can be read. -/
theorem foldlM_invariant {σ : Type} {f : σ → Line → Option σ} {P : σ → Prop} {a b : σ}
    (hrow : ∀ a l b, P a → f a l = some b → P b) (h₀ : P a) (h : rows.foldlM f a = some b) : P b := by
  induction rows generalizing a with
  | nil =>
    cases h
    exact h₀
  | cons l rows ih =>
    rw [List.foldlM_cons] at h
    obtain ⟨c, hc, h⟩ := Option.bind_eq_some_iff.mp h
    exact ih (hrow a l c h₀ hc) h

end Sections
