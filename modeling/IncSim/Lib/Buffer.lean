import Mathlib.Data.List.Basic

/-!
# Buffers that are filled piece by piece

* `copyAt`: a copy of some cells to a place in a buffer; none when it leaves one of the two.
* `length_copyAt`, `getElem?_copyAt`: what the buffer has after it.
* `Repeats`: the first cells of a buffer show a pattern over and over again.
* **`Repeats.copyAt`**: one more copy of the pattern, or of its beginning, behind whole copies.
* `repeated`, `Repeats.eq_repeated`: the buffer that is nothing but copies.
-/

universe u

namespace Buffer

variable {α : Type u}

/-- The first `n` cells of `src` in place of those of `buf` from place `i` on. -/
def copyAt (buf src : List α) (i n : ℕ) : Option (List α) :=
  if i + n ≤ buf.length ∧ n ≤ src.length then some (buf.take i ++ (src.take n ++ buf.drop (i + n)))
  else none

variable {buf buf' src pat : List α} {i j k n : ℕ}

theorem copyAt_isSome : (copyAt buf src i n).isSome = true ↔ i + n ≤ buf.length ∧ n ≤ src.length := by
  unfold copyAt
  split_ifs with h <;> simp [h]

theorem copyAt_eq_some (h : copyAt buf src i n = some buf') :
    i + n ≤ buf.length ∧ n ≤ src.length ∧ buf' = buf.take i ++ (src.take n ++ buf.drop (i + n)) := by
  unfold copyAt at h
  split_ifs at h with hle
  exact ⟨hle.1, hle.2, (Option.some.inj h).symm⟩

/-- **The buffer keeps its length.** -/
theorem length_copyAt (h : copyAt buf src i n = some buf') : buf'.length = buf.length := by
  obtain ⟨hbuf, hsrc, rfl⟩ := copyAt_eq_some h
  simp only [List.length_append, List.length_take, List.length_drop]
  omega

/-- **What the buffer has** where something was copied to, and elsewhere. -/
theorem getElem?_copyAt (h : copyAt buf src i n = some buf') (j : ℕ) :
    buf'[j]? = if i ≤ j ∧ j < i + n then src[j - i]? else buf[j]? := by
  obtain ⟨hbuf, hsrc, rfl⟩ := copyAt_eq_some h
  have hi : (buf.take i).length = i := by simp; omega
  have hn : (src.take n).length = n := by simp; omega
  by_cases hlow : j < i
  · rw [if_neg (by omega), List.getElem?_append_left (by omega), List.getElem?_take_of_lt hlow]
  · rw [List.getElem?_append_right (by omega), hi]
    by_cases hin : j < i + n
    · rw [if_pos ⟨by omega, hin⟩, List.getElem?_append_left (by omega),
        List.getElem?_take_of_lt (by omega)]
    · rw [if_neg (by omega), List.getElem?_append_right (by omega), hn, List.getElem?_drop]
      congr 1
      omega

/-- The first `n` cells show the pattern over and over again. -/
def Repeats (pat : List α) (n : ℕ) (buf : List α) : Prop :=
  ∀ j < n, buf[j]? = pat[j % pat.length]?

theorem repeats_zero : Repeats pat 0 buf := fun _ h => absurd h (Nat.not_lt_zero _)

/-- **One more copy** behind `k` whole ones; it may be the beginning of the pattern only. -/
theorem Repeats.copyAt (hr : Repeats pat (k * pat.length) buf) (hn : n ≤ pat.length)
    (h : copyAt buf pat (k * pat.length) n = some buf') : Repeats pat (k * pat.length + n) buf' := by
  intro j hj
  rw [getElem?_copyAt h]
  split_ifs with hin
  · have hmod : j % pat.length = j - k * pat.length := by
      rw [← Nat.sub_mul_mod (k := k) (by rw [Nat.mul_comm]; exact hin.1), Nat.mul_comm pat.length k]
      exact Nat.mod_eq_of_lt (by omega)
    rw [hmod]
  · exact hr j (by omega)

/-- `n` cells that show the pattern over and over again; `d` when the pattern is empty. -/
def repeated (pat : List α) (d : α) (n : ℕ) : List α :=
  (List.range n).map fun j => pat.getD (j % pat.length) d

theorem Repeats.eq_repeated (hr : Repeats pat n buf) (hlen : buf.length = n) (d : α) :
    buf = repeated pat d n := by
  refine List.ext_getElem (by simp [repeated, hlen]) fun j hj hj' => ?_
  have hcell := hr j (hlen ▸ hj)
  rw [List.getElem?_eq_getElem hj] at hcell
  simp only [repeated, List.getElem_map, List.getElem_range, List.getD_eq_getElem?_getD]
  rw [← hcell]
  rfl

end Buffer
