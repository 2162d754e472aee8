import Mathlib.Data.List.Basic
import Mathlib.Data.List.TakeWhile

/-!
# Text: lists, numbers and headers in a string

* **`splitOn_append_segments`**: segments that start with the separator split back into themselves.
* `decimal`, `stoi`, **`stoi_decimal`**: writing a number and reading an `int` (`std::stoi`).
* `Free`, `free_decimal`: texts without separators; a written number is one.
* `find` (`std::string::find`), **`find_skip`**, **`infix_segments_iff`**,
  **`infix_intercalate_iff`**, **`mem_splitOn_of_infix`**: where a text occurs.
* `cString`: the text in a buffer that ends at its first null character.
-/

namespace Text

variable {sep c : Char} {s : List Char} {l : List (List Char)}

/-- Texts are compared by their characters. -/
instance lawfulBEq : LawfulBEq (List Char) := inferInstance

/-! ## Splitting -/

/-- **Segments that start with the separator** split back into themselves. -/
theorem splitOn_append_segments (hs : sep ∉ s) (hl : ∀ t ∈ l, sep ∉ t) :
    (s ++ l.flatMap fun t => sep :: t).splitOn sep = s :: l := by
  induction l generalizing s with
  | nil =>
    rw [List.flatMap_nil, List.append_nil]
    exact List.splitOn_eq_singleton hs
  | cons t l ih =>
    rw [List.flatMap_cons, List.cons_append, List.splitOn_append_cons_self_of_not_mem hs,
      ih (hl t List.mem_cons_self) fun t' ht' => hl t' (List.mem_cons_of_mem _ ht')]

theorem splitOn_segments (hl : ∀ t ∈ l, sep ∉ t) :
    (l.flatMap fun t => sep :: t).splitOn sep = [] :: l :=
  splitOn_append_segments (s := []) List.not_mem_nil hl

theorem splitOn_cons_self (s : List Char) : (sep :: s).splitOn sep = [] :: s.splitOn sep :=
  List.splitOn_append_cons_self [] s

theorem length_splitOn (sep : Char) (s : List Char) : (s.splitOn sep).length = s.count sep + 1 := by
  induction s with
  | nil => rfl
  | cons c s ih =>
    rw [List.splitOn_cons_eq_if_modifyHead]
    by_cases hc : c = sep
    · simp [hc, ih]
    · simp [hc, ih]

/-- Two fields with one separator between them. -/
theorem splitOn_pair {t : List Char} (hs : sep ∉ s) (ht : sep ∉ t) :
    (s ++ sep :: t).splitOn sep = [s, t] := by
  rw [List.splitOn_append_cons_self_of_not_mem hs, List.splitOn_eq_singleton ht]

theorem not_mem_of_mem_splitOn {t : List Char} (h : t ∈ s.splitOn sep) : sep ∉ t := by
  induction s generalizing t with
  | nil =>
    rw [List.splitOn_nil, List.mem_singleton] at h
    rw [h]
    exact List.not_mem_nil
  | cons c s ih =>
    rw [List.splitOn_cons_eq_if_modifyHead] at h
    split at h
    · rcases List.mem_cons.mp h with rfl | h
      · exact List.not_mem_nil
      · exact ih h
    · next hc =>
      obtain ⟨t', l, hsplit⟩ := List.exists_cons_of_ne_nil (List.splitOn_ne_nil sep s)
      rw [hsplit] at h ih
      rcases List.mem_cons.mp h with rfl | h
      · intro hmem
        rcases List.mem_cons.mp hmem with rfl | hmem
        · exact hc (beq_self_eq_true sep)
        · exact ih List.mem_cons_self hmem
      · exact ih (List.mem_cons_of_mem _ h)

/-- Segments that end with the separator, the last separator taken away. -/
theorem dropLast_flatMap_append (sep : Char) (l : List (List Char)) :
    (l.flatMap fun t => t ++ [sep]).dropLast = [sep].intercalate l := by
  induction l with
  | nil => rfl
  | cons t l ih =>
    cases l with
    | nil => simp [List.intercalate]
    | cons t' l =>
      have hne : ((t' :: l).flatMap fun t => t ++ [sep]) ≠ [] := by simp
      rw [List.flatMap_cons, List.dropLast_append_of_ne_nil hne, ih]
      simp [List.intercalate]

/-- A text in front of fields without the separator. -/
theorem splitOn_intercalate_cons (s : List Char) (hl : ∀ t ∈ l, sep ∉ t) (hne : l ≠ []) :
    ([sep].intercalate (s :: l)).splitOn sep = s.splitOn sep ++ l := by
  rw [List.intercalate_cons_of_ne_nil hne, List.append_assoc, List.singleton_append,
    List.splitOn_append_cons_self, List.splitOn_intercalate sep hl hne]

/-- What occurs in joined texts occurs in one of them, or between them. -/
theorem mem_intercalate {seps : List Char} (h : c ∈ seps.intercalate l) :
    c ∈ seps ∨ ∃ t ∈ l, c ∈ t := by
  induction l with
  | nil => cases h
  | cons t l ih =>
    by_cases hl : l = []
    · subst hl
      rw [List.intercalate_singleton] at h
      exact Or.inr ⟨t, List.mem_singleton_self t, h⟩
    · rw [List.intercalate_cons_of_ne_nil hl, List.append_assoc, List.mem_append,
        List.mem_append] at h
      rcases h with h | h | h
      · exact Or.inr ⟨t, List.mem_cons_self, h⟩
      · exact Or.inl h
      · refine (ih h).imp_right ?_
        rintro ⟨t', ht', hc⟩
        exact ⟨t', List.mem_cons_of_mem t ht', hc⟩

/-- One more field. -/
theorem intercalate_concat (hne : l ≠ []) (t : List Char) :
    [sep].intercalate (l ++ [t]) = [sep].intercalate l ++ sep :: t := by
  induction l with
  | nil => exact absurd rfl hne
  | cons t' l ih =>
    rw [List.cons_append, List.intercalate_cons_of_ne_nil (List.concat_ne_nil t l)]
    by_cases hl : l = []
    · subst hl
      simp
    · rw [ih hl, List.intercalate_cons_of_ne_nil hl]
      simp

/-! ## Numbers -/

/-- `operator<<` and `std::to_string` of an unsigned number. -/
def decimal (n : ℕ) : List Char := Nat.toDigits 10 n

/-- `isspace` in the classic locale. -/
def isSpace (c : Char) : Bool := c ∈ [' ', '\t', '\n', '\x0b', '\x0c', '\r']

/-- The sign and the rest. -/
def readSign : List Char → Bool × List Char
  | '-' :: s => (true, s)
  | '+' :: s => (false, s)
  | s => (false, s)

/-- `std::stoi` in base 10: it throws without a digit and outside the range of `int`. -/
def stoi (s : List Char) : Option ℤ :=
  let (neg, s) := readSign (s.dropWhile isSpace)
  let ds := s.takeWhile Char.isDigit
  let m : ℤ := Nat.ofDigitChars 10 ds 0
  let v := if neg then -m else m
  if ds = [] then none
  else if -2147483648 ≤ v ∧ v < 2147483648 then some v else none

theorem isDigit_of_mem_decimal {n : ℕ} (h : c ∈ decimal n) : c.isDigit = true :=
  Nat.isDigit_of_mem_toDigits (by decide) (by decide) h

theorem not_mem_decimal (hc : c.isDigit = false) (n : ℕ) : c ∉ decimal n := by
  intro h
  rw [isDigit_of_mem_decimal h] at hc
  cases hc

/-- None of the separators is in the text. -/
def Free (seps : List Char) (s : List Char) : Prop := ∀ c ∈ seps, c ∉ s

instance (seps s : List Char) : Decidable (Free seps s) := List.decidableBAll (fun c => c ∉ s) seps

theorem Free.mono {seps seps' : List Char} (h : Free seps s) (hs : seps' ⊆ seps) : Free seps' s :=
  fun c hc => h c (hs hc)

/-- Two texts without the separators, with another one between them. -/
theorem Free.append_cons {seps t : List Char} (hs : Free seps s) (hsep : sep ∉ seps)
    (ht : Free seps t) : Free seps (s ++ sep :: t) := by
  intro c hc h
  rcases List.mem_append.mp h with h | h
  · exact hs c hc h
  · rcases List.mem_cons.mp h with rfl | h
    · exact hsep hc
    · exact ht c hc h

theorem free_nil (seps : List Char) : Free seps [] := fun _ _ => List.not_mem_nil

/-- A written number has no separator in it. -/
theorem free_decimal (seps : List Char) (hs : (seps.all fun c => !c.isDigit) = true) (n : ℕ) :
    Free seps (decimal n) := by
  intro c hc
  have hdigit := List.all_eq_true.mp hs c hc
  rw [Bool.not_eq_true'] at hdigit
  exact not_mem_decimal hdigit n

theorem readSign_of_isDigit (hs : ∀ c ∈ s, c.isDigit = true) : readSign s = (false, s) := by
  unfold readSign
  split
  · exact absurd (hs '-' List.mem_cons_self) (by decide)
  · exact absurd (hs '+' List.mem_cons_self) (by decide)
  · rfl

theorem isSpace_of_isDigit (hc : c.isDigit = true) : isSpace c = false := by
  by_contra h
  rw [Bool.not_eq_false, isSpace, decide_eq_true_iff] at h
  have hall : ([' ', '\t', '\n', '\x0b', '\x0c', '\r'].all fun c => !c.isDigit) = true := by decide
  have hdigit := List.all_eq_true.mp hall c h
  rw [hc] at hdigit
  cases hdigit

theorem dropWhile_isSpace (hs : ∀ c ∈ s, c.isDigit = true) : s.dropWhile isSpace = s := by
  cases s with
  | nil => rfl
  | cons c s => simp [isSpace_of_isDigit (hs c List.mem_cons_self)]

/-- **Reading back a number that was written.** -/
theorem stoi_decimal {n : ℕ} (h : n < 2147483648) : stoi (decimal n) = some (n : ℤ) := by
  have hd : ∀ c ∈ decimal n, c.isDigit = true := fun c => isDigit_of_mem_decimal
  have htake : (decimal n).takeWhile Char.isDigit = decimal n := List.takeWhile_eq_self_iff.mpr hd
  have hval : Nat.ofDigitChars 10 (decimal n) 0 = n := Nat.ofDigitChars_ten_toDigits
  have hne : decimal n ≠ [] := Nat.toDigits_ne_nil
  simp only [stoi, dropWhile_isSpace hd, readSign_of_isDigit hd, htake, hval]
  rw [if_neg hne]
  exact if_pos ⟨by simp only [Bool.false_eq_true, if_false]; omega, by simp; omega⟩

/-- Texts without the separators, joined by another one. -/
theorem Free.intercalate {seps : List Char} (hsep : sep ∉ seps) (hl : ∀ t ∈ l, Free seps t) :
    Free seps ([sep].intercalate l) := by
  induction l with
  | nil => exact free_nil seps
  | cons t l ih =>
    have ht : Free seps t := hl t List.mem_cons_self
    cases l with
    | nil =>
      have hone : [sep].intercalate [t] = t := by simp [List.intercalate]
      rw [hone]
      exact ht
    | cons t' l =>
      have hcons : [sep].intercalate (t :: t' :: l) = t ++ sep :: [sep].intercalate (t' :: l) := by
        simp [List.intercalate]
      rw [hcons]
      exact ht.append_cons hsep (ih fun t'' h => hl t'' (List.mem_cons_of_mem _ h))

/-! ## Substrings -/

/-- `std::string::find`: the first position of a text, if it occurs. -/
def find (p : List Char) : List Char → Option ℕ
  | [] => if p = [] then some 0 else none
  | c :: s => if p.isPrefixOf (c :: s) then some 0 else (find p s).map (· + 1)

variable {p t : List Char}

theorem find_of_isPrefix (h : p <+: s) : find p s = some 0 := by
  cases s with
  | nil => exact if_pos (List.prefix_nil.mp h)
  | cons c s => exact if_pos (List.isPrefixOf_iff_prefix.mpr h)

theorem find_eq_none_iff : find p s = none ↔ ¬ p <:+: s := by
  induction s with
  | nil => simp [find]
  | cons c s ih =>
    rw [find, List.infix_cons_iff]
    split
    · next h => simp [List.isPrefixOf_iff_prefix.mp h]
    · next h =>
      rw [List.isPrefixOf_iff_prefix] at h
      rw [Option.map_eq_none_iff, ih, not_or, and_iff_right h]

/-- A text that starts with the separator does not occur in a text without it. -/
theorem find_append (ht : sep ∉ t) :
    find (sep :: p) (t ++ s) = (find (sep :: p) s).map (· + t.length) := by
  induction t with
  | nil => simp
  | cons c t ih =>
    have hc : ¬ (sep :: p).isPrefixOf (c :: (t ++ s)) = true := by
      rw [List.isPrefixOf_iff_prefix, List.cons_prefix_cons]
      rintro ⟨rfl, -⟩
      exact ht List.mem_cons_self
    rw [List.cons_append, find, if_neg hc, ih fun h => ht (List.mem_cons_of_mem _ h)]
    simp [Option.map_map, Function.comp_def, Nat.add_assoc]

/-- **Skipping a segment** that the text behind the separator is no prefix of. -/
theorem find_skip (ht : sep ∉ t) (hp : ¬ p <+: t ++ s) :
    find (sep :: p) (sep :: (t ++ s)) = (find (sep :: p) s).map (· + (t.length + 1)) := by
  have hhead : ¬ (sep :: p).isPrefixOf (sep :: (t ++ s)) = true := by
    rw [List.isPrefixOf_iff_prefix, List.cons_prefix_cons]
    exact fun h => hp h.2
  rw [find, if_neg hhead, find_append ht]
  simp [Option.map_map, Function.comp_def, Nat.add_assoc]

/-- A text without the separator that starts at a segment ends in it. -/
theorem isPrefix_of_append (hp : sep ∉ p) (h : p <+: t ++ sep :: s) : p <+: t := by
  rcases List.prefix_or_prefix_of_prefix h (List.prefix_append t (sep :: s)) with h' | ⟨r, rfl⟩
  · exact h'
  · rw [List.prefix_append_right_inj] at h
    cases r with
    | nil => exact (List.append_nil t).symm ▸ List.prefix_refl t
    | cons c r =>
      rw [List.cons_prefix_cons] at h
      rw [h.1] at hp
      exact absurd (List.mem_append_right t List.mem_cons_self) hp

/-- A text without the separator occurs on one side of it. -/
theorem infix_append_cons_iff (hp : sep ∉ p) : p <:+: t ++ sep :: s ↔ p <:+: t ∨ p <:+: s := by
  induction t with
  | nil =>
    have hnil : p <+: sep :: s ↔ p = [] := by
      refine ⟨fun h => ?_, fun h => h ▸ List.nil_prefix⟩
      exact List.prefix_nil.mp (isPrefix_of_append (t := []) hp h)
    rw [List.nil_append, List.infix_cons_iff, List.infix_nil, hnil]
  | cons c t ih =>
    have hprefix : p <+: c :: (t ++ sep :: s) ↔ p <+: c :: t :=
      ⟨isPrefix_of_append (t := c :: t) hp, fun h => h.trans (List.prefix_append (c :: t) _)⟩
    rw [List.cons_append, List.infix_cons_iff, List.infix_cons_iff, hprefix, ih, or_assoc]

/-- **A text in a list** with separators lies in one of the fields. -/
theorem infix_intercalate_iff (hp : sep ∉ p) (hne : p ≠ []) :
    p <:+: [sep].intercalate l ↔ ∃ t ∈ l, p <:+: t := by
  induction l with
  | nil => simp [List.intercalate, hne]
  | cons t l ih =>
    by_cases hl : l = []
    · subst hl
      simp
    · rw [List.intercalate_cons_of_ne_nil hl, List.append_assoc, List.singleton_append,
        infix_append_cons_iff hp, ih]
      simp

/-- A text that starts with the separator occurs behind a text without it, or not at all. -/
theorem infix_append_iff (ht : sep ∉ t) : sep :: p <:+: t ++ s ↔ sep :: p <:+: s := by
  rw [← not_iff_not, ← find_eq_none_iff, ← find_eq_none_iff, find_append ht,
    Option.map_eq_none_iff]

/-- **A separator and a text without it** occur in segments where the text begins one of them. -/
theorem infix_segments_iff (hp : sep ∉ p) (hl : ∀ t ∈ l, sep ∉ t) :
    (sep :: p <:+: l.flatMap fun t => sep :: t) ↔ ∃ t ∈ l, p <+: t := by
  induction l with
  | nil => simp
  | cons t l ih =>
    have ht : sep ∉ t := hl t List.mem_cons_self
    have hhead : (p <+: t ++ l.flatMap fun t => sep :: t) ↔ p <+: t := by
      refine ⟨fun h => ?_, fun h => h.trans (List.prefix_append t _)⟩
      cases l with
      | nil => rwa [List.flatMap_nil, List.append_nil] at h
      | cons t' l =>
        rw [List.flatMap_cons, List.cons_append] at h
        exact isPrefix_of_append hp h
    rw [List.flatMap_cons, List.cons_append, List.infix_cons_iff, List.cons_prefix_cons,
      and_iff_right rfl, hhead, infix_append_iff ht, ih fun t' ht' => hl t' (List.mem_cons_of_mem _ ht')]
    simp

/-- A text between two separators is one of the segments. -/
theorem mem_splitOn_of_infix (hp : sep ∉ p) (h : sep :: (p ++ [sep]) <:+: s) :
    p ∈ s.splitOn sep := by
  obtain ⟨a, b, rfl⟩ := h
  have hs : a ++ sep :: (p ++ [sep]) ++ b = a ++ sep :: (p ++ sep :: b) := by simp
  rw [hs, List.splitOn_append_cons_self, List.splitOn_append_cons_self_of_not_mem hp]
  exact List.mem_append_right _ List.mem_cons_self

/-! ## C strings -/

/-- `std::string (char *)`: the text up to the first null character. -/
def cString (s : List Char) : List Char := s.takeWhile (· ≠ '\x00')

theorem cString_cons (hc : c ≠ '\x00') : cString (c :: s) = c :: cString s := by
  simp [cString, hc]

theorem cString_append (h : '\x00' ∉ s) : cString (s ++ t) = s ++ cString t := by
  induction s with
  | nil => rfl
  | cons c s ih =>
    have hc : c ≠ '\x00' := fun hc => h (hc ▸ List.mem_cons_self)
    rw [List.cons_append, cString_cons hc, ih fun h' => h (List.mem_cons_of_mem _ h'),
      List.cons_append]

theorem cString_of_not_mem (h : '\x00' ∉ s) : cString s = s := by
  simpa [cString] using cString_append (t := []) h

theorem cString_append_of_mem (h : '\x00' ∈ s) : cString (s ++ t) = cString s := by
  induction s with
  | nil => exact absurd h List.not_mem_nil
  | cons c s ih =>
    by_cases hc : c = '\x00'
    · subst hc
      rfl
    · have hmem : '\x00' ∈ s := (List.mem_cons.mp h).resolve_left (Ne.symm hc)
      rw [List.cons_append, cString_cons hc, cString_cons hc, ih hmem]

/-- A terminated buffer. -/
theorem cString_terminated (s : List Char) : cString (s ++ ['\x00']) = cString s := by
  by_cases h : '\x00' ∈ s
  · exact cString_append_of_mem h
  · have hs := cString_append (t := []) h
    rw [List.append_nil] at hs
    rw [cString_append h, hs]
    rfl

/-- Cutting a C string at the length of its buffer, whatever lies behind the buffer. -/
theorem take_cString (s t : List Char) : (cString (s ++ t)).take s.length = cString s := by
  by_cases h : '\x00' ∈ s
  · rw [cString_append_of_mem h]
    exact List.take_of_length_le (List.takeWhile_sublist _).length_le
  · have hs := cString_append (t := []) h
    rw [List.append_nil] at hs
    rw [cString_append h, List.take_left, hs]
    exact (List.append_nil s).symm

theorem cString_isPrefix (s : List Char) : cString s <+: s := List.takeWhile_prefix _

end Text
