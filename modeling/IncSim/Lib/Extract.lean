import Mathlib.Algebra.Group.Nat.Defs
import IncSim.Lib.Text

/-!
# Formatted extraction

`operator>>` of an `std::istringstream` in the classic locale, with its default flags.

* `Stream`: the characters that are left, or none after a failed extraction.
* `word`, `unsigned`, `double`: a string, a `uint32_t`, a `double` (the value is not kept).
* `word_append`: a word with white space behind it.
* `columns`: several words. **`columns_append`**, `columns_intercalate`: words that were written with
  tabs between them; `exists_columns`: the words that are read are followed by empty ones.
* `Printed`, **`double_printed`**: a number that was printed, with white space or nothing behind it.
-/

namespace Extract

open Text

/-- The characters that are left; `none` after a failed extraction. -/
abbrev Stream := Option (List Char)

/-- What an extraction starts from: the first character that is no white space. -/
def sentry (s : Stream) : Stream :=
  match s.map (List.dropWhile isSpace) with
  | none => none
  | some [] => none
  | some s => some s

/-- `>>` into an empty `std::string`. -/
def word (s : Stream) : List Char × Stream :=
  match sentry s with
  | none => ([], none)
  | some s => (s.takeWhile (!isSpace ·), some (s.dropWhile (!isSpace ·)))

/-- `>>` into a `uint32_t` that holds `cur`: without digits it becomes 0, and the largest value when
the number does not fit. -/
def unsigned (cur : UInt32) (s : Stream) : UInt32 × Stream :=
  match sentry s with
  | none => (cur, none)
  | some s =>
    let (neg, s) := readSign s
    let ds := s.takeWhile Char.isDigit
    let m := Nat.ofDigitChars 10 ds 0
    if ds = [] then (0, none)
    else if 2 ^ 32 ≤ m then (0xffffffff, none)
    else (if neg then -UInt32.ofNat m else UInt32.ofNat m, some (s.dropWhile Char.isDigit))

/-- Is `m * 10 ^ e` rounded to an infinite `double`? -/
def overflows (m : ℕ) (e : ℤ) : Bool :=
  (2 ^ 1024 - 2 ^ 970) * 10 ^ (-e).toNat ≤ m * 10 ^ e.toNat

/-- The exponent of a number, if there is one. -/
def exponent : List Char → Option (ℤ × List Char)
  | [] => some (0, [])
  | c :: s =>
    if c = 'e' ∨ c = 'E' then
      let (neg, s) := readSign s
      let ds := s.takeWhile Char.isDigit
      let m : ℤ := Nat.ofDigitChars 10 ds 0
      if ds = [] then none else some (if neg then -m else m, s.dropWhile Char.isDigit)
    else some (0, c :: s)

/-- The digits behind a decimal point, if there is one. -/
def fraction : List Char → List Char × List Char
  | '.' :: s => (s.takeWhile Char.isDigit, s.dropWhile Char.isDigit)
  | s => ([], s)

/-- `>>` into a `double`. -/
def double (s : Stream) : Stream :=
  match sentry s with
  | none => none
  | some s =>
    let s := (readSign s).2
    let ds := s.takeWhile Char.isDigit
    let (fs, s) := fraction (s.dropWhile Char.isDigit)
    if ds ++ fs = [] then none
    else
      match exponent s with
      | none => none
      | some (e, s) =>
        if overflows (Nat.ofDigitChars 10 (ds ++ fs) 0) (e - fs.length) then none else some s

variable {w s : List Char}

/-- A text to extract as a word. -/
def Word (w : List Char) : Prop := w ≠ [] ∧ ∀ c ∈ w, isSpace c = false

theorem Word.of_all (hne : w ≠ []) (hall : (w.all fun c => !isSpace c) = true) : Word w := by
  refine ⟨hne, fun c hc => ?_⟩
  have h := List.all_eq_true.mp hall c hc
  simpa using h

theorem sentry_some (hw : Word w) : sentry (some (w ++ s)) = some (w ++ s) := by
  obtain ⟨hne, hw⟩ := hw
  obtain ⟨c, w, rfl⟩ := List.exists_cons_of_ne_nil hne
  have hdrop : (c :: w ++ s).dropWhile isSpace = c :: w ++ s := by
    rw [List.cons_append, List.dropWhile_cons_of_neg (by simp [hw c List.mem_cons_self])]
  rw [sentry, Option.map_some, hdrop]
  rfl

theorem sentry_space {c : Char} (hc : isSpace c = true) :
    sentry (some (c :: s)) = sentry (some s) := by
  rw [sentry, Option.map_some, List.dropWhile_cons_of_pos hc]
  rfl

/-- White space before a word is skipped. -/
theorem word_space {c : Char} (hc : isSpace c = true) : word (some (c :: s)) = word (some s) := by
  rw [word, sentry_space hc]
  rfl

/-- **A word** with white space behind it. -/
theorem word_append {c : Char} (hw : Word w) (hc : isSpace c = true) :
    word (some (w ++ c :: s)) = (w, some (c :: s)) := by
  have hall : ∀ a ∈ w, (!isSpace a) = true := fun a ha => by simp [hw.2 a ha]
  rw [word, sentry_some hw]
  dsimp only
  rw [List.takeWhile_append_of_pos hall, List.dropWhile_append_of_pos hall,
    List.takeWhile_cons_of_neg (by simp [hc]), List.dropWhile_cons_of_neg (by simp [hc]),
    List.append_nil]

/-! ## Several words -/

/-- `n` words; an extraction that fails leaves an empty one. -/
def columns : ℕ → Stream → List (List Char)
  | 0, _ => []
  | n + 1, s => (word s).1 :: columns n (word s).2

/-- The first `n` words of a list, with empty ones behind the last word. -/
def pad : ℕ → List (List Char) → List (List Char)
  | 0, _ => []
  | n + 1, [] => [] :: pad n []
  | n + 1, w :: ws => w :: pad n ws

variable {n : ℕ} {ws : List (List Char)}

theorem pad_take (n : ℕ) (ws : List (List Char)) : pad n (ws.take n) = pad n ws := by
  induction n generalizing ws with
  | zero => rfl
  | succ n ih =>
    cases ws with
    | nil => rfl
    | cons w ws => rw [List.take_succ_cons, pad, pad, ih]

theorem columns_none (n : ℕ) : columns n none = pad n [] := by
  induction n with
  | zero => rfl
  | succ n ih => exact congrArg ([] :: ·) ih

theorem columns_space {c : Char} (hc : isSpace c = true) (n : ℕ) :
    columns n (some (c :: s)) = columns n (some s) := by
  cases n with
  | zero => rfl
  | succ n => rw [columns, columns, word_space hc]

theorem columns_of_spaces (hs : ∀ c ∈ s, isSpace c = true) (n : ℕ) :
    columns n (some s) = pad n [] := by
  cases n with
  | zero => rfl
  | succ n =>
    have hdrop : s.dropWhile isSpace = [] := List.dropWhile_eq_nil_iff.mpr hs
    have hword : word (some s) = ([], none) := by rw [word, sentry, Option.map_some, hdrop]
    rw [columns, hword, columns_none]
    rfl

theorem word_self (hw : Word w) : word (some w) = (w, some []) := by
  have hall : ∀ a ∈ w, (!isSpace a) = true := fun a ha => by simp [hw.2 a ha]
  have hsentry := sentry_some (s := []) hw
  rw [List.append_nil] at hsentry
  rw [word, hsentry]
  dsimp only
  rw [List.takeWhile_eq_self_iff.mpr hall, List.dropWhile_eq_nil_iff.mpr hall]

theorem columns_word {c : Char} (hw : Word w) (hc : isSpace c = true) (n : ℕ) :
    columns (n + 1) (some (w ++ c :: s)) = w :: columns n (some s) := by
  rw [columns, word_append hw hc, columns_space hc]

/-- **Words with a tab behind each**, and white space at the end. -/
theorem columns_append (hws : ∀ w ∈ ws, Word w) (hs : ∀ c ∈ s, isSpace c = true) (n : ℕ) :
    columns n (some (ws.flatMap (· ++ ['\t']) ++ s)) = pad n ws := by
  induction ws generalizing n with
  | nil => exact columns_of_spaces hs n
  | cons w ws ih =>
    obtain ⟨hw, hws⟩ := List.forall_mem_cons.mp hws
    cases n with
    | zero => rfl
    | succ n =>
      have hline : (w :: ws).flatMap (· ++ ['\t']) ++ s =
          w ++ '\t' :: (ws.flatMap (· ++ ['\t']) ++ s) := by simp
      rw [hline, columns_word hw (by decide), ih hws, pad]

/-- Words with tabs between them. -/
theorem columns_intercalate (hws : ∀ w ∈ ws, Word w) (n : ℕ) :
    columns n (some (['\t'].intercalate ws)) = pad n ws := by
  induction ws generalizing n with
  | nil => exact columns_of_spaces (List.forall_mem_nil _) n
  | cons w ws ih =>
    obtain ⟨hw, hws⟩ := List.forall_mem_cons.mp hws
    cases n with
    | zero => rfl
    | succ n =>
      cases ws with
      | nil =>
        rw [List.intercalate_singleton, columns, word_self hw, pad]
        exact congrArg (w :: ·) (columns_of_spaces (List.forall_mem_nil _) n)
      | cons w' ws =>
        have hline : ['\t'].intercalate (w :: w' :: ws) =
            w ++ '\t' :: ['\t'].intercalate (w' :: ws) := by simp [List.intercalate]
        rw [hline, columns_word hw (by decide), ih hws, pad]

/-- What is left behind a word begins with white space. -/
theorem word_cases (s : Stream) : word s = ([], none) ∨
    ∃ w s', Word w ∧ word s = (w, some s') := by
  cases s with
  | none => exact Or.inl rfl
  | some s =>
    unfold word sentry
    rw [Option.map_some]
    cases hdrop : s.dropWhile isSpace with
    | nil => exact Or.inl rfl
    | cons c r =>
      have hc : isSpace c = false := by
        have hhead := List.head?_dropWhile_not isSpace s
        rw [hdrop] at hhead
        simpa using hhead
      refine Or.inr ⟨_, _, ⟨?_, fun c' hc' => ?_⟩, rfl⟩
      · rw [List.takeWhile_cons_of_pos (by simp [hc])]
        exact List.cons_ne_nil _ _
      · simpa using List.mem_takeWhile_imp hc'

/-- The words that are read are followed by empty ones only. -/
theorem exists_columns (n : ℕ) (s : Stream) : ∃ ws, (∀ w ∈ ws, Word w) ∧ columns n s = pad n ws := by
  induction n generalizing s with
  | zero => exact ⟨[], List.forall_mem_nil _, rfl⟩
  | succ n ih =>
    rcases word_cases s with hword | ⟨w, s', hw, hword⟩
    · refine ⟨[], List.forall_mem_nil _, ?_⟩
      rw [columns, hword, columns_none]
      rfl
    · obtain ⟨ws, hws, heq⟩ := ih (some s')
      refine ⟨w :: ws, List.forall_mem_cons.mpr ⟨hw, hws⟩, ?_⟩
      rw [columns, hword, heq, pad]

/-! ## Numbers that were printed -/

/-- Digits. -/
def Digits (ds : List Char) : Prop := ∀ c ∈ ds, c.isDigit = true

/-- What an output stream prints of a finite `double`. -/
inductive Printed : List Char → Prop
  | mk (neg : Bool) {ds fs ex : List Char} (hne : ds ≠ []) (hds : Digits ds)
    (hfs : fs = [] ∨ ∃ gs, fs = '.' :: gs ∧ Digits gs)
    (hex : ex = [] ∨ ∃ c gs, (c = '+' ∨ c = '-') ∧ gs ≠ [] ∧ Digits gs ∧ ex = 'e' :: c :: gs) :
    Printed ((if neg then ['-'] else []) ++ (ds ++ (fs ++ ex)))

/-- The text is at its end, or white space follows. -/
def Ends (s : List Char) : Prop := s = [] ∨ ∃ c r, isSpace c = true ∧ s = c :: r

/-- No digit follows. -/
def NoDigit (s : List Char) : Prop := ∀ c ∈ s.head?, c.isDigit = false

theorem takeWhile_digits {ds : List Char} (hds : Digits ds) (hs : NoDigit s) :
    (ds ++ s).takeWhile Char.isDigit = ds ∧ (ds ++ s).dropWhile Char.isDigit = s := by
  rw [List.takeWhile_append_of_pos hds, List.dropWhile_append_of_pos hds]
  cases s with
  | nil => exact ⟨List.append_nil ds, rfl⟩
  | cons c s =>
    have hc : ¬ c.isDigit = true := by simp [hs c rfl]
    rw [List.takeWhile_cons_of_neg hc, List.dropWhile_cons_of_neg hc, List.append_nil]
    exact ⟨rfl, rfl⟩

theorem Ends.noDigit (h : Ends s) : NoDigit s := by
  rcases h with rfl | ⟨c, r, hc, rfl⟩
  · exact nofun
  · intro c' hc'
    obtain rfl := Option.some.inj hc'
    by_contra hdigit
    rw [Bool.not_eq_false] at hdigit
    rw [isSpace_of_isDigit hdigit] at hc
    cases hc

theorem readSign_of_digit {c : Char} (hc : c.isDigit = true) :
    readSign (c :: s) = (false, c :: s) := by
  unfold readSign
  split
  · next heq => cases heq; cases hc
  · next heq => cases heq; cases hc
  · rfl

theorem sentry_cons {c : Char} (hc : isSpace c = false) : sentry (some (c :: s)) = some (c :: s) := by
  rw [sentry, Option.map_some, List.dropWhile_cons_of_neg (by simp [hc])]

/-- The exponent of a number that was printed. -/
theorem exponent_printed {ex : List Char}
    (hex : ex = [] ∨ ∃ c gs, (c = '+' ∨ c = '-') ∧ gs ≠ [] ∧ Digits gs ∧ ex = 'e' :: c :: gs)
    (hs : Ends s) : ∃ e, exponent (ex ++ s) = some (e, s) := by
  rcases hex with rfl | ⟨c, gs, hc, hne, hgs, rfl⟩
  · rcases hs with rfl | ⟨c, r, hc, rfl⟩
    · exact ⟨0, rfl⟩
    · refine ⟨0, if_neg ?_⟩
      rintro (rfl | rfl)
      · cases hc
      · cases hc
  · obtain ⟨htake, hdrop⟩ := takeWhile_digits hgs hs.noDigit
    have hsign : (readSign (c :: (gs ++ s))).2 = gs ++ s := by
      rcases hc with rfl | rfl <;> rfl
    refine ⟨if (readSign (c :: (gs ++ s))).1 then -(Nat.ofDigitChars 10 gs 0 : ℤ)
      else (Nat.ofDigitChars 10 gs 0 : ℤ), ?_⟩
    rw [List.cons_append, List.cons_append, exponent, if_pos (Or.inl rfl)]
    dsimp only
    rw [hsign, htake, hdrop, if_neg hne]

/-- The digits behind the point of a number that was printed. -/
theorem fraction_printed {fs : List Char} (hfs : fs = [] ∨ ∃ gs, fs = '.' :: gs ∧ Digits gs)
    (hs : NoDigit s) (hpoint : s.head? ≠ some '.') : ∃ gs, fraction (fs ++ s) = (gs, s) := by
  rcases hfs with rfl | ⟨gs, rfl, hgs⟩
  · refine ⟨[], ?_⟩
    rw [List.nil_append]
    unfold fraction
    split
    · exact absurd rfl hpoint
    · rfl
  · obtain ⟨htake, hdrop⟩ := takeWhile_digits hgs hs
    refine ⟨gs, ?_⟩
    rw [List.cons_append, fraction, htake, hdrop]

/-- **A number that was printed** is read to its end, or found too large. -/
theorem double_printed {t : List Char} (ht : Printed t) (hs : Ends s) :
    double (some ('\t' :: (t ++ s))) = some s ∨ double (some ('\t' :: (t ++ s))) = none := by
  obtain ⟨neg, hne, hds, hfs, hex⟩ := ht
  next ds fs ex =>
  obtain ⟨d, ds', rfl⟩ := List.exists_cons_of_ne_nil hne
  have hd : d.isDigit = true := hds d List.mem_cons_self
  have hexs : NoDigit (ex ++ s) ∧ (ex ++ s).head? ≠ some '.' := by
    rcases hex with rfl | ⟨c, gs, -, -, -, rfl⟩
    · refine ⟨hs.noDigit, fun hpoint => ?_⟩
      rcases hs with rfl | ⟨c, r, hc, rfl⟩
      · cases hpoint
      · obtain rfl := Option.some.inj hpoint
        cases hc
    · exact ⟨fun c hc => Option.some.inj hc ▸ rfl, fun h => absurd (Option.some.inj h) (by decide)⟩
  have hrest : NoDigit (fs ++ (ex ++ s)) := by
    rcases hfs with rfl | ⟨gs, rfl, -⟩
    · exact hexs.1
    · exact fun c hc => Option.some.inj hc ▸ rfl
  obtain ⟨htake, hdrop⟩ := takeWhile_digits hds hrest
  obtain ⟨gs, hfraction⟩ := fraction_printed hfs hexs.1 hexs.2
  obtain ⟨e, hexponent⟩ := exponent_printed hex hs
  have hsentry : sentry (some ('\t' :: ((if neg then ['-'] else []) ++ (d :: ds' ++ (fs ++ ex)) ++ s))) =
      some ((if neg then ['-'] else []) ++ (d :: ds' ++ (fs ++ (ex ++ s)))) := by
    rw [sentry_space (by decide)]
    cases neg with
    | true => simpa using sentry_cons (c := '-') (by decide)
    | false => simpa using sentry_cons (isSpace_of_isDigit hd)
  have hsign : (readSign ((if neg then ['-'] else []) ++ (d :: ds' ++ (fs ++ (ex ++ s))))).2 =
      d :: ds' ++ (fs ++ (ex ++ s)) := by
    cases neg with
    | true => rfl
    | false => exact congrArg Prod.snd (readSign_of_digit hd)
  unfold double
  rw [hsentry]
  dsimp only
  rw [hsign, htake, hdrop, hfraction]
  dsimp only
  rw [if_neg (by simp), hexponent]
  dsimp only
  split_ifs
  · exact Or.inr rfl
  · exact Or.inl rfl

end Extract
