import IncSim.Dataset.ReadBack

/-!
# The runtimes of a function

The loop with which `ReadTopology` splits the runtimes column, on positions as the code has them:
`start` is an `unsigned`, `end` a `size_t`.

* `splitLoop`, `runtimesLoop`: the loop; fuel bounds the number of its rounds.
* **`runtimesLoop_eq`**: the tokens in front of every `;`, unless a `;` stands where `start` overflows.
* `runtimesLoop_splitRuntimes`, `runtimeEnvironment_readFunction`: below that size the loop is
  `splitRuntimes`, which the row of a function is read with.
* **`runtimesLoop_column_iff`**: the tokens of a column are read exactly when it ends with `;`.
-/

namespace IncSim

namespace Topology

open Extract

/-! ## The loop -/

/-- `find` of `;` behind a position. -/
def findFrom (s : Str) (pos : ℕ) : Option ℕ := (Text.find [';'] (s.drop pos)).map (· + pos)

/-- The rounds of the loop from `start` and `end` on. -/
def splitLoop (s : Str) : ℕ → UInt32 → Option ℕ → Option (List Str)
  | _, _, none => some []
  | 0, _, some _ => none
  | fuel + 1, start, some stop =>
    let next := UInt32.ofNat (stop + 1)
    (splitLoop s fuel next (findFrom s next.toNat)).map
      ((s.drop start.toNat).take (stop - start.toNat) :: ·)

/-- The loop that splits the runtimes. -/
def runtimesLoop (fuel : ℕ) (s : Str) : Option (List Str) := splitLoop s fuel 0 (findFrom s 0)

/-- Tokens with `;` behind each. -/
def terminated (tokens : List Str) : Str := tokens.flatMap fun t => t ++ [';']

/-- The column of the tokens, with or without a `;` at its end. -/
def column (tokens : List Str) (trailing : Bool) : Str :=
  [';'].intercalate tokens ++ if trailing then [';'] else []

/-- A token of the column. -/
def Token (t : Str) : Prop := Word t ∧ ';' ∉ t

variable {tokens : List Str} {rest s t : Str}

theorem terminated_cons : terminated (t :: tokens) = t ++ ';' :: terminated tokens := by
  simp [terminated]

theorem terminated_concat : terminated (tokens ++ [t]) = terminated tokens ++ t ++ [';'] := by
  simp [terminated]

theorem intercalate_concat (tokens : List Str) (t : Str) :
    [';'].intercalate (tokens ++ [t]) = terminated tokens ++ t := by
  induction tokens with
  | nil => simp [terminated]
  | cons t' tokens ih =>
    rw [List.cons_append, List.intercalate_cons_of_ne_nil (List.concat_ne_nil t tokens), ih,
      terminated_cons, List.append_assoc, List.singleton_append, List.append_assoc, List.cons_append]

theorem findFrom_append {pre : Str} (ht : ';' ∉ t) :
    findFrom (pre ++ (t ++ ';' :: s)) pre.length = some (pre.length + t.length) := by
  have hfind : Text.find [';'] (t ++ ';' :: s) = some t.length := by
    rw [Text.find_append ht, Text.find_of_isPrefix (s := ';' :: s) ⟨s, rfl⟩, Option.map_some,
      Nat.zero_add]
  rw [findFrom, List.drop_left, hfind, Option.map_some, Nat.add_comm]

theorem findFrom_of_not_mem {pre : Str} (hs : ';' ∉ s) : findFrom (pre ++ s) pre.length = none := by
  rw [findFrom, List.drop_left, Option.map_eq_none_iff, Text.find_eq_none_iff]
  exact fun h => hs (h.subset (List.mem_singleton_self ';'))

/-- A `;` behind the position is found. -/
theorem findFrom_ne_none {i : ℕ} (pos : ℕ) (h : s[i]? = some ';') (hpos : pos ≤ i) :
    findFrom s pos ≠ none := by
  rw [findFrom, ne_eq, Option.map_eq_none_iff, Text.find_eq_none_iff, not_not,
    List.singleton_infix_iff]
  refine List.mem_of_getElem? (i := i - pos) ?_
  rw [List.getElem?_drop, Nat.add_sub_cancel' hpos]
  exact h

/-! ## What the loop returns -/

/-- As long as `start` does not overflow, each round takes one token. -/
theorem splitLoop_terminated (fuel : ℕ) (pre : Str) (hs : s = pre ++ (terminated tokens ++ rest))
    (htokens : ∀ t ∈ tokens, ';' ∉ t) (hrest : ';' ∉ rest)
    (hsize : (pre ++ terminated tokens).length < 2 ^ 32) :
    splitLoop s fuel (UInt32.ofNat pre.length) (findFrom s pre.length) =
      if tokens.length ≤ fuel then some tokens else none := by
  induction tokens generalizing fuel pre with
  | nil =>
    rw [terminated, List.flatMap_nil, List.nil_append] at hs
    rw [hs, findFrom_of_not_mem hrest, splitLoop]
    exact (if_pos (Nat.zero_le fuel)).symm
  | cons t tokens ih =>
    have ht : ';' ∉ t := htokens t List.mem_cons_self
    have htail : ∀ t ∈ tokens, ';' ∉ t := fun t' h => htokens t' (List.mem_cons_of_mem _ h)
    rw [terminated_cons, List.append_assoc, List.cons_append] at hs
    have hfind : findFrom s pre.length = some (pre.length + t.length) := by
      rw [hs]
      exact findFrom_append ht
    have htake : (s.drop pre.length).take (pre.length + t.length - pre.length) = t := by
      rw [hs, List.drop_left, Nat.add_sub_cancel_left, List.take_left]
    -- the next round starts behind the token and its `;`
    let pre' := pre ++ (t ++ [';'])
    have hs' : s = pre' ++ (terminated tokens ++ rest) := by
      rw [hs]
      simp [pre']
    have hsize' : (pre' ++ terminated tokens).length < 2 ^ 32 := by
      rw [terminated_cons] at hsize
      simpa [pre'] using hsize
    have hnext : pre.length + t.length + 1 = pre'.length := by simp [pre', Nat.add_assoc]
    have hpre' : pre'.length < 2 ^ 32 := by
      rw [List.length_append] at hsize'
      omega
    rw [hfind]
    cases fuel with
    | zero => rfl
    | succ fuel =>
      rw [splitLoop, UInt32.toNat_ofNat_of_lt' (show pre.length < 2 ^ 32 by omega), htake, hnext,
        UInt32.toNat_ofNat_of_lt' hpre', ih fuel pre' hs' htail hsize', List.length_cons]
      simp only [Nat.add_le_add_iff_right]
      split_ifs <;> rfl

/-- A `;` where `start` overflows keeps the loop running. -/
theorem splitLoop_overflow {i : ℕ} (h : s[i]? = some ';') (hi : 2 ^ 32 - 1 ≤ i) (fuel : ℕ)
    (start : UInt32) : splitLoop s fuel start (findFrom s start.toNat) = none := by
  induction fuel generalizing start with
  | zero =>
    have hlt := start.toNat_lt
    obtain ⟨stop, hstop⟩ := Option.ne_none_iff_exists'.mp
      (findFrom_ne_none start.toNat h (by omega))
    rw [hstop]
    rfl
  | succ fuel ih =>
    have hlt := start.toNat_lt
    obtain ⟨stop, hstop⟩ := Option.ne_none_iff_exists'.mp
      (findFrom_ne_none start.toNat h (by omega))
    rw [hstop, splitLoop, ih, Option.map_none]

/-- **What the loop returns**: the tokens in front of every `;`. It does not end when the last `;`
stands at `2 ^ 32 - 1` or behind. -/
theorem runtimesLoop_eq (fuel : ℕ) (htokens : ∀ t ∈ tokens, ';' ∉ t) (hrest : ';' ∉ rest) :
    runtimesLoop fuel (terminated tokens ++ rest) =
      if (terminated tokens).length < 2 ^ 32 ∧ tokens.length ≤ fuel then some tokens else none := by
  by_cases hsize : (terminated tokens).length < 2 ^ 32
  · have h := splitLoop_terminated fuel [] rfl htokens hrest hsize
    simp only [hsize, true_and]
    exact h
  · rw [if_neg fun h => hsize h.1]
    cases tokens using List.reverseRecOn with
    | nil => exact absurd (by decide) hsize
    | append_singleton tokens t =>
      have hlast : (terminated (tokens ++ [t]) ++ rest)[(terminated tokens ++ t).length]? =
          some ';' := by
        rw [terminated_concat, List.append_assoc]
        simp
      refine splitLoop_overflow hlast ?_ fuel 0
      rw [terminated_concat, List.length_append, List.length_singleton] at hsize
      omega

/-! ## The row of a function -/

theorem splitRuntimes_of_not_mem (hs : ';' ∉ s) : splitRuntimes t s = [] := by
  induction s generalizing t with
  | nil => rfl
  | cons c s ih =>
    obtain ⟨hc, hs⟩ := not_or.mp (List.mem_cons.not.mp hs)
    rw [splitRuntimes, if_neg (Ne.symm hc)]
    exact ih hs

theorem splitRuntimes_append {token : Str} (ht : ';' ∉ t) :
    splitRuntimes token (t ++ ';' :: s) = (token ++ t) :: splitRuntimes [] s := by
  induction t generalizing token with
  | nil => rw [List.nil_append, splitRuntimes, if_pos rfl, List.append_nil]
  | cons c t ih =>
    obtain ⟨hc, ht⟩ := not_or.mp (List.mem_cons.not.mp ht)
    rw [List.cons_append, splitRuntimes, if_neg (Ne.symm hc), ih ht, List.append_assoc,
      List.singleton_append]

theorem splitRuntimes_terminated (htokens : ∀ t ∈ tokens, ';' ∉ t) (hrest : ';' ∉ rest) :
    splitRuntimes [] (terminated tokens ++ rest) = tokens := by
  induction tokens with
  | nil => exact splitRuntimes_of_not_mem hrest
  | cons t tokens ih =>
    rw [terminated_cons, List.append_assoc, List.cons_append,
      splitRuntimes_append (htokens t List.mem_cons_self),
      ih fun t' h => htokens t' (List.mem_cons_of_mem _ h), List.nil_append]

/-- Every text is made of tokens with a `;` behind each, and of a rest without one. -/
theorem exists_terminated (s : Str) :
    ∃ tokens rest, s = terminated tokens ++ rest ∧ (∀ t ∈ tokens, ';' ∉ t) ∧ ';' ∉ rest := by
  have hfree : ∀ t ∈ s.splitOn ';', ';' ∉ t := fun t => Text.not_mem_of_mem_splitOn
  have hs : [';'].intercalate (s.splitOn ';') = s := List.intercalate_splitOn ';'
  obtain ⟨tokens, rest, hsplit⟩ := (List.eq_nil_or_concat' _).resolve_left (List.splitOn_ne_nil ';' s)
  rw [hsplit] at hfree hs
  refine ⟨tokens, rest, ?_, fun t ht => hfree t (List.mem_append_left _ ht), ?_⟩
  · rw [← hs, intercalate_concat]
  · exact hfree rest (List.mem_append_right _ (List.mem_singleton_self rest))

/-- **Below the size at which `start` overflows** the loop is the one of `readFunction`. -/
theorem runtimesLoop_splitRuntimes (hs : s.length < 2 ^ 32) :
    ∃ fuel, runtimesLoop fuel s = some (splitRuntimes [] s) := by
  obtain ⟨tokens, rest, rfl, htokens, hrest⟩ := exists_terminated s
  have hsize : (terminated tokens).length < 2 ^ 32 := by
    rw [List.length_append] at hs
    omega
  refine ⟨tokens.length, ?_⟩
  rw [runtimesLoop_eq _ htokens hrest, if_pos ⟨hsize, le_rfl⟩,
    splitRuntimes_terminated htokens hrest]

/-- The runtime environment of a row is what the loop makes of its third column. -/
theorem runtimeEnvironment_readFunction [NdnCxx] (junk : ℕ → UInt32) {x y z : Str} {l : List Str}
    (hx : Word x) (hy : Word y) (hz : Word z) (hl : l ≠ []) (hsize : z.length < 2 ^ 32) :
    ∃ fuel, runtimesLoop fuel z =
      some (readFunction junk (Row.line (x :: y :: z :: l))).runtimeEnvironment := by
  obtain ⟨w, l, rfl⟩ := List.exists_cons_of_ne_nil hl
  unfold readFunction
  rw [Row.line_cons, word_append hx (by decide)]
  dsimp only
  rw [word_space (by decide), Row.line_cons, word_append hy (by decide)]
  dsimp only
  rw [word_space (by decide), Row.line_cons, word_append hz (by decide)]
  exact runtimesLoop_splitRuntimes hsize

/-! ## Reading a column -/

/-- **A column is read as its tokens** exactly when it ends with `;` (and no position in it
overflows). -/
theorem runtimesLoop_column_iff (hne : tokens ≠ []) (htokens : ∀ t ∈ tokens, Token t)
    (trailing : Bool) :
    (∃ fuel, runtimesLoop fuel (column tokens trailing) = some tokens) ↔
      trailing = true ∧ (column tokens trailing).length < 2 ^ 32 := by
  have hfree : ∀ t ∈ tokens, ';' ∉ t := fun t h => (htokens t h).2
  obtain ⟨l, t, rfl⟩ := (List.eq_nil_or_concat' tokens).resolve_left hne
  cases trailing with
  | false =>
    -- the last token has no `;` behind it, and is left out
    have hcolumn : column (l ++ [t]) false = terminated l ++ t := by
      rw [column, intercalate_concat]
      exact List.append_nil _
    refine iff_of_false ?_ nofun
    rintro ⟨fuel, h⟩
    rw [hcolumn, runtimesLoop_eq fuel (fun t' h => hfree t' (List.mem_append_left _ h))
      (hfree t (List.mem_append_right _ (List.mem_singleton_self t)))] at h
    split_ifs at h
    have hlength := congrArg List.length (Option.some.inj h)
    rw [List.length_append, List.length_singleton] at hlength
    omega
  | true =>
    have hcolumn : column (l ++ [t]) true = terminated (l ++ [t]) ++ [] := by
      rw [column, intercalate_concat, terminated_concat, if_pos rfl, List.append_nil]
    have hloop : ∀ fuel, runtimesLoop fuel (column (l ++ [t]) true) =
        if (column (l ++ [t]) true).length < 2 ^ 32 ∧ (l ++ [t]).length ≤ fuel then some (l ++ [t])
        else none := by
      intro fuel
      rw [hcolumn, runtimesLoop_eq fuel hfree List.not_mem_nil, List.append_nil]
    constructor
    · rintro ⟨fuel, h⟩
      rw [hloop] at h
      split_ifs at h with hsize
      exact ⟨rfl, hsize.1⟩
    · rintro ⟨-, hsize⟩
      exact ⟨(l ++ [t]).length, (hloop _).trans (if_pos ⟨hsize, le_rfl⟩)⟩

theorem token_docker : Token "docker".toList := ⟨Word.of_all (by decide) rfl, by decide⟩

theorem token_python : Token "python".toList := ⟨Word.of_all (by decide) rfl, by decide⟩

/-- Two runtimes with a `;` behind each. -/
theorem runtimesLoop_column_two :
    ∃ fuel, runtimesLoop fuel (column ["docker".toList, "python".toList] true) =
      some ["docker".toList, "python".toList] :=
  (runtimesLoop_column_iff (by decide)
    (List.forall_mem_cons.mpr ⟨token_docker, List.forall_mem_singleton.mpr token_python⟩)
    true).mpr ⟨rfl, by decide⟩

/-- The generator writes one runtime, without `;`: it is lost. -/
theorem runtimesLoop_docker : ["docker".toList] ≠ [] ∧ (∀ t ∈ ["docker".toList], Token t) ∧
    ¬ ∃ fuel, runtimesLoop fuel (column ["docker".toList] false) = some ["docker".toList] := by
  refine ⟨by decide, List.forall_mem_singleton.mpr token_docker, ?_⟩
  rintro ⟨fuel, h⟩
  have hcolumn : column ["docker".toList] false = terminated [] ++ "docker".toList := by decide
  rw [hcolumn, runtimesLoop_eq fuel (List.forall_mem_nil _) (by decide),
    if_pos ⟨by decide, Nat.zero_le fuel⟩] at h
  cases h

end Topology

end IncSim
