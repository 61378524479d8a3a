/-!
# TemporalBindings.Text.Cut

Taking texts apart at a character or at a known beginning or end. A text is a
`List Char` here; callers that hold a `String` convert at their own border.

Each function comes with the law that determines it: what is taken apart can be
put together again, and the cut is the first (or last) possible one.
-/

namespace TemporalBindings.Text

/-! ## Cutting at a character -/

/-- The text before the first `sep` and the text after it; `none` if `sep` does
not occur. -/
def cut? (sep : Char) : List Char → Option (List Char × List Char)
  | [] => none
  | c :: cs =>
    if c = sep then some ([], cs) else (cut? sep cs).map fun (before, after) => (c :: before, after)

theorem cut?_eq_some_iff {sep : Char} {s before after : List Char} :
    cut? sep s = some (before, after) ↔ s = before ++ sep :: after ∧ sep ∉ before := by
  induction s generalizing before with
  | nil => simp [cut?]
  | cons c cs ih =>
    by_cases h : c = sep
    · subst h
      cases before <;> simp [cut?]
      intro hc _ hne
      exact absurd hc hne
    · cases before with
      | nil => simp [cut?, h]
      | cons b bs =>
        simp only [cut?, if_neg h, Option.map_eq_some_iff, Prod.exists, Prod.mk.injEq,
          List.cons.injEq, List.cons_append, List.mem_cons]
        grind

theorem cut?_eq_none_iff {sep : Char} {s : List Char} : cut? sep s = none ↔ sep ∉ s := by
  induction s with
  | nil => simp [cut?]
  | cons c cs ih =>
    by_cases h : c = sep
    · simp [cut?, h]
    · simp [cut?, h, ih, Ne.symm h]

/-- The text after the last `sep`; the whole text if `sep` does not occur. -/
def afterLast (sep : Char) (s : List Char) : List Char :=
  (s.reverse.takeWhile (· ≠ sep)).reverse

theorem not_mem_afterLast (sep : Char) (s : List Char) : sep ∉ afterLast sep s := by
  intro h
  simpa using List.all_eq_true.1 List.all_takeWhile _ (List.mem_reverse.1 h)

/-- What is behind the last `sep` is everything, or has a `sep` in front. -/
theorem afterLast_eq_self_or (sep : Char) (s : List Char) :
    afterLast sep s = s ∨ ∃ front, s = front ++ sep :: afterLast sep s := by
  have hsplit := List.takeWhile_append_dropWhile (p := (· ≠ sep)) (l := s.reverse)
  cases hrest : s.reverse.dropWhile (· ≠ sep) with
  | nil =>
    rw [hrest, List.append_nil] at hsplit
    exact .inl (by rw [afterLast, hsplit, List.reverse_reverse])
  | cons c cs =>
    have hhead := List.head?_dropWhile_not (· ≠ sep) s.reverse
    rw [hrest] at hhead
    obtain rfl : c = sep := by simpa using hhead
    refine .inr ⟨cs.reverse, ?_⟩
    rw [hrest] at hsplit
    calc s = s.reverse.reverse := s.reverse_reverse.symm
      _ = (s.reverse.takeWhile (· ≠ c) ++ c :: cs).reverse := by rw [hsplit]
      _ = cs.reverse ++ c :: afterLast c s := by simp [afterLast]

/-! ## Known beginnings and ends -/

/-- The rest of a text that begins with `start`. -/
def stripStart? : List Char → List Char → Option (List Char)
  | [], s => some s
  | _ :: _, [] => none
  | p :: ps, c :: cs => if p = c then stripStart? ps cs else none

theorem stripStart?_eq_some_iff {start s rest : List Char} :
    stripStart? start s = some rest ↔ s = start ++ rest := by
  fun_induction stripStart? start s with
  | case1 s => simp
  | case2 => simp
  | case3 p ps cs ih => simp [ih]
  | case4 p ps c cs h => simp [Ne.symm h]

/-- The beginning of a text that ends with `ending`. -/
def stripEnd? (ending s : List Char) : Option (List Char) :=
  (stripStart? ending.reverse s.reverse).map List.reverse

theorem stripEnd?_eq_some_iff {ending s rest : List Char} :
    stripEnd? ending s = some rest ↔ s = rest ++ ending := by
  simp only [stripEnd?, Option.map_eq_some_iff, stripStart?_eq_some_iff]
  constructor
  · rintro ⟨r, h, rfl⟩
    simpa using congrArg List.reverse h
  · rintro rfl
    exact ⟨rest.reverse, by simp⟩

end TemporalBindings.Text
