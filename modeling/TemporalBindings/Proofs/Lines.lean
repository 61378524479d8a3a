import TemporalBindings.Source.File

/-!
# TemporalBindings.Proofs.Lines

A text as the lines that are not empty. The layout of a file adds and removes empty
lines only, so the lines of its text are those of the lines that it is joined from,
in the same order.
-/

namespace TemporalBindings.Source

/-- The lines of a text that are not empty. -/
def textLines (s : String) : List (List Char) :=
  (s.toList.splitOn '\n').filter (· ≠ [])

/-! ## Single lines -/

/-- A text without line breaks. -/
def IsSingleLine (s : String) : Prop :=
  '\n' ∉ s.toList

instance (s : String) : Decidable (IsSingleLine s) :=
  inferInstanceAs (Decidable (_ ∉ _))

/-- A literal is looked at as its list of characters, which is much less work. -/
theorem isSingleLine_ofList {cs : List Char} (h : '\n' ∉ cs) : IsSingleLine (String.ofList cs) := by
  rwa [IsSingleLine, String.toList_ofList]

@[simp] theorem textLines_empty : textLines "" = [] := by
  simp [textLines]

/-- A single line that is not empty is the only line of itself. -/
theorem textLines_of_isSingleLine {s : String} (h : IsSingleLine s) (hne : s ≠ "") :
    textLines s = [s.toList] := by
  rw [textLines, List.splitOn_eq_singleton h]
  simp [hne]

/-- The parts of a text between separators have none. -/
theorem not_mem_of_mem_splitOn {sep : Char} {s part : List Char} (h : part ∈ s.splitOn sep) :
    sep ∉ part := by
  induction s generalizing part with
  | nil => simp_all
  | cons c cs ih =>
    rw [List.splitOn_cons_eq_if_modifyHead] at h
    split at h
    · obtain rfl | h := List.mem_cons.1 h
      · simp
      · exact ih h
    · next hc =>
      cases hsplit : cs.splitOn sep with
      | nil => simp [hsplit] at h
      | cons p ps =>
        rw [hsplit, List.modifyHead_cons, List.mem_cons] at h
        obtain rfl | h := h
        · have hp : sep ∉ p := ih (by simp [hsplit])
          have hne : c ≠ sep := by simpa using hc
          simp [hne.symm, hp]
        · exact ih (by simp [hsplit, h])

/-! ## Joined lines -/

/-- The text made of a first line and others begins with that line and a line break. -/
theorem toList_joinLines_cons (l : String) (ls : List String) :
    (joinLines (l :: ls)).toList =
      l.toList ++ '\n' :: if ls = [] then [] else (joinLines ls).toList := by
  cases ls <;> simp [joinLines]

theorem textLines_joinLines (ls : List String) :
    textLines (joinLines ls) = ls.flatMap textLines := by
  induction ls with
  | nil => decide
  | cons l ls ih =>
    rw [textLines, toList_joinLines_cons, List.splitOn_append_cons_self, List.filter_append,
      List.flatMap_cons, ← ih]
    by_cases hls : ls = []
    · have hempty : textLines (joinLines []) = [] := by decide
      rw [if_pos hls, hls, hempty, List.splitOn_nil]
      rfl
    · rw [if_neg hls]
      rfl

/-! ## Normal form -/

/-- The two steps to normal form touch empty lines only. -/
theorem filter_squeeze (ls : List String) :
    (squeeze ls).filter (· ≠ "") = ls.filter (· ≠ "") := by
  induction ls with
  | nil => rfl
  | cons l ls ih =>
    by_cases hl : l = ""
    · subst hl
      rw [squeeze, if_pos rfl]
      cases hs : squeeze ls with
      | nil => simpa [hs] using ih
      | cons m ms =>
        rw [hs] at ih
        by_cases hm : m = ""
        · simpa [hm] using ih
        · simpa [hm] using ih
    · rw [squeeze, if_neg hl, List.filter_cons_of_pos (by simpa using hl),
        List.filter_cons_of_pos (by simpa using hl), ih]

theorem filter_tidy (ls : List String) : (tidy ls).filter (· ≠ "") = ls.filter (· ≠ "") := by
  rw [← filter_squeeze ls, tidy]
  induction squeeze ls with
  | nil => rfl
  | cons m ms ih =>
    by_cases hm : m = ""
    · simpa [hm] using ih
    · simp [hm]

/-- What is read off each line on its own, and off an empty one as nothing, is the same
before and after. -/
theorem flatMap_filter_ne_empty {α : Type} {g : String → List α} (hg : g "" = [])
    (ls : List String) : (ls.filter (· ≠ "")).flatMap g = ls.flatMap g := by
  induction ls with
  | nil => rfl
  | cons l ls ih =>
    by_cases hl : l = ""
    · simpa [hl, hg] using ih
    · simp [hl, ← ih]

theorem flatMap_tidy {α : Type} {g : String → List α} (hg : g "" = []) (ls : List String) :
    (tidy ls).flatMap g = ls.flatMap g := by
  rw [← flatMap_filter_ne_empty hg, filter_tidy, flatMap_filter_ne_empty hg]

/-- The lines of a file's text: those of the preamble, of the import block and of the
body. -/
theorem textLines_content (f : File) :
    textLines f.content =
      (indent 0 f.preamble).flatMap textLines ++ f.importBlock.flatMap textLines ++
        (indent (depthOf 0 f.preamble) f.body).flatMap textLines := by
  rw [File.content, textLines_joinLines, flatMap_tidy textLines_empty, List.flatMap_append,
    List.flatMap_append]

end TemporalBindings.Source
