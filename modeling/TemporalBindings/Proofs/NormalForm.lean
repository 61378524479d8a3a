import Mathlib.Data.List.Chain
import Mathlib.Data.List.TakeWhile
import TemporalBindings.Proofs.BareLines
import TemporalBindings.Proofs.Operations

/-!
# TemporalBindings.Proofs.NormalForm

The layout of a file loses nothing and is in normal form. Printed lines are squeezed, and
the import block is set between two blank lines, either of which may meet others:

```
tidy (above ++ [""] ++ block ++ [""] ++ below)
  = tidy above ++ [""] ++ block ++ (blank line, tidy below)    if below is not all blank
  = tidy above ++ [""] ++ block                                otherwise
```

provided that the lines above end with code, as they do with the package clause. So the text
of a file has the lines that were pushed, one for one.
-/

namespace TemporalBindings.Source

open Text

/-! ## Squeezed lines -/

/-- Whether no two blank lines follow each other and no blank line is the last. -/
def IsSpaced (ls : List String) : Prop :=
  ls.IsChain (fun l m => l ≠ "" ∨ m ≠ "") ∧ ls.getLast? ≠ some ""

theorem isSpaced_squeeze (ls : List String) : IsSpaced (squeeze ls) := by
  induction ls with
  | nil => exact ⟨.nil, by simp [squeeze]⟩
  | cons l ls ih =>
    obtain ⟨hchain, hlast⟩ := ih
    unfold squeeze
    split
    · cases hs : squeeze ls with
      | nil => exact ⟨.nil, by simp⟩
      | cons m ms =>
        rw [hs] at hchain hlast
        simp only
        split
        · exact ⟨hchain, hlast⟩
        · next hm => exact ⟨.cons_cons (.inr hm) hchain, by simpa using hlast⟩
    · next hl =>
      cases hs : squeeze ls with
      | nil => exact ⟨.singleton _, by simpa using hl⟩
      | cons m ms =>
        rw [hs] at hchain hlast
        exact ⟨.cons_cons (.inl hl) hchain, by simpa using hlast⟩

theorem squeeze_sublist (ls : List String) : (squeeze ls).Sublist ls := by
  induction ls with
  | nil => exact .slnil
  | cons l ls ih =>
    unfold squeeze
    split
    · next hl =>
      cases hs : squeeze ls with
      | nil => exact List.nil_sublist _
      | cons m ms =>
        rw [hs] at ih
        simp only
        split
        · exact ih.cons l
        · exact hl ▸ ih.cons_cons l
    · exact ih.cons_cons l

theorem tidy_sublist (ls : List String) : (tidy ls).Sublist ls :=
  (List.dropWhile_sublist _).trans (squeeze_sublist ls)

theorem head?_tidy (ls : List String) : (tidy ls).head? ≠ some "" := by
  intro hhead
  have hfound := List.find?_not_eq_head?_dropWhile (l := squeeze ls) (· = "")
  rw [tidy] at hhead
  rw [hhead] at hfound
  simpa using List.find?_some hfound

theorem isSpaced_tidy (ls : List String) : IsSpaced (tidy ls) := by
  have hspaced := isSpaced_squeeze ls
  obtain ⟨front, hfront⟩ : ∃ front, front ++ tidy ls = squeeze ls :=
    ⟨_, List.takeWhile_append_dropWhile⟩
  refine ⟨(hfront ▸ hspaced.1).right_of_append, fun hlast => hspaced.2 ?_⟩
  rw [← hfront, List.getLast?_append, hlast]
  rfl

/-- A line with code stays, and what is left of the lines above does not depend on those
below. -/
theorem squeeze_append_cons {l : String} (hl : l ≠ "") (above below : List String) :
    squeeze (above ++ l :: below) = squeeze (above ++ [l]) ++ squeeze below := by
  induction above with
  | nil => simp [squeeze, hl]
  | cons m above ih =>
    have hne : squeeze (above ++ [l]) ≠ [] := by
      intro hnil
      have hmem : l ∈ (above ++ [l]).filter (· ≠ "") := by simp [hl]
      rw [← filter_squeeze, hnil] at hmem
      simp at hmem
    obtain ⟨n, ns, hn⟩ := List.exists_cons_of_ne_nil hne
    rw [hn] at ih
    rw [List.cons_append, List.cons_append, squeeze, squeeze, ih, hn]
    by_cases hm : m = ""
    · by_cases hblank : n = "" <;> simp [hm, hblank]
    · simp [hm]

/-- A blank line separates what is below it from what is above, unless nothing is. -/
theorem squeeze_blank (ls : List String) :
    squeeze ("" :: ls) = if tidy ls = [] then [] else "" :: tidy ls := by
  have hspaced := isSpaced_squeeze ls
  rw [squeeze, if_pos rfl, tidy]
  cases hs : squeeze ls with
  | nil => rfl
  | cons m ms =>
    rw [hs] at hspaced
    by_cases hm : m = ""
    · subst hm
      cases ms with
      | nil => exact absurd rfl hspaced.2
      | cons n ns =>
        have hn : n ≠ "" := (List.isChain_cons_cons.1 hspaced.1).1.resolve_left (by simp)
        simp [hn]
    · simp [hm]

/-- Lines of which none is blank stay as they are. -/
theorem squeeze_append_of_ne {block : List String} (h : "" ∉ block) (below : List String) :
    squeeze (block ++ below) = block ++ squeeze below := by
  induction block with
  | nil => rfl
  | cons l block ih =>
    rw [List.mem_cons, not_or] at h
    rw [List.cons_append, squeeze, if_neg (Ne.symm h.1), ih h.2, List.cons_append]

/-- If a line with code is the last one, it stays the last. -/
theorem exists_tidy_concat {l : String} (hl : l ≠ "") (above : List String) :
    ∃ front, tidy (above ++ [l]) = front ++ [l] := by
  have hfilter : (tidy (above ++ [l])).filter (· ≠ "") = above.filter (· ≠ "") ++ [l] := by
    rw [filter_tidy, List.filter_append, List.filter_cons_of_pos (by simpa using hl),
      List.filter_nil]
  obtain hnil | ⟨front, m, hm⟩ := (tidy (above ++ [l])).eq_nil_or_concat'
  · simp [hnil] at hfilter
  · have hne : m ≠ "" := fun hblank => (isSpaced_tidy (above ++ [l])).2 (by simp [hm, hblank])
    rw [hm, List.filter_append, List.filter_cons_of_pos (by simpa using hne),
      List.filter_nil] at hfilter
    obtain rfl : m = l := by simpa using (List.append_inj' hfilter rfl).2
    exact ⟨front, hm⟩

/-- The block between two blank lines, behind a line with code. -/
theorem tidy_block {l : String} (hl : l ≠ "") {block : List String} (hne : block ≠ [])
    (hblock : "" ∉ block) (above below : List String) :
    tidy (above ++ [l] ++ ([""] ++ block ++ [""]) ++ below) =
      tidy (above ++ [l]) ++ "" :: (block ++ if tidy below = [] then [] else "" :: tidy below) := by
  have hlines : above ++ [l] ++ ([""] ++ block ++ [""]) ++ below =
      above ++ l :: ("" :: (block ++ "" :: below)) := by simp
  have htidy : tidy (block ++ "" :: below) =
      block ++ if tidy below = [] then [] else "" :: tidy below := by
    obtain ⟨b, bs, rfl⟩ := List.exists_cons_of_ne_nil hne
    have hb : b ≠ "" := fun hb => hblock (hb ▸ List.mem_cons_self)
    rw [tidy, squeeze_append_of_ne hblock, squeeze_blank, List.cons_append,
      List.dropWhile_cons_of_neg (by simpa using hb)]
  obtain ⟨front, hfront⟩ := exists_tidy_concat hl above
  have hkept : ((squeeze (above ++ [l])).dropWhile (· = "")).isEmpty = false := by
    rw [← tidy, hfront]
    simp
  rw [hlines, tidy, squeeze_append_cons hl, squeeze_blank, htidy, if_neg (by simp [hne]),
    List.dropWhile_append, hkept]
  rfl

/-- Lines of which none is blank stay together behind a line with code. -/
theorem exists_tidy_append_cons {l : String} (hl : l ≠ "") {block : List String} (h : "" ∉ block)
    (above below : List String) :
    ∃ front back, tidy (above ++ l :: (block ++ below)) = front ++ l :: (block ++ back) := by
  obtain ⟨front, hfront⟩ := exists_tidy_concat hl above
  have hkept : ((squeeze (above ++ [l])).dropWhile (· = "")).isEmpty = false := by
    rw [← tidy, hfront]
    simp
  refine ⟨front, squeeze below, ?_⟩
  rw [tidy, squeeze_append_cons hl, squeeze_append_of_ne h, List.dropWhile_append, hkept, ← tidy,
    hfront]
  simp

/-! ## Lines of a text -/

/-- The lines of a text, each of which ends with a line break. -/
def allLines (s : String) : List (List Char) :=
  (s.toList.splitOn '\n').dropLast

theorem toList_joinLines {ls : List String} (hne : ls ≠ []) :
    (joinLines ls).toList = ls.flatMap fun l => l.toList ++ ['\n'] := by
  induction ls with
  | nil => exact absurd rfl hne
  | cons l ls ih =>
    rw [toList_joinLines_cons, List.flatMap_cons]
    by_cases hls : ls = []
    · simp [hls]
    · rw [if_neg hls, ih hls]
      simp

/-- The lines of the text made of some lines are those that these break into. -/
theorem allLines_joinLines_of_ne_nil {ls : List String} (hne : ls ≠ []) :
    allLines (joinLines ls) = ls.flatMap fun l => l.toList.splitOn '\n' := by
  have hsplit : (joinLines ls).toList.splitOn '\n' =
      (ls.flatMap fun l => l.toList.splitOn '\n') ++ [[]] := by
    induction ls with
    | nil => exact absurd rfl hne
    | cons l ls ih =>
      rw [toList_joinLines_cons, List.splitOn_append_cons_self, List.flatMap_cons]
      by_cases hls : ls = []
      · simp [hls]
      · rw [if_neg hls, ih hls, List.append_assoc]
  rw [allLines, hsplit, List.dropLast_concat]

/-- Lines that are not broken are kept, and none is an empty line. -/
theorem allLines_joinLines {ls : List String} (h : ∀ l ∈ ls, IsSingleLine l) :
    allLines (joinLines ls) = if ls = [] then [[]] else ls.map String.toList := by
  by_cases hls : ls = []
  · subst hls
    decide
  · rw [if_neg hls, allLines_joinLines_of_ne_nil hls, List.map_eq_flatMap]
    exact List.flatMap_congr fun l hl => List.splitOn_eq_singleton (h l hl)

/-- The text made of spaced lines ends with one line break. -/
theorem ending_joinLines {ls : List String} (h : ∀ l ∈ ls, IsSingleLine l)
    (hlast : ls.getLast? ≠ some "") :
    ['\n'] <:+ (joinLines ls).toList ∧ ¬ ['\n', '\n'] <:+ (joinLines ls).toList := by
  cases hlines : ls.getLast? with
  | none =>
    rw [List.getLast?_eq_none_iff.1 hlines]
    decide
  | some l =>
    obtain ⟨front, rfl⟩ := List.getLast?_eq_some_iff.1 hlines
    obtain ⟨cs, c, hc⟩ : ∃ cs c, l.toList = cs ++ [c] := by
      refine l.toList.eq_nil_or_concat'.resolve_left fun hnil => hlast ?_
      rw [hlines, String.toList_eq_nil_iff.1 hnil]
    have hbreak : c ≠ '\n' := fun heq => h l (by simp) (by simp [hc, heq])
    have htext : (joinLines (front ++ [l])).toList =
        ((front.flatMap fun l => l.toList ++ ['\n']) ++ cs) ++ [c, '\n'] := by
      rw [toList_joinLines (by simp), List.flatMap_append, List.flatMap_singleton, hc]
      simp
    rw [htext]
    refine ⟨⟨_, (List.append_cons ..).symm⟩, fun ⟨rest, hrest⟩ => hbreak ?_⟩
    have hsame := (List.append_inj' hrest rfl).2
    exact (List.cons.inj hsame).1.symm

/-! ## Shown lines -/

/-- A line of a text without its indentation. -/
def unindented (l : List Char) : List Char :=
  l.dropWhile (· = '\t')

/-- The lines of a text with something on them, without their indentation. -/
def shownOf (ls : List (List Char)) : List (List Char) :=
  (ls.filter (· ≠ [])).map unindented

@[simp] theorem shownOf_append (ls ms : List (List Char)) :
    shownOf (ls ++ ms) = shownOf ls ++ shownOf ms := by
  simp [shownOf]

/-- Blank lines come and go, the others are shown. -/
theorem shownOf_tidy (ls : List String) :
    shownOf ((tidy ls).map String.toList) = shownOf (ls.map String.toList) := by
  have hfilter (ms : List String) :
      (ms.map String.toList).filter (· ≠ []) = (ms.filter (· ≠ "")).map String.toList := by
    rw [List.filter_map]
    congr 2
    funext l
    simp
  rw [shownOf, shownOf, hfilter, filter_tidy, hfilter]

theorem shownOf_allLines_joinLines {ls : List String} (h : ∀ l ∈ ls, IsSingleLine l) :
    shownOf (allLines (joinLines ls)) = shownOf (ls.map String.toList) := by
  rw [allLines_joinLines h]
  split
  · next hls =>
    subst hls
    rfl
  · rfl

namespace Line

/-- What is shown of a line with code: the code without the blanks around it, and the
comment behind it. -/
def shown (l : Line) : List Char :=
  l.text ++ (behind l.trailing).toList

theorem isBlank_of_head?_trim {s : List Char} {c : Char} (h : (trim s).head? = some c) :
    isBlank c = false := by
  have hprefix : trim s <+: s.dropWhile isBlank := List.rdropWhile_prefix _ _
  obtain ⟨rest, hrest⟩ := hprefix
  have hfirst := List.head?_dropWhile_not isBlank s
  rwa [← hrest, List.head?_append, h] at hfirst

theorem toList_render {l : Line} (h : l.text ≠ []) (depth : Nat) :
    (l.render depth).toList = List.replicate (l.level depth) '\t' ++ l.shown := by
  rw [render, if_neg h, String.toList_append, String.toList_ofList, List.append_assoc]
  rfl

/-- The indentation of a printed line is exactly what stands before its code. -/
theorem unindented_render {l : Line} (h : l.text ≠ []) (depth : Nat) :
    unindented (l.render depth).toList = l.shown := by
  obtain ⟨c, cs, hc⟩ := List.exists_cons_of_ne_nil h
  have htab : c ≠ '\t' := fun heq => by
    have hblank : isBlank c = false := isBlank_of_head?_trim (s := l.code.toList) (by
      rw [← text, hc]
      rfl)
    rw [heq] at hblank
    exact absurd hblank (by decide)
  rw [toList_render h, unindented, List.dropWhile_append_of_pos (by simp), shown, hc, List.cons_append,
    List.dropWhile_cons_of_neg (by simpa using htab)]

end Line

/-- What is shown of lines, the blank ones left out. -/
def shownLines (ls : List Line) : List (List Char) :=
  (ls.filter (·.text ≠ [])).map Line.shown

@[simp] theorem shownLines_nil : shownLines [] = [] := rfl

theorem shownLines_cons_of_blank {l : Line} (h : l.text = []) (ls : List Line) :
    shownLines (l :: ls) = shownLines ls := by
  rw [shownLines, List.filter_cons_of_neg (by simpa using h), shownLines]

theorem shownLines_cons {l : Line} (h : l.text ≠ []) (ls : List Line) :
    shownLines (l :: ls) = l.shown :: shownLines ls := by
  rw [shownLines, List.filter_cons_of_pos (by simpa using h), List.map_cons, shownLines]

@[simp] theorem shownLines_append (ls ms : List Line) :
    shownLines (ls ++ ms) = shownLines ls ++ shownLines ms := by
  simp [shownLines]

/-- Printed lines show what the lines do. -/
theorem shownOf_indent (ls : List Line) (depth : Nat) :
    shownOf ((indent depth ls).map String.toList) = shownLines ls := by
  induction ls generalizing depth with
  | nil => rfl
  | cons l ls ih =>
    have hcons (s : String) (ss : List String) : shownOf ((s :: ss).map String.toList) =
        shownOf [s.toList] ++ shownOf (ss.map String.toList) := shownOf_append [s.toList] _
    rw [indent, hcons, ih]
    by_cases htext : l.text = []
    · have hblank : l.render depth = "" := if_pos htext
      rw [hblank, shownLines_cons_of_blank htext]
      rfl
    · have hshown := Line.unindented_render htext depth
      have hne : (l.render depth).toList ≠ [] := fun hnil => by
        rw [hnil] at hshown
        exact htext (List.append_eq_nil_iff.1 hshown.symm).1
      rw [shownLines_cons htext, ← hshown, shownOf, List.filter_cons_of_pos (by simpa using hne)]
      rfl

/-! ## Operations -/

namespace Op

/-- The lines that an operation pushes, without the blank ones: each without the blanks
around it, and with the comment behind it. -/
def shown : Op → List (List Char)
  | .print code => [trim code.toList].filter (· ≠ [])
  | .printWith code trailing =>
    match commentLines trailing with
    | [c] => [trim code.toList ++ ' ' :: c.toList]
    | cs => trim code.toList :: cs.map fun c => trim c.toList
  | .blank => []
  | .comment text => (commentLines text).map fun c => trim c.toList
  | .package name => [trim ("package " ++ name).toList]
  | .ident _ => []

/-- Whether code, names and paths are on one line, and comments stand behind code. Comments
may have any number of lines. -/
def Fits : Op → Prop
  | .print code => IsSingleLine code
  | .printWith code _ => IsSingleLine code ∧ trim code.toList ≠ []
  | .blank => True
  | .comment _ => True
  | .package name => IsSingleLine name
  | .ident i => IsSingleLine i.package.name ∧ IsSingleLine i.package.path

instance : (op : Op) → Decidable op.Fits
  | .print _ => inferInstanceAs (Decidable (IsSingleLine _))
  | .printWith _ _ => inferInstanceAs (Decidable (_ ∧ _ ≠ _))
  | .blank => .isTrue trivial
  | .comment _ => .isTrue trivial
  | .package _ => inferInstanceAs (Decidable (IsSingleLine _))
  | .ident _ => inferInstanceAs (Decidable (_ ∧ _))

theorem trim_ne_nil_of_mem_commentLines {text c : String} (h : c ∈ commentLines text) :
    trim c.toList ≠ [] := by
  obtain ⟨rest, rfl, -⟩ := exists_of_mem_commentLines h
  obtain ⟨kept, hkept⟩ := Line.text_of_slashes (l := ⟨"//" ++ rest, none⟩) rfl
  rw [Line.text] at hkept
  rw [hkept]
  simp

theorem trim_package_ne_nil (name : String) : trim ("package " ++ name).toList ≠ [] := by
  obtain ⟨kept, hkept, -⟩ := trim_append "package".toList (" " ++ name).toList (by decide) (by decide)
  have hsame : ("package " ++ name).toList = "package".toList ++ (" " ++ name).toList := by
    rw [← String.toList_append, ← String.append_assoc]
    rfl
  rw [hsame, hkept]
  simp

/-- An operation shows the lines that it adds. -/
theorem shownLines_lines {op : Op} (h : op.Fits) : shownLines op.lines = op.shown := by
  have hshown {code : String} (hne : trim code.toList ≠ []) (ls : List Line) :
      shownLines (⟨code, none⟩ :: ls) = trim code.toList :: shownLines ls := by
    rw [shownLines_cons (l := ⟨code, none⟩) hne]
    simp [Line.shown, Line.text, Line.behind]
  have hcomments (cs : List String) (hcs : ∀ c ∈ cs, trim c.toList ≠ []) :
      shownLines (cs.map (⟨·, none⟩)) = cs.map fun c => trim c.toList := by
    induction cs with
    | nil => rfl
    | cons c cs ih =>
      rw [List.map_cons, hshown (hcs c List.mem_cons_self),
        ih fun d hd => hcs d (List.mem_cons_of_mem c hd), List.map_cons]
  have hcomment (text : String) := hcomments (commentLines text) fun c hc =>
    trim_ne_nil_of_mem_commentLines hc
  cases op with
  | print code =>
    by_cases hcode : trim code.toList = []
    · rw [lines, shown, shownLines_cons_of_blank (l := ⟨code, none⟩) hcode, hcode]
      rfl
    · rw [lines, shown, hshown hcode, List.filter_cons_of_pos (by simpa using hcode)]
      rfl
  | printWith code trailing =>
    have hbelow := hcomment trailing
    rw [lines, shown, File.withTrailing]
    -- a comment of one line stands behind the code, any other below
    obtain hcs | ⟨c, hcs⟩ | ⟨c, d, cs, hcs⟩ : commentLines trailing = [] ∨
        (∃ c, commentLines trailing = [c]) ∨ ∃ c d cs, commentLines trailing = c :: d :: cs := by
      rcases commentLines trailing with _ | ⟨c, _ | ⟨d, cs⟩⟩ <;> simp
    · rw [hcs]
      exact hshown h.2 []
    · rw [hcs]
      exact (shownLines_cons (l := ⟨code, some c⟩) h.2 []).trans (by
        simp [Line.shown, Line.text, Line.behind])
    · rw [hcs] at hbelow ⊢
      exact (hshown h.2 _).trans (congrArg _ hbelow)
  | blank => rfl
  | comment text => exact hcomment text
  | package name => exact hshown (trim_package_ne_nil name) []
  | ident i => rfl

/-- None of the lines that an operation adds is broken. -/
theorem isSingle_of_mem_lines {op : Op} (h : op.Fits) {l : Line} (hl : l ∈ op.lines) :
    l.IsSingle := by
  have hcomment (text c : String) (hc : c ∈ commentLines text) : IsSingleLine c :=
    (isRemarkText_of_mem_commentLines hc).single
  cases op with
  | print code =>
    obtain rfl := List.mem_singleton.1 hl
    exact ⟨h, by simp⟩
  | printWith code trailing =>
    obtain ⟨behind, below, hlines, hbehind, hbelow⟩ := exists_withTrailing code trailing
    rw [lines, hlines] at hl
    obtain rfl | hl := List.mem_cons.1 hl
    · exact ⟨h.1, fun c hc => (hbehind c hc).single⟩
    · exact ⟨(hbelow l hl).1.single, by simp [(hbelow l hl).2]⟩
  | blank =>
    obtain rfl := List.mem_singleton.1 hl
    exact ⟨by decide, by simp⟩
  | comment text =>
    obtain ⟨c, hc, rfl⟩ := List.mem_map.1 hl
    exact ⟨hcomment text c hc, by simp⟩
  | package name =>
    obtain rfl := List.mem_singleton.1 hl
    exact ⟨isSingleLine_append.2 ⟨by decide, h⟩, by simp⟩
  | ident i => simp [lines] at hl

end Op

theorem shownLines_flatMap {ops : List Op} (h : ∀ op ∈ ops, op.Fits) :
    shownLines (ops.flatMap Op.lines) = ops.flatMap Op.shown := by
  induction ops with
  | nil => rfl
  | cons op ops ih =>
    rw [List.flatMap_cons, shownLines_append, Op.shownLines_lines (h op List.mem_cons_self),
      ih fun op' h' => h op' (List.mem_cons_of_mem op h'), List.flatMap_cons]

theorem isSingleLine_of_mem_indent {ls : List Line} (h : ∀ l ∈ ls, l.IsSingle) {depth : Nat}
    {s : String} (hs : s ∈ indent depth ls) : IsSingleLine s := by
  induction ls generalizing depth with
  | nil => simp [indent] at hs
  | cons l ls ih =>
    rw [indent] at hs
    obtain rfl | hs := List.mem_cons.1 hs
    · exact Line.isSingleLine_render (h l List.mem_cons_self) depth
    · exact ih (fun m hm => h m (List.mem_cons_of_mem l hm)) hs

/-! ## Import blocks -/

namespace Imports

/-- Nothing is imported if all identifiers are of the file's own package, and only then. -/
theorem aliases_requireAll_eq_nil_iff {home : String} {is : List Ident} :
    ((empty home).requireAll is).aliases = [] ↔ ∀ i ∈ is, i.package.path = home := by
  rw [← List.map_eq_nil_iff (f := Prod.fst), List.eq_nil_iff_forall_not_mem]
  constructor
  · intro hnone i hi
    by_contra hforeign
    exact hnone _ (mem_paths_requireAll_empty.2 ⟨hforeign, i, hi, rfl⟩)
  · rintro hown path hpath
    obtain ⟨hforeign, i, hi, rfl⟩ := mem_paths_requireAll_empty.1 hpath
    exact hforeign (hown i hi)

theorem isSingleLine_candidate {name : String} (h : IsSingleLine name) (n : Nat) :
    IsSingleLine (candidate name n) := by
  cases n with
  | zero => exact h
  | succ n =>
    refine isSingleLine_append.2 ⟨h, isSingleLine_ofList fun hbreak => ?_⟩
    have hdigit := Nat.isDigit_of_mem_toDigits (by decide) (by decide) hbreak
    exact absurd hdigit (by decide)

/-- No line of the block is blank. -/
theorem blank_not_mem_block (t : Imports) : "" ∉ t.block := by
  intro hmem
  simp only [block, List.mem_append, List.mem_singleton, List.mem_map] at hmem
  obtain (hopen | ⟨e, -, hentry⟩) | hclose := hmem
  · exact absurd hopen (by decide)
  · exact absurd hentry (by simp)
  · exact absurd hclose (by decide)

/-- Names and paths on one line do not break the lines of the block. -/
theorem isSingleLine_of_mem_block {home : String} {is : List Ident}
    (h : ∀ i ∈ is, IsSingleLine i.package.name ∧ IsSingleLine i.package.path) {l : String}
    (hl : l ∈ ((empty home).requireAll is).block) : IsSingleLine l := by
  simp only [block, List.mem_append, List.mem_singleton, List.mem_map] at hl
  obtain (rfl | ⟨e, he, rfl⟩) | rfl := hl
  · decide
  · obtain he | ⟨i, hi, hpath, n, hn⟩ := mem_aliases_requireAll he
    · simp [empty] at he
    · have hname := isSingleLine_candidate (h i hi).1 n
      simp only [isSingleLine_append, hpath, hn]
      exact ⟨⟨⟨⟨by decide, hname⟩, by decide⟩, (h i hi).2⟩, by decide⟩
  · decide

end Imports

/-! ## Files -/

/-- Whether a text is the layout of some operations in a file of the package at `home`. -/
structure LaidOut (home : String) (ops : List Op) (s : String) : Prop where
  /-- It ends with one line break. -/
  ending : ['\n'] <:+ s.toList ∧ ¬ ['\n', '\n'] <:+ s.toList
  /-- No two blank lines follow each other. -/
  spaced : (allLines s).IsChain fun l m => l ≠ [] ∨ m ≠ []
  /-- It does not begin with a blank line, unless that is all of it. -/
  beginning : s = "\n" ∨ (allLines s).head? ≠ some []
  /-- Without a package clause, and with nothing to import, its lines are those pushed. -/
  plain : (∀ op ∈ ops, op.isPackage = false) ∨ (∀ i ∈ calls ops, i.package.path = home) →
    shownOf (allLines s) = ops.flatMap Op.shown
  /-- Otherwise the import block stands behind the last package clause between two blank
  lines, or at the end behind one, and all other lines are those pushed. -/
  block : ∀ above name below, ops = above ++ .package name :: below →
    (∀ op ∈ below, op.isPackage = false) → (∃ i ∈ calls ops, i.package.path ≠ home) →
    ∃ front back, allLines s = front ++ [] ::
        (((Imports.empty home).requireAll (calls ops)).block.map String.toList ++ back) ∧
      shownOf front = (above ++ [Op.package name]).flatMap Op.shown ∧
      front.getLast?.map unindented = some (trim ("package " ++ name).toList) ∧
      shownOf back = below.flatMap Op.shown ∧ (back = [] ∨ back.head? = some [])

/-- Tidy lines that are not broken make a text in normal form. -/
theorem normal_joinLines_tidy {ls : List String} (h : ∀ l ∈ ls, IsSingleLine l) :
    (['\n'] <:+ (joinLines (tidy ls)).toList ∧ ¬ ['\n', '\n'] <:+ (joinLines (tidy ls)).toList) ∧
      ((allLines (joinLines (tidy ls))).IsChain fun l m => l ≠ [] ∨ m ≠ []) ∧
      (joinLines (tidy ls) = "\n" ∨ (allLines (joinLines (tidy ls))).head? ≠ some []) := by
  have hsingle : ∀ l ∈ tidy ls, IsSingleLine l := fun l hl => h l ((tidy_sublist ls).subset hl)
  obtain ⟨hchain, hlast⟩ := isSpaced_tidy ls
  have hhead := head?_tidy ls
  refine ⟨ending_joinLines hsingle hlast, ?_⟩
  rw [allLines_joinLines hsingle]
  by_cases hnil : tidy ls = []
  · rw [if_pos hnil, hnil]
    exact ⟨.singleton _, .inl rfl⟩
  · rw [if_neg hnil]
    constructor
    · rw [List.isChain_map]
      simpa using hchain
    · right
      rw [List.head?_map]
      simpa using hhead

namespace File

/-- The lines of a file before they are made tidy. -/
def printed (f : File) : List String :=
  indent 0 f.preamble ++ f.importBlock ++ indent (depthOf 0 f.preamble) f.body

theorem isSingleLine_of_mem_printed {name home : String} {ops : List Op} (h : ∀ op ∈ ops, op.Fits)
    {s : String} (hs : s ∈ ((empty name home).performAll ops).printed) : IsSingleLine s := by
  have hlines : ∀ l ∈ ((empty name home).performAll ops).preamble ++
      ((empty name home).performAll ops).body, l.IsSingle := fun l hl => by
    rw [lines_performAll] at hl
    obtain ⟨op, hop, hl⟩ := List.mem_flatMap.1 (by simpa [empty] using hl)
    exact Op.isSingle_of_mem_lines (h op hop) hl
  have hidents : ∀ i ∈ calls ops, IsSingleLine i.package.name ∧ IsSingleLine i.package.path :=
    fun i hi => h _ (mem_calls.1 hi)
  rw [printed, List.mem_append, List.mem_append] at hs
  obtain (hs | hs) | hs := hs
  · exact isSingleLine_of_mem_indent (fun l hl => hlines l (List.mem_append_left _ hl)) hs
  · unfold importBlock at hs
    rw [imports_performAll] at hs
    split at hs
    · simp at hs
    · simp only [List.mem_append, List.mem_singleton] at hs
      obtain (rfl | hs) | rfl := hs
      · decide
      · exact Imports.isSingleLine_of_mem_block hidents hs
      · decide
  · exact isSingleLine_of_mem_indent (fun l hl => hlines l (List.mem_append_right _ hl)) hs

/-- A file without the import block shows the lines that were pushed. -/
theorem shownOf_printed_of_plain {name home : String} {ops : List Op} (h : ∀ op ∈ ops, op.Fits)
    (hplain : (∀ op ∈ ops, op.isPackage = false) ∨ ∀ i ∈ calls ops, i.package.path = home) :
    shownOf (((empty name home).performAll ops).printed.map String.toList) =
      ops.flatMap Op.shown := by
  have hnone : ((empty name home).performAll ops).importBlock = [] := by
    refine if_pos (hplain.imp (fun hpackage => ?_) fun hown => ?_)
    · exact preamble_performAll hpackage _
    · rw [imports_performAll]
      exact Imports.aliases_requireAll_eq_nil_iff.2 hown
  rw [printed, hnone, List.append_nil, ← indent_append, lines_performAll, shownOf_indent]
  exact shownLines_flatMap h

section Package

variable (name home : String) {clause : String} {ops above below : List Op}
  (hops : ops = above ++ .package clause :: below) (hbelow : ∀ op ∈ below, op.isPackage = false)
include hops hbelow

/-- The preamble has the lines up to the last package clause, the body those behind it. -/
theorem preamble_body_performAll :
    ((empty name home).performAll ops).preamble = (above ++ [Op.package clause]).flatMap Op.lines ∧
      ((empty name home).performAll ops).body = below.flatMap Op.lines := by
  have hlines := @preamble_performAll_package above below clause hbelow (empty name home)
  have hfresh : (empty name home).preamble ++ (empty name home).body = [] := rfl
  rwa [hfresh, List.nil_append, ← hops] at hlines

theorem importBlock_performAll (hforeign : ∃ i ∈ calls ops, i.package.path ≠ home) :
    ((empty name home).performAll ops).importBlock =
      [""] ++ ((Imports.empty home).requireAll (calls ops)).block ++ [""] := by
  have himports := imports_performAll (empty name home) ops
  have haliases : ((empty name home).performAll ops).imports.aliases ≠ [] := fun hnone => by
    rw [himports] at hnone
    obtain ⟨i, hi, hpath⟩ := hforeign
    exact hpath (Imports.aliases_requireAll_eq_nil_iff.1 hnone i hi)
  have hpreamble : ((empty name home).performAll ops).preamble ≠ [] := by
    rw [(preamble_body_performAll name home hops hbelow).1]
    simp [Op.lines]
  rw [importBlock, if_neg (by simp [hpreamble, haliases]), himports]
  rfl

/-- The printed lines of the preamble end with the package clause. -/
theorem exists_indent_preamble_eq :
    ∃ front l, indent 0 ((empty name home).performAll ops).preamble = front ++ [l] ∧ l ≠ "" ∧
      unindented l.toList = trim ("package " ++ clause).toList := by
  let last : Line := ⟨"package " ++ clause, none⟩
  let depth := depthOf 0 (above.flatMap Op.lines)
  have htext : last.text ≠ [] := Op.trim_package_ne_nil clause
  have hshown : unindented (last.render depth).toList = last.text := by
    rw [Line.unindented_render htext, Line.shown, Line.behind, String.toList_empty, List.append_nil]
  refine ⟨indent 0 (above.flatMap Op.lines), last.render depth, ?_, fun hblank => ?_, hshown⟩
  · rw [(preamble_body_performAll name home hops hbelow).1, List.flatMap_append, indent_append]
    rfl
  · rw [hblank] at hshown
    exact htext hshown.symm

/-- Behind the last package clause the block is in the middle of the lines. -/
theorem tidy_printed (hforeign : ∃ i ∈ calls ops, i.package.path ≠ home) :
    let f := (empty name home).performAll ops
    let below := tidy (indent (depthOf 0 f.preamble) f.body)
    tidy f.printed = tidy (indent 0 f.preamble) ++
      "" :: (((Imports.empty home).requireAll (calls ops)).block ++
        if below = [] then [] else "" :: below) := by
  obtain ⟨front, l, hfirst, hl, -⟩ := exists_indent_preamble_eq name home hops hbelow
  have hblock := importBlock_performAll name home hops hbelow hforeign
  have hnonblank := Imports.blank_not_mem_block ((Imports.empty home).requireAll (calls ops))
  simp only [printed, hfirst, hblock]
  exact tidy_block hl (by simp [Imports.block]) hnonblank front _

/-- The lines around the block show what was pushed before it and behind it. -/
theorem exists_tidy_printed_eq (h : ∀ op ∈ ops, op.Fits)
    (hforeign : ∃ i ∈ calls ops, i.package.path ≠ home) :
    ∃ front back, tidy ((empty name home).performAll ops).printed =
        front ++ "" :: (((Imports.empty home).requireAll (calls ops)).block ++ back) ∧
      shownOf (front.map String.toList) = (above ++ [Op.package clause]).flatMap Op.shown ∧
      (front.map String.toList).getLast?.map unindented =
        some (trim ("package " ++ clause).toList) ∧
      shownOf (back.map String.toList) = below.flatMap Op.shown ∧
      (back = [] ∨ back.head? = some "") := by
  obtain ⟨hpreamble, hbody⟩ := preamble_body_performAll name home hops hbelow
  have hfits : ∀ op ∈ above ++ [Op.package clause] ++ below, op.Fits := by
    rwa [← List.append_cons, ← hops]
  refine ⟨_, _, tidy_printed name home hops hbelow hforeign, ?_, ?_, ?_, ?_⟩
  · rw [shownOf_tidy, hpreamble, shownOf_indent]
    exact shownLines_flatMap fun op hop => hfits op (List.mem_append_left below hop)
  · obtain ⟨front, l, hfirst, hl, hclause⟩ := exists_indent_preamble_eq name home hops hbelow
    obtain ⟨front', hfront⟩ := exists_tidy_concat hl front
    rw [hfirst, hfront, List.map_append, List.map_singleton, List.getLast?_concat, Option.map_some,
      hclause]
  · have hback := shownOf_tidy (indent (depthOf 0 ((empty name home).performAll ops).preamble)
      ((empty name home).performAll ops).body)
    rw [shownOf_indent, hbody,
      shownLines_flatMap fun op hop => hfits op (List.mem_append_right _ hop)] at hback
    rw [← hback, ← hbody]
    split
    · next hnil => rw [hnil]
    · rfl
  · split
    · exact .inl rfl
    · exact .inr rfl

end Package

/-- The layout of a file loses nothing and is in normal form, whatever was done in it. -/
theorem laidOut {name home : String} {ops : List Op} (h : ∀ op ∈ ops, op.Fits) :
    LaidOut home ops ((empty name home).performAll ops).content := by
  have hsingle : ∀ s ∈ ((empty name home).performAll ops).printed, IsSingleLine s := fun s hs =>
    isSingleLine_of_mem_printed h hs
  obtain ⟨hending, hspaced, hbeginning⟩ := normal_joinLines_tidy hsingle
  have htidy : ∀ s ∈ tidy ((empty name home).performAll ops).printed, IsSingleLine s :=
    fun s hs => hsingle s ((tidy_sublist _).subset hs)
  refine ⟨hending, hspaced, hbeginning, fun hplain => ?_, ?_⟩
  · rw [content, ← printed, shownOf_allLines_joinLines htidy, shownOf_tidy]
    exact shownOf_printed_of_plain h hplain
  · intro above clause below hops hbelow hforeign
    obtain ⟨front, back, hlines, hfront, hclause, hback, hblank⟩ :=
      exists_tidy_printed_eq name home hops hbelow h hforeign
    refine ⟨front.map String.toList, back.map String.toList, ?_, hfront, hclause, hback, ?_⟩
    · rw [content, ← printed, allLines_joinLines htidy, hlines, if_neg (by simp)]
      simp
    · refine hblank.imp (fun hnil => by rw [hnil]; rfl) fun hhead => by
        rw [List.head?_map, hhead]
        rfl

/-- Two package clauses, a block between them and an identifier of another package. -/
theorem laidOut_main :
    LaidOut "example.com/app"
      [.package "app", .printWith "func main() \x7b" "start\nhere", .blank, .blank, .print "  run()",
        .ident ⟨"Sleep", "time", "time"⟩, .print "\x7d", .package "main", .comment "end"]
      ((empty "main.go" "example.com/app").performAll
        [.package "app", .printWith "func main() \x7b" "start\nhere", .blank, .blank,
          .print "  run()", .ident ⟨"Sleep", "time", "time"⟩, .print "\x7d", .package "main",
          .comment "end"]).content :=
  laidOut (by decide)

end File

end TemporalBindings.Source
