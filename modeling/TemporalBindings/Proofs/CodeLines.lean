import Mathlib.Data.List.DropRight
import TemporalBindings.Proofs.Lines

/-!
# TemporalBindings.Proofs.CodeLines

The code in a text: what is left without line comments, blanks at the ends of lines and
blank lines. The text is read from left to right, and what a character means depends on
what stands before it:

```
code    between two tokens, or inside one that is not a literal
slash   behind a slash, which begins a comment if a slash or a star follows
quoted  inside a literal between two quotes
raw     inside a literal between backquotes, which goes on over line breaks
line    inside a comment that ends with its line
block   inside a comment that ends with a star and a slash
```

A literal between quotes ends with its line at the latest. The lines of a text can be
read one by one if none of them ends inside a literal or a comment that goes on.
-/

namespace TemporalBindings.Source

open Text

/-! ## Reading characters -/

/-- What has been read before a character. -/
inductive Scan
  | code
  | slash
  | quoted (double escaped : Bool)
  | raw
  | line
  | block (star : Bool)
  deriving DecidableEq

namespace Scan

/-- After a character between two tokens. -/
def start (c : Char) : Scan :=
  if c = '/' then .slash
  else if c = '"' then .quoted true false
  else if c = '\'' then .quoted false false
  else if c = '`' then .raw
  else .code

/-- After one more character. -/
def next : Scan → Char → Scan
  | .code, c => start c
  | .slash, c => if c = '/' then .line else if c = '*' then .block false else start c
  | .quoted double escaped, c =>
    if c = '\n' then .code
    else if escaped then .quoted double false
    else if c = (if double then '"' else '\'') then .code
    else .quoted double (c = '\\')
  | .raw, c => if c = '`' then .code else .raw
  | .line, c => if c = '\n' then .code else .line
  | .block star, c => if star ∧ c = '/' then .code else .block (c = '*')

/-- What has been read but is kept only if no line comment begins with it. -/
def pending : Scan → List Char
  | .slash => ['/']
  | _ => []

/-- What is kept when one more character is read: everything but line comments. -/
def kept : Scan → Char → List Char
  | .code, c => if c = '/' then [] else [c]
  | .slash, c => if c = '/' then [] else ['/', c]
  | .line, c => if c = '\n' then [c] else []
  | _, c => [c]

/-- After some more characters. -/
def after (m : Scan) (cs : List Char) : Scan :=
  cs.foldl next m

@[simp] theorem after_nil (m : Scan) : m.after [] = m := rfl

@[simp] theorem after_cons (m : Scan) (c : Char) (cs : List Char) :
    m.after (c :: cs) = (m.next c).after cs := rfl

@[simp] theorem after_append (m : Scan) (cs ds : List Char) :
    m.after (cs ++ ds) = (m.after cs).after ds :=
  List.foldl_append

/-- Whether what is read is code: no literal and no comment goes on. -/
def isCode : Scan → Bool
  | .code => true
  | .slash => true
  | _ => false

/-- Whether some characters are read in literals and comments only. -/
def hides : Scan → List Char → Bool
  | _, [] => true
  | m, c :: cs => !m.isCode && (m.next c).hides cs

theorem hides_append {m : Scan} {cs ds : List Char} :
    m.hides (cs ++ ds) = (m.hides cs && (m.after cs).hides ds) := by
  induction cs generalizing m with
  | nil => rfl
  | cons c cs ih => rw [List.cons_append, hides, ih, hides, Bool.and_assoc, after_cons]

/-- A line comment hides all up to the end of its line. -/
theorem hides_line {cs : List Char} (h : '\n' ∉ cs) : Scan.line.hides cs = true := by
  induction cs with
  | nil => rfl
  | cons c cs ih =>
    rw [List.mem_cons, not_or] at h
    have hnext : Scan.line.next c = .line := if_neg (Ne.symm h.1)
    rw [hides, hnext, ih h.2]
    rfl

theorem kept_newline (m : Scan) : m.kept '\n' = m.pending ++ ['\n'] := by
  cases m <;> rfl

end Scan

/-- The rest of a text without its line comments. -/
def uncomment : Scan → List Char → List Char
  | m, [] => m.pending
  | m, c :: cs => m.kept c ++ uncomment (m.next c) cs

/-- The lines of code in a text, with their indentation. -/
def codeLines (s : String) : List (List Char) :=
  (((uncomment .code s.toList).splitOn '\n').map (List.rdropWhile isBlank)).filter (· ≠ [])

example : codeLines "f(\"//\") // a `\n\n\tg('\\'', `/*\n//`) /* // */ // b" =
    ["f(\"//\")".toList, "\tg('\\'', `/*".toList, "//`) /* // */".toList] := by decide

/-! ## In parts -/

/-- A text is read in two parts, unless its first part ends behind a slash. -/
theorem uncomment_append {m : Scan} {cs : List Char} (h : (m.after cs).pending = [])
    (ds : List Char) : uncomment m (cs ++ ds) = uncomment m cs ++ uncomment (m.after cs) ds := by
  induction cs generalizing m with
  | nil =>
    have hm : m.pending = [] := h
    rw [List.nil_append, uncomment, hm, List.nil_append, Scan.after_nil]
  | cons c cs ih => rw [List.cons_append, uncomment, uncomment, ih h, List.append_assoc,
      Scan.after_cons]

/-- A text is read in two parts also at a character before which all is kept. -/
theorem uncomment_append_cons {m : Scan} {cs : List Char} {c : Char}
    (h : (m.after cs).kept c = (m.after cs).pending ++ [c]) (ds : List Char) :
    uncomment m (cs ++ c :: ds) = uncomment m cs ++ c :: uncomment ((m.after cs).next c) ds := by
  induction cs generalizing m with
  | nil =>
    have hm : m.kept c = m.pending ++ [c] := h
    rw [List.nil_append, uncomment, uncomment, hm, List.append_assoc]
    rfl
  | cons d cs ih => rw [List.cons_append, uncomment, uncomment, ih h, List.append_assoc,
      Scan.after_cons]

theorem uncomment_append_newline (m : Scan) (cs ds : List Char) :
    uncomment m (cs ++ '\n' :: ds) =
      uncomment m cs ++ '\n' :: uncomment ((m.after cs).next '\n') ds :=
  uncomment_append_cons (Scan.kept_newline _) ds

/-- A text without line breaks when its comments are gone is one line of code at most. -/
theorem codeLines_of_uncomment {s : String} {cs : List Char}
    (h : uncomment .code s.toList = cs) (hcs : '\n' ∉ cs) :
    codeLines s = [cs.rdropWhile isBlank].filter (· ≠ []) := by
  rw [codeLines, h, List.splitOn_eq_singleton hcs]
  rfl

/-- Whether a line ends outside of all literals and comments that go on behind it. -/
def IsClosed (l : String) : Prop :=
  (Scan.code.after l.toList).next '\n' = .code

instance (l : String) : Decidable (IsClosed l) :=
  inferInstanceAs (Decidable (_ = _))

@[simp] theorem isClosed_empty : IsClosed "" := rfl

@[simp] theorem codeLines_empty : codeLines "" = [] := by
  simp [codeLines, uncomment, Scan.pending]

/-! ## Line by line -/

/-- A line that is behind a line break begins between two tokens, or inside a literal or a
comment that goes on; an empty line changes nothing then. -/
theorem Scan.next_next_newline (m : Scan) : (m.next '\n').next '\n' = m.next '\n' := by
  cases m with
  | quoted double escaped => rfl
  | line => rfl
  | code => rfl
  | slash => rfl
  | raw => rfl
  | block star => cases star <;> rfl

/-- After lines, each with a line break behind it. -/
def Scan.behind (m : Scan) (ls : List (List Char)) : Scan :=
  ls.foldl (fun m l => (m.after l).next '\n') m

theorem Scan.behind_append (m : Scan) (ls ls' : List (List Char)) :
    m.behind (ls ++ ls') = (m.behind ls).behind ls' :=
  List.foldl_append

/-- The code in lines that stand behind something. -/
def codeBehind : Scan → List (List Char) → List (List Char)
  | _, [] => []
  | m, l :: ls =>
    [(uncomment m l).rdropWhile isBlank].filter (· ≠ []) ++ codeBehind ((m.after l).next '\n') ls

theorem codeBehind_append (m : Scan) (ls ls' : List (List Char)) :
    codeBehind m (ls ++ ls') = codeBehind m ls ++ codeBehind (m.behind ls) ls' := by
  induction ls generalizing m with
  | nil => rfl
  | cons l ls ih =>
    rw [List.cons_append, codeBehind, codeBehind, ih, List.append_assoc]
    rfl

theorem newline_notMem_uncomment {m : Scan} {cs : List Char} (h : '\n' ∉ cs) :
    '\n' ∉ uncomment m cs := by
  have hpending (m : Scan) : '\n' ∉ m.pending := by cases m <;> simp [Scan.pending]
  induction cs generalizing m with
  | nil => exact hpending m
  | cons c cs ih =>
    rw [List.mem_cons, not_or] at h
    have hkept : '\n' ∉ m.kept c := by
      cases m <;> simp only [Scan.kept] <;> (try split) <;> simp [h.1]
    rw [uncomment, List.mem_append, not_or]
    exact ⟨hkept, ih h.2⟩

/-- Text is read line by line, and empty lines can be left out. -/
theorem codeBehind_splitOn (m : Scan) (hm : m.next '\n' = m) (cs : List Char) :
    (((uncomment m cs).splitOn '\n').map (List.rdropWhile isBlank)).filter (· ≠ []) =
        codeBehind m ((cs.splitOn '\n').filter (· ≠ [])) ∧
      m.behind ((cs.splitOn '\n').filter (· ≠ [])) = (m.after cs).next '\n' := by
  have hempty : uncomment m [] = [] := by
    cases m with
    | slash => cases hm
    | _ => rfl
  -- what the first line contributes, whether it is empty or not
  have hfirst (l : List Char) (ls : List (List Char)) :
      codeBehind m (([l].filter (· ≠ [])) ++ ls) =
          [(uncomment m l).rdropWhile isBlank].filter (· ≠ []) ++
            codeBehind ((m.after l).next '\n') ls ∧
        m.behind (([l].filter (· ≠ [])) ++ ls) = ((m.after l).next '\n').behind ls := by
    by_cases hl : l = []
    · simp [hl, hempty, hm]
    · simp [hl, codeBehind, Scan.behind]
  by_cases hbreak : '\n' ∈ cs
  · obtain ⟨l, rest, hcs, hl⟩ := List.eq_append_cons_of_mem hbreak
    have hlength : rest.length < cs.length := by
      rw [hcs, List.length_append, List.length_cons]
      omega
    obtain ⟨hcode, hbehind⟩ :=
      codeBehind_splitOn ((m.after l).next '\n') (Scan.next_next_newline _) rest
    obtain ⟨hline, hafter⟩ := hfirst l ((rest.splitOn '\n').filter (· ≠ []))
    rw [hcs, uncomment_append_newline, List.splitOn_append_cons_self,
      List.splitOn_append_cons_self, List.splitOn_eq_singleton hl,
      List.splitOn_eq_singleton (newline_notMem_uncomment hl), List.map_append,
      List.filter_append, List.filter_append, hcode, hline, hafter, hbehind, Scan.after_append]
    exact ⟨rfl, rfl⟩
  · obtain ⟨hline, hafter⟩ := hfirst cs []
    rw [List.append_nil] at hline hafter
    rw [List.splitOn_eq_singleton hbreak,
      List.splitOn_eq_singleton (newline_notMem_uncomment hbreak), hline, hafter]
    simp [codeBehind, Scan.behind]
termination_by cs.length

/-- The code in a text is that of its lines. -/
theorem codeLines_eq (s : String) : codeLines s = codeBehind .code (textLines s) :=
  (codeBehind_splitOn .code rfl s.toList).1

/-- The code in closed lines is read from each line on its own. -/
theorem codeBehind_flatMap {ls : List String} (h : ∀ l ∈ ls, IsClosed l) :
    codeBehind .code (ls.flatMap textLines) = ls.flatMap codeLines ∧
      Scan.code.behind (ls.flatMap textLines) = .code := by
  induction ls with
  | nil => exact ⟨rfl, rfl⟩
  | cons l ls ih =>
    obtain ⟨hcode, hbehind⟩ := ih fun m hm => h m (List.mem_cons_of_mem l hm)
    have hl : Scan.code.behind (textLines l) = .code :=
      (codeBehind_splitOn .code rfl l.toList).2.trans (h l List.mem_cons_self)
    constructor
    · rw [List.flatMap_cons, codeBehind_append, hl, hcode, ← codeLines_eq, List.flatMap_cons]
    · rw [List.flatMap_cons, Scan.behind_append, hl, hbehind]

end TemporalBindings.Source
