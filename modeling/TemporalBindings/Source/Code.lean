import TemporalBindings.Source.Imports
import TemporalBindings.Text.Cut

/-!
# TemporalBindings.Source.Code

What a source file is written from. Code is text with identifiers left open, since
their spelling depends on the imports of the file they end up in. Names stand apart
from other text, so that it can be said what each of them refers to. An item is what
one step writes: a line of code with an optional comment behind it, a comment, a
blank line or the package clause.
-/

namespace TemporalBindings.Source

open Text

/-! ## Code -/

/-- A piece of a line: text that refers to nothing, a name that the code around it
binds or the language predeclares, or an identifier of a package. -/
inductive Piece
  | text (s : String)
  | name (x : String)
  | ident (i : Ident)
  deriving DecidableEq

instance : Coe String Piece :=
  ⟨.text⟩

instance : Coe Ident Piece :=
  ⟨.ident⟩

/-- A line of code without its indentation. -/
abbrev Code := List Piece

/-- The text of code, and the imports after it has been written. Identifiers are
spelled from left to right. -/
def Imports.render (t : Imports) : Code → String × Imports
  | [] => ("", t)
  | .text s :: rest | .name s :: rest =>
    let (tail, t) := t.render rest
    (s ++ tail, t)
  | .ident i :: rest =>
    let (head, t) := t.spell i
    let (tail, t) := t.render rest
    (head ++ tail, t)

/-! ## Items -/

/-- One step in writing a file. -/
inductive Item
  /-- A line of code and the comment that belongs behind it, which may be empty. -/
  | code (code : Code) (trailing : String)
  /-- A comment on lines of its own. -/
  | comment (text : String)
  /-- A blank line. -/
  | blank
  /-- The package clause. -/
  | package (name : String)
  deriving DecidableEq

/-- A line of code without a comment. -/
def line (code : Code) : Item :=
  .code code ""

/-! ## Comments -/

/-- A comment as lines of the file, one per line of its text. A newline at its end
does not start another line, and an empty comment has no lines. -/
def commentLines (text : String) : List String :=
  if text = "" then []
  else
    (((stripEnd? ['\n'] text.toList).getD text.toList).splitOn '\n').map fun l =>
      "//" ++ String.ofList l

end TemporalBindings.Source
