import TemporalBindings.Text.Blank

/-!
# TemporalBindings.Source.Layout

From lines to text. Lines come without indentation and are laid out in normal form:

* a line is indented by one tab for each block around it. A block begins after a
  line that ends with an opening brace or parenthesis and ends with a line that
  starts with a closing one; comments neither begin nor end a block;
* there is no blank line at the start or at the end, and no two follow each other;
* the text ends with one newline.
-/

namespace TemporalBindings.Source

open Text

/-- A line of a file: code, which may be a comment, and a comment behind it. -/
structure Line where
  code : String
  trailing : Option String
  deriving DecidableEq

namespace Line

/-! ## Blocks -/

/-- The code without the blanks around it. -/
def text (l : Line) : List Char :=
  trim l.code.toList

/-- Whether the code is a comment. -/
def isComment (l : Line) : Bool :=
  l.text.take 2 = ['/', '/']

/-- Whether the line ends a block. -/
def closes (l : Line) : Bool :=
  !l.isComment && (l.text.head? = some '}' || l.text.head? = some ')')

/-- Whether the line begins a block. -/
def opens (l : Line) : Bool :=
  !l.isComment && (l.text.getLast? = some '{' || l.text.getLast? = some '(')

/-- The indentation of a line inside `depth` blocks. -/
def level (l : Line) (depth : Nat) : Nat :=
  if l.closes then depth - 1 else depth

/-- The number of blocks around what follows the line. -/
def depthAfter (l : Line) (depth : Nat) : Nat :=
  if l.opens then l.level depth + 1 else l.level depth

/-- The line as it is printed. A line without code is blank, whatever comment it
has. -/
def render (l : Line) (depth : Nat) : String :=
  if l.text = [] then ""
  else
    String.ofList (List.replicate (l.level depth) '\t' ++ l.text) ++
      match l.trailing with
      | some comment => " " ++ comment
      | none => ""

end Line

/-! ## Files -/

/-- The lines as they are printed inside `depth` blocks, blank lines included. -/
def indent : Nat → List Line → List String
  | _, [] => []
  | depth, l :: ls => l.render depth :: indent (l.depthAfter depth) ls

/-- The number of blocks around what follows the lines. -/
def depthOf (depth : Nat) (ls : List Line) : Nat :=
  ls.foldl (fun depth l => l.depthAfter depth) depth

/-- The lines with each run of blank ones reduced to one, and the last run to
none. -/
def squeeze : List String → List String
  | [] => []
  | l :: ls =>
    if l = "" then
      match squeeze ls with
      | [] => []
      | m :: ms => if m = "" then m :: ms else "" :: m :: ms
    else l :: squeeze ls

/-- The lines in normal form. -/
def tidy (ls : List String) : List String :=
  (squeeze ls).dropWhile (· = "")

/-- The text made of lines. -/
def joinLines (ls : List String) : String :=
  String.intercalate "\n" ls ++ "\n"

end TemporalBindings.Source
