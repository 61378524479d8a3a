import TemporalBindings.Source.Code
import TemporalBindings.Source.Layout

/-!
# TemporalBindings.Source.File

A source file under construction. Items are written one after the other; each may
add lines and imports. The import block has its place right behind the package
clause and is laid out only when the text of the file is asked for, because the
imports are not known before.
-/

namespace TemporalBindings.Source

/-- A source file: its name, its imports, the lines up to its last package clause
and the lines behind that. Without a package clause all lines are in the body. -/
structure File where
  name : String
  imports : Imports
  preamble : List Line
  body : List Line

namespace File

/-- A file without lines, in the package at `home`. -/
def empty (name home : String) : File :=
  ⟨name, .empty home, [], []⟩

/-- The file with lines added at its end. -/
def append (f : File) (ls : List Line) : File :=
  { f with body := f.body ++ ls }

/-- How an identifier is spelled in the file, and the file that imports its
package. -/
def spell (f : File) (i : Ident) : String × File :=
  let (spelling, imports) := f.imports.spell i
  (spelling, { f with imports })

/-- The lines of code with a comment behind it: a comment of one line goes on the
same line, any other below. -/
def withTrailing (code comment : String) : List Line :=
  match commentLines comment with
  | [c] => [⟨code, some c⟩]
  | cs => ⟨code, none⟩ :: cs.map (⟨·, none⟩)

/-- The file after one more item. -/
def write (f : File) : Item → File
  | .code code trailing =>
    let (text, imports) := f.imports.render code
    { f with imports }.append (withTrailing text trailing)
  | .comment text => f.append ((commentLines text).map (⟨·, none⟩))
  | .blank => f.append [⟨"", none⟩]
  | .package name =>
    { f with preamble := f.preamble ++ f.body ++ [⟨"package " ++ name, none⟩], body := [] }

/-- The file after some more items. -/
def writeAll (f : File) (items : List Item) : File :=
  items.foldl write f

/-- The import block between blank lines, if the file has a package clause and
imports anything. -/
def importBlock (f : File) : List String :=
  if f.preamble = [] ∨ f.imports.aliases = [] then [] else [""] ++ f.imports.block ++ [""]

/-- The text of the file. -/
def content (f : File) : String :=
  joinLines <| tidy <|
    indent 0 f.preamble ++ f.importBlock ++ indent (depthOf 0 f.preamble) f.body

end File

end TemporalBindings.Source
