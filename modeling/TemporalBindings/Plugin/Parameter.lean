import TemporalBindings.Assoc
import TemporalBindings.Error
import TemporalBindings.Text.Blank
import TemporalBindings.Text.Cut

/-!
# TemporalBindings.Plugin.Parameter

The parameter of a run: a list of parts with commas between them. Blanks around a
part do not count, and parts without anything else are skipped. The parts are

```
paths=import             generated files go to their import paths (the default)
paths=source_relative    generated files go beside their sources
module=ROOT              ROOT is taken off the import paths
MFILE=PATH               the import path of FILE is PATH
```

A later part wins over an earlier one with the same key. Files that go beside their
sources have no import path to take anything off, so the two cannot be asked for
together, in whatever order.
-/

namespace TemporalBindings.Plugin

open Text

/-- Where generated files go. -/
inductive Placement
  /-- To the import path of their package. -/
  | importPath
  /-- Beside the source. -/
  | besideSource
  deriving DecidableEq

/-- What the parameter of a run says: the placement of the generated files, the root
that is taken off import paths, and the import paths given for files, in ascending
order of the files. -/
structure Parameter where
  placement : Placement := .importPath
  moduleRoot : Option String := none
  importMap : List (String × String) := []
  deriving DecidableEq

namespace Parameter

/-! ## Parts -/

/-- A part of the parameter. -/
inductive Part
  | placement (p : Placement)
  | moduleRoot (root : String)
  | importPath (file path : String)
  deriving DecidableEq

/-- Reads a part: a key, an equals sign and a value. -/
def Part.read? (part : List Char) : Option Part := do
  let (key, value) ← cut? '=' part
  if key = "paths".toList then
    if value = "import".toList then some (.placement .importPath)
    else if value = "source_relative".toList then some (.placement .besideSource)
    else none
  else if key = "module".toList then some (.moduleRoot (String.ofList value))
  else match key with
    | 'M' :: c :: cs => some (.importPath (String.ofList (c :: cs)) (String.ofList value))
    | _ => none

/-- The parameter with one more part. -/
def add (p : Parameter) : Part → Parameter
  | .placement placement => { p with placement }
  | .moduleRoot root => { p with moduleRoot := some root }
  | .importPath file path => { p with importMap := put file path p.importMap }

/-! ## Parsing -/

/-- The parts of a parameter. -/
def parts (s : String) : List (List Char) :=
  ((s.toList.splitOn ',').map trim).filter (· ≠ [])

/-- Reads parts one after the other. The first that is not one is the error. -/
def addAll (p : Parameter) : List (List Char) → Except Error Parameter
  | [] => .ok p
  | part :: rest =>
    match Part.read? part with
    | some r => (p.add r).addAll rest
    | none => .error (.invalidParameter (String.ofList part))

/-- Refuses a root together with files that go beside their sources. -/
def check (p : Parameter) : Except Error Parameter :=
  match p.placement, p.moduleRoot with
  | .besideSource, some root => .error (.invalidParameter ("module=" ++ root))
  | _, _ => .ok p

/-- Reads the parameter of a run, if it has one. -/
def parse : Option String → Except Error Parameter
  | none => .ok {}
  | some s => (addAll {} (parts s)).bind check

end Parameter

end TemporalBindings.Plugin
