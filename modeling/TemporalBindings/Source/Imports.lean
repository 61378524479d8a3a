import TemporalBindings.Assoc
import TemporalBindings.Source.Package

/-!
# TemporalBindings.Source.Imports

The packages a file imports and the aliases it knows them by. A package gets its
alias when one of its identifiers is first spelled in the file, and keeps it:

* the alias is the package's name, or the name with the least number from 1 on
  that no other package has;
* the file's own package is never imported, and its identifiers are spelled bare.
-/

namespace TemporalBindings.Source

/-- The import path of a file's own package and the alias of each import path, in
ascending order of the paths. -/
structure Imports where
  home : String
  aliases : List (String × String)
  deriving DecidableEq

namespace Imports

/-- No imports, in a file of the package at `home`. -/
def empty (home : String) : Imports :=
  ⟨home, []⟩

/-! ## Choice of an alias -/

/-- The aliases to try for a package name: the name itself, then numbered ones. -/
def candidate (name : String) : Nat → String
  | 0 => name
  | n + 1 => name ++ String.ofList (Nat.toDigits 10 (n + 1))

/-- The first candidate that is not in use. One more candidate than there are
aliases in use is always enough. -/
def freshAlias (used : List String) (name : String) : String :=
  (((List.range (used.length + 1)).map (candidate name)).find? fun a => a ∉ used).getD name

/-! ## Spelling an identifier -/

/-- The imports with the package of `i` among them, unless it is the file's own. -/
def require (t : Imports) (i : Ident) : Imports :=
  if i.package.path = t.home then t
  else match t.aliases.lookup i.package.path with
    | some _ => t
    | none =>
      let new := freshAlias (t.aliases.map (·.2)) i.package.name
      { t with aliases := put i.package.path new t.aliases }

/-- How an identifier is spelled, given that its package is imported. -/
def spelling (t : Imports) (i : Ident) : String :=
  if i.package.path = t.home then i.name
  else match t.aliases.lookup i.package.path with
    | some a => a ++ "." ++ i.name
    | none => i.name

/-- How an identifier is spelled, and the imports afterwards. -/
def spell (t : Imports) (i : Ident) : String × Imports :=
  ((t.require i).spelling i, t.require i)

/-! ## The import block -/

/-- The lines of the import block. -/
def block (t : Imports) : List String :=
  ["import ("] ++ t.aliases.map (fun (path, a) => "\t" ++ a ++ " \"" ++ path ++ "\"") ++ [")"]

end Imports

end TemporalBindings.Source
