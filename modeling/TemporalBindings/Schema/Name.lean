import TemporalBindings.Text.Cut

/-!
# TemporalBindings.Schema.Name

Dotted names. The full name of an element is its own name behind the full name of
what it is declared in and a dot; at the root there is nothing before it.
-/

namespace TemporalBindings.Schema

/-- The full name of what is called `name` in `scope`. -/
def qualify (scope name : String) : String :=
  if scope = "" then name else scope ++ "." ++ name

/-- The name made of the first `count` of some components. -/
def firstComponents (components : List (List Char)) (count : Nat) : String :=
  String.ofList (List.intercalate ['.'] (components.take count))

/-- A full name and the names of everything around it, from the inside out; the last
is the root. -/
def scopesOf (name : String) : List String :=
  let components := name.toList.splitOn '.'
  let count := components.length
  ((List.range count).map fun i => firstComponents components (count - i)) ++ [""]

end TemporalBindings.Schema
