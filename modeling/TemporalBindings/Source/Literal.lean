import TemporalBindings.Source.Code

/-!
# TemporalBindings.Source.Literal

Literals of structures, one field per line. The values are aligned: each starts one
space behind the colon of the longest field name. A literal without fields is
written on one line.
-/

namespace TemporalBindings.Source

/-- A literal of a structure: its type and its fields with their values. -/
structure Literal where
  type : Ident
  fields : List (String × Code)

namespace Literal

/-- The greatest number of characters in a field name with its colon. -/
def width (fields : List (String × Code)) : Nat :=
  fields.foldl (fun w (name, _) => max w (name.length + 1)) 0

/-- A field name with its colon, filled up to a width. -/
def key (width : Nat) (name : String) : String :=
  name ++ ":" ++ String.ofList (List.replicate (width - (name.length + 1)) ' ')

/-- The lines of a literal, with code before and text behind it. -/
def items (before : Code) (l : Literal) (after : String) : List Item :=
  match l.fields with
  | [] => [line (before ++ [.ident l.type, .text ("\x7b\x7d" ++ after)])]
  | fields =>
    [line (before ++ [.ident l.type, .text "\x7b"])] ++
      fields.map (fun (name, value) =>
        line (.text (key (width fields) name ++ " ") :: value ++ [.text ","])) ++
      [line [.text ("\x7d" ++ after)]]

end Literal

end TemporalBindings.Source
