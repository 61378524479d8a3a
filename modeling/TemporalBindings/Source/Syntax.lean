import TemporalBindings.Source.Literal

/-!
# TemporalBindings.Source.Syntax

Declarations and statements of the generated language, as far as generated files
have them. A file is put together from declarations; the names that a function binds
are data of the declaration, and its lines are printed from that:

```
func (receiver) Name(params) result {
	statements
}
```

Every declaration ends with a closing brace on a line of its own and a blank line.
-/

namespace TemporalBindings.Source

/-! ## Documentation -/

/-- The documentation of a declaration: a comment, a further paragraph, and whether
a notice of deprecation follows. -/
structure Doc where
  leading : String := ""
  paragraph : List String := []
  deprecated : Bool := false
  deriving DecidableEq

/-- The paragraph of a deprecated element. -/
def deprecation : String :=
  "// Deprecated: Do not use."

/-- The lines of documentation. Empty comment lines stand between its parts. -/
def Doc.items (d : Doc) : List Item :=
  let separator (wanted : Bool) : List Item := if wanted then [line ["//"]] else []
  [.comment d.leading] ++
    (if d.paragraph = [] then []
     else
      separator (d.leading ≠ "") ++ d.paragraph.map fun (l : String) => line [.text ("// " ++ l)]) ++
    if d.deprecated then
      separator (d.leading ≠ "" || d.paragraph ≠ []) ++ [line [.text deprecation]]
    else []

/-! ## Signatures -/

/-- A name and its type: a parameter, a receiver or a field. -/
structure Param where
  name : String
  type : Code
  deriving DecidableEq

/-- A parameter as code. -/
def Param.code (p : Param) : Code :=
  .text (p.name ++ " ") :: p.type

/-- What a function or a method of an interface is called with and what it returns. -/
structure Signature where
  name : String
  params : List Param
  result : Code
  deriving DecidableEq

/-- A signature as code. -/
def Signature.code (s : Signature) : Code :=
  [.text s.name, .text "("] ++ List.intercalate [.text ", "] (s.params.map Param.code) ++
    [.text ")"] ++
    match s.result with
    | [] => []
    | result => .text " " :: result

/-- A method of an interface, with a comment behind it. -/
structure Member where
  doc : Doc
  signature : Signature
  trailing : String
  deriving DecidableEq

/-- A method of an interface as lines. -/
def Member.items (m : Member) : List Item :=
  m.doc.items ++ [.code m.signature.code m.trailing]

/-! ## Statements -/

/-- The left side of the definition of variables; nothing if there are none. -/
def defining : List String → Code
  | [] => []
  | names => [.text (", ".intercalate names ++ " := ")]

/-- A statement. Variables are defined together with what they are set to. -/
inductive Stmt
  /-- Code on one line. -/
  | code (names : List String) (value : Code)
  /-- A literal between other code. -/
  | literal (names : List String) (before : Code) (l : Literal) (after : String)
  /-- The declaration of a variable. -/
  | declare (name : String) (type : Code)
  /-- A branch, which may define a variable to begin with. -/
  | branch (start : Option (String × Code)) (condition : Code) (body : List Code)
  | blank

/-- The code of a branch before its condition. -/
def branchStart : Option (String × Code) → Code
  | none => []
  | some (name, value) => defining [name] ++ value ++ [.text "; "]

/-- A statement as lines. -/
def Stmt.items : Stmt → List Item
  | .code names value => [line (defining names ++ value)]
  | .literal names before l after => l.items (defining names ++ before) after
  | .declare name type => [line (.text ("var " ++ name ++ " ") :: type)]
  | .branch start condition body =>
    [line (.text "if " :: (branchStart start ++ condition ++ [.text " \x7b"]))] ++ body.map line ++
      [line ["\x7d"]]
  | .blank => [.blank]

/-! ## Declarations -/

/-- A function or a method, with a comment behind its first line. -/
structure Func where
  doc : Doc := {}
  receiver : Option Param := none
  signature : Signature
  trailing : String := ""
  body : List Stmt

/-- The receiver of a method between parentheses. -/
def receiverCode : Option Param → Code
  | none => []
  | some r => .text "(" :: (r.code ++ [.text ") "])

/-- A declaration. -/
inductive Decl
  | interface (doc : Doc) (name trailing : String) (members : List Member)
  | struct (name : String) (fields : List Param)
  | func (f : Func)

namespace Decl

/-- The declared name. -/
def name : Decl → String
  | .interface _ name _ _ | .struct name _ => name
  | .func f => f.signature.name

/-- The documentation. -/
def doc : Decl → Doc
  | .interface doc _ _ _ => doc
  | .struct _ _ => {}
  | .func f => f.doc

/-- The first line. -/
def head : Decl → Code
  | .interface _ name _ _ => ["type ", .text name, " interface \x7b"]
  | .struct name _ => ["type ", .text name, " struct \x7b"]
  | .func f => .text "func " :: (receiverCode f.receiver ++ f.signature.code ++ [.text " \x7b"])

/-- The comment behind the first line. -/
def trailing : Decl → String
  | .interface _ _ trailing _ => trailing
  | .struct _ _ => ""
  | .func f => f.trailing

/-- The lines between the first and the last. -/
def inside : Decl → List Item
  | .interface _ _ _ members => members.flatMap Member.items
  | .struct _ fields => fields.map fun p => line p.code
  | .func f => f.body.flatMap Stmt.items

/-- A declaration as lines. -/
def items (d : Decl) : List Item :=
  d.doc.items ++ [.code d.head d.trailing] ++ d.inside ++ [line ["\x7d"], .blank]

end Decl

end TemporalBindings.Source
