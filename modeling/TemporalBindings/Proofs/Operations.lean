import TemporalBindings.Proofs.Written

/-!
# TemporalBindings.Proofs.Operations

A file under construction as a sequence of operations. What the file is afterwards can be
read off the operations, whatever order they came in:

```
imports    the identifiers that were asked for, in the order of the calls
preamble   the lines up to the last package clause
body       the lines behind it
```

Every file that is written from items is made by such operations.
-/

namespace TemporalBindings.Source

/-! ## Operations -/

/-- One operation on a file under construction. -/
inductive Op
  /-- A line of code as it stands. -/
  | print (code : String)
  /-- A line of code and the comment that belongs behind it. -/
  | printWith (code trailing : String)
  /-- A blank line. -/
  | blank
  /-- A comment on lines of its own. -/
  | comment (text : String)
  /-- The package clause. -/
  | package (name : String)
  /-- A call for the spelling of an identifier. -/
  | ident (i : Ident)
  deriving DecidableEq

namespace Op

/-- The lines that an operation adds. -/
def lines : Op → List Line
  | .print code => [⟨code, none⟩]
  | .printWith code trailing => File.withTrailing code trailing
  | .blank => [⟨"", none⟩]
  | .comment text => (commentLines text).map (⟨·, none⟩)
  | .package name => [⟨"package " ++ name, none⟩]
  | .ident _ => []

/-- The identifiers that an operation asks for. -/
def idents : Op → List Ident
  | .ident i => [i]
  | _ => []

/-- Whether an operation is the package clause. -/
def isPackage : Op → Bool
  | .package _ => true
  | _ => false

end Op

/-- The identifiers that operations ask for, in the order of the calls. -/
def calls (ops : List Op) : List Ident :=
  ops.flatMap Op.idents

theorem mem_calls {i : Ident} {ops : List Op} : i ∈ calls ops ↔ .ident i ∈ ops := by
  rw [calls, List.mem_flatMap]
  constructor
  · rintro ⟨op, hop, hi⟩
    cases op <;> simp [Op.idents] at hi
    exact hi ▸ hop
  · exact fun h => ⟨_, h, List.mem_singleton_self i⟩

/-- If there is a package clause, there is a last one. -/
theorem exists_last_package {ops : List Op} (h : ∃ op ∈ ops, op.isPackage = true) :
    ∃ above name below, ops = above ++ .package name :: below ∧
      ∀ op ∈ below, op.isPackage = false := by
  induction ops with
  | nil => simp at h
  | cons op ops ih =>
    by_cases hops : ∃ op ∈ ops, op.isPackage = true
    · obtain ⟨above, name, below, rfl, hbelow⟩ := ih hops
      exact ⟨op :: above, name, below, rfl, hbelow⟩
    · obtain ⟨op', hop', hpackage⟩ := h
      obtain rfl | hmem := List.mem_cons.1 hop'
      · cases op' with
        | package name => exact ⟨[], name, ops, rfl, by simpa using hops⟩
        | _ => simp [Op.isPackage] at hpackage
      · exact absurd ⟨op', hmem, hpackage⟩ hops

namespace File

/-- The file after one more operation. -/
def perform (f : File) : Op → File
  | .print code => f.write (line [.text code])
  | .printWith code trailing => f.write (.code [.text code] trailing)
  | .blank => f.write .blank
  | .comment text => f.write (.comment text)
  | .package name => f.write (.package name)
  | .ident i => (f.spell i).2

/-- The file after some more operations. -/
def performAll (f : File) (ops : List Op) : File :=
  ops.foldl perform f

@[simp] theorem performAll_nil (f : File) : f.performAll [] = f := rfl

@[simp] theorem performAll_cons (f : File) (op : Op) (ops : List Op) :
    f.performAll (op :: ops) = (f.perform op).performAll ops := rfl

@[simp] theorem performAll_append (f : File) (ops ops' : List Op) :
    f.performAll (ops ++ ops') = (f.performAll ops).performAll ops' :=
  List.foldl_append

/-! ## The file afterwards -/

/-- An operation that is not the package clause adds its identifiers to the imports and its
lines to the body. -/
theorem perform_eq {op : Op} (h : op.isPackage = false) (f : File) :
    f.perform op =
      { f with imports := f.imports.requireAll op.idents, body := f.body ++ op.lines } := by
  cases op with
  | print code => simp [perform, write, line, Imports.render, append, withTrailing, commentLines,
      Op.idents, Op.lines]
  | printWith code trailing => simp [perform, write, Imports.render, append, Op.idents, Op.lines]
  | blank => rfl
  | comment text => rfl
  | package name => simp [Op.isPackage] at h
  | ident i => simp [perform, spell, Imports.spell, Op.idents, Op.lines]

theorem performAll_eq {ops : List Op} (h : ∀ op ∈ ops, op.isPackage = false) (f : File) :
    f.performAll ops =
      { f with
        imports := f.imports.requireAll (calls ops)
        body := f.body ++ ops.flatMap Op.lines } := by
  induction ops generalizing f with
  | nil => simp [calls]
  | cons op ops ih =>
    rw [performAll_cons, ih (fun op' h' => h op' (List.mem_cons_of_mem op h')),
      perform_eq (h op List.mem_cons_self)]
    simp [calls]

/-- The package clause ends the preamble, which has all lines so far. -/
theorem perform_package (f : File) (name : String) :
    f.perform (.package name) =
      { f with preamble := f.preamble ++ f.body ++ Op.lines (.package name), body := [] } := rfl

/-- The imports depend on the calls only. -/
theorem imports_performAll (f : File) (ops : List Op) :
    (f.performAll ops).imports = f.imports.requireAll (calls ops) := by
  induction ops generalizing f with
  | nil => rfl
  | cons op ops ih =>
    have hop : (f.perform op).imports = f.imports.requireAll op.idents := by
      cases hpackage : op.isPackage with
      | false => rw [perform_eq hpackage]
      | true =>
        cases op <;> simp [Op.isPackage] at hpackage
        rfl
    rw [performAll_cons, ih, hop, ← Imports.requireAll_append]
    rfl

/-- No operation takes a line away. -/
theorem lines_performAll (f : File) (ops : List Op) :
    (f.performAll ops).preamble ++ (f.performAll ops).body =
      f.preamble ++ f.body ++ ops.flatMap Op.lines := by
  induction ops generalizing f with
  | nil => simp
  | cons op ops ih =>
    have hop : (f.perform op).preamble ++ (f.perform op).body =
        f.preamble ++ f.body ++ op.lines := by
      cases hpackage : op.isPackage with
      | false => simp [perform_eq hpackage]
      | true =>
        cases op <;> simp [Op.isPackage] at hpackage
        simp [perform_package]
    rw [performAll_cons, ih, hop, List.flatMap_cons, List.append_assoc _ op.lines]

/-- Before the first package clause all lines are in the body. -/
theorem preamble_performAll {ops : List Op} (h : ∀ op ∈ ops, op.isPackage = false) (f : File) :
    (f.performAll ops).preamble = f.preamble := by
  rw [performAll_eq h]

/-- Behind the last package clause the preamble stays as it is. -/
theorem preamble_performAll_package {above below : List Op} {name : String}
    (h : ∀ op ∈ below, op.isPackage = false) (f : File) :
    (f.performAll (above ++ .package name :: below)).preamble =
        f.preamble ++ f.body ++ (above ++ [Op.package name]).flatMap Op.lines ∧
      (f.performAll (above ++ .package name :: below)).body = below.flatMap Op.lines := by
  have habove := lines_performAll f above
  rw [performAll_append, performAll_cons, performAll_eq h, perform_package, habove]
  simp

/-! ## Items as operations -/

/-- A call for each identifier brings the imports to where they are behind the code. -/
theorem performAll_idents (f : File) (is : List Ident) :
    f.performAll (is.map .ident) = { f with imports := f.imports.requireAll is } := by
  have hcalls : calls (is.map .ident) = is := by
    induction is with
    | nil => rfl
    | cons i is ih =>
      rw [List.map_cons, calls, List.flatMap_cons, ← calls, ih]
      rfl
  have hlines : (is.map Op.ident).flatMap Op.lines = [] := by simp [Op.lines]
  rw [performAll_eq (by simp [Op.isPackage]), hcalls, hlines, List.append_nil]

/-- An item is written by calls for its identifiers and one more operation. -/
theorem exists_performAll_eq_write (f : File) (item : Item) :
    ∃ ops, f.write item = f.performAll ops := by
  cases item with
  | code c trailing =>
    refine ⟨(codeIdents c).map .ident ++ [.printWith (f.imports.render c).1 trailing], ?_⟩
    rw [performAll_append, performAll_idents, performAll_cons, performAll_nil, perform, write,
      Imports.render_eq (.refl _)]
    simp [write, Imports.render, append]
  | comment text => exact ⟨[.comment text], rfl⟩
  | blank => exact ⟨[.blank], rfl⟩
  | package name => exact ⟨[.package name], rfl⟩

/-- Whatever is written from items, operations can make it. -/
theorem exists_performAll_eq_writeAll (f : File) (items : List Item) :
    ∃ ops, f.writeAll items = f.performAll ops := by
  induction items generalizing f with
  | nil => exact ⟨[], rfl⟩
  | cons item items ih =>
    obtain ⟨ops, hops⟩ := exists_performAll_eq_write f item
    obtain ⟨ops', hops'⟩ := ih (f.write item)
    refine ⟨ops ++ ops', ?_⟩
    rw [performAll_append, ← hops, ← hops']
    rfl

end File

end TemporalBindings.Source
