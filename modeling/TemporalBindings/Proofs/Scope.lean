import TemporalBindings.Proofs.ImportTable
import TemporalBindings.Source.Syntax

/-!
# TemporalBindings.Proofs.Scope

What the names in declarations refer to. A name is looked up in three places, one
after the other:

```
the function   its receiver, its parameters and the variables defined above
the file       the aliases of its imports
the language   the predeclared names
```

The receiver and the parameters are bound in the body of a function and not in its
signature. A variable is bound from behind the statement that defines it to the end of
the block; one that a branch begins with is bound in the branch alone.
-/

namespace TemporalBindings.Source

/-! ## Looking up a name -/

/-- The names that the language predeclares: types, constants and functions. -/
def predeclared : List String :=
  ["any", "bool", "byte", "comparable", "complex64", "complex128", "error", "float32", "float64",
   "int", "int8", "int16", "int32", "int64", "rune", "string", "uint", "uint8", "uint16", "uint32",
   "uint64", "uintptr", "true", "false", "iota", "nil", "append", "cap", "clear", "close",
   "complex", "copy", "delete", "imag", "len", "make", "max", "min", "new", "panic", "print",
   "println", "real", "recover"]

/-- What a name refers to. -/
inductive Referent
  /-- Something that the function binds. -/
  | bound
  /-- The package at an import path. -/
  | package (path : String)
  /-- Something that the language predeclares. -/
  | predeclared
  deriving DecidableEq

namespace Imports

/-- What a name refers to where the names of `scope` are bound. -/
def resolve (t : Imports) (scope : List String) (x : String) : Option Referent :=
  if x ∈ scope then some .bound
  else match t.aliases.find? (·.2 = x) with
    | some (path, _) => some (.package path)
    | none => if x ∈ Source.predeclared then some .predeclared else none

/-- Whether a piece of code refers to what it is meant to refer to: a name to what the
function binds, or else to what the language predeclares, and the alias of an imported
package to that package. -/
def Denotes (t : Imports) (scope : List String) : Piece → Prop
  | .text _ => True
  | .name x => t.resolve scope x = some (if x ∈ scope then .bound else .predeclared)
  | .ident i => ∀ a, t.aliases.lookup i.package.path = some a →
      t.resolve scope a = some (.package i.package.path)

/-- Whether all pieces of code refer to what they are meant to. -/
def DenotesAll (t : Imports) (scope : List String) (code : Code) : Prop :=
  ∀ p ∈ code, t.Denotes scope p

/-- Whether the alias of a package, if it has one, is none of some names. -/
def Avoids (t : Imports) (p : Package) (names : List String) : Prop :=
  ∀ a, t.aliases.lookup p.path = some a → a ∉ names

/-- Whether a name is no alias. -/
def Free (t : Imports) (x : String) : Prop :=
  x ∉ t.aliases.map Prod.snd

variable {t : Imports} {scope : List String}

@[simp] theorem denotesAll_nil : t.DenotesAll scope [] := by
  simp [DenotesAll]

@[simp] theorem denotesAll_cons {p : Piece} {code : Code} :
    t.DenotesAll scope (p :: code) ↔ t.Denotes scope p ∧ t.DenotesAll scope code := by
  simp [DenotesAll]

@[simp] theorem denotesAll_append {code code' : Code} :
    t.DenotesAll scope (code ++ code') ↔
      t.DenotesAll scope code ∧ t.DenotesAll scope code' := by
  simp [DenotesAll, or_imp, forall_and]

@[simp] theorem denotes_text (s : String) : t.Denotes scope (.text s) :=
  trivial

theorem denotes_name_of_mem {x : String} (h : x ∈ scope) : t.Denotes scope (.name x) := by
  simp [Denotes, resolve, h]

/-- A predeclared name that is not bound keeps its meaning iff it is no alias. -/
theorem denotes_name_iff {x : String} (hscope : x ∉ scope) (hx : x ∈ Source.predeclared) :
    t.Denotes scope (.name x) ↔ t.Free x := by
  rw [Denotes, resolve, if_neg hscope, if_neg hscope, Free]
  cases hfind : t.aliases.find? (·.2 = x) with
  | none =>
    have hfree : x ∉ t.aliases.map Prod.snd := fun hmem => by
      obtain ⟨e, he, heq⟩ := List.mem_map.1 hmem
      exact absurd heq (by simpa using List.find?_eq_none.1 hfind e he)
    simp [hx, hfree]
  | some e =>
    have halias : e.2 = x := by simpa using List.find?_some hfind
    have hmem : x ∈ t.aliases.map Prod.snd :=
      List.mem_map.2 ⟨e, List.mem_of_find?_eq_some hfind, halias⟩
    simp [hmem]

/-- Where no two packages have one alias, an alias refers to its package iff the function
binds nothing of that name. -/
theorem denotes_ident_iff (hnodup : (t.aliases.map Prod.snd).Nodup) {i : Ident} :
    t.Denotes scope (.ident i) ↔ t.Avoids i.package scope := by
  refine forall_congr' fun a => imp_congr_right fun ha => ?_
  have hmem := mem_of_lookup ha
  constructor
  · intro h hscope
    simp [resolve, hscope] at h
  · intro hscope
    cases hfind : t.aliases.find? (·.2 = a) with
    | none =>
      have hne := List.find?_eq_none.1 hfind _ hmem
      simp at hne
    | some e =>
      have halias : e.2 = a := by simpa using List.find?_some hfind
      have heq : e = (i.package.path, a) :=
        List.inj_on_of_nodup_map hnodup (List.mem_of_find?_eq_some hfind) hmem halias
      simp [resolve, hscope, hfind, heq]

@[simp] theorem avoids_nil {p : Package} : t.Avoids p [] :=
  fun _ _ => List.not_mem_nil

/-- Avoiding names is a matter of the set of the names. -/
theorem Avoids.mono {p : Package} {names names' : List String} (h : t.Avoids p names)
    (hsub : names' ⊆ names) : t.Avoids p names' :=
  fun a ha hmem => h a ha (hsub hmem)

end Imports

/-! ## Names in statements -/

/-- The names that a statement binds for those behind it. -/
def Stmt.binds : Stmt → List String
  | .code names _ | .literal names _ _ _ => names
  | .declare name _ => [name]
  | .branch _ _ _ | .blank => []

/-- Whether the code of a statement refers to what it is meant to, where the names of
`scope` are bound. -/
def Stmt.Denotes (t : Imports) (scope : List String) : Stmt → Prop
  | .code _ value => t.DenotesAll scope value
  | .literal _ before l _ =>
    t.DenotesAll scope (before ++ [.ident l.type]) ∧ ∀ f ∈ l.fields, t.DenotesAll scope f.2
  | .declare _ type => t.DenotesAll scope type
  | .branch none condition body =>
    t.DenotesAll scope condition ∧ ∀ c ∈ body, t.DenotesAll scope c
  | .branch (some (name, value)) condition body =>
    t.DenotesAll scope value ∧ t.DenotesAll (name :: scope) condition ∧
      ∀ c ∈ body, t.DenotesAll (name :: scope) c
  | .blank => True

/-- Whether all statements of a block do. -/
def BlockDenotes (t : Imports) : List String → List Stmt → Prop
  | _, [] => True
  | scope, s :: rest => s.Denotes t scope ∧ BlockDenotes t (s.binds ++ scope) rest

/-- Statements that bind nothing leave the scope alone. -/
theorem blockDenotes_append {t : Imports} {scope : List String} {ss ss' : List Stmt}
    (h : ∀ s ∈ ss, s.binds = []) :
    BlockDenotes t scope (ss ++ ss') ↔
      (∀ s ∈ ss, s.Denotes t scope) ∧ BlockDenotes t scope ss' := by
  induction ss with
  | nil => simp
  | cons s ss ih =>
    rw [List.cons_append, BlockDenotes, h s List.mem_cons_self, List.nil_append,
      ih fun s' hs' => h s' (List.mem_cons_of_mem s hs'), List.forall_mem_cons, and_assoc]

/-! ## Names in declarations -/

/-- The names that a function binds in its body from the start. -/
def Func.bound (f : Func) : List String :=
  (f.receiver.map (·.name)).toList ++ f.signature.params.map (·.name)

/-- Whether the code of a declaration refers to what it is meant to. -/
def Decl.Denotes (t : Imports) (d : Decl) : Prop :=
  t.DenotesAll [] d.head ∧ match d with
    | .interface _ _ _ members => ∀ m ∈ members, t.DenotesAll [] m.signature.code
    | .struct _ fields => ∀ p ∈ fields, t.DenotesAll [] p.code
    | .func f => BlockDenotes t f.bound f.body

section Signatures

variable {t : Imports} {scope : List String}

theorem denotesAll_intercalate {sep : String} {cs : List Code} :
    t.DenotesAll scope (List.intercalate [Piece.text sep] cs) ↔
      ∀ c ∈ cs, t.DenotesAll scope c := by
  induction cs with
  | nil => simp
  | cons c cs ih =>
    cases cs with
    | nil => simp
    | cons c' cs =>
      rw [List.intercalate_cons_cons, Imports.denotesAll_append, Imports.denotesAll_append, ih]
      simp

@[simp] theorem denotesAll_param {p : Param} :
    t.DenotesAll scope p.code ↔ t.DenotesAll scope p.type := by
  simp [Param.code]

@[simp] theorem denotesAll_signature {sig : Signature} :
    t.DenotesAll scope sig.code ↔
      (∀ p ∈ sig.params, t.DenotesAll scope p.type) ∧ t.DenotesAll scope sig.result := by
  unfold Signature.code
  split
  · next h => simp [denotesAll_intercalate, h]
  · simp [denotesAll_intercalate]

theorem denotesAll_receiver {r : Option Param} :
    t.DenotesAll scope (receiverCode r) ↔ ∀ p ∈ r, t.DenotesAll scope p.type := by
  cases r <;> simp [receiverCode]

theorem denotes_interface_iff {doc : Doc} {name trailing : String} {members : List Member} :
    (Decl.interface doc name trailing members).Denotes t ↔
      ∀ m ∈ members, t.DenotesAll [] m.signature.code := by
  simp [Decl.Denotes, Decl.head]

theorem denotes_struct_iff {name : String} {fields : List Param} :
    (Decl.struct name fields).Denotes t ↔ ∀ p ∈ fields, t.DenotesAll [] p.type := by
  simp [Decl.Denotes, Decl.head]

theorem denotes_func_iff {f : Func} :
    (Decl.func f).Denotes t ↔
      ((∀ p ∈ f.receiver, t.DenotesAll [] p.type) ∧
        (∀ p ∈ f.signature.params, t.DenotesAll [] p.type) ∧
        t.DenotesAll [] f.signature.result) ∧ BlockDenotes t f.bound f.body := by
  simp [Decl.Denotes, Decl.head, denotesAll_receiver]

end Signatures

end TemporalBindings.Source
