import TemporalBindings.Proofs.BareLines
import TemporalBindings.Proofs.Emitted
import TemporalBindings.Proofs.ImportBlock

/-!
# TemporalBindings.Proofs.WithoutComments

What is written without comments. Dropping the comments of a file drops those of its
declarations and nothing else:

```
f.withoutComments.decls sdk = (f.decls sdk).map Decl.withoutComments
```

A declaration refers to the same identifiers without its comments, so a file has the
same imports; and it has the same bare lines, for documentation leaves none and the
comment behind a line is no part of the bare line.
-/

namespace TemporalBindings.Source

variable {t : Imports}

/-! ## Items -/

/-- The lines of items without their comments. -/
def bareLines (t : Imports) (items : List Item) : List Line :=
  (items.flatMap (Item.lines t)).filterMap Line.bare?

@[simp] theorem bareLines_nil (t : Imports) : bareLines t [] = [] := rfl

theorem bareLines_append (t : Imports) (items items' : List Item) :
    bareLines t (items ++ items') = bareLines t items ++ bareLines t items' := by
  simp [bareLines]

theorem bareLines_flatMap {α : Type} (t : Imports) (xs : List α) (g : α → List Item) :
    bareLines t (xs.flatMap g) = xs.flatMap fun x => bareLines t (g x) := by
  rw [bareLines, List.flatMap_assoc, List.filterMap_flatMap]
  rfl

/-- The comment behind a line of code is dropped, with all its lines. -/
theorem bareLines_code (t : Imports) (c : Code) (trailing : String) :
    bareLines t [.code c trailing] = bareLines t [line c] := by
  obtain ⟨behind, below, hlines, -, hbelow⟩ := exists_withTrailing (t.codeText c) trailing
  have hnone : below.filterMap Line.bare? = [] :=
    List.filterMap_eq_nil_iff.2 fun l hl => Line.bare?_of_isRemarkText (hbelow l hl).1
  have hfirst : (Item.code c trailing).lines t = ⟨t.codeText c, behind⟩ :: below := hlines
  have hsame : Line.bare? ⟨t.codeText c, behind⟩ = Line.bare? ⟨t.codeText c, none⟩ := rfl
  simp [bareLines, hfirst, hnone, List.filterMap_cons, hsame]

/-- Nothing is left of documentation. -/
theorem bareLines_doc (t : Imports) (d : Doc) : bareLines t d.items = [] := by
  refine List.filterMap_eq_nil_iff.2 fun l hl => ?_
  obtain ⟨item, hitem, hl⟩ := List.mem_flatMap.1 hl
  have hslashes {c : Code} (rest : String) (h : t.codeText c = "//" ++ rest)
      (hl : l ∈ (line c).lines t) : l.bare? = none := by
    rw [lines_line, List.mem_singleton] at hl
    exact Line.bare?_of_slashes (by rw [hl]; exact h)
  obtain rfl | rfl | rfl | ⟨text, -, rfl⟩ := Doc.eq_of_mem_items hitem
  · exact Line.bare?_of_isRemarkText (isRemark_comment d.leading l hl).1
  · exact hslashes "" (by simp) hl
  · exact hslashes " Deprecated: Do not use." (by simp [deprecation]) hl
  · exact hslashes (" " ++ text) (by simp [← String.append_assoc]) hl

/-! ## Declarations -/

/-- Documentation without the comment it begins with. -/
def Doc.withoutComments (d : Doc) : Doc :=
  { d with leading := "" }

/-- A method of an interface without its comments. -/
def Member.withoutComments (m : Member) : Member :=
  { m with doc := m.doc.withoutComments, trailing := "" }

/-- A declaration without its comments. -/
def Decl.withoutComments : Decl → Decl
  | .interface doc name _ members =>
    .interface doc.withoutComments name "" (members.map Member.withoutComments)
  | .struct name fields => .struct name fields
  | .func f => .func { f with doc := f.doc.withoutComments, trailing := "" }

namespace Decl

theorem head_withoutComments (d : Decl) : d.withoutComments.head = d.head := by
  cases d <;> rfl

theorem bareLines_member (t : Imports) (m : Member) :
    bareLines t m.items = bareLines t [line m.signature.code] := by
  rw [Member.items, bareLines_append, bareLines_doc, bareLines_code, List.nil_append]

theorem bareLines_inside_withoutComments (t : Imports) (d : Decl) :
    bareLines t d.withoutComments.inside = bareLines t d.inside := by
  cases d with
  | interface doc name trailing members =>
    simp only [withoutComments, inside, bareLines_flatMap, List.flatMap_map, bareLines_member]
    rfl
  | struct name fields => rfl
  | func f => rfl

/-- The code of a declaration does not depend on its comments. -/
theorem bareLines_withoutComments (t : Imports) (d : Decl) :
    bareLines t d.withoutComments.items = bareLines t d.items := by
  simp only [items, bareLines_append, bareLines_doc, bareLines_code,
    bareLines_inside_withoutComments, head_withoutComments]

/-- It refers to the same identifiers, in the same order. -/
theorem idents_withoutComments (d : Decl) : d.withoutComments.idents = d.idents := by
  have hdoc (d : Doc) : d.items.flatMap Item.idents = [] :=
    List.flatMap_eq_nil_iff.2 fun item h => Doc.idents_of_mem_items h
  have hinside : d.withoutComments.inside.flatMap Item.idents = d.inside.flatMap Item.idents := by
    cases d with
    | interface doc name trailing members =>
      simp only [withoutComments, inside, List.flatMap_map, List.flatMap_assoc]
      refine List.flatMap_congr fun m _ => ?_
      simp [Member.items, Member.withoutComments, hdoc, Item.idents]
    | struct name fields => rfl
    | func f => rfl
  rw [idents_eq, idents_eq, head_withoutComments, hinside]

end Decl

end TemporalBindings.Source

namespace TemporalBindings.Bindings

open Source

/-! ## Bindings without comments -/

/-- A method without its comments. -/
def Method.withoutComments (m : Method) : Method :=
  { m with comments := {} }

/-- A service without its comments and those of its methods. -/
def Service.withoutComments (s : Service) : Service :=
  { s with comments := {}, methods := s.methods.map Method.withoutComments }

/-- A file without any comments. -/
def File.withoutComments (f : File) : File :=
  { f with
    syntaxComments := {}
    packageComments := {}
    services := f.services.map Service.withoutComments }

variable {sdk : Sdk}

/-- What is declared without comments is what is declared with them, without these. -/
theorem Service.decls_withoutComments (s : Service) (sdk : Sdk) :
    s.withoutComments.decls sdk = (s.decls sdk).map Decl.withoutComments := by
  have hbootstrap : s.withoutComments.bootstrap sdk =
      (s.bootstrap sdk).map Decl.withoutComments := by
    have hstarted : s.withoutComments.startedWorker = s.startedWorker := rfl
    have hbody (w) : s.withoutComments.bootstrapBody sdk w = s.bootstrapBody sdk w := by
      simp only [bootstrapBody, withoutComments, List.map_map]
      rfl
    unfold bootstrap
    rw [hstarted]
    cases s.startedWorker with
    | none => rfl
    | some w =>
      simp only [hbody]
      rfl
  have hinterface : s.withoutComments.interface sdk =
      (s.interface sdk).withoutComments := by
    simp only [interface, Decl.withoutComments, withoutComments, List.map_map]
    rfl
  have hhelpers : (s.withoutComments.methods.flatMap fun m =>
        m.role.verbs.map (s.withoutComments.helper sdk m)) =
      (s.methods.flatMap fun m => m.role.verbs.map (s.helper sdk m)).map Decl.withoutComments := by
    rw [List.map_flatMap, withoutComments, List.flatMap_map]
    refine List.flatMap_congr fun m _ => ?_
    rw [List.map_map]
    rfl
  rw [decls, client, hbootstrap, hinterface, hhelpers, decls, client, List.map_append,
    List.map_append]
  rfl

theorem File.decls_withoutComments (f : File) (sdk : Sdk) :
    f.withoutComments.decls sdk = (f.decls sdk).map Decl.withoutComments := by
  rw [File.decls, File.decls, List.map_flatMap, File.withoutComments, List.flatMap_map]
  exact List.flatMap_congr fun s _ => s.decls_withoutComments sdk

/-- Imports are the same without comments. -/
theorem File.imports_withoutComments (f : File) (sdk : Sdk) :
    f.withoutComments.imports sdk = f.imports sdk := by
  have hidents : (f.withoutComments.decls sdk).flatMap Decl.idents =
      (f.decls sdk).flatMap Decl.idents := by
    rw [File.decls_withoutComments, List.flatMap_map]
    exact List.flatMap_congr fun d _ => d.idents_withoutComments
  rw [imports, imports, hidents]
  rfl

theorem File.importBlock_withoutComments (f : File) (sdk : Sdk) (compiler : String) :
    (f.withoutComments.source sdk compiler).importBlock =
      (f.source sdk compiler).importBlock := by
  rw [Source.File.importBlock_eq (File.preamble_ne_nil _ sdk compiler),
    Source.File.importBlock_eq (File.preamble_ne_nil _ sdk compiler), File.imports_source,
    File.imports_source, File.imports_withoutComments]

/-- So are the lines of declarations when their comments are dropped. -/
theorem File.bareLines_withoutComments (t : Imports) (f : File) (sdk : Sdk) :
    bareLines t ((f.withoutComments.decls sdk).flatMap Decl.items) =
      bareLines t ((f.decls sdk).flatMap Decl.items) := by
  rw [File.decls_withoutComments, bareLines_flatMap, List.flatMap_map, bareLines_flatMap]
  exact List.flatMap_congr fun d _ => d.bareLines_withoutComments t

/-- Names are identifiers with and without comments. -/
theorem File.wellNamed_withoutComments {f : File} : f.withoutComments.WellNamed ↔ f.WellNamed := by
  have hservice (s : Service) : s.withoutComments.WellNamed ↔ s.WellNamed := by
    simp only [Service.WellNamed, Service.withoutComments, List.forall_mem_map]
    rfl
  simp only [File.WellNamed, File.withoutComments, List.forall_mem_map, hservice]

end TemporalBindings.Bindings
