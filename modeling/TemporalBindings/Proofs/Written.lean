import TemporalBindings.Bindings.Output

/-!
# TemporalBindings.Proofs.Written

What a file holds after items have been written to it. Writing chooses aliases on the
way, but an alias once given stays, so every spelling is the one that the final import
table gives:

```
(empty.writeAll items).imports = empty.requireAll (identifiers of items)
(empty.writeAll items).body    = lines of items under these imports
```

After this the order of writing is forgotten: lines are a function of the item and the
final imports.
-/

namespace TemporalBindings.Source

/-! ## Imports that grow -/

namespace Imports

/-- The imports after identifiers have been spelled. -/
def requireAll (t : Imports) (is : List Ident) : Imports :=
  is.foldl require t

@[simp] theorem requireAll_nil (t : Imports) : t.requireAll [] = t := rfl

@[simp] theorem requireAll_cons (t : Imports) (i : Ident) (is : List Ident) :
    t.requireAll (i :: is) = (t.require i).requireAll is := rfl

@[simp] theorem requireAll_append (t : Imports) (is js : List Ident) :
    t.requireAll (is ++ js) = (t.requireAll is).requireAll js :=
  List.foldl_append

/-- Whether `t'` spells everything that `t` knows as `t` does. -/
structure Extends (t t' : Imports) : Prop where
  home : t'.home = t.home
  lookup : ∀ path a, t.aliases.lookup path = some a → t'.aliases.lookup path = some a

theorem Extends.refl (t : Imports) : Extends t t :=
  ⟨rfl, fun _ _ h => h⟩

theorem Extends.trans {t t' t'' : Imports} (h : Extends t t') (h' : Extends t' t'') :
    Extends t t'' :=
  ⟨h'.home.trans h.home, fun path a ha => h'.lookup path a (h.lookup path a ha)⟩

/-- An identifier leaves the aliases of other packages and those given before alone. -/
theorem extends_require (t : Imports) (i : Ident) : Extends t (t.require i) := by
  unfold require
  split
  · exact .refl t
  · split
    · exact .refl t
    · next hnone =>
      refine ⟨rfl, fun path a ha => ?_⟩
      have hne : path ≠ i.package.path := by
        rintro rfl
        simp [hnone] at ha
      rw [lookup_put_of_ne hne]
      exact ha

theorem extends_requireAll (t : Imports) (is : List Ident) : Extends t (t.requireAll is) := by
  induction is generalizing t with
  | nil => exact .refl t
  | cons i is ih => exact (extends_require t i).trans (ih (t.require i))

/-- Whether the package of an identifier is the file's own or has an alias. -/
def Knows (t : Imports) (i : Ident) : Prop :=
  i.package.path = t.home ∨ ∃ a, t.aliases.lookup i.package.path = some a

theorem knows_require (t : Imports) (i : Ident) : (t.require i).Knows i := by
  unfold require
  split
  · next h => exact .inl h
  · split
    · next a h => exact .inr ⟨a, h⟩
    · exact .inr ⟨_, lookup_put_self ..⟩

/-- What is known is spelled in the same way for good. -/
theorem Extends.spelling_eq {t t' : Imports} {i : Ident} (h : Extends t t') (hi : t.Knows i) :
    t'.spelling i = t.spelling i := by
  unfold spelling
  rw [h.home]
  split
  · rfl
  · next hne =>
    obtain ⟨a, ha⟩ := hi.resolve_left hne
    rw [ha, h.lookup _ a ha]

/-! ## Code under imports that stay -/

/-- A piece of code as text. -/
@[simp] def pieceText (t : Imports) : Piece → String
  | .text s | .name s => s
  | .ident i => t.spelling i

/-- Code as text. -/
def codeText (t : Imports) (code : Code) : String :=
  String.join (code.map t.pieceText)

@[simp] theorem codeText_nil (t : Imports) : t.codeText [] = "" := rfl

@[simp] theorem codeText_cons (t : Imports) (p : Piece) (code : Code) :
    t.codeText (p :: code) = t.pieceText p ++ t.codeText code := by
  simp [codeText]

@[simp] theorem codeText_append (t : Imports) (code code' : Code) :
    t.codeText (code ++ code') = t.codeText code ++ t.codeText code' := by
  simp [codeText]

end Imports

/-- The identifier that a piece is. -/
def Piece.ident? : Piece → Option Ident
  | .ident i => some i
  | _ => none

/-- The identifiers in code. -/
def codeIdents (code : Code) : List Ident :=
  code.filterMap Piece.ident?

@[simp] theorem codeIdents_text (s : String) (code : Code) :
    codeIdents (.text s :: code) = codeIdents code := rfl

@[simp] theorem codeIdents_name (x : String) (code : Code) :
    codeIdents (.name x :: code) = codeIdents code := rfl

@[simp] theorem codeIdents_ident (i : Ident) (code : Code) :
    codeIdents (.ident i :: code) = i :: codeIdents code := rfl

@[simp] theorem codeIdents_nil : codeIdents [] = [] := rfl

@[simp] theorem codeIdents_append (code code' : Code) :
    codeIdents (code ++ code') = codeIdents code ++ codeIdents code' :=
  List.filterMap_append

/-- Rendering gives the text under any imports that extend those after it. -/
theorem Imports.render_eq {t t' : Imports} {code : Code}
    (h : Extends (t.requireAll (codeIdents code)) t') :
    t.render code = (t'.codeText code, t.requireAll (codeIdents code)) := by
  induction code generalizing t with
  | nil => rfl
  | cons p code ih =>
    cases p with
    | text s => simp [Imports.render, ih h, pieceText]
    | name x => simp [Imports.render, ih h, pieceText]
    | ident i =>
      have hi : t'.spelling i = (t.require i).spelling i :=
        ((extends_requireAll (t.require i) (codeIdents code)).trans h).spelling_eq
          (knows_require t i)
      have hrest := ih (t := t.require i) h
      simp only [Imports.render, Imports.spell, hrest, codeText_cons, pieceText, hi]
      rfl

/-! ## Items under imports that stay -/

/-- The identifiers in an item. -/
def Item.idents : Item → List Ident
  | .code c _ => codeIdents c
  | _ => []

/-- The lines that an item adds. -/
def Item.lines (t : Imports) : Item → List Line
  | .code c trailing => File.withTrailing (t.codeText c) trailing
  | .comment text => (commentLines text).map (⟨·, none⟩)
  | .blank => [⟨"", none⟩]
  | .package name => [⟨"package " ++ name, none⟩]

/-- Whether an item is the package clause. -/
def Item.isPackage : Item → Bool
  | .package _ => true
  | _ => false

namespace File

/-- One item that is not the package clause. -/
theorem write_eq {f : File} {item : Item} {t : Imports} (hitem : item.isPackage = false)
    (h : (f.imports.requireAll item.idents).Extends t) :
    f.write item =
      { f with imports := f.imports.requireAll item.idents, body := f.body ++ item.lines t } := by
  cases item with
  | code code trailing =>
    rw [write, Imports.render_eq h]
    rfl
  | comment text => rfl
  | blank => rfl
  | package name => simp [Item.isPackage] at hitem

/-- Items without a package clause add their identifiers to the imports and their lines
to the body. -/
theorem writeAll_eq {f : File} {items : List Item} {t : Imports}
    (hitems : ∀ item ∈ items, item.isPackage = false)
    (h : (f.imports.requireAll (items.flatMap Item.idents)).Extends t) :
    f.writeAll items =
      { f with
        imports := f.imports.requireAll (items.flatMap Item.idents)
        body := f.body ++ items.flatMap (Item.lines t) } := by
  induction items generalizing f with
  | nil => simp [writeAll]
  | cons item items ih =>
    rw [List.flatMap_cons, Imports.requireAll_append] at h
    have hfirst := write_eq (hitems item List.mem_cons_self)
      ((Imports.extends_requireAll _ _).trans h)
    have hrest := ih (f := f.write item) (fun i hi => hitems i (List.mem_cons_of_mem _ hi))
      (by rw [hfirst]; exact h)
    rw [writeAll, List.foldl_cons, ← writeAll, hrest, hfirst]
    simp

/-- Items around one package clause: what stands before it is the preamble. -/
theorem writeAll_package_eq {f : File} {before after : List Item} {name : String} {t : Imports}
    (hf : f.preamble = [] ∧ f.body = [])
    (hbefore : ∀ item ∈ before, item.isPackage = false)
    (hafter : ∀ item ∈ after, item.isPackage = false)
    (ht : t = f.imports.requireAll ((before ++ after).flatMap Item.idents)) :
    f.writeAll (before ++ .package name :: after) =
      ⟨f.name, t, (before ++ [Item.package name]).flatMap (Item.lines t),
        after.flatMap (Item.lines t)⟩ := by
  rw [List.flatMap_append, Imports.requireAll_append] at ht
  have hfirst : f.writeAll before = _ := writeAll_eq (t := t) hbefore
    (ht ▸ Imports.extends_requireAll _ _)
  have hrest := writeAll_eq (f := (f.writeAll before).write (.package name)) (t := t) hafter
    (by rw [hfirst, ht]; exact .refl _)
  rw [writeAll, List.foldl_append, List.foldl_cons, ← writeAll, ← writeAll, hrest, hfirst]
  simp [write, Item.lines, hf.1, hf.2, ht]

end File

/-! ## Declarations have no package clause -/

/-- What documentation consists of. -/
theorem Doc.eq_of_mem_items {d : Doc} {item : Item} (h : item ∈ d.items) :
    item = .comment d.leading ∨ item = line [.text "//"] ∨ item = line [.text deprecation] ∨
      ∃ l ∈ d.paragraph, item = line [.text ("// " ++ l)] := by
  simp only [Doc.items, List.mem_append, List.mem_singleton] at h
  obtain (h | h) | h := h
  · exact .inl h
  · split at h
    · simp at h
    · obtain h | h := List.mem_append.1 h
      · split at h <;> simp at h
        exact .inr (.inl h)
      · obtain ⟨l, hl, rfl⟩ := List.mem_map.1 h
        exact .inr (.inr (.inr ⟨l, hl, rfl⟩))
  · split at h
    · obtain h | h := List.mem_append.1 h
      · split at h <;> simp at h
        exact .inr (.inl h)
      · exact .inr (.inr (.inl (List.mem_singleton.1 h)))
    · simp at h

theorem Doc.isPackage_of_mem_items {d : Doc} {item : Item} (h : item ∈ d.items) :
    item.isPackage = false := by
  obtain rfl | rfl | rfl | ⟨l, -, rfl⟩ := Doc.eq_of_mem_items h <;> rfl

/-- Documentation refers to nothing. -/
theorem Doc.idents_of_mem_items {d : Doc} {item : Item} (h : item ∈ d.items) :
    item.idents = [] := by
  obtain rfl | rfl | rfl | ⟨l, -, rfl⟩ := Doc.eq_of_mem_items h <;> rfl

theorem Literal.isPackage_of_mem_items {l : Literal} {before : Code} {after : String} {item : Item}
    (h : item ∈ l.items before after) : item.isPackage = false := by
  unfold Literal.items at h
  split at h
  · rw [List.mem_singleton.1 h]
    rfl
  · simp only [line, List.mem_append, List.mem_singleton, List.mem_map] at h
    obtain (rfl | ⟨_, -, rfl⟩) | rfl := h <;> rfl

theorem Stmt.isPackage_of_mem_items {s : Stmt} {item : Item} (h : item ∈ s.items) :
    item.isPackage = false := by
  cases s with
  | code names value =>
    rw [Stmt.items, List.mem_singleton] at h
    rw [h]
    rfl
  | literal names before l after => exact Literal.isPackage_of_mem_items h
  | declare name type =>
    rw [Stmt.items, List.mem_singleton] at h
    rw [h]
    rfl
  | branch start condition body =>
    simp only [Stmt.items, line, List.mem_append, List.mem_singleton, List.mem_map] at h
    obtain (rfl | ⟨_, -, rfl⟩) | rfl := h <;> rfl
  | blank =>
    rw [Stmt.items, List.mem_singleton] at h
    rw [h]
    rfl

theorem Decl.isPackage_of_mem_items {d : Decl} {item : Item} (h : item ∈ d.items) :
    item.isPackage = false := by
  simp only [Decl.items, line, List.mem_append, List.mem_cons, List.not_mem_nil, or_false] at h
  obtain ((h | rfl) | h) | rfl | rfl := h
  · exact Doc.isPackage_of_mem_items h
  · rfl
  · cases d with
    | interface doc name trailing members =>
      obtain ⟨m, -, hm⟩ := List.mem_flatMap.1 h
      obtain hm | hm := List.mem_append.1 hm
      · exact Doc.isPackage_of_mem_items hm
      · rw [List.mem_singleton.1 hm]
        rfl
    | struct name fields =>
      obtain ⟨p, -, rfl⟩ := List.mem_map.1 h
      rfl
    | func f =>
      obtain ⟨s, -, hs⟩ := List.mem_flatMap.1 h
      exact Stmt.isPackage_of_mem_items hs
  · rfl
  · rfl

/-- The identifiers in a declaration, from left to right and line by line. -/
def Decl.idents (d : Decl) : List Ident :=
  d.items.flatMap Item.idents

/-- They are those of its first line and of what is inside. -/
theorem Decl.idents_eq (d : Decl) :
    d.idents = codeIdents d.head ++ d.inside.flatMap Item.idents := by
  have hdoc : d.doc.items.flatMap Item.idents = [] :=
    List.flatMap_eq_nil_iff.2 fun item h => Doc.idents_of_mem_items h
  rw [idents, items]
  simp [hdoc, Item.idents, line]

end TemporalBindings.Source

namespace TemporalBindings.Bindings

open Source

/-! ## The file of bindings -/

/-- What is written before the package clause. -/
def File.intro (f : File) (compiler : String) : List Item :=
  f.syntaxComments.before ++ f.banner compiler ++ f.packageComments.before

/-- What is written behind the package clause. -/
def File.rest (f : File) (sdk : Sdk) : List Item :=
  .blank :: (f.decls sdk).flatMap Decl.items

/-- The imports of the generated file. -/
def File.imports (f : File) (sdk : Sdk) : Imports :=
  (Imports.empty f.package.path).requireAll ((f.decls sdk).flatMap Decl.idents)

theorem File.items_eq (f : File) (sdk : Sdk) (compiler : String) :
    f.items sdk compiler = f.intro compiler ++ .package f.package.name :: f.rest sdk := by
  simp [File.items, File.header, File.intro, File.rest]

/-- What may stand before the package clause: a blank line, a comment, or a line of text
that is one. -/
def IsRemark (item : Item) : Prop :=
  item = .blank ∨ (∃ text, item = .comment text) ∨
    ∃ (first : String) (texts : List String),
      item = line (.text ("//" ++ first) :: texts.map .text)

theorem IsRemark.isPackage {item : Item} (h : IsRemark item) : item.isPackage = false := by
  obtain rfl | ⟨text, rfl⟩ | ⟨first, texts, rfl⟩ := h <;> rfl

/-- Remarks refer to nothing. -/
theorem IsRemark.idents {item : Item} (h : IsRemark item) : item.idents = [] := by
  obtain rfl | ⟨text, rfl⟩ | ⟨first, texts, rfl⟩ := h
  · rfl
  · rfl
  · simp only [line, Item.idents, codeIdents_text]
    induction texts with
    | nil => rfl
    | cons text texts ih => simpa using ih

theorem Comments.isRemark_of_mem_before {c : Comments} {item : Item} (h : item ∈ c.before) :
    item = .blank ∨ ∃ text, item = .comment text := by
  simp only [Comments.before, List.mem_append, List.mem_flatMap, List.mem_cons,
    List.not_mem_nil, or_false] at h
  obtain ⟨text, -, rfl | rfl⟩ | h := h
  · exact .inr ⟨text, rfl⟩
  · exact .inl rfl
  · split at h <;> simp at h
    obtain rfl | rfl := h
    · exact .inr ⟨_, rfl⟩
    · exact .inl rfl

theorem File.isRemark_of_mem_banner {f : File} {compiler : String} {item : Item}
    (h : item ∈ f.banner compiler) : IsRemark item := by
  simp only [File.banner, List.mem_cons, List.not_mem_nil, or_false] at h
  obtain rfl | rfl | rfl | rfl | rfl | rfl := h
  · exact .inr (.inr ⟨" Code generated by ", [generatorName, ". DO NOT EDIT."], rfl⟩)
  · exact .inr (.inr ⟨" versions:", [], rfl⟩)
  · exact .inr (.inr ⟨" - ", [generatorName, " v", generatorVersion], rfl⟩)
  · exact .inr (.inr ⟨" - protoc                 ", [compiler], rfl⟩)
  · split
    · exact .inr (.inr ⟨" ", [f.path, " is a deprecated file."], rfl⟩)
    · exact .inr (.inr ⟨" source: ", [f.path], rfl⟩)
  · exact .inl rfl

theorem File.isRemark_of_mem_intro {f : File} {compiler : String} {item : Item}
    (h : item ∈ f.intro compiler) : IsRemark item := by
  rw [File.intro, List.mem_append, List.mem_append] at h
  obtain (h | h) | h := h
  · exact (Comments.isRemark_of_mem_before h).imp_right .inl
  · exact File.isRemark_of_mem_banner h
  · exact (Comments.isRemark_of_mem_before h).imp_right .inl

theorem File.isPackage_of_mem_rest {f : File} {sdk : Sdk} {item : Item}
    (h : item ∈ f.rest sdk) : item.isPackage = false := by
  obtain rfl | h := List.mem_cons.1 h
  · rfl
  · obtain ⟨d, -, hd⟩ := List.mem_flatMap.1 h
    exact Decl.isPackage_of_mem_items hd

/-- The generated file: its imports are those of its declarations, its preamble ends
with the package clause, and every line is an item's line under these imports. -/
theorem File.source_eq (f : File) (sdk : Sdk) (compiler : String) :
    f.source sdk compiler =
      ⟨f.stem ++ fileEnding, f.imports sdk,
        (f.intro compiler ++ [Item.package f.package.name]).flatMap (Item.lines (f.imports sdk)),
        (f.rest sdk).flatMap (Item.lines (f.imports sdk))⟩ := by
  have hintro : (f.intro compiler).flatMap Item.idents = [] :=
    List.flatMap_eq_nil_iff.2 fun item h => (File.isRemark_of_mem_intro h).idents
  have hrest : (f.rest sdk).flatMap Item.idents = (f.decls sdk).flatMap Decl.idents := by
    rw [File.rest, List.flatMap_cons, List.flatMap_assoc]
    rfl
  rw [File.source, File.items_eq, Source.File.writeAll_package_eq (t := f.imports sdk) ⟨rfl, rfl⟩
    (fun item h => (File.isRemark_of_mem_intro h).isPackage)
    (fun item h => File.isPackage_of_mem_rest h)]
  · rfl
  · rw [List.flatMap_append, hintro, hrest]
    rfl

end TemporalBindings.Bindings
