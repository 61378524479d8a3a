import TemporalBindings.Proofs.ExportedNames
import TemporalBindings.Proofs.Mirrored

/-!
# TemporalBindings.Proofs.MessageNames

What messages are called in generated code. Messages may be declared in each other, and the full
name of one has the package of the file, the messages around it and its own name, with dots
between them:

```
package a.b    message Outer { message inner { message Leaf {} } }

a.b.Outer.inner.Leaf    the full name
OuterInner_Leaf         the identifier
```

So the full name always begins with the package, and the identifier is made of the exported names
of the messages, in the package of the file that declares them. Every type of a linked method is
such a message.
-/

namespace TemporalBindings.Schema

open Source Text

/-! ## Full names -/

/-- The full name of a message of which the messages around it and its own name are known, from
the outside in. -/
def fullName (package : String) (names : List String) : String :=
  names.foldl qualify package

theorem fullName_of_ne {package : String} (hpackage : package ≠ "") {names : List String}
    (hnames : names ≠ []) : fullName package names = package ++ "." ++ ".".intercalate names := by
  induction names generalizing package with
  | nil => exact absurd rfl hnames
  | cons name names ih =>
    have hqualify : qualify package name = package ++ "." ++ name := if_neg hpackage
    cases names with
    | nil => exact hqualify.trans (by rw [String.intercalate_singleton])
    | cons inner names =>
      have hne : package ++ "." ++ name ≠ "" := by simp
      rw [fullName, List.foldl_cons, hqualify]
      refine (ih hne (List.cons_ne_nil _ _)).trans ?_
      rw [String.intercalate_cons_cons]
      simp only [String.append_assoc]

/-- The names that are seen in a full name behind the package. Without a package, messages without
a name leave no trace as long as nothing stands before them. -/
def namesBelow (package : String) (names : List String) : List String :=
  if package = "" then names.dropWhile (· = "") else names

theorem fullName_empty (names : List String) :
    fullName "" names = ".".intercalate (names.dropWhile (· = "")) := by
  induction names with
  | nil => rfl
  | cons name names ih =>
    by_cases hname : name = ""
    · rw [List.dropWhile_cons_of_pos (by simpa using hname), ← ih, hname]
      rfl
    · rw [List.dropWhile_cons_of_neg (by simpa using hname)]
      cases names with
      | nil => exact (String.intercalate_singleton).symm
      | cons inner names =>
        rw [String.intercalate_cons_cons]
        exact fullName_of_ne hname (List.cons_ne_nil _ _)

theorem fullName_eq (package : String) {names : List String} (hnames : names ≠ []) :
    fullName package names = qualify package (".".intercalate (namesBelow package names)) := by
  by_cases hpackage : package = ""
  · rw [hpackage, fullName_empty, namesBelow, if_pos rfl, qualify, if_pos rfl]
  · rw [fullName_of_ne hpackage hnames, namesBelow, if_neg hpackage, qualify, if_neg hpackage]

/-! ## Nested messages -/

mutual

/-- The names of the messages of a tree, each behind those of the messages around it. -/
def MessageTree.chains : MessageTree → List (List String)
  | .node d nested => [d.name] :: (chainsOfAll nested).map (d.name :: ·)

/-- The names of the messages of several trees. -/
def chainsOfAll : List MessageTree → List (List String)
  | [] => []
  | t :: ts => t.chains ++ chainsOfAll ts

end

mutual

/-- A message is declared under the full name that belongs to its chain of names. -/
theorem map_flatten : (scope : String) → (t : MessageTree) →
    (t.flatten scope).map (fun e => qualify e.1 e.2.name) = t.chains.map (fullName scope)
  | scope, .node d nested => by
    rw [MessageTree.flatten, MessageTree.chains, List.map_cons, List.map_cons, List.map_map,
      map_flattenAll (qualify scope d.name) nested]
    rfl

theorem map_flattenAll : (scope : String) → (ts : List MessageTree) →
    (flattenAll scope ts).map (fun e => qualify e.1 e.2.name) =
      (chainsOfAll ts).map (fullName scope)
  | _, [] => by
    rw [flattenAll, chainsOfAll]
    rfl
  | scope, t :: ts => by
    rw [flattenAll, chainsOfAll, List.map_append, List.map_append, map_flatten scope t,
      map_flattenAll scope ts]

end

mutual

theorem MessageTree.ne_nil_of_mem_chains {names : List String} : (t : MessageTree) →
    names ∈ t.chains → names ≠ []
  | .node d nested, h => by
    rw [MessageTree.chains, List.mem_cons, List.mem_map] at h
    obtain rfl | ⟨inner, -, rfl⟩ := h <;> exact List.cons_ne_nil _ _

theorem ne_nil_of_mem_chainsOfAll {names : List String} : (ts : List MessageTree) →
    names ∈ chainsOfAll ts → names ≠ []
  | [], h => by
    rw [chainsOfAll] at h
    cases h
  | t :: ts, h => by
    rw [chainsOfAll, List.mem_append] at h
    exact h.elim t.ne_nil_of_mem_chains (ne_nil_of_mem_chainsOfAll ts)

end

/-! ## Types of linked methods -/

theorem nodup_of_firstDuplicate {α : Type} [DecidableEq α] {xs : List α}
    (h : firstDuplicate xs = none) : xs.Nodup := by
  induction xs with
  | nil => exact .nil
  | cons x xs ih =>
    rw [firstDuplicate] at h
    split at h
    · cases h
    · next hx => exact List.nodup_cons.2 ⟨hx, ih h⟩

/-- A symbol of a message is that of a message of the file. -/
theorem exists_of_mem_symbols {d : FileDescriptor} {x : Symbol} (h : x ∈ d.symbols)
    (hx : x.kind.isMessage = true) :
    x.file = d.name ∧ ∃ names ∈ chainsOfAll d.messages, fullName d.package names = x.name := by
  have hmessage {e : String × MessageDescriptor} (he : e ∈ d.allMessages) :
      ∃ names ∈ chainsOfAll d.messages, fullName d.package names = qualify e.1 e.2.name := by
    have hmem : qualify e.1 e.2.name ∈ d.allMessages.map fun e => qualify e.1 e.2.name :=
      List.mem_map_of_mem he
    rw [FileDescriptor.allMessages, map_flattenAll] at hmem
    exact List.mem_map.1 hmem
  simp only [FileDescriptor.symbols, FileDescriptor.elements, List.mem_append, List.mem_flatMap,
    List.mem_map, List.mem_cons] at h
  obtain (((⟨e, he, rfl | h⟩ | ⟨e, he, rfl | ⟨v, hv, rfl⟩⟩) | ⟨e, he, rfl⟩) |
    ⟨s, hs, rfl | ⟨m, hm, rfl⟩⟩) | ⟨name, hname, rfl⟩ := h
  · exact ⟨rfl, hmessage he⟩
  · obtain ⟨f, hf, rfl⟩ | ⟨o, ho, rfl⟩ := h
    · cases hx
    · cases hx
  all_goals cases hx

theorem Scope.of_element? {s : Scope} {wanted : SymbolKind → Bool} {name : String} {x : Symbol}
    (h : s.element? wanted name = some x) : x ∈ s.symbols ∧ wanted x.kind = true := by
  have hfound := List.find?_some h
  rw [Bool.and_eq_true, Bool.and_eq_true] at hfound
  exact ⟨List.mem_of_find?_eq_some h, hfound.1.2⟩

/-- Whatever a name means is an element in scope of the wanted sort. -/
theorem Scope.of_resolve? {s : Scope} {wanted : SymbolKind → Bool} {user name : String}
    {x : Symbol} (h : s.resolve? wanted user name = some x) :
    x ∈ s.symbols ∧ wanted x.kind = true := by
  have hrelative (h : s.resolveRelative? wanted user name = some x) :
      x ∈ s.symbols ∧ wanted x.kind = true := by
    unfold resolveRelative? at h
    split at h
    · obtain ⟨scope, -, hscope⟩ := List.exists_of_findSome?_eq_some h
      exact of_element? hscope
    · obtain ⟨scope, -, hscope⟩ := Option.bind_eq_some_iff.1 h
      exact of_element? hscope
  unfold resolve? at h
  split at h
  · exact of_element? h
  · split at h
    · exact of_element? h
    · exact hrelative h

/-- What the type of a method means is a message of one of the files. -/
theorem exists_of_messageRef {files : List FileDescriptor} {d : FileDescriptor}
    {user name : String} {m : MessageRef} (hfiles : (files.map (·.name)).Nodup)
    (h : (d.scopeIn files).messageRef files user name = .ok m) :
    ∃ file ∈ files, ∃ names ∈ chainsOfAll file.messages,
      m = ⟨fullName file.package names, file⟩ := by
  obtain ⟨x, hx, h⟩ := bind_eq_ok.1 h
  have hresolved : (d.scopeIn files).resolve? SymbolKind.isMessage user name = some x := by
    unfold Scope.resolve at hx
    split at hx
    · next hsome => exact hsome.trans (congrArg some (Except.ok.inj hx))
    · cases hx
  obtain ⟨hmem, hkind⟩ := Scope.of_resolve? hresolved
  obtain ⟨declaring, hdeclaring, hmem⟩ := List.mem_flatMap.1 hmem
  obtain ⟨hfile, names, hnames, hname⟩ := exists_of_mem_symbols hmem hkind
  split at h
  · next file hfind =>
    obtain rfl := Except.ok.inj h
    have hfound : file = declaring :=
      List.inj_on_of_nodup_map hfiles (List.mem_of_find?_eq_some hfind) hdeclaring
        (by simpa [hfile] using List.find?_some hfind)
    exact ⟨declaring, hdeclaring, names, hnames, by rw [hname, hfound]⟩
  · cases h

theorem nodup_of_check {files : List FileDescriptor} (h : Pool.check files = .ok ()) :
    (files.map (·.name)).Nodup := by
  obtain ⟨u, hrefuse, -⟩ := bind_eq_ok.1 h
  unfold refuse at hrefuse
  split at hrefuse
  · cases hrefuse
  · next hnone => exact nodup_of_firstDuplicate hnone

/-- So are the types of all linked methods. -/
theorem exists_of_mem_methods {sent : List FileDescriptor} {p : Pool}
    (h : Pool.link sent = .ok p) {f : File} (hf : f ∈ p.files) {s : Service}
    (hs : s ∈ f.services) {m : Method} (hm : m ∈ s.methods) :
    ∀ t ∈ [m.input, m.output], ∃ g ∈ p.files, ∃ names ∈ chainsOfAll g.descriptor.messages,
      t = ⟨fullName g.descriptor.package names, g.descriptor⟩ := by
  obtain ⟨known, settled, hcheck, -, hsettled, -, hlinked⟩ := exists_settled_of_link h
  have hnodup : (settled.map (·.name)).Nodup := by
    rw [map_eq_map_of_mapM (fun _ _ hd => (FileDescriptor.services_settled hd).1) hsettled]
    exact nodup_of_check hcheck
  obtain ⟨d, -, hfile⟩ := exists_of_mem_right hlinked hf
  obtain ⟨sd, -, hservice⟩ := exists_of_mem_right hfile.services hs
  obtain ⟨md, -, hmethod⟩ := exists_of_mem_right hservice.methods hm
  have htype {user name : String} {t : MessageRef}
      (ht : (d.scopeIn settled).messageRef settled user name = .ok t) :
      ∃ g ∈ p.files, ∃ names ∈ chainsOfAll g.descriptor.messages,
        t = ⟨fullName g.descriptor.package names, g.descriptor⟩ := by
    obtain ⟨file, hmem, hnames⟩ := exists_of_messageRef hnodup ht
    obtain ⟨g, hg, hlink⟩ := exists_of_mem_left hlinked hmem
    exact ⟨g, hg, hlink.descriptor ▸ hnames⟩
  simp only [List.forall_mem_cons, List.not_mem_nil, false_implies, implies_true, and_true]
  exact ⟨htype hmethod.input, htype hmethod.output⟩

end TemporalBindings.Schema

namespace TemporalBindings.Bindings

open Plugin Schema Source Text Wire

/-! ## Identifiers of messages -/

/-- What is behind the package in a full name are the names below it. -/
theorem relativeName_fullName (package : String) {names : List String} (hnames : names ≠ []) :
    relativeName package (fullName package names) =
      ".".intercalate (namesBelow package names) := by
  by_cases hpackage : package = ""
  · rw [relativeName, if_pos hpackage, hpackage, fullName_empty, namesBelow, if_pos rfl]
  · have hstrip : stripStart? (package.toList ++ ['.']) (fullName package names).toList =
        some (".".intercalate names).toList := by
      rw [stripStart?_eq_some_iff, fullName_of_ne hpackage hnames, String.toList_append,
        String.toList_append]
      rfl
    rw [relativeName, if_neg hpackage, hstrip, namesBelow, if_neg hpackage]
    exact String.ofList_toList

theorem namesBelow_of_isSchemaIdentifier (package : String) {names : List String}
    (h : ∀ name ∈ names, IsSchemaIdentifier name) : namesBelow package names = names := by
  unfold namesBelow
  split
  · cases names with
    | nil => rfl
    | cons name names =>
      refine List.dropWhile_cons_of_neg ?_
      simpa using (h name List.mem_cons_self).ne_empty
  · rfl

/-- What the identifier of a message is made of that has a chain of names in a file. -/
structure HasExportedName (c : Parameter) (d : FileDescriptor) (names : List String) : Prop where
  /-- The package is found in front of the full name, which never stands for what is behind it. -/
  qualified : qualify d.package (relativeName d.package (fullName d.package names)) =
    fullName d.package names
  /-- What is behind the package are the names, with dots between them. -/
  relative : relativeName d.package (fullName d.package names) =
    ".".intercalate (namesBelow d.package names)
  /-- If the names are identifiers they are the segments of it. -/
  segments : (∀ name ∈ names, IsSchemaIdentifier name) →
    Source.segments (relativeName d.package (fullName d.package names)) = names
  /-- The identifier has the exported segments and the package of the file. -/
  ident : messageIdent c ⟨fullName d.package names, d⟩ = (packageOf c d).map
    (·.ident (exportAll (Source.segments (relativeName d.package (fullName d.package names)))))

theorem hasExportedName (c : Parameter) (d : FileDescriptor) {names : List String}
    (hnames : names ∈ chainsOfAll d.messages) : HasExportedName c d names := by
  have hne := ne_nil_of_mem_chainsOfAll d.messages hnames
  have hrelative := relativeName_fullName d.package hne
  refine ⟨?_, hrelative, fun hident => ?_, ?_⟩
  · rw [hrelative, fullName_eq _ hne]
  · rw [hrelative, namesBelow_of_isSchemaIdentifier _ hident]
    exact segments_intercalate (fun name hname => (hident name hname).dot_not_mem) hne
  · rw [messageIdent, ← camelCase_intercalate, intercalate_segments]
    cases packageOf c d <;> rfl

/-- A name with a dot is exported in two parts. So the identifier of a message has the exported
names of all messages around it and its own; and all types of methods are such messages. -/
theorem exportedNames_compose (c : Parameter) :
    (∀ s t : String, camelCase (s ++ "." ++ t) =
      camelCase s ++ (if startsLower t.toList then "" else "_") ++ camelCase t) ∧
    (∀ d : FileDescriptor, ∀ names ∈ chainsOfAll d.messages, HasExportedName c d names) ∧
    ∀ (r : Request) (p : Pool), poolOf r = .ok p →
      ∀ f ∈ p.files, ∀ s ∈ f.services, ∀ m ∈ s.methods, ∀ t ∈ [m.input, m.output],
        ∃ g ∈ p.files, ∃ names ∈ chainsOfAll g.descriptor.messages,
          t = ⟨fullName g.descriptor.package names, g.descriptor⟩ := by
  refine ⟨camelCase_append_dot, fun d _ hnames => hasExportedName c d hnames, ?_⟩
  intro r p h f hf s hs m hm
  obtain ⟨sent, -, hlink⟩ := exists_of_poolOf h
  exact exists_of_mem_methods hlink hf hs hm

/-! ## A request with nested messages -/

/-- A request for a file whose service uses a message that is three levels deep. -/
def nestedRequest : Request where
  files := ["a.proto"]
  descriptors :=
    [writeFields [stringField 1 "a.proto", stringField 2 "a.b",
      .bytes 4 (writeFields [stringField 1 "Outer",
        .bytes 3 (writeFields [stringField 1 "inner",
          .bytes 3 (writeFields [stringField 1 "Leaf"])])]),
      .bytes 6 (writeFields [stringField 1 "Foo",
        .bytes 2 (writeFields [stringField 1 "Bar", stringField 2 ".a.b.Outer.inner.Leaf",
          stringField 3 "Outer"])]),
      .bytes 8 (writeFields [stringField 11 "example.com/x"])]]

theorem exportedNames_compose_nestedRequest :
    ∃ p, poolOf nestedRequest = .ok p ∧
      (∃ f ∈ p.files, ["Outer", "inner", "Leaf"] ∈ chainsOfAll f.descriptor.messages ∧
        messageIdent {} ⟨"a.b.Outer.inner.Leaf", f.descriptor⟩ =
          .ok ⟨"OuterInner_Leaf", ⟨"example.com/x", "x"⟩⟩) ∧
      ∀ f ∈ p.files, ∀ s ∈ f.services, ∀ m ∈ s.methods, ∀ t ∈ [m.input, m.output],
        ∃ g ∈ p.files, ∃ names ∈ chainsOfAll g.descriptor.messages,
          t = ⟨fullName g.descriptor.package names, g.descriptor⟩ := by
  have hfacts : (poolOf nestedRequest).map (fun p => p.files.map fun f =>
      (f.descriptor.package, chainsOfAll f.descriptor.messages,
        (packageOf {} f.descriptor).toOption)) =
      .ok [("a.b", [["Outer"], ["Outer", "inner"], ["Outer", "inner", "Leaf"]],
        some ⟨"example.com/x", "x"⟩)] := by
    decide +kernel
  cases hp : poolOf nestedRequest with
  | error e =>
    rw [hp] at hfacts
    cases hfacts
  | ok p =>
    rw [hp] at hfacts
    obtain ⟨f, rest, hfiles, hf, -⟩ := List.map_eq_cons_iff.1 (Except.ok.inj hfacts)
    obtain ⟨hpackage, hfacts⟩ := Prod.mk.inj hf
    obtain ⟨hchains, hgo⟩ := Prod.mk.inj hfacts
    have hmem : f ∈ p.files := hfiles ▸ List.mem_cons_self
    have hnames : ["Outer", "inner", "Leaf"] ∈ chainsOfAll f.descriptor.messages := by
      rw [hchains]
      decide
    obtain ⟨-, hnamed, htypes⟩ := exportedNames_compose {}
    have hexported := hnamed f.descriptor _ hnames
    have hident := hexported.ident
    rw [hexported.segments (by decide +kernel), hpackage] at hident
    have hok : packageOf {} f.descriptor = .ok ⟨"example.com/x", "x"⟩ := by
      cases hresult : packageOf {} f.descriptor with
      | error e =>
        rw [hresult] at hgo
        cases hgo
      | ok package =>
        rw [hresult] at hgo
        exact congrArg Except.ok (Option.some.inj hgo)
    have hfull : fullName "a.b" ["Outer", "inner", "Leaf"] = "a.b.Outer.inner.Leaf" := by decide
    have hall : exportAll ["Outer", "inner", "Leaf"] = "OuterInner_Leaf" := by decide
    rw [hfull, hok, hall] at hident
    exact ⟨p, rfl, ⟨f, hmem, hnames, hident⟩, htypes nestedRequest p hp⟩

end TemporalBindings.Bindings
