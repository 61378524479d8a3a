import Mathlib.Logic.Relation
import TemporalBindings.Proofs.Marked

/-!
# TemporalBindings.Proofs.Mirrored

Loaded files as mirror images of descriptors. Services and methods are those of the descriptor
that was sent, in its order, and comments are looked up by the paths of the elements:

```
[12]            the syntax
[2]             the package
[6, i]          the service of index i
[6, i, 2, j]    its method of index j
```

The first location with exactly such a path has the comments. Nothing else in the list of
locations matters: it may have other paths, paths that have occurred, and any order of those
that differ.
-/

namespace TemporalBindings.Schema

/-! ## Moved locations -/

variable (g : String → List Location → List Location)

/-- A file with other locations, which depend on its name. -/
def FileDescriptor.relocated (d : FileDescriptor) : FileDescriptor :=
  { d with locations := g d.name d.locations }

/-- A message type in a file with other locations. -/
def MessageRef.relocated (m : MessageRef) : MessageRef :=
  { m with file := m.file.relocated g }

/-- A method whose types are in files with other locations. -/
def Method.relocated (m : Method) : Method :=
  { m with input := m.input.relocated g, output := m.output.relocated g }

/-- A service with such methods. -/
def Service.relocated (s : Service) : Service :=
  { s with methods := s.methods.map (·.relocated g) }

/-- A linked file with other locations. -/
def File.relocated (f : File) : File :=
  ⟨f.descriptor.relocated g, f.services.map (·.relocated g)⟩

/-- Linked files with other locations. -/
def Pool.relocated (p : Pool) : Pool :=
  { p with files := p.files.map (·.relocated g) }

theorem Pool.file?_relocated (p : Pool) (name : String) :
    (p.relocated g).file? name = (p.file? name).map (·.relocated g) :=
  List.find?_map

end TemporalBindings.Schema

namespace TemporalBindings.Bindings

open Plugin Report Schema Source Wire

/-! ## Comments -/

/-- The comments at a path in a list of locations: those of the first location that has exactly
this path, and none if no location has. -/
inductive AreCommentsAt (path : List Int32) : List Location → Comments → Prop
  | first {before after : List Location} {l : Location} (hbefore : ∀ x ∈ before, x.path ≠ path)
      (hl : l.path = path) :
      AreCommentsAt path (before ++ l :: after)
        ⟨l.detached, l.leading.getD "", l.trailing.getD ""⟩
  | none {locations : List Location} (h : ∀ l ∈ locations, l.path ≠ path) :
      AreCommentsAt path locations ⟨[], "", ""⟩

theorem areCommentsAt_commentsAt (locations : List Location) (path : List Int32) :
    AreCommentsAt path locations (commentsAt locations path) := by
  rw [commentsAt]
  cases hfind : locations.find? (·.path = path) with
  | none =>
    exact .none fun l hl => by simpa using List.find?_eq_none.1 hfind l hl
  | some l =>
    obtain ⟨hl, before, after, rfl, hbefore⟩ := List.find?_eq_some_iff_append.1 hfind
    exact .first (fun x hx => by simpa using hbefore x hx) (by simpa using hl)

/-! ## Linked files -/

theorem map_eq_map_of_forall₂ {α β γ : Type} {g : α → γ} {g' : β → γ} {xs : List α} {ys : List β}
    (h : List.Forall₂ (fun x y => g' y = g x) xs ys) : ys.map g' = xs.map g := by
  induction h with
  | nil => rfl
  | cons hxy _ ih => rw [List.map_cons, List.map_cons, hxy, ih]

/-- Whether a linked service has the descriptor and the methods of one in a package. -/
def IsServiceOf (package : String) (d : ServiceDescriptor) (s : Schema.Service) : Prop :=
  s.descriptor = d ∧ s.name = qualify package d.name ∧ s.methods.map (·.descriptor) = d.methods

/-- Whether the services of a linked file are those of its descriptor. -/
def IsLinked (f : Schema.File) : Prop :=
  List.Forall₂ (IsServiceOf f.descriptor.package) f.descriptor.services f.services

theorem isLinked_of_isLinkOf {files : List FileDescriptor} {types : Types} {d : FileDescriptor}
    {f : Schema.File} (h : f.IsLinkOf files types d) : IsLinked f := by
  unfold IsLinked
  rw [h.descriptor]
  refine h.services.imp fun sd s hs => ⟨hs.descriptor, hs.name, ?_⟩
  have hdescriptors := hs.methods.imp fun md m hm => hm.descriptor
  rw [map_eq_map_of_forall₂ (g := fun md => md) hdescriptors, List.map_id']

/-- Linked files come one by one from those that were sent, and differ from them in options
only. -/
theorem isLinked_of_link {files : List FileDescriptor} {p : Pool} (h : Pool.link files = .ok p) :
    List.Forall₂ (fun d (f : Schema.File) => IsLinked f ∧
      f.descriptor.withoutOptions = d.withoutOptions) files p.files := by
  obtain ⟨known, settled, -, -, hsettled, -, hlinked⟩ := exists_settled_of_link h
  refine (forall₂_comp (mapM_eq_ok.1 hsettled) hlinked).imp ?_
  rintro d f ⟨d', hd, hf⟩
  exact ⟨isLinked_of_isLinkOf hf, hf.descriptor ▸ FileDescriptor.withoutOptions_settled hd⟩

/-! ## Loaded files -/

/-- Whether a file has the services and methods of a descriptor, in its order, and the comments
at their paths. The numbers of a path have 32 bits. -/
structure File.Mirrors (f : File) (d : FileDescriptor) : Prop where
  path : f.path = d.name
  services : f.services.map (fun s => (s.fullName, s.name)) =
    d.services.map fun s => (qualify d.package s.name, camelCase s.name)
  methods : f.services.map (fun s => s.methods.map (·.name)) =
    d.services.map fun s => s.methods.map fun m => camelCase m.name
  syntaxComments : AreCommentsAt [12] d.locations f.syntaxComments
  packageComments : AreCommentsAt [2] d.locations f.packageComments
  serviceComments : ∀ i s, f.services[i]? = some s →
    AreCommentsAt [6, Int32.ofNat i] d.locations s.comments
  methodComments : ∀ i s j m, f.services[i]? = some s → s.methods[j]? = some m →
    AreCommentsAt [6, Int32.ofNat i, 2, Int32.ofNat j] d.locations m.comments

/-- Steps for the elements of a list and their indices have their results at the same index. -/
theorem exists_of_getElem?_zipIdx {α β : Type} {R : α × Nat → β → Prop} {xs : List α} {ys : List β}
    (h : List.Forall₂ R xs.zipIdx ys) {i : Nat} {y : β} (hy : ys[i]? = some y) :
    ∃ x, xs[i]? = some x ∧ R (x, i) y := by
  obtain ⟨hi, rfl⟩ := List.getElem?_eq_some_iff.1 hy
  have hlength := h.length_eq
  rw [List.length_zipIdx] at hlength
  have hget := h.get (i := i) (by rwa [List.length_zipIdx, hlength]) hi
  refine ⟨xs[i], List.getElem?_eq_getElem (hlength ▸ hi), ?_⟩
  simpa using hget

variable {p : Pool} {c : Parameter}

/-- Whether a service is loaded from a linked one of an index. -/
structure Service.Reflects (loaded : Service) (s : Schema.Service) (locations : List Location)
    (index : Nat) : Prop where
  fullName : loaded.fullName = s.name
  name : loaded.name = camelCase s.descriptor.name
  methods : loaded.methods.map (·.name) = s.methods.map fun m => camelCase m.descriptor.name
  comments : loaded.comments = commentsAt locations (servicePath index)
  methodComments : ∀ (j : Nat) m, loaded.methods[j]? = some m →
    m.comments = commentsAt locations (methodPath index j)

theorem reflects_of_loadService {locations : List Location} {s : Schema.Service} {index : Nat}
    {loaded : Service} (h : (loadService p c locations s index).result = .ok loaded) :
    loaded.Reflects s locations index := by
  simp only [loadService, result_bind_eq_ok, result_pure, result_mapM_eq_ok, Except.ok.injEq] at h
  obtain ⟨worker, -, methods, hmethods, rfl⟩ := h
  have hmethod (m : Schema.Method) (comments : Comments) (loaded : Method)
      (hm : (loadMethod p c comments m).result = .ok loaded) :
      loaded.name = camelCase m.descriptor.name ∧ loaded.comments = comments := by
    simp only [loadMethod, result_bind_eq_ok, result_pure, Except.ok.injEq] at hm
    obtain ⟨input, -, output, -, rfl⟩ := hm
    exact ⟨rfl, rfl⟩
  refine ⟨rfl, rfl, ?_, rfl, fun j m hm => ?_⟩
  · have hnames : List.Forall₂ (fun (m : Schema.Method) (loaded : Method) =>
        loaded.name = camelCase m.descriptor.name) s.methods methods :=
      forall₂_of_zipIdx (fun m _ loaded hm => (hmethod m _ loaded hm).1) hmethods
    exact map_eq_map_of_forall₂ hnames
  · obtain ⟨linked, -, hlinked⟩ := exists_of_getElem?_zipIdx hmethods hm
    exact (hmethod linked _ m hlinked).2

/-- A file that is loaded from a linked one mirrors its descriptor. -/
theorem mirrors_of_loadFile {linked : Schema.File} {f : File} (hlinked : IsLinked linked)
    (h : (loadFile p c linked).result = .ok f) : f.Mirrors linked.descriptor := by
  simp only [loadFile, result_bind_eq_ok, result_ofExcept, result_pure, result_mapM_eq_ok,
    Except.ok.injEq] at h
  obtain ⟨package, -, stem, -, services, hservices, rfl⟩ := h
  have hreflects : List.Forall₂ (fun (s : Schema.Service × Nat) (loaded : Service) =>
      loaded.Reflects s.1 linked.descriptor.locations s.2) linked.services.zipIdx services :=
    hservices.imp fun _ _ hs => reflects_of_loadService hs
  have hloaded : List.Forall₂ (fun (s : Schema.Service) (loaded : Service) =>
      ∃ i, loaded.Reflects s linked.descriptor.locations i) linked.services services :=
    forall₂_of_zipIdx (fun s i loaded hs => ⟨i, hs⟩) hreflects
  refine ⟨rfl, ?_, ?_, areCommentsAt_commentsAt .., areCommentsAt_commentsAt .., ?_, ?_⟩
  · refine map_eq_map_of_forall₂ ((forall₂_comp hlinked hloaded).imp ?_)
    rintro sd loaded ⟨s, ⟨hdescriptor, hname, -⟩, i, hs⟩
    rw [hs.fullName, hs.name, hname, hdescriptor]
  · refine map_eq_map_of_forall₂ ((forall₂_comp hlinked hloaded).imp ?_)
    rintro sd loaded ⟨s, ⟨-, -, hmethods⟩, i, hs⟩
    rw [hs.methods, ← hmethods, List.map_map]
    rfl
  · intro i loaded hloaded
    obtain ⟨s, -, hs⟩ := exists_of_getElem?_zipIdx hreflects hloaded
    rw [hs.comments]
    exact areCommentsAt_commentsAt ..
  · intro i loaded j m hloaded hm
    obtain ⟨s, -, hs⟩ := exists_of_getElem?_zipIdx hreflects hloaded
    rw [hs.methodComments j m hm]
    exact areCommentsAt_commentsAt ..

/-- What a file mirrors of a descriptor is not in its options. -/
theorem File.Mirrors.of_withoutOptions {f : File} {d d' : FileDescriptor} (h : f.Mirrors d')
    (hd : d'.withoutOptions = d.withoutOptions) : f.Mirrors d := by
  have hname : d'.name = d.name := (congrArg FileDescriptor.name hd :)
  have hpackage : d'.package = d.package := (congrArg FileDescriptor.package hd :)
  have hlocations : d'.locations = d.locations := (congrArg FileDescriptor.locations hd :)
  have hservices : d'.services.map (·.withoutOptions) = d.services.map (·.withoutOptions) :=
    (congrArg FileDescriptor.services hd :)
  have hsame {α : Type} (g : ServiceDescriptor → α) (hg : ∀ s, g s.withoutOptions = g s) :
      d'.services.map g = d.services.map g := by
    have hmap := congrArg (List.map g) hservices
    have hcomp : g ∘ (·.withoutOptions) = g := funext hg
    rwa [List.map_map, List.map_map, hcomp] at hmap
  refine ⟨h.path.trans hname, ?_, ?_, hlocations ▸ h.syntaxComments, hlocations ▸ h.packageComments,
    hlocations ▸ h.serviceComments, hlocations ▸ h.methodComments⟩
  · rw [h.services, hpackage]
    exact hsame _ fun _ => rfl
  · rw [h.methods]
    refine hsame _ fun s => ?_
    simp [ServiceDescriptor.withoutOptions, MethodDescriptor.withoutOptions]

/-! ## Locations that do not matter -/

/-- The paths of the elements of a file. -/
def elementPaths (f : Schema.File) : List (List Int32) :=
  syntaxPath :: packagePath :: f.services.zipIdx.flatMap fun (s, i) =>
    servicePath i :: s.methods.zipIdx.map fun (_, j) => methodPath i j

/-- One change to a list of locations that does not matter: one with another path than those of
elements is left out, or one whose path has occurred, or two with different paths change
places. -/
inductive IsIdleChange (paths : List (List Int32)) : List Location → List Location → Prop
  | other {before after : List Location} {l : Location} (h : l.path ∉ paths) :
      IsIdleChange paths (before ++ l :: after) (before ++ after)
  | later {before after : List Location} {l : Location} (h : ∃ x ∈ before, x.path = l.path) :
      IsIdleChange paths (before ++ l :: after) (before ++ after)
  | swapped {before after : List Location} {l l' : Location} (h : l.path ≠ l'.path) :
      IsIdleChange paths (before ++ l :: l' :: after) (before ++ l' :: l :: after)

/-- Such a change keeps the comments of all elements. -/
theorem IsIdleChange.commentsAt_eq {paths : List (List Int32)} {ls ls' : List Location}
    (h : IsIdleChange paths ls ls') {path : List Int32} (hpath : path ∈ paths) :
    commentsAt ls path = commentsAt ls' path := by
  have hfind : ls.find? (·.path = path) = ls'.find? (·.path = path) := by
    cases h with
    | @other before after l hother =>
      have hne : l.path ≠ path := fun heq => hother (heq ▸ hpath)
      rw [List.find?_append, List.find?_append, List.find?_cons_of_neg (by simpa using hne)]
    | @later before after l hlater =>
      rw [List.find?_append, List.find?_append]
      by_cases heq : l.path = path
      · obtain ⟨x, hx, hsame⟩ := hlater
        have hsome : (before.find? (·.path = path)).isSome = true :=
          List.find?_isSome.2 ⟨x, hx, by simp [hsame, heq]⟩
        obtain ⟨y, hy⟩ := Option.isSome_iff_exists.1 hsome
        rw [hy, Option.some_or, Option.some_or]
      · rw [List.find?_cons_of_neg (by simpa using heq)]
    | @swapped before after l l' hne =>
      rw [List.find?_append, List.find?_append]
      by_cases heq : l.path = path
      · have hne' : l'.path ≠ path := fun heq' => hne (heq.trans heq'.symm)
        simp [heq, hne']
      · rw [List.find?_cons_of_neg (by simpa using heq), List.find?_cons, List.find?_cons]
        simp [heq]
  rw [commentsAt, hfind, commentsAt]

/-- So do any number of them, in either direction. -/
theorem commentsAt_eq_of_eqvGen {paths : List (List Int32)} {ls ls' : List Location}
    (h : Relation.EqvGen (IsIdleChange paths) ls ls') {path : List Int32} (hpath : path ∈ paths) :
    commentsAt ls path = commentsAt ls' path := by
  induction h with
  | rel _ _ hchange => exact hchange.commentsAt_eq hpath
  | refl _ => rfl
  | symm _ _ _ ih => exact ih.symm
  | trans _ _ _ _ _ ih ih' => exact ih.trans ih'

/-! ## Loading with moved locations -/

theorem mapM_congr {α β : Type} {step step' : α → Report β} {xs : List α}
    (h : ∀ x ∈ xs, step x = step' x) : xs.mapM step = xs.mapM step' := by
  induction xs with
  | nil => rfl
  | cons x xs ih =>
    rw [List.forall_mem_cons] at h
    rw [List.mapM_cons, List.mapM_cons, h.1, ih h.2]

variable (g : String → List Location → List Location)

/-- No step for a method reads locations. -/
theorem loadMethod_relocated (p : Pool) (c : Parameter) (comments : Comments) (m : Schema.Method) :
    loadMethod (p.relocated g) c comments (m.relocated g) = loadMethod p c comments m :=
  rfl

/-- The steps for a service read the comments of its elements only. -/
theorem loadService_relocated {s : Schema.Service} {index : Nat} {ls ls' : List Location}
    (hservice : commentsAt ls (servicePath index) = commentsAt ls' (servicePath index))
    (hmethods : ∀ j < s.methods.length,
      commentsAt ls (methodPath index j) = commentsAt ls' (methodPath index j))
    (p : Pool) (c : Parameter) :
    loadService (p.relocated g) c ls' (s.relocated g) index = loadService p c ls s index := by
  have hsteps : ((s.methods.map (·.relocated g)).zipIdx.mapM fun (m, i) =>
        loadMethod (p.relocated g) c (commentsAt ls' (methodPath index i)) m) =
      s.methods.zipIdx.mapM fun (m, i) =>
        loadMethod p c (commentsAt ls (methodPath index i)) m := by
    rw [List.zipIdx_map, List.mapM_map]
    refine mapM_congr fun (m, i) hm => ?_
    have hi : i < s.methods.length := by
      simpa using List.snd_lt_of_mem_zipIdx hm
    exact (loadMethod_relocated g p c _ m).trans
      (congrArg (loadMethod p c · m) (hmethods i hi).symm)
  simp only [loadService, Service.relocated, hsteps, hservice]
  rfl

theorem servicePath_mem_elementPaths {f : Schema.File} {s : Schema.Service} {i : Nat}
    (hs : (s, i) ∈ f.services.zipIdx) : servicePath i ∈ elementPaths f :=
  List.mem_cons_of_mem _ <| List.mem_cons_of_mem _ <|
    List.mem_flatMap.2 ⟨(s, i), hs, List.mem_cons_self⟩

theorem methodPath_mem_elementPaths {f : Schema.File} {s : Schema.Service} {i j : Nat}
    (hs : (s, i) ∈ f.services.zipIdx) (hj : j < s.methods.length) :
    methodPath i j ∈ elementPaths f := by
  refine List.mem_cons_of_mem _ (List.mem_cons_of_mem _ (List.mem_flatMap.2 ⟨(s, i), hs, ?_⟩))
  refine List.mem_cons_of_mem _ (List.mem_map.2 ⟨(s.methods[j], j), ?_, rfl⟩)
  exact List.mem_zipIdx_iff_getElem?.2 (List.getElem?_eq_getElem hj)

/-- A file is loaded in the same way as long as its elements keep their comments. -/
theorem loadFile_relocated {f : Schema.File}
    (h : ∀ path ∈ elementPaths f, commentsAt f.descriptor.locations path =
      commentsAt (g f.descriptor.name f.descriptor.locations) path) (p : Pool) (c : Parameter) :
    loadFile (p.relocated g) c (f.relocated g) = loadFile p c f := by
  have hsteps : ((f.services.map (·.relocated g)).zipIdx.mapM fun (s, i) =>
        loadService (p.relocated g) c (g f.descriptor.name f.descriptor.locations) s i) =
      f.services.zipIdx.mapM fun (s, i) => loadService p c f.descriptor.locations s i := by
    rw [List.zipIdx_map, List.mapM_map]
    refine mapM_congr fun (s, i) hs => ?_
    exact loadService_relocated g (h _ (servicePath_mem_elementPaths hs))
      (fun j hj => h _ (methodPath_mem_elementPaths hs hj)) p c
  have hsyntax := h syntaxPath List.mem_cons_self
  have hpackage := h packagePath (List.mem_cons_of_mem _ List.mem_cons_self)
  simp only [loadFile, Schema.File.relocated, FileDescriptor.relocated, hsteps, hsyntax, hpackage]
  rfl

/-! ## Mirrored files -/

/-- A loaded file mirrors the descriptor of its name that was sent, and changes to locations
that do not matter change nothing. -/
theorem mirrors_of_loadNamed {r : Request} {p : Pool} {c : Parameter} {name : String} {f : File}
    (hp : poolOf r = .ok p) (hf : (loadNamed p c name).result = .ok f) :
    (∃ sent, r.descriptors.mapM FileDescriptor.read = some sent ∧
      ∃ d ∈ sent, d.name = name ∧ f.Mirrors d) ∧
    ∃ linked, p.file? name = some linked ∧ ∀ g : String → List Location → List Location,
      Relation.EqvGen (IsIdleChange (elementPaths linked)) linked.descriptor.locations
        (g name linked.descriptor.locations) →
      loadNamed (p.relocated g) c name = loadNamed p c name := by
  obtain ⟨sent, hsent, hlink⟩ := exists_of_poolOf hp
  have hname := (exists_of_loadNamed hf).1
  cases hfile : p.file? name with
  | none => simp [loadNamed, hfile, Report.ofExcept] at hf
  | some linked =>
    have hload : loadNamed p c name = loadFile p c linked := by rw [loadNamed, hfile]
    refine ⟨⟨sent, hsent, ?_⟩, linked, rfl, fun g hg => ?_⟩
    · obtain ⟨d, hd, hlinked, hsame⟩ :=
        exists_of_mem_right (isLinked_of_link hlink) (List.mem_of_find?_eq_some hfile)
      have hmirrors := (mirrors_of_loadFile hlinked (hload ▸ hf)).of_withoutOptions hsame
      exact ⟨d, hd, hmirrors.path.symm.trans hname, hmirrors⟩
    · have hnamed : linked.descriptor.name = name := by simpa using List.find?_some hfile
      have hrelocated := Pool.file?_relocated g p name
      rw [hfile, Option.map_some] at hrelocated
      rw [loadNamed, hrelocated, hload]
      refine loadFile_relocated g (fun path hpath => ?_) p c
      rw [hnamed]
      exact commentsAt_eq_of_eqvGen hg hpath

/-- Paths of elements begin with one of three numbers. -/
theorem head?_of_mem_elementPaths {f : Schema.File} {path : List Int32} (h : path ∈ elementPaths f) :
    path.head? = some 12 ∨ path.head? = some 2 ∨ path.head? = some 6 := by
  obtain rfl | h := List.mem_cons.1 h
  · exact .inl rfl
  obtain rfl | h := List.mem_cons.1 h
  · exact .inr (.inl rfl)
  obtain ⟨⟨s, i⟩, -, h⟩ := List.mem_flatMap.1 h
  obtain rfl | h := List.mem_cons.1 h
  · exact .inr (.inr rfl)
  · obtain ⟨⟨m, j⟩, -, rfl⟩ := List.mem_map.1 h
    exact .inr (.inr rfl)

/-- A file with a service of two methods. The second method has comments, at two locations of
one path. -/
def commentedRequest : Request where
  files := ["a.proto"]
  descriptors := [writeFields
    [stringField 1 "a.proto", stringField 2 "p", .bytes 4 (writeFields [stringField 1 "M"]),
     .bytes 6 (writeFields [stringField 1 "S",
       .bytes 2 (writeFields [stringField 1 "Run", stringField 2 ".p.M", stringField 3 ".p.M"]),
       .bytes 2 (writeFields [stringField 1 "Stop", stringField 2 ".p.M", stringField 3 ".p.M"])]),
     .bytes 8 (writeFields [stringField 11 "example.com/a"]),
     .bytes 9 (writeFields
       [.bytes 1 (writeFields [.bytes 1 [6, 0, 2, 1], stringField 3 " Stops.\n"]),
        .bytes 1 (writeFields [.bytes 1 [6, 0, 2, 1], stringField 3 " shadowed\n"])]),
     stringField 12 "proto3"]]

/-- Comments on a message of the file make no difference. -/
theorem mirrors_commentedRequest : ∃ p f, poolOf commentedRequest = .ok p ∧
    (loadNamed p {} "a.proto").result = .ok f ∧
    f.services.map (fun s => s.methods.map (·.comments.leading)) = [["", " Stops.\n"]] ∧
    (∃ sent, commentedRequest.descriptors.mapM FileDescriptor.read = some sent ∧
      ∃ d ∈ sent, d.name = "a.proto" ∧ f.Mirrors d) ∧
    loadNamed (p.relocated fun _ ls => ls ++ [⟨[4, 0], some " a message\n", none, []⟩]) {}
      "a.proto" = loadNamed p {} "a.proto" := by
  have hok : ((poolOf commentedRequest).bind fun p => (loadNamed p {} "a.proto").result.map
      fun f => f.services.map fun s => s.methods.map (·.comments.leading)) =
        .ok [["", " Stops.\n"]] := by
    decide +kernel
  cases hp : poolOf commentedRequest with
  | error e =>
    rw [hp] at hok
    cases hok
  | ok p =>
    rw [hp] at hok
    cases hf : (loadNamed p {} "a.proto").result with
    | error e =>
      rw [Except.bind, hf] at hok
      cases hok
    | ok f =>
      rw [Except.bind, hf] at hok
      obtain ⟨hmirrors, linked, -, hidle⟩ := mirrors_of_loadNamed hp hf
      refine ⟨p, f, rfl, hf, Except.ok.inj hok, hmirrors, hidle _ (.symm _ _ (.rel _ _ ?_))⟩
      have hchange : IsIdleChange (elementPaths linked)
          (linked.descriptor.locations ++ [⟨[4, 0], some " a message\n", none, []⟩])
          (linked.descriptor.locations ++ []) :=
        .other fun hmem => absurd (head?_of_mem_elementPaths hmem) (by decide)
      rwa [List.append_nil] at hchange

end TemporalBindings.Bindings
