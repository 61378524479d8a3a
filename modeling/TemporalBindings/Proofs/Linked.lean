import TemporalBindings.Proofs.WithoutOptions

/-!
# TemporalBindings.Proofs.Linked

Where linked descriptors come from. Linking settles the options of the descriptors, declares
the types anew and links what it has, all of it element by element, so that every linked file,
service and method goes back to one that was sent:

```
sent descriptor      settled with the types that the sent ones declare
settled descriptor   linked with the types that the settled ones declare
```
-/

namespace TemporalBindings.Schema

/-! ## Lists of the same length -/

theorem forall₂_comp {α β γ : Type} {R : α → β → Prop} {S : β → γ → Prop} {xs : List α}
    {ys : List β} {zs : List γ} (h : List.Forall₂ R xs ys) (h' : List.Forall₂ S ys zs) :
    List.Forall₂ (fun x z => ∃ y, R x y ∧ S y z) xs zs := by
  induction h generalizing zs with
  | nil =>
    cases h'
    exact .nil
  | cons hxy _ ih =>
    obtain ⟨z, zs, hyz, hzs, rfl⟩ := List.forall₂_cons_left_iff.1 h'
    exact .cons ⟨_, hxy, hyz⟩ (ih hzs)

theorem exists_of_mem_left {α β : Type} {R : α → β → Prop} {xs : List α} {ys : List β} {x : α}
    (h : List.Forall₂ R xs ys) (hx : x ∈ xs) : ∃ y ∈ ys, R x y := by
  induction h with
  | nil => cases hx
  | @cons x' y xs ys hxy _ ih =>
    obtain rfl | hx := List.mem_cons.1 hx
    · exact ⟨y, List.mem_cons_self .., hxy⟩
    · obtain ⟨z, hz, hxz⟩ := ih hx
      exact ⟨z, List.mem_cons_of_mem y hz, hxz⟩

theorem exists_of_mem_right {α β : Type} {R : α → β → Prop} {xs : List α} {ys : List β} {y : β}
    (h : List.Forall₂ R xs ys) (hy : y ∈ ys) : ∃ x ∈ xs, R x y :=
  exists_of_mem_left h.flip hy

/-! ## Linking -/

/-- What linking makes of a method: its types are what their names mean in a scope. -/
structure Method.IsLinkOf (files : List FileDescriptor) (types : Types) (scope : Scope)
    (service : String) (m : Method) (d : MethodDescriptor) : Prop where
  descriptor : m.descriptor = d
  name : m.name = qualify service d.name
  input : scope.messageRef files m.name d.input = .ok m.input
  output : scope.messageRef files m.name d.output = .ok m.output
  options : types.readOptions m.name d.options = .ok m.options

/-- What linking makes of a service of a file. -/
structure Service.IsLinkOf (files : List FileDescriptor) (types : Types) (file : FileDescriptor)
    (s : Service) (d : ServiceDescriptor) : Prop where
  descriptor : s.descriptor = d
  name : s.name = qualify file.package d.name
  methods : List.Forall₂
    (fun md m => Method.IsLinkOf files types (file.scopeIn files) s.name m md) d.methods s.methods

/-- What linking makes of a file. -/
structure File.IsLinkOf (files : List FileDescriptor) (types : Types) (f : File)
    (d : FileDescriptor) : Prop where
  descriptor : f.descriptor = d
  services : List.Forall₂ (fun sd s => Service.IsLinkOf files types d s sd) d.services f.services

theorem isLinkOf_of_linkServices {files : List FileDescriptor} {types : Types} {d : FileDescriptor}
    {services : List Service} (h : Pool.linkServices files types d = .ok services) :
    File.IsLinkOf files types ⟨d, services⟩ d := by
  refine ⟨rfl, (mapM_eq_ok.1 h).imp fun sd s hs => ?_⟩
  obtain ⟨options, -, hs⟩ := bind_eq_ok.1 hs
  obtain ⟨methods, hmethods, ⟨⟩⟩ := bind_eq_ok.1 hs
  refine ⟨rfl, rfl, (mapM_eq_ok.1 hmethods).imp fun md m hm => ?_⟩
  obtain ⟨input, hinput, hm⟩ := bind_eq_ok.1 hm
  obtain ⟨output, houtput, hm⟩ := bind_eq_ok.1 hm
  obtain ⟨read, hread, ⟨⟩⟩ := bind_eq_ok.1 hm
  exact ⟨rfl, rfl, hinput, houtput, hread⟩

/-- Linked files come from checked descriptors, settled with the types that these declare; the
types of the pool are declared by the settled ones. -/
theorem exists_settled_of_link {files : List FileDescriptor} {p : Pool}
    (h : Pool.link files = .ok p) :
    ∃ known settled, Pool.check files = .ok () ∧ declaredTypes files = .ok known ∧
      files.mapM (·.settled known) = .ok settled ∧ declaredTypes settled = .ok p.types ∧
      List.Forall₂ (fun d f => File.IsLinkOf settled p.types f d) settled p.files := by
  obtain ⟨⟨⟩, hcheck, h⟩ := bind_eq_ok.1 h
  obtain ⟨known, hknown, h⟩ := bind_eq_ok.1 h
  obtain ⟨settled, hsettled, h⟩ := bind_eq_ok.1 h
  obtain ⟨final, hfinal, h⟩ := bind_eq_ok.1 h
  obtain ⟨linked, hlinked, ⟨⟩⟩ := bind_eq_ok.1 h
  refine ⟨known, settled, hcheck, hknown, hsettled, hfinal, (mapM_eq_ok.1 hlinked).imp ?_⟩
  intro d f hf
  obtain ⟨services, hservices, ⟨⟩⟩ := bind_eq_ok.1 hf
  exact isLinkOf_of_linkServices hservices

/-! ## Linked methods -/

/-- A linked method comes from one that was sent: its options were settled with the types
known at first, and read with the final ones. -/
def Method.ComesFrom (known final : Types) (m : Method) (d : MethodDescriptor) : Prop :=
  ∃ o, known.settle d.name d.options = .ok o ∧ final.readOptions m.name o = .ok m.options

variable {known final : Types}

theorem MethodDescriptor.options_settled {d d' : MethodDescriptor}
    (h : d.settled known = .ok d') : known.settle d.name d.options = .ok d'.options := by
  obtain ⟨o, ho, ⟨⟩⟩ := bind_eq_ok.1 h
  exact ho

theorem ServiceDescriptor.methods_settled {d d' : ServiceDescriptor}
    (h : d.settled known = .ok d') : d.methods.mapM (·.settled known) = .ok d'.methods := by
  obtain ⟨o, -, h⟩ := bind_eq_ok.1 h
  obtain ⟨methods, hmethods, ⟨⟩⟩ := bind_eq_ok.1 h
  exact hmethods

theorem FileDescriptor.services_settled {d d' : FileDescriptor} (h : d.settled known = .ok d') :
    d'.name = d.name ∧ d.services.mapM (·.settled known) = .ok d'.services := by
  obtain ⟨o, -, h⟩ := bind_eq_ok.1 h
  obtain ⟨messages, -, h⟩ := bind_eq_ok.1 h
  obtain ⟨enums, -, h⟩ := bind_eq_ok.1 h
  obtain ⟨services, hservices, h⟩ := bind_eq_ok.1 h
  obtain ⟨extensions, -, ⟨⟩⟩ := bind_eq_ok.1 h
  exact ⟨rfl, hservices⟩

/-- The methods of a linked service come one by one from those of a descriptor. -/
def Service.ComesFrom (known final : Types) (s : Service) (d : ServiceDescriptor) : Prop :=
  List.Forall₂ (fun md m => Method.ComesFrom known final m md) d.methods s.methods

/-- The services of a linked file come one by one from those of a descriptor of its name. -/
structure File.ComesFrom (known final : Types) (f : File) (d : FileDescriptor) : Prop where
  name : f.descriptor.name = d.name
  services : List.Forall₂ (fun sd s => Service.ComesFrom known final s sd) d.services f.services

theorem File.IsLinkOf.comesFrom {files : List FileDescriptor} {d d' : FileDescriptor} {f : File}
    (h : f.IsLinkOf files final d') (hd : d.settled known = .ok d') :
    File.ComesFrom known final f d := by
  obtain ⟨hname, hservices⟩ := FileDescriptor.services_settled hd
  refine ⟨by rw [h.descriptor, hname], (forall₂_comp (mapM_eq_ok.1 hservices) h.services).imp ?_⟩
  rintro sd s ⟨sd', hsd, hs⟩
  have hmethods := mapM_eq_ok.1 (ServiceDescriptor.methods_settled hsd)
  refine (forall₂_comp hmethods hs.methods).imp ?_
  rintro md m ⟨md', hmd, hm⟩
  exact ⟨md'.options, MethodDescriptor.options_settled hmd, hm.options⟩

/-- Linked files come one by one from those that were sent, and their types are declared by
settled ones. -/
theorem exists_of_link {files : List FileDescriptor} {p : Pool} (h : Pool.link files = .ok p) :
    ∃ known settled, declaredTypes files = .ok known ∧ files.mapM (·.settled known) = .ok settled ∧
      declaredTypes settled = .ok p.types ∧
      List.Forall₂ (fun d f => File.ComesFrom known p.types f d) files p.files := by
  obtain ⟨known, settled, -, hknown, hsettled, hfinal, hlinked⟩ := exists_settled_of_link h
  refine ⟨known, settled, hknown, hsettled, hfinal, ?_⟩
  refine (forall₂_comp (mapM_eq_ok.1 hsettled) hlinked).imp ?_
  rintro d f ⟨d', hd, hf⟩
  exact hf.comesFrom hd

/-! ## Extensions -/

theorem exists_of_demand {condition : Bool} {flaw : Flaw} {u : Unit}
    (h : demand condition flaw = .ok u) : condition = true := by
  unfold demand at h
  split at h
  · next hcondition => exact hcondition
  · cases h

theorem Scope.of_extension {s : Scope} {messages : List (String × MessageDescriptor)}
    {proto3 : Bool} {scope : String} {d : FieldDescriptor} {x : Extension}
    (h : s.extension messages proto3 scope d = .ok x) :
    (∃ e ∈ messages, qualify e.1 e.2.name = x.extended) ∧
      x.field.explicit = !x.field.repeated ∧ x.field.oneof = none := by
  obtain ⟨⟨kind, default⟩, -, h⟩ := bind_eq_ok.1 h
  obtain ⟨extended, -, h⟩ := bind_eq_ok.1 h
  obtain ⟨u, hdemand, ⟨⟩⟩ := bind_eq_ok.1 h
  obtain ⟨e, he, hallows⟩ := List.any_eq_true.1 (exists_of_demand hdemand)
  exact ⟨⟨e, he, by simpa using (Bool.and_eq_true_iff.1 hallows).1⟩, rfl, rfl⟩

/-- An extension extends a message type that is declared, belongs to no oneof, and is present
where it is set unless it is repeated. -/
theorem of_mem_extensions {files : List FileDescriptor} {ts : Types} {x : Extension}
    (h : declaredTypes files = .ok ts) (hx : x ∈ ts.extensions) :
    (ts.message? x.extended).isSome ∧ x.field.explicit = !x.field.repeated ∧
      x.field.oneof = none := by
  obtain ⟨declared, hdeclared, ⟨⟩⟩ := bind_eq_ok.1 h
  have hdeclared := mapM_eq_ok.1 hdeclared
  obtain ⟨⟨types, extensions⟩, hmem, hx⟩ := List.mem_flatMap.1 hx
  obtain ⟨d, -, hd⟩ := exists_of_mem_right hdeclared hmem
  obtain ⟨types', -, hd⟩ := bind_eq_ok.1 hd
  obtain ⟨extensions', hextensions, ⟨⟩⟩ := bind_eq_ok.1 hd
  obtain ⟨y, -, hy⟩ := exists_of_mem_right (mapM_eq_ok.1 hextensions) hx
  obtain ⟨⟨e, he, hname⟩, hfield⟩ := Scope.of_extension hy
  refine ⟨?_, hfield⟩
  obtain ⟨d', hd', he⟩ := List.mem_flatMap.1 he
  obtain ⟨⟨messages, extensions''⟩, hmem', hd'⟩ := exists_of_mem_left hdeclared hd'
  obtain ⟨messages', hmessages, hd'⟩ := bind_eq_ok.1 hd'
  obtain ⟨_, -, ⟨⟩⟩ := bind_eq_ok.1 hd'
  obtain ⟨t, ht, hmessage⟩ := exists_of_mem_left (mapM_eq_ok.1 hmessages) he
  obtain ⟨fields, -, ⟨⟩⟩ := bind_eq_ok.1 hmessage
  refine List.find?_isSome.2 ⟨_, List.mem_flatMap.2 ⟨_, hmem', ht⟩, ?_⟩
  simpa using hname

end TemporalBindings.Schema
