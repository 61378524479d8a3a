import Mathlib.Data.List.Forall2
import TemporalBindings.Schema.Pool

/-!
# TemporalBindings.Proofs.WithoutOptions

What descriptors declare without their options. Types are declared twice, by the descriptors
as they are sent and again once their options are settled, and settling changes nothing but
options. All that the options of a descriptor tell its types is which messages are entries
of maps. So the types of both times are the same up to that:

```
settled descriptors     without options, the sent ones without options
their types             in outline, the types of the sent ones
```
-/

namespace TemporalBindings.Schema

/-! ## Steps -/

section Steps

variable {ε α β γ : Type}

/-- Two steps succeed iff both do. -/
theorem bind_eq_ok {x : Except ε α} {f : α → Except ε β} {b : β} :
    x >>= f = .ok b ↔ ∃ a, x = .ok a ∧ f a = .ok b := by
  cases x with
  | error e => simp [bind, Except.bind]
  | ok a => simp [bind, Except.bind]

/-- A step for each element succeeds iff all of them do, with the results in order. -/
theorem mapM_eq_ok {f : α → Except ε β} {xs : List α} {ys : List β} :
    xs.mapM f = .ok ys ↔ List.Forall₂ (fun x y => f x = .ok y) xs ys := by
  induction xs generalizing ys with
  | nil =>
    rw [List.mapM_nil, List.forall₂_nil_left_iff]
    exact ⟨fun h => (Except.ok.inj h).symm, fun h => congrArg Except.ok h.symm⟩
  | cons x xs ih =>
    simp only [List.mapM_cons, bind_eq_ok, ih, List.forall₂_cons_left_iff]
    constructor
    · rintro ⟨y, hy, ys', hys, h⟩
      obtain rfl : y :: ys' = ys := by simpa [pure, Except.pure] using h
      exact ⟨y, ys', hy, hys, rfl⟩
    · rintro ⟨y, ys, hy, hys, rfl⟩
      exact ⟨y, hy, ys, hys, rfl⟩

/-- What steps leave as it is they leave in all elements. -/
theorem map_eq_map_of_mapM {f : α → Except ε α} {g : α → β} {xs ys : List α}
    (h : ∀ x y, f x = .ok y → g y = g x) (hys : xs.mapM f = .ok ys) : ys.map g = xs.map g := by
  have hall : List.Forall₂ (· = ·) (ys.map g) (xs.map g) :=
    List.forall₂_map_left_iff.2 <| List.forall₂_map_right_iff.2 <|
      (mapM_eq_ok.1 hys).flip.imp fun y x hxy => h x y hxy
  rwa [List.forall₂_eq_eq_eq] at hall

end Steps

/-! ## Descriptors without options -/

/-- A field without options. -/
def FieldDescriptor.withoutOptions (d : FieldDescriptor) : FieldDescriptor :=
  { d with options := .empty Standard.fieldOptions }

/-- A value of an enum without options. -/
def ValueDescriptor.withoutOptions (d : ValueDescriptor) : ValueDescriptor :=
  { d with options := .empty Standard.enumValueOptions }

/-- A range without options. -/
def RangeDescriptor.withoutOptions (d : RangeDescriptor) : RangeDescriptor :=
  { d with options := .empty Standard.rangeOptions }

/-- An enum without options. -/
def EnumDescriptor.withoutOptions (d : EnumDescriptor) : EnumDescriptor :=
  { d with
    options := .empty Standard.enumOptions
    values := d.values.map (·.withoutOptions) }

/-- A oneof without options. -/
def OneofDescriptor.withoutOptions (d : OneofDescriptor) : OneofDescriptor :=
  { d with options := .empty Standard.oneofOptions }

/-- A message without options. -/
def MessageDescriptor.withoutOptions (d : MessageDescriptor) : MessageDescriptor :=
  { d with
    options := .empty Standard.messageOptions
    fields := d.fields.map (·.withoutOptions)
    extensions := d.extensions.map (·.withoutOptions)
    enums := d.enums.map (·.withoutOptions)
    oneofs := d.oneofs.map (·.withoutOptions)
    extensionRanges := d.extensionRanges.map (·.withoutOptions) }

mutual

/-- A message and the messages in it without options. -/
def MessageTree.withoutOptions : MessageTree → MessageTree
  | .node d nested => .node d.withoutOptions (treesWithoutOptions nested)

/-- Several messages and the messages in them without options. -/
def treesWithoutOptions : List MessageTree → List MessageTree
  | [] => []
  | t :: ts => t.withoutOptions :: treesWithoutOptions ts

end

/-- A method without options. -/
def MethodDescriptor.withoutOptions (d : MethodDescriptor) : MethodDescriptor :=
  { d with options := .empty Standard.methodOptions }

/-- A service without options. -/
def ServiceDescriptor.withoutOptions (d : ServiceDescriptor) : ServiceDescriptor :=
  { d with
    options := .empty Standard.serviceOptions
    methods := d.methods.map (·.withoutOptions) }

/-- A file without options. -/
def FileDescriptor.withoutOptions (d : FileDescriptor) : FileDescriptor :=
  { d with
    options := .empty Standard.fileOptions
    messages := treesWithoutOptions d.messages
    enums := d.enums.map (·.withoutOptions)
    services := d.services.map (·.withoutOptions)
    extensions := d.extensions.map (·.withoutOptions) }

/-! ## Settling -/

variable {ts : Types}

theorem FieldDescriptor.withoutOptions_settled {d d' : FieldDescriptor}
    (h : d.settled ts = .ok d') : d'.withoutOptions = d.withoutOptions := by
  obtain ⟨o, -, ⟨⟩⟩ := bind_eq_ok.1 h
  rfl

theorem ValueDescriptor.withoutOptions_settled {d d' : ValueDescriptor}
    (h : d.settled ts = .ok d') : d'.withoutOptions = d.withoutOptions := by
  obtain ⟨o, -, ⟨⟩⟩ := bind_eq_ok.1 h
  rfl

theorem RangeDescriptor.withoutOptions_settled {message : String} {d d' : RangeDescriptor}
    (h : d.settled ts message = .ok d') : d'.withoutOptions = d.withoutOptions := by
  obtain ⟨o, -, ⟨⟩⟩ := bind_eq_ok.1 h
  rfl

theorem OneofDescriptor.withoutOptions_settled {d d' : OneofDescriptor}
    (h : d.settled ts = .ok d') : d'.withoutOptions = d.withoutOptions := by
  obtain ⟨o, -, ⟨⟩⟩ := bind_eq_ok.1 h
  rfl

theorem MethodDescriptor.withoutOptions_settled {d d' : MethodDescriptor}
    (h : d.settled ts = .ok d') : d'.withoutOptions = d.withoutOptions := by
  obtain ⟨o, -, ⟨⟩⟩ := bind_eq_ok.1 h
  rfl

theorem EnumDescriptor.withoutOptions_settled {d d' : EnumDescriptor}
    (h : d.settled ts = .ok d') : d'.withoutOptions = d.withoutOptions := by
  obtain ⟨o, -, h⟩ := bind_eq_ok.1 h
  obtain ⟨values, hvalues, ⟨⟩⟩ := bind_eq_ok.1 h
  have := map_eq_map_of_mapM (fun _ _ => ValueDescriptor.withoutOptions_settled) hvalues
  simp only [withoutOptions, this]

theorem MessageDescriptor.withoutOptions_settled {d d' : MessageDescriptor}
    (h : d.settled ts = .ok d') : d'.withoutOptions = d.withoutOptions := by
  obtain ⟨o, -, h⟩ := bind_eq_ok.1 h
  obtain ⟨fields, hfields, h⟩ := bind_eq_ok.1 h
  obtain ⟨extensions, hextensions, h⟩ := bind_eq_ok.1 h
  obtain ⟨enums, henums, h⟩ := bind_eq_ok.1 h
  obtain ⟨oneofs, honeofs, h⟩ := bind_eq_ok.1 h
  obtain ⟨ranges, hranges, ⟨⟩⟩ := bind_eq_ok.1 h
  have hfields := map_eq_map_of_mapM (fun _ _ => FieldDescriptor.withoutOptions_settled) hfields
  have hextensions :=
    map_eq_map_of_mapM (fun _ _ => FieldDescriptor.withoutOptions_settled) hextensions
  have henums := map_eq_map_of_mapM (fun _ _ => EnumDescriptor.withoutOptions_settled) henums
  have honeofs := map_eq_map_of_mapM (fun _ _ => OneofDescriptor.withoutOptions_settled) honeofs
  have hranges := map_eq_map_of_mapM (fun _ _ => RangeDescriptor.withoutOptions_settled) hranges
  simp only [withoutOptions, hfields, hextensions, henums, honeofs, hranges]

mutual

theorem MessageTree.withoutOptions_settled : {t t' : MessageTree} → t.settled ts = .ok t' →
    t'.withoutOptions = t.withoutOptions
  | .node d nested, t', h => by
    obtain ⟨d', hd, h⟩ := bind_eq_ok.1 h
    obtain ⟨nested', hnested, ⟨⟩⟩ := bind_eq_ok.1 h
    rw [MessageTree.withoutOptions, MessageTree.withoutOptions,
      MessageDescriptor.withoutOptions_settled hd, treesWithoutOptions_settled hnested]

theorem treesWithoutOptions_settled : {trees trees' : List MessageTree} →
    settledTrees ts trees = .ok trees' → treesWithoutOptions trees' = treesWithoutOptions trees
  | [], trees', h => by
    obtain rfl : [] = trees' := by simpa [settledTrees] using h
    rfl
  | t :: rest, trees', h => by
    obtain ⟨t', ht, h⟩ := bind_eq_ok.1 h
    obtain ⟨rest', hrest, ⟨⟩⟩ := bind_eq_ok.1 h
    rw [treesWithoutOptions, treesWithoutOptions, MessageTree.withoutOptions_settled ht,
      treesWithoutOptions_settled hrest]

end

theorem ServiceDescriptor.withoutOptions_settled {d d' : ServiceDescriptor}
    (h : d.settled ts = .ok d') : d'.withoutOptions = d.withoutOptions := by
  obtain ⟨o, -, h⟩ := bind_eq_ok.1 h
  obtain ⟨methods, hmethods, ⟨⟩⟩ := bind_eq_ok.1 h
  have := map_eq_map_of_mapM (fun _ _ => MethodDescriptor.withoutOptions_settled) hmethods
  simp only [withoutOptions, this]

/-- Settling a file changes nothing but options. -/
theorem FileDescriptor.withoutOptions_settled {d d' : FileDescriptor}
    (h : d.settled ts = .ok d') : d'.withoutOptions = d.withoutOptions := by
  obtain ⟨o, -, h⟩ := bind_eq_ok.1 h
  obtain ⟨messages, hmessages, h⟩ := bind_eq_ok.1 h
  obtain ⟨enums, henums, h⟩ := bind_eq_ok.1 h
  obtain ⟨services, hservices, h⟩ := bind_eq_ok.1 h
  obtain ⟨extensions, hextensions, ⟨⟩⟩ := bind_eq_ok.1 h
  have hmessages := treesWithoutOptions_settled hmessages
  have henums := map_eq_map_of_mapM (fun _ _ => EnumDescriptor.withoutOptions_settled) henums
  have hservices :=
    map_eq_map_of_mapM (fun _ _ => ServiceDescriptor.withoutOptions_settled) hservices
  have hextensions :=
    map_eq_map_of_mapM (fun _ _ => FieldDescriptor.withoutOptions_settled) hextensions
  simp only [withoutOptions, hmessages, henums, hservices, hextensions]

/-! ## Outlines -/

/-- What a symbol stands for, without saying of a message whether it is an entry of a map. -/
def SymbolKind.outline : SymbolKind → SymbolKind
  | .message _ => .message false
  | k => k

/-- A symbol in outline. -/
def Symbol.outline (x : Symbol) : Symbol :=
  { x with kind := x.kind.outline }

/-- What can be referred to, in outline. -/
def Scope.outline (s : Scope) : Scope :=
  { s with symbols := s.symbols.map Symbol.outline }

/-- The type of the values of a field, without telling groups and maps from messages. -/
def FieldKind.outline : FieldKind → FieldKind
  | .message name | .group name | .map name => .message name
  | k => k

/-- A field in outline. -/
def FieldType.outline (t : FieldType) : FieldType :=
  { t with kind := t.kind.outline }

/-- A message type in outline. -/
def MessageType.outline (t : MessageType) : MessageType :=
  ⟨t.name, t.fields.map FieldType.outline⟩

/-- An extension in outline. -/
def Extension.outline (x : Extension) : Extension :=
  { x with field := x.field.outline }

/-- Types in outline. -/
def Types.outline (ts : Types) : Types :=
  { ts with
    messages := ts.messages.map MessageType.outline
    extensions := ts.extensions.map Extension.outline }

theorem SymbolKind.outline_outline (k : SymbolKind) : k.outline.outline = k.outline := by
  cases k <;> rfl

theorem Symbol.outline_outline (x : Symbol) : x.outline.outline = x.outline := by
  simp [outline, SymbolKind.outline_outline]

theorem FieldKind.isMessage_outline (k : FieldKind) : k.outline.isMessage = k.isMessage := by
  cases k <;> rfl

theorem FieldKind.packable_outline (k : FieldKind) : k.outline.packable = k.packable := by
  cases k <;> rfl

/-! ## Elements without options -/

theorem Options.isSet_empty (type : MessageType) (name : String) :
    (Options.empty type).isSet name = false := by
  unfold isSet set?
  cases (Options.empty type).basic.type.fieldNamed? name <;> rfl

mutual

theorem MessageTree.flatten_withoutOptions : (scope : String) → (t : MessageTree) →
    t.withoutOptions.flatten scope = (t.flatten scope).map (Prod.map id (·.withoutOptions))
  | scope, .node d nested => by
    rw [MessageTree.withoutOptions, MessageTree.flatten, MessageTree.flatten, List.map_cons]
    exact congrArg _ (flattenAll_withoutOptions _ nested)

theorem flattenAll_withoutOptions : (scope : String) → (ts : List MessageTree) →
    flattenAll scope (treesWithoutOptions ts) =
      (flattenAll scope ts).map (Prod.map id (·.withoutOptions))
  | _, [] => rfl
  | scope, t :: ts => by
    rw [treesWithoutOptions, flattenAll, flattenAll, List.map_append,
      t.flatten_withoutOptions, flattenAll_withoutOptions]

end

mutual

theorem MessageTree.extensions_withoutOptions : (scope : String) → (t : MessageTree) →
    t.withoutOptions.extensions scope = (t.extensions scope).map (Prod.map id (·.withoutOptions))
  | scope, .node d nested => by
    rw [MessageTree.withoutOptions, MessageTree.extensions, MessageTree.extensions,
      List.map_append, List.map_map]
    refine congrArg₂ (· ++ ·) (extensionsOfAll_withoutOptions _ nested) ?_
    exact List.map_map

theorem extensionsOfAll_withoutOptions : (scope : String) → (ts : List MessageTree) →
    extensionsOfAll scope (treesWithoutOptions ts) =
      (extensionsOfAll scope ts).map (Prod.map id (·.withoutOptions))
  | _, [] => rfl
  | scope, t :: ts => by
    rw [treesWithoutOptions, extensionsOfAll, extensionsOfAll, List.map_append,
      t.extensions_withoutOptions, extensionsOfAll_withoutOptions]

end

namespace FileDescriptor

theorem allMessages_withoutOptions (d : FileDescriptor) :
    d.withoutOptions.allMessages = d.allMessages.map (Prod.map id (·.withoutOptions)) :=
  flattenAll_withoutOptions d.package d.messages

theorem allExtensions_withoutOptions (d : FileDescriptor) :
    d.withoutOptions.allExtensions = d.allExtensions.map (Prod.map id (·.withoutOptions)) := by
  rw [allExtensions, allExtensions, List.map_append, List.map_map]
  exact congrArg₂ (· ++ ·) (extensionsOfAll_withoutOptions _ d.messages) List.map_map

theorem allEnums_withoutOptions (d : FileDescriptor) :
    d.withoutOptions.allEnums = d.allEnums.map (Prod.map id (·.withoutOptions)) := by
  rw [allEnums, allEnums, allMessages_withoutOptions, List.flatMap_map, List.map_append,
    List.map_flatMap, List.map_map]
  refine congrArg₂ (· ++ ·) (congrArg (List.flatMap · _) ?_) List.map_map
  funext ⟨scope, m⟩
  rw [List.map_map]
  exact List.map_map

@[simp] theorem name_withoutOptions (d : FileDescriptor) : d.withoutOptions.name = d.name := rfl

theorem elements_withoutOptions (d : FileDescriptor) :
    d.withoutOptions.elements = d.elements.map Symbol.outline := by
  rw [elements, elements, allMessages_withoutOptions, allEnums_withoutOptions,
    allExtensions_withoutOptions]
  simp only [List.map_append, List.map_flatMap, List.flatMap_map]
  refine congrArg₂ (· ++ ·) (congrArg₂ (· ++ ·) (congrArg₂ (· ++ ·) ?_ ?_) ?_) ?_
  · refine congrArg (List.flatMap · _) (funext fun (scope, m) => ?_)
    simp [MessageDescriptor.withoutOptions, FieldDescriptor.withoutOptions,
      OneofDescriptor.withoutOptions, Options.isSet_empty, Symbol.outline, SymbolKind.outline,
      Function.comp_def]
  · refine congrArg (List.flatMap · _) (funext fun (scope, e) => ?_)
    simp [EnumDescriptor.withoutOptions, ValueDescriptor.withoutOptions, Symbol.outline,
      SymbolKind.outline]
  · simp [FieldDescriptor.withoutOptions, Symbol.outline, SymbolKind.outline]
  · rw [withoutOptions, List.flatMap_map]
    refine congrArg (List.flatMap · _) (funext fun s => ?_)
    simp [ServiceDescriptor.withoutOptions, MethodDescriptor.withoutOptions, Symbol.outline,
      SymbolKind.outline]

theorem symbols_withoutOptions (d : FileDescriptor) :
    d.withoutOptions.symbols = d.symbols.map Symbol.outline := by
  rw [symbols, symbols, elements_withoutOptions, List.map_append, List.map_map]
  rfl

end FileDescriptor

/-! ## Scopes without options -/

theorem publicImportsOf_withoutOptions (files : List FileDescriptor) (name : String) :
    publicImportsOf (files.map (·.withoutOptions)) name = publicImportsOf files name := by
  rw [publicImportsOf, List.find?_map, Option.map_map]
  rfl

theorem lookThrough_withoutOptions (files : List FileDescriptor) (fuel : Nat)
    (sight : List String) (name : String) :
    lookThrough (files.map (·.withoutOptions)) fuel sight name =
      lookThrough files fuel sight name := by
  induction fuel generalizing sight name with
  | zero => rfl
  | succ fuel ih => simp only [lookThrough, publicImportsOf_withoutOptions, ih]

theorem visibleFrom_withoutOptions (files : List FileDescriptor) (d : FileDescriptor) :
    visibleFrom (files.map (·.withoutOptions)) d.withoutOptions = visibleFrom files d := by
  simp only [visibleFrom, lookThrough_withoutOptions, List.length_map]
  rfl

theorem FileDescriptor.scopeIn_withoutOptions (files : List FileDescriptor) (d : FileDescriptor) :
    d.withoutOptions.scopeIn (files.map (·.withoutOptions)) = (d.scopeIn files).outline := by
  rw [scopeIn, scopeIn, visibleFrom_withoutOptions, Scope.outline, List.flatMap_map,
    List.map_flatMap]
  simp only [symbols_withoutOptions]

/-! ## Names in outline -/

namespace Scope

variable {wanted : SymbolKind → Bool}

theorem element?_outline (hwanted : ∀ k, wanted (SymbolKind.outline k) = wanted k) (s : Scope)
    (name : String) : s.outline.element? wanted name = (s.element? wanted name).map Symbol.outline := by
  rw [element?, element?, outline, List.find?_map]
  simp only [Function.comp_def, Symbol.outline, hwanted]
  rfl

theorem hasMembers_outline (s : Scope) (name : String) :
    s.outline.hasMembers name = s.hasMembers name := by
  have hother (k : SymbolKind) : k.outline = .other ↔ k = .other := by
    cases k <;> simp [SymbolKind.outline]
  rw [hasMembers, hasMembers, outline, List.any_map]
  exact congrArg s.symbols.any <| funext fun x =>
    congrArg (_ && ·) (decide_eq_decide.2 (not_congr (hother x.kind)))

/-- A name means the same in outline where entries of maps are not told from other
messages. -/
theorem resolve?_outline (hwanted : ∀ k, wanted (SymbolKind.outline k) = wanted k) (s : Scope)
    (user name : String) :
    s.outline.resolve? wanted user name = (s.resolve? wanted user name).map Symbol.outline := by
  have hrelative : s.outline.resolveRelative? wanted user name =
      (s.resolveRelative? wanted user name).map Symbol.outline := by
    unfold resolveRelative?
    split
    · simp only [element?_outline hwanted, List.map_findSome?, Function.comp_def]
    · simp only [element?_outline hwanted, hasMembers_outline, Option.map_bind, Function.comp_def]
  unfold resolve?
  split
  · exact element?_outline hwanted s _
  · split
    · exact element?_outline hwanted s _
    · exact hrelative

end Scope

/-! ## Types in outline -/

section Outcomes

variable {ε α α' β γ δ : Type} {f : α → γ} {g : β → δ}

/-- Two steps have the same outcome up to `g` if the first has up to `f`, and the second does
not see more. -/
theorem map_bind_congr {x y : Except ε α} {k k' : α → Except ε β} (h : x.map f = y.map f)
    (hk : ∀ a b, f a = f b → (k a).map g = (k' b).map g) :
    (x >>= k).map g = (y >>= k').map g := by
  cases x with
  | error e =>
    cases y with
    | error e' =>
      obtain rfl : e = e' := by simpa [Except.map] using h
      rfl
    | ok b => simp [Except.map] at h
  | ok a =>
    cases y with
    | error e' => simp [Except.map] at h
    | ok b => exact hk a b (by simpa [Except.map] using h)

/-- Steps for other elements have the same outcome as steps for these if each of them has. -/
theorem map_mapM_congr {k : α → Except ε β} {k' : α' → Except ε β} {other : α → α'}
    (h : ∀ x, (k' (other x)).map g = (k x).map g) (xs : List α) :
    ((xs.map other).mapM k').map (List.map g) = (xs.mapM k).map (List.map g) := by
  induction xs with
  | nil => rfl
  | cons x xs ih =>
    rw [List.map_cons, List.mapM_cons, List.mapM_cons]
    refine map_bind_congr (h x) fun y z hyz => map_bind_congr ih fun ys zs hyszs => ?_
    simp [pure, Except.pure, Except.map, hyz, hyszs]

end Outcomes

namespace Scope

theorem resolve_outline {wanted : SymbolKind → Bool}
    (hwanted : ∀ k, wanted (SymbolKind.outline k) = wanted k) (s : Scope) (user name : String) :
    (s.outline.resolve wanted user name).map Symbol.outline =
      (s.resolve wanted user name).map Symbol.outline := by
  rw [resolve, resolve, resolve?_outline hwanted]
  cases s.resolve? wanted user name with
  | none => rfl
  | some x => simp [Except.map, Symbol.outline_outline]

theorem isType_outline (k : SymbolKind) : k.outline.isType = k.isType := by
  cases k <;> rfl

theorem isMessage_outline (k : SymbolKind) : k.outline.isMessage = k.isMessage := by
  cases k <;> rfl

theorem outline_messageKind (d : FieldDescriptor) (type : String) (isEntry : Bool) :
    (d.messageKind type isEntry).outline = .message type := by
  unfold FieldDescriptor.messageKind
  split <;> [rfl; (split <;> rfl)]

/-- The type and the default of a field, in outline. -/
theorem typeOf_outline (s : Scope) (d : FieldDescriptor) (user : String) :
    (s.outline.typeOf d.withoutOptions user).map (Prod.map FieldKind.outline id) =
      (s.typeOf d user).map (Prod.map FieldKind.outline id) := by
  unfold typeOf
  rw [show d.withoutOptions.namedType? = d.namedType? from rfl]
  cases d.namedType? with
  | none => rfl
  | some name =>
    refine map_bind_congr (resolve_outline isType_outline s user name) fun x y hxy => ?_
    obtain ⟨xname, xkind, file⟩ := x
    obtain ⟨yname, ykind, file'⟩ := y
    obtain ⟨rfl, hkind, rfl⟩ : xname = yname ∧ xkind.outline = ykind.outline ∧ file = file' := by
      simpa [Symbol.outline] using hxy
    -- Only messages are told apart by what an outline leaves out.
    cases xkind <;> cases ykind <;> simp only [SymbolKind.outline, reduceCtorEq] at hkind
    case message.message =>
      refine map_bind_congr (f := id) rfl fun _ _ _ => ?_
      simp [Except.map, outline_messageKind]
    all_goals cases hkind; rfl

theorem packs_congr (d : FieldDescriptor) (proto3 : Bool) {kind kind' : FieldKind}
    (h : kind.outline = kind'.outline) : d.packs proto3 kind = d.packs proto3 kind' := by
  unfold FieldDescriptor.packs
  rw [← kind.packable_outline, h, kind'.packable_outline]

theorem isMessage_congr {kind kind' : FieldKind} (h : kind.outline = kind'.outline) :
    kind.isMessage = kind'.isMessage := by
  rw [← kind.isMessage_outline, h, kind'.isMessage_outline]

/-- A field of a message, in outline. -/
theorem field_outline (s : Scope) (proto3 : Bool) (message : String) (d : FieldDescriptor) :
    (s.outline.field proto3 d.withoutOptions message).map FieldType.outline =
      (s.field proto3 d message).map FieldType.outline := by
  refine map_bind_congr (typeOf_outline s d _) fun (kind, default) (kind', default') h => ?_
  obtain ⟨hkind, rfl⟩ : kind.outline = kind'.outline ∧ default = default' := by simpa using h
  have hpacks := packs_congr d proto3 hkind
  have hmessage := isMessage_congr hkind
  simp only [Except.map, FieldType.outline, hkind, hmessage, Except.ok.injEq, FieldType.mk.injEq]
  exact ⟨rfl, rfl, trivial, rfl, hpacks, rfl, rfl, trivial⟩

theorem messageType_outline (s : Scope) (proto3 : Bool) (scope : String) (m : MessageDescriptor) :
    (s.outline.messageType proto3 scope m.withoutOptions).map MessageType.outline =
      (s.messageType proto3 scope m).map MessageType.outline := by
  refine map_bind_congr (map_mapM_congr (field_outline s proto3 _) m.fields) fun fields fields' h => ?_
  simp only [Except.map, MessageType.outline, h]
  rfl

/-- Numbers that a message allows are not a matter of options. -/
theorem allowsNumber_withoutOptions (m : MessageDescriptor) (d : FieldDescriptor) :
    m.withoutOptions.allowsNumber d.withoutOptions = m.allowsNumber d := by
  have hranges : (m.withoutOptions.extensionRanges.any (·.has d.number)) =
      m.extensionRanges.any (·.has d.number) := List.any_map
  unfold MessageDescriptor.allowsNumber
  exact congrArg (_ && · == d.extendee.isSome) hranges

/-- An extension, in outline. -/
theorem extension_outline (s : Scope) (messages : List (String × MessageDescriptor))
    (proto3 : Bool) (scope : String) (d : FieldDescriptor) :
    (s.outline.extension (messages.map (Prod.map id (·.withoutOptions))) proto3 scope
        d.withoutOptions).map Extension.outline =
      (s.extension messages proto3 scope d).map Extension.outline := by
  refine map_bind_congr (typeOf_outline s d _) fun (kind, default) (kind', default') h => ?_
  obtain ⟨hkind, rfl⟩ : kind.outline = kind'.outline ∧ default = default' := by simpa using h
  refine map_bind_congr (resolve_outline isMessage_outline s _ _) fun x y hxy => ?_
  have hname : x.outline.name = y.outline.name := congrArg Symbol.name hxy
  change x.name = y.name at hname
  have hallows : ((messages.map (Prod.map id (·.withoutOptions))).any fun e =>
      qualify e.1 e.2.name = x.name && e.2.allowsNumber d.withoutOptions) =
      messages.any fun e => qualify e.1 e.2.name = y.name && e.2.allowsNumber d := by
    rw [List.any_map, hname]
    exact congrArg messages.any (funext fun e =>
      congrArg (_ && ·) (allowsNumber_withoutOptions e.2 d))
  refine map_bind_congr (f := id)
    (congrArg (fun allowed => (demand allowed (.badNumber (qualify scope d.name))).map id) hallows)
    fun _ _ _ => ?_
  have hpacks := packs_congr d proto3 hkind
  simp only [Except.map, Extension.outline, FieldType.outline, hkind, hname, Except.ok.injEq,
    Extension.mk.injEq, FieldType.mk.injEq]
  exact ⟨rfl, trivial, rfl, rfl, trivial, rfl, hpacks, rfl, trivial, trivial⟩

end Scope

/-- The types that files declare are, in outline, those that they declare without options. -/
theorem declaredTypes_withoutOptions (files : List FileDescriptor) :
    (declaredTypes (files.map (·.withoutOptions))).map Types.outline =
      (declaredTypes files).map Types.outline := by
  have hmessages : (files.map (·.withoutOptions)).flatMap (·.allMessages) =
      (files.flatMap (·.allMessages)).map (Prod.map id (·.withoutOptions)) := by
    rw [List.flatMap_map, List.map_flatMap]
    simp only [FileDescriptor.allMessages_withoutOptions]
  unfold declaredTypes
  rw [hmessages]
  refine map_bind_congr
    (f := List.map (Prod.map (List.map MessageType.outline) (List.map Extension.outline)))
    (map_mapM_congr (fun d => ?_) files) fun declared declared' h => ?_
  · rw [FileDescriptor.scopeIn_withoutOptions, FileDescriptor.allMessages_withoutOptions,
      FileDescriptor.allExtensions_withoutOptions]
    refine map_bind_congr
      (map_mapM_congr (fun (scope, m) => Scope.messageType_outline _ _ scope m) _)
      fun types types' htypes => ?_
    refine map_bind_congr
      (map_mapM_congr (fun (scope, x) => Scope.extension_outline _ _ _ scope x) _)
      fun extensions extensions' hextensions => ?_
    simp only [Except.map, Prod.map, htypes, hextensions]
  · have hfirst : ((declared.flatMap (·.1)).map MessageType.outline) =
        (declared'.flatMap (·.1)).map MessageType.outline := by
      simpa [List.flatMap_map, List.map_flatMap] using congrArg (List.flatMap (·.1)) h
    have hsecond : ((declared.flatMap (·.2)).map Extension.outline) =
        (declared'.flatMap (·.2)).map Extension.outline := by
      simpa [List.flatMap_map, List.map_flatMap] using congrArg (List.flatMap (·.2)) h
    simp only [Except.map, Types.outline, hfirst, hsecond]

/-- Settled files declare, in outline, the types of the files as they were sent. -/
theorem outline_eq_of_settled {files settled : List FileDescriptor} {known final : Types}
    (hknown : declaredTypes files = .ok known) (hsettled : files.mapM (·.settled ts) = .ok settled)
    (hfinal : declaredTypes settled = .ok final) : final.outline = known.outline := by
  have hfiles : settled.map (·.withoutOptions) = files.map (·.withoutOptions) :=
    map_eq_map_of_mapM (fun _ _ => FileDescriptor.withoutOptions_settled) hsettled
  have hsame := (declaredTypes_withoutOptions settled).symm.trans
    (hfiles ▸ declaredTypes_withoutOptions files)
  rw [hknown, hfinal] at hsame
  exact Except.ok.inj hsame

/-! ## Numbers in outline -/

namespace Types

theorem message?_outline (ts : Types) (name : String) :
    ts.outline.message? name = (ts.message? name).map MessageType.outline := by
  rw [message?, message?, outline, List.find?_map]
  rfl

/-- The field of a number in outline is found in outline. -/
theorem field?_outline (ts : Types) (type : MessageType) (n : Nat) :
    ts.outline.field? type.outline n = (ts.field? type n).map FieldType.outline := by
  have hfield : type.outline.field? n = (type.field? n).map FieldType.outline := by
    rw [MessageType.field?, MessageType.outline, List.find?_map]
    rfl
  have hextension : ts.outline.extension? type.outline.name n =
      (ts.extension? type.name n).map FieldType.outline := by
    rw [extension?, extension?, outline, List.find?_map, Option.map_map, Option.map_map]
    rfl
  rw [field?, field?, hfield, hextension, Option.map_or]

end Types

end TemporalBindings.Schema
