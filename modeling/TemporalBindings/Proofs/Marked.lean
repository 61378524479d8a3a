import TemporalBindings.Proofs.Linked
import TemporalBindings.Proofs.Results
import TemporalBindings.Proofs.Sent

/-!
# TemporalBindings.Proofs.Marked

Which methods are workflows, in terms of the bytes that were sent. Between the options of a
method in a request and the role that is given to it lie two readings and a writing:

```
sent options        read with the types that the sent descriptors declare
settled options     written from them, and read with the types of the settled ones
role                whether the number of the extension is set
```

A number survives both unless it belongs to something that can be left out although it was
sent. So a method is a workflow iff a field of the extension's number was sent, and what the
field holds, how often it was sent and what else was does not matter.
-/

namespace TemporalBindings.Schema

open Wire

variable {known final : Types}

/-! ## Numbers that are sent -/

/-- Whether the options of a method, as they were sent, have a field of a number. -/
def MethodDescriptor.sends (d : MethodDescriptor) (n : Nat) : Bool :=
  (readFields d.options.bytes).any fun fs => fs.any (·.number == n)

/-- Whether all maps in options come as bytes. -/
def Types.delimitsOptions (ts : Types) (o : Options) : Bool :=
  match ts.message? o.typeName, readFields o.bytes with
  | some type, some fs => ts.delimitsAll type fs
  | _, _ => true

/-- Whether the options of a method are read field by field, as their bytes split: all maps in
them come as bytes, both when they are sent and when they are settled, and lengths of 64 bits
are long enough for what is settled. -/
def MethodDescriptor.isReadFieldByField (known final : Types) (d : MethodDescriptor) : Bool :=
  known.delimitsOptions d.options &&
    match known.settle d.name d.options with
    | .ok o => final.delimitsOptions o && o.bytes.length < UInt64.size
    | .error _ => true

/-- Whether that to which a number of a message type belongs, if it belongs to anything, is
present wherever it occurs. -/
def Types.keepsNumber (ts : Types) (name : String) (n : Nat) : Bool :=
  match (ts.message? name).bind (ts.field? · n) with
  | some t => t.staysPresent
  | none => true

theorem FieldType.staysPresent_outline (t : FieldType) : t.outline.staysPresent = t.staysPresent := by
  unfold staysPresent outline
  simp only [FieldKind.packable_outline]

theorem Types.readInto_of_readOptions {ts : Types} {element : String} {o : Options} {m : Message}
    {type : MessageType} (htype : ts.message? o.typeName = some type)
    (h : ts.readOptions element o = .ok m) :
    ts.readInto maxDepth (.empty type) o.bytes = some m := by
  have hknown : ts.forOptions o.typeName = ts := by simp [forOptions, htype]
  unfold readOptions at h
  simp only [hknown, htype, Option.getD_some] at h
  split at h
  · next m' hm' =>
    obtain rfl := Except.ok.inj h
    exact hm'
  · cases h

/-- Options that are settled are written from what was read of them. -/
theorem Types.exists_of_settle {ts : Types} {element : String} {o o' : Options}
    {type base : MessageType} (ho : o.IsOf base) (htype : ts.message? base.name = some type)
    (h : ts.settle element o = .ok o') :
    o'.basic.type = base ∧ (o' = o ∨
      ∃ m, ts.readInto maxDepth (.empty type) o.bytes = some m ∧ o'.bytes = ts.write m) := by
  have hname : o.typeName = base.name := congrArg MessageType.name ho.type
  unfold settle at h
  split at h
  · obtain ⟨m, hm, h⟩ := bind_eq_ok.1 h
    split at h
    · next o'' ho'' =>
      obtain rfl := Except.ok.inj h
      obtain ⟨hisOf, hbytes⟩ := (Options.isOf_empty o.basic.type).add? ho''
      refine ⟨hisOf.type.trans ho.type, .inr ⟨m, readInto_of_readOptions (hname ▸ htype) hm, ?_⟩⟩
      have hknown : ts.forOptions o.typeName = ts := by simp [forOptions, hname, htype]
      rw [hbytes, hknown]
      rfl
    · cases h
  · obtain rfl := Except.ok.inj h
    exact ⟨ho.type, .inl rfl⟩

/-- What the types of settled descriptors have for a number is there for it from the first, and
just as present. -/
theorem exists_field?_of_outline_eq {name : String} {n : Nat} {type : MessageType} {t : FieldType}
    (houtline : final.outline = known.outline) (htype : final.message? name = some type)
    (ht : final.field? type n = some t) :
    ∃ type' t', known.message? name = some type' ∧ known.field? type' n = some t' ∧
      t'.staysPresent = t.staysPresent := by
  have htypes := known.message?_outline name
  rw [← houtline, Types.message?_outline, htype] at htypes
  obtain ⟨type', htype', hsame⟩ := Option.map_eq_some_iff.1 htypes.symm
  have hfields := known.field?_outline type' n
  rw [← houtline, hsame, Types.field?_outline, ht] at hfields
  obtain ⟨t', ht', hsame'⟩ := Option.map_eq_some_iff.1 hfields.symm
  refine ⟨type', t', htype', ht', ?_⟩
  rw [← t'.staysPresent_outline, hsame', t.staysPresent_outline]

theorem Types.delimitsAll_of_delimitsOptions {ts : Types} {o : Options} {type base : MessageType}
    {fs : List Field} (h : ts.delimitsOptions o) (hbase : o.basic.type = base)
    (htype : ts.message? base.name = some type) (hfs : readFields o.bytes = some fs) :
    ts.delimitsAll type fs := by
  have hname : o.typeName = base.name := congrArg MessageType.name hbase
  simpa [delimitsOptions, hname, htype, hfs] using h

/-- A number that stays present is set in the options of a linked method iff a field of it was
sent. -/
theorem sets_of_comesFrom {d : MethodDescriptor} {m : Method} {n : Nat} {type : MessageType}
    {t : FieldType} (houtline : final.outline = known.outline) (hm : m.ComesFrom known final d)
    (hd : d.options.IsOf Standard.methodOptions) (hread : d.isReadFieldByField known final)
    (htype : final.message? Standard.methodOptions.name = some type)
    (ht : final.field? type n = some t) (hstays : t.staysPresent) :
    m.options.sets n = d.sends n := by
  obtain ⟨o, ho, hfinal⟩ := hm
  obtain ⟨type', t', htype', ht', hstays'⟩ := exists_field?_of_outline_eq houtline htype ht
  obtain ⟨fs, hfs⟩ := Option.isSome_iff_exists.1 hd.fields
  obtain ⟨hbase, horigin⟩ := Types.exists_of_settle hd htype' ho
  have hname : o.typeName = Standard.methodOptions.name := congrArg MessageType.name hbase
  have honeof := FieldType.oneof_of_staysPresent hstays
  simp only [MethodDescriptor.isReadFieldByField, ho, Bool.and_eq_true, decide_eq_true_eq] at hread
  obtain ⟨hsent, hsettled, hsize⟩ := hread
  have hfinal := Types.readInto_of_readOptions (hname ▸ htype) hfinal
  rw [MethodDescriptor.sends, hfs, Option.any_some]
  -- Options that were not given are not written again: they are read only once.
  obtain rfl | ⟨m₀, hm₀, hbytes⟩ := horigin
  · exact Types.sets_readInto hfinal hfs
      (Types.delimitsAll_of_delimitsOptions hsettled hbase htype hfs) ht honeof
  · rw [hbytes] at hfinal hsize
    exact Types.sets_readInto_write hm₀ hfinal hfs
      (Types.delimitsAll_of_delimitsOptions hsent hd.type htype' hfs)
      (fun fs' hfs' => Types.delimitsAll_of_delimitsOptions hsettled hbase htype (hbytes ▸ hfs'))
      hsize ht' (hstays'.trans hstays) ht honeof

/-- A number of which there are only extensions, and no repeated ones, is kept. -/
theorem keepsNumber_of_forall {files : List FileDescriptor} {ts : Types} {name : String} {n : Nat}
    (h : declaredTypes files = .ok ts)
    (hown : ∀ type, ts.message? name = some type → type.field? n = none)
    (hsingle : ∀ x ∈ ts.extensions, x.extended = name → x.field.number = n →
      x.field.repeated = false) : ts.keepsNumber name n := by
  unfold Types.keepsNumber
  split
  · next t ht =>
    obtain ⟨type, htype, ht⟩ := Option.bind_eq_some_iff.1 ht
    have hname : type.name = name := by simpa using List.find?_some htype
    rw [Types.field?, hown type htype, Option.none_or] at ht
    obtain ⟨x, hx, rfl⟩ := Option.map_eq_some_iff.1 ht
    have hmem := List.mem_of_find?_eq_some hx
    obtain ⟨hextended, hnumber⟩ : x.extended = name ∧ x.field.number = n := by
      simpa [hname] using List.find?_some hx
    obtain ⟨-, hexplicit, honeof⟩ := of_mem_extensions h hmem
    have hrepeated := hsingle x hmem hextended hnumber
    simp [FieldType.staysPresent, honeof, hexplicit, hrepeated]
  · rfl

end TemporalBindings.Schema

namespace TemporalBindings.Bindings

open Plugin Report Schema Wire

/-! ## Loaded methods -/

/-- A loaded method has the role that the options of a linked one give it, which comes from a
method that was sent. -/
def HasRoleOf (p : Pool) (known : Types) (m : Method) (d : MethodDescriptor) : Prop :=
  ∃ linked : Schema.Method, linked.ComesFrom known p.types d ∧ m.role = roleOf p linked.options

variable {p : Pool} {c : Parameter}

/-- Steps for the elements of a list and their indices have results for the elements. -/
theorem forall₂_of_zipIdx {α β : Type} {R : α × Nat → β → Prop} {S : α → β → Prop} {xs : List α}
    {ys : List β} (hRS : ∀ x i y, R (x, i) y → S x y) (h : List.Forall₂ R xs.zipIdx ys) :
    List.Forall₂ S xs ys := by
  have hfirst : List.Forall₂ S (xs.zipIdx.map Prod.fst) ys :=
    List.forall₂_map_left_iff.2 (h.imp fun (x, i) y => hRS x i y)
  rwa [List.zipIdx_map_fst] at hfirst

theorem forall₂_of_loadService {locations : List Location} {s : Schema.Service} {index : Nat}
    {loaded : Service} (h : (loadService p c locations s index).result = .ok loaded) :
    List.Forall₂ (fun (linked : Schema.Method) m => m.role = roleOf p linked.options) s.methods
      loaded.methods := by
  simp only [loadService, result_bind_eq_ok, result_pure, result_mapM_eq_ok, Except.ok.injEq] at h
  obtain ⟨worker, -, methods, hmethods, rfl⟩ := h
  refine forall₂_of_zipIdx (fun m i loaded hm => ?_) hmethods
  simp only [loadMethod, result_bind_eq_ok, result_pure, Except.ok.injEq] at hm
  obtain ⟨input, -, output, -, rfl⟩ := hm
  rfl

/-- The methods of a loaded file have the roles that linked ones give them, which come from the
methods of a descriptor of its name that was sent. -/
theorem exists_of_loadNamed_of_link {known : Types} {sent : List FileDescriptor} {name : String}
    {f : File}
    (hsent : List.Forall₂ (fun d f => Schema.File.ComesFrom known p.types f d) sent p.files)
    (h : (loadNamed p c name).result = .ok f) :
    ∃ d ∈ sent, d.name = f.path ∧
      List.Forall₂ (fun (sd : ServiceDescriptor) (s : Service) =>
        List.Forall₂ (fun md m => HasRoleOf p known m md) sd.methods s.methods)
        d.services f.services := by
  unfold loadNamed at h
  split at h
  · next linked hlinked =>
    obtain ⟨d, hmem, hd⟩ := exists_of_mem_right hsent (List.mem_of_find?_eq_some hlinked)
    simp only [loadFile, result_bind_eq_ok, result_ofExcept, result_pure, result_mapM_eq_ok,
      Except.ok.injEq] at h
    obtain ⟨package, -, stem, -, services, hservices, rfl⟩ := h
    refine ⟨d, hmem, hd.name.symm, ?_⟩
    have hloaded := forall₂_of_zipIdx (fun s i loaded hs => forall₂_of_loadService hs) hservices
    refine (forall₂_comp hd.services hloaded).imp ?_
    rintro sd s ⟨linked, hlinked, hs⟩
    exact (forall₂_comp hlinked hs).imp fun md m => id
  · simp [Report.ofExcept] at h

/-! ## Roles -/

theorem roleOf_eq_workflow_iff {x : Extension} {o : Message}
    (hx : p.extension? workflowExtension = some x) (hexplicit : x.field.explicit) :
    roleOf p o = .workflow ↔ o.sets x.field.number := by
  have hpresent (v : Value) : x.field.presentWith v = true := by
    simp [FieldType.presentWith, hexplicit]
  unfold roleOf extensionValue? Message.sets
  rw [hx]
  cases hv : o.stored.lookup x.field.number with
  | none => simp [hv]
  | some v => simp [hv, hpresent]

theorem roleOf_of_none {o : Message} (hnone : p.extension? workflowExtension = none) :
    roleOf p o = .activity := by
  unfold roleOf extensionValue?
  rw [hnone]
  rfl

theorem exists_of_poolOf {r : Request} (h : poolOf r = .ok p) :
    ∃ sent, r.descriptors.mapM FileDescriptor.read = some sent ∧ Pool.link sent = .ok p := by
  unfold poolOf Pool.read at h
  cases hsent : r.descriptors.mapM FileDescriptor.read with
  | none => simp [hsent] at h
  | some sent =>
    refine ⟨sent, rfl, ?_⟩
    rw [hsent] at h
    dsimp only at h
    split at h
    · next p' hlink =>
      obtain rfl := Except.ok.inj h
      exact hlink
    · cases h

theorem forall_of_mapM {α β : Type} {f : α → Option β} {P : β → Prop}
    (hf : ∀ x y, f x = some y → P y) {xs : List α} {ys : List β} (h : xs.mapM f = some ys) :
    ∀ y ∈ ys, P y := by
  induction xs generalizing ys with
  | nil =>
    obtain rfl := Option.some.inj h
    simp
  | cons x xs ih =>
    rw [List.mapM_cons] at h
    obtain ⟨y, hy, h⟩ := Option.bind_eq_some_iff.1 h
    obtain ⟨ys', hys, h⟩ := Option.bind_eq_some_iff.1 h
    obtain rfl := Option.some.inj h
    rw [List.forall_mem_cons]
    exact ⟨hf x y hy, ih hys⟩

/-! ## Workflows -/

/-- The method that a loaded one comes from sends the workflow extension iff the loaded one is
a workflow. -/
theorem role_eq_workflow_iff {known : Types} {settled : List FileDescriptor} {x : Extension}
    {m : Method} {d : MethodDescriptor} (hfinal : declaredTypes settled = .ok p.types)
    (houtline : p.types.outline = known.outline) (hm : HasRoleOf p known m d)
    (hd : d.options.IsOf Standard.methodOptions)
    (hx : p.extension? workflowExtension = some x)
    (hextended : x.extended = Standard.methodOptions.name) (hsingle : x.field.repeated = false)
    (hkeeps : p.types.keepsNumber x.extended x.field.number)
    (hread : d.isReadFieldByField known p.types) :
    m.role = .workflow ↔ d.sends x.field.number := by
  obtain ⟨linked, hlinked, hrole⟩ := hm
  have hmem := List.mem_of_find?_eq_some hx
  obtain ⟨htype, hexplicit, -⟩ := of_mem_extensions hfinal hmem
  obtain ⟨type, htype⟩ := Option.isSome_iff_exists.1 htype
  have hname : type.name = x.extended := by simpa using List.find?_some htype
  have hfield : (p.types.field? type x.field.number).isSome := by
    rw [Types.field?, Option.isSome_or, Bool.or_eq_true, Types.extension?, Option.isSome_map,
      List.find?_isSome]
    exact .inr ⟨x, hmem, by simp [hname]⟩
  obtain ⟨t, ht⟩ := Option.isSome_iff_exists.1 hfield
  have hstays : t.staysPresent := by simpa [Types.keepsNumber, htype, ht] using hkeeps
  rw [hrole, roleOf_eq_workflow_iff hx (by rw [hexplicit, hsingle]; rfl),
    sets_of_comesFrom houtline hlinked hd hread (hextended ▸ htype) ht hstays]

/-- If a request can be loaded, the types of its descriptors are known. If they have the
workflow extension as one of the options of methods, which is not repeated, and if nothing
that can be left out takes its number, then a method of a requested file is a workflow iff
its options, as they were sent, have a field of that number, whatever is in it and around it.
If they do not have the extension, no method is a workflow. -/
theorem workflow_iff_sends {r : Request} {files : List File} (h : (load r c).result = .ok files) :
    ∃ sent known p, r.descriptors.mapM FileDescriptor.read = some sent ∧
      declaredTypes sent = .ok known ∧ poolOf r = .ok p ∧
      (∀ x, p.extension? workflowExtension = some x → x.extended = Standard.methodOptions.name →
        x.field.repeated = false → p.types.keepsNumber x.extended x.field.number →
        ∀ f ∈ files, ∃ d ∈ sent, d.name = f.path ∧
          List.Forall₂ (fun (sd : ServiceDescriptor) (s : Service) =>
            List.Forall₂ (fun md m => md.isReadFieldByField known p.types →
              (m.role = .workflow ↔ md.sends x.field.number)) sd.methods s.methods)
            d.services f.services) ∧
      (p.extension? workflowExtension = none →
        ∀ f ∈ files, ∀ s ∈ f.services, ∀ m ∈ s.methods, m.role = .activity) := by
  obtain ⟨p, hp, hfiles⟩ := load_eq_ok.1 h
  obtain ⟨sent, hsent, hlink⟩ := exists_of_poolOf hp
  obtain ⟨known, settled, hknown, hsettled, hfinal, hlinked⟩ := exists_of_link hlink
  have houtline := outline_eq_of_settled hknown hsettled hfinal
  have horigin : ∀ f ∈ files, ∃ d ∈ sent, d.name = f.path ∧
      List.Forall₂ (fun (sd : ServiceDescriptor) (s : Service) =>
        List.Forall₂ (fun md m => HasRoleOf p known m md) sd.methods s.methods)
        d.services f.services := by
    intro f hf
    obtain ⟨name, -, hname⟩ := exists_of_mem_right hfiles hf
    exact exists_of_loadNamed_of_link hlinked hname
  refine ⟨sent, known, p, hsent, hknown, hp, ?_, ?_⟩
  · intro x hx hextended hsingle hkeeps f hf
    obtain ⟨d, hd, hname, hservices⟩ := horigin f hf
    have hoptions : d.HasMethodOptions :=
      forall_of_mapM (fun _ _ => FileDescriptor.hasMethodOptions_read) hsent d hd
    refine ⟨d, hd, hname, ((List.forall₂_and_left _ _).2 ⟨hoptions, hservices⟩).imp ?_⟩
    rintro sd s ⟨hsd, hmethods⟩
    refine ((List.forall₂_and_left _ _).2 ⟨hsd, hmethods⟩).imp ?_
    rintro md m ⟨hmd, hm⟩ hread
    exact role_eq_workflow_iff hfinal houtline hm hmd hx hextended hsingle hkeeps hread
  · intro hnone f hf s hs m hm
    obtain ⟨d, -, -, hservices⟩ := horigin f hf
    obtain ⟨sd, -, hmethods⟩ := exists_of_mem_right hservices hs
    obtain ⟨md, -, linked, -, hrole⟩ := exists_of_mem_right hmethods hm
    rw [hrole, roleOf_of_none hnone]

/-! ## Requests with marked methods -/

/-- An extension of the options of methods. -/
def optionField (name : String) (number label type : Int32) (typeName : List Field) : Field :=
  .bytes 7 (writeFields ([stringField 1 name, stringField 2 ".google.protobuf.MethodOptions",
    int32Field 3 number, int32Field 4 label, int32Field 5 type] ++ typeName))

/-- The workflow extension. -/
def workflowMark : Field :=
  optionField "workflow" 7234 1 11 [stringField 6 ".temporal.Workflow"]

/-- A method with some options. -/
def optionsMethod (name : String) (options : List Field) : Field :=
  .bytes 2 (writeFields [stringField 1 name, stringField 2 ".temporal.Workflow",
    stringField 3 ".temporal.Workflow", .bytes 4 (writeFields options)])

/-- A request for a file with some extensions of the options of methods and a service with some
methods. The other file declares those options. -/
def markedRequest (extensions methods : List Field) : Request where
  files := ["temporal/worker.proto"]
  descriptors :=
    [writeFields [stringField 1 "google/protobuf/descriptor.proto", stringField 2 "google.protobuf",
       .bytes 4 (writeFields [stringField 1 "MethodOptions",
         .bytes 5 (writeFields [int32Field 1 1000, int32Field 2 536870912])])],
     writeFields ([stringField 1 "temporal/worker.proto", stringField 2 "temporal",
       stringField 3 "google/protobuf/descriptor.proto",
       .bytes 4 (writeFields [stringField 1 "Workflow"]),
       .bytes 6 (writeFields (stringField 1 "Foo" :: methods))] ++ extensions ++
       [.bytes 8 (writeFields [stringField 11 "example.com/foo;foo"]), stringField 12 "proto3"])]

/-- The first of two methods carries an empty mark between other options, and the second has
none. -/
def oneMarkRequest : Request :=
  markedRequest [workflowMark]
    [optionsMethod "Run" [.varint 33 1, .bytes 7234 [], .varint 2000 5],
     optionsMethod "Stop" [.varint 33 1]]

/-- Numbers that may be packed share the number of the workflow extension, and come first. -/
def sharedMarkRequest : Request :=
  markedRequest [optionField "numbers" 7234 3 5 [], workflowMark]
    [optionsMethod "Run" [.bytes 7234 []]]

/-- Of all methods in descriptors, whether they send a field of a number, and whether they are
read field by field. -/
def sentMarks (r : Request) (n : Nat) : Option (List (Bool × Bool)) := do
  let sent ← r.descriptors.mapM FileDescriptor.read
  let known ← (declaredTypes sent).toOption
  let p ← (poolOf r).toOption
  some <| sent.flatMap fun d => d.services.flatMap fun s => s.methods.map fun m =>
    (m.sends n, m.isReadFieldByField known p.types)

/-- The extension that makes a method a workflow: what it extends, its number, and whether it
is repeated, of messages, and sure to be present. -/
def workflowFacts (r : Request) : Option (String × Nat × Bool × Bool × Bool) := do
  let p ← (poolOf r).toOption
  let x ← p.extension? workflowExtension
  some (x.extended, x.field.number, x.field.repeated, x.field.kind.isMessage,
    p.types.keepsNumber x.extended x.field.number)

/-- The roles of all methods that are loaded. -/
def loadedRoles (r : Request) : Option (List Role) :=
  (load r {}).result.toOption.map fun files =>
    files.flatMap fun f => f.services.flatMap fun s => s.methods.map (·.role)

/-- The mark of the first method is empty, and other options stand around it. -/
theorem workflow_iff_sends_oneMarkRequest :
    ∃ files sent, (load oneMarkRequest {}).result = .ok files ∧
      oneMarkRequest.descriptors.mapM FileDescriptor.read = some sent ∧
      ∀ f ∈ files, ∃ d ∈ sent, d.name = f.path ∧
        List.Forall₂ (fun (sd : ServiceDescriptor) (s : Service) =>
          List.Forall₂ (fun md m => m.role = .workflow ↔ md.sends 7234) sd.methods s.methods)
          d.services f.services := by
  have hfacts : workflowFacts oneMarkRequest =
        some (Standard.methodOptions.name, 7234, false, true, true) ∧
      sentMarks oneMarkRequest 7234 = some [(true, true), (false, true)] ∧
      loadedRoles oneMarkRequest = some [.workflow, .activity] := by
    decide +kernel
  obtain ⟨hworkflow, hmarks, hroles⟩ := hfacts
  cases hload : (load oneMarkRequest {}).result with
  | error e =>
    rw [loadedRoles, hload] at hroles
    cases hroles
  | ok files =>
    obtain ⟨sent, known, p, hsent, hknown, hp, hiff, -⟩ := workflow_iff_sends hload
    simp only [workflowFacts, hp, Except.toOption, Option.bind_eq_bind, Option.bind_some]
      at hworkflow
    obtain ⟨x, hx, hworkflow⟩ := Option.bind_eq_some_iff.1 hworkflow
    obtain ⟨hextended, hnumber, hrepeated, -, hkeeps⟩ :
        x.extended = Standard.methodOptions.name ∧ x.field.number = 7234 ∧
          x.field.repeated = false ∧ x.field.kind.isMessage = true ∧
          p.types.keepsNumber x.extended x.field.number = true := by
      simpa using hworkflow
    have hread : ∀ d ∈ sent, ∀ sd ∈ d.services, ∀ md ∈ sd.methods,
        md.isReadFieldByField known p.types = true := by
      intro d hd sd hsd md hmd
      simp only [sentMarks, hsent, hp, Option.bind_eq_bind, Option.bind_some, hknown,
        Except.toOption, Option.some.injEq] at hmarks
      have hmem : (md.sends 7234, md.isReadFieldByField known p.types) ∈
          [(true, true), (false, true)] :=
        hmarks ▸ List.mem_flatMap.2 ⟨d, hd, List.mem_flatMap.2 ⟨sd, hsd, List.mem_map_of_mem hmd⟩⟩
      simp only [List.mem_cons, Prod.mk.injEq, List.not_mem_nil, or_false] at hmem
      obtain ⟨-, h⟩ | ⟨-, h⟩ := hmem <;> exact h
    refine ⟨files, sent, rfl, hsent, fun f hf => ?_⟩
    obtain ⟨d, hd, hname, hservices⟩ := hiff x hx hextended hrepeated hkeeps f hf
    refine ⟨d, hd, hname, ((List.forall₂_and_left _ _).2 ⟨hread d hd, hservices⟩).imp ?_⟩
    rintro sd s ⟨hsd, hmethods⟩
    refine ((List.forall₂_and_left _ _).2 ⟨hsd, hmethods⟩).imp ?_
    rintro md m ⟨hmd, hm⟩
    exact hnumber ▸ hm hmd

/-- Nothing is sent in the numbers that are read in place of the mark, so none are written when
the options are settled, and the mark is lost. -/
theorem role_activity_sharedMarkRequest :
    workflowFacts sharedMarkRequest =
        some (Standard.methodOptions.name, 7234, false, true, false) ∧
      sentMarks sharedMarkRequest 7234 = some [(true, true)] ∧
      loadedRoles sharedMarkRequest = some [.activity] := by
  decide +kernel

end TemporalBindings.Bindings
