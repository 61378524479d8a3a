import TemporalBindings.Proofs.Results
import TemporalBindings.Proofs.Settings
import TemporalBindings.Worker.Extension

/-!
# TemporalBindings.Proofs.Projection

Worker options from the message that holds them to the list that is written out. What a
message sets is said without the catalog's kinds and without the record in between:

```
Means value v      what a value of the wire is as the value of an option
m.Sets s v         a present field of m has the name of the setting s and means v
```

The list has the settings that a message sets to something other than zero, in the order
of the catalog, whatever numbers and order the message's type gives to its fields.
-/

namespace TemporalBindings.Worker

open Schema

/-! ## Values -/

/-- The whole seconds of a duration message. A missing part is zero. -/
def secondsOf (m : Message) : Int :=
  (((m.get? "seconds").bind Value.int64?).getD 0).toInt

/-- The nanoseconds of a duration message. -/
def nanosOf (m : Message) : Int :=
  (((m.get? "nanos").bind Value.int32?).getD 0).toInt

/-- A duration message that is neither negative nor has a second or more in nanoseconds. -/
structure IsDuration (m : Message) (d : Duration) : Prop where
  seconds : secondsOf m = d.seconds
  nanos : nanosOf m = d.nanos
  nanos_lt : d.nanos < 1000000000

/-- What a value is as the value of an option. -/
inductive Means : Value → OptionValue → Prop
  | bool (b : Bool) : Means (.leaf (.bool b)) (.bool b)
  | int (n : Int32) : Means (.leaf (.i32 n)) (.int n)
  | float (d : Number.Double) (hd : d.isFinite = true) : Means (.leaf (.f64 d)) (.float d)
  | string (s : String) : Means (.leaf (.string s)) (.string s)
  | duration {m : Message} {d : Duration} (htype : m.type.name = "google.protobuf.Duration")
      (hd : IsDuration m d) : Means (.message m) (.duration (some d))

/-- A duration message is read iff it is one. -/
theorem Duration.read_eq_ok_iff {m : Message} {d : Duration} :
    Duration.read m = .ok d ↔ IsDuration m d := by
  have hread : Duration.read m =
      if secondsOf m < 0 ∨ nanosOf m < 0 then .error .negative
      else if 1000000000 ≤ nanosOf m then .error .nanosOutOfRange
      else .ok ⟨(secondsOf m).toNat, (nanosOf m).toNat⟩ := rfl
  rw [hread]
  constructor
  · intro h
    split at h
    · cases h
    · split at h
      · cases h
      · next hsigns hrange =>
        obtain rfl := Except.ok.inj h
        refine ⟨?_, ?_, ?_⟩ <;> simp only <;> omega
  · rintro ⟨hseconds, hnanos, hlt⟩
    rw [if_neg (by omega), if_neg (by omega), hseconds, hnanos]
    rfl

/-- A value is read as one of a kind iff it means one of that kind. -/
theorem OptionValue.read_eq_ok_iff {k : Kind} {value : Value} {v : OptionValue} :
    OptionValue.read k value = .ok v ↔ Means value v ∧ v.kind = k := by
  constructor
  · intro h
    unfold OptionValue.read at h
    split at h
    · obtain rfl := Except.ok.inj h
      exact ⟨.bool _, rfl⟩
    · obtain rfl := Except.ok.inj h
      exact ⟨.int _, rfl⟩
    · split at h
      · next hd =>
        obtain rfl := Except.ok.inj h
        exact ⟨.float _ hd, rfl⟩
      · cases h
    · obtain rfl := Except.ok.inj h
      exact ⟨.string _, rfl⟩
    · next m =>
      split at h
      · next htype =>
        cases hd : Duration.read m with
        | error problem => simp [hd, Except.map] at h
        | ok d =>
          rw [hd] at h
          obtain rfl := Except.ok.inj h
          exact ⟨.duration htype (Duration.read_eq_ok_iff.1 hd), rfl⟩
      · cases h
    · cases h
  · rintro ⟨h, rfl⟩
    cases h with
    | bool b => rfl
    | int n => rfl
    | float d hd => simp [OptionValue.read, OptionValue.kind, hd]
    | string s => rfl
    | duration htype hd =>
      simp [OptionValue.read, OptionValue.kind, htype, Duration.read_eq_ok_iff.2 hd, Except.map]

theorem Means.unique {value : Value} {v v' : OptionValue} (h : Means value v)
    (h' : Means value v') : v = v' := by
  have hkind : v.kind = v'.kind := by cases h <;> cases h' <;> rfl
  have hread := OptionValue.read_eq_ok_iff.2 ⟨h, hkind⟩
  exact Except.ok.inj (hread.symm.trans (OptionValue.read_eq_ok_iff.2 ⟨h', rfl⟩))

/-! ## Fields by name -/

/-- Whether fields that have the names of settings have values of their kinds. -/
def FitsCatalog (fields : List (String × Value)) : Prop :=
  ∀ e ∈ fields, ∀ s : Setting, s.protoName = e.1 → ∃ v, Means e.2 v ∧ v.kind = s.kind

/-- Fields that fit are added one by one: each setting has what the field of its name means
and is otherwise as before. -/
theorem Options.exists_addFields (extension element : String) {fields : List (String × Value)}
    (hdistinct : (fields.map Prod.fst).Nodup) (hfits : FitsCatalog fields) (o : Options) :
    ∃ o', (addFields extension element o fields).result = .ok o' ∧
      (∀ s value v, (s.protoName, value) ∈ fields → Means value v → o'.get s = v) ∧
      ∀ s, s.protoName ∉ fields.map Prod.fst → o'.get s = o.get s := by
  induction fields generalizing o with
  | nil => exact ⟨o, rfl, by simp, fun _ _ => rfl⟩
  | cons e fields ih =>
    obtain ⟨name, value⟩ := e
    obtain ⟨hnew, hothers⟩ := List.nodup_cons.1 hdistinct
    have hrest : FitsCatalog fields := fun e he => hfits e (List.mem_cons_of_mem _ he)
    cases hname : Setting.ofProtoName? name with
    | none =>
      have hother := Setting.ofProtoName?_eq_none_iff.1 hname
      obtain ⟨o', ho', hset, hkept⟩ := ih hothers hrest o
      refine ⟨o', ?_, fun s value' v hmem => ?_, fun s hs => ?_⟩
      · simp only [addFields, hname]
        exact Report.result_bind_eq_ok.2 ⟨(), rfl, ho'⟩
      · obtain heq | hmem := List.mem_cons.1 hmem
        · exact absurd (congrArg Prod.fst heq) (hother s)
        · exact hset s value' v hmem
      · exact hkept s fun hmem => hs (List.mem_cons_of_mem _ hmem)
    | some s₀ =>
      obtain rfl := Setting.ofProtoName?_eq_some_iff.1 hname
      obtain ⟨v₀, hmeans, hkind⟩ := hfits _ List.mem_cons_self s₀ rfl
      have hread : OptionValue.read s₀.kind value = .ok v₀ :=
        OptionValue.read_eq_ok_iff.2 ⟨hmeans, hkind⟩
      obtain ⟨o', ho', hset, hkept⟩ := ih hothers hrest (o.set s₀ v₀)
      refine ⟨o', ?_, fun s value' v hmem hv => ?_, fun s hs => ?_⟩
      · simp only [addFields, hname, hread, ho']
      · obtain heq | hmem := List.mem_cons.1 hmem
        · obtain ⟨hs, rfl⟩ := Prod.mk.inj heq
          obtain rfl := Setting.protoName_injective hs
          rw [hkept s hnew, get_set_self o hkind, hmeans.unique hv]
        · exact hset s value' v hmem hv
      · rw [List.map_cons, List.mem_cons, not_or] at hs
        rw [hkept s hs.2, get_set_of_ne o fun h => hs.1 (congrArg Setting.protoName h)]

/-! ## Messages -/

/-- The names and values of the fields that are present in a message. -/
def presentFields (m : Message) : List (String × Value) :=
  m.present.map fun (t, v) => (t.name, v)

/-- Whether a message sets a setting to a value. -/
def Sets (m : Message) (s : Setting) (v : OptionValue) : Prop :=
  ∃ value, (s.protoName, value) ∈ presentFields m ∧ Means value v

/-- Worker options that can be read: no name is that of two present fields, and the fields
that settings are named after hold values of their kinds. -/
structure IsReadable (m : Message) : Prop where
  distinct : ((presentFields m).map Prod.fst).Nodup
  fits : FitsCatalog (presentFields m)

/-- A readable message gives options with the values that it sets, and with zero for what it
does not set. -/
theorem exists_ofMessage {m : Message} (h : IsReadable m) (extension element : String) :
    ∃ o, (Options.ofMessage extension element m).result = .ok o ∧
      ∀ s, Sets m s (o.get s) ∨ (∀ v, ¬ Sets m s v) ∧ (o.get s).isZero = true := by
  obtain ⟨o, ho, hset, hkept⟩ :=
    Options.exists_addFields extension element h.distinct h.fits {}
  refine ⟨o, ho, fun s => ?_⟩
  by_cases hs : s.protoName ∈ (presentFields m).map Prod.fst
  · obtain ⟨⟨_, value⟩, he, rfl⟩ := List.mem_map.1 hs
    obtain ⟨v, hv, -⟩ := h.fits _ he s rfl
    exact .inl ⟨value, he, by rwa [hset s value v he hv]⟩
  · refine .inr ⟨fun v ⟨value, he, _⟩ => hs (List.mem_map.2 ⟨_, he, rfl⟩), ?_⟩
    rw [hkept s hs]
    exact Options.isZero_get_default s

theorem Sets.unique {m : Message} (h : IsReadable m) {s : Setting} {v v' : OptionValue}
    (hv : Sets m s v) (hv' : Sets m s v') : v = v' := by
  obtain ⟨value, he, hmeans⟩ := hv
  obtain ⟨value', he', hmeans'⟩ := hv'
  obtain ⟨-, rfl⟩ := Prod.mk.inj (List.inj_on_of_nodup_map h.distinct he he' rfl)
  exact hmeans.unique hmeans'

/-! ## The list -/

/-- The settings that differ from zero under the names that they are written with. -/
def Options.fields (o : Options) : List (String × OptionValue) :=
  o.nonZero.map fun (s, v) => (s.name, v)

/-- The list of what a message sets: in the order of the catalog, every setting at most once,
and those that are set to something other than zero. -/
structure Lists (fields : List (String × OptionValue)) (m : Message) : Prop where
  catalog : (fields.map Prod.fst).Sublist (Setting.all.map Setting.name)
  mem_iff : ∀ name v, (name, v) ∈ fields ↔ ∃ s, Setting.name s = name ∧ Sets m s v ∧ v.isZero = false

theorem Lists.nodup {fields : List (String × OptionValue)} {m : Message} (h : Lists fields m) :
    (fields.map Prod.fst).Nodup :=
  h.catalog.nodup Setting.nodup_names

theorem Options.fields_sublist (o : Options) :
    (o.fields.map Prod.fst).Sublist (Setting.all.map Setting.name) := by
  have h := o.map_fst_nonZero_sublist.map Setting.name
  rw [List.map_map] at h
  rw [Options.fields, List.map_map]
  exact h

/-- Options with the values that a message sets, and zeros besides, list what it sets. -/
theorem lists_fields {m : Message} (h : IsReadable m) {o : Options}
    (ho : ∀ s, Sets m s (o.get s) ∨ (∀ v, ¬ Sets m s v) ∧ (o.get s).isZero = true) :
    Lists o.fields m := by
  refine ⟨o.fields_sublist, fun name v => ?_⟩
  simp only [Options.fields, List.mem_map, Prod.exists, Options.mem_nonZero, Prod.mk.injEq]
  constructor
  · rintro ⟨s, _, ⟨rfl, hzero⟩, rfl, rfl⟩
    obtain hset | ⟨-, hs⟩ := ho s
    · exact ⟨s, rfl, hset, hzero⟩
    · simp [hs] at hzero
  · rintro ⟨s, rfl, hset, hzero⟩
    obtain hs | ⟨hs, -⟩ := ho s
    · exact ⟨s, v, ⟨Sets.unique h hs hset, hzero⟩, rfl, rfl⟩
    · exact absurd hset (hs v)

/-- What is listed depends on nothing of a message but the settings that it sets. -/
theorem nonZero_congr {m m' : Message} (h : IsReadable m) {o o' : Options}
    (hsame : ∀ s v, Sets m' s v ↔ Sets m s v)
    (ho : ∀ s, Sets m s (o.get s) ∨ (∀ v, ¬ Sets m s v) ∧ (o.get s).isZero = true)
    (ho' : ∀ s, Sets m' s (o'.get s) ∨ (∀ v, ¬ Sets m' s v) ∧ (o'.get s).isZero = true) :
    o'.nonZero = o.nonZero := by
  simp only [Options.nonZero_eq_filterMap]
  refine List.filterMap_congr fun s _ => ?_
  obtain hs | ⟨hs, hzero⟩ := ho s <;> obtain hs' | ⟨hs', hzero'⟩ := ho' s
  · rw [Sets.unique h ((hsame s _).1 hs') hs]
  · exact absurd ((hsame s _).2 hs) (hs' _)
  · exact absurd ((hsame s _).1 hs') (hs _)
  · rw [hzero, hzero']
    rfl

/-- Worker options survive the way from a message to the list that is written out. A readable
message is read, and what is listed is what it sets. A duration is listed whenever it is
present. Another message that sets the same, whatever its type and its other fields, gives the
same list. -/
theorem lists_ofMessage {m : Message} (h : IsReadable m) (extension element : String) :
    ∃ o, (Options.ofMessage extension element m).result = .ok o ∧
      Lists o.fields m ∧
      (∀ s d, Sets m s (.duration (some d)) → (s.name, .duration (some d)) ∈ o.fields) ∧
      ∀ m', IsReadable m' → (∀ s v, Sets m' s v ↔ Sets m s v) →
        ∀ extension' element', ∃ o',
          (Options.ofMessage extension' element' m').result = .ok o' ∧ o'.fields = o.fields := by
  obtain ⟨o, ho, hget⟩ := exists_ofMessage h extension element
  have hlists := lists_fields h hget
  refine ⟨o, ho, hlists, fun s d hs => ?_, fun m' h' hsame extension' element' => ?_⟩
  · exact (hlists.mem_iff _ _).2 ⟨s, rfl, hs, rfl⟩
  · obtain ⟨o', ho', hget'⟩ := exists_ofMessage h' extension' element'
    exact ⟨o', ho', by rw [Options.fields, nonZero_congr h hsame hget hget', Options.fields]⟩

/-! ## Options under other numbers -/

/-- The type of durations. -/
def durationType : MessageType :=
  ⟨"google.protobuf.Duration",
    [⟨"seconds", 1, .scalar .int64, false, false, false, none, .i64 0⟩,
      ⟨"nanos", 2, .scalar .int32, false, false, false, none, .i32 0⟩]⟩

/-- A type of worker options with a few of the settings under numbers of its own and with
a field that is no setting. -/
def ownNumbersType : MessageType :=
  ⟨"example.WorkerOptions",
    [⟨"build_id", 300, .scalar .string, false, false, false, none, .string ""⟩,
      ⟨"enable_logging_in_replay", 2, .scalar .bool, false, false, false, none, .bool false⟩,
      ⟨"note", 4, .scalar .string, false, false, false, none, .string ""⟩,
      ⟨"worker_stop_timeout", 7, .message "google.protobuf.Duration", false, false, true, none,
        .bool false⟩]⟩

/-- Options with a timeout of no time at all. -/
def ownNumbersOptions : Message :=
  ⟨ownNumbersType,
    [(4, .leaf (.string "later")), (7, .message (.empty durationType)),
      (300, .leaf (.string "v1"))], []⟩

theorem isReadable_ownNumbersOptions : IsReadable ownNumbersOptions := by
  refine ⟨by decide +kernel, fun e he s hs => ?_⟩
  have hpresent : presentFields ownNumbersOptions =
      [("note", .leaf (.string "later")), ("worker_stop_timeout", .message (.empty durationType)),
        ("build_id", .leaf (.string "v1"))] := rfl
  rw [hpresent] at he
  simp only [List.mem_cons, List.not_mem_nil, or_false] at he
  obtain rfl | rfl | rfl := he
  · exact absurd hs (Setting.ofProtoName?_eq_none_iff.1 (by decide +kernel) s)
  · change s.protoName = Setting.workerStopTimeout.protoName at hs
    obtain rfl := Setting.protoName_injective hs
    exact ⟨.duration (some ⟨0, 0⟩), .duration rfl ⟨rfl, rfl, by decide⟩, rfl⟩
  · change s.protoName = Setting.buildId.protoName at hs
    obtain rfl := Setting.protoName_injective hs
    exact ⟨.string "v1", .string "v1", rfl⟩

theorem lists_ownNumbersOptions :
    IsReadable ownNumbersOptions ∧ ∃ o,
      (Options.ofMessage "temporal.worker" "service example.S" ownNumbersOptions).result = .ok o ∧
        Lists o.fields ownNumbersOptions ∧
        ("WorkerStopTimeout", .duration (some ⟨0, 0⟩)) ∈ o.fields := by
  refine ⟨isReadable_ownNumbersOptions, ?_⟩
  obtain ⟨o, ho, hlists, hdurations, -⟩ :=
    lists_ofMessage isReadable_ownNumbersOptions "temporal.worker" "service example.S"
  refine ⟨o, ho, hlists, hdurations .workerStopTimeout ⟨0, 0⟩ ⟨.message (.empty durationType), ?_, ?_⟩⟩
  · exact List.mem_cons_of_mem _ List.mem_cons_self
  · exact .duration rfl ⟨rfl, rfl, by decide⟩

end TemporalBindings.Worker
