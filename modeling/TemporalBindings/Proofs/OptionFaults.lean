import TemporalBindings.Proofs.Projection

/-!
# TemporalBindings.Proofs.OptionFaults

Which worker options are refused, and what is said about them. A field counts if it is present
and has the name of a setting:

```
HasProblem k v p    v cannot be a value of the kind k, for the reason p
IsFault e p         the field e has the name of a setting of such a kind
```

Fields are looked at in the order of the message, up to the first fault, which is the error.
Fields of other names leave no trace but a warning for each that is looked at, so a message of
a newer type is read like one of the known type.
-/

namespace TemporalBindings.Worker

open Schema

/-! ## Values -/

/-- Whether a value has the type that a kind asks for. -/
inductive IsOfKind : Kind → Value → Prop
  | bool (b : Bool) : IsOfKind .bool (.leaf (.bool b))
  | int (n : Int32) : IsOfKind .int (.leaf (.i32 n))
  | float (d : Number.Double) : IsOfKind .float (.leaf (.f64 d))
  | string (s : String) : IsOfKind .string (.leaf (.string s))
  | duration {m : Message} (htype : m.type.name = "google.protobuf.Duration") :
      IsOfKind .duration (.message m)

/-- Why a value cannot be one of a kind. -/
inductive HasProblem : Kind → Value → Problem → Prop
  | notOfKind {k : Kind} {value : Value} (h : ¬ IsOfKind k value) :
      HasProblem k value (.notOfKind k)
  | notFinite {d : Number.Double} (h : d.isFinite = false) :
      HasProblem .float (.leaf (.f64 d)) .notFinite
  | negative {m : Message} (htype : m.type.name = "google.protobuf.Duration")
      (h : secondsOf m < 0 ∨ nanosOf m < 0) : HasProblem .duration (.message m) .negative
  | nanosOutOfRange {m : Message} (htype : m.type.name = "google.protobuf.Duration")
      (hseconds : 0 ≤ secondsOf m) (h : 1000000000 ≤ nanosOf m) :
      HasProblem .duration (.message m) .nanosOutOfRange

/-- A duration message has at most one problem, the first of two. -/
theorem Duration.read_eq_error_iff {m : Message} {p : Problem} :
    Duration.read m = .error p ↔
      (secondsOf m < 0 ∨ nanosOf m < 0) ∧ p = .negative ∨
        0 ≤ secondsOf m ∧ 1000000000 ≤ nanosOf m ∧ p = .nanosOutOfRange := by
  have hread : Duration.read m =
      if secondsOf m < 0 ∨ nanosOf m < 0 then .error .negative
      else if 1000000000 ≤ nanosOf m then .error .nanosOutOfRange
      else .ok ⟨(secondsOf m).toNat, (nanosOf m).toNat⟩ := rfl
  rw [hread]
  split
  · next hsigns =>
    rw [Except.error.injEq, eq_comm]
    exact ⟨fun h => .inl ⟨hsigns, h⟩, fun h => by
      obtain ⟨-, h⟩ | ⟨hseconds, hnanos, -⟩ := h
      · exact h
      · omega⟩
  · next hsigns =>
    split
    · next hrange =>
      rw [Except.error.injEq, eq_comm]
      exact ⟨fun h => .inr ⟨by omega, hrange, h⟩, fun h => by
        obtain ⟨hsigns', -⟩ | ⟨-, -, h⟩ := h
        · exact absurd hsigns' hsigns
        · exact h⟩
    · next hrange =>
      refine iff_of_false (by simp) ?_
      rintro (⟨hsigns', -⟩ | ⟨-, hrange', -⟩)
      · exact hsigns hsigns'
      · exact hrange hrange'

/-- What has the type of a kind and is no value of it. -/
theorem HasProblem.of_isOfKind {k : Kind} {value : Value} {p : Problem} (hkind : IsOfKind k value)
    (h : OptionValue.read k value = .error p) : HasProblem k value p := by
  cases hkind with
  | bool b => cases h
  | int n => cases h
  | float d =>
    simp only [OptionValue.read] at h
    split at h
    · cases h
    · next hd =>
      obtain rfl := Except.error.inj h
      exact .notFinite (Bool.eq_false_iff.2 hd)
  | string s => cases h
  | @duration m htype =>
    simp only [OptionValue.read, if_pos htype] at h
    cases hd : Duration.read m with
    | ok d => simp [hd, Except.map] at h
    | error p' =>
      rw [hd] at h
      obtain rfl := Except.error.inj h
      obtain ⟨hsigns, rfl⟩ | ⟨hseconds, hnanos, rfl⟩ := Duration.read_eq_error_iff.1 hd
      · exact .negative htype hsigns
      · exact .nanosOutOfRange htype hseconds hnanos

theorem read_of_not_isOfKind {k : Kind} {value : Value} (h : ¬ IsOfKind k value) :
    OptionValue.read k value = .error (.notOfKind k) := by
  unfold OptionValue.read
  split
  · exact absurd (.bool _) h
  · exact absurd (.int _) h
  · exact absurd (.float _) h
  · exact absurd (.string _) h
  · exact if_neg fun htype => h (.duration htype)
  · rfl

/-- A value is refused for its problem. -/
theorem OptionValue.read_eq_error_iff {k : Kind} {value : Value} {p : Problem} :
    OptionValue.read k value = .error p ↔ HasProblem k value p := by
  constructor
  · intro h
    by_cases hkind : IsOfKind k value
    · exact .of_isOfKind hkind h
    · rw [read_of_not_isOfKind hkind] at h
      obtain rfl := Except.error.inj h
      exact .notOfKind hkind
  · intro h
    cases h with
    | notOfKind h => exact read_of_not_isOfKind h
    | notFinite h => simp [OptionValue.read, h]
    | negative htype h =>
      simp [OptionValue.read, htype, Duration.read_eq_error_iff.2 (.inl ⟨h, rfl⟩), Except.map]
    | nanosOutOfRange htype hseconds h =>
      simp [OptionValue.read, htype, Duration.read_eq_error_iff.2 (.inr ⟨hseconds, h, rfl⟩),
        Except.map]

/-! ## Fields -/

/-- A field that has the name of a setting and cannot be its value. -/
def IsFault (e : String × Value) (p : Problem) : Prop :=
  ∃ s : Setting, s.protoName = e.1 ∧ HasProblem s.kind e.2 p

/-- A field is at fault for one reason. -/
theorem IsFault.eq {e : String × Value} {p p' : Problem} (h : IsFault e p) (h' : IsFault e p') :
    p' = p := by
  obtain ⟨s, hs, hp⟩ := h
  obtain ⟨s', hs', hp'⟩ := h'
  obtain rfl := Setting.protoName_injective (hs'.trans hs.symm)
  have hread := OptionValue.read_eq_error_iff.2 hp
  rw [OptionValue.read_eq_error_iff.2 hp'] at hread
  exact Except.error.inj hread

/-- Whether a field has the name of a setting. -/
def isKnown (e : String × Value) : Bool :=
  e.1 ∈ Setting.all.map Setting.protoName

theorem isKnown_iff {e : String × Value} : isKnown e = true ↔ ∃ s : Setting, s.protoName = e.1 := by
  simp [isKnown, Setting.mem_all]

/-- The warnings about the fields that have the name of no setting, one for each. -/
def warningsOf (extension element : String) (fields : List (String × Value)) : List Warning :=
  (fields.filter fun e => !isKnown e).map fun e => ⟨extension, element, e.1⟩

namespace Options

variable {extension element : String} {e : String × Value} {fields : List (String × Value)}

/-! ### One field -/

/-- A field without a setting is passed with a warning. -/
theorem addFields_cons_of_not_isKnown (h : isKnown e = false) (o : Options) :
    addFields extension element o (e :: fields) =
      ⟨⟨extension, element, e.1⟩ :: (addFields extension element o fields).warnings,
        (addFields extension element o fields).result⟩ := by
  have hname : Setting.ofProtoName? e.1 = none := by
    refine Setting.ofProtoName?_eq_none_iff.2 fun s hs => ?_
    rw [isKnown_iff.2 ⟨s, hs⟩] at h
    cases h
  simp only [addFields, hname]
  rfl

/-- A field that is at fault is the error. -/
theorem addFields_cons_of_isFault {p : Problem} (h : IsFault e p) (o : Options) :
    addFields extension element o (e :: fields) =
      ⟨[], .error (.malformedExtension extension element e.1 p)⟩ := by
  obtain ⟨s, hs, hp⟩ := h
  have hname := Setting.ofProtoName?_eq_some_iff.2 hs
  simp only [addFields, hname, OptionValue.read_eq_error_iff.2 hp]
  rfl

/-- Any other field changes its setting. -/
theorem exists_addFields_cons (hknown : isKnown e = true) (h : ∀ p, ¬ IsFault e p) (o : Options) :
    ∃ o', ∀ fields, addFields extension element o (e :: fields) =
      addFields extension element o' fields := by
  obtain ⟨s, hs⟩ := isKnown_iff.1 hknown
  have hname := Setting.ofProtoName?_eq_some_iff.2 hs
  cases hread : OptionValue.read s.kind e.2 with
  | error p => exact absurd ⟨s, hs, OptionValue.read_eq_error_iff.1 hread⟩ (h p)
  | ok v => exact ⟨o.set s v, fun fields => by simp only [addFields, hname, hread]⟩

/-! ### All fields -/

/-- Fields without a fault leave warnings and what follows them to be read. -/
theorem exists_addFields_append (h : ∀ e ∈ fields, ∀ p, ¬ IsFault e p) (o : Options) :
    ∃ o', ∀ rest, addFields extension element o (fields ++ rest) =
      ⟨warningsOf extension element fields ++ (addFields extension element o' rest).warnings,
        (addFields extension element o' rest).result⟩ := by
  induction fields generalizing o with
  | nil => exact ⟨o, fun rest => rfl⟩
  | cons e fields ih =>
    have hrest : ∀ e ∈ fields, ∀ p, ¬ IsFault e p := fun e he => h e (List.mem_cons_of_mem _ he)
    cases hknown : isKnown e with
    | false =>
      obtain ⟨o', ho'⟩ := ih hrest o
      refine ⟨o', fun rest => ?_⟩
      rw [List.cons_append, addFields_cons_of_not_isKnown hknown, ho']
      simp [warningsOf, hknown]
    | true =>
      obtain ⟨o₁, ho₁⟩ := exists_addFields_cons hknown (h e List.mem_cons_self) o
      obtain ⟨o', ho'⟩ := ih hrest o₁
      refine ⟨o', fun rest => ?_⟩
      rw [List.cons_append, ho₁, ho']
      simp [warningsOf, hknown]

/-- Without a fault there are options. -/
theorem exists_addFields_eq_ok (h : ∀ e ∈ fields, ∀ p, ¬ IsFault e p) (o : Options) :
    ∃ o', addFields extension element o fields = ⟨warningsOf extension element fields, .ok o'⟩ := by
  obtain ⟨o', ho'⟩ := exists_addFields_append h o
  refine ⟨o', ?_⟩
  have hnil := ho' []
  rw [List.append_nil] at hnil
  rw [hnil]
  simp [addFields, Report.pure_def]

/-- The first fault is the error, and nothing behind it is looked at. -/
theorem addFields_append_of_isFault {before after : List (String × Value)} {p : Problem}
    (hbefore : ∀ e ∈ before, ∀ p, ¬ IsFault e p) (h : IsFault e p) (o : Options) :
    addFields extension element o (before ++ e :: after) =
      ⟨warningsOf extension element before,
        .error (.malformedExtension extension element e.1 p)⟩ := by
  obtain ⟨o', ho'⟩ := exists_addFields_append hbefore o
  rw [ho', addFields_cons_of_isFault h]
  simp

/-- If there is a fault, there is a first one. -/
theorem exists_first_fault (h : ∃ e ∈ fields, ∃ p, IsFault e p) :
    ∃ before e after p, fields = before ++ e :: after ∧ (∀ e ∈ before, ∀ p, ¬ IsFault e p) ∧
      IsFault e p := by
  induction fields with
  | nil => simp at h
  | cons e fields ih =>
    by_cases he : ∃ p, IsFault e p
    · obtain ⟨p, hp⟩ := he
      exact ⟨[], e, fields, p, rfl, by simp, hp⟩
    · obtain ⟨e', he', hp⟩ := h
      obtain rfl | hmem := List.mem_cons.1 he'
      · exact absurd hp he
      · obtain ⟨before, e', after, p, rfl, hbefore, hp⟩ := ih ⟨e', hmem, hp⟩
        refine ⟨e :: before, e', after, p, rfl, fun x hx => ?_, hp⟩
        obtain rfl | hx := List.mem_cons.1 hx
        · exact fun p hp => he ⟨p, hp⟩
        · exact hbefore x hx

/-- Only the fields that have the name of a setting have a say in the result. -/
theorem result_addFields_filter (o : Options) :
    (addFields extension element o (fields.filter isKnown)).result =
      (addFields extension element o fields).result := by
  induction fields generalizing o with
  | nil => rfl
  | cons e fields ih =>
    cases hknown : isKnown e with
    | false => rw [List.filter_cons_of_neg (by simp [hknown]), ih,
        addFields_cons_of_not_isKnown hknown]
    | true =>
      rw [List.filter_cons_of_pos hknown]
      by_cases he : ∃ p, IsFault e p
      · obtain ⟨p, hp⟩ := he
        rw [addFields_cons_of_isFault hp, addFields_cons_of_isFault hp]
      · obtain ⟨o', ho'⟩ := exists_addFields_cons hknown (fun p hp => he ⟨p, hp⟩) o
        rw [ho', ho', ih]

end Options

/-! ## Messages -/

/-- A message without the fields that have the name of no setting. -/
def knownPart (m : Message) : Message :=
  ⟨m.type,
    m.stored.filter fun (number, v) => (m.type.field? number).all fun t => isKnown (t.name, v),
    m.undeclared⟩

theorem presentFields_knownPart (m : Message) :
    presentFields (knownPart m) = (presentFields m).filter isKnown := by
  have htype : (knownPart m).type = m.type := rfl
  have hstored : (knownPart m).stored = m.stored.filter fun (number, v) =>
      (m.type.field? number).all fun t => isKnown (t.name, v) := rfl
  simp only [presentFields, Message.present, htype, hstored]
  induction m.stored with
  | nil => rfl
  | cons e stored ih =>
    obtain ⟨number, v⟩ := e
    cases hfield : m.type.field? number with
    | none => simp [hfield, ih]
    | some t =>
      cases hpresent : t.presentWith v <;> cases hknown : isKnown (t.name, v) <;>
        simp [hfield, hpresent, hknown, ih]

/-- What reading worker options from a message has to report. -/
structure IsCheckOf (m : Message) (extension element : String) (r : Report Options) : Prop where
  /-- It fails iff a present field has the name of a setting and cannot be its value. -/
  fails_iff : (∃ error, r.result = .error error) ↔ ∃ e ∈ presentFields m, ∃ p, IsFault e p
  /-- The error is the first fault, with the reason for it, and there is one warning for each
  field without a setting before it. -/
  first : ∀ error, r.result = .error error →
    ∃ before e after p, presentFields m = before ++ e :: after ∧
      (∀ e ∈ before, ∀ p, ¬ IsFault e p) ∧ (∀ p', IsFault e p' ↔ p' = p) ∧
      error = .malformedExtension extension element e.1 p ∧
      r.warnings = warningsOf extension element before
  /-- Without an error there is one warning for each field without a setting. -/
  warned : ∀ o, r.result = .ok o → r.warnings = warningsOf extension element (presentFields m)
  /-- Without the fields that have no setting the result is the same, and so is that of any
  message that has the same ones with a setting. -/
  unknown : (Options.ofMessage extension element (knownPart m)).result = r.result ∧
    ∀ m', (presentFields m').filter isKnown = (presentFields m).filter isKnown →
      (Options.ofMessage extension element m').result = r.result
  /-- If it succeeds, more fields without a fault do no harm. -/
  more : ∀ o, r.result = .ok o → ∀ m',
    (∀ e ∈ presentFields m', e ∈ presentFields m ∨ ∀ p, ¬ IsFault e p) →
      ∃ o', (Options.ofMessage extension element m').result = .ok o'

/-- The two outcomes of reading options from a message. -/
theorem ofMessage_cases (m : Message) (extension element : String) :
    ((∀ e ∈ presentFields m, ∀ p, ¬ IsFault e p) ∧ ∃ o,
        Options.ofMessage extension element m =
          ⟨warningsOf extension element (presentFields m), .ok o⟩) ∨
      ∃ before e after p, presentFields m = before ++ e :: after ∧
        (∀ e ∈ before, ∀ p, ¬ IsFault e p) ∧ IsFault e p ∧
        Options.ofMessage extension element m =
          ⟨warningsOf extension element before,
            .error (.malformedExtension extension element e.1 p)⟩ := by
  have hfields : Options.ofMessage extension element m =
      Options.addFields extension element {} (presentFields m) := rfl
  rw [hfields]
  by_cases h : ∃ e ∈ presentFields m, ∃ p, IsFault e p
  · obtain ⟨before, e, after, p, hsplit, hbefore, hp⟩ := Options.exists_first_fault h
    rw [hsplit]
    exact .inr ⟨before, e, after, p, rfl, hbefore, hp,
      Options.addFields_append_of_isFault hbefore hp {}⟩
  · push Not at h
    exact .inl ⟨h, Options.exists_addFields_eq_ok h {}⟩

/-- Two messages with the same fields that have a setting give the same result. -/
theorem result_ofMessage_congr {m m' : Message}
    (h : (presentFields m').filter isKnown = (presentFields m).filter isKnown)
    (extension element : String) :
    (Options.ofMessage extension element m').result =
      (Options.ofMessage extension element m).result := by
  have hfilter (m : Message) : (Options.ofMessage extension element m).result =
      (Options.addFields extension element {} ((presentFields m).filter isKnown)).result :=
    (Options.result_addFields_filter {}).symm
  rw [hfilter m', hfilter m, h]

/-- Worker options are refused for their first fault and for nothing else. -/
theorem isCheckOf_ofMessage (m : Message) (extension element : String) :
    IsCheckOf m extension element (Options.ofMessage extension element m) := by
  have hunknown : (presentFields (knownPart m)).filter isKnown =
      (presentFields m).filter isKnown := by
    rw [presentFields_knownPart, List.filter_filter]
    simp
  have hsame (m' : Message)
      (h : (presentFields m').filter isKnown = (presentFields m).filter isKnown) :
      (Options.ofMessage extension element m').result =
        (Options.ofMessage extension element m).result :=
    result_ofMessage_congr h extension element
  obtain ⟨hnone, o, ho⟩ | ⟨before, e, after, p, hsplit, hbefore, hp, herror⟩ :=
    ofMessage_cases m extension element
  · rw [ho] at hsame ⊢
    refine ⟨?_, ?_, fun _ _ => rfl, ⟨hsame _ hunknown, hsame⟩, fun _ _ m' hm' => ?_⟩
    · exact iff_of_false (by simp) fun ⟨e, he, p, hp⟩ => hnone e he p hp
    · intro error herror
      cases herror
    · obtain ⟨-, o', ho'⟩ | ⟨before, e, after, p, hsplit, -, hp, -⟩ :=
        ofMessage_cases m' extension element
      · exact ⟨o', by rw [ho']⟩
      · have hmem : e ∈ presentFields m' := by simp [hsplit]
        obtain he | he := hm' e hmem
        · exact absurd hp (hnone e he p)
        · exact absurd hp (he p)
  · rw [herror] at hsame ⊢
    refine ⟨?_, ?_, ?_, ⟨hsame _ hunknown, hsame⟩, ?_⟩
    · exact iff_of_true ⟨_, rfl⟩ ⟨e, by simp [hsplit], p, hp⟩
    · intro error h
      obtain rfl := Except.error.inj h
      exact ⟨before, e, after, p, hsplit, hbefore, fun p' => ⟨hp.eq, fun h => h ▸ hp⟩, rfl, rfl⟩
    · intro o ho
      cases ho
    · intro o ho
      cases ho

end TemporalBindings.Worker
