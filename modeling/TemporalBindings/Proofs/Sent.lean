import TemporalBindings.Proofs.Rewritten
import TemporalBindings.Proofs.WithoutOptions

/-!
# TemporalBindings.Proofs.Sent

The options of methods as they are sent. A descriptor is read field by field, and several
options of one method are one message in several pieces: their bytes come one after the
other, each of them splits into fields, and so do all together.
-/

namespace TemporalBindings.Schema

open Wire

/-! ## Types of messages -/

namespace Types

variable {ts : Types} {m m' : Message} {t : FieldType} {bytes rest : List UInt8} {depth : Nat}
  {read : MessageReader}

theorem type_addUndeclared {f : Field} (h : ts.addUndeclared depth m f = some m') :
    m'.type = m.type := by
  unfold addUndeclared passOver at h
  split at h <;> split at h <;> cases h <;> rfl

theorem type_addLeaves {f : Field} {kind : Kind} {readLeaf : Field → Option Leaf}
    (h : addLeaves m t f kind readLeaf = some m') : m'.type = m.type := by
  unfold addLeaves at h
  split at h
  · obtain ⟨fs, -, h⟩ := Option.bind_eq_some_iff.1 h
    obtain ⟨vs, -, h⟩ := Option.bind_eq_some_iff.1 h
    obtain rfl := Option.some.inj h
    exact Message.type_store ..
  · obtain ⟨v, -, rfl⟩ := Option.map_eq_some_iff.1 h
    exact Message.type_store ..

theorem type_storeMessage (m : Message) (t : FieldType) (x : Message) :
    (m.storeMessage t x).type = m.type := by
  unfold Message.storeMessage
  split <;> exact Message.type_store ..

/-- A field does not change the type of the message that it is read into. -/
theorem type_readStep {n : Nat} {kind : Kind}
    (h : ts.readStep depth read m n kind bytes = some (m', rest)) : m'.type = m.type := by
  unfold readStep at h
  split at h
  · obtain ⟨f, -, hadd⟩ := readPlain_eq_some h
    exact type_addUndeclared hadd
  · split at h
    · obtain ⟨f, -, hadd⟩ := readPlain_eq_some h
      exact type_addLeaves hadd
    · obtain ⟨f, -, hadd⟩ := readPlain_eq_some h
      exact type_addLeaves hadd
    · split at h
      · obtain ⟨b, x, -, rfl⟩ := exists_of_readNestedMessage h
        exact type_storeMessage ..
      · cases h
    · split at h
      · obtain ⟨type, inner, x, -, -, rfl⟩ := exists_of_readNestedGroup h
        exact type_storeMessage ..
      · cases h
    · obtain ⟨b, x, -, rfl⟩ := exists_of_readMapEntry h
      exact Message.type_store ..

theorem type_readUntil {fuel : Nat} {extent : Extent}
    (h : ts.readUntil fuel depth extent m bytes = some (m', rest)) : m'.type = m.type := by
  induction fuel generalizing m bytes with
  | zero => cases h
  | succ fuel ih =>
    cases bytes with
    | nil =>
      cases extent with
      | group n => cases h
      | message | entry =>
        obtain ⟨rfl, -⟩ := Prod.mk.inj (Option.some.inj h)
        rfl
    | cons b bs =>
      rw [readUntil] at h
      obtain ⟨⟨n, kind, inner⟩, -, h⟩ := Option.bind_eq_some_iff.1 h
      dsimp only at h
      split at h
      · split at h
        · obtain ⟨rfl, -⟩ := Prod.mk.inj (Option.some.inj h)
          rfl
        · cases h
      · split at h
        · obtain ⟨⟨m₁, rest₁⟩, hm₁, h⟩ := Option.bind_eq_some_iff.1 h
          exact (ih h).trans (type_readStep hm₁)
        · obtain ⟨⟨f, rest₁⟩, -, h⟩ := Option.bind_eq_some_iff.1 h
          obtain ⟨m₁, hm₁, h⟩ := Option.bind_eq_some_iff.1 h
          unfold passOver at hm₁
          split at hm₁
          · cases hm₁
            exact ih h
          · cases hm₁

/-- Reading does not change the type of the message that is read into. -/
theorem type_readInto (h : ts.readInto depth m bytes = some m') : m'.type = m.type := by
  obtain ⟨⟨m'', rest⟩, hread, rfl⟩ := Option.map_eq_some_iff.1 h
  exact type_readUntil hread

end Types

/-! ## Options -/

/-- Options of an element whose options are of a given type, and whose bytes split into
fields. -/
structure Options.IsOf (o : Options) (type : MessageType) : Prop where
  type : o.basic.type = type
  fields : (readFields o.bytes).isSome

theorem Options.isOf_empty (type : MessageType) : (Options.empty type).IsOf type :=
  ⟨rfl, rfl⟩

theorem Options.IsOf.add? {o o' : Options} {type : MessageType} {depth : Nat} {bytes : List UInt8}
    (h : o.IsOf type) (ho' : o.add? depth bytes = some o') :
    o'.IsOf type ∧ o'.bytes = o.bytes ++ bytes := by
  obtain ⟨fields, hfields, ho'⟩ := Option.bind_eq_some_iff.1 ho'
  obtain ⟨m, hm, ho'⟩ := Option.bind_eq_some_iff.1 ho'
  split at ho'
  · cases ho'
    obtain ⟨before, hbefore⟩ := Option.isSome_iff_exists.1 h.fields
    refine ⟨⟨(Types.type_readInto hm).trans h.type, ?_⟩, rfl⟩
    rw [readFields_append hbefore hfields, Option.isSome_some]
  · cases ho'

theorem Options.IsOf.read {o o' : Options} {type : MessageType} {depth : Nat} {f : Field}
    (h : o.IsOf type) (ho' : o.read depth f = some o') :
    o'.IsOf type ∧ ∃ bytes, f.bytes? = some bytes ∧ o'.bytes = o.bytes ++ bytes := by
  unfold Options.read at ho'
  split at ho'
  · cases ho'
  · obtain ⟨bytes, hbytes, ho'⟩ := Option.bind_eq_some_iff.1 ho'
    obtain ⟨hisOf, happend⟩ := h.add? ho'
    exact ⟨hisOf, bytes, hbytes, happend⟩

/-! ## Descriptors -/

/-- What every step keeps is kept by all of them. -/
theorem of_foldlM {α β : Type} {step : α → β → Option α} {P : α → Prop}
    (hstep : ∀ a b a', step a b = some a' → P a → P a') {a a' : α} {bs : List β}
    (h : bs.foldlM step a = some a') (ha : P a) : P a' := by
  induction bs generalizing a with
  | nil =>
    obtain rfl := Option.some.inj h
    exact ha
  | cons b bs ih =>
    rw [List.foldlM_cons] at h
    obtain ⟨a₁, ha₁, h⟩ := Option.bind_eq_some_iff.1 h
    exact ih h (hstep a b a₁ ha₁ ha)

theorem of_readNested {α : Type} {add : Nat → α → Field → Option α} {P : α → Prop} {depth : Nat}
    {f : Field} {empty a : α} (h : readNested depth f empty add = some a)
    (hadd : ∀ depth a f a', add depth a f = some a' → P a → P a') (hempty : P empty) : P a := by
  obtain ⟨fs, -, h⟩ := Option.bind_eq_some_iff.1 h
  exact of_foldlM (hadd (depth - 1)) h hempty

/-- The options in a field of a method. -/
def optionsPayload (f : Field) : List UInt8 :=
  if f.number = 4 then f.bytes?.getD [] else []

/-- A field of a method adds to its options what it has of them. -/
theorem MethodDescriptor.addField_options {depth : Nat} {d d' : MethodDescriptor} {f : Field}
    (h : d.addField depth f = some d') (hd : d.options.IsOf Standard.methodOptions) :
    d'.options.IsOf Standard.methodOptions ∧
      d'.options.bytes = d.options.bytes ++ optionsPayload f := by
  unfold addField checked passOver at h
  split at h
  case h_4 hn =>
    obtain ⟨o, ho, rfl⟩ := Option.map_eq_some_iff.1 h
    obtain ⟨hisOf, bytes, hbytes, happend⟩ := hd.read ho
    exact ⟨hisOf, by simp [optionsPayload, hn, hbytes, happend]⟩
  case h_7 _ _ _ hn _ _ =>
    split at h
    · cases h
      exact ⟨hd, by rw [optionsPayload, if_neg hn, List.append_nil]⟩
    · cases h
  all_goals
    obtain ⟨_, -, rfl⟩ := Option.map_eq_some_iff.1 h
    exact ⟨hd, by simp [optionsPayload, *]⟩

/-- The options of all methods of a service are of their type and split into fields. -/
def ServiceDescriptor.HasMethodOptions (d : ServiceDescriptor) : Prop :=
  ∀ m ∈ d.methods, m.options.IsOf Standard.methodOptions

theorem ServiceDescriptor.hasMethodOptions_addField {depth : Nat} {d d' : ServiceDescriptor}
    {f : Field} (h : d.addField depth f = some d') (hd : d.HasMethodOptions) :
    d'.HasMethodOptions := by
  unfold addField passOver at h
  split at h
  case h_2 =>
    obtain ⟨m, hm, rfl⟩ := Option.map_eq_some_iff.1 h
    have hoptions : m.options.IsOf Standard.methodOptions :=
      of_readNested (P := fun m => m.options.IsOf Standard.methodOptions) hm
        (fun _ _ _ _ ha' ha => (MethodDescriptor.addField_options ha' ha).1) (Options.isOf_empty _)
    intro m' hm'
    obtain hm' | hm' := List.mem_append.1 hm'
    · exact hd m' hm'
    · exact List.mem_singleton.1 hm' ▸ hoptions
  case h_4 =>
    split at h
    · cases h
      exact hd
    · cases h
  all_goals
    obtain ⟨_, -, rfl⟩ := Option.map_eq_some_iff.1 h
    exact hd

/-- The options of all methods of a file are of their type and split into fields. -/
def FileDescriptor.HasMethodOptions (d : FileDescriptor) : Prop :=
  ∀ s ∈ d.services, s.HasMethodOptions

theorem FileDescriptor.hasMethodOptions_addField {depth : Nat} {d d' : FileDescriptor} {f : Field}
    (h : d.addField depth f = some d') (hd : d.HasMethodOptions) : d'.HasMethodOptions := by
  unfold addField passOver at h
  split at h
  case h_4 =>
    obtain ⟨inner, -, h⟩ := Option.bind_eq_some_iff.1 h
    obtain ⟨t, -, ⟨⟩⟩ := Option.bind_eq_some_iff.1 h
    exact hd
  case h_6 =>
    obtain ⟨s, hs, rfl⟩ := Option.map_eq_some_iff.1 h
    have hoptions : s.HasMethodOptions :=
      of_readNested hs (fun _ _ _ _ => ServiceDescriptor.hasMethodOptions_addField)
        (by simp [ServiceDescriptor.HasMethodOptions])
    intro s' hs'
    obtain hs' | hs' := List.mem_append.1 hs'
    · exact hd s' hs'
    · exact List.mem_singleton.1 hs' ▸ hoptions
  case h_13 =>
    split at h
    · cases h
      exact hd
    · cases h
  all_goals
    obtain ⟨_, -, rfl⟩ := Option.map_eq_some_iff.1 h
    exact hd

/-- The options of the methods of a file that has been read are of their type and split into
fields. -/
theorem FileDescriptor.hasMethodOptions_read {bytes : List UInt8} {d : FileDescriptor}
    (h : read bytes = some d) : d.HasMethodOptions := by
  obtain ⟨fs, -, h⟩ := Option.bind_eq_some_iff.1 h
  exact of_foldlM (fun _ _ _ => hasMethodOptions_addField) h (by simp [HasMethodOptions])

end TemporalBindings.Schema
