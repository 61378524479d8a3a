import TemporalBindings.Proofs.FieldByField

/-!
# TemporalBindings.Proofs.Rewritten

Reading a message, writing it and reading what has been written. What is written is a field
for every value that is present and the fields that were kept, so the same numbers come out
that went in, unless one of them belongs to a field that can occur and still be absent. The
second reader may know other types than the first.
-/

namespace TemporalBindings.Schema

open Wire

variable {ts : Types} {t : FieldType}

/-! ## Fields of values -/

theorem Scalar.isNumbered_write {n : Nat} (hn : IsNumber n) (s : Scalar) (v : Leaf) :
    (s.write n v).IsNumbered ∧ (s.write n v).number = n := by
  have hvarint (x : UInt64) : (Field.varint n x).IsNumbered ∧ (Field.varint n x).number = n :=
    ⟨.varint hn, rfl⟩
  have hfixed64 (x : UInt64) : (Field.fixed64 n x).IsNumbered ∧ (Field.fixed64 n x).number = n :=
    ⟨.fixed64 hn, rfl⟩
  have hfixed32 (x : UInt32) : (Field.fixed32 n x).IsNumbered ∧ (Field.fixed32 n x).number = n :=
    ⟨.fixed32 hn, rfl⟩
  have hbytes (x : List UInt8) : (Field.bytes n x).IsNumbered ∧ (Field.bytes n x).number = n :=
    ⟨.bytes hn, rfl⟩
  unfold Scalar.write
  split
  all_goals first | exact hvarint _ | exact hfixed64 _ | exact hfixed32 _ | exact hbytes _

theorem FieldType.isNumbered_leafField (ht : IsNumber t.number) (v : Leaf) :
    (t.leafField v).IsNumbered ∧ (t.leafField v).number = t.number := by
  unfold FieldType.leafField
  split
  · next s _ => exact s.isNumbered_write ht v
  · exact Scalar.int32.isNumbered_write ht v

theorem FieldType.isNumbered_messageField {fs : List Field} (ht : IsNumber t.number)
    (hfs : ∀ name, t.kind = .group name → ∀ f ∈ fs, f.IsNumbered) :
    (t.messageField fs).IsNumbered ∧ (t.messageField fs).number = t.number := by
  unfold FieldType.messageField
  split
  · next name hkind => exact ⟨.group ht (hfs name hkind), rfl⟩
  · exact ⟨.bytes ht, rfl⟩

namespace Types

mutual

/-- A value is written under the number of its field, and the numbers in it are such as fields
can have if those in the messages of a group are. -/
theorem isNumbered_of_mem_fieldsOfValue (ht : IsNumber t.number) : (v : Value) →
    (∀ name, t.kind = .group name → ∀ x ∈ v.messages, ∀ f ∈ ts.fieldsOf x, f.IsNumbered) →
    ∀ f ∈ ts.fieldsOfValue t v, f.IsNumbered ∧ f.number = t.number
  | .leaf v, _, f, hf => by
    obtain rfl : f = t.leafField v := by simpa [fieldsOfValue] using hf
    exact FieldType.isNumbered_leafField ht v
  | .message x, hx, f, hf => by
    obtain rfl : f = t.messageField (ts.fieldsOf x) := by simpa [fieldsOfValue] using hf
    exact FieldType.isNumbered_messageField ht fun name hkind =>
      hx name hkind x (by simp [Value.messages])
  | .list items, hitems, f, hf => by
    rw [fieldsOfValue, FieldType.itemFields] at hf
    split at hf
    · obtain rfl := List.mem_singleton.1 hf
      exact ⟨.bytes ht, rfl⟩
    · exact isNumbered_of_mem_fieldsOfItems ht items hitems f hf
  | .map entries, hentries, f, hf => by
    rw [fieldsOfValue] at hf
    exact isNumbered_of_mem_fieldsOfItems ht entries hentries f hf

theorem isNumbered_of_mem_fieldsOfItems (ht : IsNumber t.number) : (vs : List Value) →
    (∀ name, t.kind = .group name → ∀ x ∈ Value.messagesOf vs, ∀ f ∈ ts.fieldsOf x,
      f.IsNumbered) →
    ∀ f ∈ ts.fieldsOfItems t vs, f.IsNumbered ∧ f.number = t.number
  | [], _, f, hf => by simp [fieldsOfItems] at hf
  | v :: vs, h, f, hf => by
    simp only [Value.messagesOf, List.mem_append] at h
    rw [fieldsOfItems, List.mem_append] at hf
    obtain hf | hf := hf
    · exact isNumbered_of_mem_fieldsOfValue ht v
        (fun name hkind x hx => h name hkind x (.inl hx)) f hf
    · exact isNumbered_of_mem_fieldsOfItems ht vs
        (fun name hkind x hx => h name hkind x (.inr hx)) f hf

end

/-! ## Fields of messages -/

theorem mem_fieldsOfStored {type : MessageType} {stored : List (Nat × Value)} {f : Field} :
    f ∈ ts.fieldsOfStored type stored ↔ ∃ n v t, (n, v) ∈ stored ∧ ts.field? type n = some t ∧
      t.presentWith v ∧ f ∈ ts.fieldsOfValue t v := by
  have hflatMap : ts.fieldsOfStored type stored = stored.flatMap fun e =>
      (ts.field? type e.1).elim [] fun t =>
        if t.presentWith e.2 then ts.fieldsOfValue t e.2 else [] := by
    induction stored with
    | nil => rw [fieldsOfStored, List.flatMap_nil]
    | cons e rest ih =>
      rw [fieldsOfStored, ih, List.flatMap_cons]
      cases ts.field? type e.1 <;> rfl
  rw [hflatMap, List.mem_flatMap]
  constructor
  · rintro ⟨⟨n, v⟩, hv, hf⟩
    cases ht : ts.field? type n with
    | none => simp [ht] at hf
    | some t =>
      rw [ht, Option.elim_some] at hf
      split at hf
      · next hpresent => exact ⟨n, v, t, hv, ht, hpresent, hf⟩
      · cases hf
  · rintro ⟨n, v, t, hv, ht, hpresent, hf⟩
    exact ⟨(n, v), hv, by simpa [ht, hpresent] using hf⟩

theorem fieldsOf_eq (ts : Types) (m : Message) :
    ts.fieldsOf m = ts.fieldsOfStored m.type m.stored ++ m.undeclared := by
  obtain ⟨type, stored, undeclared⟩ := m
  rw [fieldsOf]
  rfl

/-- The numbers in what is written for a message that has been read are such as fields can
have. -/
theorem isNumbered_of_mem_fieldsOf {m : Message} (hm : ts.IsRead m) :
    ∀ f ∈ ts.fieldsOf m, f.IsNumbered := by
  induction hm with
  | @intro m known undeclared type content ih =>
    intro f hf
    rw [fieldsOf_eq, List.mem_append, mem_fieldsOfStored] at hf
    obtain ⟨n, v, t, hv, ht, -, hf⟩ | hf := hf
    · obtain ⟨t', ht', hn, -⟩ := known n v hv
      have hnumber : IsNumber t.number := number_of_field? ht ▸ hn
      exact (isNumbered_of_mem_fieldsOfValue hnumber v
        (fun name hkind x hx => ih n v t name x hv ht hkind hx) f hf).1
    · exact (undeclared f hf).2

/-- What is written for a value that is set has its number. -/
theorem number_of_mem_fieldsOfValue {m : Message} {n : Nat} {v : Value} {f : Field}
    (hm : ts.IsRead m) (hv : (n, v) ∈ m.stored) (ht : ts.field? m.type n = some t)
    (hf : f ∈ ts.fieldsOfValue t v) : f.number = n := by
  obtain ⟨known, -, -, content⟩ := hm
  obtain ⟨-, -, hn, -⟩ := known n v hv
  have hnumber : IsNumber t.number := number_of_field? ht ▸ hn
  rw [← number_of_field? ht]
  exact (isNumbered_of_mem_fieldsOfValue hnumber v
    (fun name hkind x hx => isNumbered_of_mem_fieldsOf (content n v t name x hv ht hkind hx))
    f hf).2

/-- A number that stays present is written iff it is set. -/
theorem any_number_fieldsOf {m : Message} {n : Nat} (hm : ts.IsRead m)
    (ht : ts.field? m.type n = some t) (hstays : t.staysPresent) :
    (ts.fieldsOf m).any (·.number == n) = m.sets n := by
  have hread := hm
  obtain ⟨known, undeclared, -, -⟩ := hread
  rw [Bool.eq_iff_iff, List.any_eq_true, Message.sets, List.lookup_isSome_iff]
  simp only [beq_iff_eq, fieldsOf_eq, List.mem_append, mem_fieldsOfStored]
  constructor
  · rintro ⟨f, ⟨n', v, t', hv, ht', -, hf⟩ | hf, rfl⟩
    · exact ⟨(n', v), hv, number_of_mem_fieldsOfValue hm hv ht' hf⟩
    · simp [(undeclared f hf).1] at ht
  · rintro ⟨⟨n, v⟩, hv, rfl⟩
    obtain ⟨t', ht', -, hvisible⟩ := known n v hv
    obtain rfl : t' = t := by simpa [ht', eq_comm] using ht
    obtain ⟨hpresent, hne⟩ := hvisible hstays
    obtain ⟨f, hf⟩ := List.exists_mem_of_ne_nil _ hne
    exact ⟨f, .inl ⟨n, v, t', hv, ht, hpresent, hf⟩, number_of_mem_fieldsOfValue hm hv ht hf⟩

/-! ## Reading again -/

variable {ts' : Types} {type type' : MessageType}

/-- A message that has been read is split, when it is written, into the fields that are
written. -/
theorem readFields_write {m : Message} (hm : ts.IsRead m)
    (hsize : (ts.write m).length < UInt64.size) : readFields (ts.write m) = some (ts.fieldsOf m) :=
  readFields_writeFields (isNumbered_of_mem_fieldsOf hm) hsize

/-- A number is set by reading a message iff one of its fields has it. -/
theorem sets_readInto {depth n : Nat} {bytes : List UInt8} {fs : List Field} {m : Message}
    (h : ts.readInto depth (.empty type) bytes = some m) (hfs : readFields bytes = some fs)
    (hd : ts.delimitsAll type fs) (ht : ts.field? type n = some t) (honeof : t.oneof = none) :
    m.sets n = fs.any (·.number == n) :=
  (takesIn_readInto (isRead_empty ts type) hfs hd h).sets n t ht honeof

/-- A number that stays present is set by reading what was written for a message iff the
message had a field of it. -/
theorem sets_readInto_write {depth depth' n : Nat} {bytes : List UInt8} {fs : List Field}
    {m m' : Message} {t' : FieldType} (h : ts.readInto depth (.empty type) bytes = some m)
    (h' : ts'.readInto depth' (.empty type') (ts.write m) = some m')
    (hfs : readFields bytes = some fs) (hd : ts.delimitsAll type fs)
    (hd' : ∀ fs', readFields (ts.write m) = some fs' → ts'.delimitsAll type' fs')
    (hsize : (ts.write m).length < UInt64.size) (ht : ts.field? type n = some t)
    (hstays : t.staysPresent) (ht' : ts'.field? type' n = some t') (honeof : t'.oneof = none) :
    m'.sets n = fs.any (·.number == n) := by
  -- A number goes from the first bytes into the message, from there into what is written, and
  -- from that into the second message.
  have htakes := takesIn_readInto (isRead_empty ts type) hfs hd h
  have hwritten := readFields_write htakes.isRead hsize
  rw [sets_readInto h' hwritten (hd' _ hwritten) ht' honeof,
    any_number_fieldsOf htakes.isRead (htakes.type.symm ▸ ht) hstays,
    sets_readInto h hfs hd ht (FieldType.oneof_of_staysPresent hstays)]

end Types

end TemporalBindings.Schema
