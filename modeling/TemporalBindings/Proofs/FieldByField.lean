import TemporalBindings.Proofs.ImportTable
import TemporalBindings.Proofs.Splitting
import TemporalBindings.Schema.Types.Declared
import TemporalBindings.Schema.Types.Reader
import TemporalBindings.Schema.Types.Writer

/-!
# TemporalBindings.Proofs.FieldByField

Reading a message of a known type takes the fields that its bytes split into, one after the
other. The reader finds the end of a field by the type that is known for it, and the bytes
split without any types, so the two could part: the content of a map is read as bytes
whatever the key announces. Where maps come as bytes they do not part, and each field sets
its number or is kept as it is.
-/

namespace TemporalBindings.Schema

open Wire

variable {ts : Types}

/-! ## Maps on the wire -/

namespace Types

/-- Whether a number is that of a map. -/
def isMap (ts : Types) (type : MessageType) (number : Nat) : Bool :=
  match (ts.field? type number).map FieldType.kind with
  | some (.map _) => true
  | _ => false

mutual

/-- Whether a field of a message, if it is a map, comes as bytes, and so does every map in it
if it is a group. What is in a nested message does not matter: its length is known before. -/
def delimits (ts : Types) (type : MessageType) : Field → Bool
  | .bytes _ _ => true
  | .group n fs =>
    match (ts.field? type n).map FieldType.kind with
    | some (.map _) => false
    | some (.group name) =>
      match ts.message? name with
      | some inner => ts.delimitsAll inner fs
      | none => true
    | _ => true
  | .varint n _ | .fixed64 n _ | .fixed32 n _ => !ts.isMap type n

/-- Whether all maps among the fields of a message come as bytes. -/
def delimitsAll (ts : Types) (type : MessageType) : List Field → Bool
  | [] => true
  | f :: fs => ts.delimits type f && ts.delimitsAll type fs

end

/-- A field with a number is found by it. -/
theorem number_of_field? {type : MessageType} {n : Nat} {t : FieldType}
    (h : ts.field? type n = some t) : t.number = n := by
  obtain h | ⟨-, h⟩ := Option.or_eq_some_iff.1 h
  · simpa using List.find?_some h
  · obtain ⟨e, he, rfl⟩ := Option.map_eq_some_iff.1 h
    have hfound : e.extended = type.name ∧ e.field.number = n := by
      simpa using List.find?_some he
    exact hfound.2

end Types

/-! ## Messages as they are read -/

mutual

/-- The messages in the value of a field. -/
def Value.messages : Value → List Message
  | .leaf _ => []
  | .message m => [m]
  | .list items | .map items => Value.messagesOf items

/-- The messages in several values. -/
def Value.messagesOf : List Value → List Message
  | [] => []
  | v :: vs => v.messages ++ Value.messagesOf vs

end

theorem Value.messagesOf_append (vs ws : List Value) :
    Value.messagesOf (vs ++ ws) = Value.messagesOf vs ++ Value.messagesOf ws := by
  induction vs with
  | nil => rfl
  | cons v vs ih => rw [List.cons_append, messagesOf, messagesOf, ih, List.append_assoc]

/-- Whether a field is present wherever it occurs: it does not give way to another member of
a oneof, no occurrence of it is an empty list, and its default counts. -/
def FieldType.staysPresent (t : FieldType) : Bool :=
  t.oneof.isNone && if t.repeated then !t.kind.packable else t.explicit

theorem FieldType.oneof_of_staysPresent {t : FieldType} (h : t.staysPresent) : t.oneof = none := by
  simpa using (Bool.and_eq_true_iff.1 h).1

theorem FieldType.packable_of_staysPresent {t : FieldType} (h : t.staysPresent)
    (hrepeated : t.repeated) : t.kind.packable = false := by
  simpa [hrepeated] using (Bool.and_eq_true_iff.1 h).2

theorem FieldType.explicit_of_staysPresent {t : FieldType} (h : t.staysPresent)
    (hsingle : t.repeated = false) : t.explicit := by
  simpa [hsingle] using (Bool.and_eq_true_iff.1 h).2

/-- A value with which a field is present for a reader and leaves something when it is
written. -/
def Types.IsVisible (ts : Types) (t : FieldType) (v : Value) : Prop :=
  t.presentWith v ∧ ts.fieldsOfValue t v ≠ []

/-- A message as it comes from reading fields with known types: what is set is known and
visible, what is kept is not known, and the groups in it are of their types. -/
inductive Types.IsRead (ts : Types) : Message → Prop
  | intro {m : Message}
    (known : ∀ n v, (n, v) ∈ m.stored → ∃ t, ts.field? m.type n = some t ∧ IsNumber n ∧
      (t.staysPresent → ts.IsVisible t v))
    (undeclared : ∀ f ∈ m.undeclared, ts.field? m.type f.number = none ∧ f.IsNumbered)
    (type : ∀ n v t name x, (n, v) ∈ m.stored → ts.field? m.type n = some t →
      t.kind = .group name → x ∈ v.messages → ts.message? name = some x.type)
    (content : ∀ n v t name x, (n, v) ∈ m.stored → ts.field? m.type n = some t →
      t.kind = .group name → x ∈ v.messages → ts.IsRead x) :
    IsRead ts m

theorem Types.isRead_empty (ts : Types) (type : MessageType) : ts.IsRead (.empty type) := by
  constructor <;> simp [Message.empty, Message.stored, Message.undeclared]

/-- Whether a number is set in a message. -/
def Message.sets (m : Message) (n : Nat) : Bool :=
  (m.stored.lookup n).isSome

/-! ## Storing -/

theorem lookup_filter_of_pos {α : Type} {k : Nat} {p : Nat × α → Bool}
    (h : ∀ v, p (k, v) = true) (entries : List (Nat × α)) :
    (entries.filter p).lookup k = entries.lookup k := by
  induction entries with
  | nil => rfl
  | cons e rest ih =>
    obtain ⟨k', v⟩ := e
    rw [List.filter_cons, List.lookup_cons]
    split
    · rw [List.lookup_cons, ih]
    · next hp =>
      have hne : (k == k') = false := by
        rw [beq_eq_false_iff_ne]
        rintro rfl
        exact hp (h v)
      rw [hne, ih]

namespace Message

@[simp] theorem type_clearOthers (m : Message) (t : FieldType) : (m.clearOthers t).type = m.type := by
  unfold clearOthers
  split <;> rfl

@[simp] theorem undeclared_clearOthers (m : Message) (t : FieldType) :
    (m.clearOthers t).undeclared = m.undeclared := by
  unfold clearOthers
  split <;> rfl

theorem mem_stored_clearOthers {m : Message} {t : FieldType} {e : Nat × Value}
    (h : e ∈ (m.clearOthers t).stored) : e ∈ m.stored := by
  unfold clearOthers at h
  split at h
  · exact h
  · exact (List.mem_filter.1 h).1

@[simp] theorem type_store (m : Message) (t : FieldType) (v : Value) :
    (m.store t v).type = m.type :=
  type_clearOthers m t

@[simp] theorem undeclared_store (m : Message) (t : FieldType) (v : Value) :
    (m.store t v).undeclared = m.undeclared :=
  undeclared_clearOthers m t

theorem mem_stored_store {m : Message} {t : FieldType} {v w : Value} {n : Nat}
    (h : (n, w) ∈ (m.store t v).stored) : (n = t.number ∧ w = v) ∨ (n, w) ∈ m.stored :=
  (mem_of_mem_put h).imp Prod.mk.inj mem_stored_clearOthers

/-- A field that belongs to no oneof stays set when another one is. -/
theorem sets_clearOthers {m : Message} {t t' : FieldType} {n : Nat}
    (h : ts.field? m.type n = some t) (honeof : t.oneof = none) :
    (m.clearOthers t').sets n = m.sets n := by
  unfold clearOthers
  split
  · rfl
  · next i hi =>
    unfold sets stored
    rw [lookup_filter_of_pos]
    intro v
    have hnone : (m.type.field? n).bind (·.oneof) = none := by
      cases hn : m.type.field? n with
      | none => rfl
      | some u =>
        obtain rfl : u = t := by simpa [Types.field?, hn] using h
        exact honeof
    simp [hnone, hi]

theorem sets_store {m : Message} {t t' : FieldType} {v : Value} {n : Nat}
    (h : ts.field? m.type n = some t) (honeof : t.oneof = none) :
    (m.store t' v).sets n = (m.sets n || t'.number == n) := by
  have hclear : (m.clearOthers t').sets n = m.sets n := sets_clearOthers h honeof
  unfold sets at hclear ⊢
  by_cases hn : t'.number = n
  · subst hn
    simp [store, stored, lookup_put_self]
  · have hput := lookup_put_of_ne (Ne.symm hn) v (m.clearOthers t').stored
    simp only [store, stored, Message.stored] at hput ⊢
    rw [hput, beq_eq_false_iff_ne.2 hn, Bool.or_false]
    exact hclear

end Message

/-! ## Fields taken in -/

/-- A message takes in fields: it keeps its type, what is set in it stays as reading leaves
it, and the numbers of the fields are set beside those that were before. -/
structure Types.TakesIn (ts : Types) (m : Message) (fs : List Field) (m' : Message) : Prop where
  type : m'.type = m.type
  isRead : ts.IsRead m'
  sets : ∀ n t, ts.field? m.type n = some t → t.oneof = none →
    m'.sets n = (m.sets n || fs.any (·.number == n))

namespace Types

theorem TakesIn.nil {m : Message} (h : ts.IsRead m) : ts.TakesIn m [] m :=
  ⟨rfl, h, fun n t _ _ => by simp⟩

theorem TakesIn.cons {m m₁ m' : Message} {f : Field} {fs : List Field}
    (h : ts.TakesIn m [f] m₁) (hfs : ts.TakesIn m₁ fs m') : ts.TakesIn m (f :: fs) m' where
  type := hfs.type.trans h.type
  isRead := hfs.isRead
  sets n t ht honeof := by
    rw [hfs.sets n t (h.type ▸ ht) honeof, h.sets n t ht honeof]
    simp [Bool.or_assoc]

variable {m : Message} {t : FieldType} {f : Field}

/-- A field that is not known is kept. -/
theorem takesIn_keep (hm : ts.IsRead m) (ht : ts.field? m.type f.number = none)
    (hf : f.IsNumbered) : ts.TakesIn m [f] (m.keep f) := by
  obtain ⟨known, undeclared, type, content⟩ := hm
  refine ⟨rfl, ⟨known, ?_, type, content⟩, fun n t hn _ => ?_⟩
  · intro g hg
    obtain hg | rfl : g ∈ m.undeclared ∨ g = f := by
      simpa [Message.keep, Message.undeclared] using hg
    · exact undeclared g hg
    · exact ⟨ht, hf⟩
  · have hne : f.number ≠ n := by
      rintro rfl
      simp [ht] at hn
    simp [hne, Message.sets, Message.keep, Message.stored]

/-- A field that is not known and is passed over changes nothing. -/
theorem takesIn_self (hm : ts.IsRead m) (ht : ts.field? m.type f.number = none) :
    ts.TakesIn m [f] m := by
  refine ⟨rfl, hm, fun n t hn _ => ?_⟩
  have hne : f.number ≠ n := by
    rintro rfl
    simp [ht] at hn
  simp [hne]

/-- A field that is known is set to a value. -/
theorem takesIn_store {v : Value} (hm : ts.IsRead m) (ht : ts.field? m.type f.number = some t)
    (hf : f.IsNumbered) (hv : t.staysPresent → ts.IsVisible t v)
    (hgroup : ∀ name, t.kind = .group name → ∀ x ∈ v.messages,
      ts.message? name = some x.type ∧ ts.IsRead x) :
    ts.TakesIn m [f] (m.store t v) := by
  have hnumber := number_of_field? ht
  have hn : IsNumber f.number := by cases hf <;> assumption
  obtain ⟨known, undeclared, type, content⟩ := hm
  have hnew {n : Nat} {w : Value} (hw : (n, w) ∈ (m.store t v).stored) :
      (n = f.number ∧ w = v) ∨ (n, w) ∈ m.stored :=
    hnumber ▸ Message.mem_stored_store hw
  refine ⟨Message.type_store m t v, ⟨?_, ?_, ?_, ?_⟩, fun n u hu honeof => ?_⟩
  · intro n w hw
    rw [Message.type_store]
    obtain ⟨rfl, rfl⟩ | hw := hnew hw
    · exact ⟨t, ht, hn, hv⟩
    · exact known n w hw
  · rw [Message.undeclared_store, Message.type_store]
    exact undeclared
  · intro n w u name x hw hu hkind hx
    rw [Message.type_store] at hu
    obtain ⟨rfl, rfl⟩ | hw := hnew hw
    · obtain rfl : t = u := by simpa [ht] using hu
      exact (hgroup name hkind x hx).1
    · exact type n w u name x hw hu hkind hx
  · intro n w u name x hw hu hkind hx
    rw [Message.type_store] at hu
    obtain ⟨rfl, rfl⟩ | hw := hnew hw
    · obtain rfl : t = u := by simpa [ht] using hu
      exact (hgroup name hkind x hx).2
    · exact content n w u name x hw hu hkind hx
  · rw [Message.sets_store hu honeof, hnumber]
    simp

/-! ## Visible values -/

theorem fieldsOfItems_eq_flatMap (ts : Types) (t : FieldType) (items : List Value) :
    ts.fieldsOfItems t items = items.flatMap (ts.fieldsOfValue t) := by
  induction items with
  | nil => rw [fieldsOfItems, List.flatMap_nil]
  | cons v vs ih => rw [fieldsOfItems, List.flatMap_cons, ih]

/-- A single value is visible if it is written. -/
theorem isVisible_of_single {v : Value} (ht : t.staysPresent) (hsingle : t.repeated = false)
    (hv : ts.fieldsOfValue t v ≠ []) : ts.IsVisible t v :=
  ⟨by simp [FieldType.presentWith, FieldType.explicit_of_staysPresent ht hsingle], hv⟩

/-- A list is visible if one of its items is written. -/
theorem isVisible_list {items : List Value} {v : Value} (hv : v ∈ items)
    (hwritten : ts.fieldsOfValue t v ≠ []) : ts.IsVisible t (.list items) := by
  have habsent (w : Value) : (Value.list items).isAbsent w = false := by
    cases w <;> simp [Value.isAbsent, List.ne_nil_of_mem hv]
  refine ⟨by simp [FieldType.presentWith, habsent], ?_⟩
  rw [fieldsOfValue, FieldType.itemFields, fieldsOfItems_eq_flatMap]
  split
  · simp
  · rw [ne_eq, List.flatMap_eq_nil_iff]
    exact fun hnone => hwritten (hnone v hv)

/-- So is a map. -/
theorem isVisible_map {entries : List Value} {v : Value} (hv : v ∈ entries)
    (hwritten : ts.fieldsOfValue t v ≠ []) : ts.IsVisible t (.map entries) := by
  have habsent (w : Value) : (Value.map entries).isAbsent w = false := by
    cases w <;> simp [Value.isAbsent, List.ne_nil_of_mem hv]
  refine ⟨by simp [FieldType.presentWith, habsent], ?_⟩
  rw [fieldsOfValue, fieldsOfItems_eq_flatMap, ne_eq, List.flatMap_eq_nil_iff]
  exact fun hnone => hwritten (hnone v hv)

theorem fieldsOfValue_leaf_ne_nil (v : Leaf) : ts.fieldsOfValue t (.leaf v) ≠ [] := by
  simp [fieldsOfValue]

theorem fieldsOfValue_message_ne_nil (x : Message) : ts.fieldsOfValue t (.message x) ≠ [] := by
  simp [fieldsOfValue]

/-! ## One field -/

/-- What is known of the messages of a group that has been read before holds of those that a
further occurrence adds to. -/
theorem isRead_of_mem_elements {name : String} {x : Message} (hm : ts.IsRead m)
    (ht : ts.field? m.type f.number = some t) (hkind : t.kind = .group name)
    (hx : x ∈ Value.messagesOf (m.elements t)) :
    ts.message? name = some x.type ∧ ts.IsRead x := by
  obtain ⟨-, -, type, content⟩ := hm
  unfold Message.elements at hx
  rw [number_of_field? ht] at hx
  split at hx
  iterate 2
    · next items hitems =>
      have hmem := mem_of_lookup hitems
      exact ⟨type _ _ t name x hmem ht hkind hx, content _ _ t name x hmem ht hkind hx⟩
  · simp [Value.messagesOf] at hx

/-- Something is read by its known type, and by splitting. -/
def Follows (ts : Types) (read : MessageReader) : Prop :=
  ∀ depth extent opened m bytes fs rest m' rest',
    (extent = .message ∧ opened = none ∨ ∃ n, extent = .group n ∧ opened = some n) →
    ts.IsRead m → Splits opened bytes fs rest → ts.delimitsAll m.type fs →
    read depth extent m bytes = some (m', rest') → rest' = rest ∧ ts.TakesIn m fs m'

theorem readPlain_eq_some {n : Nat} {kind : Kind} {bytes rest : List UInt8} {m' : Message}
    {add : Field → Option Message} (h : readPlain n kind bytes add = some (m', rest)) :
    ∃ f, readField n kind bytes = some (f, rest) ∧ add f = some m' := by
  obtain ⟨⟨f, rest'⟩, hf, h⟩ := Option.bind_eq_some_iff.1 h
  obtain ⟨m'', hm, h⟩ := Option.bind_eq_some_iff.1 h
  obtain ⟨rfl, rfl⟩ : m'' = m' ∧ rest' = rest := by simpa using h
  exact ⟨f, hf, hm⟩

/-- A field that is not known is kept or passed over. -/
theorem takesIn_addUndeclared {depth : Nat} {m' : Message} (hm : ts.IsRead m)
    (ht : ts.field? m.type f.number = none) (hf : f.IsNumbered)
    (h : ts.addUndeclared depth m f = some m') : ts.TakesIn m [f] m' := by
  unfold addUndeclared passOver at h
  split at h <;> split at h
  · obtain rfl : m.keep f = m' := by simpa using h
    exact takesIn_keep hm ht hf
  · cases h
  · obtain rfl : m = m' := by simpa using h
    exact takesIn_self hm ht
  · cases h

/-- A field of leaves is set to its one value, or to a list that has grown; where the leaves
cannot be packed it has grown by one. -/
theorem takesIn_addLeaves {kind : Kind} {read : Field → Option Leaf} {m' : Message}
    (hm : ts.IsRead m) (ht : ts.field? m.type f.number = some t) (hf : f.IsNumbered)
    (hleaf : t.kind.isMessage = false) (hpack : t.kind.packable = false → kind = .bytes)
    (h : addLeaves m t f kind read = some m') : ts.TakesIn m [f] m' := by
  have hgroup (name : String) : t.kind ≠ .group name := by
    intro hkind
    simp [hkind, FieldKind.isMessage] at hleaf
  unfold addLeaves at h
  split at h
  · next hrepeated =>
    obtain ⟨fs, hfs, h⟩ := Option.bind_eq_some_iff.1 h
    obtain ⟨vs, hvs, h⟩ := Option.bind_eq_some_iff.1 h
    obtain rfl : m.extend t (vs.map .leaf) = m' := by simpa using h
    refine takesIn_store hm ht hf (fun hstays => ?_) fun name hkind => absurd hkind (hgroup name)
    have hunpacked := FieldType.packable_of_staysPresent hstays hrepeated
    have hone : fs = [f] := by
      rw [hpack hunpacked] at hfs
      cases f <;> simpa [Field.elements?, eq_comm] using hfs
    obtain ⟨v, rfl⟩ : ∃ v, vs = [v] := by
      rw [hone] at hvs
      obtain ⟨v, -, h⟩ := Option.bind_eq_some_iff.1 (List.mapM_cons (f := read) .. ▸ hvs)
      exact ⟨v, by simpa [eq_comm] using h⟩
    exact isVisible_list (v := .leaf v) (by simp) (fieldsOfValue_leaf_ne_nil v)
  · next hsingle =>
    obtain ⟨v, -, rfl⟩ := Option.map_eq_some_iff.1 h
    exact takesIn_store hm ht hf
      (fun hstays => isVisible_of_single hstays (by simpa using hsingle) (fieldsOfValue_leaf_ne_nil v))
      fun name hkind => absurd hkind (hgroup name)

/-- A field of messages is set to its one message, or to a list with one more. -/
theorem takesIn_storeMessage {x : Message} (hm : ts.IsRead m)
    (ht : ts.field? m.type f.number = some t) (hf : f.IsNumbered)
    (hx : ∀ name, t.kind = .group name → ts.message? name = some x.type ∧ ts.IsRead x) :
    ts.TakesIn m [f] (m.storeMessage t x) := by
  unfold Message.storeMessage
  split
  · refine takesIn_store hm ht hf
      (fun _ => isVisible_list (v := .message x) (by simp) (fieldsOfValue_message_ne_nil x))
      fun name hkind y hy => ?_
    rw [Value.messages, Value.messagesOf_append, List.mem_append] at hy
    obtain hy | hy := hy
    · exact isRead_of_mem_elements hm ht hkind hy
    · obtain rfl : y = x := by simpa [Value.messagesOf, Value.messages] using hy
      exact hx name hkind
  · next hsingle =>
    refine takesIn_store hm ht hf
      (fun hstays =>
        isVisible_of_single hstays (by simpa using hsingle) (fieldsOfValue_message_ne_nil x))
      fun name hkind y hy => ?_
    obtain rfl : y = x := by simpa [Value.messages] using hy
    exact hx name hkind

/-- A map is set to one with one more entry. -/
theorem takesIn_enter {name : String} {entry : Message} (hm : ts.IsRead m)
    (ht : ts.field? m.type f.number = some t) (hf : f.IsNumbered) (hkind : t.kind = .map name) :
    ts.TakesIn m [f] (m.enter t entry) :=
  takesIn_store hm ht hf
    (fun _ => isVisible_map (v := .message entry) (by simp) (fieldsOfValue_message_ne_nil entry))
    fun name' hgroup => absurd (hkind.symm.trans hgroup) (by simp)

/-- A field of bytes that has been split off takes up its length and its bytes. -/
theorem exists_of_readField_bytes {n : Nat} {bytes rest : List UInt8}
    (h : readField n .bytes bytes = some (f, rest)) : ∃ b, readBytes bytes = some (b, rest) := by
  obtain ⟨⟨b, rest'⟩, hb, h⟩ := Option.map_eq_some_iff.1 h
  obtain ⟨-, rfl⟩ := Prod.mk.injEq .. ▸ h
  exact ⟨b, hb⟩

section Nested

variable {read : MessageReader} {depth : Nat} {name : String} {bytes rest rest' : List UInt8}
  {m' : Message}

/-- A nested message takes up the bytes of its field, and is stored. -/
theorem exists_of_readNestedMessage
    (h : ts.readNestedMessage depth read m t name bytes = some (m', rest)) :
    ∃ b x, readBytes bytes = some (b, rest) ∧ m' = m.storeMessage t x := by
  obtain ⟨type, -, h⟩ := Option.bind_eq_some_iff.1 h
  obtain ⟨⟨b, rest'⟩, hb, h⟩ := Option.bind_eq_some_iff.1 h
  cases depth with
  | zero => cases h
  | succ depth =>
    obtain ⟨⟨x, _⟩, -, h⟩ := Option.bind_eq_some_iff.1 h
    obtain ⟨rfl, rfl⟩ : m.storeMessage t x = m' ∧ rest' = rest := by simpa using h
    exact ⟨b, x, hb, rfl⟩

/-- An entry of a map takes up the bytes of its field, and is entered. -/
theorem exists_of_readMapEntry (h : ts.readMapEntry depth read m t name bytes = some (m', rest)) :
    ∃ b x, readBytes bytes = some (b, rest) ∧ m' = m.enter t x := by
  obtain ⟨type, -, h⟩ := Option.bind_eq_some_iff.1 h
  obtain ⟨⟨b, rest'⟩, hb, h⟩ := Option.bind_eq_some_iff.1 h
  obtain ⟨⟨x, _⟩, -, h⟩ := Option.bind_eq_some_iff.1 h
  obtain ⟨rfl, rfl⟩ : m.enter t x = m' ∧ rest' = rest := by simpa using h
  exact ⟨b, x, hb, rfl⟩

/-- A group takes up what is read of it, one level further down, and is stored. -/
theorem exists_of_readNestedGroup
    (h : ts.readNestedGroup depth read m t name bytes = some (m', rest)) :
    ∃ type inner x, ts.message? name = some type ∧
      read inner (.group t.number) (m.base t type) bytes = some (x, rest) ∧
      m' = m.storeMessage t x := by
  obtain ⟨type, htype, h⟩ := Option.bind_eq_some_iff.1 h
  cases depth with
  | zero => cases h
  | succ depth =>
    obtain ⟨⟨x, rest'⟩, hx, h⟩ := Option.bind_eq_some_iff.1 h
    obtain ⟨rfl, rfl⟩ : m.storeMessage t x = m' ∧ rest' = rest := by simpa using h
    exact ⟨type, depth, x, htype, hx, rfl⟩

theorem takesIn_readNestedMessage (hm : ts.IsRead m) (ht : ts.field? m.type f.number = some t)
    (hf : f.IsNumbered) (hkind : t.kind = .message name)
    (hfield : readField f.number .bytes bytes = some (f, rest))
    (h : ts.readNestedMessage depth read m t name bytes = some (m', rest')) :
    rest' = rest ∧ ts.TakesIn m [f] m' := by
  obtain ⟨b, hb⟩ := exists_of_readField_bytes hfield
  obtain ⟨b', x, hb', rfl⟩ := exists_of_readNestedMessage h
  obtain ⟨-, rfl⟩ : b' = b ∧ rest' = rest := by simpa [hb', eq_comm] using hb
  exact ⟨rfl, takesIn_storeMessage hm ht hf fun name' hgroup =>
    absurd (hkind.symm.trans hgroup) (by simp)⟩

/-- The key of a map that comes as bytes announces bytes. -/
theorem kind_eq_bytes_of_delimits {kind : Kind} (ht : ts.field? m.type f.number = some t)
    (hkind : t.kind = .map name) (hd : ts.delimits m.type f)
    (hf : readField f.number kind bytes = some (f, rest)) : kind = .bytes := by
  have hmap : ts.isMap m.type f.number = true := by simp [isMap, ht, hkind]
  cases f with
  | bytes n b =>
    cases kind with
    | bytes => rfl
    | varint | fixed64 | groupStart | groupEnd | fixed32 => simp [readField, readContent] at hf
  | group n fs =>
    rw [delimits] at hd
    rw [Field.number] at ht
    simp [ht, hkind] at hd
  | varint n v | fixed64 n v | fixed32 n v =>
    rw [Field.number] at hmap
    simp [delimits, hmap] at hd

theorem takesIn_readMapEntry (hm : ts.IsRead m) (ht : ts.field? m.type f.number = some t)
    (hf : f.IsNumbered) (hkind : t.kind = .map name)
    (hfield : readField f.number .bytes bytes = some (f, rest))
    (h : ts.readMapEntry depth read m t name bytes = some (m', rest')) :
    rest' = rest ∧ ts.TakesIn m [f] m' := by
  obtain ⟨b, hb⟩ := exists_of_readField_bytes hfield
  obtain ⟨b', x, hb', rfl⟩ := exists_of_readMapEntry h
  obtain ⟨-, rfl⟩ : b' = b ∧ rest' = rest := by simpa [hb', eq_comm] using hb
  exact ⟨rfl, takesIn_enter hm ht hf hkind⟩

/-- The message that a group adds to is of the type of the group. -/
theorem isRead_base {type : MessageType} (hm : ts.IsRead m)
    (ht : ts.field? m.type f.number = some t) (hkind : t.kind = .group name)
    (htype : ts.message? name = some type) : (m.base t type).type = type ∧ ts.IsRead (m.base t type) := by
  unfold Message.base
  split
  · exact ⟨rfl, isRead_empty ts type⟩
  · cases hnested : m.nested? t with
    | none => exact ⟨rfl, isRead_empty ts type⟩
    | some x =>
      obtain ⟨v, hv, hx⟩ := Option.bind_eq_some_iff.1 hnested
      rw [number_of_field? ht] at hv
      have hmem : x ∈ v.messages := by
        cases v with
        | message y =>
          obtain rfl : y = x := by simpa [Value.message?] using hx
          exact List.mem_singleton_self y
        | leaf l | list items | map items => simp [Value.message?] at hx
      obtain ⟨-, -, types, content⟩ := hm
      have hxtype := types _ _ t name x (mem_of_lookup hv) ht hkind hmem
      refine ⟨?_, content _ _ t name x (mem_of_lookup hv) ht hkind hmem⟩
      simpa [htype, eq_comm] using hxtype

theorem takesIn_readNestedGroup {fs : List Field} (hread : ts.Follows read) (hm : ts.IsRead m)
    (ht : ts.field? m.type f.number = some t) (hf : f.IsNumbered) (hkind : t.kind = .group name)
    (hsplits : Splits (some f.number) bytes fs rest)
    (hd : ∀ type, ts.message? name = some type → ts.delimitsAll type fs)
    (h : ts.readNestedGroup depth read m t name bytes = some (m', rest')) :
    rest' = rest ∧ ts.TakesIn m [f] m' := by
  obtain ⟨type, inner, x, htype, hx, rfl⟩ := exists_of_readNestedGroup h
  obtain ⟨hbase, hisRead⟩ := isRead_base hm ht hkind htype
  rw [number_of_field? ht] at hx
  obtain ⟨rfl, htakes⟩ := hread inner _ _ _ _ fs rest _ _ (.inr ⟨f.number, rfl, rfl⟩) hisRead
    hsplits (hbase.symm ▸ hd type htype) hx
  refine ⟨rfl, takesIn_storeMessage hm ht hf fun name' hgroup => ?_⟩
  obtain rfl : name = name' := by simpa [hkind] using hgroup
  exact ⟨by rw [htype, htakes.type, hbase], htakes.isRead⟩

end Nested

/-- One field is taken in, and what is left is what the bytes have behind it. -/
theorem takesIn_readStep {read : MessageReader} {depth n : Nat} {kind : Kind}
    {bytes rest rest' : List UInt8} {m' : Message} (hread : ts.Follows read) (hm : ts.IsRead m)
    (hn : IsNumber n) (hf : readField n kind bytes = some (f, rest))
    (hd : ts.delimits m.type f) (h : ts.readStep depth read m n kind bytes = some (m', rest')) :
    rest' = rest ∧ ts.TakesIn m [f] m' := by
  obtain ⟨rfl, hnumbered⟩ := isNumbered_of_readField hn hf
  -- Where the whole field is split off first the two readers do the same.
  have hplain {add : Field → Option Message}
      (h : readPlain f.number kind bytes add = some (m', rest')) :
      rest' = rest ∧ add f = some m' := by
    obtain ⟨g, hg, hadd⟩ := readPlain_eq_some h
    obtain ⟨rfl, rfl⟩ : g = f ∧ rest' = rest := by simpa [hf, eq_comm] using hg
    exact ⟨rfl, hadd⟩
  unfold readStep at h
  split at h
  · next ht =>
    exact (hplain h).imp_right (takesIn_addUndeclared hm ht hnumbered)
  · next t ht =>
    split at h
    · next s hkind =>
      refine (hplain h).imp_right (takesIn_addLeaves hm ht hnumbered ?_ fun hpack => ?_)
      · rw [hkind, FieldKind.isMessage]
      · simpa [hkind, FieldKind.packable] using hpack
    · next hkind =>
      refine (hplain h).imp_right (takesIn_addLeaves hm ht hnumbered ?_ fun hpack => ?_)
      · rw [hkind, FieldKind.isMessage]
      · simp [hkind, FieldKind.packable] at hpack
    · next name hkind =>
      split at h
      · next hbytes =>
        subst hbytes
        exact takesIn_readNestedMessage hm ht hnumbered hkind hf h
      · cases h
    · next name hkind =>
      split at h
      · next hstart =>
        subst hstart
        obtain hcontent | ⟨fs, -, hfs, hsplits⟩ := readField_eq_some_iff.1 hf
        · cases hcontent
        · refine takesIn_readNestedGroup hread hm ht hnumbered hkind hsplits
            (fun type htype => ?_) h
          rw [hfs, delimits] at hd
          simpa [ht, hkind, htype] using hd
      · cases h
    · next name hkind =>
      obtain rfl := kind_eq_bytes_of_delimits ht hkind hd hf
      exact takesIn_readMapEntry hm ht hnumbered hkind hf h

/-! ## All fields -/

/-- Reading takes in the fields that the bytes split into. -/
theorem follows_readUntil (ts : Types) (fuel : Nat) : ts.Follows (ts.readUntil fuel) := by
  -- What is nested in a field and what follows the field are read with the same fuel, so one
  -- hypothesis is for both.
  induction fuel with
  | zero => exact fun _ _ _ _ _ _ _ _ _ _ _ _ _ h => by cases h
  | succ fuel ih =>
    intro depth extent opened m bytes fs rest m' rest' hextent hm hsplits hd h
    cases bytes with
    | nil =>
      obtain ⟨rfl, rfl, rfl⟩ := hsplits.eq_nil_of_nil
      obtain ⟨rfl, -⟩ | ⟨n, -, hn⟩ := hextent
      · obtain ⟨rfl, rfl⟩ : m = m' ∧ [] = rest' := by simpa [readUntil] using h
        exact ⟨rfl, .nil hm⟩
      · cases hn
    | cons b bs =>
      rw [readUntil] at h
      obtain ⟨⟨n, kind, inner⟩, hkey, h⟩ := Option.bind_eq_some_iff.1 h
      obtain ⟨rfl, rfl, rfl, rfl⟩ | ⟨hkind, f, next, fs', hf, hfs', rfl⟩ := hsplits.of_readKey hkey
      · obtain ⟨-, hopened⟩ | ⟨n', rfl, hopened⟩ := hextent
        · cases hopened
        · obtain rfl : n = n' := by simpa using hopened
          obtain ⟨rfl, rfl⟩ : m = m' ∧ rest = rest' := by simpa using h
          exact ⟨rfl, .nil hm⟩
      · have hstep : ((ts.readStep depth (ts.readUntil fuel) m n kind inner).bind fun read =>
            ts.readUntil fuel depth extent read.1 read.2) = some (m', rest') := by
          have hhas : extent.has n = true := by
            obtain ⟨rfl, -⟩ | ⟨n', rfl, -⟩ := hextent <;> rfl
          cases kind with
          | groupEnd => exact absurd rfl hkind
          | varint | fixed64 | bytes | groupStart | fixed32 => simpa [hhas] using h
        obtain ⟨⟨m₁, rest₁⟩, hm₁, h⟩ := Option.bind_eq_some_iff.1 hstep
        rw [delimitsAll, Bool.and_eq_true] at hd
        obtain ⟨rfl, htakes⟩ :=
          takesIn_readStep ih hm (exists_front_of_readKey hkey).1 hf hd.1 hm₁
        obtain ⟨rfl, htakes'⟩ :=
          ih depth extent opened m₁ _ fs' rest m' rest' hextent htakes.isRead hfs'
            (htakes.type.symm ▸ hd.2) h
        exact ⟨rfl, htakes.cons htakes'⟩

/-- A message that is read takes in the fields of its bytes. -/
theorem takesIn_readInto {depth : Nat} {m' : Message} {bytes : List UInt8} {fs : List Field}
    (hm : ts.IsRead m) (hfs : readFields bytes = some fs) (hd : ts.delimitsAll m.type fs)
    (h : ts.readInto depth m bytes = some m') : ts.TakesIn m fs m' := by
  obtain ⟨⟨m'', rest⟩, hread, rfl⟩ := Option.map_eq_some_iff.1 h
  exact (follows_readUntil ts _ depth .message none m bytes fs [] m'' rest (.inl ⟨rfl, rfl⟩) hm
    (readFields_eq_some_iff.1 hfs) hd hread).2

end Types

end TemporalBindings.Schema
