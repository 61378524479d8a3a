import TemporalBindings.Proofs.Splitting

/-!
# TemporalBindings.Proofs.Encoding

The bytes that stand for fields, said from the writer's side. The format leaves a writer a
choice: a varint may be longer than it has to be, a key and a length are varints, and a
group is closed by a key of its number.

```
form      128..255 …  0..127                              at most ten bytes
field     key  form  |  key  length  bytes  |  key  size bytes  |  key  fields  key
```

`Encodes fs bytes` allows every such choice. Bytes are read as the fields that they encode,
and as no others, and fields in front of others are read whatever comes behind them.
-/

namespace TemporalBindings.Wire

/-! ## Varints -/

namespace Varint

/-- Bytes that spell a number in groups of seven bits, the least significant first. All but
the last have the high bit, and groups of zeros may come at the end. -/
inductive Spells : List UInt8 → Nat → Prop
  | last {b : UInt8} (low : b < 128) : Spells [b] b.toNat
  | more {b : UInt8} {bytes : List UInt8} {v : Nat} (high : 128 ≤ b) (others : Spells bytes v) :
    Spells (b :: bytes) (b.toNat - 128 + 128 * v)

/-- A form of a number of 64 bits: at most ten bytes that spell it. -/
structure IsForm (bytes : List UInt8) (v : UInt64) : Prop where
  spells : Spells bytes v.toNat
  length_le : bytes.length ≤ 10

theorem Spells.ne_nil {bytes : List UInt8} {v : Nat} (h : Spells bytes v) : bytes ≠ [] := by
  cases h <;> simp

/-- A number is read from what spells it where there is room for its groups. -/
theorem readGroups_append_of_spells {bytes : List UInt8} {v : Nat} (h : Spells bytes v)
    {groups : Nat} (hlength : bytes.length ≤ groups + 1) (hv : v < 2 * 128 ^ groups)
    (rest : List UInt8) : readGroups groups (bytes ++ rest) = some (v, rest) := by
  induction h generalizing groups with
  | @last b low =>
    cases groups with
    | zero =>
      have hb : b < 2 := UInt8.lt_iff_toNat_lt.2 (by simpa using hv)
      simp [readGroups, hb]
    | succ groups => simp [readGroups, low]
  | @more b bytes v high others ih =>
    obtain ⟨groups, rfl⟩ : ∃ k, groups = k + 1 := by
      refine ⟨groups - 1, ?_⟩
      have := List.length_pos_iff.2 others.ne_nil
      simp only [List.length_cons] at hlength
      omega
    have hlt : v < 2 * 128 ^ groups := by
      rw [Nat.pow_succ] at hv
      omega
    rw [List.cons_append, readGroups, if_neg (UInt8.not_lt.2 high),
      ih (by simpa using hlength) hlt, Option.map_some]

/-- What is read is spelled by the bytes in front of the rest. -/
theorem exists_spells_of_readGroups {groups v : Nat} {bytes rest : List UInt8}
    (h : readGroups groups bytes = some (v, rest)) :
    ∃ form, bytes = form ++ rest ∧ Spells form v ∧ form.length ≤ groups + 1 ∧
      v < 2 * 128 ^ groups := by
  induction groups generalizing bytes v with
  | zero =>
    cases bytes with
    | nil => simp [readGroups] at h
    | cons b bytes =>
      rw [readGroups] at h
      split at h
      · next hb =>
        obtain ⟨rfl, rfl⟩ : b.toNat = v ∧ bytes = rest := by simpa using h
        have hlt : b.toNat < 2 := UInt8.lt_iff_toNat_lt.1 hb
        have hlow : b < 128 := UInt8.lt_iff_toNat_lt.2 (Nat.lt_of_lt_of_le hlt (by decide))
        exact ⟨[b], rfl, .last hlow, by simp, by simpa using hlt⟩
      · cases h
  | succ groups ih =>
    have hpow : 128 ^ (groups + 1) = 128 ^ groups * 128 := rfl
    have hpos : 0 < 128 ^ groups := Nat.pow_pos (by decide)
    cases bytes with
    | nil => simp [readGroups] at h
    | cons b bytes =>
      rw [readGroups] at h
      split at h
      · next low =>
        obtain ⟨rfl, rfl⟩ : b.toNat = v ∧ bytes = rest := by simpa using h
        have hlt : b.toNat < 128 := UInt8.lt_iff_toNat_lt.1 low
        exact ⟨[b], rfl, .last low, by simp, by omega⟩
      · next hlow =>
        obtain ⟨⟨w, rest'⟩, hw, hv⟩ := Option.map_eq_some_iff.1 h
        obtain ⟨rfl, rfl⟩ := Prod.mk.injEq .. ▸ hv
        obtain ⟨form, rfl, hspells, hlength, hlt⟩ := ih hw
        have hb := b.toNat_lt
        exact ⟨b :: form, rfl, .more (UInt8.not_lt.1 hlow) hspells, by simpa using hlength,
          by omega⟩

/-- A number is read from its forms, and from nothing else. -/
theorem read_eq_some_iff {bytes rest : List UInt8} {v : UInt64} :
    read bytes = some (v, rest) ↔ ∃ form, IsForm form v ∧ bytes = form ++ rest := by
  have hbound : 2 * 128 ^ 9 = UInt64.size := by decide
  constructor
  · intro h
    obtain ⟨⟨w, rest'⟩, hw, hv⟩ := Option.map_eq_some_iff.1 h
    obtain ⟨rfl, rfl⟩ := Prod.mk.injEq .. ▸ hv
    obtain ⟨form, hbytes, hspells, hlength, hlt⟩ := exists_spells_of_readGroups hw
    have hto : (UInt64.ofNat w).toNat = w := UInt64.toNat_ofNat_of_lt' (hbound ▸ hlt)
    exact ⟨form, ⟨hto.symm ▸ hspells, hlength⟩, hbytes⟩
  · rintro ⟨form, ⟨hspells, hlength⟩, rfl⟩
    have hlt : v.toNat < 2 * 128 ^ 9 := hbound ▸ v.toNat_lt
    rw [read, readGroups_append_of_spells hspells hlength hlt, Option.map_some]
    simp only [UInt64.ofNat_toNat]

theorem IsForm.read_append {form : List UInt8} {v : UInt64} (h : IsForm form v)
    (rest : List UInt8) : read (form ++ rest) = some (v, rest) :=
  read_eq_some_iff.2 ⟨form, h, rfl⟩

end Varint

/-! ## Parts of a field -/

/-- The bytes of a key. -/
structure IsKey (n : Nat) (kind : Kind) (bytes : List UInt8) : Prop where
  number : IsNumber n
  form : Varint.IsForm bytes (UInt64.ofNat (8 * n + kind.code))

theorem Kind.code_eq_of_ofCode? {code : Nat} {kind : Kind} (h : ofCode? code = some kind) :
    kind.code = code := by
  unfold ofCode? at h
  split at h <;> first | (cases h; rfl) | cases h

theorem readKey_eq_some_iff {bytes rest : List UInt8} {n : Nat} {kind : Kind} :
    readKey bytes = some (n, kind, rest) ↔ ∃ key, IsKey n kind key ∧ bytes = key ++ rest := by
  have hsize : UInt32.size = 4294967296 := rfl
  constructor
  · intro h
    have hnumber := (exists_front_of_readKey h).1
    obtain ⟨⟨key, rest'⟩, hkey, h⟩ := Option.bind_eq_some_iff.1 h
    obtain ⟨kind', hkind, h⟩ := Option.bind_eq_some_iff.1 h
    split at h
    · next hbounds =>
      obtain ⟨rfl, rfl, rfl⟩ : key.toNat / 8 = n ∧ kind' = kind ∧ rest' = rest := by
        simpa using h
      obtain ⟨form, hform, hbytes⟩ := Varint.read_eq_some_iff.1 hkey
      have hcode : 8 * (key.toNat / 8) + kind'.code = key.toNat := by
        rw [Kind.code_eq_of_ofCode? hkind]
        omega
      exact ⟨form, ⟨hnumber, by rwa [hcode, UInt64.ofNat_toNat]⟩, hbytes⟩
    · cases h
  · rintro ⟨key, ⟨⟨hpos, hlt⟩, hform⟩, rfl⟩
    have hcode : kind.code < 8 := by cases kind <;> decide
    have hto : (UInt64.ofNat (8 * n + kind.code)).toNat = 8 * n + kind.code :=
      UInt64.toNat_ofNat_of_lt' (Nat.lt_of_lt_of_le (show _ < 2 ^ 32 by omega) (by decide))
    have hmod : (8 * n + kind.code) % 8 = kind.code := by omega
    have hdiv : (8 * n + kind.code) / 8 = n := by omega
    have hbounds : 8 ≤ 8 * n + kind.code ∧ 8 * n + kind.code < UInt32.size := by omega
    rw [readKey, hform.read_append]
    simp only [Option.bind_eq_bind, Option.bind_some, hto, hmod, Kind.ofCode?_code, hdiv,
      if_pos hbounds]

theorem IsKey.readKey_append {n : Nat} {kind : Kind} {key : List UInt8} (h : IsKey n kind key)
    (rest : List UInt8) : readKey (key ++ rest) = some (n, kind, rest) :=
  readKey_eq_some_iff.2 ⟨key, h, rfl⟩

/-- The bytes that stand for the content of a field that is no group: a varint in any of its
forms, bytes behind any form of their number, and a number of fixed size in its one form. -/
inductive IsContent : Kind → Field → List UInt8 → Prop
  | varint {n : Nat} {v : UInt64} {form : List UInt8} (value : Varint.IsForm form v) :
    IsContent .varint (.varint n v) form
  | fixed64 (n : Nat) (v : UInt64) : IsContent .fixed64 (.fixed64 n v) (writeFixed 8 v.toNat)
  | bytes {n : Nat} {b size : List UInt8} (short : b.length < UInt64.size)
    (length : Varint.IsForm size (UInt64.ofNat b.length)) :
    IsContent .bytes (.bytes n b) (size ++ b)
  | fixed32 (n : Nat) (v : UInt32) : IsContent .fixed32 (.fixed32 n v) (writeFixed 4 v.toNat)

/-- Bytes of a fixed number are what is written for the number they are read as. -/
theorem exists_writeFixed_of_readFixed {size v : Nat} {bytes rest : List UInt8}
    (h : readFixed size bytes = some (v, rest)) :
    bytes = writeFixed size v ++ rest ∧ v < 256 ^ size := by
  induction size generalizing bytes v with
  | zero =>
    obtain ⟨rfl, rfl⟩ : 0 = v ∧ bytes = rest := by simpa [readFixed] using h
    exact ⟨rfl, by decide⟩
  | succ size ih =>
    cases bytes with
    | nil => simp [readFixed] at h
    | cons b bytes =>
      obtain ⟨⟨w, rest'⟩, hw, hv⟩ := Option.map_eq_some_iff.1 h
      obtain ⟨rfl, rfl⟩ := Prod.mk.injEq .. ▸ hv
      obtain ⟨rfl, hlt⟩ := ih hw
      have hb := b.toNat_lt
      have hmod : (b.toNat + 256 * w) % 256 = b.toNat := by omega
      have hdiv : (b.toNat + 256 * w) / 256 = w := by omega
      refine ⟨by rw [writeFixed, hmod, hdiv, UInt8.ofNat_toNat, List.cons_append], ?_⟩
      rw [Nat.pow_succ]
      omega

theorem readBytes_eq_some_iff {b bytes rest : List UInt8} :
    readBytes bytes = some (b, rest) ↔ b.length < UInt64.size ∧
      ∃ size, Varint.IsForm size (UInt64.ofNat b.length) ∧ bytes = size ++ b ++ rest := by
  constructor
  · intro h
    obtain ⟨⟨size, behind⟩, hsize, h⟩ := Option.bind_eq_some_iff.1 h
    dsimp only at h
    split at h
    · next hle =>
      obtain ⟨rfl, rfl⟩ : behind.take size.toNat = b ∧ behind.drop size.toNat = rest := by
        simpa using h
      obtain ⟨form, hform, rfl⟩ := Varint.read_eq_some_iff.1 hsize
      rw [List.length_take_of_le hle]
      refine ⟨size.toNat_lt, form, by rwa [UInt64.ofNat_toNat], ?_⟩
      rw [List.append_assoc, List.take_append_drop]
    · cases h
  · rintro ⟨short, size, hform, rfl⟩
    have hsize : (UInt64.ofNat b.length).toNat = b.length := UInt64.toNat_ofNat_of_lt' short
    simp [readBytes, List.append_assoc, hform.read_append, hsize]

theorem readContent_eq_some_iff {n : Nat} {kind : Kind} {f : Field} {bytes rest : List UInt8} :
    readContent n kind bytes = some (f, rest) ↔
      f.number = n ∧ ∃ content, IsContent kind f content ∧ bytes = content ++ rest := by
  constructor
  · intro h
    refine ⟨number_of_readContent h, ?_⟩
    cases kind with
    | varint =>
      obtain ⟨⟨v, rest'⟩, hv, hf⟩ := Option.map_eq_some_iff.1 h
      obtain ⟨rfl, rfl⟩ := Prod.mk.injEq .. ▸ hf
      obtain ⟨form, hform, hbytes⟩ := Varint.read_eq_some_iff.1 hv
      exact ⟨form, .varint hform, hbytes⟩
    | fixed64 =>
      obtain ⟨⟨v, rest'⟩, hv, hf⟩ := Option.map_eq_some_iff.1 h
      obtain ⟨rfl, rfl⟩ := Prod.mk.injEq .. ▸ hf
      obtain ⟨hbytes, hlt⟩ := exists_writeFixed_of_readFixed hv
      refine ⟨_, .fixed64 n _, ?_⟩
      rwa [UInt64.toNat_ofNat_of_lt' hlt]
    | bytes =>
      obtain ⟨⟨b, rest'⟩, hb, hf⟩ := Option.map_eq_some_iff.1 h
      obtain ⟨rfl, rfl⟩ := Prod.mk.injEq .. ▸ hf
      obtain ⟨short, size, hform, hbytes⟩ := readBytes_eq_some_iff.1 hb
      exact ⟨size ++ b, .bytes short hform, hbytes⟩
    | fixed32 =>
      obtain ⟨⟨v, rest'⟩, hv, hf⟩ := Option.map_eq_some_iff.1 h
      obtain ⟨rfl, rfl⟩ := Prod.mk.injEq .. ▸ hf
      obtain ⟨hbytes, hlt⟩ := exists_writeFixed_of_readFixed hv
      refine ⟨_, .fixed32 n _, ?_⟩
      rwa [UInt32.toNat_ofNat_of_lt' hlt]
    | groupStart | groupEnd => cases h
  · rintro ⟨rfl, content, hcontent, rfl⟩
    cases hcontent with
    | varint value => rw [readContent, value.read_append, Option.map_some, Field.number]
    | fixed64 n v =>
      rw [readContent, readFixed_writeFixed_append _ _ _ v.toNat_lt, Option.map_some, Field.number]
      simp only [UInt64.ofNat_toNat]
    | @bytes n b size short length =>
      have hread : readBytes (size ++ b ++ rest) = some (b, rest) :=
        readBytes_eq_some_iff.2 ⟨short, size, length, rfl⟩
      rw [readContent, hread, Option.map_some, Field.number]
    | fixed32 n v =>
      rw [readContent, readFixed_writeFixed_append _ _ _ v.toNat_lt, Option.map_some, Field.number]
      simp only [UInt32.ofNat_toNat]

/-- The bytes behind the last field: the key that ends the open group, or nothing at all. -/
def Ends : Option Nat → List UInt8 → Prop
  | none, stop => stop = []
  | some n, stop => IsKey n .groupEnd stop

/-! ## Fields -/

/-- Bytes that encode fields, one after the other. -/
inductive Encodes : List Field → List UInt8 → Prop
  | nil : Encodes [] []
  | leaf {kind : Kind} {f : Field} {fs : List Field} {key content others : List UInt8}
    (hkey : IsKey f.number kind key) (hcontent : IsContent kind f content)
    (hothers : Encodes fs others) : Encodes (f :: fs) (key ++ content ++ others)
  | group {n : Nat} {gs fs : List Field} {start content stop others : List UInt8}
    (hstart : IsKey n .groupStart start) (hcontent : Encodes gs content)
    (hstop : IsKey n .groupEnd stop) (hothers : Encodes fs others) :
    Encodes (.group n gs :: fs) (start ++ content ++ stop ++ others)

namespace Encodes

variable {opened : Option Nat} {fs gs : List Field} {bytes next rest : List UInt8}

/-- Encoded fields are split off whatever comes behind them. -/
theorem splits_append_iff (h : Encodes fs bytes) :
    Splits opened (bytes ++ next) gs rest ↔
      ∃ fs', gs = fs ++ fs' ∧ Splits opened next fs' rest := by
  induction h generalizing opened next rest gs with
  | nil => simp
  | @leaf kind f fs key content others hkey hcontent hothers ih =>
    have hread := hkey.readKey_append (content ++ (others ++ next))
    have hfield : readContent f.number kind (content ++ (others ++ next)) =
        some (f, others ++ next) := readContent_eq_some_iff.2 ⟨rfl, content, hcontent, rfl⟩
    rw [List.append_assoc, List.append_assoc]
    constructor
    · intro hsplits
      obtain ⟨rfl, -⟩ | ⟨-, f', next', fs', hf', hnext', rfl⟩ := hsplits.of_readKey hread
      · exact nomatch hcontent
      · have hf := readField_eq_some_iff.2 (.inl hfield)
        obtain ⟨rfl, rfl⟩ : f = f' ∧ others ++ next = next' := by simpa [hf] using hf'
        obtain ⟨fs'', rfl, hfs''⟩ := ih.1 hnext'
        exact ⟨fs'', rfl, hfs''⟩
    · rintro ⟨fs', rfl, hfs'⟩
      exact .leaf hread hfield (ih.2 ⟨fs', rfl, hfs'⟩)
  | @group n inner fs start content stop others hstart hcontent hstop hothers ihcontent ih =>
    have hread := hstart.readKey_append (content ++ (stop ++ (others ++ next)))
    have hclose := hstop.readKey_append (others ++ next)
    rw [List.append_assoc, List.append_assoc, List.append_assoc]
    constructor
    · intro hsplits
      obtain ⟨hkind, -⟩ | ⟨-, f', next', fs', hf', hnext', rfl⟩ := hsplits.of_readKey hread
      · cases hkind
      · obtain hcontent' | ⟨inner', -, rfl, hinner'⟩ := readField_eq_some_iff.1 hf'
        · cases hcontent'
        · obtain ⟨inner'', rfl, hinner''⟩ := ihcontent.1 hinner'
          obtain ⟨-, -, rfl, rfl⟩ | ⟨hkind, -⟩ := hinner''.of_readKey hclose
          · obtain ⟨fs'', rfl, hfs''⟩ := ih.1 hnext'
            exact ⟨fs'', by simp, hfs''⟩
          · exact absurd rfl hkind
    · rintro ⟨fs', rfl, hfs'⟩
      have hinner := ihcontent.2 ⟨[], (List.append_nil _).symm, .close hclose⟩
      exact .group hread hinner (ih.2 ⟨fs', rfl, hfs'⟩)

/-- What bytes split into is what they encode up to the end. -/
theorem exists_of_splits (h : Splits opened bytes fs rest) :
    ∃ front stop, Encodes fs front ∧ Ends opened stop ∧ bytes = front ++ stop ++ rest := by
  induction h with
  | done => exact ⟨[], [], .nil, rfl, rfl⟩
  | close key =>
    obtain ⟨stop, hstop, rfl⟩ := readKey_eq_some_iff.1 key
    exact ⟨[], stop, .nil, hstop, rfl⟩
  | leaf key content _ ih =>
    obtain ⟨front, stop, hfront, hstop, rfl⟩ := ih
    obtain ⟨key', hkey', rfl⟩ := readKey_eq_some_iff.1 key
    obtain ⟨rfl, content', hcontent', rfl⟩ := readContent_eq_some_iff.1 content
    exact ⟨_, stop, .leaf hkey' hcontent' hfront, hstop, by simp⟩
  | group key _ _ ihcontent ih =>
    obtain ⟨front, stop, hfront, hstop, rfl⟩ := ih
    obtain ⟨inner, stop', hinner, hstop', rfl⟩ := ihcontent
    obtain ⟨key', hkey', rfl⟩ := readKey_eq_some_iff.1 key
    exact ⟨_, stop, .group hkey' hinner hstop' hfront, hstop, by simp⟩

end Encodes

/-- A message is read as the fields that its bytes encode. -/
theorem readFields_eq_some_iff_encodes {bytes : List UInt8} {fs : List Field} :
    readFields bytes = some fs ↔ Encodes fs bytes := by
  rw [readFields_eq_some_iff]
  constructor
  · intro h
    obtain ⟨front, stop, hfront, hstop, rfl⟩ := Encodes.exists_of_splits h
    obtain rfl : stop = [] := hstop
    rwa [List.append_nil, List.append_nil]
  · intro h
    rw [← List.append_nil bytes, h.splits_append_iff]
    exact ⟨[], (List.append_nil fs).symm, .done⟩

/-- Encoded fields in front of a message are read in front of its fields. -/
theorem Encodes.readFields_append {fs : List Field} {bytes : List UInt8} (h : Encodes fs bytes)
    (behind : List UInt8) : readFields (bytes ++ behind) = (readFields behind).map (fs ++ ·) := by
  ext gs
  rw [readFields_eq_some_iff, h.splits_append_iff, Option.map_eq_some_iff]
  exact exists_congr fun fs' => by rw [readFields_eq_some_iff, and_comm, eq_comm]

/-- Fields one after the other. -/
theorem Encodes.append {fs gs : List Field} {bytes behind : List UInt8} (h : Encodes fs bytes)
    (hbehind : Encodes gs behind) : Encodes (fs ++ gs) (bytes ++ behind) := by
  rw [← readFields_eq_some_iff_encodes] at hbehind ⊢
  rw [h.readFields_append, hbehind, Option.map_some]

/-- What is written encodes what was written. -/
theorem encodes_writeFields {fs : List Field} (h : ∀ f ∈ fs, f.IsNumbered)
    (hsize : (writeFields fs).length < UInt64.size) : Encodes fs (writeFields fs) :=
  readFields_eq_some_iff_encodes.1 (readFields_writeFields h hsize)

end TemporalBindings.Wire
