import Mathlib.Algebra.Group.Nat.Defs
import TemporalBindings.Wire.Field

/-!
# TemporalBindings.Proofs.Splitting

How bytes split into fields. `Splits` says it without fuel, one case for each thing that a
key can begin:

```
the end of the bytes        where no group is open
the end of the group        where one of its number is open
a field that is no group    key, content, and what follows
a group                     key, fields up to its end, and what follows
```

A reader takes a front of the bytes and does not look at what is behind it. So bytes split
in one way only, those of two messages one after the other split into the fields of both,
and what has been written splits into what was written.
-/

namespace TemporalBindings.Wire

/-! ## Readers -/

/-- A reader takes a front of the bytes and does not look at what is behind it. -/
def TakesFront {α : Type} (read : List UInt8 → Option (α × List UInt8)) : Prop :=
  ∀ bytes x rest, read bytes = some (x, rest) →
    ∃ front, bytes = front ++ rest ∧ ∀ behind, read (front ++ behind) = some (x, behind)

theorem TakesFront.map {α β : Type} {read : List UInt8 → Option (α × List UInt8)}
    (h : TakesFront read) (f : α → β) :
    TakesFront fun bytes => (read bytes).map fun (x, rest) => (f x, rest) := by
  intro bytes y rest hread
  obtain ⟨⟨x, rest'⟩, hx, hy⟩ := Option.map_eq_some_iff.1 hread
  obtain ⟨rfl, rfl⟩ := Prod.mk.injEq .. ▸ hy
  obtain ⟨front, hbytes, hfront⟩ := h _ _ _ hx
  exact ⟨front, hbytes, fun behind => by simp [hfront]⟩

namespace Varint

/-- A varint takes at least one byte. -/
theorem exists_front_of_readGroups {groups v : Nat} {bytes rest : List UInt8}
    (h : readGroups groups bytes = some (v, rest)) :
    ∃ b front, bytes = b :: front ++ rest ∧
      ∀ behind, readGroups groups (b :: front ++ behind) = some (v, behind) := by
  induction groups generalizing bytes v with
  | zero =>
    cases bytes with
    | nil => simp [readGroups] at h
    | cons b bytes =>
      rw [readGroups] at h
      split at h
      · next hb =>
        obtain ⟨rfl, rfl⟩ : b.toNat = v ∧ bytes = rest := by simpa using h
        exact ⟨b, [], rfl, fun behind => by simp [readGroups, hb]⟩
      · cases h
  | succ groups ih =>
    cases bytes with
    | nil => simp [readGroups] at h
    | cons b bytes =>
      rw [readGroups] at h
      split at h
      · next hb =>
        obtain ⟨rfl, rfl⟩ : b.toNat = v ∧ bytes = rest := by simpa using h
        exact ⟨b, [], rfl, fun behind => by simp [readGroups, hb]⟩
      · next hb =>
        obtain ⟨⟨w, rest'⟩, hw, hv⟩ := Option.map_eq_some_iff.1 h
        obtain ⟨rfl, rfl⟩ := Prod.mk.injEq .. ▸ hv
        obtain ⟨b', front, rfl, hfront⟩ := ih hw
        refine ⟨b, b' :: front, rfl, fun behind => ?_⟩
        have hbehind := hfront behind
        simp only [List.cons_append] at hbehind
        simp [readGroups, hb, hbehind]

theorem exists_front_of_read {v : UInt64} {bytes rest : List UInt8}
    (h : read bytes = some (v, rest)) :
    ∃ b front, bytes = b :: front ++ rest ∧
      ∀ behind, read (b :: front ++ behind) = some (v, behind) := by
  obtain ⟨⟨w, rest'⟩, hw, hv⟩ := Option.map_eq_some_iff.1 h
  obtain ⟨rfl, rfl⟩ := Prod.mk.injEq .. ▸ hv
  obtain ⟨b, front, hbytes, hfront⟩ := exists_front_of_readGroups hw
  exact ⟨b, front, hbytes, fun behind => by rw [read, hfront, Option.map_some]⟩

theorem takesFront_read : TakesFront read := fun _ _ _ h =>
  let ⟨b, front, hbytes, hfront⟩ := exists_front_of_read h
  ⟨b :: front, hbytes, hfront⟩

end Varint

theorem takesFront_readFixed (size : Nat) : TakesFront (readFixed size) := by
  induction size with
  | zero =>
    intro bytes x rest h
    obtain ⟨rfl, rfl⟩ : 0 = x ∧ bytes = rest := by simpa [readFixed] using h
    exact ⟨[], rfl, fun behind => rfl⟩
  | succ size ih =>
    intro bytes x rest h
    cases bytes with
    | nil => simp [readFixed] at h
    | cons b bytes =>
      obtain ⟨⟨v, rest'⟩, hv, hx⟩ := Option.map_eq_some_iff.1 h
      obtain ⟨rfl, rfl⟩ := Prod.mk.injEq .. ▸ hx
      obtain ⟨front, rfl, hfront⟩ := ih _ _ _ hv
      exact ⟨b :: front, rfl, fun behind => by simp [readFixed, hfront]⟩

theorem takesFront_readBytes : TakesFront readBytes := by
  intro bytes x rest h
  obtain ⟨⟨size, rest'⟩, hsize, h⟩ := Option.bind_eq_some_iff.1 h
  dsimp only at h
  split at h
  · next hle =>
    obtain ⟨rfl, rfl⟩ : rest'.take size.toNat = x ∧ rest'.drop size.toNat = rest := by
      simpa using h
    obtain ⟨front, rfl, hfront⟩ := Varint.takesFront_read _ _ _ hsize
    refine ⟨front ++ rest'.take size.toNat, by simp, fun behind => ?_⟩
    have hlength : (rest'.take size.toNat).length = size.toNat := List.length_take_of_le hle
    simp [readBytes, List.append_assoc, hfront, List.take_left' hlength, List.drop_left' hlength,
      hlength]
  · cases h

theorem takesFront_readContent (n : Nat) (kind : Kind) : TakesFront (readContent n kind) := by
  cases kind with
  | varint => exact Varint.takesFront_read.map _
  | fixed64 => exact (takesFront_readFixed 8).map fun v => Field.fixed64 n (UInt64.ofNat v)
  | bytes => exact takesFront_readBytes.map _
  | fixed32 => exact (takesFront_readFixed 4).map fun v => Field.fixed32 n (UInt32.ofNat v)
  | groupStart | groupEnd => exact fun _ _ _ h => nomatch h

/-- A key that begins or ends a group has no content of its own. -/
theorem isLeaf_of_readContent {n : Nat} {kind : Kind} {bytes rest : List UInt8} {f : Field}
    (h : readContent n kind bytes = some (f, rest)) : kind ≠ .groupStart ∧ kind ≠ .groupEnd := by
  cases kind with
  | groupStart | groupEnd => cases h
  | varint | fixed64 | bytes | fixed32 => exact ⟨by decide, by decide⟩

/-- A field that is no group has the number of its key. -/
theorem number_of_readContent {n : Nat} {kind : Kind} {bytes rest : List UInt8} {f : Field}
    (h : readContent n kind bytes = some (f, rest)) : f.number = n := by
  cases kind <;> simp only [readContent, Option.map_eq_some_iff, reduceCtorEq] at h
  all_goals
    obtain ⟨⟨v, rest'⟩, -, hf⟩ := h
    obtain ⟨rfl, -⟩ := Prod.mk.injEq .. ▸ hf
    rfl

/-! ## Keys -/

@[simp] theorem readKey_nil : readKey [] = none := rfl

/-- Numbers that fields can have: a key has 32 bits, three of which say what follows. -/
def IsNumber (n : Nat) : Prop :=
  1 ≤ n ∧ 8 * n < UInt32.size

/-- A key takes at least one byte and has a number that a field can have. -/
theorem exists_front_of_readKey {bytes rest : List UInt8} {n : Nat} {kind : Kind}
    (h : readKey bytes = some (n, kind, rest)) :
    IsNumber n ∧ ∃ b front, bytes = b :: front ++ rest ∧
      ∀ behind, readKey (b :: front ++ behind) = some (n, kind, behind) := by
  obtain ⟨⟨key, rest'⟩, hkey, h⟩ := Option.bind_eq_some_iff.1 h
  obtain ⟨kind', hkind, h⟩ := Option.bind_eq_some_iff.1 h
  split at h
  · next hbounds =>
    obtain ⟨rfl, rfl, rfl⟩ : key.toNat / 8 = n ∧ kind' = kind ∧ rest' = rest := by
      simpa using h
    obtain ⟨b, front, hbytes, hfront⟩ := Varint.exists_front_of_read hkey
    refine ⟨⟨by omega, by omega⟩, b, front, hbytes, fun behind => ?_⟩
    rw [readKey, hfront]
    simp [hkind, hbounds]
  · cases h

theorem readKey_writeKey_append {n : Nat} (h : IsNumber n) (kind : Kind) (rest : List UInt8) :
    readKey (writeKey n kind ++ rest) = some (n, kind, rest) := by
  have hcode : kind.code < 8 := by cases kind <;> decide
  have hsize : UInt32.size = 4294967296 := rfl
  have hkey : (UInt64.ofNat (8 * n + kind.code)).toNat = 8 * n + kind.code := by
    rw [UInt64.toNat_ofNat', Nat.mod_eq_of_lt]
    have := h.2
    omega
  have hmod : (8 * n + kind.code) % 8 = kind.code := by omega
  have hdiv : (8 * n + kind.code) / 8 = n := by omega
  have hbounds : 8 ≤ 8 * n + kind.code ∧ 8 * n + kind.code < UInt32.size := by
    have := h.1
    have := h.2
    omega
  rw [readKey, writeKey, Varint.read_write_append]
  simp only [Option.bind_eq_bind, Option.bind_some, hkey, hmod, Kind.ofCode?_code, if_pos hbounds,
    hdiv]

/-! ## Splitting -/

/-- The bytes up to the end of the group `opened`, or up to their own end if no group is
open, are some fields, and the rest of them comes behind that. -/
inductive Splits : Option Nat → List UInt8 → List Field → List UInt8 → Prop
  | done : Splits none [] [] []
  | close {n : Nat} {bytes rest : List UInt8} (key : readKey bytes = some (n, .groupEnd, rest)) :
    Splits (some n) bytes [] rest
  | leaf {opened : Option Nat} {n : Nat} {kind : Kind} {bytes inner next rest : List UInt8}
    {f : Field} {fs : List Field} (key : readKey bytes = some (n, kind, inner))
    (content : readContent n kind inner = some (f, next)) (others : Splits opened next fs rest) :
    Splits opened bytes (f :: fs) rest
  | group {opened : Option Nat} {n : Nat} {bytes inner next rest : List UInt8}
    {gs fs : List Field} (key : readKey bytes = some (n, .groupStart, inner))
    (content : Splits (some n) inner gs next) (others : Splits opened next fs rest) :
    Splits opened bytes (.group n gs :: fs) rest

namespace Splits

variable {opened : Option Nat} {bytes rest : List UInt8} {fs : List Field}

/-- What is read is what the bytes split into. -/
theorem of_readUpTo {fuel : Nat} (h : readUpTo fuel opened bytes = some (fs, rest)) :
    Splits opened bytes fs rest := by
  induction fuel generalizing opened bytes fs rest with
  | zero => simp [readUpTo] at h
  | succ fuel ih =>
    cases bytes with
    | nil =>
      cases opened with
      | none =>
        obtain ⟨rfl, rfl⟩ : [] = fs ∧ [] = rest := by simpa [readUpTo] using h
        exact .done
      | some n => simp [readUpTo] at h
    | cons b bs =>
      rw [readUpTo] at h
      obtain ⟨⟨n, kind, inner⟩, hkey, h⟩ := Option.bind_eq_some_iff.1 h
      dsimp only at h
      have hleaf : ((readContent n kind inner).bind fun read =>
          (readUpTo fuel opened read.2).bind fun others =>
            some (read.1 :: others.1, others.2)) = some (fs, rest) →
              Splits opened (b :: bs) fs rest := by
        intro h
        obtain ⟨⟨f, next⟩, hcontent, h⟩ := Option.bind_eq_some_iff.1 h
        obtain ⟨⟨fs', rest'⟩, hothers, h⟩ := Option.bind_eq_some_iff.1 h
        obtain ⟨rfl, rfl⟩ : f :: fs' = fs ∧ rest' = rest := by simpa using h
        exact .leaf hkey hcontent (ih hothers)
      cases kind with
      | groupEnd =>
        dsimp only at h
        split at h
        · next hopened =>
          obtain ⟨rfl, rfl⟩ : [] = fs ∧ inner = rest := by simpa using h
          exact hopened ▸ .close hkey
        · cases h
      | groupStart =>
        obtain ⟨⟨gs, next⟩, hcontent, h⟩ := Option.bind_eq_some_iff.1 h
        obtain ⟨⟨fs', rest'⟩, hothers, h⟩ := Option.bind_eq_some_iff.1 h
        obtain ⟨rfl, rfl⟩ : Field.group n gs :: fs' = fs ∧ rest' = rest := by simpa using h
        exact .group hkey (ih hcontent) (ih hothers)
      | varint | fixed64 | bytes | fixed32 => exact hleaf h

/-- Where no group is open nothing is left. -/
theorem rest_eq_nil (h : Splits none bytes fs rest) : rest = [] := by
  generalize hopened : (none : Option Nat) = opened at h
  induction h with
  | done => rfl
  | close key => cases hopened
  | leaf key content others ih => exact ih hopened
  | group key content others _ ih => exact ih hopened

/-- Up to the end of a group only a front of the bytes counts. -/
theorem exists_front {n : Nat} (h : Splits (some n) bytes fs rest) :
    ∃ b front, bytes = b :: front ++ rest ∧
      ∀ behind, Splits (some n) (b :: front ++ behind) fs behind := by
  generalize hopened : some n = opened at h
  induction h generalizing n with
  | done => cases hopened
  | close key =>
    obtain ⟨-, b, front, hbytes, hfront⟩ := exists_front_of_readKey key
    exact ⟨b, front, hbytes, fun behind => .close (hfront behind)⟩
  | @leaf _ m kind bytes inner next rest f fs key content others ih =>
    obtain ⟨-, b, front, rfl, hkey⟩ := exists_front_of_readKey key
    obtain ⟨front', rfl, hcontent⟩ := takesFront_readContent m kind _ _ _ content
    obtain ⟨b', front'', rfl, hothers⟩ := ih hopened
    refine ⟨b, front ++ (front' ++ b' :: front''), by simp, fun behind => ?_⟩
    have hkey' := hkey (front' ++ (b' :: front'' ++ behind))
    rw [show b :: (front ++ (front' ++ b' :: front'')) ++ behind =
      b :: front ++ (front' ++ (b' :: front'' ++ behind)) by simp]
    exact .leaf hkey' (hcontent _) (hopened ▸ hothers behind)
  | @group _ m bytes inner next rest gs fs key content others ihcontent ih =>
    obtain ⟨-, b, front, rfl, hkey⟩ := exists_front_of_readKey key
    obtain ⟨c, front', rfl, hcontent⟩ := ihcontent rfl
    obtain ⟨b', front'', rfl, hothers⟩ := ih hopened
    refine ⟨b, front ++ (c :: front' ++ b' :: front''), by simp, fun behind => ?_⟩
    have hkey' := hkey (c :: front' ++ (b' :: front'' ++ behind))
    rw [show b :: (front ++ (c :: front' ++ b' :: front'')) ++ behind =
      b :: front ++ (c :: front' ++ (b' :: front'' ++ behind)) by simp]
    exact .group hkey' (hcontent _) (hopened ▸ hothers behind)

/-- The bytes of two messages one after the other are the fields of both. -/
theorem append {behind : List UInt8} {gs : List Field} (h : Splits none bytes fs [])
    (hbehind : Splits none behind gs []) : Splits none (bytes ++ behind) (fs ++ gs) [] := by
  generalize hopened : (none : Option Nat) = opened at h
  generalize hrest : ([] : List UInt8) = rest at h
  induction h with
  | done => exact hbehind
  | close key => cases hopened
  | @leaf _ m kind bytes inner next rest f fs key content others ih =>
    obtain ⟨-, b, front, rfl, hkey⟩ := exists_front_of_readKey key
    obtain ⟨front', rfl, hcontent⟩ := takesFront_readContent m kind _ _ _ content
    have hkey' := hkey (front' ++ (next ++ behind))
    rw [List.append_assoc, List.append_assoc]
    exact .leaf hkey' (hcontent _) (ih hopened hrest)
  | @group _ m bytes inner next rest gs fs key content others _ ih =>
    obtain ⟨-, b, front, rfl, hkey⟩ := exists_front_of_readKey key
    obtain ⟨c, front', rfl, hcontent⟩ := content.exists_front
    have hkey' := hkey (c :: front' ++ (next ++ behind))
    rw [List.append_assoc, List.append_assoc]
    exact .group hkey' (hcontent _) (ih hopened hrest)

/-- What is left is no longer than the bytes. -/
theorem length_le (h : Splits opened bytes fs rest) : rest.length ≤ bytes.length := by
  cases opened with
  | none => simp [h.rest_eq_nil]
  | some n =>
    obtain ⟨b, front, rfl, -⟩ := h.exists_front
    simp only [List.cons_append, List.length_cons, List.length_append]
    omega

/-- What the bytes split into is read with as much fuel as there are bytes, and one more. -/
theorem readUpTo_eq {fuel : Nat} (h : Splits opened bytes fs rest) (hfuel : bytes.length < fuel) :
    readUpTo fuel opened bytes = some (fs, rest) := by
  -- Behind a key less fuel is left and fewer bytes are too, so the bound holds for both parts.
  induction h generalizing fuel with
  | done =>
    obtain ⟨fuel, rfl⟩ : ∃ k, fuel = k + 1 := ⟨fuel - 1, by omega⟩
    rfl
  | close key =>
    obtain ⟨-, b, front, rfl, -⟩ := exists_front_of_readKey key
    obtain ⟨fuel, rfl⟩ : ∃ k, fuel = k + 1 := ⟨fuel - 1, by omega⟩
    rw [List.cons_append] at key ⊢
    rw [readUpTo, key]
    simp
  | @leaf _ n kind bytes inner next rest f fs key content others ih =>
    obtain ⟨hstart, hend⟩ := isLeaf_of_readContent content
    obtain ⟨front', hinner, -⟩ := takesFront_readContent n kind _ _ _ content
    obtain ⟨-, b, front, rfl, -⟩ := exists_front_of_readKey key
    obtain ⟨fuel, rfl⟩ : ∃ k, fuel = k + 1 := ⟨fuel - 1, by omega⟩
    have hnext : next.length < fuel := by
      simp only [hinner, List.cons_append, List.length_cons, List.length_append] at hfuel
      omega
    rw [List.cons_append] at key ⊢
    rw [readUpTo, key]
    cases kind with
    | groupStart => exact absurd rfl hstart
    | groupEnd => exact absurd rfl hend
    | varint | fixed64 | bytes | fixed32 => simp [content, ih hnext]
  | @group _ n bytes inner next rest gs fs key content others ihcontent ih =>
    have hle := content.length_le
    obtain ⟨-, b, front, rfl, -⟩ := exists_front_of_readKey key
    obtain ⟨fuel, rfl⟩ : ∃ k, fuel = k + 1 := ⟨fuel - 1, by omega⟩
    have hinner : inner.length < fuel := by
      simp only [List.cons_append, List.length_cons, List.length_append] at hfuel
      omega
    rw [List.cons_append] at key ⊢
    rw [readUpTo, key]
    simp [ihcontent hinner, ih (show next.length < fuel by omega)]

end Splits

/-- The fields of a message are those that its bytes split into. -/
theorem readFields_eq_some_iff {bytes : List UInt8} {fs : List Field} :
    readFields bytes = some fs ↔ Splits none bytes fs [] := by
  constructor
  · intro h
    obtain ⟨⟨fs, rest⟩, hread, rfl⟩ := Option.map_eq_some_iff.1 h
    have hsplits := Splits.of_readUpTo hread
    exact hsplits.rest_eq_nil ▸ hsplits
  · intro h
    rw [readFields, h.readUpTo_eq (Nat.lt_succ_self _), Option.map_some]

/-- The fields of two messages one after the other. -/
theorem readFields_append {bytes behind : List UInt8} {fs gs : List Field}
    (h : readFields bytes = some fs) (hbehind : readFields behind = some gs) :
    readFields (bytes ++ behind) = some (fs ++ gs) :=
  readFields_eq_some_iff.2 <|
    (readFields_eq_some_iff.1 h).append (readFields_eq_some_iff.1 hbehind)

/-- A field whose key has been read takes up what the bytes split into. -/
theorem readField_eq_some_iff {n : Nat} {kind : Kind} {bytes rest : List UInt8} {f : Field} :
    readField n kind bytes = some (f, rest) ↔
      readContent n kind bytes = some (f, rest) ∨
        ∃ fs, kind = .groupStart ∧ f = .group n fs ∧ Splits (some n) bytes fs rest := by
  cases kind with
  | groupStart =>
    simp only [readField, readContent, Option.map_eq_some_iff, reduceCtorEq, false_or, true_and]
    constructor
    · rintro ⟨⟨fs, rest'⟩, hread, hf⟩
      obtain ⟨rfl, rfl⟩ := Prod.mk.injEq .. ▸ hf
      exact ⟨fs, rfl, .of_readUpTo hread⟩
    · rintro ⟨fs, rfl, hsplits⟩
      exact ⟨(fs, rest), hsplits.readUpTo_eq (Nat.lt_succ_self _), rfl⟩
  | varint | fixed64 | bytes | groupEnd | fixed32 => simp [readField]

namespace Splits

variable {opened : Option Nat} {bytes rest : List UInt8} {fs : List Field}

/-- What follows a key is the end of the open group, or a field and what is behind it. -/
theorem of_readKey {n : Nat} {kind : Kind} {inner : List UInt8} (h : Splits opened bytes fs rest)
    (hkey : readKey bytes = some (n, kind, inner)) :
    (kind = .groupEnd ∧ opened = some n ∧ fs = [] ∧ rest = inner) ∨
      (kind ≠ .groupEnd ∧ ∃ f next fs', readField n kind inner = some (f, next) ∧
        Splits opened next fs' rest ∧ fs = f :: fs') := by
  cases h with
  | done => exact absurd hkey (by simp)
  | close key =>
    obtain ⟨rfl, rfl, rfl⟩ : _ ∧ _ ∧ _ := by simpa [key] using hkey
    exact .inl ⟨rfl, rfl, rfl, rfl⟩
  | leaf key content others =>
    obtain ⟨rfl, rfl, rfl⟩ : _ ∧ _ ∧ _ := by simpa [key] using hkey
    exact .inr ⟨(isLeaf_of_readContent content).2, _, _, _,
      readField_eq_some_iff.2 (.inl content), others, rfl⟩
  | group key content others =>
    obtain ⟨rfl, rfl, rfl⟩ : _ ∧ _ ∧ _ := by simpa [key] using hkey
    exact .inr ⟨by decide, _, _, _,
      readField_eq_some_iff.2 (.inr ⟨_, rfl, rfl, content⟩), others, rfl⟩

/-- Only the end of the bytes is no key. -/
theorem eq_nil_of_nil (h : Splits opened [] fs rest) : opened = none ∧ fs = [] ∧ rest = [] := by
  cases h with
  | done => exact ⟨rfl, rfl, rfl⟩
  | close key | leaf key | group key =>
    exact absurd key (by simp)

end Splits

/-! ## Written fields -/

/-- A field whose number, and that of every field in a group in it, is one that fields can
have. -/
inductive Field.IsNumbered : Field → Prop
  | varint {n : Nat} {v : UInt64} (number : IsNumber n) : IsNumbered (.varint n v)
  | fixed64 {n : Nat} {v : UInt64} (number : IsNumber n) : IsNumbered (.fixed64 n v)
  | bytes {n : Nat} {b : List UInt8} (number : IsNumber n) : IsNumbered (.bytes n b)
  | group {n : Nat} {fs : List Field} (number : IsNumber n) (content : ∀ f ∈ fs, f.IsNumbered) :
    IsNumbered (.group n fs)
  | fixed32 {n : Nat} {v : UInt32} (number : IsNumber n) : IsNumbered (.fixed32 n v)

theorem isNumbered_of_readContent {n : Nat} {kind : Kind} {bytes rest : List UInt8} {f : Field}
    (hn : IsNumber n) (h : readContent n kind bytes = some (f, rest)) : f.IsNumbered := by
  obtain rfl := number_of_readContent h
  cases f with
  | varint => exact .varint hn
  | fixed64 => exact .fixed64 hn
  | bytes => exact .bytes hn
  | group => cases kind <;> simp [readContent] at h
  | fixed32 => exact .fixed32 hn

/-- What has been split off is numbered. -/
theorem Splits.isNumbered {opened : Option Nat} {bytes rest : List UInt8} {fs : List Field}
    (h : Splits opened bytes fs rest) : ∀ f ∈ fs, f.IsNumbered := by
  induction h with
  | done | close => simp
  | leaf key content _ ih =>
    rw [List.forall_mem_cons]
    exact ⟨isNumbered_of_readContent (exists_front_of_readKey key).1 content, ih⟩
  | group key _ _ ihcontent ih =>
    rw [List.forall_mem_cons]
    exact ⟨.group (exists_front_of_readKey key).1 ihcontent, ih⟩

theorem isNumbered_of_readField {n : Nat} {kind : Kind} {bytes rest : List UInt8} {f : Field}
    (hn : IsNumber n) (h : readField n kind bytes = some (f, rest)) :
    f.number = n ∧ f.IsNumbered := by
  obtain h | ⟨fs, rfl, rfl, hsplits⟩ := readField_eq_some_iff.1 h
  · exact ⟨number_of_readContent h, isNumbered_of_readContent hn h⟩
  · exact ⟨rfl, .group hn hsplits.isNumbered⟩

theorem readFixed_writeFixed_append (size v : Nat) (rest : List UInt8) (h : v < 256 ^ size) :
    readFixed size (writeFixed size v ++ rest) = some (v, rest) := by
  induction size generalizing v with
  | zero =>
    obtain rfl : v = 0 := by simpa using h
    rfl
  | succ size ih =>
    have hlt : v / 256 < 256 ^ size := by
      rw [Nat.div_lt_iff_lt_mul (by decide)]
      exact h
    rw [writeFixed, List.cons_append, readFixed, ih _ hlt, Option.map_some, UInt8.toNat_ofNat',
      Nat.mod_mod]
    simp only [Option.some.injEq, Prod.mk.injEq, and_true]
    omega

theorem readBytes_writeBytes_append {bytes : List UInt8} (h : bytes.length < UInt64.size)
    (rest : List UInt8) : readBytes (writeBytes bytes ++ rest) = some (bytes, rest) := by
  have hsize : (UInt64.ofNat bytes.length).toNat = bytes.length := by
    rw [UInt64.toNat_ofNat', Nat.mod_eq_of_lt h]
  simp only [readBytes, writeBytes, List.append_assoc, Varint.read_write_append,
    Option.bind_eq_bind, Option.bind_some, hsize]
  simp

/-- What has been written is split off again as one field. Lengths of 64 bits are long
enough for all that is in it. -/
theorem Splits.write_append {f : Field} (h : f.IsNumbered) (hsize : f.write.length < UInt64.size)
    {opened : Option Nat} {next rest : List UInt8} {fs : List Field}
    (others : Splits opened next fs rest) : Splits opened (f.write ++ next) (f :: fs) rest := by
  induction h generalizing opened next rest fs with
  | varint number =>
    rw [Field.write, List.append_assoc]
    refine .leaf (readKey_writeKey_append number _ _) ?_ others
    rw [readContent, Varint.read_write_append, Option.map_some]
  | fixed64 number =>
    rw [Field.write, List.append_assoc]
    refine .leaf (readKey_writeKey_append number _ _) ?_ others
    rw [readContent, readFixed_writeFixed_append _ _ _ (UInt64.toNat_lt _), Option.map_some]
    simp only [UInt64.ofNat_toNat]
  | @bytes n b number =>
    have hb : b.length < UInt64.size := by
      simp only [Field.write, writeBytes, List.length_append] at hsize
      omega
    rw [Field.write, List.append_assoc]
    refine .leaf (readKey_writeKey_append number _ _) ?_ others
    rw [readContent, readBytes_writeBytes_append hb, Option.map_some]
  | @group n gs number content ih =>
    have hgs : (writeFields gs).length < UInt64.size := by
      simp only [Field.write, List.length_append] at hsize
      omega
    rw [Field.write, List.append_assoc, List.append_assoc]
    refine .group (readKey_writeKey_append number _ _) ?_ others
    -- The fields of the group are put in front of the key that ends it, the last one first.
    clear hsize content
    induction gs with
    | nil => exact .close (readKey_writeKey_append number _ _)
    | cons g gs ihgs =>
      rw [writeFields, List.length_append] at hgs
      rw [writeFields, List.append_assoc]
      exact ih g (List.mem_cons_self ..) (by omega) <|
        ihgs (fun g' hg' => ih g' (List.mem_cons_of_mem g hg')) (by omega)
  | fixed32 number =>
    rw [Field.write, List.append_assoc]
    refine .leaf (readKey_writeKey_append number _ _) ?_ others
    rw [readContent, readFixed_writeFixed_append _ _ _ (UInt32.toNat_lt _), Option.map_some]
    simp only [UInt32.ofNat_toNat]

/-- The fields of a written message are those that were written. -/
theorem readFields_writeFields {fs : List Field} (h : ∀ f ∈ fs, f.IsNumbered)
    (hsize : (writeFields fs).length < UInt64.size) : readFields (writeFields fs) = some fs := by
  rw [readFields_eq_some_iff]
  induction fs with
  | nil => exact .done
  | cons f fs ih =>
    rw [writeFields, List.length_append] at hsize
    rw [List.forall_mem_cons] at h
    exact .write_append h.1 (by omega) (ih h.2 (by omega))

end TemporalBindings.Wire
