import TemporalBindings.Generator
import TemporalBindings.Proofs.Encoding
import TemporalBindings.Proofs.Results

/-!
# TemporalBindings.Proofs.Serialized

What bytes are a request. A serialization of a request is any sequence of fields in which
those of each number, in their order, say what the request holds under it:

```
1           the requested files, a text each
2           texts, the last of which is the parameter
3           pieces of the compiler's version, which are one message together
15          the descriptors, byte for byte
any other   a field within the levels of nesting that may be passed over
```

The fields of different numbers may come in any order. Reading gives the request back, and
nothing but serializations can be read. A descriptor is taken as it is: bytes that are not
those of a file are found when the descriptors are linked and not before.
-/

namespace TemporalBindings.Wire

/-! ## Fields of a number -/

/-- The fields of one number, in their order. -/
def numbered (n : Nat) (fs : List Field) : List Field :=
  fs.filter (·.number = n)

@[simp] theorem numbered_nil (n : Nat) : numbered n [] = [] := rfl

theorem numbered_append (n : Nat) (fs gs : List Field) :
    numbered n (fs ++ gs) = numbered n fs ++ numbered n gs :=
  List.filter_append ..

theorem numbered_singleton (n : Nat) (f : Field) :
    numbered n [f] = if f.number = n then [f] else [] := by
  rw [numbered, List.filter_singleton]
  simp

/-- Fields written with one number are all of that number. -/
theorem numbered_map {α : Type} {write : α → Field} {m : Nat} (h : ∀ x, (write x).number = m)
    (n : Nat) (xs : List α) :
    numbered n (xs.map write) = if m = n then xs.map write else [] := by
  split
  · next hmn => exact List.filter_eq_self.2 (by simp [h, hmn])
  · next hmn => exact List.filter_eq_nil_iff.2 (by simp [h, hmn])

theorem mem_numbered {n : Nat} {f : Field} {fs : List Field} :
    f ∈ numbered n fs ↔ f ∈ fs ∧ f.number = n := by
  simp [numbered]

theorem numbered_concat_of_ne {n : Nat} {f : Field} (h : f.number ≠ n) (fs : List Field) :
    numbered n (fs ++ [f]) = numbered n fs := by
  rw [numbered_append, numbered_singleton, if_neg h, List.append_nil]

/-- Whether all fields but those of known numbers may be passed over. -/
def OthersFit (known : List Nat) (depth : Nat) (fs : List Field) : Prop :=
  ∀ f ∈ fs, f.number ∉ known → f.fits depth = true

instance (known : List Nat) (depth : Nat) (fs : List Field) :
    Decidable (OthersFit known depth fs) :=
  inferInstanceAs (Decidable (∀ f ∈ fs, f.number ∉ known → f.fits depth = true))

theorem OthersFit.concat {known : List Nat} {depth : Nat} {fs : List Field} {f : Field}
    (h : OthersFit known depth fs) (hf : f.number ∉ known → f.fits depth = true) :
    OthersFit known depth (fs ++ [f]) := by
  intro g hg
  obtain hg | rfl := List.mem_append.1 hg |>.imp_right List.mem_singleton.1
  · exact h g hg
  · exact hf

/-! ## What a field holds -/

/-- A field that holds bytes. -/
def Field.IsBytes (f : Field) (b : List UInt8) : Prop :=
  f = .bytes f.number b

/-- A field that holds a text. -/
def Field.IsText (f : Field) (s : String) : Prop :=
  f = .bytes f.number s.toUTF8.data.toList

/-- A field that holds a signed number: the low 32 bits of a varint are those of the number. -/
def Field.IsInt32 (f : Field) (n : Int32) : Prop :=
  ∃ v, f = .varint f.number v ∧ v.toUInt32.toInt32 = n

/-- A field that holds a message with given fields. -/
def Field.IsMessage (f : Field) (gs : List Field) : Prop :=
  ∃ b, f = .bytes f.number b ∧ Encodes gs b

namespace Field

variable {f : Field}

theorem bytes?_eq_some_iff {b : List UInt8} : f.bytes? = some b ↔ f.IsBytes b := by
  cases f <;> simp [bytes?, IsBytes, number]

theorem fromUTF8?_eq_some_iff {b : List UInt8} {s : String} :
    String.fromUTF8? b.toByteArray = some s ↔ b = s.toUTF8.data.toList := by
  unfold String.fromUTF8?
  constructor
  · intro h
    split at h
    · obtain rfl := Option.some.inj h
      simp [String.fromUTF8]
    · cases h
  · rintro rfl
    have hbytes : s.toUTF8.data.toList.toByteArray = s.toUTF8 := by
      apply ByteArray.ext
      simp
    rw [hbytes, String.toUTF8_eq_toByteArray, dif_pos s.isValidUTF8]
    rfl

theorem string?_eq_some_iff {s : String} : f.string? = some s ↔ f.IsText s := by
  rw [string?, Option.bind_eq_some_iff]
  simp only [bytes?_eq_some_iff, fromUTF8?_eq_some_iff]
  constructor
  · rintro ⟨b, hb, rfl⟩
    exact hb
  · intro h
    exact ⟨_, h, rfl⟩

theorem int32?_eq_some_iff {n : Int32} : f.int32? = some n ↔ f.IsInt32 n := by
  cases f <;> simp [int32?, uint64?, IsInt32, number]

theorem message?_eq_some_iff {gs : List Field} : f.message? = some gs ↔ f.IsMessage gs := by
  rw [message?, Option.bind_eq_some_iff]
  simp only [bytes?_eq_some_iff, readFields_eq_some_iff_encodes]
  rfl

end Field

/-- Each element of one of two related lists is related to one of the other. -/
theorem exists_of_forall₂ {α β : Type} {R : α → β → Prop} {xs : List α} {ys : List β} {x : α}
    (h : List.Forall₂ R xs ys) (hx : x ∈ xs) : ∃ y ∈ ys, R x y := by
  obtain ⟨i, hi, rfl⟩ := List.getElem_of_mem hx
  exact ⟨_, List.getElem_mem (h.length_eq ▸ hi), h.get hi (h.length_eq ▸ hi)⟩

/-- The last of what several fields hold, each of them something. -/
def IsLast {α : Type} (holds : Field → α → Prop) (fs : List Field) (x : Option α) : Prop :=
  ∃ values, List.Forall₂ holds fs values ∧ values.getLast? = x

namespace IsLast

variable {α : Type} {holds : Field → α → Prop} {fs : List Field} {f : Field}

theorem nil : IsLast holds [] none :=
  ⟨[], .nil, rfl⟩

theorem concat {x : Option α} {a : α} (h : IsLast holds fs x) (ha : holds f a) :
    IsLast holds (fs ++ [f]) (some a) := by
  obtain ⟨values, hvalues, -⟩ := h
  exact ⟨values ++ [a], List.rel_append hvalues (.cons ha .nil), List.getLast?_concat⟩

/-- Each of the fields holds something. -/
theorem exists_of_mem {x : Option α} (h : IsLast holds fs x) (hf : f ∈ fs) : ∃ a, holds f a := by
  obtain ⟨values, hvalues, -⟩ := h
  obtain ⟨a, -, ha⟩ := exists_of_forall₂ hvalues hf
  exact ⟨a, ha⟩

theorem rightUnique (h : Relator.RightUnique holds) : Relator.RightUnique (IsLast holds) := by
  rintro fs x y ⟨values, hvalues, rfl⟩ ⟨values', hvalues', rfl⟩
  rw [List.right_unique_forall₂' h hvalues hvalues']

end IsLast

/-- What is read from a field is the one thing that it holds. -/
theorem rightUnique_of_reads {α : Type} {read : Field → Option α} {holds : Field → α → Prop}
    (h : ∀ {f a}, read f = some a ↔ holds f a) : Relator.RightUnique holds := by
  intro f a b ha hb
  rw [← h] at ha hb
  exact Option.some.inj (ha.symm.trans hb)

end TemporalBindings.Wire

namespace TemporalBindings.Plugin

open Wire

/-! ## Serializations -/

/-- Fields that a version is the message of. -/
structure CompilerVersion.CarriedBy (v : CompilerVersion) (fs : List Field) : Prop where
  major : IsLast Field.IsInt32 (numbered 1 fs) v.major
  minor : IsLast Field.IsInt32 (numbered 2 fs) v.minor
  patch : IsLast Field.IsInt32 (numbered 3 fs) v.patch
  suffix : IsLast Field.IsText (numbered 4 fs) v.suffix
  others : OthersFit [1, 2, 3, 4] (maxDepth - 1) fs

/-- Pieces that a version, if there is one, is made of: it is the message of their fields one
after the other. -/
def PiecesOf (pieces : List (List Field)) : Option CompilerVersion → Prop
  | none => pieces = []
  | some v => pieces ≠ [] ∧ v.CarriedBy pieces.flatten

/-- Fields that a request is the message of. -/
structure Request.CarriedBy (r : Request) (fs : List Field) : Prop where
  files : List.Forall₂ Field.IsText (numbered 1 fs) r.files
  parameter : IsLast Field.IsText (numbered 2 fs) r.parameter
  compiler : ∃ pieces, List.Forall₂ Field.IsMessage (numbered 3 fs) pieces ∧
    PiecesOf pieces r.compiler
  descriptors : List.Forall₂ Field.IsBytes (numbered 15 fs) r.descriptors
  others : OthersFit [1, 2, 3, 15] maxDepth fs

/-! ## Reading a serialization

One more field carries what is read so far and the field; what a message is made of can be
read; and fields carry one message only. -/

/-- What holds of the fields read so far holds of all of them if one more field keeps it. -/
theorem of_foldlM {ρ : Type} {add : ρ → Field → Option ρ} {P : ρ → List Field → Prop}
    (hadd : ∀ x fs f y, P x fs → add x f = some y → P y (fs ++ [f])) {x y : ρ}
    {before fs : List Field} (hx : P x before) (h : fs.foldlM add x = some y) :
    P y (before ++ fs) := by
  induction fs generalizing x before with
  | nil =>
    obtain rfl := Option.some.inj h
    rwa [List.append_nil]
  | cons f fs ih =>
    rw [List.foldlM_cons] at h
    obtain ⟨x', hx', h⟩ := Option.bind_eq_some_iff.1 h
    rw [List.append_cons]
    exact ih (hadd _ _ _ _ hx hx') h

/-- Fields are read if each of them can be, whatever has been read before. -/
theorem isSome_foldlM {ρ : Type} {add : ρ → Field → Option ρ} {fs : List Field}
    (h : ∀ f ∈ fs, ∀ x, (add x f).isSome) (x : ρ) : (fs.foldlM add x).isSome := by
  induction fs generalizing x with
  | nil => rfl
  | cons f fs ih =>
    rw [List.forall_mem_cons] at h
    obtain ⟨y, hy⟩ := Option.isSome_iff_exists.1 (h.1 x)
    rw [List.foldlM_cons, hy]
    exact ih h.2 y

theorem passOver_eq_some_iff {ρ : Type} {depth : Nat} {f : Field} {x y : ρ} :
    passOver depth f x = some y ↔ f.fits depth = true ∧ x = y := by
  simp [passOver]

namespace CompilerVersion

variable {v w : CompilerVersion} {fs gs : List Field} {f : Field}

theorem carriedBy_nil : CarriedBy {} [] :=
  ⟨.nil, .nil, .nil, .nil, fun _ hf => nomatch hf⟩

theorem CarriedBy.addField (h : v.CarriedBy fs) (hw : v.addField f = some w) :
    w.CarriedBy (fs ++ [f]) := by
  obtain ⟨hmajor, hminor, hpatch, hsuffix, hothers⟩ := h
  unfold CompilerVersion.addField at hw
  split at hw
  · next hn =>
    obtain ⟨n, hread, rfl⟩ := Option.map_eq_some_iff.1 hw
    have hlast := hmajor.concat (Field.int32?_eq_some_iff.1 hread)
    have hall := hothers.concat (f := f) (by simp [hn])
    constructor <;> simpa [numbered_append, numbered_singleton, hn]
  · next hn =>
    obtain ⟨n, hread, rfl⟩ := Option.map_eq_some_iff.1 hw
    have hlast := hminor.concat (Field.int32?_eq_some_iff.1 hread)
    have hall := hothers.concat (f := f) (by simp [hn])
    constructor <;> simpa [numbered_append, numbered_singleton, hn]
  · next hn =>
    obtain ⟨n, hread, rfl⟩ := Option.map_eq_some_iff.1 hw
    have hlast := hpatch.concat (Field.int32?_eq_some_iff.1 hread)
    have hall := hothers.concat (f := f) (by simp [hn])
    constructor <;> simpa [numbered_append, numbered_singleton, hn]
  · next hn =>
    obtain ⟨s, hread, rfl⟩ := Option.map_eq_some_iff.1 hw
    have hlast := hsuffix.concat (Field.string?_eq_some_iff.1 hread)
    have hall := hothers.concat (f := f) (by simp [hn])
    constructor <;> simpa [numbered_append, numbered_singleton, hn]
  · next h₁ h₂ h₃ h₄ =>
    obtain ⟨hfits, rfl⟩ := passOver_eq_some_iff.1 hw
    exact ⟨by rwa [numbered_concat_of_ne h₁], by rwa [numbered_concat_of_ne h₂],
      by rwa [numbered_concat_of_ne h₃], by rwa [numbered_concat_of_ne h₄],
      hothers.concat fun _ => hfits⟩

theorem CarriedBy.foldlM (h : v.CarriedBy fs)
    (hw : gs.foldlM CompilerVersion.addField v = some w) : w.CarriedBy (fs ++ gs) :=
  of_foldlM (fun _ _ _ _ => .addField) h hw

theorem CarriedBy.isSome_addField (h : v.CarriedBy fs) (hf : f ∈ fs) (w : CompilerVersion) :
    (w.addField f).isSome := by
  unfold CompilerVersion.addField
  split
  · next hn =>
    obtain ⟨n, hread⟩ := h.major.exists_of_mem (mem_numbered.2 ⟨hf, hn⟩)
    simp [Field.int32?_eq_some_iff.2 hread]
  · next hn =>
    obtain ⟨n, hread⟩ := h.minor.exists_of_mem (mem_numbered.2 ⟨hf, hn⟩)
    simp [Field.int32?_eq_some_iff.2 hread]
  · next hn =>
    obtain ⟨n, hread⟩ := h.patch.exists_of_mem (mem_numbered.2 ⟨hf, hn⟩)
    simp [Field.int32?_eq_some_iff.2 hread]
  · next hn =>
    obtain ⟨s, hread⟩ := h.suffix.exists_of_mem (mem_numbered.2 ⟨hf, hn⟩)
    simp [Field.string?_eq_some_iff.2 hread]
  · next h₁ h₂ h₃ h₄ =>
    have hother := h.others f hf (by simpa using ⟨h₁, h₂, h₃, h₄⟩)
    simp [passOver, hother]

theorem CarriedBy.eq (h : v.CarriedBy fs) (hw : w.CarriedBy fs) : v = w := by
  have hint : Relator.RightUnique Field.IsInt32 := rightUnique_of_reads Field.int32?_eq_some_iff
  have htext : Relator.RightUnique Field.IsText := rightUnique_of_reads Field.string?_eq_some_iff
  obtain ⟨major, minor, patch, suffix⟩ := v
  obtain ⟨major', minor', patch', suffix'⟩ := w
  obtain rfl : major = major' := IsLast.rightUnique hint h.major hw.major
  obtain rfl : minor = minor' := IsLast.rightUnique hint h.minor hw.minor
  obtain rfl : patch = patch' := IsLast.rightUnique hint h.patch hw.patch
  obtain rfl : suffix = suffix' := IsLast.rightUnique htext h.suffix hw.suffix
  rfl

end CompilerVersion

theorem PiecesOf.eq {pieces : List (List Field)} {x y : Option CompilerVersion}
    (hx : PiecesOf pieces x) (hy : PiecesOf pieces y) : x = y := by
  cases x with
  | none =>
    cases y with
    | none => rfl
    | some w => exact absurd hx hy.1
  | some v =>
    cases y with
    | none => exact absurd hy hx.1
    | some w => rw [hx.2.eq hy.2]

namespace Parameter

theorem exists_of_addAll {p : Parameter} {parts : List (List Char)} {e : Error}
    (h : p.addAll parts = .error e) : ∃ part, e = .invalidParameter part := by
  induction parts generalizing p with
  | nil => cases h
  | cons part rest ih =>
    rw [addAll] at h
    split at h
    · exact ih h
    · exact ⟨_, (Except.error.inj h).symm⟩

/-- What is wrong with a parameter is reported as such. -/
theorem exists_of_parse {s : Option String} {e : Error} (h : parse s = .error e) :
    ∃ part, e = .invalidParameter part := by
  cases s with
  | none => cases h
  | some s =>
    rw [parse] at h
    cases hp : addAll {} (parts s) with
    | error e' =>
      rw [hp] at h
      exact Except.error.inj h ▸ exists_of_addAll hp
    | ok p =>
      rw [hp] at h
      change p.check = .error e at h
      unfold check at h
      split at h
      · exact ⟨_, (Except.error.inj h).symm⟩
      · cases h

end Parameter

namespace Request

variable {r s : Request} {fs : List Field} {f : Field}

theorem carriedBy_nil : CarriedBy {} [] :=
  ⟨.nil, .nil, ⟨[], .nil, rfl⟩, .nil, fun _ hf => nomatch hf⟩

theorem CarriedBy.addField (h : r.CarriedBy fs) (hs : r.addField f = some s) :
    s.CarriedBy (fs ++ [f]) := by
  obtain ⟨hfiles, hparameter, hcompiler, hdescriptors, hothers⟩ := h
  unfold Request.addField at hs
  split at hs
  · next hn =>
    obtain ⟨x, hread, rfl⟩ := Option.map_eq_some_iff.1 hs
    have hmore := List.rel_append hfiles (.cons (Field.string?_eq_some_iff.1 hread) .nil)
    have hall := hothers.concat (f := f) (by simp [hn])
    constructor <;> simpa [numbered_append, numbered_singleton, hn]
  · next hn =>
    obtain ⟨x, hread, rfl⟩ := Option.map_eq_some_iff.1 hs
    have hlast := hparameter.concat (Field.string?_eq_some_iff.1 hread)
    have hall := hothers.concat (f := f) (by simp [hn])
    constructor <;> simpa [numbered_append, numbered_singleton, hn]
  · next hn =>
    obtain ⟨gs, hread, hs⟩ := Option.bind_eq_some_iff.1 hs
    obtain ⟨v, hv, hs⟩ := Option.bind_eq_some_iff.1 hs
    obtain rfl := Option.some.inj hs
    obtain ⟨pieces, hpieces, hof⟩ := hcompiler
    have hbefore : (r.compiler.getD {}).CarriedBy pieces.flatten := by
      cases hr : r.compiler with
      | none =>
        rw [hr] at hof
        obtain rfl : pieces = [] := hof
        exact CompilerVersion.carriedBy_nil
      | some w => exact (hr ▸ hof : PiecesOf pieces (some w)).2
    have hmore := List.rel_append hpieces (.cons (Field.message?_eq_some_iff.1 hread) .nil)
    have hcarried : PiecesOf (pieces ++ [gs]) (some v) :=
      ⟨by simp, by simpa using hbefore.foldlM hv⟩
    have hall := hothers.concat (f := f) (by simp [hn])
    refine ⟨?_, ?_, ⟨pieces ++ [gs], ?_, hcarried⟩, ?_, hall⟩ <;>
      simpa [numbered_append, numbered_singleton, hn]
  · next hn =>
    obtain ⟨x, hread, rfl⟩ := Option.map_eq_some_iff.1 hs
    have hmore := List.rel_append hdescriptors (.cons (Field.bytes?_eq_some_iff.1 hread) .nil)
    have hall := hothers.concat (f := f) (by simp [hn])
    constructor <;> simpa [numbered_append, numbered_singleton, hn]
  · next h₁ h₂ h₃ h₄ =>
    obtain ⟨hfits, rfl⟩ := passOver_eq_some_iff.1 hs
    exact ⟨by rwa [numbered_concat_of_ne h₁], by rwa [numbered_concat_of_ne h₂],
      by rwa [numbered_concat_of_ne h₃], by rwa [numbered_concat_of_ne h₄],
      hothers.concat fun _ => hfits⟩

theorem CarriedBy.isSome_addField (h : r.CarriedBy fs) (hf : f ∈ fs) (s : Request) :
    (s.addField f).isSome := by
  unfold Request.addField
  split
  · next hn =>
    obtain ⟨x, -, hread⟩ := exists_of_forall₂ h.files (mem_numbered.2 ⟨hf, hn⟩)
    simp [Field.string?_eq_some_iff.2 hread]
  · next hn =>
    obtain ⟨x, hread⟩ := h.parameter.exists_of_mem (mem_numbered.2 ⟨hf, hn⟩)
    simp [Field.string?_eq_some_iff.2 hread]
  · next hn =>
    obtain ⟨pieces, hpieces, hof⟩ := h.compiler
    obtain ⟨gs, hgs, hread⟩ := exists_of_forall₂ hpieces (mem_numbered.2 ⟨hf, hn⟩)
    cases hr : r.compiler with
    | none =>
      rw [hr] at hof
      obtain rfl : pieces = [] := hof
      cases hgs
    | some v =>
      have hv : v.CarriedBy pieces.flatten := (hr ▸ hof : PiecesOf pieces (some v)).2
      have hinner := isSome_foldlM (fun g hg => hv.isSome_addField
        (List.mem_flatten_of_mem hgs hg)) (s.compiler.getD {})
      obtain ⟨w, hw⟩ := Option.isSome_iff_exists.1 hinner
      simp [Field.message?_eq_some_iff.2 hread, hw]
  · next hn =>
    obtain ⟨x, -, hread⟩ := exists_of_forall₂ h.descriptors (mem_numbered.2 ⟨hf, hn⟩)
    simp [Field.bytes?_eq_some_iff.2 hread]
  · next h₁ h₂ h₃ h₄ =>
    have hother := h.others f hf (by simpa using ⟨h₁, h₂, h₃, h₄⟩)
    simp [passOver, hother]

theorem CarriedBy.eq (h : r.CarriedBy fs) (hs : s.CarriedBy fs) : r = s := by
  have htext : Relator.RightUnique Field.IsText := rightUnique_of_reads Field.string?_eq_some_iff
  have hbytes : Relator.RightUnique Field.IsBytes := rightUnique_of_reads Field.bytes?_eq_some_iff
  have hmessage : Relator.RightUnique Field.IsMessage :=
    rightUnique_of_reads Field.message?_eq_some_iff
  obtain ⟨files, parameter, compiler, descriptors⟩ := r
  obtain ⟨files', parameter', compiler', descriptors'⟩ := s
  obtain rfl : files = files' := List.right_unique_forall₂' htext h.files hs.files
  obtain rfl : parameter = parameter' := IsLast.rightUnique htext h.parameter hs.parameter
  obtain ⟨pieces, hpieces, hof⟩ := h.compiler
  obtain ⟨pieces', hpieces', hof'⟩ := hs.compiler
  obtain rfl := List.right_unique_forall₂' hmessage hpieces hpieces'
  obtain rfl : compiler = compiler' := hof.eq hof'
  obtain rfl : descriptors = descriptors' :=
    List.right_unique_forall₂' hbytes h.descriptors hs.descriptors
  rfl

/-- Fields are read as the request that they carry. -/
theorem ofFields?_eq_some_iff : ofFields? fs = some r ↔ r.CarriedBy fs := by
  have hread {s : Request} (h : ofFields? fs = some s) : s.CarriedBy fs :=
    of_foldlM (fun _ _ _ _ => .addField) carriedBy_nil h
  refine ⟨hread, fun h => ?_⟩
  obtain ⟨s, hs⟩ :=
    Option.isSome_iff_exists.1 (isSome_foldlM (fun _ => h.isSome_addField) ({} : Request))
  rw [h.eq (hread hs)]
  exact hs

theorem decode_eq_ok_iff {bytes : List UInt8} :
    decode bytes = .ok r ↔ ∃ fs, Encodes fs bytes ∧ r.CarriedBy fs := by
  have hbind : (readFields bytes).bind ofFields? = some r ↔
      ∃ fs, Encodes fs bytes ∧ r.CarriedBy fs := by
    simp only [Option.bind_eq_some_iff, readFields_eq_some_iff_encodes, ofFields?_eq_some_iff]
  rw [← hbind, decode]
  cases (readFields bytes).bind ofFields? <;> simp

/-! ## Descriptors are opaque

Nothing that is read before or after a descriptor depends on it. -/

/-- A request with more descriptors in front of its own. -/
def withBefore (before : List (List UInt8)) (r : Request) : Request :=
  { r with descriptors := before ++ r.descriptors }

theorem addField_withBefore (before : List (List UInt8)) (r : Request) (f : Field) :
    (r.withBefore before).addField f = (r.addField f).map (withBefore before) := by
  unfold addField
  split
  · cases f.string? <;> rfl
  · cases f.string? <;> rfl
  · cases f.message? with
    | none => rfl
    | some gs =>
      have hcompiler : (r.withBefore before).compiler = r.compiler := rfl
      simp only [Option.bind_eq_bind, Option.bind_some, hcompiler]
      cases gs.foldlM CompilerVersion.addField (r.compiler.getD {}) <;> rfl
  · cases f.bytes? with
    | none => rfl
    | some b => simp [withBefore, List.append_assoc]
  · simp only [passOver]
    split <;> rfl

theorem foldlM_withBefore (before : List (List UInt8)) (r : Request) (fs : List Field) :
    fs.foldlM addField (r.withBefore before) = (fs.foldlM addField r).map (withBefore before) := by
  induction fs generalizing r with
  | nil => rfl
  | cons f fs ih =>
    rw [List.foldlM_cons, List.foldlM_cons, addField_withBefore]
    cases r.addField f with
    | none => rfl
    | some s => exact ih s

theorem insertIdx_length_append {α : Type} (xs ys : List α) (x : α) :
    (xs ++ ys).insertIdx xs.length x = xs ++ x :: ys := by
  induction xs with
  | nil => rfl
  | cons a xs ih => simp [ih]

/-- A descriptor between other fields is one more in its place, whatever its bytes are. -/
theorem ofFields?_descriptor (before after : List Field) (d : List UInt8) :
    ofFields? (before ++ .bytes 15 d :: after) =
      (ofFields? (before ++ after)).map fun r =>
        { r with descriptors := r.descriptors.insertIdx (numbered 15 before).length d } := by
  simp only [ofFields?, List.foldlM_append]
  cases hr : before.foldlM addField {} with
  | none => rfl
  | some r =>
    have hlength : (numbered 15 before).length = r.descriptors.length :=
      (ofFields?_eq_some_iff.1 hr).descriptors.length_eq
    -- What comes behind is read as if no descriptors had come before it.
    let bare : Request := { r with descriptors := [] }
    have hbare : bare.withBefore r.descriptors = r := by simp [bare, withBefore]
    have hmore : r.addField (.bytes 15 d) = some (bare.withBefore (r.descriptors ++ [d])) := by
      simp [addField, Field.number, Field.bytes?, bare, withBefore]
    have hafter := foldlM_withBefore r.descriptors bare after
    rw [hbare] at hafter
    simp only [Option.bind_eq_bind, Option.bind_some, List.foldlM_cons, hmore, hafter, hlength,
      foldlM_withBefore]
    cases after.foldlM addField bare with
    | none => rfl
    | some s => simp [withBefore, insertIdx_length_append]

/-- The bytes of a descriptor have no part in whether the bytes around it can be read, nor in
what else is read. -/
theorem decode_descriptor {before : List Field} {front entry : List UInt8} {d : List UInt8}
    (hfront : Encodes before front) (hentry : Encodes [.bytes 15 d] entry)
    (behind : List UInt8) :
    decode (front ++ entry ++ behind) = (decode (front ++ behind)).map fun r =>
      { r with descriptors := r.descriptors.insertIdx (numbered 15 before).length d } := by
  have hread := (hfront.append hentry).readFields_append behind
  simp only [decode, hread, hfront.readFields_append]
  cases readFields behind with
  | none => rfl
  | some after =>
    simp only [Option.map_some, Option.bind_some, List.append_assoc, List.singleton_append,
      ofFields?_descriptor]
    cases ofFields? (before ++ after) <;> rfl

theorem mapM_eq_none_of_mem {α β : Type} {f : α → Option β} {xs : List α} {x : α} (hx : x ∈ xs)
    (h : f x = none) : xs.mapM f = none := by
  induction xs with
  | nil => cases hx
  | cons y ys ih =>
    rw [List.mapM_cons]
    obtain rfl | hys := List.mem_cons.1 hx
    · rw [h]
      rfl
    · rw [ih hys]
      cases f y <;> rfl

/-- Bytes that are no file are a flaw of the descriptors. -/
theorem poolOf_of_read_eq_none {r : Request} {d : List UInt8} (hd : d ∈ r.descriptors)
    (h : Schema.FileDescriptor.read d = none) :
    Bindings.poolOf r = .error (.invalidDescriptors .malformedFile) := by
  rw [Bindings.poolOf, Schema.Pool.read, mapM_eq_none_of_mem hd h]

/-- Without linked descriptors nothing is generated, and their flaw is the error if the
parameter is not one before. -/
theorem generate_of_poolOf {r : Request} {flaw : Schema.Flaw}
    (h : Bindings.poolOf r = .error (.invalidDescriptors flaw)) :
    (generate r).result =
      (Parameter.parse r.parameter).bind fun _ => .error (.invalidDescriptors flaw) := by
  simp only [generate, generateUnder, Bindings.load, Report.bind_def, Report.andThen,
    Report.ofExcept, h]
  cases Parameter.parse r.parameter <;> rfl

end Request

/-! ## Writing -/

instance (n : Nat) : Decidable (IsNumber n) :=
  inferInstanceAs (Decidable (_ ∧ _))

/-- The bytes of one of several fields are among those of all. -/
theorem length_write_le {fs : List Field} {f : Field} (hf : f ∈ fs) :
    f.write.length ≤ (writeFields fs).length := by
  induction fs with
  | nil => cases hf
  | cons g fs ih =>
    rw [writeFields, List.length_append]
    obtain rfl | hf := List.mem_cons.1 hf
    · exact Nat.le_add_right ..
    · exact Nat.le_trans (ih hf) (Nat.le_add_left ..)

theorem number_int32Field (number : Nat) (n : Int32) : (int32Field number n).number = number :=
  rfl

theorem number_stringField (number : Nat) (s : String) : (stringField number s).number = number :=
  rfl

/-- The bits in front with which a number is extended are dropped again. -/
theorem isInt32_int32Field (number : Nat) (n : Int32) : (int32Field number n).IsInt32 n := by
  refine ⟨_, rfl, Int32.toBitVec_inj.1 (BitVec.eq_of_getLsbD_eq fun i hi => ?_)⟩
  have hlow : i < 64 := by omega
  simp [BitVec.getElem_signExtend, hi, hlow]

theorem isText_stringField (number : Nat) (s : String) : (stringField number s).IsText s :=
  rfl

theorem isLast_map {α : Type} {write : α → Field} {holds : Field → α → Prop}
    (h : ∀ a, holds (write a) a) (x : Option α) : IsLast holds (x.map write).toList x := by
  cases x with
  | none => exact .nil
  | some a => exact ⟨[a], .cons (h a) .nil, rfl⟩

theorem numbered_map_toList {α : Type} {write : α → Field} {m : Nat}
    (h : ∀ x, (write x).number = m) (n : Nat) (x : Option α) :
    numbered n (x.map write).toList = if m = n then (x.map write).toList else [] := by
  cases x with
  | none => simp
  | some a => exact numbered_map h n [a]

namespace CompilerVersion

theorem isNumbered_of_mem_toFields {v : CompilerVersion} {f : Field} (hf : f ∈ v.toFields) :
    f.IsNumbered ∧ f.number ∈ [1, 2, 3, 4] := by
  simp only [toFields, List.mem_append, Option.mem_toList, Option.map_eq_some_iff] at hf
  obtain ((⟨n, -, rfl⟩ | ⟨n, -, rfl⟩) | ⟨n, -, rfl⟩) | ⟨s, -, rfl⟩ := hf
  · exact ⟨.varint (by decide), by simp [number_int32Field]⟩
  · exact ⟨.varint (by decide), by simp [number_int32Field]⟩
  · exact ⟨.varint (by decide), by simp [number_int32Field]⟩
  · exact ⟨.bytes (by decide), by simp [number_stringField]⟩

theorem carriedBy_toFields (v : CompilerVersion) : v.CarriedBy v.toFields := by
  have hmajor := isLast_map (isInt32_int32Field 1) v.major
  have hminor := isLast_map (isInt32_int32Field 2) v.minor
  have hpatch := isLast_map (isInt32_int32Field 3) v.patch
  have hsuffix := isLast_map (isText_stringField 4) v.suffix
  have hothers : OthersFit [1, 2, 3, 4] (maxDepth - 1) v.toFields := fun f hf hn =>
    absurd (isNumbered_of_mem_toFields hf).2 hn
  refine ⟨?_, ?_, ?_, ?_, hothers⟩ <;>
    simpa [toFields, numbered_append, numbered_map_toList (number_int32Field _),
      numbered_map_toList (number_stringField _)]

end CompilerVersion

namespace Request

theorem isNumbered_of_mem_toFields {r : Request} {f : Field} (hf : f ∈ r.toFields) :
    f.IsNumbered ∧ f.number ∈ [1, 2, 3, 15] := by
  simp only [toFields, List.mem_append, Option.mem_toList, Option.map_eq_some_iff,
    List.mem_map] at hf
  obtain ((⟨s, -, rfl⟩ | ⟨s, -, rfl⟩) | ⟨v, -, rfl⟩) | ⟨d, -, rfl⟩ := hf <;>
    exact ⟨.bytes (by decide), by simp [stringField, Field.number]⟩

/-- The written version is one piece. -/
theorem piecesOf_toFields {r : Request} (hsize : (writeFields r.toFields).length < UInt64.size) :
    ∃ pieces, List.Forall₂ Field.IsMessage
        (r.compiler.map fun v => Field.bytes 3 (writeFields v.toFields)).toList pieces ∧
      PiecesOf pieces r.compiler := by
  cases hv : r.compiler with
  | none => exact ⟨[], .nil, rfl⟩
  | some v =>
    have hmem : Field.bytes 3 (writeFields v.toFields) ∈ r.toFields := by simp [toFields, hv]
    have hlength := length_write_le hmem
    simp only [Field.write, writeBytes, List.length_append] at hlength
    have hwritten : Encodes v.toFields (writeFields v.toFields) :=
      encodes_writeFields (fun _ hf => (CompilerVersion.isNumbered_of_mem_toFields hf).1)
        (by omega)
    refine ⟨[v.toFields], .cons ⟨_, rfl, hwritten⟩ .nil, by simp, ?_⟩
    simpa using v.carriedBy_toFields

/-- A request is what its written fields carry. -/
theorem carriedBy_toFields {r : Request} (hsize : (writeFields r.toFields).length < UInt64.size) :
    r.CarriedBy r.toFields := by
  have hversion (v : CompilerVersion) :
      (Field.bytes 3 (writeFields v.toFields)).number = 3 := rfl
  have hnumber (d : List UInt8) : (Field.bytes 15 d).number = 15 := rfl
  have hnumbered (n : Nat) : numbered n r.toFields =
      (if 1 = n then r.files.map (stringField 1) else []) ++
        (if 2 = n then (r.parameter.map (stringField 2)).toList else []) ++
        (if 3 = n then (r.compiler.map fun v => Field.bytes 3 (writeFields v.toFields)).toList
          else []) ++
        if 15 = n then r.descriptors.map (.bytes 15) else [] := by
    simp only [toFields, numbered_append, numbered_map (number_stringField _),
      numbered_map_toList (number_stringField _), numbered_map_toList hversion,
      numbered_map hnumber]
  have hparameter := isLast_map (isText_stringField 2) r.parameter
  have hcompiler := piecesOf_toFields hsize
  have hdescriptor (d : List UInt8) : (Field.bytes 15 d).IsBytes d := rfl
  exact ⟨by simp [hnumbered, isText_stringField], by simpa [hnumbered] using hparameter,
    by simpa [hnumbered] using hcompiler, by simp [hnumbered, hdescriptor],
    fun f hf hn => absurd (isNumbered_of_mem_toFields hf).2 hn⟩

theorem encodes_toFields {r : Request} (hsize : (writeFields r.toFields).length < UInt64.size) :
    Encodes r.toFields (writeFields r.toFields) :=
  encodes_writeFields (fun _ hf => (isNumbered_of_mem_toFields hf).1) hsize

/-- A request is read back from every serialization of it, and from nothing else, whatever the
order of fields of different numbers is and whatever else is between them; written fields are
one serialization. A descriptor comes back byte for byte and has no part in whether the bytes
around it can be read. If there is no file in it, that is an error of the descriptors. -/
theorem decode_serialized (r : Request) (bytes : List UInt8) :
    (decode bytes = .ok r ↔ ∃ fs, Encodes fs bytes ∧ r.CarriedBy fs) ∧
      ((writeFields r.toFields).length < UInt64.size →
        Encodes r.toFields (writeFields r.toFields) ∧ r.CarriedBy r.toFields) ∧
      (∀ before front d entry behind, Encodes before front → Encodes [.bytes 15 d] entry →
        decode (front ++ entry ++ behind) = (decode (front ++ behind)).map fun r =>
          { r with descriptors := r.descriptors.insertIdx (numbered 15 before).length d }) ∧
      (∀ d ∈ r.descriptors, Schema.FileDescriptor.read d = none →
        Bindings.poolOf r = .error (.invalidDescriptors .malformedFile) ∧
          (generate r).result ≠ .error .requestDecode ∧
          ∀ c, Parameter.parse r.parameter = .ok c →
            (generate r).result = .error (.invalidDescriptors .malformedFile)) := by
  refine ⟨decode_eq_ok_iff, fun hsize => ⟨encodes_toFields hsize, carriedBy_toFields hsize⟩,
    fun before front d entry behind hfront hentry => decode_descriptor hfront hentry behind,
    fun d hd hread => ?_⟩
  have hpool := poolOf_of_read_eq_none hd hread
  have hgenerate := generate_of_poolOf hpool
  refine ⟨hpool, fun h => ?_, fun c hc => by rw [hgenerate, hc]; rfl⟩
  rw [hgenerate] at h
  cases hc : Parameter.parse r.parameter with
  | ok c => simp [hc, Except.bind] at h
  | error e =>
    obtain ⟨p, rfl⟩ := Parameter.exists_of_parse hc
    simp [hc, Except.bind] at h

end Request

/-! ## A serialization in pieces -/

/-- A request whose only descriptor is no file. -/
def piecewiseRequest : Request where
  files := ["a.proto"]
  parameter := some "paths=source_relative"
  compiler := some { major := some 4, minor := some (-1) }
  descriptors := [[0x0a]]

/-- Fields that carry it: the descriptor comes first, the version in two pieces, the parameter
twice, and between them are a group in a group and a number, which are not declared. -/
def piecewiseFields : List Field :=
  [.bytes 15 [0x0a], .group 9 [.group 9 [], .fixed32 7 1], stringField 2 "paths=import",
    .bytes 3 (writeFields [int32Field 1 4]), stringField 1 "a.proto", .varint 16 300,
    .bytes 3 (writeFields [int32Field 2 (-1), .fixed64 9 0]),
    stringField 2 "paths=source_relative"]

theorem carriedBy_piecewiseFields : piecewiseRequest.CarriedBy piecewiseFields where
  files := .cons rfl .nil
  parameter := ⟨["paths=import", "paths=source_relative"], .cons rfl (.cons rfl .nil), rfl⟩
  compiler := by
    refine ⟨[[int32Field 1 4], [int32Field 2 (-1), .fixed64 9 0]], ?_, by simp, ?_⟩
    · exact .cons ⟨_, rfl, readFields_eq_some_iff_encodes.1 rfl⟩
        (.cons ⟨_, rfl, readFields_eq_some_iff_encodes.1 rfl⟩ .nil)
    · exact ⟨⟨[4], .cons (isInt32_int32Field 1 4) .nil, rfl⟩,
        ⟨[-1], .cons (isInt32_int32Field 2 (-1)) .nil, rfl⟩, .nil, .nil, by decide +kernel⟩
  descriptors := .cons rfl .nil
  others := by decide +kernel

/-- The request is read from the fields in pieces and from those that are written for it, the
descriptor in front of the others is one more in its place, and it is the error of the run. -/
theorem decode_piecewiseFields :
    Request.decode (writeFields piecewiseFields) = .ok piecewiseRequest ∧
      Request.decode (writeFields piecewiseRequest.toFields) = .ok piecewiseRequest ∧
      (∀ behind, Request.decode ([] ++ (Field.bytes 15 [0x0a]).write ++ behind) =
        (Request.decode ([] ++ behind)).map fun r =>
          { r with descriptors := r.descriptors.insertIdx 0 [0x0a] }) ∧
      (generate piecewiseRequest).result = .error (.invalidDescriptors .malformedFile) := by
  obtain ⟨hdecode, hwritten, hdescriptor, hmalformed⟩ :=
    Request.decode_serialized piecewiseRequest (writeFields piecewiseFields)
  have hread :=
    (Request.decode_serialized piecewiseRequest (writeFields piecewiseRequest.toFields)).1
  refine ⟨hdecode.2 ⟨_, readFields_eq_some_iff_encodes.1 rfl, carriedBy_piecewiseFields⟩,
    hread.2 ⟨_, hwritten (by decide +kernel)⟩,
    fun behind => hdescriptor [] [] _ _ behind .nil (readFields_eq_some_iff_encodes.1 rfl), ?_⟩
  obtain ⟨-, -, herror⟩ := hmalformed [0x0a] (by decide) rfl
  exact herror _ rfl

end TemporalBindings.Plugin
