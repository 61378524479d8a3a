import Mathlib.Data.List.Chain
import TemporalBindings.Proofs.Identifier
import TemporalBindings.Proofs.Lines

/-!
# TemporalBindings.Proofs.ExportedNames

Exported names. Each character of a dotted name becomes at most one character of the exported
one, and what it becomes depends on the position and on whether a lower-case letter follows:

```
get_v2.thing._x    a dotted name of three segments
GetV2Thing_XX      the exported name
```

From what one character becomes follows what a whole name does:

* the segments of a name are exported one by one, with an underscore or nothing between them;
* the exported name of an identifier is an identifier in which every lower-case letter follows
  a letter, and exporting it once more changes nothing;
* apart from the `X` for an underscore in front of a segment, letters and digits stay what they
  are and where they are.
-/

namespace TemporalBindings.Source

open Text

/-! ## Segments -/

/-- The segments of a dotted name. -/
def segments (name : String) : List String :=
  (name.toList.splitOn '.').map String.ofList

theorem segments_ne_nil (name : String) : segments name ≠ [] :=
  mt List.map_eq_nil_iff.1 (List.splitOn_ne_nil _ _)

theorem dot_not_mem_of_mem_segments {name s : String} (h : s ∈ segments name) : '.' ∉ s.toList := by
  obtain ⟨cs, hcs, rfl⟩ := List.mem_map.1 h
  rw [String.toList_ofList]
  exact not_mem_of_mem_splitOn hcs

theorem intercalate_segments (name : String) : ".".intercalate (segments name) = name := by
  have hmap : (segments name).map String.toList = name.toList.splitOn '.' := by
    simp [segments]
  rw [← String.toList_inj, String.toList_intercalate, hmap]
  exact List.intercalate_splitOn '.'

theorem segments_intercalate {ss : List String} (hdot : ∀ s ∈ ss, '.' ∉ s.toList) (hne : ss ≠ []) :
    segments (".".intercalate ss) = ss := by
  have hsplit : (".".intercalate ss).toList.splitOn '.' = ss.map String.toList := by
    rw [String.toList_intercalate]
    refine List.splitOn_intercalate '.' (fun cs hcs => ?_) (mt List.map_eq_nil_iff.1 hne)
    obtain ⟨s, hs, rfl⟩ := List.mem_map.1 hcs
    exact hdot s hs
  rw [segments, hsplit, List.map_map]
  exact (List.map_congr_left fun s _ => String.ofList_toList).trans (List.map_id ss)

theorem mem_intercalate {c : Char} {ss : List String} (h : c ∈ (".".intercalate ss).toList) :
    c = '.' ∨ ∃ s ∈ ss, c ∈ s.toList := by
  induction ss with
  | nil => simp at h
  | cons s rest ih =>
    cases rest with
    | nil => exact .inr ⟨s, List.mem_cons_self, by simpa using h⟩
    | cons t rest =>
      rw [String.intercalate_cons_cons, String.toList_append, String.toList_append,
        List.mem_append, List.mem_append] at h
      obtain (h | h) | h := h
      · exact .inr ⟨s, List.mem_cons_self, h⟩
      · exact .inl (by simpa using h)
      · exact (ih h).imp_right fun ⟨u, hu, hc⟩ => ⟨u, List.mem_cons_of_mem s hu, hc⟩

theorem mem_intercalate_of_mem {c : Char} {s : String} {ss : List String} (hs : s ∈ ss)
    (hc : c ∈ s.toList) : c ∈ (".".intercalate ss).toList := by
  induction ss with
  | nil => cases hs
  | cons t rest ih =>
    cases rest with
    | nil =>
      obtain rfl := List.mem_singleton.1 hs
      simpa using hc
    | cons u rest =>
      rw [String.intercalate_cons_cons, String.toList_append, String.toList_append,
        List.mem_append, List.mem_append]
      obtain rfl | hs := List.mem_cons.1 hs
      · exact .inl (.inl hc)
      · exact .inr (ih hs)

/-! ## Bytes -/

theorem byteChars_append (s t : List Char) : byteChars (s ++ t) = byteChars s ++ byteChars t := by
  simp [byteChars]

/-- A character of ASCII is its only byte. -/
theorem byteChars_cons_of_ascii {c : Char} (hc : c.toNat < 128) (s : List Char) :
    byteChars (c :: s) = c :: byteChars s := by
  have hle : c.val.toNat ≤ 127 := Nat.le_of_lt_succ hc
  have hbyte : (UInt8.ofNat c.val.toNat).toNat = c.toNat :=
    UInt8.toNat_ofNat_of_lt' (Nat.lt_trans hc (by decide))
  rw [byteChars, List.flatMap_cons, String.utf8EncodeChar, if_pos hle, List.map_append,
    List.map_singleton, hbyte, Char.ofNat_toNat]
  rfl

theorem byteChars_of_ascii {s : List Char} (h : ∀ c ∈ s, c.toNat < 128) : byteChars s = s := by
  induction s with
  | nil => rfl
  | cons c s ih =>
    rw [List.forall_mem_cons] at h
    rw [byteChars_cons_of_ascii h.1, ih h.2]

/-- The first byte of any other character is beyond ASCII too. -/
theorem exists_byteChars_cons {c : Char} (hc : 128 ≤ c.toNat) (s : List Char) :
    ∃ b rest, byteChars (c :: s) = b :: rest ∧ 128 ≤ b.toNat := by
  have hhigh {n : Nat} (hlow : 128 ≤ n) (hn : n < 256) :
      128 ≤ (Char.ofNat (UInt8.ofNat n).toNat).toNat := by
    have hvalid : n.isValidChar := .inl (by omega)
    rw [UInt8.toNat_ofNat_of_lt' hn, Char.ofNat, dif_pos hvalid]
    exact hlow
  have hle : ¬ c.val.toNat ≤ 127 := Nat.not_le.2 hc
  rw [byteChars, List.flatMap_cons, String.utf8EncodeChar, if_neg hle]
  split
  · exact ⟨_, _, rfl, hhigh (by omega) (by omega)⟩
  · split
    · exact ⟨_, _, rfl, hhigh (by omega) (by omega)⟩
    · exact ⟨_, _, rfl, hhigh (by omega) (by omega)⟩

/-- The letters of ASCII are two ranges. -/
theorem isLower_iff {c : Char} : c.isLower = true ↔ 0x61 ≤ c.toNat ∧ c.toNat ≤ 0x7A := by
  change (decide (c.val ≥ 'a'.val) && decide (c.val ≤ 'z'.val)) = true ↔ _
  rw [Bool.and_eq_true, decide_eq_true_eq, decide_eq_true_eq]
  exact and_congr UInt32.le_iff_toNat_le UInt32.le_iff_toNat_le

theorem isUpper_iff {c : Char} : c.isUpper = true ↔ 0x41 ≤ c.toNat ∧ c.toNat ≤ 0x5A := by
  change decide (c.val ≥ 'A'.val ∧ c.val ≤ 'Z'.val) = true ↔ _
  rw [decide_eq_true_eq]
  exact and_congr UInt32.le_iff_toNat_le UInt32.le_iff_toNat_le

theorem isAlpha_iff {c : Char} : c.isAlpha = true ↔ c.isUpper = true ∨ c.isLower = true :=
  Bool.or_eq_true_iff

theorem lt_of_isAlphanum {c : Char} (h : c.isAlphanum = true) : c.toNat < 128 := by
  have hnine : '9'.toNat = 0x39 := rfl
  rw [Char.isAlphanum, Bool.or_eq_true, isAlpha_iff, isUpper_iff, isLower_iff,
    Char.isDigit_iff_toNat] at h
  omega

theorem isAlphanum_of_isLower {c : Char} (h : c.isLower = true) : c.isAlphanum = true := by
  rw [Char.isAlphanum, Bool.or_eq_true, isAlpha_iff]
  exact .inl (.inr h)

/-- What is not in lower case is the same in upper case. -/
theorem toUpper_eq_self {c : Char} (h : c.isLower = false) : c.toUpper = c := by
  have hrange : ¬ ('a' ≤ c ∧ c ≤ 'z') := fun hrange => by
    have hlower := isLower_iff.2
      ⟨UInt32.le_iff_toNat_le.1 hrange.1, UInt32.le_iff_toNat_le.1 hrange.2⟩
    exact Bool.eq_false_iff.1 h hlower
  exact dif_neg hrange

/-- Letters in upper case, read off the table of ASCII. -/
theorem toUpper_of_isAlpha {c : Char} (h : c.isAlpha = true) :
    c.toUpper.isUpper = true ∧ c.toUpper.isLower = false ∧ c.toUpper.toLower = c.toLower := by
  have htable : ∀ n < 128, (Char.ofNat n).isAlpha = true → (Char.ofNat n).toUpper.isUpper = true ∧
      (Char.ofNat n).toUpper.isLower = false ∧
        (Char.ofNat n).toUpper.toLower = (Char.ofNat n).toLower := by decide
  have halphanum : c.isAlphanum = true := by simp [Char.isAlphanum, h]
  rw [← Char.ofNat_toNat c] at h ⊢
  exact htable c.toNat (lt_of_isAlphanum halphanum) h

theorem isAlpha_toUpper {c : Char} (h : c.isAlpha = true) : c.toUpper.isAlpha = true :=
  isAlpha_iff.2 (.inl (toUpper_of_isAlpha h).1)

theorem startsLower_byteChars (s : List Char) : startsLower (byteChars s) = startsLower s := by
  cases s with
  | nil => rfl
  | cons c s =>
    by_cases hc : c.toNat < 128
    · rw [byteChars_cons_of_ascii hc]
      rfl
    · obtain ⟨b, rest, hbytes, hb⟩ := exists_byteChars_cons (Nat.not_lt.1 hc) s
      have hhigh {d : Char} (hd : ¬ d.toNat < 128) : d.isLower = false :=
        Bool.eq_false_iff.2 fun h => hd (lt_of_isAlphanum (isAlphanum_of_isLower h))
      rw [hbytes, startsLower, startsLower, hhigh hc, hhigh (Nat.not_lt.2 hb)]

/-! ## One character -/

/-- What is left of a dot or an underscore before the rest of a name. -/
def joint (rest : List Char) : List Char :=
  if startsLower rest then [] else ['_']

/-- What a character at a position becomes before the rest of a name, and the position of the
rest. -/
inductive Becomes (rest : List Char) : Position → Char → List Char → Position → Prop
  | kept {c : Char} (hc : c.isLower = true) : Becomes rest .word c [c] .word
  | dot {p : Position} : Becomes rest p '.' (joint rest) .segmentStart
  | leading : Becomes rest .segmentStart '_' ['X'] .wordStart
  | underscore {p : Position} (hp : p ≠ .segmentStart) : Becomes rest p '_' (joint rest) .wordStart
  | digit {p : Position} {c : Char} (hc : c.isDigit = true) : Becomes rest p c [c] .wordStart
  | start {p : Position} {c : Char} (hlower : p = .word → c.isLower = false) (hdot : c ≠ '.')
      (hunderscore : c ≠ '_') (hdigit : c.isDigit = false) : Becomes rest p c [c.toUpper] .word

/-- Every character becomes something at every position. -/
theorem exists_becomes (rest : List Char) (p : Position) (c : Char) :
    ∃ out q, Becomes rest p c out q := by
  by_cases hkept : p = .word ∧ c.isLower = true
  · obtain ⟨rfl, hc⟩ := hkept
    exact ⟨_, _, .kept hc⟩
  by_cases hdot : c = '.'
  · subst hdot
    exact ⟨_, _, .dot⟩
  by_cases hunderscore : c = '_'
  · subst hunderscore
    by_cases hp : p = .segmentStart
    · subst hp
      exact ⟨_, _, .leading⟩
    · exact ⟨_, _, .underscore hp⟩
  cases hdigit : c.isDigit with
  | true => exact ⟨_, _, .digit hdigit⟩
  | false =>
    exact ⟨_, _, .start (fun hp => Bool.eq_false_iff.2 fun hc => hkept ⟨hp, hc⟩) hdot hunderscore
      hdigit⟩

/-- No digit is a letter. -/
theorem not_isAlpha_of_isDigit {c : Char} (h : c.isDigit = true) : c.isAlpha = false := by
  have hnine : '9'.toNat = 0x39 := rfl
  rw [Bool.eq_false_iff, ne_eq, isAlpha_iff, isUpper_iff, isLower_iff]
  rw [Char.isDigit_iff_toNat] at h
  omega

theorem not_isLower_of_not_isAlpha {c : Char} (h : c.isAlpha = false) : c.isLower = false :=
  (Bool.or_eq_false_iff.1 h).2

/-- A name is exported character by character. -/
theorem Becomes.exportFrom_cons {rest out : List Char} {p q : Position} {c : Char}
    (h : Becomes rest p c out q) : exportFrom p (c :: rest) = out ++ exportFrom q rest := by
  cases h with
  | kept hc => rw [exportFrom, if_pos ⟨rfl, hc⟩, List.singleton_append]
  | dot =>
    rw [exportFrom, if_neg fun h => absurd h.2 (by decide), if_pos rfl, joint]
    split <;> rfl
  | leading => rfl
  | underscore hp =>
    rw [exportFrom, if_neg fun h => absurd h.2 (by decide), if_neg (by decide), if_pos rfl,
      if_neg hp, joint]
    split <;> rfl
  | digit hc =>
    have hlower := not_isLower_of_not_isAlpha (not_isAlpha_of_isDigit hc)
    have hdot : c ≠ '.' := by
      rintro rfl
      cases hc
    have hunderscore : c ≠ '_' := by
      rintro rfl
      cases hc
    rw [exportFrom, if_neg (by simp [hlower]), if_neg hdot, if_neg hunderscore, if_pos hc,
      List.singleton_append]
  | start hlower hdot hunderscore hdigit =>
    rw [exportFrom, if_neg (by simpa using hlower), if_neg hdot, if_neg hunderscore,
      if_neg (by simp [hdigit]), List.singleton_append]

/-! ## Segment by segment -/

theorem startsLower_append_dot (cs rest : List Char) :
    startsLower (cs ++ '.' :: rest) = startsLower cs := by
  cases cs <;> rfl

/-- What a character becomes does not depend on what is behind the next dot. -/
theorem Becomes.append_dot {cs out : List Char} {p q : Position} {c : Char}
    (h : Becomes cs p c out q) (rest : List Char) : Becomes (cs ++ '.' :: rest) p c out q := by
  have hjoint : joint cs = joint (cs ++ '.' :: rest) := by
    rw [joint, joint, startsLower_append_dot]
  cases h with
  | kept hc => exact .kept hc
  | dot => exact hjoint ▸ .dot
  | leading => exact .leading
  | underscore hp => exact hjoint ▸ .underscore hp
  | digit hc => exact .digit hc
  | start hlower hdot hunderscore hdigit => exact .start hlower hdot hunderscore hdigit

theorem exportFrom_append_dot (p : Position) (cs rest : List Char) :
    exportFrom p (cs ++ '.' :: rest) =
      exportFrom p cs ++ (joint rest ++ exportFrom .segmentStart rest) := by
  induction cs generalizing p with
  | nil => exact Becomes.dot.exportFrom_cons
  | cons c cs ih =>
    obtain ⟨out, q, h⟩ := exists_becomes cs p c
    rw [List.cons_append, (h.append_dot rest).exportFrom_cons, ih, h.exportFrom_cons,
      List.append_assoc]

theorem toList_camelCase (name : String) :
    (camelCase name).toList = exportFrom .segmentStart (byteChars name.toList) :=
  String.toList_ofList

theorem toList_camelCase_of_ascii {name : String} (h : ∀ c ∈ name.toList, c.toNat < 128) :
    (camelCase name).toList = exportFrom .segmentStart name.toList := by
  rw [toList_camelCase, byteChars_of_ascii h]

/-- The exported names of two names make up that of the two with a dot between them. -/
theorem camelCase_append_dot (s t : String) : camelCase (s ++ "." ++ t) =
    camelCase s ++ (if startsLower t.toList then "" else "_") ++ camelCase t := by
  have hbytes : byteChars (s ++ "." ++ t).toList =
      byteChars s.toList ++ '.' :: byteChars t.toList := by
    rw [String.toList_append, String.toList_append, byteChars_append, byteChars_append,
      List.append_assoc]
    rfl
  rw [← String.toList_inj, toList_camelCase, hbytes, exportFrom_append_dot, joint,
    startsLower_byteChars, String.toList_append, String.toList_append, toList_camelCase,
    toList_camelCase, List.append_assoc]
  split <;> rfl

/-- Names, exported one by one and put together like the segments of one name. -/
def exportAll : List String → String
  | [] => ""
  | [s] => camelCase s
  | s :: t :: rest =>
    camelCase s ++ (if startsLower t.toList then "" else "_") ++ exportAll (t :: rest)

/-- A dotted name is exported segment by segment. -/
theorem camelCase_intercalate (ss : List String) :
    camelCase (".".intercalate ss) = exportAll ss := by
  induction ss with
  | nil => rfl
  | cons s rest ih =>
    cases rest with
    | nil => rw [String.intercalate_singleton, exportAll]
    | cons t rest =>
      have hstart : startsLower (".".intercalate (t :: rest)).toList = startsLower t.toList := by
        cases rest with
        | nil => rw [String.intercalate_singleton]
        | cons u rest =>
          rw [String.intercalate_cons_cons, String.toList_append, String.toList_append,
            List.append_assoc]
          exact startsLower_append_dot ..
      rw [String.intercalate_cons_cons, camelCase_append_dot, ih, hstart, exportAll]

/-! ## Exported identifiers -/

/-- Whether a text is an identifier of descriptors: ASCII letters, digits and underscores, not
beginning with a digit. -/
def IsSchemaIdentifier (s : String) : Prop :=
  (∃ c ∈ s.toList.head?, c.isAlpha = true ∨ c = '_') ∧
    ∀ c ∈ s.toList, c.isAlphanum = true ∨ c = '_'

theorem IsSchemaIdentifier.ne_empty {s : String} (h : IsSchemaIdentifier s) : s ≠ "" := by
  rintro rfl
  obtain ⟨c, hc, -⟩ := h.1
  cases hc

theorem IsSchemaIdentifier.dot_not_mem {s : String} (h : IsSchemaIdentifier s) :
    '.' ∉ s.toList := by
  intro hdot
  cases h.2 '.' hdot <;> contradiction

/-- Whether all segments of a name are identifiers of descriptors. -/
def IsDottedName (name : String) : Prop :=
  ∀ s ∈ segments name, IsSchemaIdentifier s

instance (s : String) : Decidable (IsSchemaIdentifier s) :=
  decidable_of_iff ((s.toList.head?.any fun c => c.isAlpha || c = '_') = true ∧
      (s.toList.all fun c => c.isAlphanum || c = '_') = true)
    (by simp [IsSchemaIdentifier, Option.any_eq_true])

instance (name : String) : Decidable (IsDottedName name) :=
  List.decidableBAll _ _

/-- Whether a text is an exported identifier in normal form. -/
structure IsExported (name : String) : Prop where
  first : ∃ c ∈ name.toList.head?, c.isUpper = true
  chars : ∀ c ∈ name.toList, c.isAlphanum = true ∨ c = '_'
  /-- Every lower-case letter follows a letter. -/
  words : name.toList.IsChain fun c d => d.isLower = true → c.isAlpha = true

/-- What is neither a separator nor a digit in a dotted name is a letter. -/
theorem isAlpha_of_ne_separator {c : Char} (hc : c.isAlphanum = true ∨ c = '_' ∨ c = '.')
    (hdot : c ≠ '.') (hunderscore : c ≠ '_') (hdigit : c.isDigit = false) : c.isAlpha = true := by
  obtain hc | rfl | rfl := hc
  · rwa [Char.isAlphanum, hdigit, Bool.or_false] at hc
  · exact absurd rfl hunderscore
  · exact absurd rfl hdot

/-- What a character of a dotted name becomes may stand in an identifier. -/
theorem Becomes.of_mem {rest out : List Char} {p q : Position} {c : Char}
    (h : Becomes rest p c out q) (hc : c.isAlphanum = true ∨ c = '_' ∨ c = '.') {d : Char}
    (hd : d ∈ out) : d.isAlphanum = true ∨ d = '_' := by
  have hjoint (h : d ∈ joint rest) : d = '_' := by
    unfold joint at h
    split at h
    · cases h
    · exact List.mem_singleton.1 h
  cases h with
  | kept hlower =>
    obtain rfl := List.mem_singleton.1 hd
    exact .inl (isAlphanum_of_isLower hlower)
  | dot => exact .inr (hjoint hd)
  | leading =>
    obtain rfl := List.mem_singleton.1 hd
    exact .inl rfl
  | underscore _ => exact .inr (hjoint hd)
  | digit hdigit =>
    obtain rfl := List.mem_singleton.1 hd
    exact .inl (by simp [Char.isAlphanum, hdigit])
  | start _ hdot hunderscore hdigit =>
    obtain rfl := List.mem_singleton.1 hd
    have halpha := isAlpha_of_ne_separator hc hdot hunderscore hdigit
    exact .inl (by simp [Char.isAlphanum, isAlpha_toUpper halpha])

theorem mem_exportFrom {p : Position} {cs : List Char}
    (hcs : ∀ c ∈ cs, c.isAlphanum = true ∨ c = '_' ∨ c = '.') {d : Char}
    (hd : d ∈ exportFrom p cs) : d.isAlphanum = true ∨ d = '_' := by
  induction cs generalizing p with
  | nil => cases hd
  | cons c cs ih =>
    obtain ⟨hc, hrest⟩ := List.forall_mem_cons.1 hcs
    obtain ⟨out, q, h⟩ := exists_becomes cs p c
    rw [h.exportFrom_cons, List.mem_append] at hd
    exact hd.elim (h.of_mem hc) (ih hrest)

/-- If what is in front of the exported form of some text is a letter wherever the text goes on with
a word, every lower-case letter follows a letter. -/
theorem isChain_exportFrom {p : Position} {cs : List Char} {c : Char}
    (hcs : ∀ d ∈ cs, d.isAlphanum = true ∨ d = '_' ∨ d = '.') (hc : p = .word → c.isAlpha = true) :
    (c :: exportFrom p cs).IsChain fun c d => d.isLower = true → c.isAlpha = true := by
  induction cs generalizing p c with
  | nil => exact .singleton c
  | cons d cs ih =>
    obtain ⟨hd, hrest⟩ := List.forall_mem_cons.1 hcs
    have hjoint {q : Position} (hq : q ≠ .word) :
        (c :: (joint cs ++ exportFrom q cs)).IsChain fun c d =>
          d.isLower = true → c.isAlpha = true := by
      unfold joint
      split
      · exact ih hrest fun h => absurd h hq
      · exact List.isChain_cons_cons.2
          ⟨fun h => absurd h (by decide), ih hrest fun h => absurd h hq⟩
    obtain ⟨out, q, h⟩ := exists_becomes cs p d
    rw [h.exportFrom_cons]
    cases h with
    | kept hlower =>
      exact List.isChain_cons_cons.2
        ⟨fun _ => hc rfl, ih hrest fun _ => isAlpha_iff.2 (.inr hlower)⟩
    | dot => exact hjoint (by decide)
    | leading =>
      exact List.isChain_cons_cons.2 ⟨fun h => absurd h (by decide), ih hrest (by simp)⟩
    | underscore _ => exact hjoint (by decide)
    | digit hdigit =>
      have hlower := not_isLower_of_not_isAlpha (not_isAlpha_of_isDigit hdigit)
      exact List.isChain_cons_cons.2 ⟨by simp [hlower], ih hrest (by simp)⟩
    | start _ hdot hunderscore hdigit =>
      have halpha := isAlpha_of_ne_separator hd hdot hunderscore hdigit
      have hupper := isAlpha_toUpper halpha
      have hlower := (toUpper_of_isAlpha halpha).2.1
      exact List.isChain_cons_cons.2 ⟨by simp [hlower], ih hrest (by simp [hupper])⟩

/-- A letter or an underscore in front of a name makes its exported form begin with an upper-case
letter. -/
theorem exists_isUpper_head {c : Char} (hc : c.isAlpha = true ∨ c = '_') (cs : List Char) :
    ∃ d ∈ (exportFrom .segmentStart (c :: cs)).head?, d.isUpper = true := by
  obtain ⟨out, q, h⟩ := exists_becomes cs .segmentStart c
  rw [h.exportFrom_cons]
  cases h with
  | dot => cases hc <;> contradiction
  | leading => exact ⟨'X', rfl, rfl⟩
  | underscore hp => exact absurd rfl hp
  | digit hdigit =>
    have halpha := not_isAlpha_of_isDigit hdigit
    obtain hc | rfl := hc
    · simp [halpha] at hc
    · cases hdigit
  | start _ _ hunderscore _ =>
    have halpha := hc.resolve_right hunderscore
    exact ⟨c.toUpper, rfl, (toUpper_of_isAlpha halpha).1⟩

/-- A text that is in normal form already is kept. The position matters for its first character
only. -/
theorem exportFrom_eq_self {p : Position} {cs : List Char}
    (hchars : ∀ c ∈ cs, c.isAlphanum = true ∨ c = '_')
    (hwords : cs.IsChain fun c d => d.isLower = true → c.isAlpha = true)
    (hfirst : ∀ c ∈ cs.head?, (p = .segmentStart → c ≠ '_') ∧ (p ≠ .word → c.isLower = false)) :
    exportFrom p cs = cs := by
  induction cs generalizing p with
  | nil => rfl
  | cons c cs ih =>
    obtain ⟨hc, hchars⟩ := List.forall_mem_cons.1 hchars
    obtain ⟨hnext, hwords⟩ := List.isChain_cons.1 hwords
    obtain ⟨hstart, hlow⟩ := hfirst c rfl
    -- behind anything but a letter there is no lower-case letter
    have hword : exportFrom .word cs = cs :=
      ih hchars hwords fun d _ => ⟨nofun, fun h => absurd rfl h⟩
    have hwordStart (halpha : c.isAlpha = false) : exportFrom .wordStart cs = cs := by
      refine ih hchars hwords fun d hd => ⟨nofun, fun _ => Bool.eq_false_iff.2 fun hd' => ?_⟩
      simp [hnext d hd hd'] at halpha
    obtain ⟨out, q, h⟩ := exists_becomes cs p c
    rw [h.exportFrom_cons]
    cases h with
    | kept _ => rw [hword, List.singleton_append]
    | dot => cases hc <;> contradiction
    | leading => exact absurd rfl (hstart rfl)
    | underscore _ =>
      have hjoint : joint cs = ['_'] := by
        refine if_neg fun hlower => ?_
        cases cs with
        | nil => cases hlower
        | cons d cs => exact absurd (hnext d rfl hlower) (by decide)
      rw [hwordStart rfl, hjoint, List.singleton_append]
    | digit hdigit => rw [hwordStart (not_isAlpha_of_isDigit hdigit), List.singleton_append]
    | start hlower _ _ _ =>
      have hlower : c.isLower = false := by
        by_cases hp : p = .word
        · exact hlower hp
        · exact hlow hp
      rw [hword, toUpper_eq_self hlower, List.singleton_append]

variable {name : String}

theorem IsDottedName.of_mem (h : IsDottedName name) {c : Char} (hc : c ∈ name.toList) :
    c.isAlphanum = true ∨ c = '_' ∨ c = '.' := by
  rw [← intercalate_segments name] at hc
  obtain rfl | ⟨s, hs, hc⟩ := mem_intercalate hc
  · exact .inr (.inr rfl)
  · exact ((h s hs).2 c hc).imp_right .inl

theorem IsDottedName.exists_cons (h : IsDottedName name) :
    ∃ c cs, name.toList = c :: cs ∧ (c.isAlpha = true ∨ c = '_') := by
  obtain ⟨s, rest, hsegments⟩ := List.exists_cons_of_ne_nil (segments_ne_nil name)
  obtain ⟨⟨c, hc, hfirst⟩, -⟩ := h s (hsegments ▸ List.mem_cons_self)
  obtain ⟨cs, hs⟩ := List.head?_eq_some_iff.1 hc
  rw [← intercalate_segments name, hsegments]
  cases rest with
  | nil => exact ⟨c, cs, by rw [String.intercalate_singleton, hs], hfirst⟩
  | cons t rest =>
    refine ⟨c, cs ++ (".".toList ++ (".".intercalate (t :: rest)).toList), ?_, hfirst⟩
    rw [String.intercalate_cons_cons, String.toList_append, String.toList_append, hs,
      List.append_assoc, List.cons_append]

/-- The exported form of a dotted name of identifiers is an exported identifier. -/
theorem IsDottedName.isExported (h : IsDottedName name) : IsExported (camelCase name) := by
  have hascii : ∀ c ∈ name.toList, c.toNat < 128 := by
    intro c hc
    obtain hc | rfl | rfl := h.of_mem hc
    · exact lt_of_isAlphanum hc
    · decide
    · decide
  obtain ⟨c, cs, hname, hc⟩ := h.exists_cons
  have htext : (camelCase name).toList = exportFrom .segmentStart (c :: cs) := by
    rw [toList_camelCase_of_ascii hascii, hname]
  refine ⟨htext ▸ exists_isUpper_head hc cs, htext ▸ fun d hd => ?_, htext ▸ ?_⟩
  · exact mem_exportFrom (fun d hd => h.of_mem (hname ▸ hd)) hd
  · have hchain := isChain_exportFrom (p := .segmentStart) (c := 'X')
      (fun d hd => h.of_mem (hname ▸ hd)) (by simp)
    exact (List.isChain_cons.1 hchain).2

/-- Exporting a name in normal form changes nothing. -/
theorem IsExported.camelCase_eq (h : IsExported name) : camelCase name = name := by
  have hascii : ∀ c ∈ name.toList, c.toNat < 128 := by
    intro c hc
    obtain hc | rfl := h.chars c hc
    · exact lt_of_isAlphanum hc
    · decide
  have hkept : exportFrom .segmentStart name.toList = name.toList := by
    refine exportFrom_eq_self h.chars h.words fun c hc => ⟨fun _ => ?_, fun _ => ?_⟩
    · obtain ⟨d, hd, hupper⟩ := h.first
      obtain rfl := Option.mem_unique hc hd
      rintro rfl
      cases hupper
    · obtain ⟨d, hd, hupper⟩ := h.first
      obtain rfl := Option.mem_unique hc hd
      rw [isUpper_iff] at hupper
      rw [Bool.eq_false_iff, ne_eq, isLower_iff]
      omega
  rw [← String.toList_inj, toList_camelCase_of_ascii hascii, hkept]

theorem isLetter_of_isAlpha {c : Char} (h : c.isAlpha = true) : isLetter c = true := by
  have hbounds : (0x41 ≤ c.toNat ∧ c.toNat ≤ 0x5A) ∨ (0x61 ≤ c.toNat ∧ c.toNat ≤ 0x7A) := by
    rwa [isAlpha_iff, isUpper_iff, isLower_iff] at h
  obtain hbounds | hbounds := hbounds
  · exact List.any_eq_true.2 ⟨(0x41, 0x5A), List.mem_cons_self, by simpa using hbounds⟩
  · exact List.any_eq_true.2
      ⟨(0x61, 0x7A), List.mem_cons_of_mem _ List.mem_cons_self, by simpa using hbounds⟩

theorem not_isNumeral_of_isUpper {c : Char} (h : c.isUpper = true) : isNumeral c = false := by
  have htable : areApart [(0x41, 0x5A)] numeralRanges = true := by decide +kernel
  exact not_inRanges_of_areApart htable (by simpa [inRanges] using isUpper_iff.1 h)

theorem IsExported.isIdentifier (h : IsExported name) : IsIdentifier name := by
  obtain ⟨c, hc, hupper⟩ := h.first
  refine ⟨fun hempty => by simp [hempty] at hc, fun d hd => ?_, fun d hd => ?_⟩
  · obtain rfl := Option.mem_unique hc hd
    exact not_isNumeral_of_isUpper hupper
  · obtain hd | rfl := h.chars d hd
    · rw [Char.isAlphanum, Bool.or_eq_true] at hd
      rw [isIdentifierChar, Bool.or_eq_true, Bool.or_eq_true]
      exact .inl (hd.imp isLetter_of_isAlpha isNumeral_of_isDigit)
    · decide +kernel

/-- No keyword begins with an upper-case letter. -/
theorem IsExported.not_mem_keywords (h : IsExported name) : name ∉ keywords := by
  have hall : keywords.all (fun k => !k.toList.head?.any Char.isUpper) = true := by decide
  obtain ⟨c, hc, hupper⟩ := h.first
  intro hmem
  have hfirst := List.all_eq_true.1 hall _ hmem
  simp [Option.mem_def.1 hc, hupper] at hfirst

/-- The exported form of a dotted name of identifiers is an identifier, no keyword, and in normal
form; exporting it again changes nothing. -/
theorem isExported_camelCase (h : IsDottedName name) :
    IsExported (camelCase name) ∧ IsIdentifier (camelCase name) ∧ camelCase name ∉ keywords ∧
      camelCase (camelCase name) = camelCase name :=
  ⟨h.isExported, h.isExported.isIdentifier, h.isExported.not_mem_keywords,
    h.isExported.camelCase_eq⟩

/-- A name with underscores at both kinds of places. -/
theorem isExported_camelCase_getThing :
    IsDottedName "get_v2.thing._x" ∧ camelCase "get_v2.thing._x" = "GetV2Thing_XX" ∧
      IsExported "GetV2Thing_XX" ∧ camelCase "GetV2Thing_XX" = "GetV2Thing_XX" := by
  have hname : IsDottedName "get_v2.thing._x" := by decide +kernel
  have hexported : camelCase "get_v2.thing._x" = "GetV2Thing_XX" := by decide
  obtain ⟨hnormal, -, -, hself⟩ := isExported_camelCase hname
  rw [hexported] at hnormal hself
  exact ⟨hname, hexported, hnormal, hself⟩

/-! ## Letters and digits -/

/-- A text without separators, in which upper-case letters count as lower-case ones. -/
def looseText (cs : List Char) : List Char :=
  (cs.filter fun c => c ≠ '_' && c ≠ '.').map Char.toLower

theorem looseText_append (cs ds : List Char) :
    looseText (cs ++ ds) = looseText cs ++ looseText ds := by
  rw [looseText, List.filter_append, List.map_append, looseText, looseText]

theorem looseText_joint (rest : List Char) : looseText (joint rest) = [] := by
  unfold joint
  split <;> rfl

theorem looseText_of_isAlpha {c : Char} (h : c.isAlpha = true) : looseText [c] = [c.toLower] := by
  have hunderscore : c ≠ '_' := by
    rintro rfl
    cases h
  have hdot : c ≠ '.' := by
    rintro rfl
    cases h
  simp [looseText, hunderscore, hdot]

theorem looseText_toUpper (c : Char) : looseText [c.toUpper] = looseText [c] := by
  cases halpha : c.isAlpha with
  | true =>
    rw [looseText_of_isAlpha halpha, looseText_of_isAlpha (isAlpha_toUpper halpha),
      (toUpper_of_isAlpha halpha).2.2]
  | false => rw [toUpper_eq_self (not_isLower_of_not_isAlpha halpha)]

/-- A character becomes itself but for its case, or is a separator and becomes one or nothing. -/
theorem Becomes.looseText_eq {rest out : List Char} {p q : Position} {c : Char}
    (h : Becomes rest p c out q) (hfirst : p = .segmentStart → c ≠ '_') :
    looseText out = looseText [c] := by
  cases h with
  | kept _ => rfl
  | dot => exact looseText_joint rest
  | leading => exact absurd rfl (hfirst rfl)
  | underscore _ => exact looseText_joint rest
  | digit _ => rfl
  | start _ _ _ _ => exact looseText_toUpper c

theorem Becomes.ne_segmentStart {rest out : List Char} {p q : Position} {c : Char}
    (h : Becomes rest p c out q) (hdot : c ≠ '.') : q ≠ .segmentStart := by
  cases h with
  | dot => exact absurd rfl hdot
  | kept _ | leading | underscore _ | digit _ | start _ _ _ _ => decide

/-- A segment keeps its letters and digits, unless it begins with an underscore. -/
theorem looseText_exportFrom {p : Position} {cs : List Char} (hdot : '.' ∉ cs)
    (hfirst : p = .segmentStart → cs.head? ≠ some '_') :
    looseText (exportFrom p cs) = looseText cs := by
  induction cs generalizing p with
  | nil => rfl
  | cons c cs ih =>
    rw [List.mem_cons, not_or] at hdot
    obtain ⟨out, q, h⟩ := exists_becomes cs p c
    have hq := h.ne_segmentStart (Ne.symm hdot.1)
    have hc : p = .segmentStart → c ≠ '_' := fun hp hc => hfirst hp (by rw [hc]; rfl)
    rw [h.exportFrom_cons, looseText_append, h.looseText_eq hc, ih hdot.2 fun hp => absurd hp hq,
      ← looseText_append, List.singleton_append]

/-- Whether a name is ASCII and no segment of it begins with an underscore, which would become
an `X`. -/
@[mk_iff]
structure IsUnescaped (name : String) : Prop where
  ascii : ∀ c ∈ name.toList, c.toNat < 128
  starts : ∀ s ∈ segments name, s.toList.head? ≠ some '_'

instance (name : String) : Decidable (IsUnescaped name) :=
  decidable_of_iff ((name.toList.all fun c => c.toNat < 128) = true ∧
      ((segments name).all fun s => s.toList.head? ≠ some '_') = true)
    (by simp [isUnescaped_iff])

theorem IsUnescaped.looseText_segment (h : IsUnescaped name) {s : String} (hs : s ∈ segments name) :
    looseText (camelCase s).toList = looseText s.toList := by
  have hascii : ∀ c ∈ s.toList, c.toNat < 128 := by
    refine fun c hc => h.ascii c ?_
    rw [← intercalate_segments name]
    exact mem_intercalate_of_mem hs hc
  rw [toList_camelCase_of_ascii hascii,
    looseText_exportFrom (dot_not_mem_of_mem_segments hs) fun _ => h.starts s hs]

theorem looseText_exportAll {ss : List String}
    (h : ∀ s ∈ ss, looseText (camelCase s).toList = looseText s.toList) :
    looseText (exportAll ss).toList = looseText (".".intercalate ss).toList := by
  induction ss with
  | nil => rfl
  | cons s rest ih =>
    obtain ⟨hs, hrest⟩ := List.forall_mem_cons.1 h
    cases rest with
    | nil => rw [exportAll, String.intercalate_singleton, hs]
    | cons t rest =>
      have hjoint : looseText (if startsLower t.toList then "" else "_").toList = [] := by
        split <;> rfl
      have hdot : looseText ".".toList = [] := rfl
      rw [exportAll, String.intercalate_cons_cons]
      simp only [String.toList_append, looseText_append]
      rw [hs, ih hrest, hjoint, hdot]

theorem IsUnescaped.looseText_eq (h : IsUnescaped name) :
    looseText (camelCase name).toList = looseText name.toList := by
  have hall := looseText_exportAll fun s hs => h.looseText_segment hs
  rwa [← camelCase_intercalate, intercalate_segments] at hall

/-- Exporting a name loses, adds and moves no letter and no digit. So two names with the same
exported form differ in underscores, dots and case only. -/
theorem looseText_camelCase {other : String} (h : IsUnescaped name) (hother : IsUnescaped other) :
    looseText (camelCase name).toList = looseText name.toList ∧
      (camelCase name = camelCase other → looseText name.toList = looseText other.toList) := by
  refine ⟨h.looseText_eq, fun heq => ?_⟩
  rw [← h.looseText_eq, heq, hother.looseText_eq]

/-- Two names that come out the same. -/
theorem looseText_camelCase_fooBar :
    IsUnescaped "foo_bar.baz2" ∧ IsUnescaped "fooBar_baz2" ∧
      looseText "FooBarBaz2".toList = looseText "foo_bar.baz2".toList ∧
      camelCase "foo_bar.baz2" = camelCase "fooBar_baz2" ∧
      looseText "foo_bar.baz2".toList = looseText "fooBar_baz2".toList := by
  have hfirst : IsUnescaped "foo_bar.baz2" := by decide +kernel
  have hsecond : IsUnescaped "fooBar_baz2" := by decide +kernel
  have hexported : camelCase "foo_bar.baz2" = "FooBarBaz2" := by decide
  have hsame : camelCase "foo_bar.baz2" = camelCase "fooBar_baz2" := by decide
  obtain ⟨hkept, hloose⟩ := looseText_camelCase hfirst hsecond
  rw [hexported] at hkept
  exact ⟨hfirst, hsecond, hkept, hsame, hloose hsame⟩

end TemporalBindings.Source
