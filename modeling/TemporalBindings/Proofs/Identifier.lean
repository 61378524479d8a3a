import TemporalBindings.Source.Name
import TemporalBindings.Text.Blank
import TemporalBindings.Text.LowerCase

/-!
# TemporalBindings.Proofs.Identifier

Identifiers of the generated language, and what their characters are not. There are two
classes around them:

```
name characters   none is blank, and the only one in ASCII that is neither a letter nor a
                  digit is the underscore
plain characters  none is blank, and none is a bracket, a quote or a slash
```

A name ends where another character follows. A word of plain characters can stand anywhere
in a line without changing where the line begins, where it ends or what block it opens.

Letters and numerals are taken from the tables of `Text.Letter`. They have every
letter and every digit that the language admits in an identifier, so each identifier
of the language is an `Identifier`.
-/

namespace TemporalBindings.Text

/-! ## Plain characters -/

/-- Code points with a meaning in a line of code: the three quotes, slash, brackets and
blanks. -/
def delimiterRanges : List (Nat × Nat) :=
  [(0x22, 0x22), (0x27, 0x29), (0x2F, 0x2F), (0x60, 0x60), (0x7B, 0x7B), (0x7D, 0x7D)] ++
    blankRanges

/-- Whether a character is none of the delimiters. -/
def isPlain (c : Char) : Bool :=
  !inRanges c.toNat delimiterRanges

/-- Whether two lists of ranges have nothing in common. -/
def areApart (ranges others : List (Nat × Nat)) : Bool :=
  ranges.all fun (lo, hi) => others.all fun (a, b) => hi < a || b < lo

theorem not_inRanges_of_areApart {ranges others : List (Nat × Nat)} {n : Nat}
    (h : areApart ranges others = true) (hn : inRanges n ranges = true) :
    inRanges n others = false := by
  obtain ⟨⟨lo, hi⟩, hmem, hin⟩ := List.any_eq_true.1 hn
  have hall := List.all_eq_true.1 (List.all_eq_true.1 h _ hmem)
  refine List.any_eq_false.2 fun ⟨a, b⟩ hab => ?_
  have hdisjoint := hall _ hab
  simp only [Bool.and_eq_true, Bool.or_eq_true, decide_eq_true_eq] at hin hdisjoint ⊢
  omega

/-- A plain character is not blank. -/
theorem isBlank_of_isPlain {c : Char} (h : isPlain c = true) : isBlank c = false := by
  have hd : inRanges c.toNat delimiterRanges = false := by simpa [isPlain] using h
  rw [inRanges, delimiterRanges, List.any_append, Bool.or_eq_false_iff] at hd
  exact hd.2

/-- A character of a class is none that is not in it. -/
theorem ne_of_class {p : Char → Bool} {c d : Char} (h : p c = true) (hd : p d = false) : c ≠ d := by
  rintro rfl
  simp [h] at hd

/-! ## Characters of names -/

/-- Code points that end a name: the ASCII characters that are no letter, no digit and no
underscore, and the delimiters. -/
def separatorRanges : List (Nat × Nat) :=
  [(0x0, 0x2F), (0x3A, 0x40), (0x5B, 0x5E), (0x60, 0x60), (0x7B, 0x7F)] ++ delimiterRanges

/-- Whether a character can be part of a name. -/
def isNameChar (c : Char) : Bool :=
  !inRanges c.toNat separatorRanges

theorem isPlain_of_isNameChar {c : Char} (h : isNameChar c = true) : isPlain c = true := by
  have hd : inRanges c.toNat separatorRanges = false := by simpa [isNameChar] using h
  rw [inRanges, separatorRanges, List.any_append, Bool.or_eq_false_iff] at hd
  have hdelimiter : inRanges c.toNat delimiterRanges = false := hd.2
  simp [isPlain, hdelimiter]

theorem isNameChar_of_isLetter {c : Char} (h : isLetter c = true) : isNameChar c = true := by
  have htable : areApart letterRanges separatorRanges = true := by decide +kernel
  simp [isNameChar, not_inRanges_of_areApart htable h]

theorem isNameChar_of_isNumeral {c : Char} (h : isNumeral c = true) : isNameChar c = true := by
  have htable : areApart numeralRanges separatorRanges = true := by decide +kernel
  simp [isNameChar, not_inRanges_of_areApart htable h]

/-- Core's decimal digits are numerals. -/
theorem isNumeral_of_isDigit {c : Char} (h : c.isDigit = true) : isNumeral c = true := by
  have hfirst : (48, 57) ∈ numeralRanges := by decide +kernel
  simp only [Char.isDigit, Bool.and_eq_true, decide_eq_true_eq] at h
  refine List.any_eq_true.2 ⟨_, hfirst, ?_⟩
  simp only [Bool.and_eq_true, decide_eq_true_eq]
  exact ⟨UInt32.le_iff_toNat_le.1 h.1, UInt32.le_iff_toNat_le.1 h.2⟩

/-! ## Lower case -/

/-- The lower-case forms in a run of characters. -/
def CaseRun.image (run : CaseRun) : Nat × Nat :=
  (run.lower, run.lower + (run.last - run.first))

/-- The code points of the lower-case forms are those of characters. -/
theorem isValidChar_of_image {n : Nat} (h : inRanges n (caseRuns.map CaseRun.image) = true) :
    n.isValidChar := by
  have htable : areApart (caseRuns.map CaseRun.image) [(0xD800, 0xDFFF)] = true ∧
      (caseRuns.map CaseRun.image).all (fun (_, hi) => hi < 0x110000) = true := by decide +kernel
  obtain ⟨⟨lo, hi⟩, hmem, hin⟩ := List.any_eq_true.1 h
  have hbound := List.all_eq_true.1 htable.2 _ hmem
  have hsurrogate := not_inRanges_of_areApart htable.1 h
  simp only [inRanges, List.any_cons, List.any_nil, Bool.or_false, Bool.and_eq_true,
    Bool.and_eq_false_iff, decide_eq_true_eq, decide_eq_false_iff_not] at hin hbound hsurrogate
  rw [Nat.isValidChar]
  omega

/-- The lower-case form of a character of a name is one too. -/
theorem isNameChar_of_mem_lowerCase {c d : Char} (hc : isNameChar c = true)
    (hd : d ∈ lowerCase c) : isNameChar d = true := by
  have htable : areApart (caseRuns.map CaseRun.image) separatorRanges = true := by decide +kernel
  unfold lowerCase at hd
  split at hd
  · obtain rfl | hd := List.mem_cons.1 hd
    · decide
    · rw [List.mem_singleton.1 hd]
      decide
  · split at hd
    · next run hrun =>
      rw [List.mem_singleton.1 hd]
      have hhas := List.find?_some hrun
      simp only [CaseRun.has, Bool.and_eq_true, decide_eq_true_eq] at hhas
      have himage : inRanges (run.lower + (c.toNat - run.first))
          (caseRuns.map CaseRun.image) = true := by
        refine List.any_eq_true.2
          ⟨run.image, List.mem_map_of_mem (List.mem_of_find?_eq_some hrun), ?_⟩
        simp [CaseRun.image]
        omega
      have htoNat : (Char.ofNat (run.lower + (c.toNat - run.first))).toNat =
          run.lower + (c.toNat - run.first) := by
        rw [Char.ofNat, dif_pos (isValidChar_of_image himage)]
        rfl
      simp [isNameChar, htoNat, not_inRanges_of_areApart htable himage]
    · rw [List.mem_singleton.1 hd]
      exact hc

end TemporalBindings.Text

namespace TemporalBindings.Source

open Text

/-! ## Words and identifiers -/

/-- A text that is not empty and has only plain characters. -/
def IsWord (s : String) : Prop :=
  s ≠ "" ∧ ∀ c ∈ s.toList, isPlain c = true

instance (s : String) : Decidable (IsWord s) :=
  decidable_of_iff (s ≠ "" ∧ s.toList.all isPlain = true) (by simp [IsWord])

/-- Whether a character may stand in an identifier. -/
def isIdentifierChar (c : Char) : Bool :=
  isLetter c || isNumeral c || c = '_'

/-- An identifier: letters, numerals and underscores, not beginning with a numeral. -/
def IsIdentifier (s : String) : Prop :=
  s ≠ "" ∧ (∀ c ∈ s.toList.head?, isNumeral c = false) ∧
    ∀ c ∈ s.toList, isIdentifierChar c = true

instance (s : String) : Decidable (IsIdentifier s) :=
  decidable_of_iff
    (s ≠ "" ∧ s.toList.head?.all (!isNumeral ·) = true ∧ s.toList.all isIdentifierChar = true)
    (by simp [IsIdentifier, Option.all_eq_true])

theorem isWord_ofList {cs : List Char} (hne : cs ≠ []) (h : cs.all isPlain = true) :
    IsWord (String.ofList cs) := by
  rw [IsWord, String.toList_ofList, ne_eq, String.ofList_eq_empty_iff]
  exact ⟨hne, List.all_eq_true.1 h⟩

/-- A text that is not empty and has only characters of names. -/
def IsName (s : String) : Prop :=
  s ≠ "" ∧ ∀ c ∈ s.toList, isNameChar c = true

instance (s : String) : Decidable (IsName s) :=
  decidable_of_iff (s ≠ "" ∧ s.toList.all isNameChar = true) (by simp [IsName])

theorem isName_ofList {cs : List Char} (hne : cs ≠ []) (h : cs.all isNameChar = true) :
    IsName (String.ofList cs) := by
  rw [IsName, String.toList_ofList, ne_eq, String.ofList_eq_empty_iff]
  exact ⟨hne, List.all_eq_true.1 h⟩

theorem IsIdentifier.isName {s : String} (h : IsIdentifier s) : IsName s := by
  refine ⟨h.1, fun c hc => ?_⟩
  have hidentifier := h.2.2 c hc
  simp only [isIdentifierChar, Bool.or_eq_true, decide_eq_true_eq] at hidentifier
  obtain (hletter | hnumeral) | rfl := hidentifier
  · exact isNameChar_of_isLetter hletter
  · exact isNameChar_of_isNumeral hnumeral
  · decide

theorem IsName.isWord {s : String} (h : IsName s) : IsWord s :=
  ⟨h.1, fun c hc => isPlain_of_isNameChar (h.2 c hc)⟩

theorem IsIdentifier.isWord {s : String} (h : IsIdentifier s) : IsWord s :=
  h.isName.isWord

theorem IsWord.append {s t : String} (hs : IsWord s) (ht : ∀ c ∈ t.toList, isPlain c = true) :
    IsWord (s ++ t) := by
  refine ⟨fun h => hs.1 (String.append_eq_empty_iff.1 h).1, fun c hc => ?_⟩
  rw [String.toList_append, List.mem_append] at hc
  exact hc.elim (hs.2 c) (ht c)

theorem IsName.append {s t : String} (hs : IsName s) (ht : ∀ c ∈ t.toList, isNameChar c = true) :
    IsName (s ++ t) := by
  refine ⟨fun h => hs.1 (String.append_eq_empty_iff.1 h).1, fun c hc => ?_⟩
  rw [String.toList_append, List.mem_append] at hc
  exact hc.elim (hs.2 c) (ht c)

/-- Digits can be put behind an identifier. -/
theorem IsIdentifier.append_digits {s : String} (h : IsIdentifier s) {ds : List Char}
    (hds : ∀ d ∈ ds, d.isDigit = true) : IsIdentifier (s ++ String.ofList ds) := by
  obtain ⟨hne, hfirst, hall⟩ := h
  refine ⟨fun hempty => hne (String.append_eq_empty_iff.1 hempty).1, ?_, fun c hc => ?_⟩
  · cases hs : s.toList with
    | nil => exact absurd (String.toList_eq_nil_iff.1 hs) hne
    | cons c cs => simpa [hs] using hfirst
  · rw [String.toList_append, String.toList_ofList, List.mem_append] at hc
    obtain hc | hc := hc
    · exact hall c hc
    · simp [isIdentifierChar, isNumeral_of_isDigit (hds c hc)]

/-- A name with its first character in lower case is a name. -/
theorem IsName.lowerFirst {s : String} (h : IsName s) :
    IsName (String.ofList (lowerFirst s.toList)) := by
  obtain ⟨hne, hname⟩ := h
  cases hs : s.toList with
  | nil => exact absurd (String.toList_eq_nil_iff.1 hs) hne
  | cons c cs =>
    rw [hs] at hname
    refine ⟨fun hempty => ?_, fun d hd => ?_⟩
    · rw [String.ofList_eq_empty_iff, Text.lowerFirst, List.append_eq_nil_iff] at hempty
      have := hempty.1
      unfold lowerCase at this
      split at this
      · simp at this
      · split at this <;> simp at this
    · rw [String.toList_ofList, Text.lowerFirst, List.mem_append] at hd
      obtain hd | hd := hd
      · exact isNameChar_of_mem_lowerCase (hname c List.mem_cons_self) hd
      · exact hname d (List.mem_cons_of_mem c hd)

end TemporalBindings.Source
