import TemporalBindings.Proofs.Categories
import TemporalBindings.Proofs.PackageClause

/-!
# TemporalBindings.Proofs.PackageNames

What the packages that are resolved are called. The generated language takes a package name
that is an identifier but not the blank one, and its identifiers are made of letters, decimal
digits and underscores. Names come close to that:

* no name is empty or a keyword, and none begins with a digit;
* a name made from an empty text is the blank identifier;
* other numbers and marks are kept, although no identifier may have them.

So a name can be used iff it is made from a text that is not empty and has neither of these.
-/

namespace TemporalBindings.Bindings

open Plugin Schema Source Text

/-! ## Package names -/

/-- Whether a text can be used as the name of a package. -/
structure IsPackageName (name : List Char) : Prop where
  nonempty : name ≠ []
  chars : ∀ c ∈ name, isCategoryL c = true ∨ isCategoryNd c = true ∨ c = '_'
  first : ∀ c ∈ name.head?, isCategoryNd c = false
  notKeyword : String.ofList name ∉ keywords
  notBlank : name ≠ ['_']

/-- Whether the letters and numerals of a text may stand in an identifier. -/
def HasOnlyLettersAndDigits (s : List Char) : Prop :=
  ∀ c ∈ s, isLetter c = true ∨ isNumeral c = true → isCategoryL c = true ∨ isCategoryNd c = true

/-- A text with underscores for what is neither letter nor numeral. -/
def underscored (s : List Char) : List Char :=
  s.map fun c => if isLetter c || isNumeral c then c else '_'

theorem underscored_eq_nil {s : List Char} : underscored s = [] ↔ s = [] :=
  List.map_eq_nil_iff

theorem sanitize_eq (s : List Char) : sanitize s =
    if String.ofList (underscored s) ∈ keywords ∨ !startsWithLetter (underscored s) then
      '_' :: underscored s
    else underscored s :=
  rfl

/-- A sanitized text is the underscored one, if that is no keyword and begins with a letter,
or has one more underscore in front. -/
theorem sanitize_cases (s : List Char) :
    (sanitize s = underscored s ∧ String.ofList (underscored s) ∉ keywords ∧
        ∃ c ∈ (underscored s).head?, isLetter c = true) ∨
      sanitize s = '_' :: underscored s := by
  rw [sanitize_eq]
  split
  · exact .inr rfl
  · next h =>
    obtain ⟨hkeyword, hletter⟩ := not_or.1 h
    refine .inl ⟨rfl, hkeyword, ?_⟩
    cases hs : underscored s with
    | nil => simp [hs, startsWithLetter] at hletter
    | cons c cs => exact ⟨c, rfl, by simpa [hs, startsWithLetter] using hletter⟩

/-- No keyword begins with an underscore. -/
theorem underscore_cons_not_mem_keywords (s : List Char) : String.ofList ('_' :: s) ∉ keywords := by
  have hall : keywords.all (fun k => k.toList.head? != some '_') = true := by decide
  intro hmem
  have hfirst := List.all_eq_true.1 hall _ hmem
  simp at hfirst

theorem not_isCategoryNd_underscore : isCategoryNd '_' = false := by
  decide +kernel

/-- Whatever text a name is made from, it is not empty, does not begin with a digit and is no
keyword. -/
theorem sanitize_wellFormed (s : List Char) : sanitize s ≠ [] ∧
    (∀ c ∈ (sanitize s).head?, isCategoryNd c = false) ∧ String.ofList (sanitize s) ∉ keywords := by
  obtain ⟨heq, hkeyword, c, hc, hletter⟩ | heq := sanitize_cases s
  · rw [heq]
    refine ⟨fun hnil => by simp [hnil] at hc, fun d hd => ?_, hkeyword⟩
    obtain rfl := Option.mem_unique hc hd
    exact isCategoryNd_of_isLetter hletter
  · rw [heq]
    refine ⟨List.cons_ne_nil _ _, fun d hd => ?_, underscore_cons_not_mem_keywords _⟩
    obtain rfl : '_' = d := by simpa using hd
    exact not_isCategoryNd_underscore

/-- Only the empty text gives the blank identifier. -/
theorem sanitize_eq_blank_iff {s : List Char} : sanitize s = ['_'] ↔ s = [] := by
  refine ⟨fun h => ?_, fun h => by rw [h]; decide⟩
  obtain ⟨heq, -, c, hc, hletter⟩ | heq := sanitize_cases s
  · rw [← heq, h] at hc
    obtain rfl : '_' = c := by simpa using hc
    exact absurd hletter (by decide +kernel)
  · rw [heq] at h
    exact underscored_eq_nil.1 (List.cons.inj h).2

/-- The characters of a name are those of the text as far as they are letters and numerals,
and underscores. -/
theorem mem_sanitize {s : List Char} {c : Char} (h : c ∈ sanitize s) :
    (c ∈ s ∧ (isLetter c = true ∨ isNumeral c = true)) ∨ c = '_' := by
  have hmem : c ∈ underscored s ∨ c = '_' := by
    obtain ⟨heq, -⟩ | heq := sanitize_cases s
    · exact .inl (heq ▸ h)
    · rw [heq, List.mem_cons] at h
      exact h.symm
  refine hmem.elim (fun hunder => ?_) .inr
  obtain ⟨d, hd, rfl⟩ := List.mem_map.1 hunder
  by_cases hkept : (isLetter d || isNumeral d) = true
  · rw [if_pos hkept]
    exact .inl ⟨hd, Bool.or_eq_true_iff.1 hkept⟩
  · exact .inr (if_neg hkept)

theorem mem_sanitize_of_mem {s : List Char} {c : Char} (hc : c ∈ s)
    (hkept : isLetter c = true ∨ isNumeral c = true) : c ∈ sanitize s := by
  have hunder : c ∈ underscored s :=
    List.mem_map.2 ⟨c, hc, if_pos (Bool.or_eq_true_iff.2 hkept)⟩
  obtain ⟨heq, -⟩ | heq := sanitize_cases s
  · exact heq ▸ hunder
  · exact heq ▸ List.mem_cons_of_mem _ hunder

/-- A name can be used iff the text is not empty and its letters and numerals are such of an
identifier. -/
theorem isPackageName_sanitize_iff {s : List Char} :
    IsPackageName (sanitize s) ↔ s ≠ [] ∧ HasOnlyLettersAndDigits s := by
  obtain ⟨hnonempty, hfirst, hkeyword⟩ := sanitize_wellFormed s
  constructor
  · intro h
    refine ⟨fun hnil => h.notBlank (sanitize_eq_blank_iff.2 hnil), fun c hc hkept => ?_⟩
    obtain hl | hd | rfl := h.chars c (mem_sanitize_of_mem hc hkept)
    · exact .inl hl
    · exact .inr hd
    · exact absurd hkept (by decide +kernel)
  · rintro ⟨hne, hchars⟩
    refine ⟨hnonempty, fun c hc => ?_, hfirst, hkeyword, mt sanitize_eq_blank_iff.1 hne⟩
    obtain ⟨hmem, hkept⟩ | rfl := mem_sanitize hc
    · exact (hchars c hmem hkept).imp_right .inl
    · exact .inr (.inr rfl)

/-- ASCII has no other letters and numerals than those of identifiers. -/
theorem hasOnlyLettersAndDigits_of_ascii {s : List Char} (h : ∀ c ∈ s, c.toNat < 128) :
    HasOnlyLettersAndDigits s :=
  fun c hc hkept => hkept.imp (isCategoryL_of_isLetter (h c hc)) (isCategoryNd_of_isNumeral (h c hc))

/-- A usable name that begins with a letter is kept as it is. -/
theorem sanitize_eq_self {s : List Char} (h : IsPackageName s)
    (hfirst : ∃ c ∈ s.head?, isCategoryL c = true) : sanitize s = s := by
  have hunder : underscored s = s := by
    refine (List.map_congr_left fun c hc => ?_).trans (List.map_id s)
    obtain hl | hd | rfl := h.chars c hc
    · rw [isLetter_of_isCategoryL hl]
      rfl
    · rw [isNumeral_of_isCategoryNd hd, Bool.or_true]
      rfl
    · decide +kernel
  have hletter : startsWithLetter s = true := by
    obtain ⟨c, hc, hl⟩ := hfirst
    cases s with
    | nil => cases hc
    | cons d ds =>
      obtain rfl := Option.some.inj hc
      exact isLetter_of_isCategoryL hl
  rw [sanitize_eq, hunder, hletter, if_neg]
  simp [h.notKeyword]

/-! ## Packages of files -/

/-- Whether a text is the last element of a path. -/
def IsLastElement (path part : List Char) : Prop :=
  '/' ∉ part ∧ (part = path ∨ ∃ front, path = front ++ '/' :: part)

/-- What a text says of a package: its import path, and the text that its name is made from,
which is the one behind the first semicolon, or else the last element of the path. -/
inductive IsPackageText : List Char → List Char → List Char → Prop
  | bare {path part : List Char} (hpath : ';' ∉ path) (hlast : IsLastElement path part) :
      IsPackageText path path part
  | unnamed {path part : List Char} (hpath : ';' ∉ path) (hlast : IsLastElement path part) :
      IsPackageText (path ++ [';']) path part
  | named {path part : List Char} (hpath : ';' ∉ path) (hpart : part ≠ []) :
      IsPackageText (path ++ ';' :: part) path part

theorem isPackageText (text : List Char) : IsPackageText text (pathPart text) (namePart text) := by
  have hlast (path : List Char) : IsLastElement path (afterLast '/' path) :=
    ⟨not_mem_afterLast '/' path, afterLast_eq_self_or '/' path⟩
  cases hcut : cut? ';' text with
  | none =>
    have hpath : pathPart text = text := by rw [pathPart, hcut, Option.getD_none]
    have hgiven : givenName text = [] := by rw [givenName, hcut, Option.getD_none]
    rw [namePart, if_pos hgiven, hpath]
    exact .bare (cut?_eq_none_iff.1 hcut) (hlast text)
  | some parts =>
    obtain ⟨path, given⟩ := parts
    obtain ⟨rfl, hbare⟩ := cut?_eq_some_iff.1 hcut
    have hpath : pathPart (path ++ ';' :: given) = path := by
      rw [pathPart, hcut, Option.getD_some]
    have hgiven : givenName (path ++ ';' :: given) = given := by
      rw [givenName, hcut, Option.getD_some]
    rw [namePart, hpath, hgiven]
    split
    · next hnil =>
      rw [hnil]
      exact .unnamed hbare (hlast path)
    · next hne => exact .named hbare hne

theorem IsPackageText.semicolon_not_mem {text path part : List Char}
    (h : IsPackageText text path part) : ';' ∉ path := by
  cases h <;> assumption

/-- What is known of a package that is read from a text with some path and some text for the
name. -/
structure IsResolved (package : Package) (path part : List Char) : Prop where
  path : package.path.toList = path ∧ path ≠ [] ∧ ';' ∉ path
  name : package.name.toList = sanitize part ∧ package.name ≠ "" ∧ package.name ∉ keywords ∧
    ∀ c ∈ package.name.toList.head?, isCategoryNd c = false
  blank : package.name = "_" ↔ part = []
  usable : IsPackageName package.name.toList ↔ part ≠ [] ∧ HasOnlyLettersAndDigits part

/-- The path of a resolved package is not empty and has no semicolon. Its name can be used iff
it is made from a text that is not empty and whose letters and numerals are letters and digits
of identifiers. -/
theorem isResolved_of_packageFor {c : Parameter} {file : String} {option : Option String}
    {package : Package} (h : packageFor c file option = .ok package) :
    ∃ text, (c.importMap.lookup file).or option = some text ∧
      IsPackageText text.toList (pathPart text.toList) (namePart text.toList) ∧
      IsResolved package (pathPart text.toList) (namePart text.toList) := by
  unfold packageFor at h
  split at h
  · next package' hpackage =>
    obtain ⟨text, htext, hparse⟩ := Option.bind_eq_some_iff.1 hpackage
    obtain ⟨hpath, rfl⟩ := parsePackage_eq_some_iff.1 hparse
    obtain rfl := Except.ok.inj h
    have htextParts := isPackageText text.toList
    obtain ⟨hne, hfirst, hkeyword⟩ := sanitize_wellFormed (namePart text.toList)
    refine ⟨text, htext, htextParts, ?_, ?_, ?_, ?_⟩
    · exact ⟨String.toList_ofList, hpath, htextParts.semicolon_not_mem⟩
    · refine ⟨String.toList_ofList, mt String.ofList_eq_empty_iff.1 hne, hkeyword, ?_⟩
      rwa [String.toList_ofList]
    · rw [← sanitize_eq_blank_iff, ← String.ofList_inj]
    · rw [String.toList_ofList]
      exact isPackageName_sanitize_iff
  · cases h

example : packageFor {} "a.proto" (some "example.com/") = .ok ⟨"example.com/", "_"⟩ := by
  decide +kernel

/-- A superscript is kept, so that the name is no identifier. -/
theorem not_isPackageName_superscript :
    packageFor {} "a.proto" (some "example.com/x²") = .ok ⟨"example.com/x²", "x²"⟩ ∧
      ¬ IsPackageName "x²".toList := by
  have hok : packageFor {} "a.proto" (some "example.com/x²") = .ok ⟨"example.com/x²", "x²"⟩ := by
    decide +kernel
  obtain ⟨text, htext, -, hresolved⟩ := isResolved_of_packageFor hok
  obtain rfl := Option.some.inj htext
  refine ⟨hok, fun h => ?_⟩
  have hchar := (hresolved.usable.1 h).2 '²' (by decide +kernel)
  exact absurd (hchar (by decide +kernel)) (by decide +kernel)

end TemporalBindings.Bindings
