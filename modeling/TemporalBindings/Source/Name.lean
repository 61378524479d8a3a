import TemporalBindings.Text.Letter

/-!
# TemporalBindings.Source.Name

Identifiers of the generated source. Two rules turn text into identifiers:

* `camelCase` turns a dotted name of a descriptor into an exported identifier. It
  follows the naming rules of the message generator, so that the two agree on the
  name of every message;
* `sanitize` turns any text into something usable as a package name.
-/

namespace TemporalBindings.Source

open Text

/-! ## Exported names -/

/-- Where in a dotted name the next character stands. -/
inductive Position
  /-- At the start of the name or right after a dot. -/
  | segmentStart
  /-- After a digit or an underscore: a lower-case letter starts a new word here. -/
  | wordStart
  /-- Inside a word: lower-case letters are kept. -/
  | word
  deriving DecidableEq

/-- Whether a text starts with an ASCII lower-case letter. -/
def startsLower : List Char → Bool
  | [] => false
  | c :: _ => c.isLower

/-- The exported form of what is left of a name, reading one character at a time:

* inside a word a lower-case letter stays as it is;
* a dot or an underscore before a lower-case letter vanishes, since the letter is
  about to become upper-case; any other becomes an underscore;
* an underscore at the start of a segment becomes `X`, so that the result is
  exported;
* a digit stays; any other character starts a word and becomes upper-case. -/
def exportFrom : Position → List Char → List Char
  | _, [] => []
  | p, c :: cs =>
    if p = .word ∧ c.isLower then c :: exportFrom .word cs
    else if c = '.' then
      if startsLower cs then exportFrom .segmentStart cs else '_' :: exportFrom .segmentStart cs
    else if c = '_' then
      if p = .segmentStart then 'X' :: exportFrom .wordStart cs
      else if startsLower cs then exportFrom .wordStart cs
      else '_' :: exportFrom .wordStart cs
    else if c.isDigit then c :: exportFrom .wordStart cs
    else c.toUpper :: exportFrom .word cs

/-- The characters U+0000 to U+00FF that stand for the UTF-8 bytes of a text. -/
def byteChars (s : List Char) : List Char :=
  (s.flatMap String.utf8EncodeChar).map fun b => Char.ofNat b.toNat

/-- The exported identifier for a name. Characters beyond ASCII are read as their
UTF-8 bytes, each of which becomes a character of its own. -/
def camelCase (name : String) : String :=
  String.ofList (exportFrom .segmentStart (byteChars name.toList))

/-! ## Package names -/

/-- The keywords of the generated language, which cannot be identifiers. -/
def keywords : List String :=
  ["break", "case", "chan", "const", "continue", "default", "defer", "else", "fallthrough",
   "for", "func", "go", "goto", "if", "import", "interface", "map", "package", "range",
   "return", "select", "struct", "switch", "type", "var"]

/-- Whether a text begins with a letter. -/
def startsWithLetter : List Char → Bool
  | [] => false
  | c :: _ => isLetter c

/-- A text as a package name: what is neither letter nor numeral becomes an
underscore, and an underscore goes in front of a keyword and of what does not
begin with a letter. -/
def sanitize (s : List Char) : List Char :=
  let name := s.map fun c => if isLetter c || isNumeral c then c else '_'
  if String.ofList name ∈ keywords ∨ !startsWithLetter name then '_' :: name else name

end TemporalBindings.Source
