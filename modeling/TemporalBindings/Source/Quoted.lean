/-!
# TemporalBindings.Source.Quoted

String literals. A literal stands between quotes; inside, a quote and a backslash
are escaped by a backslash, newline, carriage return and tab by their letters, and
every other control character by its code point in four hexadecimal digits. All
other characters stand for themselves.
-/

namespace TemporalBindings.Source

/-- Whether `c` is in the general category `Cc`: the code points below U+0020 and
from U+007F to U+009F. -/
def isControl (c : Char) : Bool :=
  c.toNat < 0x20 || (0x7F ≤ c.toNat && c.toNat ≤ 0x9F)

/-- The last `count` hexadecimal digits of `n`, the most significant first. -/
def hexDigits : Nat → Nat → List Char
  | 0, _ => []
  | count + 1, n => hexDigits count (n / 16) ++ [Nat.digitChar (n % 16)]

/-- A character inside a literal. -/
def escape (c : Char) : List Char :=
  if c = '"' then ['\\', '"']
  else if c = '\\' then ['\\', '\\']
  else if c = '\n' then ['\\', 'n']
  else if c = '\r' then ['\\', 'r']
  else if c = '\t' then ['\\', 't']
  else if isControl c then ['\\', 'u'] ++ hexDigits 4 c.toNat
  else [c]

/-- The literal of a text. -/
def quote (s : String) : String :=
  String.ofList (['"'] ++ s.toList.flatMap escape ++ ['"'])

end TemporalBindings.Source
