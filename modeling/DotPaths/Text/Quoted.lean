import DotPaths.Text.Printable

/-! # Quoted text

    How a piece of text is shown inside a message: between quotes, with
    escapes for the quote in use, the backslash and every character that
    would not be seen.
-/

namespace DotPaths.Text

/-- A number in lower-case hexadecimal, padded on the left with zeros. -/
def hex (width n : Nat) : List Char :=
  let digits := Nat.toDigits 16 n
  List.replicate (width - digits.length) '0' ++ digits

/-- The mark that a quoted text stands between: a single quote, or a double
    quote when the text has single quotes and no double ones. -/
def quoteMark (cs : List Char) : Char :=
  if cs.contains '\x27' && !cs.contains '\x22' then '\x22' else '\x27'

/-- One character of a quoted text between the marks `mark`. -/
def escape (mark c : Char) : List Char :=
  if c == mark || c == '\\' then ['\\', c]
  else if c == '\t' then ['\\', 't']
  else if c == '\n' then ['\\', 'n']
  else if c == '\r' then ['\\', 'r']
  else if isPrintable c then [c]
  else if c.toNat ≤ 0xFF then '\\' :: 'x' :: hex 2 c.toNat
  else if c.toNat ≤ 0xFFFF then '\\' :: 'u' :: hex 4 c.toNat
  else '\\' :: 'U' :: hex 8 c.toNat

/-- The text between quotes. -/
def quoted (s : String) : String :=
  let cs := s.toList
  let mark := quoteMark cs
  String.ofList (mark :: cs.flatMap (escape mark) ++ [mark])

end DotPaths.Text
