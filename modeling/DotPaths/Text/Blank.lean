/-! # Blank characters

    Two classes of blanks are told apart.  `isBlank` is the class that is
    trimmed from the right end of a row and that makes a row count as empty;
    `isPadding` is the class that may stand around a written number.  They
    differ in the four information separators U+001C to U+001F, which are
    blank but are no padding.
-/

namespace DotPaths.Text

/-- Characters with the Unicode property `White_Space`: what may surround a
    written number. -/
def isPadding (c : Char) : Bool :=
  let n := c.toNat
  (9 ≤ n && n ≤ 13) || n == 0x20 || n == 0x85 || n == 0xA0 || n == 0x1680 ||
    (0x2000 ≤ n && n ≤ 0x200A) || n == 0x2028 || n == 0x2029 || n == 0x202F ||
    n == 0x205F || n == 0x3000

/-- Characters that are trimmed from the ends of a text: padding and the four
    information separators. -/
def isBlank (c : Char) : Bool :=
  isPadding c || (0x1C ≤ c.toNat && c.toNat ≤ 0x1F)

/-- The text without the blanks at its right end. -/
def trimRight (cs : List Char) : List Char :=
  (cs.reverse.dropWhile isBlank).reverse

/-- The text without the blanks at both ends. -/
def trim (cs : List Char) : List Char :=
  trimRight (cs.dropWhile isBlank)

end DotPaths.Text
