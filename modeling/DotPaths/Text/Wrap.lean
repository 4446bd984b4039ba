import DotPaths.Text.Lines

/-! # Wrapping text

    Words are put on lines of a given width, as many on each as fit.  A word
    that is wider than a line has a line of its own.
-/

namespace DotPaths.Text

/-- Put words on lines; `line` is the line so far, which is not empty. -/
def wrapFrom (width : Nat) (line : List Char) : List (List Char) → List (List Char)
  | [] => [line]
  | word :: words =>
    if line.length + 1 + word.length ≤ width then wrapFrom width (line ++ ' ' :: word) words
    else line :: wrapFrom width word words

/-- Put words on lines. -/
def wrapWords (width : Nat) : List (List Char) → List (List Char)
  | [] => []
  | word :: words => wrapFrom width word words

/-- A text whose words have single blanks between them, on lines. -/
def wrap (width : Nat) (text : List Char) : List (List Char) :=
  wrapWords width (splitOn ' ' text)

end DotPaths.Text
