import DotPaths.Cell
import DotPaths.Text.Blank
import DotPaths.Text.Lines

/-! # Rows and directives

    A file is a drawing, row by row.  What follows two backticks is a comment,
    and every row ends with a blank.  A row that starts with a percent sign is
    a directive:

    * `%$ABC` makes warps of the letters `A`, `B` and `C`;
    * `%!file a` gives a library the alias `a`;
    * `%^X` exposes the character `X` of a library to its users.
-/

namespace DotPaths

/-- What can be wrong with a drawing. -/
inductive DrawingFault where
  /-- No library of this name. -/
  | missingLibrary (name : String)
  /-- A library without an alias. -/
  | missingAlias
  /-- A `%^` row without a character. -/
  | exposesNothing
  /-- A row in the old notation, with its four letters. -/
  | obsolete (right down left up : Char)
  /-- A row in the old notation with so many letters, fewer than four. -/
  | obsoleteShort (letters : Nat)
  /-- A library that imports itself, directly or through others. -/
  | endlessImport
  deriving DecidableEq, Repr

namespace DrawingFault

/-- The text of a fault. -/
def message : DrawingFault → String
  | .missingLibrary name => "Native library \"" ++ name ++ "\" cannot be found"
  | .missingAlias => "list index out of range"
  | .exposesNothing => "string index out of range"
  | .obsolete .. => "obsolete code (unable to run)"
  | .obsoleteShort n =>
    "Replacement index " ++ toString n ++ " out of range for positional args tuple"
  | .endlessImport => "maximum recursion depth exceeded"

/-- What is printed before a fault is reported. -/
def notice : DrawingFault → String
  | .obsolete a b c d =>
    let s (x : Char) : String := String.singleton x
    let letters := s a ++ s b ++ s c ++ s d
    "%+ notation has become replaced by a new notation\n" ++
      "you now define a single warp char as an entry point to your code using %$\n" ++
      "for this code, it is recommended that your replace\n\n" ++
      "%+" ++ letters ++ "\n\nwith\n\n" ++
      "%^X `` make sure that X doesn't conflict with anything\n" ++
      "%$" ++ letters ++ "\n\n" ++
      "  " ++ s d ++ "\n  |\n" ++ s c ++ "-X-" ++ s a ++ "\n  |\n  " ++ s b ++ "\n\n"
  | _ => ""

end DrawingFault

namespace World

/-- What stands before the first comment of a line. -/
def beforeComment : List Char → List Char
  | '\x60' :: '\x60' :: _ => []
  | c :: cs => c :: beforeComment cs
  | [] => []

/-- The rows of a text. -/
def rowsOf (text : List Char) : List (List Char) :=
  (Text.splitOn '\n' text).map fun line => beforeComment line ++ [' ']

/-- Is the row a directive? -/
def isDirective (row : List Cell) : Bool :=
  row.head?.any (·.glyph == '%')

/-- The characters of a row. -/
def glyphs (row : List Cell) : List Char := row.map Cell.glyph

/-- The letters that one row makes warps of. -/
def lettersOf (row : List Char) : List Char :=
  match Text.trimRight row with
  | '%' :: '$' :: letters => letters
  | _ => []

/-- The letters that a file makes warps of. -/
def warpLetters (rows : List (List Char)) : List Char :=
  rows.flatMap lettersOf

/-- The alias that one row gives to a library, and the name of the library. -/
def aliasOf (row : List Char) : Except DrawingFault (Option (List Char × String)) :=
  match Text.trimRight row with
  | '%' :: '!' :: rest =>
    match Text.splitOn ' ' rest with
    | file :: name :: _ => .ok (some (name, String.ofList file))
    | _ => .error .missingAlias
  | _ => .ok none

/-- The aliases of a file, in the order of their rows. -/
def aliases : List (List Char) → Except DrawingFault (List (List Char × String))
  | [] => .ok []
  | row :: rows => do
    let first ← aliasOf row
    let others ← aliases rows
    pure (first.toList ++ others)

/-- The library that a character stands for: that of the last row with this
    alias. -/
def libraryFor? (names : List (List Char × String)) (c : Char) : Option String :=
  (names.reverse.find? (·.1 == [c])).map (·.2)

/-- Cells without any meaning yet. -/
def plainRow (row : List Char) : List Cell := row.map fun c => ⟨c, .plain⟩

/-- A row of a library in which the cells with the exposed character are warps
    with a given link. -/
def exposedRow (role : WarpRole) (link : Option Int) (shown : Option Char) (row : List Char) :
    List Cell :=
  row.map fun c => ⟨c, if some c == shown then .warp ⟨role, link, none⟩ else .plain⟩

/-- The cells of a library: below a `%^` row, the exposed character is a warp
    with a given link. -/
def exposedRows (role : WarpRole) (link : Option Int) :
    Option Char → List (List Char) → Except DrawingFault (List (List Cell))
  | _, [] => .ok []
  | shown, row :: rows =>
    match Text.trimRight row with
    | '%' :: '+' :: letters =>
      match letters with
      | a :: b :: c :: d :: _ => .error (.obsolete a b c d)
      | _ => .error (.obsoleteShort letters.length)
    | '%' :: '^' :: rest =>
      match rest with
      | c :: _ => (exposedRows role link (some c) rows).map (plainRow row :: ·)
      | [] => .error .exposesNothing
    | '%' :: _ => (exposedRows role link shown rows).map (plainRow row :: ·)
    | _ => (exposedRows role link shown rows).map (exposedRow role link shown row :: ·)

end World

end DotPaths
