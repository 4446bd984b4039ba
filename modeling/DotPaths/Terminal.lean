import DotPaths.Number.Integer
import DotPaths.Text.Quoted

/-! # The size of the terminal

    The first terminal that knows its size gives it; failing that, two
    variables of the environment; failing that, it is 80 columns by 25 lines.
-/

namespace DotPaths.Terminal

/-- Columns and lines. -/
structure Size where
  columns : Int
  lines : Int
  deriving DecidableEq, Repr

/-- The size when nothing is known. -/
def usual : Size := ⟨80, 25⟩

/-- A variable of the environment that holds no number. -/
structure BadNumber where
  text : String
  why : Integer.Rejection
  deriving DecidableEq, Repr

/-- The most characters of a text that a message shows. -/
def shownLength : Nat := 200

/-- The text of the fault. -/
def BadNumber.message (b : BadNumber) : String :=
  match b.why with
  | .malformed =>
    "invalid literal for int() with base 10: " ++
      String.ofList ((Text.quoted b.text).toList.take shownLength)
  | .tooLong n =>
    "Exceeds the limit (4300 digits) for integer string conversion: value has " ++ toString n ++
      " digits; use sys.set_int_max_str_digits() to increase the limit"

/-- What is known about terminals. -/
structure Setting where
  /-- The name of the system. -/
  system : String
  /-- Lines and columns of the terminals that know them, in the order in which
      they are asked. -/
  sizes : List (Int × Int)
  linesVariable : Option String
  columnsVariable : Option String

/-- Can this system be asked at all? -/
def isKnown (system : String) : Bool :=
  system == "Linux" || system == "Darwin" || "CYGWIN".toList.isPrefixOf system.toList

/-- A variable as a number. -/
def number (text : String) : Except BadNumber Int :=
  match Integer.read text.toList with
  | .ok n => .ok n
  | .error why => .error ⟨text, why⟩

/-- The size of the terminal. -/
def size (s : Setting) : Except BadNumber Size :=
  if !isKnown s.system then .ok usual
  else
    match s.sizes, s.linesVariable, s.columnsVariable with
    | (lines, columns) :: _, _, _ => .ok ⟨columns, lines⟩
    | [], some lines, some columns => do
      let columns ← number columns
      let lines ← number lines
      pure ⟨columns, lines⟩
    | [], _, _ => .ok usual

end DotPaths.Terminal
