import DotPaths.Index
import DotPaths.Number.Basic
import DotPaths.Text.CodeText
import DotPaths.World.Directive

/-! # Why a run stops

    A run always ends by stopping: by leaving in the ordinary way, or by a
    fault.
-/

namespace DotPaths

/-- What a console may be asked for. -/
inductive Request where
  | input
  | output
  | finish
  | error
  /-- To write a text, which has to be encoded. -/
  | encoding (text : CodeText)
  deriving DecidableEq, Repr

/-- What is said when a request is refused. -/
def Request.refusal : Request → String
  | .input => "get_input: not implemented"
  | .output => "on_output: not implemented"
  | .finish => "on_finish: not implemented"
  | .error => "on_error: not implemented"
  | .encoding text => text.complaint

/-- What can go wrong in a run. -/
inductive Fault where
  /-- A calculation. -/
  | arith (f : ArithFault)
  /-- The drawing. -/
  | drawing (f : DrawingFault)
  /-- A cell that lacks what is asked of it. -/
  | cell (f : CellFault)
  /-- A dot without any phase is to choose the next one. -/
  | cannotChoose
  /-- A dot without any phase is to act. -/
  | cannotAct
  /-- Two dots meet where nothing is to be done. -/
  | nothingToDo
  /-- A dot leaves a library that it never entered; the dot is described. -/
  | neverEntered (dot : String)
  /-- A warp leads nowhere. -/
  | noDestination (glyph : Char)
  /-- A new dot cannot be in a meeting before it has a direction. -/
  | undirected
  /-- A new dot cannot be in a meeting that does not say which dot goes on. -/
  | unmastered (operation : Bool)
  /-- There is no dot with this number. -/
  | noSuchDot (f : IndexFault)
  /-- The input has no further line. -/
  | endOfInput
  /-- No further line is typed into the window. -/
  | noMoreLines
  /-- There is no window system. -/
  | noWindows
  /-- A line of the window is wider than a text can be. -/
  | lineTooWide
  /-- A line of the window is wider than there is memory for. -/
  | outOfMemory
  /-- The console does not serve this request. -/
  | notProvided (r : Request)
  deriving DecidableEq

/-- The text of a fault. -/
def Fault.message : Fault → String
  | .arith f => f.message
  | .drawing f => f.message
  | .cell f => f.message
  | .cannotChoose => "State Next Method Not Implemented!"
  | .cannotAct => "State Run Method Not Implemented!"
  | .nothingToDo => "DoOperation not implemented!"
  | .neverEntered dot =>
    "Dot tried to exit library it never entered.\n" ++
      "This is likely caused by a dot spawned inside a library trying to teleport out.\n" ++ dot
  | .noDestination glyph => "Warp \"" ++ String.singleton glyph ++ "\" has no destination"
  | .undirected => "'Dot' object has no attribute 'dir'"
  | .unmastered operation =>
    (if operation then "OperState" else "TwoDotState") ++
      ".__init__() missing 1 required positional argument: 'isMaster'"
  | .noSuchDot f => f.message
  | .endOfInput => "EOF when reading a line"
  | .noMoreLines => "no more strings"
  | .noWindows => "name 'curses' is not defined"
  | .lineTooWide => IndexFault.tooWide.message
  | .outOfMemory => ""
  | .notProvided r => r.refusal

/-- Why a run, or a part of it, stops. -/
inductive Stop where
  /-- The ordinary end. -/
  | exit
  | fault (f : Fault)
  deriving DecidableEq

end DotPaths
