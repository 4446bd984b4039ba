import DotPaths.Dot.Deed
import DotPaths.Text.Lines

/-! # The console

    A console takes what is printed and gives what is read.  It keeps the rest
    of the input, the limits that are left, and a journal of everything that it
    has made happen outside.

    There are three services.  A *bare* console refuses every request.  A
    *recorder* keeps lists of what is printed and reported.  A *terminal*
    writes to the screen, and may show the drawing after each step.
-/

namespace DotPaths

/-- How the drawing is shown while the program runs. -/
inductive View where
  | off
  /-- As plain text, the whole screen anew each time. -/
  | plain
  /-- In a window, with the output in a pad below it. -/
  | windowed
  deriving DecidableEq, Repr

/-- The settings of a terminal. -/
structure Display where
  view : View
  /-- Is nothing to be shown at all? -/
  silent : Bool
  columns : Int
  lines : Int
  /-- The lines that the drawing may take. -/
  viewLines : Int
  /-- The seconds between two steps, or zero to wait for a key. -/
  autostep : Number
  /-- Is the input typed at a terminal, so that one asks for it? -/
  interactive : Bool := false

/-- The lines that the drawing takes unless something else is asked for: two
    thirds of the terminal, rounded to a double and then towards zero. -/
def Display.usualViewLines (lines : Int) : Except ArithFault Int :=
  match Number.divInts (lines * 2) 3 with
  | .ok (.real x) => .ok (Binary.truncate x)
  | .ok _ => .ok 0
  | .error f => .error f

/-- What a console does with the requests that it gets. -/
inductive Service where
  | bare
  | recorder
  | terminal (d : Display)

/-- A call to the window system. -/
inductive Call where
  | openScreen
  | startColour
  | setPair (pair foreground background : Nat)
  | echo (on : Bool)
  | hideCursor
  | openWindow (lines columns y x : Int)
  | openPad (lines columns : Int)
  | leaveCbreak
  | keypadOff
  | closeScreen
  /-- Text on the screen behind the windows, in reverse if wanted. -/
  | screenText (row column : Int) (text : String) (reverse : Bool)
  | screenRefresh
  | key (code : Int)
  | line (row column : Int) (length : Nat) (text : String)
  | windowRefresh
  | windowPut (row column : Nat) (glyph : Char) (colour : Nat)
  | padText (row column : Nat) (text : String)
  | padRefresh (padRow padColumn top left bottom right : Int)
  deriving DecidableEq

/-- Something that a console makes happen outside. -/
inductive Event where
  | write (text : String)
  /-- Text is written to ask for a line of input. -/
  | prompt (text : String)
  | clearScreen
  | pause (seconds : Number)
  | call (c : Call)
  deriving DecidableEq

/-- The state of a console. -/
structure Console where
  service : Service
  /-- The input that has not been read. -/
  input : List Char := []
  /-- The keys that will be pressed in the window. -/
  keys : List Int := []
  /-- The lines that will be typed into the window. -/
  typed : List String := []
  /-- The ticks until the limit, if there is one ahead. -/
  ticksLeft : Option Nat := none
  /-- The outputs until the limit, if there is one ahead. -/
  outputsLeft : Option Nat := none
  /-- What has happened, the last event first. -/
  events : List Event := []
  /-- What has been given to be printed, the last output first. -/
  texts : List CodeText := []
  /-- What has been reported, the last report first. -/
  reports : List String := []
  /-- How many ticks there have been. -/
  ticks : Nat := 0
  /-- The output that the plain view shows. -/
  log : CodeText := []
  /-- Where the next output goes in the pad. -/
  padRow : Nat := 0
  padColumn : Nat := 1

/-- Doing something with a console; what was done before a stop stays done. -/
abbrev ConsoleAct := EStateM Stop Console

namespace Console

/-- What has been given to be printed, as far as it can be shown. -/
def outputs (c : Console) : List String := c.texts.map CodeText.shown

/-- A limit as a count: zero and negative numbers set none. -/
def limit (n : Int) : Option Nat :=
  if 0 < n then some n.toNat else none

/-- Note an event. -/
def emit (e : Event) : ConsoleAct Unit :=
  modify fun c => { c with events := e :: c.events }

/-- Note a call to the window system. -/
def call (c : Call) : ConsoleAct Unit := emit (.call c)

/-- Count one off a limit.  The second part says that it has just been
    reached; from then on there is none. -/
def countDown : Option Nat → Option Nat × Bool
  | none => (none, false)
  | some n => if n ≤ 1 then (none, true) else (some (n - 1), false)

end Console

end DotPaths
