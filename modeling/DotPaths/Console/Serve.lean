import DotPaths.Console.View

/-! # Serving requests

    What a console does when a dot prints or reads, when a tick is over, when
    the run ends and when something is to be reported.
-/

namespace DotPaths.Console

/-- Refuse a request. -/
def refuse {α : Type} (r : Request) : ConsoleAct α := throw (.fault (.notProvided r))

/-! ## Opening -/

/-- The calls that open the window and the pad. -/
def openingCalls (d : Display) : List Call :=
  [.openScreen, .startColour, .setPair 1 1 0, .setPair 2 2 0, .setPair 3 3 0, .setPair 4 4 0,
   .echo false, .hideCursor, .openWindow d.viewLines d.columns 0 0, .openPad 1000 (d.columns - 1)]

/-- A console at its beginning. -/
def start (service : Service) (ticks outputs : Int) (input : List Char) (keys : List Int)
    (typed : List String) : Console :=
  let opening : List Call :=
    match service with
    | .terminal d => if d.view = .windowed then openingCalls d else []
    | _ => []
  { service := service, input := input, keys := keys, typed := typed,
    ticksLeft := limit ticks, outputsLeft := limit outputs,
    events := (opening.map Event.call).reverse }

/-- What is said when there is no window system. -/
def windowNotice : String := "failed to import curses; running in compatibility mode\n"

/-- What happens before anything else. -/
def firstEvents (windows : Bool) : List Event :=
  if windows then [] else [.write windowNotice]

/-- A console on a system with or without a window system.  Without one there
    is a notice, and a console that needs windows cannot be opened. -/
def openOn (windows : Bool) (c : Console) : Console × Option Fault :=
  let c := { c with events := c.events ++ firstEvents windows }
  match c.service with
  | .terminal d =>
    if d.view = .windowed && !windows then
      ({ c with events := firstEvents windows }, some .noWindows)
    else (c, none)
  | _ => (c, none)

/-! ## Printing -/

/-- The lines of output that the plain view has room for. -/
def logRoom (d : Display) : Int := d.lines - d.viewLines - 1

/-- The log with more output, cut to the room there is. -/
def extendLog (d : Display) (log text : CodeText) : CodeText :=
  Text.joinWith (.char '\n')
    (Text.lastLines (logRoom d) (Text.splitOn (.char '\n') (log ++ text)))

/-- Put output into the pad, and move on: to the next row after a newline at
    the end, otherwise behind the text. -/
def putInPad (d : Display) (text : CodeText) : ConsoleAct Unit := do
  let c ← get
  call (.padText c.padRow c.padColumn text.shown)
  call (.padRefresh (c.padRow - min (c.padRow : Int) (d.lines - d.viewLines - 1)) 0 d.viewLines 0
    (d.lines - 1) (d.columns - 1))
  if text.getLast? == some (.char '\n') then
    modify fun c => { c with padRow := c.padRow + 1, padColumn := 1 }
  else modify fun c => { c with padColumn := c.padColumn + text.length }

/-- Write a text, if it can be encoded. -/
def write (text : CodeText) : ConsoleAct Unit :=
  if text.isEncodable then emit (.write text.shown) else refuse (.encoding text)

theorem write_of_encodable {text : CodeText} (h : text.isEncodable = true) (c : Console) :
    write text c = .ok () { c with events := .write text.shown :: c.events } := by
  unfold write
  rw [if_pos h]
  rfl

theorem write_of_not_encodable {text : CodeText} (h : text.isEncodable = false) (c : Console) :
    write text c = .error (.fault (.notProvided (.encoding text))) c := by
  unfold write
  rw [if_neg (by simp [h])]
  rfl

/-- Show output on a terminal. -/
def display (d : Display) (text : CodeText) : ConsoleAct Unit :=
  if d.silent then pure ()
  else
    match d.view with
    | .off => write text
    | .plain => modify fun c => { c with log := extendLog d c.log text }
    | .windowed => putInPad d text

/-- Note an output. -/
def record (text : CodeText) : ConsoleAct Unit :=
  modify fun c => { c with texts := text :: c.texts }

/-- Count an output; the one that reaches the limit ends the run. -/
def countOutput : ConsoleAct Unit := do
  let c ← get
  let (left, reached) := countDown c.outputsLeft
  set { c with outputsLeft := left }
  if reached then throw .exit

/-- The text to print, or the fault of having none. -/
def render (p : Payload) : ConsoleAct CodeText :=
  match p.render with
  | .ok t => pure t
  | .error f => throw (.fault (.arith f))

/-- Print. -/
def output (p : Payload) : ConsoleAct Unit := do
  match (← get).service with
  | .bare => refuse .output
  | .recorder => record (← render p)
  | .terminal d =>
    let text ← render p
    countOutput
    record text
    display d text

/-! ## Reading -/

/-- Take a line of the input. -/
def takeLine : ConsoleAct (List Char) := do
  let c ← get
  match Text.takeLine c.input with
  | some (line, rest) => set { c with input := rest }; pure line
  | none => throw (.fault .endOfInput)

/-- Take a character of the input. -/
def takeChar : ConsoleAct (Option Char) := do
  let c ← get
  match c.input with
  | ch :: rest => set { c with input := rest }; pure (some ch)
  | [] => pure none

/-- The next key pressed in the window; `-1` when there is none. -/
def takeKey : ConsoleAct Int := do
  let c ← get
  let code := c.keys.headD (-1)
  set { c with keys := c.keys.drop 1 }
  call (.key code)
  pure code

/-- The next line typed into the window that is not empty. -/
def takeTyped (row column : Int) : ConsoleAct String := do
  let rec go : List String → ConsoleAct String
    | [] => do
      modify fun c => { c with typed := [] }
      throw (.fault .noMoreLines)
    | line :: rest => do
      modify fun c => { c with typed := rest }
      call (.line row column 20 line)
      if line.isEmpty then go rest else pure line
  go (← get).typed

/-- The integer that a line spells, or zero. -/
def numberOfLine (read : Except Integer.Rejection Int) : Int :=
  match read with
  | .ok n => n
  | .error _ => 0

/-- The code of a key, or zero when no character has it. -/
def codeOfKey (code : Int) : ConsoleAct Int :=
  match (Number.int code).toCode with
  | .ok n => pure n
  | .error .codeOutOfRange => pure 0
  | .error f => throw (.fault (.arith f))

/-- Read from the input: a line as an integer, or the code of a character, with
    `-1` for the end. -/
def readInput (byCode : Bool) : ConsoleAct Int := do
  if byCode then
    match ← takeChar with
    | some c => pure c.toNat
    | none => pure (-1)
  else pure (numberOfLine (Integer.read (← takeLine)))

/-- What is written to ask for input. -/
def question : String := "?: "

/-- Read from the input of a terminal.  A line that is typed is asked for. -/
def askInput (d : Display) (byCode : Bool) : ConsoleAct Int := do
  if d.interactive && !byCode then emit (.prompt question)
  readInput byCode

/-- The longest line of blanks that there is memory for. -/
def blanksLimit : Int := twoTo 36

/-- A line of so many blanks; none for a negative number. -/
def blanks (n : Int) : ConsoleAct String :=
  if !Index.fits n then throw (.fault .lineTooWide)
  else if blanksLimit < n then throw (.fault .outOfMemory)
  else pure (String.ofList (List.replicate n.toNat ' '))

/-- Read from the window, after asking. -/
def readWindow (d : Display) (byCode : Bool) : ConsoleAct Int := do
  let row := d.lines - 3
  let column : Int := 2
  call (.echo true)
  call (.screenText row column question true)
  call (.screenText (row + 1) column (← blanks (d.columns - 1)) false)
  call .screenRefresh
  if byCode then codeOfKey (← takeKey)
  else pure (numberOfLine (Integer.readAscii (← takeTyped (row + 1) column).toList))

/-- Read a number, or the code of a character. -/
def read (byCode : Bool) : ConsoleAct Int := do
  match (← get).service with
  | .bare => refuse .input
  | .recorder => readInput byCode
  | .terminal d => if d.view = .windowed then readWindow d byCode else askInput d byCode

/-! ## Ticks -/

/-- Show the drawing. -/
def draw (d : Display) (w : World) (dots : List Pos) : ConsoleAct Unit := do
  let frame := View.frame d.columns d.viewLines w dots
  if d.view = .plain then
    emit .clearScreen
    frame.forM fun row => emit (.write (View.plainRow row))
    write (.char '\n' :: (← get).log)
  else
    call .windowRefresh
    frame.zipIdx.forM fun (row, y) => (View.windowRow row y).forM call

/-- The keys that end the run. -/
def endKeys : List Int := [3, 26]

/-- Wait between two steps: for some seconds, for a line, or for a key. -/
def waitStep (d : Display) : ConsoleAct Unit :=
  if !d.autostep.isZero then emit (.pause d.autostep)
  else if d.view = .plain then do
    emit (.write "Press enter to step...")
    discard takeLine
  else do
    let code ← takeKey
    if endKeys.contains code then throw .exit

/-- Count a tick; the second part of the limit is what happens at its end. -/
def countTick (atLimit : ConsoleAct Unit) : ConsoleAct Unit := do
  let c ← get
  let (left, reached) := countDown c.ticksLeft
  set { c with ticksLeft := left }
  if reached then
    atLimit
    throw .exit

/-- A step is over: the drawing is shown, and the tick is counted.  The dots
    that are shown stand at the given positions. -/
def tick (w : World) (dots : List Pos) : ConsoleAct Unit := do
  match (← get).service with
  | .bare => pure ()
  | .recorder =>
    modify fun c => { c with ticks := c.ticks + 1 }
    countTick (pure ())
  | .terminal d =>
    modify fun c => { c with ticks := c.ticks + 1 }
    if d.view ≠ .off && !d.silent then
      draw d w dots
      waitStep d
    countTick (output (.text "QUITTING next step!\n"))

/-! ## Ends and reports -/

/-- The calls that close the window. -/
def closingCalls : List Call := [.leaveCbreak, .keypadOff, .echo true, .closeScreen]

/-- The run is over. -/
def finish : ConsoleAct Unit := do
  match (← get).service with
  | .bare => refuse .finish
  | .recorder => record "<finish>"
  | .terminal d => if d.view = .windowed then closingCalls.forM call else pure ()

/-- Report that something is wrong with the program.  A terminal prints it and
    ends the run. -/
def report (text : String) : ConsoleAct Unit := do
  match (← get).service with
  | .bare => refuse .error
  | .recorder => modify fun c => { c with reports := text :: c.reports }
  | .terminal _ =>
    output (.text ("error: " ++ text : String))
    throw .exit

end DotPaths.Console
