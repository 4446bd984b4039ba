import DotPaths.Command.Usage
import DotPaths.Machine.Run

/-! # The command

    Reading the arguments, opening the console and the program, and running
    it, in this order: what goes wrong first is what is reported.
-/

namespace DotPaths.Command

/-- Why a program cannot be opened. -/
inductive FileFault where
  | missing (name : String)
  | notFolder (name : String)
  | isFolder (name : String)
  | tooLong (name : String)
  /-- The name holds a character that no name can hold. -/
  | unusable
  deriving DecidableEq, Repr

/-- The text of a fault. -/
def FileFault.message : FileFault → String
  | .missing name => "[Errno 2] No such file or directory: " ++ Text.quoted name
  | .notFolder name => "[Errno 20] Not a directory: " ++ Text.quoted name
  | .isFolder name => "[Errno 21] Is a directory: " ++ Text.quoted name
  | .tooLong name => "[Errno 36] File name too long: " ++ Text.quoted name
  | .unusable => "embedded null byte"

/-- How the command ends. -/
inductive Ending where
  | help
  | usage (e : UsageError)
  | file (f : FileFault)
  /-- The input came to its end where more was needed. -/
  | aborted
  | stopped (s : Stop)
  deriving DecidableEq

/-- What the command finds around it. -/
structure Surroundings where
  folder : Folder
  input : List Char
  keys : List Int := []
  typed : List String := []
  columns : Int
  lines : Int
  /-- Is there a window system? -/
  windows : Bool
  /-- Is the input typed at a terminal? -/
  interactive : Bool := false

/-- The view that the options ask for. -/
def viewFor (env : Surroundings) (o : Options) : View :=
  if !o.debug then .off
  else if o.plainView || !env.windows then .plain
  else .windowed

/-- The console that the options ask for; `usual` are the lines of the view
    unless they ask for others. -/
def consoleFor (env : Surroundings) (usual : Int) (o : Options) : Console :=
  let display : Display :=
    { view := viewFor env o
      silent := o.silent
      columns := env.columns
      lines := env.lines
      viewLines := o.viewLines.getD usual
      autostep := if o.autostep then .real 1.0 else .int 0
      interactive := env.interactive }
  let c := Console.start (.terminal display) o.ticks o.outputLimit env.input env.keys env.typed
  (Console.openOn env.windows c).1

/-- The text of the program, and the folder that it is in. -/
def openProgram (folder : Folder) (name : String) :
    Except FileFault (List String × String) :=
  if name.toList.contains '\x00' then .error .unusable
  else
    match folder.find [] name with
    | .file path text => .ok (path.dropLast, String.ofList (Text.unifyNewlines text))
    | .folder => .error (.isFolder name)
    | .notFolder => .error (.notFolder name)
    | .tooLong => .error (.tooLong name)
    | .missing => .error (.missing name)

/-- The end of the command for the end of a run. -/
def endingOf : Stop → Ending
  | .fault .endOfInput | .fault .noMoreLines => .aborted
  | s => .stopped s

/-- What the arguments lead to: an early end, or a machine that is ready. -/
inductive Start where
  | ended (c : Console) (e : Ending)
  | ready (m : Machine)

/-- Read the arguments and get everything ready. -/
def start (env : Surroundings) (args : List String) : Start :=
  let idle : Console :=
    { service := .bare, input := env.input, events := Console.firstEvents env.windows }
  match Display.usualViewLines env.lines, readArguments args with
  | .error f, _ => .ended idle (.stopped (.fault (.arith f)))
  | .ok _, .error e => .ended idle (.usage e)
  | .ok _, .ok none =>
    .ended { idle with events := .write (helpText env.columns) :: idle.events } .help
  | .ok usual, .ok (some o) =>
    let console := consoleFor env usual o
    match openProgram env.folder o.file with
    | .error f => .ended console (.file f)
    | .ok (here, program) =>
      match Machine.launch ⟨env.folder, here⟩ program (!o.oneByOne) console 0 with
      | (m, some s) => .ended m.scene.console (endingOf s)
      | (m, none) => .ready m

/-- Run the command for at most `fuel` ticks: the console at the end, and how it
    ended, or `none` when it can go on. -/
def run (fuel : Nat) (env : Surroundings) (args : List String) : Console × Option Ending :=
  match start env args with
  | .ended c e => (c, some e)
  | .ready m =>
    let (m, stop) := m.run fuel
    (m.scene.console, stop.map endingOf)

/-- The text of an ending that is reported as an error. -/
def Ending.message? : Ending → Option String
  | .help | .stopped .exit => none
  | .usage e => some e.message
  | .file f => some f.message
  | .aborted => some "Aborted!"
  | .stopped (.fault f) => some f.message

end DotPaths.Command
