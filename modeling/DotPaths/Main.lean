import DotPaths.Command.Run
import DotPaths.Terminal

/-! # The program

    The outermost layer: it reads files and the input, runs the command tick by
    tick, and makes the events of the console happen.
-/

namespace DotPaths.Program

/-- The text of a file, if it can be read. -/
def readFile? (name : String) : IO (Option String) := do
  try
    return some (← IO.FS.readFile name)
  catch _ =>
    return none

/-- The libraries that a text names. -/
def namesIn (text : String) : List String :=
  match World.aliases (World.rowsOf (Text.unifyNewlines text.toList)) with
  | .ok names => names.map (·.2)
  | .error _ => []

/-- The name of a file from its path. -/
def nameOf (path : List String) : String := "/".intercalate path

/-- Read the files with the given names beside the program, and all that they
    name in turn. -/
partial def gather (here : List String) (files : List (List String × List Char)) :
    List String → IO (List (List String × List Char))
  | [] => return files
  | name :: names => do
    let path := Folder.normalize (nameOf (here ++ [name]))
    if files.any (·.1 == path) then gather here files names
    else
      match ← readFile? (nameOf path) with
      | some text => gather here ((path, text.toList) :: files) (namesIn text ++ names)
      | none => gather here files names

/-- The program that the arguments name and the files around it. -/
def openFolder (args : List String) : IO Folder := do
  match Command.readArguments args with
  | .ok (some o) =>
    match ← readFile? o.file with
    | some text =>
      let path := Folder.normalize o.file
      return ⟨← gather path.dropLast [(path, text.toList)] (namesIn text)⟩
    | none => return ⟨[]⟩
  | _ => return ⟨[]⟩

/-- Make an event happen.  There is no window system. -/
def happen : Event → IO Unit
  | .write text | .prompt text => IO.print text
  | .clearScreen => IO.print "\x1b[H\x1b[2J"
  | .pause (.int n) => IO.sleep (n.toNat * 1000).toUInt32
  | .pause (.real x) => IO.sleep (x * 1000.0).toUInt32
  | .pause _ => pure ()
  | .call _ => pure ()

/-- Make the events of a console happen, but for the first so many, and forget
    them. -/
def flush (c : Console) (done : Nat) : IO Console := do
  (c.events.reverse.drop done).forM happen
  (← IO.getStdout).flush
  return { c with events := [] }

/-- Is a dot about to read a character? -/
def wantsCode (m : Machine) : Bool :=
  let reads (d : Dot) : Bool :=
    match d.phase with
    | .value e | .ident e => e.byCode
    | _ => false
  m.scene.dots.any reads || (!m.parallel && m.world.rows.any (·.any (·.glyph == '?')))

/-- The machine with more input. -/
def feed (m : Machine) (line : String) : Machine :=
  let c := m.scene.console
  let input := c.input ++ Text.unifyNewlines line.toList
  { m with scene := { m.scene with console := { c with input := input } } }

/-- Run a machine to its end.  Input is read when it is needed: a tick that
    lacks a line is taken again with one more, and what has happened in it before
    does not happen again. -/
partial def play (m : Machine) (ended : Bool) (done : Nat) : IO Command.Ending := do
  if wantsCode m && m.scene.console.input.isEmpty && !ended then
    let line ← (← IO.getStdin).getLine
    return ← play (feed m line) line.isEmpty done
  let (after, stop) := m.run 1
  let c ← flush after.scene.console done
  match stop with
  | some (.fault .endOfInput) =>
    if !ended then
      let line ← (← IO.getStdin).getLine
      return ← play (feed m line) line.isEmpty after.scene.console.events.length
    else return .aborted
  | some s => return Command.endingOf s
  | none => play { after with scene := { after.scene with console := c } } ended 0

/-- The size of the terminal, from the environment. -/
def terminalSize : IO Terminal.Size := do
  let setting : Terminal.Setting :=
    { system := "Linux", sizes := [], linesVariable := ← IO.getEnv "LINES",
      columnsVariable := ← IO.getEnv "COLUMNS" }
  match Terminal.size setting with
  | .ok s => return s
  | .error _ => return Terminal.usual

/-- Report how the command ended. -/
def close (e : Command.Ending) : IO UInt32 := do
  match e.message? with
  | some text =>
    IO.eprintln text
    return 1
  | none => return 0

end DotPaths.Program

open DotPaths in
/-- The command line. -/
def main (args : List String) : IO UInt32 := do
  let size ← Program.terminalSize
  let env : Command.Surroundings :=
    { folder := ← Program.openFolder args, input := [], columns := size.columns,
      lines := size.lines, windows := false, interactive := ← (← IO.getStdin).isTty }
  match Command.start env args with
  | .ended c e =>
    discard (Program.flush c 0)
    Program.close e
  | .ready m => Program.close (← Program.play m false 0)
