import DotPaths.Number.Integer
import DotPaths.Text.Blank
import DotPaths.Text.Quoted
import DotPaths.Text.Similar
import DotPaths.Text.Wrap

/-! # Arguments of the command

    The command takes the name of a program and options.  An option has a long
    name and mostly a letter; options may stand anywhere, and two dashes alone
    end them.  Letters may be joined behind one dash, and a value may be joined
    to its option.
-/

namespace DotPaths.Command

/-- The options. -/
inductive Opt where
  | debug
  | autostep
  | outputLimit
  | ticks
  | silent
  | plainView
  | viewLines
  | oneByOne
  | help
  deriving DecidableEq, Repr

/-- What an option takes. -/
inductive OptKind where
  /-- No value. -/
  | flag
  /-- Yes or no, in one of several spellings. -/
  | truth
  /-- An integer. -/
  | whole
  deriving DecidableEq, Repr

namespace Opt

/-- All options, in the order of the help. -/
def all : List Opt :=
  [.debug, .autostep, .outputLimit, .ticks, .silent, .plainView, .viewLines, .oneByOne, .help]

def long : Opt → String
  | .debug => "--debug"
  | .autostep => "--autostep_debug"
  | .outputLimit => "--output_limit"
  | .ticks => "--ticks"
  | .silent => "--silent"
  | .plainView => "--compat_debug"
  | .viewLines => "--debug_lines"
  | .oneByOne => "--async"
  | .help => "--help"

def letter? : Opt → Option Char
  | .debug => some 'd'
  | .autostep => some 'a'
  | .outputLimit => some 'o'
  | .ticks => some 't'
  | .silent => some 's'
  | .plainView => some 'w'
  | .viewLines => some 'l'
  | .oneByOne => some 'y'
  | .help => none

def kind : Opt → OptKind
  | .autostep => .truth
  | .outputLimit | .ticks | .viewLines => .whole
  | _ => .flag

def takesValue (o : Opt) : Bool := o.kind != .flag

/-- The option with a long name. -/
def ofLong? (name : String) : Option Opt := all.find? (·.long == name)

/-- The option with a letter. -/
def ofLetter? (c : Char) : Option Opt := all.find? (·.letter? == some c)

/-- Both names, as messages show them. -/
def label (o : Opt) : String :=
  match o.letter? with
  | some c => "'" ++ o.long ++ "' / '-" ++ String.singleton c ++ "'"
  | none => "'" ++ o.long ++ "'"

end Opt

/-- What can be wrong with the arguments. -/
inductive UsageError where
  /-- No option of this name; some options have similar names. -/
  | noSuchOption (name : String) (close : List String)
  /-- The option comes last and lacks its value. -/
  | needsValue (name : String)
  /-- The option has a value and takes none. -/
  | takesNoValue (name : String)
  /-- The value of the option is none of its kind. -/
  | badValue (o : Opt) (text : String)
  /-- There is no program. -/
  | missingFile
  /-- There are arguments behind the program. -/
  | extraArguments (args : List String)
  deriving DecidableEq, Repr

namespace UsageError

/-- What follows the name of an unknown option. -/
def hint : List String → String
  | [] => ""
  | [name] => " Did you mean " ++ name ++ "?"
  | names => " (Possible options: " ++ ", ".intercalate (names.mergeSort fun a b => a ≤ b) ++ ")"

/-- The text of a fault. -/
def message : UsageError → String
  | .noSuchOption name close => "No such option: " ++ name ++ hint close
  | .needsValue name => "Option " ++ Text.quoted name ++ " requires an argument."
  | .takesNoValue name => "Option " ++ Text.quoted name ++ " does not take a value."
  | .badValue o text =>
    "Invalid value for " ++ o.label ++ ": " ++ Text.quoted text ++
      (if o.kind = .truth then " is not a valid boolean." else " is not a valid integer.")
  | .missingFile => "Missing argument 'FILENAME'."
  | .extraArguments args =>
    (if args.length = 1 then "Got unexpected extra argument ("
      else "Got unexpected extra arguments (") ++ " ".intercalate args ++ ")"

end UsageError

/-! ## Reading the arguments -/

/-- An option that was given, with its value if it takes one. -/
structure Given where
  opt : Opt
  value : String

/-- What one argument says: options with their values, and perhaps a last
    option whose value is the next argument, under the name that was used. -/
structure Reading where
  given : List Given
  open? : Option (Opt × String)

/-- Letters behind one dash. -/
def readLetters : List Char → Except UsageError Reading
  | [] => .ok ⟨[], none⟩
  | c :: cs =>
    let name := String.ofList ['-', c]
    match Opt.ofLetter? c with
    | none => .error (.noSuchOption name [])
    | some o =>
      if o.takesValue then
        if cs.isEmpty then .ok ⟨[], some (o, name)⟩
        else .ok ⟨[⟨o, String.ofList cs⟩], none⟩
      else do
        let rest ← readLetters cs
        pure ⟨⟨o, ""⟩ :: rest.given, rest.open?⟩

/-- The part in front of the first equals sign, and what follows it. -/
def splitValue (arg : List Char) : String × Option String :=
  let name := String.ofList (arg.takeWhile (· != '='))
  match arg.dropWhile (· != '=') with
  | _ :: value => (name, some (String.ofList value))
  | [] => (name, none)

/-- An argument that begins with a dash.  Long names are tried first. -/
def readOption (arg : String) : Except UsageError Reading :=
  let (name, value) := splitValue arg.toList
  match Opt.ofLong? name, value with
  | some o, some v =>
    if o.takesValue then .ok ⟨[⟨o, v⟩], none⟩ else .error (.takesNoValue name)
  | some o, none =>
    if o.takesValue then .ok ⟨[], some (o, name)⟩ else .ok ⟨[⟨o, ""⟩], none⟩
  | none, _ =>
    match arg.toList with
    | '-' :: '-' :: _ => .error (.noSuchOption name (Text.closeTo name (Opt.all.map Opt.long)))
    | _ :: letters => readLetters letters
    | [] => .ok ⟨[], none⟩

/-- The arguments sorted: options in their order, and the others in theirs. -/
structure Sorted where
  given : List Given
  others : List String

/-- Is the argument an option?  A dash alone is none. -/
def isOption (arg : String) : Bool :=
  match arg.toList with
  | '-' :: _ :: _ => true
  | _ => false

/-- Sort the arguments. -/
def sort : List String → Except UsageError Sorted
  | [] => .ok ⟨[], []⟩
  | arg :: args =>
    if arg == "--" then .ok ⟨[], args⟩
    else if !isOption arg then do
      let s ← sort args
      pure ⟨s.given, arg :: s.others⟩
    else
      match readOption arg, args with
      | .error e, _ => .error e
      | .ok ⟨given, none⟩, args => do
        let s ← sort args
        pure ⟨given ++ s.given, s.others⟩
      | .ok ⟨given, some (o, _)⟩, value :: args => do
        let s ← sort args
        pure ⟨given ++ ⟨o, value⟩ :: s.given, s.others⟩
      | .ok ⟨_, some (_, name)⟩, [] => .error (.needsValue name)

/-! ## Values -/

/-- Yes or no. -/
def readTruth? (text : String) : Option Bool :=
  let word := String.ofList ((Text.trim text.toList).map Char.toLower)
  if ["1", "true", "t", "yes", "y", "on"].contains word then some true
  else if ["0", "false", "f", "no", "n", "off"].contains word then some false
  else none

/-- Is the value of the kind that the option takes? -/
def isGood (g : Given) : Bool :=
  match g.opt.kind with
  | .flag => true
  | .truth => (readTruth? g.value).isSome
  | .whole =>
    match Integer.read g.value.toList with
    | .ok _ => true
    | .error _ => false

/-- The value of an option: the last one given. -/
def value? (s : Sorted) (o : Opt) : Option String :=
  (s.given.reverse.find? (·.opt == o)).map (·.value)

def isGiven (s : Sorted) (o : Opt) : Bool := (value? s o).isSome

def whole? (s : Sorted) (o : Opt) : Option Int :=
  (value? s o).bind fun v => (Integer.read v.toList).toOption

/-- What the command is asked to do. -/
structure Options where
  file : String
  debug : Bool
  autostep : Bool
  outputLimit : Int
  ticks : Int
  silent : Bool
  plainView : Bool
  /-- The lines of the view, if they were asked for. -/
  viewLines : Option Int
  oneByOne : Bool
  deriving DecidableEq, Repr

/-- The first option, in the order in which they were first given, whose value
    is not good. -/
def badOption? (s : Sorted) : Option UsageError :=
  ((s.given.map Given.opt).eraseDups).findSome? fun o =>
    match value? s o with
    | some v => if isGood ⟨o, v⟩ then none else some (.badValue o v)
    | none => none

/-- The arguments as options; `none` when only help is wanted. -/
def readArguments (args : List String) : Except UsageError (Option Options) := do
  let s ← sort args
  if isGiven s .help then return none
  match badOption? s, s.others with
  | some e, _ => throw e
  | none, [] => throw .missingFile
  | none, [file] =>
    pure (some
      { file := file
        debug := isGiven s .debug
        autostep := ((value? s .autostep).bind readTruth?).getD false
        outputLimit := (whole? s .outputLimit).getD 0
        ticks := (whole? s .ticks).getD 0
        silent := isGiven s .silent
        plainView := isGiven s .plainView
        viewLines := whole? s .viewLines
        oneByOne := isGiven s .oneByOne })
  | none, _ :: others => throw (.extraArguments others)

/-! ## The help -/

/-- What follows the names of an option in the help. -/
def OptKind.placeholder : OptKind → String
  | .flag => ""
  | .truth => " BOOLEAN"
  | .whole => " INTEGER"

/-- The names of an option in the help. -/
def Opt.heading (o : Opt) : String :=
  let letter :=
    match o.letter? with
    | some c => String.ofList ['-', c, ',', ' ']
    | none => ""
  letter ++ o.long ++ o.kind.placeholder

/-- What the help says about an option. -/
def Opt.summary : Opt → String
  | .debug => "Show the execution of the program and the course of the dots."
  | .autostep => "The time between every tick"
  | .outputLimit => "Terminate the program after N outputs."
  | .ticks => "Terminate the program after N ticks."
  | .silent => "No printing, for benchmarking."
  | .plainView => "Force the debug rendering without ncurses."
  | .viewLines => "The size of the debug view."
  | .oneByOne => "Only one dot moves at a time. Easier to debug."
  | .help => "Show this message and exit."

/-- The columns of the help on a terminal: two fewer than it has, but between
    50 and 78.  A terminal that does not know its columns counts as one with
    80. -/
def helpColumns (columns : Int) : Nat :=
  if columns ≤ 0 then 78 else max (min columns 80 - 2).toNat 50

/-- Where the second column of the help begins: two columns behind the widest
    heading. -/
def summaryColumn : Nat :=
  (Opt.all.map fun o => o.heading.length).foldl max 0 + 4

/-- An option in the help: its names, and beside them what it does. -/
def Opt.helpLines (columns : Nat) (o : Opt) : String :=
  let blanks (n : Nat) : String := String.ofList (List.replicate n ' ')
  let lines := (Text.wrap (columns - summaryColumn) o.summary.toList).map String.ofList
  "  " ++ o.heading ++ blanks (summaryColumn - 2 - o.heading.length) ++
    ("\n" ++ blanks summaryColumn).intercalate lines ++ "\n"

/-- The help on a terminal with so many columns. -/
def helpText (columns : Int) : String :=
  "Usage: asciidots [OPTIONS] FILENAME\n\nOptions:\n" ++
    String.join (Opt.all.map (Opt.helpLines (helpColumns columns)))

end DotPaths.Command
