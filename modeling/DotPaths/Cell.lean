import DotPaths.Pos

/-! # Cells

    A cell of the drawing is a character together with what the character
    stands for: a piece of path, a starting point, an operator between two
    brackets, or a warp that sends a dot elsewhere.
-/

namespace DotPaths

/-- The brackets around an operator: which dot of a pair performs it depends
    on them. -/
inductive Bracket where
  | curly
  | square
  deriving DecidableEq, Repr

/-- The part a warp plays. -/
inductive WarpRole where
  /-- A letter of a file, paired with another cell of the same letter. -/
  | letter
  /-- A cell shared between a file and a library. -/
  | shared
  /-- The library side of a shared cell. -/
  | sharedInner
  /-- The user side of a shared cell. -/
  | sharedOuter
  /-- A cell of a library that many dots enter and each leaves where it came
      in. -/
  | single
  /-- Where dots enter such a library: an alias in the file that uses it. -/
  | entrance
  /-- Where dots arrive in such a library, and leave it again. -/
  | exposed
  deriving DecidableEq, Repr

namespace WarpRole

/-- Does the warp belong to a library? -/
def isLibrary : WarpRole → Bool
  | .letter => false
  | _ => true

/-- Does a dot remember that it passed here? -/
def isRemembered : WarpRole → Bool
  | .single | .entrance | .exposed => true
  | _ => false

/-- Is the way on known only from what a dot remembers? -/
def isReturn : WarpRole → Bool
  | .sharedInner | .exposed => true
  | _ => false

end WarpRole

/-- A warp: its role, the number that pairs it with others, and where it
    leads. -/
structure Warp where
  role : WarpRole
  link : Option Int := none
  target : Option Pos := none
  deriving DecidableEq, Repr

/-- What a character stands for. -/
inductive CellKind where
  | plain
  | start
  | operator (bracket : Option Bracket)
  | warp (w : Warp)
  deriving DecidableEq, Repr

/-- What a cell may be asked to do. -/
inductive Ability where
  /-- To tell its link, or to take another one. -/
  | link
  | relink
  /-- To tell where it leads, or to lead elsewhere. -/
  | lead
  | redirect
  /-- To calculate. -/
  | calculate
  deriving DecidableEq, Repr

/-- The name by which messages speak of an ability. -/
def Ability.label : Ability → String
  | .link => "get_id"
  | .relink => "set_id"
  | .lead => "get_dest_loc"
  | .redirect => "set_dest_loc"
  | .calculate => "calc"

/-- What asking something of a cell can run into. -/
inductive CellFault where
  /-- Cells of this kind cannot do that. -/
  | unable (kind : CellKind) (a : Ability)
  /-- The way on is known only from what a dot remembers. -/
  | targetUnknown
  /-- The way on cannot be set either. -/
  | targetFixed
  deriving DecidableEq, Repr

namespace CellKind

/-- The name by which reports speak of a kind of cells. -/
def label : CellKind → String
  | .plain => "Char"
  | .start => "DotChar"
  | .operator none => "OperChar"
  | .operator (some .curly) => "CurlyOperChar"
  | .operator (some .square) => "SquareOperChar"
  | .warp w =>
    match w.role with
    | .letter => "WarpChar"
    | .shared => "LibWarpChar"
    | .sharedInner => "LibInnerWarpChar"
    | .sharedOuter => "LibOuterWarpChar"
    | .single => "SingletonLibWarpChar"
    | .entrance => "SingletonLibOuterWarpChar"
    | .exposed => "SingletonLibInnerWarpChar"

def isStart : CellKind → Bool
  | .start => true
  | _ => false

def isOperator : CellKind → Bool
  | .operator _ => true
  | _ => false

/-- The brackets of an operator cell. -/
def bracket? : CellKind → Option Bracket
  | .operator b => b
  | _ => none

def warp? : CellKind → Option Warp
  | .warp w => some w
  | _ => none

def isWarp (k : CellKind) : Bool := k.warp?.isSome

def role? (k : CellKind) : Option WarpRole := k.warp?.map Warp.role

/-- Is it a warp to or from a library? -/
def isLibraryWarp (k : CellKind) : Bool := k.role?.any WarpRole.isLibrary

/-- Is it a warp that dots remember? -/
def isRememberedWarp (k : CellKind) : Bool := k.role?.any WarpRole.isRemembered

/-- The link number of a warp. -/
def link (k : CellKind) : Except CellFault (Option Int) :=
  match k with
  | .warp w => .ok w.link
  | _ => .error (.unable k .link)

/-- A warp with another link number. -/
def setLink (k : CellKind) (n : Option Int) : Except CellFault CellKind :=
  match k with
  | .warp w => .ok (.warp { w with link := n })
  | _ => .error (.unable k .relink)

/-- Where a warp leads. -/
def target (k : CellKind) : Except CellFault (Option Pos) :=
  match k with
  | .warp w => if w.role.isReturn then .error .targetUnknown else .ok w.target
  | _ => .error (.unable k .lead)

/-- A warp that leads elsewhere. -/
def setTarget (k : CellKind) (p : Pos) : Except CellFault CellKind :=
  match k with
  | .warp w =>
    if w.role.isReturn then .error .targetFixed else .ok (.warp { w with target := some p })
  | _ => .error (.unable k .redirect)

end CellKind

/-- The text of a fault. -/
def CellFault.message : CellFault → String
  | .unable kind a => "'" ++ kind.label ++ "' object has no attribute '" ++ a.label ++ "'"
  | .targetUnknown => "SingletonLibReturnWarpChar: unknown destination; use the stack!"
  | .targetFixed => "SingletonLibReturnWarpChar: cannot set destination; use the stack!"

/-- A character of the drawing and what it stands for. -/
structure Cell where
  glyph : Char
  kind : CellKind := .plain
  deriving DecidableEq, Repr

namespace Cell

instance : Inhabited Cell := ⟨⟨' ', .plain⟩⟩

def isBlank (c : Cell) : Bool := c.glyph == ' '

end Cell

end DotPaths
