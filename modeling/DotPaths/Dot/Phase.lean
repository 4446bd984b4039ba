import DotPaths.Fault

/-! # Phases

    What a dot is about.  It travels along a path; it takes up a value or an id
    digit by digit; it prints; it waits for a second dot; or it is done.
-/

namespace DotPaths

/-- Taking up a value or an id. -/
structure Entry where
  /-- Has the dot left the cell where this began? -/
  entered : Bool := false
  /-- Has a digit been read? -/
  started : Bool := false
  /-- Is a character to be read as its code? -/
  byCode : Bool := false
  deriving DecidableEq, Repr

/-- Printing a value or an id. -/
structure Printing where
  /-- Has the dot left the cell where this began? -/
  entered : Bool := false
  /-- Does a newline follow? -/
  newline : Bool := true
  /-- Is the number printed as the character with this code? -/
  byCode : Bool := false
  /-- Has everything been printed? -/
  done : Bool := false
  deriving DecidableEq, Repr

/-- The marks around a text to print. -/
inductive Mark where
  /-- The text is printed at once, at its end. -/
  | double
  /-- Each character is printed as the dot passes. -/
  | single
  deriving DecidableEq, Repr

/-- Printing a text. -/
structure Quoting where
  mark : Mark
  /-- Has the dot left the cell where this began? -/
  entered : Bool := false
  /-- Does a newline follow? -/
  newline : Bool := true
  /-- Has everything been printed? -/
  done : Bool := false
  /-- The text between double marks, as far as it was read. -/
  buffer : List Char := []
  deriving DecidableEq, Repr

/-- What two dots meet for. -/
inductive Purpose where
  /-- Nothing in particular. -/
  | none
  /-- An operation between square brackets. -/
  | square
  /-- An operation between curly brackets. -/
  | curly
  /-- A switch, where one dot turns the other aside. -/
  | switch
  deriving DecidableEq, Repr

/-- Waiting for a second dot. -/
structure Meeting where
  purpose : Purpose
  /-- Does this dot go on after the meeting? -/
  master : Bool
  /-- Does the dot take part with its id in place of its value? -/
  onId : Bool := false
  /-- For how many turns the dot has waited. -/
  age : Nat := 0
  deriving DecidableEq, Repr

/-- The phase of a dot. -/
inductive Phase where
  /-- No phase at all. -/
  | blank
  | travel
  | value (e : Entry)
  | ident (e : Entry)
  | print (p : Printing)
  | quote (q : Quoting)
  | meet (m : Meeting)
  | dead
  | exit
  deriving DecidableEq, Repr

namespace Purpose

/-- Does a dot with this direction go on after the meeting?  At square
    brackets it is the dot that moves vertically, elsewhere the one that moves
    horizontally. -/
def isMaster (p : Purpose) (dir : Pos) : Bool :=
  match p with
  | .none => true
  | .square => dir.isVertical
  | .curly => dir.isHorizontal
  | .switch => dir.isHorizontal

end Purpose

/-- A meeting that a dot with this direction has just come to. -/
def Meeting.start (p : Purpose) (dir : Pos) (onId : Bool) : Meeting :=
  { purpose := p, master := p.isMaster dir, onId := onId }

namespace Phase

def isDead : Phase → Bool
  | .dead => true
  | _ => false

/-- May the dot stand on a blank cell? -/
def isPrinting : Phase → Bool
  | .print _ | .quote _ => true
  | _ => false

/-- The meeting that the dot waits at. -/
def meeting? : Phase → Option Meeting
  | .meet m => some m
  | _ => none

/-- Does the dot wait for another one? -/
def isWaiting (p : Phase) : Bool := p.meeting?.isSome

/-- The phase from its beginning, for a dot that is just being made and has no
    direction yet. -/
def renewed : Phase → Except Fault Phase
  | .value _ => .ok (.value {})
  | .ident _ => .ok (.ident {})
  | .print _ => .ok (.print {})
  | .quote q => .ok (.quote { mark := q.mark })
  | .meet m => if m.purpose = .none then .error (.unmastered false) else .error .undirected
  | p => .ok p

end Phase

end DotPaths
