import DotPaths.Console.Serve
import DotPaths.Operator

/-! # The scene

    Everything that changes while a program runs: the dots, in the order in
    which they take their turns, and the console.  An action on the scene may
    stop the run; what it did before it stopped stays done.
-/

namespace DotPaths

/-- The dots and the console. -/
structure Scene where
  /-- The dots, in the order of their turns. -/
  dots : List Dot
  console : Console
  /-- The dots at the first ticks, the last of these ticks first. -/
  trace : List (List Dot) := []
  /-- How many further ticks are traced. -/
  traceLeft : Nat := 0

/-- Doing something in a scene. -/
abbrev Act := EStateM Stop Scene

namespace Scene

/-- Stop with a fault. -/
def fail {α : Type} (f : Fault) : Act α := throw (.fault f)

/-- Bring a failing computation into an action. -/
def orFail {α : Type} : Except Fault α → Act α
  | .ok a => pure a
  | .error f => fail f

/-- Do something with the console of a scene. -/
def onConsole {α : Type} (a : ConsoleAct α) : Act α := fun s =>
  match a s.console with
  | .ok x c => .ok x { s with console := c }
  | .error e c => .error e { s with console := c }

/-- The dot with a number. -/
def dotAt (i : Nat) : Act Dot := do
  match (← get).dots[i]? with
  | some d => pure d
  | none => fail (.noSuchDot .outOfRange)

/-- The number of the dot that an index stands for. -/
def dotNumber (i : Int) : Act Nat := do
  match Index.resolve (← get).dots.length i with
  | .ok n => pure n
  | .error f => fail (.noSuchDot f)

/-- Replace the dot with a number. -/
def setDot (i : Nat) (d : Dot) : Act Unit :=
  modify fun s => { s with dots := s.dots.set i d }

/-- Add dots, whose turns come after all others. -/
def addDots (new : List Dot) : Act Unit :=
  modify fun s => { s with dots := s.dots ++ new }

/-- Where the dots are that are alive. -/
def positions (dots : List Dot) : List Pos :=
  (dots.filter fun d => !d.isDead).map Dot.pos

/-- Does this console count ticks? -/
def isCounted (c : Console) : Bool :=
  match c.service with
  | .bare => false
  | _ => true

/-- Keep the dots of a tick, as long as ticks are traced. -/
def traceTick : Act Unit :=
  modify fun s =>
    if isCounted s.console && 0 < s.traceLeft then
      { s with trace := s.dots :: s.trace, traceLeft := s.traceLeft - 1 }
    else s

/-- A step is over. -/
def tick (w : World) : Act Unit := do
  traceTick
  let s ← get
  onConsole (Console.tick w (positions s.dots))

end Scene

end DotPaths
