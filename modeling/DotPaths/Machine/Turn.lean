import DotPaths.Machine.Meeting

/-! # Turns

    The turn of one dot: it chooses a phase, and it acts.  A dot that leaves
    the drawing dies, and so does one that comes to a blank cell unless it is
    printing.
-/

namespace DotPaths

namespace Turn

open Scene

/-- Perform the deed of the dot with number `i` on the cell `c`. -/
def perform (c : Cell) (i : Nat) : Deed → Act Unit
  | .become d => setDot i d
  | .print p before after => do
    setDot i before
    onConsole (Console.output p)
    setDot i after
  | .read byCode after => do
    let n ← onConsole (Console.read byCode)
    setDot i (after n)
  | .branch new d => do
    addDots new
    setDot i d
  | .meet m => Meeting.perform c i m
  | .stop d why => do
    setDot i d
    throw why

/-- Does a dot die where it stands? -/
def isLost (w : World) (d : Dot) : Bool :=
  match w.cell? d.pos with
  | none => true
  | some c => c.isBlank && !d.phase.isPrinting

/-- The dot with number `i` chooses the phase in which it will act. -/
def choose (w : World) (i : Nat) : Act Unit := do
  let d ← dotAt i
  match w.cell? d.pos with
  | none => setDot i d.die
  | some c =>
    match d.choose c with
    | .error why => throw why
    | .ok phase =>
      setDot i { d with phase := if c.isBlank && !phase.isPrinting then .dead else phase }

/-- The dot with number `i` dies if it is lost. -/
def settle (w : World) (i : Nat) : Act Unit := do
  let d ← dotAt i
  if isLost w d then setDot i d.die

/-- The dot with number `i` acts. -/
def act (w : World) (i : Nat) : Act Unit := do
  let d ← dotAt i
  match w.cell? d.pos with
  | none => setDot i d.die
  | some c =>
    perform c i (d.deed w c)
    settle w i

/-- The dot with number `i` chooses and acts on the cell `c`.  The result says
    whether it can go on at once: it is alive and waits for nobody. -/
def step (w : World) (i : Nat) (c : Cell) : Act Bool := do
  let d ← dotAt i
  match d.choose c with
  | .error why => throw why
  | .ok phase => setDot i { d with phase := phase }
  let d ← dotAt i
  perform c i (d.deed w c)
  let d ← dotAt i
  if d.isDead then pure false
  else if isLost w d then
    setDot i d.die
    pure false
  else pure !d.phase.isWaiting

/-- The dot with number `i` takes steps until it dies, waits, or comes to a
    place where it has been before.  `fuel` bounds the number of steps. -/
def runOn (w : World) (i : Nat) : Nat → List Pos → Act Unit
  | 0, _ => pure ()
  | fuel + 1, past => do
    tick w
    let d ← dotAt i
    if past.contains d.pos then pure ()
    else
      match w.cell? d.pos with
      | none => setDot i d.die
      | some c =>
        if ← step w i c then runOn w i fuel (d.pos :: past)

/-- The dot with number `i` takes a single step. -/
def stepOnce (w : World) (i : Nat) : Act Unit := do
  let d ← dotAt i
  match w.cell? d.pos with
  | none => setDot i d.die
  | some c => discard (step w i c)

/-- The turn of the dot with number `i` when dots move one at a time: it runs
    on, or takes a single step.  A dot that runs on stands on another cell at
    each step, so one step more than there are cells is enough. -/
def simulate (w : World) (runsOn : Bool) (i : Nat) : Act Unit :=
  if runsOn then runOn w i (w.area + 1) [] else stepOnce w i

end Turn

end DotPaths
