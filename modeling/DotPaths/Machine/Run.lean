import DotPaths.Machine.Tick
import DotPaths.World.Build

/-! # Running a program

    A machine is a world with the dots in it, and the schedule by which they
    move.  It runs until no dot is left or until something stops it; either
    way the console is told.
-/

namespace DotPaths

/-- A program that is running. -/
structure Machine where
  world : World
  /-- Do all dots move at once? -/
  parallel : Bool
  scene : Scene
  /-- Is the machine to stop before the next tick? -/
  shutdown : Bool := false

namespace Machine

open Scene

/-! ## New dots -/

/-- Put a new dot into the scene.  Without a direction it looks for a path; if
    there is none, this is reported, and the dot is dead. -/
def addDot (w : World) (d : Dot) (dir : Option Pos) : Act Unit := do
  let phase ← orFail d.phase.renewed
  let d := { d with value := d.value.orZero, id := d.id.orZero, phase := phase }
  match dir.orElse fun _ => Dot.findDirection? w d.pos with
  | some dir => addDots [{ d with dir := dir }]
  | none =>
    onConsole (Console.report ("dot cannot determine location...\nx: " ++ toString d.pos.x ++
      ", y: " ++ toString d.pos.y))
    addDots [{ d with dir := ⟨0, 0⟩ }.die]

/-- A dot that has just been made at a position. -/
def newDot (p : Pos) : Dot := { pos := p, spawn := p, dir := ⟨0, 0⟩ }

/-- Put a dot at every starting point, and no others. -/
def setUp (w : World) : Act Unit := do
  modify fun s => { s with dots := [] }
  w.starts.forM fun p => addDot w (newDot p) none

/-- Put a copy of the dot with number `i` into the scene. -/
def copyDot (w : World) (i : Nat) : Act Unit := do
  let d ← dotAt i
  addDot w { d with spawn := d.pos } (some d.dir)

/-! ## Machines -/

/-- Do something with the scene of a machine. -/
def perform {α : Type} (m : Machine) (a : Act α) : Machine × Except Stop α :=
  match a m.scene with
  | .ok x s => ({ m with scene := s }, .ok x)
  | .error e s => ({ m with scene := s }, .error e)

/-- A machine for a program, with its dots set up.  If that stops, the machine
    holds what was made so far. -/
def launch (shelf : Shelf) (program : String) (parallel : Bool) (console : Console)
    (traced : Nat) : Machine × Option Stop :=
  match World.build shelf program with
  | .error f =>
    let events :=
      if f.notice.isEmpty then console.events else .write f.notice :: console.events
    let scene : Scene := { dots := [], console := { console with events := events } }
    ({ world := default, parallel := parallel, scene := scene }, some (.fault (.drawing f)))
  | .ok w =>
    let scene : Scene := { dots := [], console := console, traceLeft := traced }
    let m : Machine := { world := w, parallel := parallel, scene := scene }
    match m.perform (setUp w) with
    | (m, .ok _) => (m, none)
    | (m, .error e) => (m, some e)

/-- One tick of the schedule. -/
def tickBy (w : World) (parallel : Bool) : Act Unit :=
  if parallel then parallelTick w else asyncTick w true

/-- Tick until no dot is left, at most `fuel` times.  Every run that comes to
    its end stops. -/
def loop (w : World) (parallel : Bool) : Nat → Act Unit
  | 0 => pure ()
  | fuel + 1 => do
    if (← get).dots.isEmpty then throw .exit
    tickBy w parallel
    loop w parallel fuel

/-- The ticks of a run, and none at all after a shutdown. -/
def body (m : Machine) (fuel : Nat) : Act Unit :=
  if m.shutdown then throw .exit else loop m.world m.parallel fuel

/-- Make the machine stop before the next tick. -/
def terminate (m : Machine) : Machine := { m with shutdown := true }

/-- Run for at most `fuel` ticks.  The second part says how the run stopped;
    it is `none` when it can go on. -/
def run (fuel : Nat) (m : Machine) : Machine × Option Stop :=
  match m.perform (m.body fuel) with
  | (m, .ok _) => (m, none)
  | (m, .error why) =>
    match m.terminate.perform (onConsole Console.finish) with
    | (m, .ok _) => (m, some why)
    | (m, .error why') => (m, some why')

end Machine

end DotPaths
