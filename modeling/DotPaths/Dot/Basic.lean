import DotPaths.Dot.Phase
import DotPaths.Number.Text
import DotPaths.World.Basic

/-! # Dots

    A dot stands on a cell, faces a direction and carries a value and an id.
    It remembers the library entrances that it went in by.
-/

namespace DotPaths

/-- A dot. -/
structure Dot where
  pos : Pos
  /-- Where the dot was made. -/
  spawn : Pos
  dir : Pos
  value : Number := .int 0
  id : Number := .int 0
  phase : Phase := .travel
  /-- The entrances that the dot went in by and not yet out of, the last one
      first. -/
  stack : List Pos := []
  deriving DecidableEq

namespace Dot

/-- One cell on. -/
def move (d : Dot) : Dot := { d with pos := d.pos + d.dir }

def die (d : Dot) : Dot := { d with phase := .dead }

def isDead (d : Dot) : Bool := d.phase.isDead

@[simp] theorem move_pos (d : Dot) : d.move.pos = d.pos + d.dir := rfl
@[simp] theorem move_dir (d : Dot) : d.move.dir = d.dir := rfl
@[simp] theorem move_value (d : Dot) : d.move.value = d.value := rfl
@[simp] theorem move_id (d : Dot) : d.move.id = d.id := rfl
@[simp] theorem move_phase (d : Dot) : d.move.phase = d.phase := rfl
@[simp] theorem move_stack (d : Dot) : d.move.stack = d.stack := rfl

/-- A dot in words.  It has none when a number has no text. -/
def describe (d : Dot) : Except ArithFault String := do
  let id ← d.id.text
  let value ← d.value.text
  let stack := ", ".intercalate (d.stack.reverse.map Pos.pair)
  pure ("<Dot spawn_pos=" ++ d.spawn.label ++ " pos=" ++ d.pos.label ++ ", id=" ++ id ++
    ", value=" ++ value ++ ", dir=" ++ d.dir.label ++ ", stack=[" ++ stack ++ "]>")

/-- A dot that starts out as this one, one cell further in another direction.
    A zero of any kind becomes the integer zero. -/
def branch (d : Dot) (dir : Pos) : Dot :=
  { pos := d.pos + dir, spawn := d.pos, dir := dir, value := d.value.orZero, id := d.id.orZero,
    phase := .travel, stack := d.stack }

/-- Can a dot set out over this cell in this direction? -/
def leads (c : Cell) (dir : Pos) : Bool :=
  (dir.isVertical && c.glyph == '|') || (dir.isHorizontal && c.glyph == '-') ||
    "\\/*^v><+".toList.contains c.glyph

/-- The direction that a new dot sets out in: the first one with a path. -/
def findDirection? (w : World) (p : Pos) : Option Pos :=
  Pos.directions.find? fun dir => (w.cell? (p + dir)).any (leads · dir)

end Dot

end DotPaths
