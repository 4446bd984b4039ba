import DotPaths.Machine.Scene

/-! # Meetings

    Dots that wait on the same cell meet in pairs.  The master that has waited
    longest meets the other dot that has waited longest; of several that waited
    equally long, the first.  The master goes on, the other one is gone.
-/

namespace DotPaths

namespace Dot

/-- How long a dot has waited at a position in a role, if it waits there. -/
def waitingAge? (p : Pos) (master : Bool) (d : Dot) : Option Nat :=
  match d.phase.meeting? with
  | some m => if d.pos = p ∧ m.master = master then some m.age else none
  | none => none

/-- The number with which a dot takes part in a meeting. -/
def stake (d : Dot) (m : Meeting) : Number :=
  if m.onId then d.id else d.value

/-- A dot with a new number in place of the one that it took part with. -/
def setStake (d : Dot) (m : Meeting) (n : Number) : Dot :=
  if m.onId then { d with id := n } else { d with value := n }

end Dot

namespace Meeting

/-- The better of two candidates: one that waits longer, or else the earlier
    one. -/
def older (best : Option (Nat × Nat)) (i age : Nat) : Option (Nat × Nat) :=
  match best with
  | some (j, a) => if a < age then some (i, age) else some (j, a)
  | none => some (i, age)

/-- The number and age of the dot that has waited longest at a position in a
    role; `i` is the number of the first dot of the list. -/
def oldestFrom (p : Pos) (master : Bool) :
    Nat → Option (Nat × Nat) → List Dot → Option (Nat × Nat)
  | _, best, [] => best
  | i, best, d :: ds =>
    match d.waitingAge? p master with
    | some age => oldestFrom p master (i + 1) (older best i age) ds
    | none => oldestFrom p master (i + 1) best ds

/-- The number of the dot that has waited longest at a position in a role. -/
def oldest? (p : Pos) (master : Bool) (dots : List Dot) : Option Nat :=
  (oldestFrom p master 0 none dots).map (·.1)

/-- What becomes of the master of a meeting, before it goes on. -/
def outcome (m : Meeting) (c : Cell) (master : Dot) (other : Number) : Except Fault Dot :=
  match m.purpose with
  | .none => .error .nothingToDo
  | .switch => .ok (if other.isZero then master else { master with dir := .up })
  | .square | .curly =>
    if c.kind.isOperator then
      match Operator.calculate (String.singleton c.glyph) (master.stake m) other with
      | .ok a => .ok (master.setStake m a.toNumber)
      | .error f => .error (.arith f)
    else .error (.cell (.unable c.kind .calculate))

/-- The turn of the waiting dot with number `i`.  It meets another dot when it
    is the master whose turn it is; otherwise it waits on. -/
def perform (c : Cell) (i : Nat) (m : Meeting) : Act Unit := do
  let d ← Scene.dotAt i
  let dots := (← get).dots
  let partner := if m.master then oldest? d.pos false dots else none
  match partner with
  | some j =>
    if oldest? d.pos true dots = some i then
      let other ← Scene.dotAt j
      let stake :=
        match other.phase.meeting? with
        | some n => other.stake n
        | none => other.value
      let d' ← Scene.orFail (m.outcome c d stake)
      Scene.setDot j other.die
      Scene.setDot i { d' with phase := .travel }.move
    else Scene.setDot i { d with phase := .meet { m with age := m.age + 1 } }
  | none => Scene.setDot i { d with phase := .meet { m with age := m.age + 1 } }

end Meeting

end DotPaths
