import DotPaths.Machine.Turn

/-! # Ticks

    Two schedules.  In a parallel tick all dots choose, then all dots act, then
    the dead ones are taken away.  In a tick of the other schedule one dot
    after the other has its turn.
-/

namespace DotPaths.Machine

open Scene

/-- The dots without the dead ones among the first `n`. -/
def sweep (n : Nat) (dots : List Dot) : List Dot :=
  (dots.take n).filter (fun d => !d.isDead) ++ dots.drop n

/-- All dots choose. -/
def chooseAll (w : World) (n : Nat) : Act Unit :=
  (List.range n).forM (Turn.choose w)

/-- All dots act. -/
def actAll (w : World) (n : Nat) : Act Unit :=
  (List.range n).forM (Turn.act w)

/-- All dots move at once. -/
def parallelTick (w : World) : Act Unit := do
  let n := (← get).dots.length
  chooseAll w n
  actAll w n
  modify fun s => { s with dots := sweep n s.dots }
  tick w

/-- The turns of `n` dots from number `i` on, each taken away if it is dead
    after its turn. -/
def turns (w : World) (runsOn : Bool) : Nat → Nat → Act Unit
  | 0, _ => pure ()
  | n + 1, i => do
    Turn.simulate w runsOn i
    let d ← dotAt i
    if d.isDead then
      modify fun s => { s with dots := s.dots.eraseIdx i }
      turns w runsOn n i
    else turns w runsOn n (i + 1)

/-- One dot after the other has its turn. -/
def asyncTick (w : World) (runsOn : Bool) : Act Unit := do
  turns w runsOn (← get).dots.length 0

end DotPaths.Machine
