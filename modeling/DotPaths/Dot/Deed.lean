import DotPaths.Dot.Choice
import DotPaths.Number.Arith

/-! # What a dot does

    In its turn a dot acts on the cell that it stands on, according to its
    phase.  The deed is computed from the dot and the cell alone; what it means
    for the other dots and for the console is said where it is performed.
-/

namespace DotPaths

/-- Something to print. -/
inductive Payload where
  | text (t : CodeText)
  /-- A number whose text is made by the console. -/
  | number (n : Number)
  deriving DecidableEq

/-- The text to print. -/
def Payload.render : Payload → Except ArithFault CodeText
  | .text t => .ok t
  | .number n => n.text.map CodeText.ofString

/-- What a dot does in its turn. -/
inductive Deed where
  /-- The dot becomes `d`. -/
  | become (d : Dot)
  /-- Print; the dot is `before` while this lasts and `after` from then on. -/
  | print (p : Payload) (before after : Dot)
  /-- Read a number, or the code of a character, and become what follows. -/
  | read (byCode : Bool) (after : Int → Dot)
  /-- New dots set out, and the dot becomes `d`. -/
  | branch (new : List Dot) (d : Dot)
  /-- Try to meet another dot. -/
  | meet (m : Meeting)
  /-- The dot becomes `d` and the run stops. -/
  | stop (d : Dot) (why : Stop)

namespace Number

/-- The number as a character code. -/
def toCode : Number → Except ArithFault Nat
  | .int n =>
    if n < -2147483648 || 2147483648 ≤ n then .error .codeTooWide
    else if n < 0 || 0x110000 ≤ n then .error .codeOutOfRange
    else .ok n.toNat
  | a => .error (.notWhole a.kind)

/-- The number with one more decimal digit at its end. -/
def appendDigit (a : Number) (digit : Nat) : Number :=
  match (a.mul (.int 10)).bind fun b => b.add (.int digit) with
  | .ok b => b
  | .error _ => a

@[simp] theorem appendDigit_int (n : Int) (digit : Nat) :
    appendDigit (.int n) digit = .int (n * 10 + digit) := rfl

end Number

namespace Dot

/-! ## Travelling -/

/-- The direction after a slanted wall or an arrow. -/
def turn (c : Cell) (dir : Pos) : Pos :=
  if c.glyph == '\\' then ⟨dir.y, dir.x⟩
  else if c.glyph == '/' then ⟨-dir.y, -dir.x⟩
  else if c.glyph == '(' then .right
  else if c.glyph == ')' then .left
  else if c.glyph == '>' && dir.isVertical then .right
  else if c.glyph == '<' && dir.isVertical then .left
  else if c.glyph == '^' && dir.isHorizontal then .up
  else if c.glyph == 'v' && dir.isHorizontal then .down
  else dir

/-- Does the cell act on the direction of this dot? -/
def isTurn (c : Cell) (dir : Pos) : Bool :=
  c.glyph == '\\' || c.glyph == '/' || c.glyph == '(' || c.glyph == ')' ||
    (c.glyph == '>' && dir.isVertical) || (c.glyph == '<' && dir.isVertical) ||
    (c.glyph == '^' && dir.isHorizontal) || (c.glyph == 'v' && dir.isHorizontal)

/-- The dots that set out at a crossing: one for each direction that is neither
    the dot's own nor the opposite one and has a cell that is not blank. -/
def branches (w : World) (d : Dot) : List Dot :=
  (Pos.directions.filter fun dir =>
    dir != d.dir && -dir != d.dir && (w.cell? (d.pos + dir)).any fun c => !c.isBlank).map d.branch

/-- A dot goes out of a library by the entrance that it came in by last. -/
def leave (d : Dot) : Deed :=
  match d.stack with
  | [] =>
    match d.describe with
    | .ok s => .stop d (.fault (.neverEntered s))
    | .error f => .stop d (.fault (.arith f))
  | p :: stack => .become { d with pos := p, stack := stack }.move

/-- A dot passes through a warp, and remembers it if it is an entrance. -/
def warpThrough (d : Dot) (c : Cell) (w : Warp) : Deed :=
  let d' := if w.role.isRemembered then { d with stack := d.pos :: d.stack } else d
  match c.kind.target with
  | .error f => .stop d' (.fault (.cell f))
  | .ok none => .stop d' (.fault (.noDestination c.glyph))
  | .ok (some p) => .become { d' with pos := p }.move

/-- What a travelling dot does. -/
def travelDeed (w : World) (d : Dot) (c : Cell) : Deed :=
  if isTurn c d.dir then .become { d with dir := turn c d.dir }.move
  else if c.glyph == '*' then .branch (d.branches w) d.move
  else
    match c.kind.warp? with
    | some v => if v.role == .exposed then d.leave else d.warpThrough c v
    | none => .become d.move

/-! ## Taking up numbers -/

/-- A number with a digit read: the first one replaces what was there. -/
def takeDigit (e : Entry) (a : Number) (digit : Nat) : Number :=
  if e.started then a.appendDigit digit else .int digit

/-- What a dot does that is taking up a number: `set` puts the number in its
    place, `a` is the number there now, and `phase` wraps the progress. -/
def entryDeed (d : Dot) (c : Cell) (e : Entry) (a : Number) (set : Dot → Number → Dot)
    (phase : Entry → Phase) : Deed :=
  if !e.entered then .become { d with phase := phase { e with entered := true } }.move
  else
    match Text.digitValue? c.glyph with
    | some digit =>
      .become { set d (takeDigit e a digit) with phase := phase { e with started := true } }.move
    | none =>
      if c.glyph == 'a' then .become { d with phase := phase { e with byCode := true } }.move
      else if c.glyph == '?' then .read e.byCode fun n => (set d (.int n)).move
      else .become d.move

/-! ## Printing -/

/-- What is printed for a number. -/
def printed (p : Printing) (a : Number) : Except ArithFault Payload :=
  let newline := if p.newline then "\n" else ""
  if p.byCode then do
    let code ← a.toCode
    pure (.text (CodePoint.ofCode code :: newline))
  else if p.newline then do
    let s ← a.text
    pure (.text (s ++ newline : String))
  else .ok (.number a)

/-- Print a number and be done. -/
def printNumber (d : Dot) (p : Printing) (a : Number) : Deed :=
  match printed p a with
  | .ok payload => .print payload d { d with phase := .print { p with done := true } }.move
  | .error f => .stop d (.fault (.arith f))

/-- What a dot does that is printing. -/
def printDeed (d : Dot) (c : Cell) (p : Printing) : Deed :=
  if !p.entered then .become { d with phase := .print { p with entered := true } }.move
  else if c.glyph == '_' then .become { d with phase := .print { p with newline := false } }.move
  else if c.glyph == 'a' then .become { d with phase := .print { p with byCode := true } }.move
  else if c.glyph == '#' then d.printNumber p d.value
  else if c.glyph == '@' then d.printNumber p d.id
  else .become d.move

/-- What a dot does between double marks: it collects the text, and prints it
    at the closing mark. -/
def doubleDeed (d : Dot) (c : Cell) (q : Quoting) : Deed :=
  if c.glyph == '\x22' then
    let buffer := if q.newline then q.buffer ++ ['\n'] else q.buffer
    .print (.text (String.ofList buffer)) { d with phase := .quote { q with buffer := buffer } }
      { d with phase := .quote { q with buffer := buffer, done := true } }.move
  else .become { d with phase := .quote { q with buffer := q.buffer ++ [c.glyph] } }.move

/-- What a dot does between single marks: it prints each character as it
    passes, and a newline at the closing mark. -/
def singleDeed (d : Dot) (c : Cell) (q : Quoting) : Deed :=
  if c.glyph == '\x27' then
    let after := { d with phase := .quote { q with done := true } }.move
    if q.newline then .print (.text "\n") d after else .become after
  else .print (.text (String.singleton c.glyph)) d d.move

/-- What a dot does that is printing a text. -/
def quoteDeed (d : Dot) (c : Cell) (q : Quoting) : Deed :=
  if !q.entered then .become { d with phase := .quote { q with entered := true } }.move
  else
    match q.mark with
    | .double => d.doubleDeed c q
    | .single => d.singleDeed c q

/-! ## All phases -/

/-- What a dot does on a cell. -/
def deed (w : World) (d : Dot) (c : Cell) : Deed :=
  match d.phase with
  | .blank => .stop d (.fault .cannotAct)
  | .travel => d.travelDeed w c
  | .value e => d.entryDeed c e d.value (fun d n => { d with value := n }) .value
  | .ident e => d.entryDeed c e d.id (fun d n => { d with id := n }) .ident
  | .print p => d.printDeed c p
  | .quote q => d.quoteDeed c q
  | .meet m => .meet m
  | .dead => .become d
  | .exit => .stop d .exit

end Dot

end DotPaths
