import DotPaths.Dot.Basic
import DotPaths.Text.Digit

/-! # Choosing a phase

    At the beginning of its turn a dot looks at the cell that it stands on and
    chooses the phase in which it will act there.
-/

namespace DotPaths.Dot

/-- Is the character a bracket of an operator? -/
def isBracket (c : Char) : Bool :=
  c == '[' || c == ']' || c == '\x7b' || c == '\x7d'

/-- The phase of a travelling dot on a cell. -/
def travelPhase (d : Dot) (c : Cell) : Phase :=
  if c.glyph == ' ' then .dead
  else if c.glyph == '&' && !c.kind.isOperator then .exit
  else if c.glyph == '~' then .meet (.start .switch d.dir false)
  else if c.glyph == '#' then .value {}
  else if c.glyph == '@' then .ident {}
  else if c.glyph == '$' then .print {}
  else if isBracket c.glyph && d.dir.isVertical then .dead
  else if c.kind.bracket? == some .square then .meet (.start .square d.dir false)
  else if c.kind.bracket? == some .curly then .meet (.start .curly d.dir false)
  else if c.glyph == '-' && d.dir.isVertical then .dead
  else if c.glyph == '|' && d.dir.isHorizontal then .dead
  else if c.glyph == ':' && d.value.equalsInt 0 then .dead
  else if c.glyph == ';' && d.value.equalsInt 1 then .dead
  else .travel

/-- Does the cell belong to a number that is being taken up? -/
def continuesEntry (c : Cell) : Bool :=
  Text.isDigit c.glyph || c.glyph == 'a' || c.glyph == '?'

/-- The phase of a dot that is taking up an id.  Until a digit was read, the
    sign that began it also turns operators, switches and filters to the id. -/
def identPhase (d : Dot) (e : Entry) (c : Cell) : Phase :=
  if continuesEntry c then .ident e
  else if e.started then d.travelPhase c
  else if isBracket c.glyph then
    if d.dir.isVertical then .dead else .ident e
  else if c.kind.bracket? == some .square then .meet (.start .square d.dir true)
  else if c.kind.bracket? == some .curly then .meet (.start .curly d.dir true)
  else if c.glyph == '~' then .meet (.start .switch d.dir true)
  else if c.glyph == ':' then if d.id.equalsInt 0 then .dead else .ident e
  else if c.glyph == ';' then if d.id.equalsInt 1 then .dead else .ident e
  else d.travelPhase c

/-- Does the cell belong to the printing of a number? -/
def continuesPrinting (c : Cell) : Bool :=
  c.glyph == '$' || c.glyph == '_' || c.glyph == 'a' || c.glyph == '#' || c.glyph == '@'

/-- The phase of a dot that is printing. -/
def printPhase (d : Dot) (p : Printing) (c : Cell) : Phase :=
  if p.done then d.travelPhase c
  else if continuesPrinting c then .print p
  else if c.glyph == ' ' then .dead
  else if c.glyph == '\x22' then .quote { mark := .double, newline := p.newline }
  else if c.glyph == '\x27' then .quote { mark := .single, newline := p.newline }
  else d.travelPhase c

/-- The phase in which a dot will act on a cell. -/
def choose (d : Dot) (c : Cell) : Except Stop Phase :=
  match d.phase with
  | .blank => .error (.fault .cannotChoose)
  | .travel => .ok (d.travelPhase c)
  | .value e => .ok (if continuesEntry c then .value e else d.travelPhase c)
  | .ident e => .ok (d.identPhase e c)
  | .print p => .ok (d.printPhase p c)
  | .quote q => .ok (if q.done then d.travelPhase c else .quote q)
  | .meet m => .ok (.meet m)
  | .dead => .ok .dead
  | .exit => .error .exit

end DotPaths.Dot
