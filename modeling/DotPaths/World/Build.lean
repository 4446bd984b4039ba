import DotPaths.Folder
import DotPaths.World.Basic

/-! # Building a world

    A file is read into cells, its warps are numbered, and each library that it
    uses is read the same way and appended.  In the whole drawing operators are
    recognised, warps with the same number are connected, and the starting
    points are marked.

    Numbers are given out in one count for all files, so a letter of one file
    never meets the same letter of another.
-/

namespace DotPaths.World

/-- Building counts the link numbers given out. -/
abbrev Builder := EStateM DrawingFault Int

/-- The rows of one file. -/
abbrev Block := List (List Cell)

/-- Give out the next `n` link numbers; the first of them is returned. -/
def takeLinks (n : Nat) : Builder Int := do
  let first ← get
  set (first + n)
  pure first

/-- Bring a failing computation into a building. -/
def orFail {α : Type} : Except DrawingFault α → Builder α
  | .ok a => pure a
  | .error f => throw f

/-! ## Warps of one file -/

/-- Cells with one of the letters become warps. -/
def markLetters (letters : List Char) (rows : Block) : Block :=
  rows.map (·.map fun c =>
    if letters.contains c.glyph then { c with kind := .warp ⟨.letter, none, none⟩ } else c)

/-- Is it a warp without a number? -/
def isUnnumbered (c : Cell) : Bool :=
  c.kind.warp?.any (·.link.isNone)

/-- A warp without a number takes the one given, if there is one. -/
def number (linkFor : Char → Option Int) (c : Cell) : Cell :=
  match c.kind with
  | .warp w =>
    if w.link.isNone then { c with kind := .warp { w with link := linkFor c.glyph } } else c
  | _ => c

/-- Warps without a number are numbered: one number for each letter, in the
    order in which the letters occur. -/
def numberLetters (rows : Block) : Builder Block := do
  let letters := ((rows.flatten.filter isUnnumbered).map Cell.glyph).eraseDups
  let first ← takeLinks letters.length
  pure (rows.map (·.map (number fun c => some (first + letters.idxOf c))))

/-- Cells with an alias become the entrances of libraries, but not in
    directives. -/
def markAliases (names : List (List Char × String)) (rows : Block) : Block :=
  rows.map fun row =>
    if isDirective row then row
    else row.map fun c =>
      if (libraryFor? names c.glyph).isSome then { c with kind := .warp ⟨.entrance, none, none⟩ }
      else c

/-! ## Importing -/

/-- What has come of going through the rows of a file so far. -/
structure Importing where
  /-- The numbers that aliases have been given, in the order in which they were met. -/
  numbers : List (Char × Int) := []
  /-- The blocks that have been appended and not been gone through. -/
  appended : List Block := []

/-- Going through the rows of a file, to which libraries are appended meanwhile. -/
abbrev Importer := StateT Importing Builder

/-- Go through a cell.  A library warp without a number takes the one of its
    alias; if the alias has none yet, it takes the next one, and the library is
    read with it and appended. -/
def importCell (names : List (List Char × String)) (load : Int → String → Builder (List Block))
    (c : Cell) : Importer Cell := do
  if c.kind.isLibraryWarp && isUnnumbered c then
    match (← get).numbers.lookup c.glyph with
    | some link => pure (number (fun _ => some link) c)
    | none =>
      let link ← takeLinks 1
      if c.kind.isRememberedWarp then
        modify fun s => { s with numbers := s.numbers ++ [(c.glyph, link)] }
      if let some name := libraryFor? names c.glyph then
        let blocks ← load link name
        modify fun s => { s with appended := s.appended ++ blocks }
      pure (number (fun _ => some link) c)
  else pure c

/-- Go through the rows of a block, but not through directives. -/
def importRows (names : List (List Char × String)) (load : Int → String → Builder (List Block))
    (rows : Block) : Importer Block :=
  rows.mapM fun row => if isDirective row then pure row else row.mapM (importCell names load)

/-- Go through some blocks, then through those that have been appended meanwhile,
    and so on to the end.  The first argument bounds how often blocks may have
    been appended. -/
def importBlocks (names : List (List Char × String)) (load : Int → String → Builder (List Block)) :
    Nat → List Block → Importer (List Block)
  | 0, _ => throw .endlessImport
  | rounds + 1, blocks => do
    let blocks ← blocks.mapM (importRows names load)
    let more := (← get).appended
    if more.isEmpty then pure blocks
    else
      modify fun s => { s with appended := [] }
      let others ← importBlocks names load rounds more
      pure (blocks ++ others)

/-- Number a file and everything that it imports: its own rows come first, then
    those that are appended. -/
def expandWith (rounds : Nat) (load : Int → String → Builder (List Block)) (rows : Block) :
    Builder (List Block) := do
  let texts := rows.map glyphs
  let rows ← numberLetters (markLetters (warpLetters texts) rows)
  let names ← orFail (aliases texts)
  (importBlocks names load rounds [markAliases names rows]).run' {}

/-- The cells of a library whose exposed character has the given link. -/
def openLibrary (shelf : Shelf) (role : WarpRole) (link : Option Int) (name : String) :
    Builder Block :=
  match shelf.text? name with
  | some text => orFail (exposedRows role link none (rowsOf text))
  | none => throw (.missingLibrary name)

/-- Expand a file.  The first argument bounds the length of a chain of files
    that import each other, and how often a file may get longer: a chain longer
    than the number of files comes back to one of them and has no end. -/
def expand (shelf : Shelf) : Nat → Block → Builder (List Block)
  | 0 => expandWith 1 fun _ name =>
    if (shelf.text? name).isSome then throw .endlessImport else throw (.missingLibrary name)
  | n + 1 => expandWith (n + 2) fun link name => do
    let rows ← openLibrary shelf .exposed (some link) name
    expand shelf n rows

/-! ## The whole drawing -/

/-- A character between two brackets becomes an operator; `before` is the
    character in front of the cells. -/
def markOperators : Option Char → List Cell → List Cell
  | _, [] => []
  | before, c :: cs =>
    let bracket : Option Bracket :=
      match before, cs.head?.map Cell.glyph with
      | some '\x7b', some '\x7d' => some .curly
      | some '[', some ']' => some .square
      | _, _ => none
    let c' := if bracket.isSome then { c with kind := .operator bracket } else c
    c' :: markOperators (some c.glyph) cs

/-- The warps of the rows that are no directives, with their positions. -/
def warps (rows : List (List Cell)) : List (Pos × Warp) :=
  (locatedOpen rows).filterMap fun (p, c) => c.kind.warp?.map (p, ·)

/-- Where a warp leads: to the first other warp with its number; from an
    entrance, to the first exposed cell. -/
def companion? (all : List (Pos × Warp)) (p : Pos) (w : Warp) : Option Pos :=
  (all.find? fun (q, v) =>
    v.link == w.link && q != p && (w.role != .entrance || v.role == .exposed)).map (·.1)

/-- Connect one cell.  Exposed cells lead nowhere of their own. -/
def connectCell (all : List (Pos × Warp)) (p : Pos) (c : Cell) : Cell :=
  match c.kind with
  | .warp w =>
    if w.role == .exposed then c
    else
      match companion? all p w with
      | some q => { c with kind := .warp { w with target := some q } }
      | none => c
  | _ => c

/-- Connect the warps with each other. -/
def connect (rows : List (List Cell)) : List (List Cell) :=
  let all := warps rows
  rows.zipIdx.map fun (row, y) =>
    if isDirective row then row
    else row.zipIdx.map fun (c, x) => connectCell all ⟨(x : Int), (y : Int)⟩ c

/-- The dots of a row become starting points, up to its second backtick;
    `seen` says that there was one already. -/
def markStarts : Bool → List Cell → List Cell
  | _, [] => []
  | seen, c :: cs =>
    if c.glyph == '\x60' then
      if seen then c :: cs else c :: markStarts true cs
    else if c.glyph == '.' then { c with kind := .start } :: markStarts seen cs
    else c :: markStarts seen cs

/-- Recognise operators, connect warps and mark starting points. -/
def finish (rows : List (List Cell)) : List (List Cell) :=
  (connect (rows.map (markOperators none))).map (markStarts false)

/-- Build the world of a program. -/
def build (shelf : Shelf) (program : String) : Except DrawingFault World :=
  match expand shelf shelf.size ((rowsOf program.toList).map plainRow) 0 with
  | .ok blocks next => .ok ⟨finish blocks.flatten, next⟩
  | .error f _ => .error f

/-- Append a library by hand, with a link of its own or without one.  Numbers that were given
    out before a fault stay given out. -/
def addLibrary (w : World) (shelf : Shelf) (name : String) (link : Option Int) (remembered : Bool) :
    World × Option DrawingFault :=
  let load : Builder (List Block) := do
    let rows ← openLibrary shelf (if remembered then .exposed else .shared) link name
    expand shelf shelf.size rows
  match load w.nextLink with
  | .ok blocks next => (⟨connect (w.rows ++ blocks.flatten), next⟩, none)
  | .error f next => (⟨w.rows, next⟩, some f)

end DotPaths.World
