import DotPaths.Proofs.Imports

/-! # Links

    Every link number is given out for one purpose: for the cells of one text
    with the same letter, or for the way into one library.  A register lists the
    purposes in the order of the numbers, so a number is read off as a place in
    the register.  The register is kept for the proofs only.

    The cells that matter are those of the rows that are no directives.  What is
    done to them on the way to the finished drawing is done cell by cell, and the
    characters stay as they are.
-/

namespace DotPaths.World

/-! ## What numbers are for -/

/-- What a link number is given out for. -/
inductive Bond where
  /-- The cells with a letter in the text at a path. -/
  | letter (path : List Char) (glyph : Char)
  /-- The way into the library at a path, and out of it again. -/
  | library (path : List Char)
  deriving DecidableEq

/-- What the number of a warp must be for, by its role, its character and the
    text in which it stands.  Only a library is exposed, and no other role occurs
    in a program. -/
def bondOf? (path : List Char) (glyph : Char) : WarpRole → Option Bond
  | .letter => some (.letter path glyph)
  | .entrance => some (.library (path ++ [glyph]))
  | .exposed => if path = [] then none else some (.library path)
  | _ => none

/-- The path of the text that a bond belongs to. -/
def Bond.path : Bond → List Char
  | .letter path _ => path
  | .library path => path

/-- The bond belongs to the text at a path or to one that it imports, but it is
    not the way into the text itself. -/
def Bond.Within (path : List Char) (b : Bond) : Prop :=
  path <+: b.path ∧ b ≠ .library path

/-- In the text at a path, the number of the warp is given out for what it must
    be for. -/
def Linked (register : List Bond) (path : List Char) (glyph : Char) (v : Warp) : Prop :=
  ∃ (k : Nat) (b : Bond), v.link = some (k : Int) ∧ register[k]? = some b ∧
    bondOf? path glyph v.role = some b

namespace Linked

variable {register : List Bond} {path path' : List Char} {glyph glyph' : Char} {v v' : Warp}

/-- Numbers that have been given out stay given out. -/
theorem append (h : Linked register path glyph v) (more : List Bond) :
    Linked (register ++ more) path glyph v := by
  obtain ⟨k, b, hlink, hb, hbond⟩ := h
  have hk := (List.getElem?_eq_some_iff.mp hb).1
  exact ⟨k, b, hlink, (List.getElem?_append_left hk).trans hb, hbond⟩

theorem lt_length (h : Linked register path glyph v) :
    ∃ n : Int, v.link = some n ∧ 0 ≤ n ∧ n < register.length := by
  obtain ⟨k, b, hlink, hb, -⟩ := h
  have hk := (List.getElem?_eq_some_iff.mp hb).1
  exact ⟨k, hlink, by omega, by omega⟩

/-- If no purpose is listed twice, numbers are the same exactly if they must be
    for the same. -/
theorem link_eq_iff (h : Linked register path glyph v) (h' : Linked register path' glyph' v')
    (hnodup : register.Nodup) :
    v.link = v'.link ↔ bondOf? path glyph v.role = bondOf? path' glyph' v'.role := by
  obtain ⟨k, b, hlink, hb, hbond⟩ := h
  obtain ⟨k', b', hlink', hb', hbond'⟩ := h'
  rw [hlink, hlink', hbond, hbond', Option.some.injEq, Option.some.injEq, Int.natCast_inj]
  constructor
  · intro heq
    rw [heq] at hb
    exact Option.some.inj (hb.symm.trans hb')
  · intro heq
    have hk := (List.getElem?_eq_some_iff.mp hb).1
    rw [← heq] at hb'
    exact (List.getElem?_inj hk hnodup).mp (hb.trans hb'.symm)

end Linked

/-! ## Single cells -/

/-- A cell stays as it is when warps are numbered, or it is a warp that gets a
    number. -/
theorem number_cases (linkFor : Char → Option Int) (c : Cell) :
    number linkFor c = c ∨ ∃ v, c.kind = .warp v ∧
      number linkFor c = { c with kind := .warp { v with link := linkFor c.glyph } } := by
  unfold number
  split
  · next v hv =>
    split
    · exact .inr ⟨v, hv, rfl⟩
    · exact .inl rfl
  · exact .inl rfl

/-- A cell with one of the letters becomes a warp. -/
def markLetter (letters : List Char) (c : Cell) : Cell :=
  if letters.contains c.glyph then { c with kind := .warp ⟨.letter, none, none⟩ } else c

/-- A cell with an alias becomes an entrance. -/
def markAlias (names : List (List Char × String)) (c : Cell) : Cell :=
  if (libraryFor? names c.glyph).isSome then { c with kind := .warp ⟨.entrance, none, none⟩ } else c

theorem markLetter_glyph (letters : List Char) (c : Cell) :
    (markLetter letters c).glyph = c.glyph := by
  unfold markLetter
  split <;> rfl

theorem markAlias_glyph (names : List (List Char × String)) (c : Cell) :
    (markAlias names c).glyph = c.glyph := by
  unfold markAlias
  split <;> rfl

theorem number_glyph (linkFor : Char → Option Int) (c : Cell) :
    (number linkFor c).glyph = c.glyph := by
  rcases number_cases linkFor c with hsame | ⟨v, -, hnumber⟩
  · rw [hsame]
  · rw [hnumber]

/-- A cell that needs no number is left alone. -/
theorem number_eq_self (linkFor : Char → Option Int) {c : Cell} (h : isUnnumbered c = false) :
    number linkFor c = c := by
  unfold number
  unfold isUnnumbered at h
  split
  · next v hv =>
    rw [hv] at h
    have hsome : v.link.isNone = false := h
    rw [hsome, if_neg Bool.false_ne_true]
  · rfl

/-- A cell whose character has a number does not lack one any more. -/
theorem number_numbered {linkFor : Char → Option Int} {c : Cell}
    (h : (linkFor c.glyph).isSome = true) : isUnnumbered (number linkFor c) = false := by
  obtain ⟨link, hlink⟩ := Option.isSome_iff_exists.mp h
  cases hun : isUnnumbered c with
  | false =>
    rw [number_eq_self linkFor hun]
    exact hun
  | true =>
    unfold number
    split
    · next v hv =>
      unfold isUnnumbered at hun
      rw [hv] at hun
      have hnone : v.link.isNone = true := hun
      rw [if_pos hnone, hlink]
      rfl
    · next hother =>
      unfold isUnnumbered
      cases hkind : c.kind with
      | warp v => exact absurd hkind (hother v)
      | _ => rfl

/-! ## Cells of open rows -/

/-- The cells of the rows that are no directives. -/
def openCells (rows : Block) : List Cell :=
  (rows.filter fun row => !isDirective row).flatten

section openCells
variable {rows : Block} {f : Cell → Cell}

theorem isDirective_map (hf : ∀ c, (f c).glyph = c.glyph) (row : List Cell) :
    isDirective (row.map f) = isDirective row := by
  cases row with
  | nil => rfl
  | cons c row =>
    show ((f c).glyph == '%') = (c.glyph == '%')
    rw [hf c]

theorem glyphs_map (hf : ∀ c, (f c).glyph = c.glyph) (row : List Cell) :
    glyphs (row.map f) = glyphs row := by
  unfold glyphs
  rw [List.map_map]
  exact List.map_congr_left fun c _ => hf c

theorem openCells_cons (row : List Cell) (rows : Block) :
    openCells (row :: rows) = if isDirective row then openCells rows else row ++ openCells rows := by
  unfold openCells
  cases hrow : isDirective row with
  | true => simp [hrow]
  | false => simp [hrow]

/-- A change of all cells is a change of those in open rows. -/
theorem openCells_map (hf : ∀ c, (f c).glyph = c.glyph) :
    openCells (rows.map (·.map f)) = (openCells rows).map f := by
  induction rows with
  | nil => rfl
  | cons row rows ih =>
    rw [List.map_cons, openCells_cons, openCells_cons, isDirective_map hf, ih]
    split
    · rfl
    · rw [List.map_append]

theorem openCells_mapOpen (hf : ∀ c, (f c).glyph = c.glyph) :
    openCells (rows.map fun row => if isDirective row then row else row.map f) =
      (openCells rows).map f := by
  induction rows with
  | nil => rfl
  | cons row rows ih =>
    rw [List.map_cons, openCells_cons, openCells_cons, ih]
    by_cases hrow : isDirective row = true
    · rw [if_pos hrow, if_pos hrow, if_pos hrow]
    · rw [if_neg hrow, if_neg hrow, isDirective_map hf, if_neg hrow, List.map_append]

theorem markAliases_cells (names : List (List Char × String)) (rows : Block) :
    openCells (markAliases names rows) = (openCells rows).map (markAlias names) :=
  openCells_mapOpen (markAlias_glyph names)

theorem mem_openCells {c : Cell} :
    c ∈ openCells rows ↔ ∃ row ∈ rows, isDirective row = false ∧ c ∈ row := by
  unfold openCells
  simp only [List.mem_flatten, List.mem_filter, Bool.not_eq_true']
  constructor
  · intro ⟨row, ⟨hrow, hopen⟩, hc⟩
    exact ⟨row, hrow, hopen, hc⟩
  · intro ⟨row, hrow, hopen, hc⟩
    exact ⟨row, ⟨hrow, hopen⟩, hc⟩

theorem openCells_glyphs (rows : Block) :
    (openCells rows).map Cell.glyph =
      ((rows.map glyphs).filter fun row => !startsWithPercent row).flatten := by
  induction rows with
  | nil => rfl
  | cons row rows ih =>
    have hsame : startsWithPercent (glyphs row) = isDirective row := by
      cases row with
      | nil => rfl
      | cons c row => rfl
    rw [openCells_cons, List.map_cons, List.filter_cons, hsame]
    cases hrow : isDirective row with
    | true => simpa using ih
    | false =>
      simp only [Bool.not_false, if_true, Bool.false_eq_true, if_false, List.map_append,
        List.flatten_cons, ih]
      rfl

end openCells

end DotPaths.World
