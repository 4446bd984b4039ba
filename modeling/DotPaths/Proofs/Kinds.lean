import DotPaths.Proofs.Expansion

/-! # What the cells of a world stand for

    What a cell stands for is told by its text alone: by the character, by the
    row in which it stands, and by the directives of the file.  Here this is said
    as one rule with six cases, of which the first that applies counts, and
    every world that is built follows it.

    The passes that draw a file look at one cell at a time, and those that finish
    the drawing at one row.  So it is enough to follow what a pass makes of the
    looks of the cells: their characters and kinds, but not where warps lead.
-/

namespace DotPaths

/-- The kind without the number of a warp and without where it leads. -/
def CellKind.bare : CellKind → CellKind
  | .warp v => .warp ⟨v.role, none, none⟩
  | k => k

theorem CellKind.bare_label (k : CellKind) : k.bare.label = k.label := by
  cases k <;> rfl

/-- The character of a cell and its kind. -/
def Cell.look (c : Cell) : Char × CellKind := (c.glyph, c.kind.bare)

namespace World

/-! ## The rule -/

/-- The character that a `%^` row exposes. -/
def exposedBy? (row : List Char) : Option Char :=
  match Text.trimRight row with
  | '%' :: '^' :: c :: _ => some c
  | _ => none

/-- The character that the nearest `%^` row above row `y` exposes. -/
def exposedAbove? (rows : List (List Char)) (y : Nat) : Option Char :=
  (rows.take y).reverse.findSome? exposedBy?

/-- Next to column `x` there stand `l` to the left and `r` to the right. -/
def Between (row : List Char) (x : Nat) (l r : Char) : Prop :=
  (row.take x).getLast? = some l ∧ row[x + 1]? = some r

instance (row : List Char) (x : Nat) (l r : Char) : Decidable (Between row x l r) :=
  inferInstanceAs (Decidable (_ ∧ _))

/-- The kind of the character `c` in `row`, which is row `y` of a file with these
    rows, if it is neither a starting point nor an operator. -/
def warpKindAt (imported : Bool) (rows : List (List Char)) (y : Nat) (row : List Char) (c : Char) :
    CellKind :=
  if ¬ startsWithPercent row ∧ ∃ r ∈ rows, (aliasRow? c r).isSome then
    .warp ⟨.entrance, none, none⟩
  else if ∃ r ∈ rows, c ∈ lettersOf r then .warp ⟨.letter, none, none⟩
  else if imported ∧ ¬ startsWithPercent row ∧ exposedAbove? rows y = some c then
    .warp ⟨.exposed, none, none⟩
  else .plain

/-- The kind of the character `c` in column `x` of a row, given the kind that it
    has if it is neither a starting point nor an operator. -/
def kindInRow (row : List Char) (x : Nat) (c : Char) (otherwise : CellKind) : CellKind :=
  if c = '.' ∧ (row.take x).count '\x60' ≤ 1 then .start
  else if Between row x '\x7b' '\x7d' then .operator (some .curly)
  else if Between row x '[' ']' then .operator (some .square)
  else otherwise

/-- The characters of a file and their kinds. -/
def classified (imported : Bool) (rows : List (List Char)) : List (List (Char × CellKind)) :=
  rows.mapIdx fun y row =>
    row.mapIdx fun x c => (c, kindInRow row x c (warpKindAt imported rows y row c))

/-! ## Looks of a drawing -/

/-- The looks of the cells of a drawing. -/
def looks (rows : Block) : List (List (Char × CellKind)) := rows.map (·.map Cell.look)

/-- The cells have the characters of the texts, and for each row and each
    character of it the kind is given by `k`. -/
def Shows (texts : List (List Char)) (k : Nat → List Char → Char → CellKind) (rows : Block) :
    Prop :=
  looks rows = texts.mapIdx fun y row => row.map fun c => (c, k y row c)

theorem glyphs_eq_looks (row : List Cell) : glyphs row = (row.map Cell.look).map Prod.fst := by
  rw [List.map_map]
  rfl

theorem isDirective_eq (row : List Cell) :
    isDirective row = startsWithPercent ((row.map Cell.look).map Prod.fst) := by
  cases row with
  | nil => rfl
  | cons c row => rfl

section Shows
variable {texts : List (List Char)} {k : Nat → List Char → Char → CellKind} {rows : Block}
  {f : Cell → Cell} {g : Char → CellKind → CellKind}

theorem map_fst_row (row : List Char) (g : Char → CellKind) :
    (row.map fun c => (c, g c)).map Prod.fst = row := by
  rw [List.map_map]
  exact List.map_id row

theorem Shows.glyphs (h : Shows texts k rows) : rows.map glyphs = texts := by
  have hfirst : rows.map World.glyphs = (looks rows).map (·.map Prod.fst) := by
    unfold looks
    rw [List.map_map]
    exact List.map_congr_left fun row _ => glyphs_eq_looks row
  rw [hfirst, h, map_mapIdx]
  simp only [map_fst_row]
  exact (mapIdx_eq_map id texts).trans (List.map_id texts)

theorem Shows.congr {k' : Nat → List Char → Char → CellKind} (h : Shows texts k rows)
    (hk : ∀ y row c, k y row c = k' y row c) : Shows texts k' rows := by
  have heq : k = k' := by
    funext y row c
    exact hk y row c
  rw [← heq]
  exact h

/-- A pass that goes by the looks of each row. -/
theorem Shows.mapRows {F : List Cell → List Cell}
    {G : List (Char × CellKind) → List (Char × CellKind)} {k' : Nat → List Char → Char → CellKind}
    (h : Shows texts k rows) (hF : ∀ row, (F row).map Cell.look = G (row.map Cell.look))
    (hG : ∀ (y : Nat) (row : List Char),
      G (row.map fun c => (c, k y row c)) = row.map fun c => (c, k' y row c)) :
    Shows texts k' (rows.map F) := by
  have hlooks : looks (rows.map F) = (looks rows).map G := by
    unfold looks
    rw [List.map_map, List.map_map]
    exact List.map_congr_left fun row _ => hF row
  unfold Shows
  rw [hlooks, h, map_mapIdx]
  simp only [hG]

/-- A pass over all cells. -/
theorem Shows.map (h : Shows texts k rows)
    (hf : ∀ c, (f c).look = (c.glyph, g c.glyph c.kind.bare)) :
    Shows texts (fun y row c => g c (k y row c)) (rows.map (·.map f)) := by
  refine h.mapRows (G := (·.map fun q => (q.1, g q.1 q.2))) ?_ ?_
  · intro row
    rw [List.map_map, List.map_map]
    exact List.map_congr_left fun c _ => hf c
  · intro y row
    rw [List.map_map]
    rfl

/-- A pass over the cells of open rows. -/
theorem Shows.mapOpen (h : Shows texts k rows)
    (hf : ∀ c, (f c).look = (c.glyph, g c.glyph c.kind.bare)) :
    Shows texts (fun y row c => if startsWithPercent row then k y row c else g c (k y row c))
      (rows.map fun row => if isDirective row then row else row.map f) := by
  refine h.mapRows (G := fun q =>
    if startsWithPercent (q.map Prod.fst) then q else q.map fun a => (a.1, g a.1 a.2)) ?_ ?_
  · intro row
    rw [← isDirective_eq]
    split
    · rfl
    · rw [List.map_map, List.map_map]
      exact List.map_congr_left fun c _ => hf c
  · intro y row
    simp only [map_fst_row]
    split
    · rfl
    · rw [List.map_map]
      rfl

end Shows

/-! ## Drawing a file -/

theorem look_number (linkFor : Char → Option Int) (c : Cell) :
    (number linkFor c).look = (c.glyph, c.kind.bare) := by
  rcases number_cases linkFor c with hsame | ⟨v, hv, hnumber⟩
  · rw [hsame]
    rfl
  · rw [hnumber, hv]
    rfl

theorem look_markLetter (letters : List Char) (c : Cell) :
    (markLetter letters c).look = (c.glyph,
      if c.glyph ∈ letters then .warp ⟨.letter, none, none⟩ else c.kind.bare) := by
  unfold markLetter
  simp only [List.contains_iff_mem]
  split
  · rfl
  · rfl

theorem look_markAlias (names : List (List Char × String)) (c : Cell) :
    (markAlias names c).look = (c.glyph,
      if (libraryFor? names c.glyph).isSome then .warp ⟨.entrance, none, none⟩
      else c.kind.bare) := by
  unfold markAlias
  split
  · rfl
  · rfl

section passes
variable {texts : List (List Char)} {k : Nat → List Char → Char → CellKind} {rows : Block}

theorem Shows.markLetters (h : Shows texts k rows) (letters : List Char) :
    Shows texts (fun y row c =>
      if c ∈ letters then .warp ⟨.letter, none, none⟩ else k y row c) (markLetters letters rows) :=
  h.map (f := markLetter letters) (g := fun c k =>
    if c ∈ letters then .warp ⟨.letter, none, none⟩ else k) (look_markLetter letters)

theorem Shows.markAliases (h : Shows texts k rows) (names : List (List Char × String)) :
    Shows texts (fun y row c =>
      if startsWithPercent row then k y row c
      else if (libraryFor? names c).isSome then .warp ⟨.entrance, none, none⟩
      else k y row c) (markAliases names rows) :=
  h.mapOpen (f := markAlias names)
    (g := fun c k => if (libraryFor? names c).isSome then .warp ⟨.entrance, none, none⟩ else k)
    (look_markAlias names)

/-- Numbers do not show. -/
theorem Shows.number (h : Shows texts k rows) (linkFor : Char → Option Int) :
    Shows texts k (rows.map (·.map (World.number linkFor))) :=
  h.map (g := fun _ k => k) (look_number linkFor)

theorem Shows.numberOpen (h : Shows texts k rows) (linkFor : Char → Option Int) :
    Shows texts k
      (rows.map fun row => if isDirective row then row else row.map (World.number linkFor)) := by
  refine (h.mapOpen (g := fun _ k => k) (look_number linkFor)).congr ?_
  intro y row c
  exact ite_self _

end passes

/-- The kind of a character in the row of a file that has just been read. -/
def openKindAt (imported : Bool) (rows : List (List Char)) (y : Nat) (row : List Char) (c : Char) :
    CellKind :=
  if imported ∧ ¬ startsWithPercent row ∧ exposedAbove? rows y = some c then
    .warp ⟨.exposed, none, none⟩
  else .plain

theorem isSome_libraryFor? {texts : List (List Char)} {names : List (List Char × String)}
    (h : aliases texts = .ok names) (c : Char) :
    (libraryFor? names c).isSome = true ↔ ∃ r ∈ texts, (aliasRow? c r).isSome := by
  rw [libraryFor?_eq h c, List.findSome?_isSome_iff]
  simp only [List.mem_reverse]

/-- Letters and aliases go over what is exposed. -/
theorem warpKindAt_eq {texts : List (List Char)} {names : List (List Char × String)}
    (h : aliases texts = .ok names) (imported : Bool) (y : Nat) (row : List Char) (c : Char) :
    warpKindAt imported texts y row c =
      if startsWithPercent row then
        if c ∈ warpLetters texts then .warp ⟨.letter, none, none⟩
        else openKindAt imported texts y row c
      else if (libraryFor? names c).isSome then .warp ⟨.entrance, none, none⟩
      else if c ∈ warpLetters texts then .warp ⟨.letter, none, none⟩
      else openKindAt imported texts y row c := by
  have hletters : c ∈ warpLetters texts ↔ ∃ r ∈ texts, c ∈ lettersOf r := List.mem_flatMap
  unfold warpKindAt openKindAt
  rw [if_congr hletters rfl rfl, if_congr (isSome_libraryFor? h c) rfl rfl]
  by_cases hrow : startsWithPercent row = true
  · simp [hrow]
  · simp [hrow]

/-- The file of a block, imported or not, is drawn by the rule. -/
def Classed (imported : Bool) (block : Block) : Prop :=
  ∃ texts, Shows texts (warpKindAt imported texts) block

theorem expandByAliasWith_classed {load : Int → String → Builder (List Block)} {imported : Bool}
    {texts : List (List Char)} {rows : Block} {blocks : List Block} {n n' : Int}
    (hload : ∀ link name t blocks t', load link name t = .ok blocks t' →
      ∀ block ∈ blocks, Classed true block)
    (hrows : Shows texts (openKindAt imported texts) rows)
    (h : expandByAliasWith load rows n = .ok blocks n') :
    ∃ first rest, blocks = first :: rest ∧ Classed imported first ∧
      ∀ block ∈ rest, Classed true block := by
  unfold expandByAliasWith at h
  simp only [bind_ok_iff, pure_ok_iff] at h
  obtain ⟨rows₁, _, hnumbered, names, _, hread, imports, _, himports, rfl, rfl⟩ := h
  rw [hrows.glyphs] at hnumbered hread
  obtain ⟨haliases, -⟩ := orFail_ok_iff.mp hread
  obtain ⟨letters, -, -, rfl, -⟩ := numberLetters_ok hnumbered
  -- Letters go over what is exposed, then aliases over letters; numbers do not show.
  have hmarked := hrows.markLetters (warpLetters texts)
  refine ⟨_, _, rfl, ⟨texts, (((hmarked.number _).markAliases names).numberOpen _).congr ?_⟩,
    importAll_forall hload himports⟩
  intro y row c
  exact (warpKindAt_eq haliases imported y row c).symm

/-! ## Files that have just been read -/

/-- The kind of a character in a row of a library, when `shown` is exposed. -/
def shownKind (shown : Option Char) (row : List Char) (c : Char) : CellKind :=
  if ¬ startsWithPercent row ∧ shown = some c then .warp ⟨.exposed, none, none⟩ else .plain

theorem looks_plainRow (row : List Char) :
    (plainRow row).map Cell.look = row.map fun c => (c, .plain) := by
  unfold plainRow
  rw [List.map_map]
  rfl

/-- A directive of a library has plain cells. -/
theorem looks_directive {row : List Char} (hrow : startsWithPercent row = true)
    (shown : Option Char) :
    (plainRow row).map Cell.look = row.map fun c => (c, shownKind shown row c) := by
  have hplain : ∀ c, shownKind shown row c = .plain := fun c => if_neg fun h => h.1 hrow
  rw [looks_plainRow]
  simp only [hplain]

theorem looks_exposedRow {row : List Char} (hrow : startsWithPercent row = false)
    (link : Option Int) (shown : Option Char) :
    (exposedRow .exposed link shown row).map Cell.look =
      row.map fun c => (c, shownKind shown row c) := by
  unfold exposedRow shownKind
  rw [List.map_map]
  apply List.map_congr_left
  intro c _
  by_cases hc : shown = some c
  · simp [Cell.look, CellKind.bare, hc, hrow]
  · have hne : ¬ some c = shown := fun heq => hc heq.symm
    simp [Cell.look, CellKind.bare, hc, hne]

theorem trimRight_cons (c : Char) (cs : List Char) :
    Text.trimRight (c :: cs) =
      if (Text.trimRight cs).isEmpty && Text.isBlank c then [] else c :: Text.trimRight cs := by
  unfold Text.trimRight
  rw [List.reverse_cons, List.dropWhile_append, List.isEmpty_reverse]
  by_cases hempty : (cs.reverse.dropWhile Text.isBlank).isEmpty = true
  · rw [if_pos hempty, hempty, Bool.true_and, List.isEmpty_iff.mp hempty]
    cases hblank : Text.isBlank c with
    | true => simp [hblank]
    | false => simp [hblank]
  · rw [if_neg hempty, List.reverse_append]
    simp [hempty]

/-- Trimming a row does not touch a percent sign at its beginning. -/
theorem startsWithPercent_trimRight (row : List Char) :
    startsWithPercent (Text.trimRight row) = startsWithPercent row := by
  cases row with
  | nil => rfl
  | cons c cs =>
    rw [trimRight_cons]
    split
    · next hblank =>
      have hne : c ≠ '%' := by
        rintro rfl
        have hpercent : Text.isBlank '%' = false := by decide
        rw [hpercent, Bool.and_false] at hblank
        cases hblank
      simp [startsWithPercent, hne]
    · rfl

theorem exposedAbove?_succ (row : List Char) (rows : List (List Char)) (y : Nat) :
    exposedAbove? (row :: rows) (y + 1) = (exposedAbove? rows y).or (exposedBy? row) := by
  unfold exposedAbove?
  rw [List.take_succ_cons, List.reverse_cons, List.findSome?_append]
  congr 1
  cases hrow : exposedBy? row with
  | none => simp [hrow]
  | some c => simp [hrow]

/-- One row of a library is read, and what it exposes is exposed from then on. -/
theorem exposedRows_cons {link : Option Int} {shown : Option Char} {row : List Char}
    {rows : List (List Char)} {cells : Block}
    (h : exposedRows .exposed link shown (row :: rows) = .ok cells) :
    ∃ first rest, cells = first :: rest ∧
      first.map Cell.look = (row.map fun c => (c, shownKind shown row c)) ∧
      exposedRows .exposed link ((exposedBy? row).or shown) rows = .ok rest := by
  have hstarts := startsWithPercent_trimRight row
  unfold exposedRows at h
  unfold exposedBy?
  -- From here on the trimmed row is all that counts.
  generalize Text.trimRight row = line at h hstarts ⊢
  split at h
  · split at h <;> cases h
  · split at h
    · obtain ⟨rest, hrest, rfl⟩ := map_cons_ok h
      exact ⟨_, rest, rfl, looks_directive hstarts.symm shown, hrest⟩
    · cases h
  · next tail _ hexposes =>
    obtain ⟨rest, hrest, rfl⟩ := map_cons_ok h
    refine ⟨_, rest, rfl, looks_directive hstarts.symm shown, ?_⟩
    split
    · next c more heq => exact absurd (List.cons.inj heq).2 (hexposes (c :: more))
    · exact hrest
  · next hopen =>
    obtain ⟨rest, hrest, rfl⟩ := map_cons_ok h
    have hrow : startsWithPercent row = false := by
      rw [← hstarts]
      cases line with
      | nil => rfl
      | cons c tail =>
        have hne : c ≠ '%' := by
          rintro rfl
          exact hopen tail rfl
        simp [startsWithPercent, hne]
    refine ⟨_, rest, rfl, looks_exposedRow hrow link shown, ?_⟩
    split
    · next c more => exact absurd rfl (hopen _)
    · exact hrest

/-- The rows of a library, when `shown` is exposed by a row above them. -/
theorem looks_exposedRows {link : Option Int} {shown : Option Char} {texts : List (List Char)}
    {cells : Block} (h : exposedRows .exposed link shown texts = .ok cells) :
    looks cells = texts.mapIdx fun y row =>
      row.map fun c => (c, shownKind ((exposedAbove? texts y).or shown) row c) := by
  induction texts generalizing shown cells with
  | nil =>
    cases h
    rfl
  | cons row texts ih =>
    obtain ⟨first, rest, rfl, hfirst, hrest⟩ := exposedRows_cons h
    rw [List.mapIdx_cons]
    simp only [exposedAbove?_succ, Option.or_assoc]
    exact congrArg₂ List.cons hfirst (ih hrest)

theorem shows_library {link : Option Int} {texts : List (List Char)} {rows : Block}
    (h : exposedRows .exposed link none texts = .ok rows) :
    Shows texts (openKindAt true texts) rows := by
  unfold Shows
  rw [looks_exposedRows h]
  simp only [Option.or_none, shownKind, openKindAt, true_and]

theorem shows_program (texts : List (List Char)) :
    Shows texts (openKindAt false texts) (texts.map plainRow) := by
  unfold Shows looks openKindAt
  simp only [Bool.false_eq_true, false_and, if_false, ← looks_plainRow]
  rw [mapIdx_eq_map, List.map_map]
  rfl

/-- However deep the libraries are nested, the files are drawn by the rule. -/
theorem expand_classed {shelf : Shelf} {fuel : Nat} {imported : Bool} {texts : List (List Char)}
    {rows : Block} {blocks : List Block} {n n' : Int}
    (hrows : Shows texts (openKindAt imported texts) rows)
    (h : expand shelf fuel rows n = .ok blocks n') :
    ∃ first rest, blocks = first :: rest ∧ Classed imported first ∧
      ∀ block ∈ rest, Classed true block := by
  rw [expand_eq_expandByAlias] at h
  induction fuel generalizing imported texts rows blocks n n' with
  | zero =>
    unfold expandByAlias at h
    refine expandByAliasWith_classed ?_ hrows h
    intro link name t blocks t' hload
    split at hload <;> cases hload
  | succ fuel ih =>
    unfold expandByAlias at h
    refine expandByAliasWith_classed ?_ hrows h
    intro link name t blocks t' hload
    obtain ⟨rows', r, hopen, hexpand⟩ := bind_ok_iff.mp hload
    unfold openLibrary at hopen
    cases htext : shelf.text? name with
    | none =>
      rw [htext] at hopen
      cases hopen
    | some inner =>
      rw [htext] at hopen
      obtain ⟨first, rest, rfl, hfirst, hrest⟩ :=
        ih (shows_library (orFail_ok_iff.mp hopen).1) hexpand
      exact List.forall_mem_cons.mpr ⟨hfirst, hrest⟩

/-! ## Finishing -/

/-- The kind of a cell between two characters, given the kind that it has if
    they are no brackets. -/
def kindBetween (l r : Option Char) (otherwise : CellKind) : CellKind :=
  if l = some '\x7b' ∧ r = some '\x7d' then .operator (some .curly)
  else if l = some '[' ∧ r = some ']' then .operator (some .square)
  else otherwise

theorem looks_markOperators_cons (before : Option Char) (c : Cell) (cs : List Cell) :
    (markOperators before (c :: cs)).map Cell.look =
      (c.glyph, kindBetween before (glyphs cs)[0]? c.kind.bare) ::
        (markOperators (some c.glyph) cs).map Cell.look := by
  have hnext : (glyphs cs)[0]? = cs.head?.map Cell.glyph := by
    cases cs with
    | nil => rfl
    | cons d cs => rfl
  rw [hnext]
  conv_lhs => unfold markOperators
  unfold kindBetween
  generalize cs.head?.map Cell.glyph = next
  simp only
  split
  · rfl
  · rfl
  · next hcurly hsquare =>
    have hcurly' : ¬ (before = some '\x7b' ∧ next = some '\x7d') := fun h => hcurly h.1 h.2
    have hsquare' : ¬ (before = some '[' ∧ next = some ']') := fun h => hsquare h.1 h.2
    rw [if_neg hcurly', if_neg hsquare']
    rfl

/-- The operators of a row; `before` is the character in front of it. -/
theorem looks_markOperators (before : Option Char) (row : List Cell) :
    (markOperators before row).map Cell.look =
      (row.map Cell.look).mapIdx fun x q =>
        (q.1, kindBetween (((glyphs row).take x).getLast?.or before) (glyphs row)[x + 1]? q.2) := by
  induction row generalizing before with
  | nil => rfl
  | cons c cs ih =>
    -- In front of the rest there stands `c`, which is then the last one to the left.
    rw [looks_markOperators_cons, List.map_cons, List.mapIdx_cons, ih]
    have hglyphs : glyphs (c :: cs) = c.glyph :: glyphs cs := rfl
    simp only [hglyphs, List.take_succ_cons, List.getLast?_cons, Option.some_or, Option.or_some,
      List.getElem?_cons_succ]
    rfl

/-- The kind of a cell behind so many backticks, given its character and the kind
    that it has if it is no starting point. -/
def kindBehind (ticks : Nat) (q : Char × CellKind) : CellKind :=
  if q.1 = '.' ∧ ticks ≤ 1 then .start else q.2

theorem kindBehind_of_ne {q : Char × CellKind} (h : q.1 ≠ '.') (ticks : Nat) :
    kindBehind ticks q = q.2 :=
  if_neg fun hdot => h hdot.1

theorem kindBehind_of_lt {ticks : Nat} (h : 1 < ticks) (q : Char × CellKind) :
    kindBehind ticks q = q.2 :=
  if_neg fun hdot => Nat.not_le_of_lt h hdot.2

/-- The starting points of a row; `seen` says that there is a backtick in front of
    it. -/
theorem looks_markStarts (seen : Bool) (row : List Cell) :
    (markStarts seen row).map Cell.look =
      (row.map Cell.look).mapIdx fun x q =>
        (q.1, kindBehind (((glyphs row).take x).count '\x60' + seen.toNat) q) := by
  induction row generalizing seen with
  | nil => rfl
  | cons c cs ih =>
    have hglyphs : glyphs (c :: cs) = c.glyph :: glyphs cs := rfl
    rw [List.map_cons, List.mapIdx_cons]
    simp only [hglyphs, List.take_succ_cons, List.take_zero, List.count_nil]
    unfold markStarts
    by_cases htick : c.glyph = '\x60'
    · have hdot : c.look.1 ≠ '.' := by
        show c.glyph ≠ '.'
        rw [htick]
        decide
      simp only [htick, List.count_cons_self, kindBehind_of_ne hdot, beq_self_eq_true, if_true]
      cases seen with
      | true =>
        -- Nothing is marked behind the second backtick.
        have hlate : ∀ x, 1 < ((glyphs cs).take x).count '\x60' + 1 + true.toNat := by
          intro x
          simp
        simp only [kindBehind_of_lt (hlate _), if_true]
        rw [mapIdx_eq_map (fun q : Char × CellKind => (q.1, q.2)), List.map_cons]
        exact congrArg (c.look :: ·) (List.map_id _).symm
      | false =>
        simp only [Bool.false_eq_true, if_false, List.map_cons, ih]
        rfl
    · simp only [beq_iff_eq, htick, if_false, List.count_cons_of_ne htick]
      by_cases hdot : c.glyph = '.'
      · have hfew : 0 + seen.toNat ≤ 1 := by
          rw [Nat.zero_add]
          exact Bool.toNat_le seen
        have hkind : kindBehind (0 + seen.toNat) c.look = .start := if_pos ⟨hdot, hfew⟩
        rw [if_pos hdot, hkind, List.map_cons, ih]
        rfl
      · rw [if_neg hdot, kindBehind_of_ne (q := c.look) hdot, List.map_cons, ih]

/-- Where warps lead does not show. -/
theorem looks_connect (rows : List (List Cell)) : looks (connect rows) = looks rows := by
  have hcell : ∀ all p c, (connectCell all p c).look = c.look := by
    intro all p c
    unfold connectCell
    split
    · next v hv =>
      split
      · rfl
      · split
        · unfold Cell.look
          rw [hv]
          rfl
        · rfl
    · rfl
  apply map_zipIdx_map
  intro row y
  show (if isDirective row then row else _).map Cell.look = row.map Cell.look
  split
  · rfl
  · exact map_zipIdx_map (fun c x => hcell _ _ c) row 0

/-- What finishing makes of the looks of a row. -/
def finishedRow (row : List (Char × CellKind)) : List (Char × CellKind) :=
  row.mapIdx fun x q => (q.1, kindInRow (row.map Prod.fst) x q.1 q.2)

/-- The looks of a row with its operators. -/
def operatedRow (row : List (Char × CellKind)) : List (Char × CellKind) :=
  row.mapIdx fun x q =>
    (q.1, kindBetween ((row.map Prod.fst).take x).getLast? (row.map Prod.fst)[x + 1]? q.2)

/-- The looks of a row with its starting points. -/
def startedRow (row : List (Char × CellKind)) : List (Char × CellKind) :=
  row.mapIdx fun x q => (q.1, kindBehind (((row.map Prod.fst).take x).count '\x60') q)

theorem finishedRow_eq (row : List (Char × CellKind)) :
    finishedRow row = startedRow (operatedRow row) := by
  -- Starting points are found by the characters, which operators do not change.
  have hfirst : (operatedRow row).map Prod.fst = row.map Prod.fst := by
    unfold operatedRow
    rw [map_mapIdx]
    exact mapIdx_eq_map Prod.fst row
  unfold startedRow
  rw [hfirst]
  unfold operatedRow
  rw [List.mapIdx_mapIdx]
  rfl

theorem looks_finish (rows : List (List Cell)) :
    looks (finish rows) = (looks rows).map finishedRow := by
  have hoperators : looks (rows.map (markOperators none)) = (looks rows).map operatedRow := by
    unfold looks operatedRow
    rw [List.map_map, List.map_map]
    apply List.map_congr_left
    intro row _
    show (markOperators none row).map Cell.look = _
    rw [looks_markOperators, glyphs_eq_looks]
    simp only [Option.or_none]
    rfl
  have hstarts : ∀ rows, looks (rows.map (markStarts false)) = (looks rows).map startedRow := by
    intro rows
    unfold looks startedRow
    rw [List.map_map, List.map_map]
    apply List.map_congr_left
    intro row _
    show (markStarts false row).map Cell.look = _
    rw [looks_markStarts, glyphs_eq_looks]
    rfl
  unfold finish
  rw [hstarts, looks_connect, hoperators, List.map_map]
  exact List.map_congr_left fun row _ => (finishedRow_eq row).symm

/-! ## Worlds -/

/-- The finished looks of a file that is drawn by the rule. -/
theorem Classed.finished {imported : Bool} {block : Block} (h : Classed imported block) :
    (looks block).map finishedRow = classified imported (block.map glyphs) := by
  obtain ⟨texts, hshows⟩ := h
  rw [hshows.glyphs, hshows, map_mapIdx]
  unfold classified finishedRow
  simp only [map_fst_row, mapIdx_map]

theorem finished_eq {register : List Bond} {block : Block} {u : FileUse}
    (hdrawn : Drawn register block u) (h : Classed (!u.path.isEmpty) block) :
    (looks block).map finishedRow = classified (!u.path.isEmpty) (rowsOf u.text) := by
  rw [h.finished, hdrawn.characters]

/-- The blocks of the libraries and their texts, side by side. -/
theorem classed_libraries {register : List Bond} {blocks : List Block} {uses : List FileUse}
    (hdrawn : List.Forall₂ (Drawn register) blocks uses)
    (hblocks : ∀ block ∈ blocks, Classed true block) (hpaths : ∀ u ∈ uses, u.path ≠ []) :
    List.Forall₂ (fun block u => Drawn register block u ∧ Classed (!u.path.isEmpty) block)
      blocks uses := by
  induction hdrawn with
  | nil => exact .nil
  | @cons block u blocks uses hblock _ ih =>
    obtain ⟨hclassed, hblocks⟩ := List.forall_mem_cons.mp hblocks
    obtain ⟨hpath, hpaths⟩ := List.forall_mem_cons.mp hpaths
    have himported : (!u.path.isEmpty) = true := by simpa using hpath
    exact .cons ⟨hblock, himported ▸ hclassed⟩ (ih hblocks hpaths)

/-- The blocks of a program and the texts of its expansion, side by side. -/
theorem expand_uses {shelf : Shelf} {program : List Char} {fuel : Nat} {blocks : List Block}
    {n : Int} (h : expand shelf fuel ((rowsOf program).map plainRow) 0 = .ok blocks n) :
    ∃ uses bonds, IsExpansion shelf program uses ∧ bonds.Nodup ∧
      List.Forall₂ (fun block u => Drawn bonds block u ∧ Classed (!u.path.isEmpty) block)
        blocks uses := by
  obtain ⟨_, bonds, ⟨below, hbelow, rfl⟩, hexpanded⟩ := expand_program h
  obtain ⟨first, rest, rfl, hfirst, hrest⟩ := expand_classed (shows_program (rowsOf program)) h
  obtain ⟨hprogram, hlibraries⟩ := List.forall₂_cons.mp hexpanded.drawn
  exact ⟨_, bonds, ⟨below, hbelow, rfl⟩, hexpanded.nodup,
    .cons ⟨hprogram, hfirst⟩ (classed_libraries hlibraries hrest hbelow.path_ne_nil)⟩

/-- What each cell of a world stands for is told by the rule, from the text of its
    file and from whether the file is the program or imported. -/
theorem build_kinds {shelf : Shelf} {program : String} {w : World}
    (h : build shelf program = .ok w) :
    ∃ uses, IsExpansion shelf program.toList uses ∧
      w.rows.map (·.map Cell.look) =
        uses.flatMap fun u => classified (!u.path.isEmpty) (rowsOf u.text) := by
  obtain ⟨blocks, hexpand, hrows⟩ := build_eq_ok h
  obtain ⟨uses, bonds, huses, -, hclassed⟩ := expand_uses hexpand
  refine ⟨uses, huses, ?_⟩
  have hlooks : looks blocks.flatten = (blocks.map looks).flatten := List.map_flatten
  have hfinished : (blocks.map fun block => (looks block).map finishedRow) =
      uses.map fun u => classified (!u.path.isEmpty) (rowsOf u.text) := by
    rw [← List.forall₂_eq_eq_eq, List.forall₂_map_left_iff, List.forall₂_map_right_iff]
    exact hclassed.imp fun _ _ h => finished_eq h.1 h.2
  show looks w.rows = _
  rw [hrows, looks_finish, hlooks, List.map_flatten, List.map_map, List.flatMap_def]
  exact congrArg List.flatten hfinished

/-- A library with an operator. -/
def signLibrary : String := "%^X\n%$N\nX-[*]-N"

/-- A shelf with nothing else. -/
def signShelf : Shelf := ⟨⟨[(["sign"], signLibrary.toList)]⟩, []⟩

/-- A program with cells of many kinds. -/
def motleyProgram : String := "%!sign a\n%$K\n.-a-\x7b.\x7d\x7b+\x7d-K\x60a\x60."

theorem motley_isExpansion : IsExpansion signShelf motleyProgram.toList
    [⟨[], motleyProgram.toList⟩, ⟨['a'], signLibrary.toList⟩] := by
  have hprogram : aliasesUsed motleyProgram.toList = ['a'] := by decide +kernel
  have hlibrary : aliasesUsed signLibrary.toList = [] := by decide +kernel
  have hfile : fileFor? motleyProgram.toList 'a' = some "sign" := by decide +kernel
  have htext : signShelf.text? "sign" = some signLibrary.toList := by decide +kernel
  have hbelow : Imports signShelf ([] ++ ['a']) signLibrary.toList
      (aliasesUsed signLibrary.toList) [] := by
    rw [hlibrary]
    exact .nil
  refine ⟨_, ?_, rfl⟩
  rw [hprogram]
  exact .cons hfile htext hbelow .nil

/-- Letters are warps in directives, too, but aliases and exposed characters are
    not; a dot is a starting point even between brackets, but not behind the second
    backtick. -/
theorem build_kinds_motley :
    ∃ w, build signShelf motleyProgram = .ok w ∧
      (w.rows.map fun row =>
        (row.map fun c => (c.glyph, c.kind.label)).filter (·.2 ≠ CellKind.plain.label)) =
      [[],
       [('K', "WarpChar")],
       [('.', "DotChar"), ('a', "SingletonLibOuterWarpChar"), ('.', "DotChar"),
        ('+', "CurlyOperChar"), ('K', "WarpChar"), ('a', "SingletonLibOuterWarpChar")],
       [],
       [('N', "WarpChar")],
       [('X', "SingletonLibInnerWarpChar"), ('*', "SquareOperChar"), ('N', "WarpChar")]] := by
  obtain ⟨w, hw⟩ : ∃ w, build signShelf motleyProgram = .ok w :=
    ⟨_, build_of_isSome (by decide +kernel)⟩
  obtain ⟨uses, huses, hlooks⟩ := build_kinds hw
  rw [motley_isExpansion.unique huses] at hlooks
  refine ⟨w, hw, ?_⟩
  have hrows := congrArg (List.map fun row : List (Char × CellKind) =>
    (row.map fun q => (q.1, q.2.label)).filter (·.2 ≠ CellKind.plain.label)) hlooks
  simp only [List.map_map, Function.comp_def, Cell.look, CellKind.bare_label] at hrows
  rw [hrows]
  decide +kernel

end World

end DotPaths
