import DotPaths.Proofs.Launch
import DotPaths.Proofs.Links

/-! # Drawing one text

    What is done with the rows of one text before and after its libraries are
    read: the letters are marked and numbered, the aliases are looked up and
    marked, and the entrances take the numbers of their libraries.  Through all
    of this the rows keep their characters, and every warp of an open row comes to
    be linked.
-/

namespace DotPaths.World

/-! ## Aliases -/

theorem aliasRow?_eq {row : List Char} {first : Option (List Char × String)}
    (h : aliasOf row = .ok first) (c : Char) :
    aliasRow? c row = (first.toList.find? (·.1 == [c])).map (·.2) := by
  unfold aliasOf at h
  split at h
  · next rest hrest =>
    split at h
    · next file name more hsplit =>
      cases h
      unfold aliasRow?
      by_cases hname : name = [c]
      · simp [hrest, hsplit, hname]
      · simp [hrest, hsplit, hname]
    · cases h
  · next hother =>
    cases h
    unfold aliasRow?
    split
    · next rest hrest => exact absurd hrest (hother rest)
    · rfl

/-- The table of aliases tells the library of the last row with an alias. -/
theorem libraryFor?_eq {rows : List (List Char)} {names : List (List Char × String)}
    (h : aliases rows = .ok names) (c : Char) :
    libraryFor? names c = rows.reverse.findSome? (aliasRow? c) := by
  induction rows generalizing names with
  | nil =>
    cases h
    rfl
  | cons row rows ih =>
    unfold aliases at h
    cases hfirst : aliasOf row with
    | error f =>
      rw [hfirst] at h
      cases h
    | ok first =>
      cases hothers : aliases rows with
      | error f =>
        rw [hfirst, hothers] at h
        cases h
      | ok others =>
        rw [hfirst, hothers] at h
        cases h
        have hone : first.toList.reverse = first.toList := by
          cases first with
          | none => rfl
          | some a => rfl
        rw [List.reverse_cons, List.findSome?_append, ← ih hothers]
        unfold libraryFor?
        rw [List.reverse_append, List.find?_append, Option.map_or, hone, ← aliasRow?_eq hfirst c]
        simp

/-! ## The rows of one text -/

/-- The block draws a text: it has its characters, and the warps of its open rows
    are linked. -/
structure Drawn (register : List Bond) (block : Block) (use : FileUse) : Prop where
  characters : block.map glyphs = rowsOf use.text
  linked : ∀ c ∈ openCells block, ∀ v, c.kind = .warp v → Linked register use.path c.glyph v

section rows
variable {register : List Bond} {path text : List Char} {rows rows' : Block} {n n' : Int}
  {names : List (List Char × String)}

theorem Drawn.append {use : FileUse} (h : Drawn register rows use) (more : List Bond) :
    Drawn (register ++ more) rows use :=
  ⟨h.characters, fun c hc v hv => (h.linked c hc v hv).append more⟩

/-- A warp that is linked has a number. -/
theorem Drawn.not_unnumbered {use : FileUse} {c : Cell} (h : Drawn register rows use)
    (hc : c ∈ openCells rows) : isUnnumbered c = false := by
  unfold isUnnumbered
  cases hkind : c.kind with
  | warp v =>
    obtain ⟨k, b, hlink, -, -⟩ := h.linked c hc v hkind
    simp [CellKind.warp?, hlink]
  | _ => rfl

theorem takeLinks_ok {k : Nat} {first : Int} (h : takeLinks k n = .ok first n') :
    first = n ∧ n' = n + k := by
  cases h
  exact ⟨rfl, rfl⟩

theorem numberLetters_ok (h : numberLetters rows n = .ok rows' n') :
    ∃ letters : List Char, letters.Nodup ∧ n' = n + letters.length ∧
      rows' = rows.map (·.map (number fun c => some (n + letters.idxOf c))) ∧
      ∀ c ∈ openCells rows, isUnnumbered c = true → c.glyph ∈ letters := by
  unfold numberLetters at h
  simp only [bind_ok_iff, pure_ok_iff] at h
  obtain ⟨first, t, htake, rfl, rfl⟩ := h
  obtain ⟨rfl, rfl⟩ := takeLinks_ok htake
  refine ⟨_, eraseDups_nodup _, rfl, rfl, ?_⟩
  intro c hc hunnumbered
  obtain ⟨row, hrow, -, hmem⟩ := mem_openCells.mp hc
  rw [List.mem_eraseDups]
  refine List.mem_map.mpr ⟨c, List.mem_filter.mpr ⟨?_, hunnumbered⟩, rfl⟩
  exact List.mem_flatten.mpr ⟨row, hrow, hmem⟩

/-- Marking and numbering leave the characters alone. -/
theorem letters_characters {marks : List Char}
    (h : numberLetters (markLetters marks rows) n = .ok rows' n') :
    rows'.map glyphs = rows.map glyphs := by
  obtain ⟨letters, -, -, rfl, -⟩ := numberLetters_ok h
  have hmarked : markLetters marks rows = rows.map (·.map (markLetter marks)) := rfl
  rw [hmarked, List.map_map, List.map_map]
  apply List.map_congr_left
  intro row _
  show glyphs ((row.map _).map _) = _
  rw [glyphs_map (number_glyph _), glyphs_map (markLetter_glyph marks)]

/-- The letters of a list, registered in its order. -/
theorem linked_letter {letters : List Char} {c : Char} (register : List Bond) (path : List Char)
    (hc : c ∈ letters) :
    Linked (register ++ letters.map (Bond.letter path)) path c
      ⟨.letter, some ((register.length : Int) + letters.idxOf c), none⟩ := by
  have hlt : letters.idxOf c < letters.length := List.idxOf_lt_length_iff.mpr hc
  refine ⟨register.length + letters.idxOf c, .letter path c, by simp, ?_, rfl⟩
  rw [List.getElem?_append_right (by omega), Nat.add_sub_cancel_left, List.getElem?_map,
    List.getElem?_eq_getElem hlt, List.getElem_idxOf hlt]
  rfl

/-- Each letter of a text is given a number of its own. -/
theorem Drawn.letters {marks : List Char} (h : Drawn register rows ⟨path, text⟩)
    (hn : numberLetters (markLetters marks rows) (register.length : Int) = .ok rows' n') :
    ∃ letters : List Char, letters.Nodup ∧
      n' = ((register ++ letters.map (Bond.letter path)).length : Int) ∧
      Drawn (register ++ letters.map (Bond.letter path)) rows' ⟨path, text⟩ := by
  have hcharacters := (letters_characters hn).trans h.characters
  obtain ⟨letters, hnodup, rfl, rfl, hmem⟩ := numberLetters_ok hn
  have hmarked : markLetters marks rows = rows.map (·.map (markLetter marks)) := rfl
  rw [hmarked] at hmem hcharacters ⊢
  have hcells : openCells (rows.map (·.map (markLetter marks))) =
      (openCells rows).map (markLetter marks) := openCells_map (markLetter_glyph marks)
  refine ⟨letters, hnodup, by simp, hcharacters, ?_⟩
  intro c hc v hv
  rw [openCells_map (number_glyph _), hcells] at hc
  obtain ⟨c₁, hc₁, rfl⟩ := List.mem_map.mp hc
  have hunnumbered := hmem c₁ (hcells ▸ hc₁)
  obtain ⟨c₀, hc₀, rfl⟩ := List.mem_map.mp hc₁
  rw [number_glyph]
  -- A cell with a letter is numbered now; any other warp had its number before.
  by_cases hletter : marks.contains c₀.glyph = true
  · have hcell : markLetter marks c₀ = { c₀ with kind := .warp ⟨.letter, none, none⟩ } :=
      if_pos hletter
    rw [hcell] at hv hunnumbered ⊢
    cases hv
    exact linked_letter register path (hunnumbered rfl)
  · have hcell : markLetter marks c₀ = c₀ := if_neg hletter
    rw [hcell, number_eq_self _ (h.not_unnumbered hc₀)] at hv
    rw [hcell]
    exact (h.linked c₀ hc₀ v hv).append _

/-- What the table of aliases says about a text. -/
def Names (names : List (List Char × String)) (text : List Char) : Prop :=
  ∀ c, libraryFor? names c = fileFor? text c

theorem names_of_aliases (h : aliases (rowsOf text) = .ok names) : Names names text :=
  libraryFor?_eq h

theorem open_glyphs (h : rows.map glyphs = rowsOf text) :
    (openCells rows).map Cell.glyph =
      ((rowsOf text).filter fun row => !startsWithPercent row).flatten := by
  rw [openCells_glyphs, h]

/-- An alias that stands in an open row is used. -/
theorem Drawn.mem_aliasesUsed {use : FileUse} {c : Cell} (h : Drawn register rows use)
    (hc : c ∈ openCells rows) (halias : (fileFor? use.text c.glyph).isSome = true) :
    c.glyph ∈ aliasesUsed use.text := by
  unfold aliasesUsed
  rw [List.mem_eraseDups, List.mem_filter, ← open_glyphs h.characters]
  exact ⟨List.mem_map_of_mem hc, halias⟩

/-- The rows have the characters of a text, and no warp of an open row is without a
    number. -/
structure Settled (rows : Block) (text : List Char) : Prop where
  characters : rows.map glyphs = rowsOf text
  numbered : AllNumbered rows

theorem Drawn.settled (h : Drawn register rows ⟨path, text⟩) : Settled rows text :=
  ⟨h.characters, fun _ hc => h.not_unnumbered hc⟩

/-- The aliases that are found in the rows of a text are those used in it. -/
theorem Settled.usedAliases (h : Settled rows text) (hnames : Names names text) :
    usedAliases (markAliases names rows) = aliasesUsed text := by
  -- No warp of an open row was without a number before, so the aliases alone are found.
  have hcell : ∀ c ∈ openCells rows,
      wantsLibrary (markAlias names c) = (fileFor? text c.glyph).isSome := by
    intro c hc
    rw [← hnames c.glyph]
    by_cases halias : (libraryFor? names c.glyph).isSome = true
    · have hmark : markAlias names c = { c with kind := .warp ⟨.entrance, none, none⟩ } :=
        if_pos halias
      rw [hmark, halias]
      rfl
    · have hmark : markAlias names c = c := if_neg halias
      rw [hmark, wantsLibrary, h.numbered c hc, Bool.and_false]
      simpa using halias
  unfold World.usedAliases aliasesUsed
  rw [markAliases_cells, ← open_glyphs h.characters, List.filter_map,
    List.map_map, List.filter_map]
  have hglyph : Cell.glyph ∘ markAlias names = Cell.glyph := by
    funext c
    exact markAlias_glyph names c
  have hfilter : (openCells rows).filter
        (wantsLibrary ∘ markAlias names) =
      (openCells rows).filter ((fun c => (fileFor? text c).isSome) ∘ Cell.glyph) :=
    List.filter_congr hcell
  rw [hglyph, hfilter]

/-- Once the aliases that a text uses have been given numbers, its entrances can
    be linked. -/
theorem Drawn.entrances {linkFor : Char → Option Int} (h : Drawn register rows ⟨path, text⟩)
    (hnames : Names names text)
    (hlinks : ∀ c ∈ aliasesUsed text, ∃ k : Nat, linkFor c = some (k : Int) ∧
      register[k]? = some (.library (path ++ [c]))) :
    Drawn register ((markAliases names rows).map fun row =>
      if isDirective row then row else row.map (number linkFor)) ⟨path, text⟩ := by
  refine ⟨?_, ?_⟩
  · have hrow : ∀ (f : Cell → Cell) (row : List Cell), (∀ c, (f c).glyph = c.glyph) →
        glyphs (if isDirective row then row else row.map f) = glyphs row := by
      intro f row hf
      split
      · rfl
      · exact glyphs_map hf row
    rw [← h.characters]
    unfold markAliases
    rw [List.map_map, List.map_map]
    apply List.map_congr_left
    intro row _
    exact (hrow _ _ (number_glyph linkFor)).trans (hrow _ row (markAlias_glyph names))
  · intro c hc v hv
    rw [openCells_mapOpen (number_glyph linkFor), markAliases_cells] at hc
    obtain ⟨c₁, hc₁, rfl⟩ := List.mem_map.mp hc
    obtain ⟨c₀, hc₀, rfl⟩ := List.mem_map.mp hc₁
    rw [number_glyph]
    -- An alias takes the number of its library; all other warps are linked already.
    by_cases halias : (libraryFor? names c₀.glyph).isSome = true
    · have hmark : markAlias names c₀ = { c₀ with kind := .warp ⟨.entrance, none, none⟩ } :=
        if_pos halias
      rw [hmark] at hv ⊢
      cases hv
      obtain ⟨k, hk, hb⟩ := hlinks c₀.glyph (h.mem_aliasesUsed hc₀ (hnames c₀.glyph ▸ halias))
      exact ⟨k, _, hk, hb, rfl⟩
    · have hmark : markAlias names c₀ = c₀ := if_neg halias
      rw [hmark, number_eq_self _ (h.not_unnumbered hc₀)] at hv
      rw [hmark]
      exact h.linked c₀ hc₀ v hv

end rows

end DotPaths.World
