import DotPaths.Proofs.Drawing

/-! # Expanding a program

    A text is drawn, and then everything that it imports.  The blocks that result
    are the texts of the expansion, one by one and in the same order.  The numbers
    given out on the way are all for different purposes, since what one alias
    leads to lies apart from what another one leads to.

    Finishing the drawing recognises operators, connects warps and marks starting
    points.  It leaves the characters alone.
-/

namespace DotPaths.World

/-! ## Importing -/

/-- What has come of a text at a path and all that it imports: the blocks that
    draw them, and the purposes for which numbers were given out. -/
structure Expanded (register : List Bond) (path : List Char) (blocks : List Block) (n : Int)
    (uses : List FileUse) (bonds : List Bond) : Prop where
  counted : n = ((register ++ bonds).length : Int)
  nodup : bonds.Nodup
  within : ∀ b ∈ bonds, b.Within path
  drawn : List.Forall₂ (Drawn (register ++ bonds)) blocks uses

/-- Reading the library of an alias of the text at `path` gives its expansion. -/
def Loads (shelf : Shelf) (path : List Char) (load : Int → String → Builder (List Block)) : Prop :=
  ∀ (register : List Bond) (c : Char) (name : String) (blocks : List Block) (n : Int),
    load register.length name ((register ++ [Bond.library (path ++ [c])]).length : Int) =
      .ok blocks n →
    ∃ inner below bonds, shelf.text? name = some inner ∧
      Imports shelf (path ++ [c]) inner (aliasesUsed inner) below ∧
      Expanded (register ++ [.library (path ++ [c])]) (path ++ [c]) blocks n
        (⟨path ++ [c], inner⟩ :: below) bonds

section imports
variable {shelf : Shelf} {path text cs : List Char} {names : List (List Char × String)}
  {load : Int → String → Builder (List Block)} {register : List Bond} {n : Int}

/-- The numbers for a library lie at its path or behind it. -/
theorem prefix_path {sub : List Bond} (hsub : ∀ b ∈ sub, b.Within path) :
    ∀ b ∈ Bond.library path :: sub, path <+: b.path := by
  intro b hb
  rcases List.mem_cons.mp hb with rfl | hb
  · exact List.prefix_refl _
  · exact (hsub b hb).1

/-- The numbers for one library and those for others are for different
    purposes. -/
theorem nodup_bonds {c : Char} {sub bonds : List Bond} (hc : c ∉ cs) (hsub : sub.Nodup)
    (hwithin : ∀ b ∈ sub, b.Within (path ++ [c])) (hbonds : bonds.Nodup)
    (hbehind : ∀ b ∈ bonds, ∃ d ∈ cs, path ++ [d] <+: b.path) :
    (.library (path ++ [c]) :: sub ++ bonds).Nodup := by
  rw [List.nodup_append, List.nodup_cons]
  refine ⟨⟨fun hmem => (hwithin _ hmem).2 rfl, hsub⟩, hbonds, ?_⟩
  intro a ha b hb heq
  have hprefix := prefix_path hwithin a ha
  obtain ⟨d, hd, hprefix'⟩ := hbehind b hb
  rw [heq] at hprefix
  cases eq_of_prefixes hprefix hprefix'
  exact hc hd

/-- What has come of all that the text at a path imports for some aliases.  Each
    alias has got a number, the one for the way into its library. -/
structure Imported (register : List Bond) (path cs : List Char)
    (imports : List (Char × Int × List Block)) (n : Int) (uses : List FileUse)
    (bonds : List Bond) : Prop where
  counted : n = ((register ++ bonds).length : Int)
  nodup : bonds.Nodup
  behind : ∀ b ∈ bonds, ∃ c ∈ cs, path ++ [c] <+: b.path
  numbered : ∀ c ∈ cs, ∃ k : Nat, (imports.find? (·.1 == c)).map (·.2.1) = some (k : Int) ∧
    (register ++ bonds)[k]? = some (.library (path ++ [c]))
  drawn : List.Forall₂ (Drawn (register ++ bonds)) (imports.map (·.2.2)).flatten uses

/-- Nothing is imported for no aliases. -/
theorem Imported.nil : Imported register path [] [] register.length [] [] :=
  ⟨by simp, List.nodup_nil, by simp, by simp, .nil⟩

/-- A library is read with one more number given out, the one for the way into
    it, and the libraries of the other aliases after all its numbers. -/
theorem Imported.cons {c : Char} {blocks : List Block} {m : Int} {below rest : List FileUse}
    {sub bonds : List Bond} {imports : List (Char × Int × List Block)} (hc : c ∉ cs)
    (hfirst : Expanded (register ++ [.library (path ++ [c])]) (path ++ [c]) blocks m below sub)
    (hrest : Imported (register ++ [.library (path ++ [c])] ++ sub) path cs imports n rest bonds) :
    Imported register path (c :: cs) ((c, (register.length : Int), blocks) :: imports) n
      (below ++ rest) (.library (path ++ [c]) :: sub ++ bonds) := by
  have hregister : register ++ (.library (path ++ [c]) :: sub ++ bonds) =
      register ++ [.library (path ++ [c])] ++ sub ++ bonds := by simp
  refine ⟨?_, nodup_bonds hc hfirst.nodup hfirst.within hrest.nodup hrest.behind, ?_, ?_, ?_⟩
  · rw [hregister]
    exact hrest.counted
  · intro b hb
    rcases List.mem_append.mp hb with hb | hb
    · exact ⟨c, by simp, prefix_path hfirst.within b hb⟩
    · obtain ⟨d, hd, hprefix⟩ := hrest.behind b hb
      exact ⟨d, by simp [hd], hprefix⟩
  · rw [hregister]
    intro d hd
    -- The first number is for the way into the library of `c`.
    by_cases hdc : d = c
    · subst hdc
      exact ⟨register.length, by simp, by simp⟩
    · have hmem : d ∈ cs := List.mem_of_ne_of_mem hdc hd
      obtain ⟨k, hk, hb⟩ := hrest.numbered d hmem
      refine ⟨k, ?_, hb⟩
      rw [List.find?_cons_of_neg (by simpa using Ne.symm hdc)]
      exact hk
  · rw [hregister]
    have hblocks := hfirst.drawn.imp fun _ _ hblock => hblock.append bonds
    exact List.rel_append hblocks hrest.drawn

/-- The libraries of some aliases are read. -/
theorem importAll_ok {imports : List (Char × Int × List Block)} (hload : Loads shelf path load)
    (hnames : Names names text) (hcs : cs.Nodup) (hused : ∀ c ∈ cs, (fileFor? text c).isSome = true)
    (h : importAll load names cs (register.length : Int) = .ok imports n) :
    ∃ below bonds, Imports shelf path text cs below ∧
      Imported register path cs imports n below bonds := by
  induction cs generalizing register imports n with
  | nil =>
    unfold importAll at h
    rw [List.mapM_nil, pure_ok_iff] at h
    obtain ⟨rfl, rfl⟩ := h
    exact ⟨[], [], .nil, .nil⟩
  | cons c cs ih =>
    unfold importAll importAlias at h
    simp only [List.mapM_cons, bind_ok_iff, pure_ok_iff] at h
    obtain ⟨_, t₂, ⟨link, t₁, htake, blocks, _, hblocks, rfl, rfl⟩, others, _, hothers, rfl, rfl⟩ := h
    -- The alias takes the next number, and its library is read with it.
    obtain ⟨rfl, rfl⟩ := takeLinks_ok htake
    obtain ⟨hc, hcs⟩ := List.nodup_cons.mp hcs
    obtain ⟨name, hname⟩ := Option.isSome_iff_exists.mp (hused c (by simp))
    have hlibrary : (libraryFor? names c).getD "" = name := by
      rw [hnames c, hname]
      rfl
    have hnext : (register.length : Int) + (1 : Nat) =
        ((register ++ [Bond.library (path ++ [c])]).length : Int) := by simp
    rw [hlibrary, hnext] at hblocks
    obtain ⟨inner, below, sub, htext, hbelow, hfirst⟩ := hload register c name blocks _ hblocks
    rw [hfirst.counted] at hothers
    obtain ⟨rest, bonds, hrest, himported⟩ := ih hcs (fun d hd => hused d (by simp [hd])) hothers
    exact ⟨_, _, .cons hname htext hbelow hrest, .cons hc hfirst himported⟩

/-- The numbers for the letters of a text and those for its libraries are for
    different purposes, and all of them belong to the text. -/
theorem bonds_within {letters : List Char} {bonds : List Bond} (hletters : letters.Nodup)
    (hbonds : bonds.Nodup) (hbehind : ∀ b ∈ bonds, ∃ d ∈ cs, path ++ [d] <+: b.path) :
    (letters.map (Bond.letter path) ++ bonds).Nodup ∧
      ∀ b ∈ letters.map (Bond.letter path) ++ bonds, b.Within path := by
  -- No path lies behind itself.
  have hnot : ∀ d, ¬ path ++ [d] <+: path := by
    intro d hprefix
    have hle := hprefix.length_le
    rw [List.length_append, List.length_singleton] at hle
    omega
  refine ⟨?_, ?_⟩
  · rw [List.nodup_append]
    have hinj : ∀ c c', c ≠ c' → Bond.letter path c ≠ Bond.letter path c' := by
      intro c c' hne heq
      exact hne (Bond.letter.inj heq).2
    refine ⟨List.Pairwise.map _ hinj hletters, hbonds, ?_⟩
    intro a ha b hb heq
    obtain ⟨c, -, rfl⟩ := List.mem_map.mp ha
    obtain ⟨d, -, hprefix⟩ := hbehind b hb
    rw [← heq] at hprefix
    exact hnot d hprefix
  · intro b hb
    rcases List.mem_append.mp hb with hb | hb
    · obtain ⟨c, -, rfl⟩ := List.mem_map.mp hb
      exact ⟨List.prefix_refl _, by simp⟩
    · obtain ⟨d, -, hprefix⟩ := hbehind b hb
      refine ⟨(List.prefix_append _ _).trans hprefix, ?_⟩
      intro heq
      rw [heq] at hprefix
      exact hnot d hprefix

/-- A text is expanded: it is drawn, and so is all that it imports. -/
theorem expandByAliasWith_ok {rows : Block} {blocks : List Block} (hload : Loads shelf path load)
    (hrows : Drawn register rows ⟨path, text⟩)
    (h : expandByAliasWith load rows (register.length : Int) = .ok blocks n) :
    ∃ below bonds, Imports shelf path text (aliasesUsed text) below ∧
      Expanded register path blocks n (⟨path, text⟩ :: below) bonds := by
  unfold expandByAliasWith at h
  simp only [bind_ok_iff, pure_ok_iff] at h
  obtain ⟨rows₁, _, hnumbered, names, _, hread, imports, _, himports, rfl, rfl⟩ := h
  -- Letters are numbered first, then the aliases are read, and then the libraries.
  obtain ⟨letters, hletters, rfl, hdrawn⟩ := hrows.letters hnumbered
  obtain ⟨haliases, rfl⟩ := orFail_ok_iff.mp hread
  rw [hrows.characters] at haliases
  have hnames : Names names text := names_of_aliases haliases
  have hused : ∀ c ∈ aliasesUsed text, (fileFor? text c).isSome = true := by
    intro c hc
    exact (List.mem_filter.mp (List.mem_eraseDups.mp hc)).2
  rw [hdrawn.settled.usedAliases hnames] at himports
  obtain ⟨below, bonds, hbelow, himported⟩ :=
    importAll_ok hload hnames (aliasesUsed_nodup text) hused himports
  obtain ⟨hnodup, hwithin⟩ := bonds_within hletters himported.nodup himported.behind
  refine ⟨below, letters.map (Bond.letter path) ++ bonds, hbelow, ?_, hnodup, hwithin, ?_⟩
  · rw [← List.append_assoc]
    exact himported.counted
  · rw [← List.append_assoc]
    exact .cons ((hdrawn.append bonds).entrances hnames himported.numbered) himported.drawn

end imports

/-! ## Libraries -/

theorem exposedRows_glyphs {role : WarpRole} {link : Option Int} {shown : Option Char}
    {rows : List (List Char)} {cells : Block} (h : exposedRows role link shown rows = .ok cells) :
    cells.map glyphs = rows := by
  have hsame : List.Forall₂ (· = ·) rows (cells.map glyphs) := by
    rw [List.forall₂_map_right_iff]
    refine (exposedRows_ok h).imp ?_
    intro row _ ⟨shown, hcells⟩
    rw [hcells, glyphs, exposedRow, List.map_map]
    exact (List.map_id row).symm
  rw [List.forall₂_eq_eq_eq] at hsame
  exact hsame.symm

/-- The only warps are the exposed cells, and they have the link of the library. -/
theorem exposedRows_warps {role : WarpRole} {link : Option Int} {shown : Option Char}
    {rows : List (List Char)} {cells : Block} (h : exposedRows role link shown rows = .ok cells) :
    ∀ row ∈ cells, ∀ c ∈ row, ∀ v, c.kind = .warp v → v = ⟨role, link, none⟩ := by
  intro row hrow c hc v hv
  obtain ⟨line, -, shown, rfl⟩ := forall₂_mem_right (exposedRows_ok h) row hrow
  obtain ⟨g, -, rfl⟩ := List.mem_map.mp hc
  simp only at hv
  split at hv
  · exact (CellKind.warp.inj hv).symm
  · cases hv

/-- A library is opened with its exposed cells linked to the way into it. -/
theorem openLibrary_ok {shelf : Shelf} {name : String} {register : List Bond} {path : List Char}
    {c : Char} {rows : Block} {n n' : Int}
    (h : openLibrary shelf .exposed (some (register.length : Int)) name n = .ok rows n') :
    n' = n ∧ ∃ inner, shelf.text? name = some inner ∧
      Drawn (register ++ [.library (path ++ [c])]) rows ⟨path ++ [c], inner⟩ := by
  unfold openLibrary at h
  cases htext : shelf.text? name with
  | none =>
    rw [htext] at h
    cases h
  | some inner =>
    rw [htext] at h
    obtain ⟨hrows, rfl⟩ := orFail_ok_iff.mp h
    refine ⟨rfl, inner, rfl, exposedRows_glyphs hrows, ?_⟩
    intro cell hcell v hv
    obtain ⟨row, hrow, -, hmem⟩ := mem_openCells.mp hcell
    rw [exposedRows_warps hrows row hrow cell hmem v hv]
    exact ⟨register.length, .library (path ++ [c]), rfl, by simp, by simp [bondOf?]⟩

/-- Expanding a text gives what it stands for, however deep its libraries are
    nested. -/
theorem expand_ok {shelf : Shelf} {fuel : Nat} {register : List Bond} {path text : List Char}
    {rows : Block} {blocks : List Block} {n : Int} (hrows : Drawn register rows ⟨path, text⟩)
    (h : expand shelf fuel rows (register.length : Int) = .ok blocks n) :
    ∃ below bonds, Imports shelf path text (aliasesUsed text) below ∧
      Expanded register path blocks n (⟨path, text⟩ :: below) bonds := by
  rw [expand_eq_expandByAlias] at h
  induction fuel generalizing register path text rows blocks n with
  | zero =>
    unfold expandByAlias at h
    refine expandByAliasWith_ok ?_ hrows h
    intro register c name blocks n hload
    simp only at hload
    by_cases hname : (shelf.text? name).isSome = true
    · rw [if_pos hname] at hload
      cases hload
    · rw [if_neg hname] at hload
      cases hload
  | succ fuel ih =>
    unfold expandByAlias at h
    refine expandByAliasWith_ok ?_ hrows h
    intro register c name blocks n hload
    obtain ⟨rows', t, hopen, hexpand⟩ := bind_ok_iff.mp hload
    obtain ⟨rfl, inner, htext, hdrawn⟩ := openLibrary_ok hopen
    obtain ⟨below, bonds, hbelow, hexpanded⟩ := ih hdrawn hexpand
    exact ⟨inner, below, bonds, htext, hbelow, hexpanded⟩

/-! ## Finishing -/

/-- What finishing may make of a cell.  It keeps its character; and if it is a
    warp in the end, it was one before, with the same role and number. -/
structure Became (c c' : Cell) : Prop where
  glyph : c'.glyph = c.glyph
  warp : ∀ v', c'.kind = .warp v' →
    ∃ v, c.kind = .warp v ∧ v.role = v'.role ∧ v.link = v'.link

theorem Became.refl (c : Cell) : Became c c :=
  ⟨rfl, fun v hv => ⟨v, hv, rfl, rfl⟩⟩

theorem Became.trans {c c' c'' : Cell} (h : Became c c') (h' : Became c' c'') : Became c c'' := by
  refine ⟨h'.glyph.trans h.glyph, ?_⟩
  intro v'' hv''
  obtain ⟨v', hv', hrole', hlink'⟩ := h'.warp v'' hv''
  obtain ⟨v, hv, hrole, hlink⟩ := h.warp v' hv'
  exact ⟨v, hv, hrole.trans hrole', hlink.trans hlink'⟩

theorem isDirective_became {row row' : List Cell} (h : List.Forall₂ Became row row') :
    isDirective row' = isDirective row := by
  cases h with
  | nil => rfl
  | @cons c c' _ _ hc _ =>
    show (c'.glyph == '%') = (c.glyph == '%')
    rw [hc.glyph]

theorem markOperators_became (before : Option Char) (row : List Cell) :
    List.Forall₂ Became row (markOperators before row) := by
  induction row generalizing before with
  | nil => exact .nil
  | cons c cs ih =>
    have hmark : ∀ b : Option Bracket,
        Became c (if b.isSome then { c with kind := .operator b } else c) := by
      intro b
      split
      · exact ⟨rfl, fun v hv => nomatch hv⟩
      · exact .refl c
    exact .cons (hmark _) (ih _)

theorem connectCell_became (all : List (Pos × Warp)) (p : Pos) (c : Cell) :
    Became c (connectCell all p c) := by
  unfold connectCell
  split
  · next v hv =>
    split
    · exact .refl c
    · split
      · refine ⟨rfl, ?_⟩
        intro v' hv'
        cases hv'
        exact ⟨v, hv, rfl, rfl⟩
      · exact .refl c
  · exact .refl c

theorem connect_became (rows : List (List Cell)) :
    List.Forall₂ (List.Forall₂ Became) rows (connect rows) := by
  apply forall₂_zipIdx
  intro row y
  show List.Forall₂ Became row (if isDirective row then row else _)
  split
  · exact List.forall₂_same.mpr fun c _ => .refl c
  · exact forall₂_zipIdx (fun c x => connectCell_became _ _ c) row 0

theorem markStarts_became (seen : Bool) (row : List Cell) :
    List.Forall₂ Became row (markStarts seen row) := by
  induction row generalizing seen with
  | nil => exact .nil
  | cons c cs ih =>
    unfold markStarts
    split
    · split
      · exact List.forall₂_same.mpr fun c _ => .refl c
      · exact .cons (.refl c) (ih true)
    · split
      · refine .cons ⟨rfl, ?_⟩ (ih seen)
        intro v hv
        cases hv
      · exact .cons (.refl c) (ih seen)

/-- No later pass changes a character or gives a cell another number. -/
theorem finish_became (rows : List (List Cell)) :
    List.Forall₂ (List.Forall₂ Became) rows (finish rows) := by
  have htrans : ∀ a b c : List Cell, List.Forall₂ Became a b → List.Forall₂ Became b c →
      List.Forall₂ Became a c := by
    intro a b c
    exact forall₂_trans fun _ _ _ hab hbc => hab.trans hbc
  have hmap : ∀ (f : List Cell → List Cell) (rows : List (List Cell)),
      (∀ row, List.Forall₂ Became row (f row)) →
      List.Forall₂ (List.Forall₂ Became) rows (rows.map f) := by
    intro f rows hf
    rw [List.forall₂_map_right_iff]
    exact List.forall₂_same.mpr fun row _ => hf row
  have hoperators := hmap (markOperators none) rows (markOperators_became none)
  have hconnected := connect_became (rows.map (markOperators none))
  have hstarts := hmap (markStarts false) (connect (rows.map (markOperators none)))
    (markStarts_became false)
  exact forall₂_trans htrans (forall₂_trans htrans hoperators hconnected) hstarts

theorem finish_glyphs (rows : List (List Cell)) : (finish rows).map glyphs = rows.map glyphs := by
  have hsame : List.Forall₂ (· = ·) (rows.map glyphs) ((finish rows).map glyphs) := by
    rw [List.forall₂_map_left_iff, List.forall₂_map_right_iff]
    refine (finish_became rows).imp ?_
    intro row row' hrow
    have hcells : List.Forall₂ (· = ·) (row.map Cell.glyph) (row'.map Cell.glyph) := by
      rw [List.forall₂_map_left_iff, List.forall₂_map_right_iff]
      exact hrow.imp fun _ _ h => h.glyph.symm
    rw [List.forall₂_eq_eq_eq] at hcells
    exact hcells
  rw [List.forall₂_eq_eq_eq] at hsame
  exact hsame.symm

/-! ## Roles -/

/-- If the cell is a warp, it is a letter, an entrance or exposed. -/
def Usual (c : Cell) : Prop :=
  ∀ v, c.kind = .warp v → v.role = .letter ∨ v.role = .entrance ∨ v.role = .exposed

/-- All cells of the rows are usual. -/
def AllUsual (rows : Block) : Prop := ∀ row ∈ rows, ∀ c ∈ row, Usual c

theorem usual_keptByDrawing : KeptByDrawing Usual where
  plain _ _ hv := nomatch hv
  exposed _ _ v hv := by
    cases hv
    exact .inr (.inr rfl)
  letter _ v hv := by
    cases hv
    exact .inl rfl
  entrance _ v hv := by
    cases hv
    exact .inr (.inl rfl)
  number linkFor c h := by
    rcases number_cases linkFor c with hsame | ⟨v, hv, hnumber⟩
    · rw [hsame]
      exact h
    · rw [hnumber]
      intro v' hv'
      cases hv'
      exact h v hv

/-- No other roles occur in a world. -/
theorem build_usual {shelf : Shelf} {program : String} {w : World}
    (h : build shelf program = .ok w) : AllUsual w.rows := by
  unfold build at h
  split at h
  · next blocks next hexpand =>
    cases h
    intro row' hrow' c' hc' v' hv'
    obtain ⟨row, hrow, hbecame⟩ := forall₂_mem_right (finish_became blocks.flatten) row' hrow'
    obtain ⟨c, hc, hbecame⟩ := forall₂_mem_right hbecame c' hc'
    obtain ⟨v, hv, hrole, -⟩ := hbecame.warp v' hv'
    have husual := expand_program_allCells usual_keptByDrawing hexpand
    rw [← hrole]
    exact husual row hrow c hc v hv
  · cases h

/-! ## Programs -/

/-- The cells of a program have its characters and no meaning yet. -/
theorem drawn_program (program : List Char) :
    Drawn [] ((rowsOf program).map plainRow) ⟨[], program⟩ := by
  refine ⟨?_, ?_⟩
  · rw [List.map_map]
    refine (List.map_congr_left fun row _ => ?_).trans (List.map_id _)
    show glyphs (plainRow row) = row
    rw [glyphs, plainRow, List.map_map]
    exact List.map_id row
  · intro c hc v hv
    obtain ⟨row, hrow, -, hmem⟩ := mem_openCells.mp hc
    obtain ⟨chars, -, rfl⟩ := List.mem_map.mp hrow
    obtain ⟨g, -, rfl⟩ := List.mem_map.mp hmem
    cases hv

theorem expand_program {shelf : Shelf} {program : List Char} {fuel : Nat} {blocks : List Block}
    {n : Int} (h : expand shelf fuel ((rowsOf program).map plainRow) 0 = .ok blocks n) :
    ∃ uses bonds, IsExpansion shelf program uses ∧ Expanded [] [] blocks n uses bonds := by
  obtain ⟨below, bonds, hbelow, hexpanded⟩ := expand_ok (drawn_program program) h
  exact ⟨_, bonds, ⟨below, hbelow, rfl⟩, hexpanded⟩

theorem build_eq_ok {shelf : Shelf} {program : String} {w : World}
    (h : build shelf program = .ok w) :
    ∃ blocks, expand shelf shelf.size ((rowsOf program.toList).map plainRow) 0 =
      .ok blocks w.nextLink ∧ w.rows = finish blocks.flatten := by
  unfold build at h
  split at h
  · next blocks next hexpand =>
    cases h
    exact ⟨blocks, hexpand, rfl⟩
  · cases h

/-- A world is built from the expansion of its program. -/
theorem build_ok {shelf : Shelf} {program : String} {w : World} (h : build shelf program = .ok w) :
    ∃ blocks uses bonds, IsExpansion shelf program.toList uses ∧ w.rows = finish blocks.flatten ∧
      Expanded [] [] blocks w.nextLink uses bonds := by
  obtain ⟨blocks, hexpand, hrows⟩ := build_eq_ok h
  obtain ⟨uses, bonds, huses, hexpanded⟩ := expand_program hexpand
  exact ⟨blocks, uses, bonds, huses, hrows, hexpanded⟩

/-- The finished rows are the rows of the texts, one after the other. -/
theorem Expanded.rows_glyphs {register : List Bond} {path : List Char} {blocks : List Block}
    {n : Int} {uses : List FileUse} {bonds : List Bond}
    (h : Expanded register path blocks n uses bonds) :
    (finish blocks.flatten).map glyphs = uses.flatMap fun u => rowsOf u.text := by
  have hblocks : List.Forall₂ (· = ·) (blocks.map (·.map glyphs))
      (uses.map fun u => rowsOf u.text) := by
    rw [List.forall₂_map_left_iff, List.forall₂_map_right_iff]
    exact h.drawn.imp fun _ _ h => h.characters
  rw [List.forall₂_eq_eq_eq] at hblocks
  rw [finish_glyphs, List.map_flatten, hblocks]
  rfl

/-- The rows of a world are those of the expansion of its program, which is
    unique.  From each text in it exactly the aliases that are used there lead on,
    and each of them to a single text. -/
theorem build_expands {shelf : Shelf} {program : String} {w : World}
    (h : build shelf program = .ok w) :
    ∃ uses, IsExpansion shelf program.toList uses ∧
      (∀ uses', IsExpansion shelf program.toList uses' → uses' = uses) ∧
      w.rows.map glyphs = uses.flatMap (fun u => rowsOf u.text) ∧
      (uses.map FileUse.path).Nodup ∧
      ∀ u ∈ uses, ∀ c, (∃ v ∈ uses, v.path = u.path ++ [c]) ↔ c ∈ aliasesUsed u.text := by
  obtain ⟨blocks, uses, bonds, huses, hrows, hexpanded⟩ := build_ok h
  refine ⟨uses, huses, fun _ h' => huses.unique h', ?_, huses.paths_nodup, huses.leads_on⟩
  rw [hrows]
  exact hexpanded.rows_glyphs

/-! ## A program with nested libraries -/

/-- A library that imports another one under the alias that it has itself. -/
def outerLibrary : String := "%^X\n%!inner a\n%$K\nK-X-a-K"

/-- A library that imports nothing. -/
def innerLibrary : String := "%^X\nX-#1"

/-- The two libraries. -/
def nestedShelf : Shelf :=
  ⟨⟨[(["outer"], outerLibrary.toList), (["inner"], innerLibrary.toList)]⟩, []⟩

/-- A program that uses the first library twice. -/
def nestedProgram : String := "%!outer a\n%$K\n.-a-K K-a"

/-- The texts of its expansion. -/
def nestedUses : List FileUse :=
  [⟨[], nestedProgram.toList⟩, ⟨['a'], outerLibrary.toList⟩, ⟨['a', 'a'], innerLibrary.toList⟩]

theorem nested_isExpansion : IsExpansion nestedShelf nestedProgram.toList nestedUses := by
  have hprogram : aliasesUsed nestedProgram.toList = ['a'] := by decide +kernel
  have houter : aliasesUsed outerLibrary.toList = ['a'] := by decide +kernel
  have hinner : aliasesUsed innerLibrary.toList = [] := by decide +kernel
  have hfirst : fileFor? nestedProgram.toList 'a' = some "outer" := by decide +kernel
  have hsecond : fileFor? outerLibrary.toList 'a' = some "inner" := by decide +kernel
  have houterText : nestedShelf.text? "outer" = some outerLibrary.toList := by decide +kernel
  have hinnerText : nestedShelf.text? "inner" = some innerLibrary.toList := by decide +kernel
  have hdeepest : Imports nestedShelf (['a'] ++ ['a']) innerLibrary.toList
      (aliasesUsed innerLibrary.toList) [] := by
    rw [hinner]
    exact .nil
  have hbelow : Imports nestedShelf ([] ++ ['a']) outerLibrary.toList
      (aliasesUsed outerLibrary.toList) [⟨['a', 'a'], innerLibrary.toList⟩] := by
    rw [houter]
    exact .cons hsecond hinnerText hdeepest .nil
  refine ⟨_, ?_, rfl⟩
  rw [hprogram]
  exact .cons hfirst houterText hbelow .nil

/-- The program uses its alias twice, but the library is drawn once; and inside
    it the same alias stands for another library. -/
theorem build_expands_nested :
    ∃ w, build nestedShelf nestedProgram = .ok w ∧
      w.rows.map (String.ofList ∘ glyphs) =
        ["%!outer a ", "%$K ", ".-a-K K-a ", "%^X ", "%!inner a ", "%$K ", "K-X-a-K ", "%^X ",
          "X-#1 "] ∧
      (nestedUses.map FileUse.path).Nodup := by
  obtain ⟨w, hw⟩ : ∃ w, build nestedShelf nestedProgram = .ok w :=
    ⟨_, build_of_isSome (by decide +kernel)⟩
  obtain ⟨uses, -, hunique, hrows, hnodup, -⟩ := build_expands hw
  rw [← hunique nestedUses nested_isExpansion] at hrows hnodup
  refine ⟨w, hw, ?_, hnodup⟩
  rw [← List.map_map, hrows]
  decide +kernel

end DotPaths.World
