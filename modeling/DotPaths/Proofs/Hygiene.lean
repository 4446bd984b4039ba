import DotPaths.Proofs.Expansion

/-! # Hygiene of link numbers

    In a built world two warps have the same number only if they belong together:
    as cells of one text with the same letter, or as the two sides of one import.
    The same letter in another text, or in another copy of the same text, has
    another number.  Only the rows that are no directives count.
-/

namespace DotPaths.World

/-! ## The warps of a world -/

/-- For each row of an expansion, the path of the text that it comes from. -/
def owners (uses : List FileUse) : List (List Char) :=
  uses.flatMap fun u => (rowsOf u.text).map fun _ => u.path

/-- A warp, with its character and the path of the text in which it stands. -/
structure OpenWarp where
  path : List Char
  glyph : Char
  warp : Warp

/-- The warps of the rows that are no directives. -/
def openWarps (w : World) (uses : List FileUse) : List OpenWarp :=
  (w.rows.zip (owners uses)).flatMap fun (row, path) =>
    if isDirective row then []
    else row.filterMap fun c => c.kind.warp?.map fun v => ⟨path, c.glyph, v⟩

/-- The warp is a side of the import for the alias `c` of the text at `path`: an
    entrance there, or an exposed cell of the library. -/
def OpenWarp.OnImport (a : OpenWarp) (path : List Char) (c : Char) : Prop :=
  (a.warp.role = .entrance ∧ a.path = path ∧ a.glyph = c) ∨
    (a.warp.role = .exposed ∧ a.path = path ++ [c])

/-- All warps are numbered, and they share a number exactly if they belong
    together. -/
structure Hygienic (w : World) (uses : List FileUse) : Prop where
  numbered : ∀ a ∈ openWarps w uses, ∃ n : Int, a.warp.link = some n ∧ 0 ≤ n ∧ n < w.nextLink
  shared_iff : ∀ a ∈ openWarps w uses, ∀ b ∈ openWarps w uses,
    a.warp.link = b.warp.link ↔
      (a.warp.role = .letter ∧ b.warp.role = .letter ∧ a.path = b.path ∧ a.glyph = b.glyph) ∨
        ∃ path c, a.OnImport path c ∧ b.OnImport path c

/-! ## Bonds of warps -/

theorem bondOf?_eq_letter {path p : List Char} {glyph g : Char} {role : WarpRole} :
    bondOf? path glyph role = some (.letter p g) ↔ role = .letter ∧ path = p ∧ glyph = g := by
  cases role with
  | exposed =>
    by_cases hpath : path = []
    · simp [bondOf?, hpath]
    · simp [bondOf?, hpath]
  | _ => simp [bondOf?]

theorem OpenWarp.onImport_iff {a : OpenWarp} {path : List Char} {c : Char} :
    a.OnImport path c ↔ bondOf? a.path a.glyph a.warp.role = some (.library (path ++ [c])) := by
  unfold OpenWarp.OnImport
  cases a.warp.role with
  | entrance => simp [bondOf?]
  | exposed =>
    by_cases hpath : a.path = []
    · simp [bondOf?, hpath]
    · simp [bondOf?, hpath]
  | _ => simp [bondOf?]

/-- The way into a library begins with an alias. -/
theorem bondOf?_library {path q : List Char} {glyph : Char} {role : WarpRole}
    (h : bondOf? path glyph role = some (.library q)) : ∃ p c, q = p ++ [c] := by
  have hne : q ≠ [] := by
    cases role with
    | entrance =>
      cases h
      simp
    | exposed =>
      by_cases hpath : path = []
      · simp [bondOf?, hpath] at h
      · simp only [bondOf?, hpath, if_false, Option.some.injEq, Bond.library.injEq] at h
        exact h ▸ hpath
    | _ => cases h
  exact ⟨q.dropLast, q.getLast hne, (List.dropLast_append_getLast hne).symm⟩

/-- Warps have the same purpose exactly if they belong together. -/
theorem bondOf?_eq_iff {a b : OpenWarp} {p : Bond} (ha : bondOf? a.path a.glyph a.warp.role = some p) :
    bondOf? a.path a.glyph a.warp.role = bondOf? b.path b.glyph b.warp.role ↔
      (a.warp.role = .letter ∧ b.warp.role = .letter ∧ a.path = b.path ∧ a.glyph = b.glyph) ∨
        ∃ path c, a.OnImport path c ∧ b.OnImport path c := by
  constructor
  · intro heq
    have hb := heq.symm.trans ha
    cases p with
    | letter p g =>
      obtain ⟨hrole, hpath, hglyph⟩ := bondOf?_eq_letter.mp ha
      obtain ⟨hrole', hpath', hglyph'⟩ := bondOf?_eq_letter.mp hb
      exact .inl ⟨hrole, hrole', hpath.trans hpath'.symm, hglyph.trans hglyph'.symm⟩
    | library q =>
      obtain ⟨p, c, rfl⟩ := bondOf?_library ha
      exact .inr ⟨p, c, OpenWarp.onImport_iff.mpr ha, OpenWarp.onImport_iff.mpr hb⟩
  · rintro (⟨hrole, hrole', hpath, hglyph⟩ | ⟨path, c, honA, honB⟩)
    · rw [hrole, hrole', hpath, hglyph]
    · rw [OpenWarp.onImport_iff.mp honA, OpenWarp.onImport_iff.mp honB]

/-! ## The warps are linked -/

/-- The warps of the row are linked, unless it is a directive. -/
def RowLinked (register : List Bond) (row : List Cell) (path : List Char) : Prop :=
  isDirective row = false → ∀ c ∈ row, ∀ v, c.kind = .warp v → Linked register path c.glyph v

section linked
variable {register : List Bond}

theorem Drawn.rowLinked {block : Block} {use : FileUse} (h : Drawn register block use) :
    List.Forall₂ (RowLinked register) block ((rowsOf use.text).map fun _ => use.path) := by
  rw [← h.characters, List.map_map, List.forall₂_map_right_iff]
  apply List.forall₂_same.mpr
  intro row hrow hopen c hc v hv
  exact h.linked c (mem_openCells.mpr ⟨row, hrow, hopen, hc⟩) v hv

/-- Finishing a row keeps its warps linked. -/
theorem RowLinked.became {row row' : List Cell} {path : List Char} (h : RowLinked register row path)
    (hrow : List.Forall₂ Became row row') : RowLinked register row' path := by
  have hdirective := isDirective_became hrow
  intro hopen c' hc' v' hv'
  obtain ⟨c, hc, hbecame⟩ := forall₂_mem_right hrow c' hc'
  obtain ⟨v, hv, hrole, hlink⟩ := hbecame.warp v' hv'
  obtain ⟨k, b, hk, hb, hbond⟩ := h (hdirective ▸ hopen) c hc v hv
  refine ⟨k, b, hlink ▸ hk, hb, ?_⟩
  rw [hbecame.glyph, ← hrole]
  exact hbond

/-- In the finished drawing the warps of every open row are linked. -/
theorem rowLinked_owners {blocks : List Block} {uses : List FileUse}
    (h : List.Forall₂ (Drawn register) blocks uses) :
    List.Forall₂ (RowLinked register) (finish blocks.flatten) (owners uses) := by
  -- Block by block, hence row by row; and the finished rows are compared with the drawn ones.
  have hblocks : List.Forall₂ (List.Forall₂ (RowLinked register)) blocks
      (uses.map fun u => (rowsOf u.text).map fun _ => u.path) := by
    rw [List.forall₂_map_right_iff]
    exact h.imp fun _ _ h => h.rowLinked
  have hrows : List.Forall₂ (RowLinked register) blocks.flatten (owners uses) :=
    List.rel_flatten hblocks
  have hfinished : List.Forall₂ (fun row' row => List.Forall₂ Became row row')
      (finish blocks.flatten) blocks.flatten := (finish_became blocks.flatten).flip
  exact forall₂_trans (fun _ _ _ hbecame hlinked => hlinked.became hbecame) hfinished hrows

theorem openWarps_linked {w : World} {uses : List FileUse}
    (h : List.Forall₂ (RowLinked register) w.rows (owners uses)) :
    ∀ a ∈ openWarps w uses, Linked register a.path a.glyph a.warp := by
  intro a ha
  obtain ⟨⟨row, path⟩, hrow, ha⟩ := List.mem_flatMap.mp ha
  have hlinked : RowLinked register row path := List.forall₂_zip h hrow
  simp only at ha
  by_cases hdirective : isDirective row = true
  · rw [if_pos hdirective] at ha
    cases ha
  · rw [if_neg hdirective] at ha
    obtain ⟨c, hc, heq⟩ := List.mem_filterMap.mp ha
    cases hkind : c.kind with
    | warp v =>
      rw [hkind] at heq
      cases heq
      exact hlinked (by simpa using hdirective) c hc v hkind
    | _ =>
      rw [hkind] at heq
      cases heq

end linked

/-- The rows of a built world come from the texts of an expansion, which have
    different paths.  The warps of the rows that are no directives are all
    numbered, and two of them share a number exactly if they belong together. -/
theorem build_hygienic {shelf : Shelf} {program : String} {w : World}
    (h : build shelf program = .ok w) :
    ∃ uses, IsExpansion shelf program.toList uses ∧ (uses.map FileUse.path).Nodup ∧
      w.rows.map glyphs = uses.flatMap (fun u => rowsOf u.text) ∧ Hygienic w uses := by
  obtain ⟨blocks, uses, bonds, huses, hrows, hexpanded⟩ := build_ok h
  -- The bonds of the whole expansion tell for each number what it is for.
  have hcount : w.nextLink = (bonds.length : Int) := hexpanded.counted
  have hlinked : ∀ a ∈ openWarps w uses, Linked bonds a.path a.glyph a.warp := by
    apply openWarps_linked
    rw [hrows]
    exact rowLinked_owners hexpanded.drawn
  refine ⟨uses, huses, huses.paths_nodup, hrows ▸ hexpanded.rows_glyphs, ?_, ?_⟩
  · intro a ha
    rw [hcount]
    exact (hlinked a ha).lt_length
  · intro a ha b hb
    obtain ⟨k, p, hk, hp, hbond⟩ := hlinked a ha
    rw [(hlinked a ha).link_eq_iff (hlinked b hb) hexpanded.nodup]
    exact bondOf?_eq_iff hbond

/-- The letter `K` of the program and that of the library have different numbers,
    and so have the alias `a` of the program and that of the library. -/
theorem build_hygienic_nested :
    ∃ w, build nestedShelf nestedProgram = .ok w ∧ Hygienic w nestedUses ∧ w.nextLink = 4 ∧
      (openWarps w nestedUses).map (fun a => (String.ofList a.path, a.glyph, a.warp.link)) =
        [("", 'a', some 1), ("", 'K', some 0), ("", 'K', some 0), ("", 'a', some 1),
          ("a", 'K', some 2), ("a", 'X', some 1), ("a", 'a', some 3), ("a", 'K', some 2),
          ("aa", 'X', some 3)] := by
  have hrun : (build nestedShelf nestedProgram).toOption.map (fun w => (w.nextLink,
      (openWarps w nestedUses).map fun a => (String.ofList a.path, a.glyph, a.warp.link))) =
      some (4, [("", 'a', some 1), ("", 'K', some 0), ("", 'K', some 0), ("", 'a', some 1),
        ("a", 'K', some 2), ("a", 'X', some 1), ("a", 'a', some 3), ("a", 'K', some 2),
        ("aa", 'X', some 3)]) := by decide +kernel
  obtain ⟨w, hw, hpair⟩ := exists_build_of_map hrun
  obtain ⟨uses, huses, -, -, hhygienic⟩ := build_hygienic hw
  rw [← huses.unique nested_isExpansion] at hhygienic
  exact ⟨w, hw, hhygienic, congrArg Prod.fst hpair, congrArg Prod.snd hpair⟩

end DotPaths.World
