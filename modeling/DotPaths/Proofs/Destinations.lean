import Mathlib.Data.List.Nodup
import DotPaths.Proofs.Sites

/-! # Where warps lead

    A warp is connected by its number, in one search through all the files
    together.  Since numbers are shared exactly by the warps that belong together,
    the search stays within one file: a letter leads to the first other cell of its
    file with the same letter, and an alias to the first exposed cell of the library
    that is imported for it.

    The search is made when operators have been recognised, so a cell that has
    become one is passed over.  Only dots change after it, when they are marked as
    starting points.
-/

namespace DotPaths.World

/-! ## Warps by position -/

/-- At the position stands the warp, in a row that is no directive, and the row
    comes from the text at the path of the warp. -/
structure WarpAt (rows : Block) (uses : List FileUse) (p : Pos) (a : OpenWarp) : Prop where
  cell : OpenAt rows p ⟨a.glyph, .warp a.warp⟩
  owner : (owners uses)[p.y.toNat]? = some a.path

/-- At the position stands a letter of the text at the path. -/
def LetterAt (rows : Block) (uses : List FileUse) (path : List Char) (glyph : Char) (p : Pos) :
    Prop :=
  ∃ a, WarpAt rows uses p a ∧ a.warp.role = .letter ∧ a.path = path ∧ a.glyph = glyph

/-- At the position stands an exposed cell of the text at the path. -/
def ExposedAt (rows : Block) (uses : List FileUse) (path : List Char) (p : Pos) : Prop :=
  ∃ a, WarpAt rows uses p a ∧ a.warp.role = .exposed ∧ a.path = path

/-- Where the cell at a position leads. -/
def leadsTo? (w : World) (p : Pos) : Option Pos :=
  (w.cell? p).bind fun c => c.kind.target.toOption.bind id

/-- Letters and aliases lead where they should.  Dots are left out: a later pass
    makes starting points of them. -/
structure Connected (w : World) (uses : List FileUse) : Prop where
  /-- Every warp stands in a row of one of the texts. -/
  owned : ∀ p glyph v, OpenAt w.rows p ⟨glyph, .warp v⟩ →
    ∃ u ∈ uses, WarpAt w.rows uses p ⟨u.path, glyph, v⟩
  /-- A letter leads to the first other cell with this letter in its text. -/
  letter : ∀ p a, WarpAt w.rows uses p a → a.warp.role = .letter → a.glyph ≠ '.' →
    ∃ t, (CellKind.warp a.warp).target = .ok t ∧
      Pos.FirstOf (fun q => q ≠ p ∧ LetterAt w.rows uses a.path a.glyph q) t
  /-- Two cells lead to each other if no other one has their letter. -/
  swaps : ∀ path glyph p q, glyph ≠ '.' → p ≠ q →
    (∀ r, LetterAt w.rows uses path glyph r ↔ r = p ∨ r = q) →
    w.leadsTo? p = some q ∧ w.leadsTo? q = some p
  /-- An alias leads to the first exposed cell of the library that is imported for
      it. -/
  entrance : ∀ p a, WarpAt w.rows uses p a → a.warp.role = .entrance →
    ∃ u ∈ uses, u.path = a.path ++ [a.glyph] ∧
      ((∀ line ∈ rowsOf u.text, exposedBy? line ≠ some '.') →
        ∃ t, (CellKind.warp a.warp).target = .ok t ∧
          Pos.FirstOf (ExposedAt w.rows uses u.path) t)

/-! ## The search -/

theorem mem_warps {rows : Block} {p : Pos} {v : Warp} :
    (p, v) ∈ warps rows ↔ ∃ glyph, OpenAt rows p ⟨glyph, .warp v⟩ := by
  unfold warps
  rw [List.mem_filterMap]
  constructor
  · rintro ⟨⟨q, c⟩, hmem, heq⟩
    obtain ⟨v', hv', heq⟩ := Option.map_eq_some_iff.mp heq
    cases heq
    refine ⟨c.glyph, ?_⟩
    have hkind : c.kind = .warp v := by
      cases hk : c.kind with
      | warp v' =>
        simp only [hk, CellKind.warp?, Option.some.injEq] at hv'
        rw [hv']
      | _ =>
        rw [hk] at hv'
        cases hv'
    rw [← hkind]
    exact mem_locatedOpen.mp hmem
  · rintro ⟨glyph, hopen⟩
    exact ⟨(p, ⟨glyph, .warp v⟩), mem_locatedOpen.mpr hopen, rfl⟩

/-- The search goes through the warps in the order of the rows. -/
theorem warps_pairwise (rows : Block) : (warps rows).Pairwise fun a b => a.1.Before b.1 := by
  refine (locatedOpen_pairwise rows).filterMap _ ?_
  intro a b hab x hx y hy
  obtain ⟨_, -, rfl⟩ := Option.map_eq_some_iff.mp hx
  obtain ⟨_, -, rfl⟩ := Option.map_eq_some_iff.mp hy
  exact hab

theorem companion?_firstOf (rows : Block) (p : Pos) (v : Warp) :
    Pos.FirstOf (fun q => ∃ v', (q, v') ∈ warps rows ∧ v'.link = v.link ∧ q ≠ p ∧
      (v.role = .entrance → v'.role = .exposed)) (companion? (warps rows) p v) := by
  refine (Pos.firstOf_find? _ (warps_pairwise rows)).congr ?_
  intro q
  apply exists_congr
  intro v'
  simp only [Bool.and_eq_true, Bool.or_eq_true, beq_iff_eq, bne_iff_ne, and_assoc]
  rw [← imp_iff_not_or]

/-! ## From the draft to the world -/

/-- The rows of a draft with their operators. -/
abbrev operated (rows : Block) : Block := rows.map (markOperators none)

section draft
variable {w : World} {uses : List FileUse} {register : List Bond} {rows : Block} {p : Pos}
  {a b : OpenWarp}

theorem Draft.linked_at (h : Draft w uses register rows) (ha : WarpAt (operated rows) uses p a) :
    Linked register a.path a.glyph a.warp := by
  obtain ⟨row', hrow', hopen, hc⟩ := ha.cell.found
  rw [List.getElem?_map] at hrow'
  obtain ⟨row, hrow, rfl⟩ := Option.map_eq_some_iff.mp hrow'
  obtain ⟨path, hpath, hlinked⟩ := forall₂_getElem? h.linked hrow
  cases hpath.symm.trans ha.owner
  have hoperated := hlinked.became (markOperators_became none row)
  exact hoperated hopen _ (List.mem_of_getElem? hc) _ rfl

theorem Draft.link_eq_iff {q : Pos} (h : Draft w uses register rows)
    (ha : WarpAt (operated rows) uses p a) (hb : WarpAt (operated rows) uses q b) :
    b.warp.link = a.warp.link ↔
      (b.warp.role = .letter ∧ a.warp.role = .letter ∧ b.path = a.path ∧ b.glyph = a.glyph) ∨
        ∃ path c, b.OnImport path c ∧ a.OnImport path c := by
  have hlinked := h.linked_at hb
  rw [hlinked.link_eq_iff (h.linked_at ha) h.nodup]
  obtain ⟨k, bond, -, -, hbond⟩ := hlinked
  exact bondOf?_eq_iff hbond

/-- Every row of the world comes from a text. -/
theorem Draft.owned (h : Draft w uses register rows) {c : Cell} (hopen : OpenAt w.rows p c) :
    ∃ u ∈ uses, (owners uses)[p.y.toNat]? = some u.path := by
  obtain ⟨row, hrow, -, -⟩ := hopen.found
  have hlen : w.rows.length = (owners uses).length := by
    rw [h.finished, ← h.linked.length_eq]
    exact (finish_became rows).length_eq.symm
  have hlt := (List.getElem?_eq_some_iff.mp hrow).1
  rw [hlen] at hlt
  have howner := List.getElem?_eq_getElem hlt
  obtain ⟨u, hu, hmem⟩ := List.mem_flatMap.mp (List.getElem_mem hlt)
  obtain ⟨_, -, hpath⟩ := List.mem_map.mp hmem
  exact ⟨u, hu, by rw [howner, hpath]⟩

/-- Every warp that the search comes to stands in a row of some text. -/
theorem Draft.warpAt_of_mem {v : Warp} (h : Draft w uses register rows)
    (hv : (p, v) ∈ warps (operated rows)) :
    ∃ path glyph, WarpAt (operated rows) uses p ⟨path, glyph, v⟩ := by
  obtain ⟨glyph, hopen⟩ := mem_warps.mp hv
  obtain ⟨row', hrow', -, -⟩ := hopen.found
  rw [List.getElem?_map] at hrow'
  obtain ⟨row, hrow, -⟩ := Option.map_eq_some_iff.mp hrow'
  obtain ⟨path, hpath, -⟩ := forall₂_getElem? h.linked hrow
  exact ⟨path, glyph, hopen, hpath⟩

/-- A cell that is still a warp when operators have been recognised is as it was. -/
theorem mem_of_mem_markOperators {before : Option Char} {row : List Cell} {c : Cell} {v : Warp}
    (h : c ∈ markOperators before row) (hv : c.kind = .warp v) : c ∈ row := by
  induction row generalizing before with
  | nil => exact h
  | cons c₀ row ih =>
    rcases List.mem_cons.mp h with hc | h
    · split at hc
      · rw [hc] at hv
        cases hv
      · rw [hc] at hv
        cases hv
      · rw [hc]
        exact List.mem_cons_self
    · exact List.mem_cons_of_mem c₀ (ih h)

theorem Draft.target_none (h : Draft w uses register rows)
    (ha : WarpAt (operated rows) uses p a) : a.warp.target = none := by
  obtain ⟨row', hrow', -, hc⟩ := ha.cell.found
  rw [List.getElem?_map] at hrow'
  obtain ⟨row, hrow, rfl⟩ := Option.map_eq_some_iff.mp hrow'
  have hmem := mem_of_mem_markOperators (List.mem_of_getElem? hc) rfl
  exact h.nowhere row (List.mem_of_getElem? hrow) _ hmem _ rfl

/-- The warp when it is connected, unless it is one that leads nowhere of its own. -/
def OpenWarp.led (all : List (Pos × Warp)) (p : Pos) (a : OpenWarp) : OpenWarp :=
  { a with warp := { a.warp with
      target := if a.warp.role = .exposed then none else companion? all p a.warp } }

theorem connectCell_warp {all : List (Pos × Warp)} (htarget : a.warp.target = none) :
    connectCell all p ⟨a.glyph, .warp a.warp⟩ = ⟨a.glyph, .warp (a.led all p).warp⟩ := by
  obtain ⟨path, glyph, role, link, target⟩ := a
  obtain rfl : target = none := htarget
  unfold connectCell OpenWarp.led
  by_cases hrole : role = .exposed
  · simp [hrole]
  · cases hfound : companion? all p ⟨role, link, none⟩ with
    | none => simp [hrole, hfound]
    | some q => simp [hrole, hfound]

/-- Every warp of the world is one of the draft, and it has been connected. -/
theorem Draft.warpAt_draft (h : Draft w uses register rows) (ha : WarpAt w.rows uses p a) :
    ∃ a₀, WarpAt (operated rows) uses p a₀ ∧ a = a₀.led (warps (operated rows)) p := by
  have hcell := ha.cell
  rw [h.finished] at hcell
  obtain ⟨c, hopen, hc⟩ := hcell.of_finish (by simp)
  have hbecame := connectCell_became (warps (operated rows)) p c
  rw [← hc] at hbecame
  obtain ⟨v, hv, -, -⟩ := hbecame.warp _ rfl
  have hloose : c = ⟨a.glyph, .warp v⟩ := by
    rw [← hv, show a.glyph = c.glyph from hbecame.glyph]
  rw [hloose] at hopen hc
  have ha₀ : WarpAt (operated rows) uses p ⟨a.path, a.glyph, v⟩ := ⟨hopen, ha.owner⟩
  refine ⟨_, ha₀, ?_⟩
  rw [connectCell_warp (a := ⟨a.path, a.glyph, v⟩) (h.target_none ha₀)] at hc
  have hwarp := CellKind.warp.inj (Cell.mk.inj hc).2
  obtain ⟨path, glyph, warp⟩ := a
  exact congrArg (OpenWarp.mk path glyph) hwarp

/-- A warp of the draft is connected in the world, unless it is a dot. -/
theorem Draft.warpAt_world (h : Draft w uses register rows) (ha : WarpAt (operated rows) uses p a)
    (hglyph : a.glyph ≠ '.') : WarpAt w.rows uses p (a.led (warps (operated rows)) p) := by
  refine ⟨?_, ha.owner⟩
  have hcell := ha.cell.finish hglyph
  rw [connectCell_warp (h.target_none ha), ← h.finished] at hcell
  exact hcell

/-- Where a warp of the world leads, if it is not exposed. -/
theorem led_target {all : List (Pos × Warp)} (hrole : a.warp.role ≠ .exposed) :
    (a.led all p).warp.target = companion? all p a.warp :=
  if_neg hrole

/-! ## Letters -/

theorem Draft.letter_leads (h : Draft w uses register rows) (ha : WarpAt w.rows uses p a)
    (hrole : a.warp.role = .letter) (hglyph : a.glyph ≠ '.') :
    Pos.FirstOf (fun q => q ≠ p ∧ LetterAt w.rows uses a.path a.glyph q) a.warp.target := by
  obtain ⟨a₀, ha₀, rfl⟩ := h.warpAt_draft ha
  have hletter : a₀.warp.role = .letter := hrole
  rw [led_target (by simp [hletter])]
  refine (companion?_firstOf _ _ _).congr ?_
  intro q
  constructor
  · rintro ⟨v, hv, hlink, hne, -⟩
    obtain ⟨path, glyph, hb⟩ := h.warpAt_of_mem hv
    rcases (h.link_eq_iff ha₀ hb).mp hlink with ⟨hbrole, -, hpath, hsame⟩ | ⟨_, _, -, hon⟩
    · have hbglyph : glyph ≠ '.' := by
        rw [show glyph = a₀.glyph from hsame]
        exact hglyph
      exact ⟨hne, _, h.warpAt_world hb hbglyph, hbrole, hpath, hsame⟩
    · -- A letter is not a side of an import.
      rcases hon with ⟨hentrance, -⟩ | ⟨hexposed, -⟩
      · cases hletter.symm.trans hentrance
      · cases hletter.symm.trans hexposed
  · rintro ⟨hne, b, hb, hbrole, hpath, hsame⟩
    obtain ⟨b₀, hb₀, rfl⟩ := h.warpAt_draft hb
    refine ⟨b₀.warp, mem_warps.mpr ⟨b₀.glyph, hb₀.cell⟩, ?_, hne, ?_⟩
    · exact (h.link_eq_iff ha₀ hb₀).mpr (.inl ⟨hbrole, hletter, hpath, hsame⟩)
    · intro hentrance
      cases hletter.symm.trans hentrance

theorem target_of_not_return {v : Warp} (h : v.role.isReturn = false) :
    (CellKind.warp v).target = .ok v.target := by
  simp [CellKind.target, h]

theorem leadsTo?_of_warpAt (ha : WarpAt w.rows uses p a) (hrole : a.warp.role.isReturn = false) :
    w.leadsTo? p = a.warp.target := by
  unfold leadsTo?
  rw [ha.cell.cell?]
  show (CellKind.warp a.warp).target.toOption.bind id = _
  rw [target_of_not_return hrole]
  rfl

/-- Of two cells with the same letter, each leads to the other if there is no third
    one. -/
theorem Draft.letter_swaps {path : List Char} {glyph : Char} {q : Pos}
    (h : Draft w uses register rows) (hglyph : glyph ≠ '.') (hne : p ≠ q)
    (hboth : ∀ r, LetterAt w.rows uses path glyph r ↔ r = p ∨ r = q) :
    w.leadsTo? p = some q := by
  obtain ⟨a, ha, hrole, rfl, rfl⟩ := (hboth p).mpr (.inl rfl)
  have hother : Pos.FirstOf (fun r => r ≠ p ∧ LetterAt w.rows uses a.path a.glyph r) (some q) := by
    refine ⟨⟨Ne.symm hne, (hboth q).mpr (.inr rfl)⟩, ?_⟩
    intro r ⟨hr, hletter⟩
    exact .inl (((hboth r).mp hletter).resolve_left hr)
  rw [leadsTo?_of_warpAt ha (by simp [hrole, WarpRole.isReturn])]
  exact (h.letter_leads ha hrole hglyph).unique hother

/-! ## Aliases -/

/-- What stands at the site of a warp of the draft. -/
theorem Draft.warp_site (h : Draft w uses register rows) (ha : WarpAt (operated rows) uses p a) :
    ∃ u ∈ uses, ∃ y line, u.path = a.path ∧ (rowsOf u.text)[y]? = some line ∧ a.glyph ∈ line ∧
      startsWithPercent line = false ∧
      warpKindAt (!u.path.isEmpty) (rowsOf u.text) y line a.glyph =
        .warp ⟨a.warp.role, none, none⟩ := by
  obtain ⟨row', hrow', hopen, hc⟩ := ha.cell.found
  rw [List.getElem?_map] at hrow'
  obtain ⟨row, hrow, rfl⟩ := Option.map_eq_some_iff.mp hrow'
  obtain ⟨⟨u, y⟩, hsite, line, hline, hlooks⟩ := forall₂_getElem? h.drawn hrow
  have howner := ha.owner
  rw [owners_eq, List.getElem?_map, hsite] at howner
  have hu : u ∈ uses := by
    obtain ⟨u', hu', hmem⟩ := List.mem_flatMap.mp (List.mem_of_getElem? hsite)
    obtain ⟨i, hi, heq⟩ := List.mem_mapIdx.mp hmem
    cases heq
    exact hu'
  -- The cell is as it was before operators were recognised, and shows what the rule says.
  have hmem := mem_of_mem_markOperators (List.mem_of_getElem? hc) rfl
  have hshown : (a.glyph, CellKind.warp ⟨a.warp.role, none, none⟩) ∈ row.map Cell.look :=
    List.mem_map.mpr ⟨_, hmem, rfl⟩
  rw [hlooks] at hshown
  obtain ⟨g, hg, heq⟩ := List.mem_map.mp hshown
  obtain ⟨rfl, hkind⟩ := Prod.mk.inj heq
  refine ⟨u, hu, y, line, Option.some.inj howner, hline, hg, ?_, hkind⟩
  have hfirst : (row.map Cell.look).map Prod.fst = line := by
    rw [hlooks]
    exact map_fst_row line _
  rw [← hfirst, ← isDirective_eq, ← isDirective_became (markOperators_became none row)]
  exact hopen

/-- An exposed cell has a character that a row of its text exposes. -/
theorem Draft.exposed_glyph (h : Draft w uses register rows)
    (ha : WarpAt (operated rows) uses p a) (hrole : a.warp.role = .exposed) :
    ∃ u ∈ uses, u.path = a.path ∧ ∃ line ∈ rowsOf u.text, exposedBy? line = some a.glyph := by
  obtain ⟨u, hu, y, line, hpath, -, -, -, hkind⟩ := h.warp_site ha
  refine ⟨u, hu, hpath, ?_⟩
  rw [hrole] at hkind
  unfold warpKindAt at hkind
  split at hkind
  · cases hkind
  · split at hkind
    · cases hkind
    · split at hkind
      · next hexposed =>
        obtain ⟨line, hline, hby⟩ := List.exists_of_findSome?_eq_some hexposed.2.2
        exact ⟨line, List.mem_of_mem_take (List.mem_reverse.mp hline), hby⟩
      · cases hkind

/-- A library is imported for every alias. -/
theorem Draft.entrance_import {shelf : Shelf} {program : List Char}
    (h : Draft w uses register rows) (huses : IsExpansion shelf program uses)
    (ha : WarpAt w.rows uses p a) (hrole : a.warp.role = .entrance) :
    ∃ u ∈ uses, u.path = a.path ++ [a.glyph] := by
  obtain ⟨a₀, ha₀, rfl⟩ := h.warpAt_draft ha
  obtain ⟨u, hu, y, line, hpath, hline, hg, hopen, hkind⟩ := h.warp_site ha₀
  have hentrance : a₀.warp.role = .entrance := hrole
  have hfile : (fileFor? u.text a₀.glyph).isSome = true := by
    rw [hentrance] at hkind
    unfold warpKindAt at hkind
    split at hkind
    · next halias =>
      obtain ⟨row, hrow, hsome⟩ := halias.2
      unfold fileFor?
      rw [List.findSome?_isSome_iff]
      exact ⟨row, List.mem_reverse.mpr hrow, hsome⟩
    · split at hkind
      · cases hkind
      · split at hkind <;> cases hkind
  show ∃ v ∈ uses, v.path = a₀.path ++ [a₀.glyph]
  rw [← hpath, huses.leads_on u hu]
  unfold aliasesUsed
  rw [List.mem_eraseDups, List.mem_filter]
  refine ⟨List.mem_flatten.mpr ⟨line, List.mem_filter.mpr ⟨?_, ?_⟩, hg⟩, hfile⟩
  · exact List.mem_of_getElem? hline
  · rw [hopen]
    rfl

/-- An alias and an exposed cell share a number if the cell belongs to the library of
    the alias. -/
theorem Draft.link_eq_of_entrance {q : Pos} (h : Draft w uses register rows)
    (ha : WarpAt (operated rows) uses p a) (hb : WarpAt (operated rows) uses q b)
    (hentrance : a.warp.role = .entrance) (hexposed : b.warp.role = .exposed) :
    b.warp.link = a.warp.link ↔ b.path = a.path ++ [a.glyph] := by
  rw [h.link_eq_iff ha hb]
  constructor
  · rintro (⟨hletter, -⟩ | ⟨path, c, honB, honA⟩)
    · cases hexposed.symm.trans hletter
    · rcases honA with ⟨-, rfl, rfl⟩ | ⟨hno, -⟩
      · rcases honB with ⟨hno, -⟩ | ⟨-, hpath⟩
        · cases hexposed.symm.trans hno
        · exact hpath
      · cases hentrance.symm.trans hno
  · intro hpath
    exact .inr ⟨a.path, a.glyph, .inr ⟨hexposed, hpath⟩, .inl ⟨hentrance, rfl, rfl⟩⟩

theorem Draft.entrance_leads (h : Draft w uses register rows) (ha : WarpAt w.rows uses p a)
    (hrole : a.warp.role = .entrance)
    (hdots : ∀ u ∈ uses, u.path = a.path ++ [a.glyph] →
      ∀ line ∈ rowsOf u.text, exposedBy? line ≠ some '.') :
    Pos.FirstOf (ExposedAt w.rows uses (a.path ++ [a.glyph])) a.warp.target := by
  obtain ⟨a₀, ha₀, rfl⟩ := h.warpAt_draft ha
  have hentrance : a₀.warp.role = .entrance := hrole
  rw [led_target (by simp [hentrance])]
  refine (companion?_firstOf _ _ _).congr ?_
  intro q
  constructor
  · rintro ⟨v, hv, hlink, -, hexposed⟩
    obtain ⟨path, glyph, hb⟩ := h.warpAt_of_mem hv
    have hpath := (h.link_eq_of_entrance ha₀ hb hentrance (hexposed hentrance)).mp hlink
    -- No row of the library exposes a dot, so the cell is not one.
    obtain ⟨u, hu, hupath, line, hline, hby⟩ := h.exposed_glyph hb (hexposed hentrance)
    have hglyph : glyph ≠ '.' := by
      rintro rfl
      exact hdots u hu (hupath.trans hpath) line hline hby
    exact ⟨_, h.warpAt_world hb hglyph, hexposed hentrance, hpath⟩
  · rintro ⟨b, hb, hexposed, hpath⟩
    obtain ⟨b₀, hb₀, rfl⟩ := h.warpAt_draft hb
    refine ⟨b₀.warp, mem_warps.mpr ⟨b₀.glyph, hb₀.cell⟩, ?_, ?_, fun _ => hexposed⟩
    · exact (h.link_eq_of_entrance ha₀ hb₀ hentrance hexposed).mpr hpath
    · -- The two stand in different texts.
      rintro rfl
      have howner := ha₀.owner.symm.trans hb₀.owner
      have hlen := congrArg List.length (Option.some.inj howner)
      rw [show b₀.path = a₀.path ++ [a₀.glyph] from hpath, List.length_append] at hlen
      simp at hlen

end draft

/-! ## Worlds -/

/-- In a world that is built, a letter leads to the first other cell of its text with
    this letter, so that two such cells lead to each other; and an alias leads to the
    first exposed cell of the library that is imported for it. -/
theorem build_connected {shelf : Shelf} {program : String} {w : World}
    (h : build shelf program = .ok w) :
    ∃ uses, IsExpansion shelf program.toList uses ∧ (uses.map FileUse.path).Nodup ∧
      Connected w uses := by
  obtain ⟨uses, register, rows, huses, hdraft⟩ := build_draft h
  refine ⟨uses, huses, huses.paths_nodup, ?_, ?_, ?_, ?_⟩
  · intro p glyph v hopen
    obtain ⟨u, hu, howner⟩ := hdraft.owned hopen
    exact ⟨u, hu, hopen, howner⟩
  · intro p a ha hrole hglyph
    refine ⟨a.warp.target, target_of_not_return (by simp [hrole, WarpRole.isReturn]), ?_⟩
    exact hdraft.letter_leads ha hrole hglyph
  · intro path glyph p q hglyph hne hboth
    have hboth' : ∀ r, LetterAt w.rows uses path glyph r ↔ r = q ∨ r = p := by
      intro r
      rw [hboth r, Or.comm]
    exact ⟨hdraft.letter_swaps hglyph hne hboth, hdraft.letter_swaps hglyph (Ne.symm hne) hboth'⟩
  · intro p a ha hrole
    obtain ⟨u, hu, hpath⟩ := hdraft.entrance_import huses ha hrole
    refine ⟨u, hu, hpath, ?_⟩
    intro hdots
    refine ⟨a.warp.target, target_of_not_return (by simp [hrole, WarpRole.isReturn]), ?_⟩
    rw [hpath]
    refine hdraft.entrance_leads ha hrole ?_
    intro v hv hvpath
    -- Only this library has the path.
    have hsame : v = u := List.inj_on_of_nodup_map huses.paths_nodup hv hu (hvpath.trans hpath.symm)
    rw [hsame]
    exact hdots

/-- The two letters `K` of the program lead to each other, and so do those of the
    library; both aliases of the program lead to the exposed cell of the library, and
    the alias in the library to that of the library in it. -/
theorem build_connected_nested :
    ∃ w, build nestedShelf nestedProgram = .ok w ∧ Connected w nestedUses ∧
      [⟨4, 2⟩, ⟨6, 2⟩, ⟨2, 2⟩, ⟨8, 2⟩, ⟨0, 6⟩, ⟨6, 6⟩, ⟨4, 6⟩].map (leadsTo? w) =
        [some ⟨6, 2⟩, some ⟨4, 2⟩, some ⟨2, 6⟩, some ⟨2, 6⟩, some ⟨6, 6⟩, some ⟨0, 6⟩,
          some ⟨0, 8⟩] := by
  have hrun : (build nestedShelf nestedProgram).toOption.map (fun w =>
      [⟨4, 2⟩, ⟨6, 2⟩, ⟨2, 2⟩, ⟨8, 2⟩, ⟨0, 6⟩, ⟨6, 6⟩, ⟨4, 6⟩].map (leadsTo? w)) =
      some [some ⟨6, 2⟩, some ⟨4, 2⟩, some ⟨2, 6⟩, some ⟨2, 6⟩, some ⟨6, 6⟩, some ⟨0, 6⟩,
        some ⟨0, 8⟩] := by decide +kernel
  obtain ⟨w, hw, hleads⟩ := exists_build_of_map hrun
  obtain ⟨uses, huses, -, hconnected⟩ := build_connected hw
  rw [← huses.unique nested_isExpansion] at hconnected
  exact ⟨w, hw, hconnected, hleads⟩

end DotPaths.World
