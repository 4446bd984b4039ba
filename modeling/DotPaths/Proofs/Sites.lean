import DotPaths.Proofs.Hygiene
import DotPaths.Proofs.Kinds

/-! # Sites

    A cell of a world has a position, and it has a site: the text from which its
    row comes, and the number of the row in this text.  Passes over a drawing are
    told here by what they make of the cell at a position, and the drawn rows by
    what stands at a site.

    - `Pos.firstOf_find?`: a search through the cells of open rows, which are listed
      row by row, finds the first one.
    - `OpenAt.finish`, `OpenAt.of_finish`: what finishing makes of the cell at a
      position.
    - `build_draft`: the rows from which a world is finished show what stands at
      their sites.
-/

namespace DotPaths

/-! ## The order of the rows -/

/-- The first position with a property, or none if no position has it. -/
def Pos.FirstOf (P : Pos → Prop) : Option Pos → Prop
  | some q => P q ∧ ∀ r, P r → r = q ∨ q.Before r
  | none => ∀ q, ¬ P q

theorem Pos.FirstOf.congr {P Q : Pos → Prop} {t : Option Pos} (h : FirstOf P t)
    (hPQ : ∀ q, P q ↔ Q q) : FirstOf Q t := by
  have heq : P = Q := funext fun q => propext (hPQ q)
  rw [← heq]
  exact h

/-- There is only one first position. -/
theorem Pos.FirstOf.unique {P : Pos → Prop} {t t' : Option Pos} (h : FirstOf P t)
    (h' : FirstOf P t') : t = t' := by
  cases t with
  | none =>
    cases t' with
    | none => rfl
    | some q' => exact absurd h'.1 (h q')
  | some q =>
    cases t' with
    | none => exact absurd h.1 (h' q)
    | some q' =>
      rcases h.2 q' h'.1 with rfl | hbefore
      · rfl
      · rcases h'.2 q h.1 with rfl | hbefore'
        · rfl
        · unfold Before at hbefore hbefore'
          omega

/-- A search through positions that are listed in order finds the first one. -/
theorem Pos.firstOf_find? {α : Type} {l : List (Pos × α)} (f : Pos × α → Bool)
    (hl : l.Pairwise fun a b => a.1.Before b.1) :
    FirstOf (fun q => ∃ a, (q, a) ∈ l ∧ f (q, a) = true) ((l.find? f).map (·.1)) := by
  cases hfind : l.find? f with
  | none =>
    intro q ⟨a, hmem, hf⟩
    exact List.find?_eq_none.mp hfind (q, a) hmem hf
  | some x =>
    obtain ⟨hfx, before, after, rfl, hbefore⟩ := List.find?_eq_some_iff_append.mp hfind
    refine ⟨⟨x.2, by simp, hfx⟩, ?_⟩
    intro r ⟨a, hmem, hfr⟩
    have hnot : (r, a) ∉ before := by
      intro hin
      have hno := hbefore (r, a) hin
      rw [hfr] at hno
      cases hno
    rcases List.mem_cons.mp ((List.mem_append.mp hmem).resolve_left hnot) with rfl | hin
    · exact .inl rfl
    · exact .inr (List.rel_of_pairwise_cons (List.pairwise_append.mp hl).2.1 hin)

namespace World

/-! ## Finishing by positions -/

theorem openAt_connect {rows : Block} {p : Pos} {c' : Cell} :
    OpenAt (connect rows) p c' ↔
      ∃ c, OpenAt rows p c ∧ c' = connectCell (warps rows) p c := by
  -- Connecting keeps the characters, so the same rows are directives afterwards.
  have hdirective : ∀ (row : List Cell) (y : Nat),
      isDirective (row.zipIdx.map fun a =>
        connectCell (warps rows) ⟨(a.2 : Int), (y : Int)⟩ a.1) = isDirective row := by
    intro row y
    exact isDirective_became (forall₂_zipIdx (fun c x => connectCell_became _ _ c) row 0)
  have hcell : ∀ (row : List Cell) (y x : Nat),
      (row.zipIdx.map fun a => connectCell (warps rows) ⟨(a.2 : Int), (y : Int)⟩ a.1)[x]? =
        row[x]?.map (connectCell (warps rows) ⟨(x : Int), (y : Int)⟩) := by
    intro row y x
    rw [List.getElem?_map, List.getElem?_zipIdx, Option.map_map, Nat.zero_add]
    rfl
  have hrow : (connect rows)[p.y.toNat]? = rows[p.y.toNat]?.map fun row =>
      if isDirective row then row else row.zipIdx.map fun a =>
        connectCell (warps rows) ⟨(a.2 : Int), ((p.y.toNat : Nat) : Int)⟩ a.1 := by
    unfold connect
    rw [List.getElem?_map, List.getElem?_zipIdx, Option.map_map, Nat.zero_add]
    rfl
  constructor
  · rintro ⟨⟨hx, hy⟩, row', hrow', hopen', hc'⟩
    rw [hrow] at hrow'
    obtain ⟨row, hfound, rfl⟩ := Option.map_eq_some_iff.mp hrow'
    by_cases hopen : isDirective row = true
    · rw [if_pos hopen, hopen] at hopen'
      cases hopen'
    · rw [if_neg hopen, hcell] at hc'
      obtain ⟨c, hc, rfl⟩ := Option.map_eq_some_iff.mp hc'
      refine ⟨c, ⟨⟨hx, hy⟩, row, hfound, by simpa using hopen, hc⟩, ?_⟩
      rw [Int.toNat_of_nonneg hx, Int.toNat_of_nonneg hy]
  · rintro ⟨c, ⟨⟨hx, hy⟩, row, hfound, hopen, hc⟩, rfl⟩
    refine ⟨⟨hx, hy⟩, _, ?_, (hdirective row p.y.toNat).trans hopen, ?_⟩
    · rw [hrow, hfound, Option.map_some, hopen]
      rfl
    · rw [hcell, hc, Int.toNat_of_nonneg hx, Int.toNat_of_nonneg hy]
      rfl

/-- Only the dots of a row are marked as starting points. -/
theorem getElem?_markStarts (seen : Bool) (row : List Cell) (x : Nat) :
    (markStarts seen row)[x]? = row[x]? ∨
      ∃ c, row[x]? = some c ∧ c.glyph = '.' ∧
        (markStarts seen row)[x]? = some { c with kind := .start } := by
  induction row generalizing seen x with
  | nil => exact .inl rfl
  | cons c₀ row ih =>
    unfold markStarts
    by_cases htick : (c₀.glyph == '\x60') = true
    · rw [if_pos htick]
      cases seen with
      | true => exact .inl rfl
      | false =>
        cases x with
        | zero => exact .inl rfl
        | succ x => exact ih true x
    · rw [if_neg htick]
      by_cases hdot : (c₀.glyph == '.') = true
      · rw [if_pos hdot]
        cases x with
        | zero => exact .inr ⟨c₀, rfl, by simpa using hdot, rfl⟩
        | succ x => exact ih seen x
      · rw [if_neg hdot]
        cases x with
        | zero => exact .inl rfl
        | succ x => exact ih seen x

section finishing
variable {rows : Block} {p : Pos} {c c' : Cell}

theorem isDirective_markStarts (row : List Cell) :
    isDirective (markStarts false row) = isDirective row :=
  isDirective_became (markStarts_became false row)

theorem OpenAt.of_markStarts (h : OpenAt (rows.map (markStarts false)) p c)
    (hc : c.kind ≠ .start) : OpenAt rows p c := by
  obtain ⟨row', hrow', hopen, hcell⟩ := h.found
  rw [List.getElem?_map] at hrow'
  obtain ⟨row, hrow, rfl⟩ := Option.map_eq_some_iff.mp hrow'
  rw [isDirective_markStarts] at hopen
  refine ⟨h.inside, row, hrow, hopen, ?_⟩
  rcases getElem?_markStarts false row p.x.toNat with hsame | ⟨c₀, -, -, hstart⟩
  · exact hsame.symm.trans hcell
  · rw [hstart] at hcell
    rw [← Option.some.inj hcell] at hc
    exact absurd rfl hc

theorem OpenAt.markStarts (h : OpenAt rows p c) (hc : c.glyph ≠ '.') :
    OpenAt (rows.map (markStarts false)) p c := by
  obtain ⟨row, hrow, hopen, hcell⟩ := h.found
  refine ⟨h.inside, World.markStarts false row, ?_, ?_, ?_⟩
  · rw [List.getElem?_map, hrow]
    rfl
  · rw [isDirective_markStarts]
    exact hopen
  · rcases getElem?_markStarts false row p.x.toNat with hsame | ⟨c₀, hc₀, hdot, -⟩
    · exact hsame.trans hcell
    · cases hc₀.symm.trans hcell
      exact absurd hdot hc

/-- A finished cell that is no starting point: its operator was recognised, and then
    it was connected. -/
theorem OpenAt.of_finish (h : OpenAt (finish rows) p c') (hc' : c'.kind ≠ .start) :
    ∃ c, OpenAt (rows.map (markOperators none)) p c ∧
      c' = connectCell (warps (rows.map (markOperators none))) p c :=
  openAt_connect.mp (h.of_markStarts hc')

/-- What finishing makes of a cell that is no dot. -/
theorem OpenAt.finish (h : OpenAt (rows.map (markOperators none)) p c) (hc : c.glyph ≠ '.') :
    OpenAt (World.finish rows) p (connectCell (warps (rows.map (markOperators none))) p c) := by
  apply OpenAt.markStarts
  · exact openAt_connect.mpr ⟨c, h, rfl⟩
  · rw [(connectCell_became _ p c).glyph]
    exact hc

end finishing

/-! ## Sites of rows -/

/-- For each row of an expansion, its text and the number of the row in it. -/
def sites (uses : List FileUse) : List (FileUse × Nat) :=
  uses.flatMap fun u => (rowsOf u.text).mapIdx fun y _ => (u, y)

theorem owners_eq (uses : List FileUse) : owners uses = (sites uses).map (·.1.path) := by
  unfold owners sites
  rw [List.map_flatMap]
  congr 1
  funext u
  rw [map_mapIdx]
  exact (mapIdx_eq_map (fun _ => u.path) (rowsOf u.text)).symm

/-- The row shows what stands at its site: the characters of a line of the text, and
    their kinds by the rule, as long as the drawing is not finished. -/
def DrawnAt (row : List Cell) (site : FileUse × Nat) : Prop :=
  ∃ line, (rowsOf site.1.text)[site.2]? = some line ∧
    row.map Cell.look = line.map fun c =>
      (c, warpKindAt (!site.1.path.isEmpty) (rowsOf site.1.text) site.2 line c)

/-- The rows of one text. -/
theorem drawnAt_block {register : List Bond} {block : Block} {u : FileUse}
    (hdrawn : Drawn register block u) (h : Classed (!u.path.isEmpty) block) :
    List.Forall₂ DrawnAt block ((rowsOf u.text).mapIdx fun y _ => (u, y)) := by
  obtain ⟨texts, hshows⟩ := h
  obtain rfl : rowsOf u.text = texts := hdrawn.characters.symm.trans hshows.glyphs
  have hlooks : looks block = (rowsOf u.text).mapIdx fun y row => row.map fun c =>
      (c, warpKindAt (!u.path.isEmpty) (rowsOf u.text) y row c) := hshows
  have hlen : block.length = (rowsOf u.text).length := by
    have h := congrArg List.length hlooks
    rwa [looks, List.length_map, List.length_mapIdx] at h
  apply List.forall₂_iff_get.mpr
  refine ⟨by rw [hlen, List.length_mapIdx], ?_⟩
  intro y hy hy'
  have hline : y < (rowsOf u.text).length := by omega
  have hrow := congrArg (·[y]?) hlooks
  simp only [looks, List.getElem?_map, List.getElem?_mapIdx, List.getElem?_eq_getElem hy,
    List.getElem?_eq_getElem hline, Option.map_some, Option.some.injEq] at hrow
  simp only [List.get_eq_getElem, List.getElem_mapIdx]
  exact ⟨(rowsOf u.text)[y], List.getElem?_eq_getElem hline, hrow⟩

/-- A warp that leads nowhere yet, or no warp. -/
def LeadsNowhere (c : Cell) : Prop := ∀ v, c.kind = .warp v → v.target = none

theorem leadsNowhere_keptByDrawing : KeptByDrawing LeadsNowhere where
  plain _ _ hv := nomatch hv
  exposed _ _ v hv := by
    cases hv
    rfl
  letter _ v hv := by
    cases hv
    rfl
  entrance _ v hv := by
    cases hv
    rfl
  number linkFor c h := by
    rcases number_cases linkFor c with hsame | ⟨v, hv, hnumber⟩
    · rw [hsame]
      exact h
    · rw [hnumber]
      intro v' hv'
      cases hv'
      exact h v hv

/-- The rows are the drawing from which the world is finished.  Each of them shows
    what stands at its site, its warps are linked, and they lead nowhere yet. -/
structure Draft (w : World) (uses : List FileUse) (register : List Bond) (rows : Block) :
    Prop where
  finished : w.rows = finish rows
  nodup : register.Nodup
  linked : List.Forall₂ (RowLinked register) rows (owners uses)
  drawn : List.Forall₂ DrawnAt rows (sites uses)
  nowhere : AllCells LeadsNowhere rows

/-- A world that is built is finished from a draft of its expansion. -/
theorem build_draft {shelf : Shelf} {program : String} {w : World}
    (h : build shelf program = .ok w) :
    ∃ uses register rows, IsExpansion shelf program.toList uses ∧ Draft w uses register rows := by
  obtain ⟨blocks, hexpand, hrows⟩ := build_eq_ok h
  obtain ⟨uses, bonds, huses, hnodup, hclassed⟩ := expand_uses hexpand
  have hlinked : List.Forall₂ (List.Forall₂ (RowLinked bonds)) blocks
      (uses.map fun u => (rowsOf u.text).map fun _ => u.path) := by
    rw [List.forall₂_map_right_iff]
    exact hclassed.imp fun _ _ h => h.1.rowLinked
  have hdrawn : List.Forall₂ (List.Forall₂ DrawnAt) blocks
      (uses.map fun u => (rowsOf u.text).mapIdx fun y _ => (u, y)) := by
    rw [List.forall₂_map_right_iff]
    exact hclassed.imp fun _ _ h => drawnAt_block h.1 h.2
  have hnowhere : AllCells LeadsNowhere blocks.flatten :=
    expand_program_allCells leadsNowhere_keptByDrawing hexpand
  exact ⟨uses, bonds, blocks.flatten, huses, hrows, hnodup, List.rel_flatten hlinked,
    List.rel_flatten hdrawn, hnowhere⟩

end World

end DotPaths
