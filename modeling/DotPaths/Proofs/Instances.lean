import DotPaths.Proofs.Destinations
import DotPaths.Proofs.Replicas

/-! # Instances of a library

    A text may be imported more than once, by one program or by several.  Each time
    its rows are drawn anew, below those of the text that imports it, and they look
    the same.  Letters lead to letters of the same instance, and an alias leads to
    the exposed cell of its own instance; so the instances of a library that imports
    nothing are replicas of each other.

    - `LiesAt`: the rows of a text lie together, below what leads to it.
    - `Instance.replica`: instances are replicas.
    - `Instance.entrance_target`: their entrances lead to corresponding cells.
-/

namespace DotPaths.World

/-! ## Where a text lies -/

/-- The rows of the text at a path. -/
def rowsAt (uses : List FileUse) (path : List Char) : Region := fun p =>
  decide (0 ≤ p.y) && (owners uses)[p.y.toNat]? == some path

/-- Some rows below each other. -/
def band (top height : Nat) : Region := fun p => decide ((top : Int) ≤ p.y ∧ p.y < top + height)

/-- The rows of the text lie from row `top` on, and what leads to it lies above. -/
structure LiesAt (uses : List FileUse) (u : FileUse) (top : Nat) : Prop where
  site : ∀ k, k < (rowsOf u.text).length → (sites uses)[top + k]? = some (u, k)
  rows : rowsAt uses u.path = band top (rowsOf u.text).length
  below : ∀ path y, path <+: u.path → path ≠ u.path → (owners uses)[y]? = some path → y < top

theorem mem_of_mem_owners {uses : List FileUse} {path : List Char} (h : path ∈ owners uses) :
    ∃ u ∈ uses, u.path = path := by
  obtain ⟨u, hu, hmem⟩ := List.mem_flatMap.mp h
  obtain ⟨_, -, hpath⟩ := List.mem_map.mp hmem
  exact ⟨u, hu, hpath⟩

theorem liesAt_append {before after : List FileUse} {u : FileUse}
    (hordered : (before ++ u :: after).Pairwise fun u v => ¬ v.path <+: u.path)
    (hnodup : ((before ++ u :: after).map FileUse.path).Nodup) :
    LiesAt (before ++ u :: after) u (owners before).length := by
  have hlen : (sites before).length = (owners before).length := by
    rw [owners_eq, List.length_map]
  have hsites : sites (before ++ u :: after) =
      sites before ++ ((rowsOf u.text).mapIdx (fun y _ => (u, y)) ++ sites after) := by
    simp [sites]
  have howners : owners (before ++ u :: after) =
      owners before ++ ((rowsOf u.text).map (fun _ => u.path) ++ owners after) := by
    simp [owners]
  rw [List.map_append, List.map_cons, List.nodup_append, List.nodup_cons] at hnodup
  obtain ⟨-, ⟨hafter, -⟩, hbefore⟩ := hnodup
  -- Rows of other texts have other owners.
  have hmid : ∀ y, (owners (before ++ u :: after))[y]? = some u.path ↔
      (owners before).length ≤ y ∧ y < (owners before).length + (rowsOf u.text).length := by
    intro y
    rw [howners]
    by_cases hlt : y < (owners before).length
    · rw [List.getElem?_append_left hlt]
      refine ⟨?_, by omega⟩
      intro hy
      obtain ⟨v, hv, hpath⟩ := mem_of_mem_owners (List.mem_of_getElem? hy)
      exact absurd hpath (hbefore v.path (List.mem_map_of_mem hv) u.path (by simp))
    · rw [List.getElem?_append_right (by omega)]
      by_cases hlt' : y - (owners before).length < (rowsOf u.text).length
      · rw [List.getElem?_append_left (by simpa using hlt'), List.getElem?_map,
          List.getElem?_eq_getElem hlt']
        simp only [Option.map_some, true_iff]
        omega
      · rw [List.getElem?_append_right (by simpa using hlt')]
        refine ⟨?_, by omega⟩
        intro hy
        obtain ⟨v, hv, hpath⟩ := mem_of_mem_owners (List.mem_of_getElem? hy)
        exact absurd (List.mem_map.mpr ⟨v, hv, hpath⟩) hafter
  refine ⟨?_, ?_, ?_⟩
  · intro k hk
    rw [hsites, List.getElem?_append_right (by omega), hlen, Nat.add_sub_cancel_left,
      List.getElem?_append_left (by simpa using hk), List.getElem?_mapIdx,
      List.getElem?_eq_getElem hk]
    rfl
  · funext p
    unfold rowsAt band
    apply Bool.eq_iff_iff.mpr
    rw [Bool.and_eq_true, decide_eq_true_eq, beq_iff_eq, hmid, decide_eq_true_eq]
    omega
  · intro path y hprefix hne hy
    by_cases hlt : y < (owners before).length
    · exact hlt
    · -- The owner would come after the text, and its path would lead to it.
      rw [howners, List.getElem?_append_right (by omega)] at hy
      rcases List.mem_append.mp (List.mem_of_getElem? hy) with hmem | hmem
      · obtain ⟨_, -, hpath⟩ := List.mem_map.mp hmem
        exact absurd hpath.symm hne
      · obtain ⟨v, hv, hpath⟩ := mem_of_mem_owners hmem
        have hnot := (List.pairwise_cons.mp (List.pairwise_append.mp hordered).2.1).1 v hv
        rw [hpath] at hnot
        exact absurd hprefix hnot

theorem exists_liesAt {shelf : Shelf} {program : List Char} {uses : List FileUse} {u : FileUse}
    (huses : IsExpansion shelf program uses) (hu : u ∈ uses) : ∃ top, LiesAt uses u top := by
  obtain ⟨before, after, rfl⟩ := List.append_of_mem hu
  exact ⟨_, liesAt_append huses.paths_ordered huses.paths_nodup⟩

/-! ## The looks of an instance -/

/-- The world shows the text as a library, from row `top` on. -/
structure Instance (w : World) (uses : List FileUse) (u : FileUse) (top : Nat) : Prop where
  draft : ∃ register rows, Draft w uses register rows
  lies : LiesAt uses u top
  imported : u.path ≠ []
  only : ∀ v ∈ uses, v.path = u.path → v = u

theorem exists_instance {shelf : Shelf} {program : String} {w : World} {uses : List FileUse}
    {u : FileUse} (h : build shelf program = .ok w)
    (huses : IsExpansion shelf program.toList uses) (hu : u ∈ uses) (himported : u.path ≠ []) :
    ∃ top, Instance w uses u top := by
  obtain ⟨uses', register, rows, huses', hdraft⟩ := build_draft h
  obtain rfl := huses.unique huses'
  obtain ⟨top, hlies⟩ := exists_liesAt huses hu
  refine ⟨top, ⟨register, rows, hdraft⟩, hlies, himported, ?_⟩
  intro v hv hpath
  exact List.inj_on_of_nodup_map huses.paths_nodup hv hu hpath

/-- The displacement between two instances. -/
def offset (top top' : Nat) : Pos := ⟨0, (top' : Int) - top⟩

theorem add_offset_offset (p : Pos) (top top' : Nat) :
    p + offset top top' + offset top' top = p := by
  obtain ⟨x, y⟩ := p
  show Pos.mk _ _ = _
  simp only [offset, Pos.add_x, Pos.add_y, Pos.mk.injEq]
  omega

theorem Draft.looks_row {w : World} {uses : List FileUse} {register : List Bond} {rows : Block}
    {u : FileUse} {y k : Nat} {line : List Char} (h : Draft w uses register rows)
    (hsite : (sites uses)[y]? = some (u, k)) (hline : (rowsOf u.text)[k]? = some line) :
    (looks w.rows)[y]? = some (finishedRow (line.map fun c =>
      (c, warpKindAt (!u.path.isEmpty) (rowsOf u.text) k line c))) := by
  obtain ⟨row, hrow, line', hline', hlook⟩ := forall₂_getElem? h.drawn.flip hsite
  cases hline.symm.trans hline'
  rw [h.finished, looks_finish, looks, List.getElem?_map, List.getElem?_map, hrow, Option.map_some,
    Option.map_some, hlook]

section instances
variable {w w' : World} {uses uses' : List FileUse} {u u' : FileUse} {top top' : Nat} {p : Pos}

theorem Instance.rowsAt_offset (h : Instance w uses u top) (h' : Instance w' uses' u' top')
    (htext : u'.text = u.text) (p : Pos) :
    rowsAt uses' u'.path (p + offset top top') = rowsAt uses u.path p := by
  rw [h'.lies.rows, h.lies.rows, htext]
  unfold band offset
  apply Bool.eq_iff_iff.mpr
  rw [decide_eq_true_eq, decide_eq_true_eq, Pos.add_y]
  show _ ≤ p.y + ((top' : Int) - top) ∧ p.y + ((top' : Int) - top) < _ ↔ _
  omega

/-- Corresponding rows look alike. -/
theorem Instance.rows_alike (h : Instance w uses u top) (h' : Instance w' uses' u' top')
    (htext : u'.text = u.text) (hp : rowsAt uses u.path p = true) :
    ∃ row row', w.rows[p.y.toNat]? = some row ∧
      w'.rows[(p + offset top top').y.toNat]? = some row' ∧
      row'.map Cell.look = row.map Cell.look ∧ 0 ≤ p.y ∧ 0 ≤ (p + offset top top').y := by
  rw [h.lies.rows, band, decide_eq_true_eq] at hp
  obtain ⟨k, hk⟩ : ∃ k : Nat, p.y = top + k := ⟨(p.y - top).toNat, by omega⟩
  have hlt : k < (rowsOf u.text).length := by omega
  have hy : p.y.toNat = top + k := by omega
  have hy' : (p + offset top top').y = ((top' + k : Nat) : Int) := by
    show p.y + ((top' : Int) - top) = _
    push_cast
    omega
  obtain ⟨register, rows, hdraft⟩ := h.draft
  obtain ⟨register', rows', hdraft'⟩ := h'.draft
  obtain ⟨line, hline⟩ : ∃ line, (rowsOf u.text)[k]? = some line :=
    ⟨_, List.getElem?_eq_getElem hlt⟩
  have hlooks := hdraft.looks_row (h.lies.site k hlt) hline
  have hlooks' := hdraft'.looks_row (h'.lies.site k (by rw [htext]; exact hlt))
    (by rw [htext]; exact hline)
  -- Both are imported, and the text is the same.
  have himported : (!u'.path.isEmpty) = (!u.path.isEmpty) := by
    rw [List.isEmpty_eq_false_iff.mpr h.imported, List.isEmpty_eq_false_iff.mpr h'.imported]
  rw [himported, htext, ← hlooks] at hlooks'
  unfold looks at hlooks hlooks'
  rw [List.getElem?_map] at hlooks
  rw [List.getElem?_map, List.getElem?_map] at hlooks'
  obtain ⟨row, hrow, -⟩ := Option.map_eq_some_iff.mp hlooks
  rw [hrow] at hlooks'
  obtain ⟨row', hrow', hsame⟩ := Option.map_eq_some_iff.mp hlooks'
  refine ⟨row, row', hy ▸ hrow, ?_, hsame, by omega, by omega⟩
  rw [hy', Int.toNat_natCast]
  exact hrow'

/-- Corresponding cells look alike. -/
theorem Instance.cells_alike (h : Instance w uses u top) (h' : Instance w' uses' u' top')
    (htext : u'.text = u.text) (hp : rowsAt uses u.path p = true) :
    (w'.cell? (p + offset top top')).map Cell.look = (w.cell? p).map Cell.look := by
  obtain ⟨row, row', hrow, hrow', hsame, hy, hy'⟩ := h.rows_alike h' htext hp
  have hx : (p + offset top top').x = p.x := Int.add_zero p.x
  unfold World.cell?
  rw [hx, hrow, hrow']
  by_cases hneg : p.x < 0
  · simp [hneg]
  · -- Both positions are inside, and the rows are read at the same column.
    have hpos : ¬ (decide (p.x < 0) || decide (p.y < 0)) = true := by simp; omega
    have hpos' : ¬ (decide (p.x < 0) || decide ((p + offset top top').y < 0)) = true := by
      simp only [Bool.or_eq_true, decide_eq_true_eq]
      omega
    rw [if_neg hpos, if_neg hpos']
    show row'[p.x.toNat]?.map Cell.look = row[p.x.toNat]?.map Cell.look
    rw [← List.getElem?_map, ← List.getElem?_map, hsame]

/-! ## Warps of an instance -/

/-- Where an instance has a warp in an open row, the others have one with the same
    character and role. -/
theorem Instance.warpAt_offset {a : OpenWarp} (h : Instance w uses u top)
    (h' : Instance w' uses' u' top') (htext : u'.text = u.text) (ha : WarpAt w.rows uses p a)
    (hpath : a.path = u.path) :
    ∃ v, WarpAt w'.rows uses' (p + offset top top') ⟨u'.path, a.glyph, v⟩ ∧
      v.role = a.warp.role := by
  obtain ⟨hx, hy⟩ := ha.cell.inside
  have hp : rowsAt uses u.path p = true := by
    rw [rowsAt, Bool.and_eq_true, decide_eq_true_eq, beq_iff_eq]
    exact ⟨hy, hpath ▸ ha.owner⟩
  obtain ⟨row, row', hrow, hrow', hsame, -, hy'⟩ := h.rows_alike h' htext hp
  obtain ⟨row₀, hrow₀, hopen, hc⟩ := ha.cell.found
  cases hrow.symm.trans hrow₀
  have hopen' : isDirective row' = false := by
    rw [isDirective_eq, hsame, ← isDirective_eq]
    exact hopen
  -- The cell in the same column of the other row.
  have hlook : row'[p.x.toNat]?.map Cell.look = some (a.glyph, .warp ⟨a.warp.role, none, none⟩) := by
    rw [← List.getElem?_map, hsame, List.getElem?_map, hc]
    rfl
  obtain ⟨c', hc', hlook⟩ := Option.map_eq_some_iff.mp hlook
  obtain ⟨hglyph, hkind⟩ := Prod.mk.inj hlook
  obtain ⟨v, hv, hrole⟩ : ∃ v, c'.kind = .warp v ∧ v.role = a.warp.role := by
    cases hk : c'.kind with
    | warp v =>
      have hbare : CellKind.warp ⟨v.role, none, none⟩ = .warp ⟨a.warp.role, none, none⟩ := by
        rw [hk] at hkind
        exact hkind
      exact ⟨v, rfl, (Warp.mk.inj (CellKind.warp.inj hbare)).1⟩
    | _ =>
      rw [hk] at hkind
      cases hkind
  have howner : rowsAt uses' u'.path (p + offset top top') = true := by
    rw [h.rowsAt_offset h' htext]
    exact hp
  rw [rowsAt, Bool.and_eq_true, beq_iff_eq] at howner
  have hx' : (p + offset top top').x = p.x := Int.add_zero p.x
  refine ⟨v, ⟨⟨⟨by omega, hy'⟩, row', hrow', hopen', ?_⟩, howner.2⟩, hrole⟩
  rw [hx', hc', ← hv, ← hglyph]

theorem Instance.letterAt_offset {glyph : Char} (h : Instance w uses u top)
    (h' : Instance w' uses' u' top') (htext : u'.text = u.text) :
    LetterAt w.rows uses u.path glyph p ↔
      LetterAt w'.rows uses' u'.path glyph (p + offset top top') := by
  constructor
  · rintro ⟨a, ha, hrole, hpath, rfl⟩
    obtain ⟨v, hv, hsame⟩ := h.warpAt_offset h' htext ha hpath
    exact ⟨_, hv, hsame.trans hrole, rfl, rfl⟩
  · rintro ⟨a, ha, hrole, hpath, rfl⟩
    obtain ⟨v, hv, hsame⟩ := h'.warpAt_offset h htext.symm ha hpath
    rw [add_offset_offset] at hv
    exact ⟨_, hv, hsame.trans hrole, rfl, rfl⟩

theorem Instance.exposedAt_offset (h : Instance w uses u top) (h' : Instance w' uses' u' top')
    (htext : u'.text = u.text) :
    ExposedAt w.rows uses u.path p ↔ ExposedAt w'.rows uses' u'.path (p + offset top top') := by
  constructor
  · rintro ⟨a, ha, hrole, hpath⟩
    obtain ⟨v, hv, hsame⟩ := h.warpAt_offset h' htext ha hpath
    exact ⟨_, hv, hsame.trans hrole, rfl⟩
  · rintro ⟨a, ha, hrole, hpath⟩
    obtain ⟨v, hv, hsame⟩ := h'.warpAt_offset h htext.symm ha hpath
    rw [add_offset_offset] at hv
    exact ⟨_, hv, hsame.trans hrole, rfl⟩

/-- The first position with a property, some rows further down. -/
theorem firstOf_offset {P P' : Pos → Prop} {t : Option Pos} (h : Pos.FirstOf P t)
    (hiff : ∀ q, P q ↔ P' (q + offset top top')) :
    Pos.FirstOf P' (t.map (· + offset top top')) := by
  have hback : ∀ q, P' q → P (q + offset top' top) := by
    intro q hq
    rw [hiff, add_offset_offset]
    exact hq
  cases t with
  | none => exact fun q hq => h _ (hback q hq)
  | some q =>
    refine ⟨(hiff q).mp h.1, ?_⟩
    intro r hr
    rcases h.2 _ (hback r hr) with heq | hbefore
    · left
      rw [← heq]
      show r = r + offset top' top + offset top top'
      rw [add_offset_offset]
    · right
      unfold Pos.Before at hbefore ⊢
      simp only [offset, Pos.add_x, Pos.add_y] at hbefore ⊢
      omega

/-- No warp of a directive leads anywhere. -/
theorem Draft.target_of_directive {register : List Bond} {rows : Block} {row : List Cell} {c : Cell}
    {v : Warp} {y : Nat} (h : Draft w uses register rows) (hrow : w.rows[y]? = some row)
    (hdirective : isDirective row = true) (hc : c ∈ row) (hv : c.kind = .warp v) :
    v.target = none := by
  rw [h.finished, finish, List.getElem?_map] at hrow
  obtain ⟨row₁, hrow₁, rfl⟩ := Option.map_eq_some_iff.mp hrow
  rw [isDirective_markStarts] at hdirective
  rw [connect, List.getElem?_map, List.getElem?_zipIdx, Option.map_map] at hrow₁
  obtain ⟨row₂, hrow₂, heq⟩ := Option.map_eq_some_iff.mp hrow₁
  -- A directive is not connected, so the row is as it was with its operators.
  have hsame : row₁ = row₂ := by
    by_cases hdirective₂ : isDirective row₂ = true
    · simpa [hdirective₂] using heq.symm
    · have hrow₁ : row₁ = row₂.zipIdx.map fun a =>
          connectCell (warps (rows.map (markOperators none)))
            ⟨(a.2 : Int), ((0 + y : Nat) : Int)⟩ a.1 := by
        simpa [hdirective₂] using heq.symm
      rw [hrow₁, isDirective_became (forall₂_zipIdx (fun c x => connectCell_became _ _ c) row₂ 0)]
        at hdirective
      exact absurd hdirective hdirective₂
  rw [List.getElem?_map] at hrow₂
  obtain ⟨row₀, hrow₀, rfl⟩ := Option.map_eq_some_iff.mp hrow₂
  subst hsame
  have hmem : c ∈ markOperators none row₀ := by
    obtain ⟨x, hx⟩ := List.mem_iff_getElem?.mp hc
    rcases getElem?_markStarts false (markOperators none row₀) x with hkept | ⟨c₀, -, -, hstart⟩
    · exact List.mem_of_getElem? (hkept.symm.trans hx)
    · rw [hstart] at hx
      rw [← Option.some.inj hx] at hv
      cases hv
  exact h.nowhere row₀ (List.mem_of_getElem? hrow₀) c (mem_of_mem_markOperators hmem hv) v hv

/-- The text imports nothing, and there is no dot in it. -/
def IsPlain (text : List Char) : Prop :=
  ∀ line ∈ rowsOf text, ∀ c ∈ line, c ≠ '.' ∧ ∀ r ∈ rowsOf text, aliasRow? c r = none

instance (text : List Char) : Decidable (IsPlain text) :=
  -- The characters of each line are gone through, not all characters that there are.
  @List.decidableBAll _ _ (fun line => List.decidableBAll _ line) (rowsOf text)

/-- The cells of a plain library: they are no dots, and warps are letters or
    exposed. -/
theorem Instance.cell_plain {c : Cell} (h : Instance w uses u top) (hplain : IsPlain u.text)
    (hp : rowsAt uses u.path p = true) (hc : w.cell? p = some c) :
    c.glyph ≠ '.' ∧ ∀ v, c.kind.warp? = some v → v.role = .letter ∨ v.role = .exposed := by
  rw [h.lies.rows, band, decide_eq_true_eq] at hp
  obtain ⟨k, hk⟩ : ∃ k : Nat, p.y = top + k := ⟨(p.y - top).toNat, by omega⟩
  have hlt : k < (rowsOf u.text).length := by omega
  obtain ⟨register, rows, hdraft⟩ := h.draft
  obtain ⟨line, hline⟩ : ∃ line, (rowsOf u.text)[k]? = some line :=
    ⟨_, List.getElem?_eq_getElem hlt⟩
  have hlooks := hdraft.looks_row (h.lies.site k hlt) hline
  -- The look of the cell is what the rule says of a character of the line.
  have hlook : ∃ g ∈ line, ∃ x, c.look = (g, kindInRow line x g
      (warpKindAt (!u.path.isEmpty) (rowsOf u.text) k line g)) := by
    unfold World.cell? at hc
    split at hc
    · cases hc
    · obtain ⟨row, hrow, hcell⟩ := Option.bind_eq_some_iff.mp hc
      rw [show p.y.toNat = top + k by omega] at hrow
      rw [looks, List.getElem?_map, hrow, Option.map_some, Option.some.injEq] at hlooks
      have hat := congrArg (·[p.x.toNat]?) hlooks
      simp only [List.getElem?_map, hcell, Option.map_some, finishedRow, map_fst_row,
        List.getElem?_mapIdx] at hat
      obtain ⟨q, hq, hpair⟩ := Option.map_eq_some_iff.mp hat.symm
      obtain ⟨g, hg, rfl⟩ := Option.map_eq_some_iff.mp hq
      exact ⟨g, List.mem_of_getElem? hg, p.x.toNat, hpair.symm⟩
  obtain ⟨g, hg, x, hlook⟩ := hlook
  obtain ⟨hdot, halias⟩ := hplain line (List.mem_of_getElem? hline) g hg
  obtain ⟨hglyph, hkind⟩ := Prod.mk.inj hlook
  refine ⟨hglyph ▸ hdot, ?_⟩
  intro v hv
  have hbare : c.kind.bare = .warp ⟨v.role, none, none⟩ := by
    cases hk : c.kind with
    | warp v' =>
      rw [hk] at hv
      cases hv
      rfl
    | _ =>
      rw [hk] at hv
      cases hv
  rw [hbare] at hkind
  -- Of the cases of the rule only those for letters and exposed cells are left.
  unfold kindInRow at hkind
  rw [if_neg (by simp [hdot])] at hkind
  split at hkind
  · cases hkind
  · split at hkind
    · cases hkind
    · unfold warpKindAt at hkind
      rw [if_neg (by rintro ⟨-, r, hr, hsome⟩; rw [halias r hr] at hsome; cases hsome)] at hkind
      split at hkind
      · exact .inl (congrArg Warp.role (CellKind.warp.inj hkind))
      · split at hkind
        · exact .inr (congrArg Warp.role (CellKind.warp.inj hkind))
        · cases hkind

/-- Letters lead to letters of the same instance. -/
theorem Instance.letter_target {c c' : Cell} {v v' : Warp} (h : Instance w uses u top)
    (h' : Instance w' uses' u' top') (htext : u'.text = u.text)
    (hp : rowsAt uses u.path p = true) (hc : w.cell? p = some c)
    (hc' : w'.cell? (p + offset top top') = some c') (hglyph : c'.glyph = c.glyph)
    (hdot : c.glyph ≠ '.') (hv : c.kind = .warp v) (hv' : c'.kind = .warp v')
    (hrole : v.role = .letter) (hrole' : v'.role = .letter) :
    v'.target = v.target.map (· + offset top top') := by
  obtain ⟨register, rows, hdraft⟩ := h.draft
  obtain ⟨register', rows', hdraft'⟩ := h'.draft
  obtain ⟨row, row', hrow, hrow', hsame, hy, hy'⟩ := h.rows_alike h' htext hp
  have hx : (p + offset top top').x = p.x := Int.add_zero p.x
  have hp' : rowsAt uses' u'.path (p + offset top top') = true := by
    rw [h.rowsAt_offset h' htext]
    exact hp
  -- The cells as members of their rows.
  have hcell : ∀ {w : World} {p : Pos} {row : List Cell} {c : Cell}, w.rows[p.y.toNat]? = some row →
      w.cell? p = some c → 0 ≤ p.x ∧ row[p.x.toNat]? = some c := by
    intro w p row c hrow hc
    unfold World.cell? at hc
    rw [hrow] at hc
    split at hc
    · cases hc
    · next hpos =>
      simp only [Bool.or_eq_true, decide_eq_true_eq, not_or] at hpos
      exact ⟨by omega, hc⟩
  obtain ⟨hx₀, hat⟩ := hcell hrow hc
  obtain ⟨hx₀', hat'⟩ := hcell hrow' hc'
  have hdirective : isDirective row' = isDirective row := by
    rw [isDirective_eq, hsame, ← isDirective_eq]
  by_cases hopen : isDirective row = true
  · rw [hdraft.target_of_directive hrow hopen (List.mem_of_getElem? hat) hv,
      hdraft'.target_of_directive hrow' (hdirective.trans hopen) (List.mem_of_getElem? hat') hv']
    rfl
  · -- In open rows each leads to the first other one of its instance.
    have hopen : isDirective row = false := by simpa using hopen
    rw [rowsAt, Bool.and_eq_true, beq_iff_eq] at hp hp'
    have ha : WarpAt w.rows uses p ⟨u.path, c.glyph, v⟩ :=
      ⟨⟨⟨hx₀, hy⟩, row, hrow, hopen, by rw [hat, ← hv]⟩, hp.2⟩
    have ha' : WarpAt w'.rows uses' (p + offset top top') ⟨u'.path, c.glyph, v'⟩ :=
      ⟨⟨⟨hx₀', hy'⟩, row', hrow', hdirective.trans hopen, by rw [hat', ← hv', ← hglyph]⟩, hp'.2⟩
    have hleads := hdraft.letter_leads ha hrole hdot
    have hleads' := hdraft'.letter_leads ha' hrole' hdot
    have hiff : ∀ q, q ≠ p ∧ LetterAt w.rows uses u.path c.glyph q ↔
        q + offset top top' ≠ p + offset top top' ∧
          LetterAt w'.rows uses' u'.path c.glyph (q + offset top top') := by
      intro q
      rw [h.letterAt_offset h' htext, ne_eq, ne_eq, Pos.add_left_inj]
    exact hleads'.unique (firstOf_offset hleads hiff)

theorem eq_of_bare_eq {k k' : CellKind} (h : k'.bare = k.bare) (hk : k.warp? = none) : k' = k := by
  cases k with
  | warp v => cases hk
  | _ =>
    cases k' with
    | warp v => cases h
    | _ => exact h

/-- Instances of a plain library are replicas of each other. -/
theorem Instance.replica (h : Instance w uses u top) (h' : Instance w' uses' u' top')
    (htext : u'.text = u.text) (hplain : IsPlain u.text) :
    Replica w (rowsAt uses u.path) w' (rowsAt uses' u'.path) (offset top top') where
  region := h.rowsAt_offset h' htext
  closed p c v hp hc hv := (h.cell_plain hplain hp hc).2 v hv
  cells := by
    intro p hp
    have halike := h.cells_alike h' htext hp
    cases hc : w.cell? p with
    | none =>
      rw [hc] at halike
      rw [Option.map_eq_none_iff.mp halike]
      exact .none
    | some c =>
      rw [hc, Option.map_some] at halike
      obtain ⟨c', hc', hlook⟩ := Option.map_eq_some_iff.mp halike
      rw [hc']
      refine .some ⟨hlook, ?_⟩
      obtain ⟨hglyph, hbare⟩ := Prod.mk.inj hlook
      obtain ⟨hdot, hroles⟩ := h.cell_plain hplain hp hc
      cases hk : c.kind with
      | warp v =>
        obtain ⟨v', hv', hrole⟩ : ∃ v', c'.kind = .warp v' ∧ v'.role = v.role := by
          rw [hk] at hbare
          cases hk' : c'.kind with
          | warp v' =>
            rw [hk'] at hbare
            exact ⟨v', rfl, (Warp.mk.inj (CellKind.warp.inj hbare)).1⟩
          | _ =>
            rw [hk'] at hbare
            cases hbare
        rcases hroles v (by rw [hk]; rfl) with hletter | hexposed
        · rw [hv', target_of_not_return (by rw [hrole, hletter]; rfl),
            target_of_not_return (by rw [hletter]; rfl),
            h.letter_target h' htext hp hc hc' hglyph hdot hk hv' hletter (hrole.trans hletter)]
          rfl
        · -- The way out of a library is not told by the cell.
          rw [hv']
          simp [CellKind.target, hrole, hexposed, WarpRole.isReturn, Except.map]
      | _ =>
        rw [eq_of_bare_eq hbare (by rw [hk]; rfl), hk]
        rfl

theorem mem_of_exposedBy? {row : List Char} {c : Char} (h : exposedBy? row = some c) : c ∈ row := by
  have hmem : c ∈ Text.trimRight row := by
    unfold exposedBy? at h
    split at h
    · next heq =>
      cases h
      rw [heq]
      simp
    · cases h
  unfold Text.trimRight at hmem
  exact List.mem_reverse.mp ((List.dropWhile_sublist _).subset (List.mem_reverse.mp hmem))

/-- Entrances of instances lead to corresponding cells. -/
theorem Instance.entrance_target {p₀ : Pos} {a a₀ : OpenWarp} (h : Instance w uses u top)
    (h' : Instance w' uses' u' top') (htext : u'.text = u.text) (hplain : IsPlain u.text)
    (ha₀ : WarpAt w.rows uses p₀ a₀) (hrole₀ : a₀.warp.role = .entrance)
    (hpath₀ : u.path = a₀.path ++ [a₀.glyph])
    (ha : WarpAt w'.rows uses' p a) (hrole : a.warp.role = .entrance)
    (hpath : u'.path = a.path ++ [a.glyph]) :
    a.warp.target = a₀.warp.target.map (· + offset top top') := by
  obtain ⟨register, rows, hdraft⟩ := h.draft
  obtain ⟨register', rows', hdraft'⟩ := h'.draft
  have hdots : ∀ line ∈ rowsOf u.text, exposedBy? line ≠ some '.' := by
    intro line hline hby
    exact (hplain line hline '.' (mem_of_exposedBy? hby)).1 rfl
  have hleads := hdraft.entrance_leads ha₀ hrole₀ fun v hv hvpath => by
    rw [h.only v hv (hvpath.trans hpath₀.symm)]
    exact hdots
  have hleads' := hdraft'.entrance_leads ha hrole fun v hv hvpath => by
    rw [h'.only v hv (hvpath.trans hpath.symm), htext]
    exact hdots
  rw [← hpath₀] at hleads
  rw [← hpath] at hleads'
  exact hleads'.unique (firstOf_offset hleads fun q => h.exposedAt_offset h' htext)

/-- An alias stands above the library that it leads into. -/
theorem Instance.entrance_above {a : OpenWarp} (h : Instance w uses u top)
    (ha : WarpAt w.rows uses p a) (hpath : u.path = a.path ++ [a.glyph]) : p.y < top := by
  have hprefix : a.path <+: u.path := hpath ▸ List.prefix_append _ _
  have hne : a.path ≠ u.path := by
    intro heq
    have hlen := congrArg List.length (heq.trans hpath)
    simp at hlen
  have hlt := h.lies.below _ _ hprefix hne ha.owner
  have hy := ha.cell.inside.2
  omega

end instances

end DotPaths.World
