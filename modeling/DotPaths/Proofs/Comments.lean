import DotPaths.Proofs.Sites

/-! # Dots and comments

    Everything behind two backticks in a row is a comment, and it is cut off
    before anything else is done with the line.  What stands between two single
    backticks should be one as well; but the dots of a row are marked as starting
    points up to its second backtick, whether they stand in a comment or not, and
    not at all behind it.

    The main statement says of every dot of a program whether a run starts there,
    and exactly when this is what its comments are for.
-/

namespace DotPaths.World

/-! ## The comment at the end of a line -/

/-- A line is made of `front` and a comment `rest` behind it, which begins with
    the first two backticks of the line that stand side by side; if there are
    none, nothing follows. -/
structure CommentFollows (front rest : List Char) : Prop where
  first : ∀ k < front.length, ¬ ['\x60', '\x60'] <+: (front ++ rest).drop k
  begins : rest = [] ∨ ['\x60', '\x60'] <+: rest

/-- The comment is cut off. -/
theorem beforeComment_append {front rest : List Char} (h : CommentFollows front rest) :
    beforeComment (front ++ rest) = front := by
  induction front with
  | nil =>
    rcases h.begins with rfl | ⟨more, rfl⟩
    · rfl
    · rfl
  | cons c front ih =>
    have hfront : CommentFollows front rest := by
      refine ⟨fun k hk => ?_, h.begins⟩
      exact h.first (k + 1) (Nat.succ_lt_succ hk)
    rw [List.cons_append]
    unfold beforeComment
    split
    · next more heq =>
      -- The line would begin with the two backticks.
      refine absurd ?_ (h.first 0 (Nat.succ_pos _))
      rw [List.drop_zero, List.cons_append, heq]
      exact ⟨more, rfl⟩
    · next c' cs _ heq =>
      cases heq
      exact congrArg (c :: ·) (ih hfront)
    · next heq => cases heq

/-- The rows of a program come first in its world, without their comments. -/
theorem build_row {shelf : Shelf} {program : String} {w : World} {y : Nat}
    {front rest : List Char} (h : build shelf program = .ok w)
    (hline : (Text.splitOn '\n' program.toList)[y]? = some (front ++ rest))
    (hcut : CommentFollows front rest) :
    ∃ row, w.rows[y]? = some row ∧ glyphs row = front ++ [' '] := by
  obtain ⟨blocks, uses, bonds, ⟨below, -, rfl⟩, hrows, hexpanded⟩ := build_ok h
  have htexts : (rowsOf program.toList)[y]? = some (front ++ [' ']) := by
    unfold rowsOf
    rw [List.getElem?_map, hline, Option.map_some, beforeComment_append hcut]
  have hglyphs : (w.rows.map glyphs)[y]? = some (front ++ [' ']) := by
    rw [hrows, hexpanded.rows_glyphs, List.flatMap_cons]
    exact List.getElem?_append_left (List.getElem?_eq_some_iff.mp htexts).1 ▸ htexts
  rw [List.getElem?_map] at hglyphs
  exact Option.map_eq_some_iff.mp hglyphs

/-! ## Starting points -/

theorem mem_starts_iff {w : World} {p : Pos} :
    p ∈ w.starts ↔ ∃ c, OpenAt w.rows p c ∧ c.kind.isStart = true := by
  unfold starts
  rw [List.mem_map]
  constructor
  · rintro ⟨⟨p', c⟩, hmem, rfl⟩
    obtain ⟨hmem, hstart⟩ := List.mem_filter.mp hmem
    exact ⟨c, mem_locatedOpen.mp hmem, hstart⟩
  · rintro ⟨c, hopen, hstart⟩
    exact ⟨(p, c), List.mem_filter.mpr ⟨mem_locatedOpen.mpr hopen, hstart⟩, rfl⟩

theorem isStart_bare (k : CellKind) : k.bare.isStart = k.isStart := by
  cases k <;> rfl

theorem glyphs_markStarts (seen : Bool) (row : List Cell) :
    glyphs (markStarts seen row) = glyphs row := by
  rw [glyphs_eq_looks, looks_markStarts, map_mapIdx, glyphs_eq_looks]
  exact mapIdx_eq_map Prod.fst _

/-- The cells of a row that are marked: its dots with at most one backtick in front
    of them. -/
theorem markStarts_isStart_iff {row : List Cell} (hrow : ∀ c ∈ row, c.kind.isStart = false)
    {x : Nat} {c : Cell} (hc : (markStarts false row)[x]? = some c) :
    c.kind.isStart = true ↔ c.glyph = '.' ∧ ((glyphs row).take x).count '\x60' ≤ 1 := by
  have hlook : ((markStarts false row).map Cell.look)[x]? = some c.look := by
    rw [List.getElem?_map, hc]
    rfl
  rw [looks_markStarts, List.getElem?_mapIdx, List.getElem?_map] at hlook
  obtain ⟨q, hq, hlook⟩ := Option.map_eq_some_iff.mp hlook
  obtain ⟨c₀, hc₀, rfl⟩ := Option.map_eq_some_iff.mp hq
  have hplain : c₀.look.2.isStart = false := by
    rw [Cell.look, isStart_bare]
    exact hrow c₀ (List.mem_of_getElem? hc₀)
  have hglyph : c₀.look.1 = c.glyph := congrArg Prod.fst hlook
  have hkind : (kindBehind (((glyphs row).take x).count '\x60') c₀.look).isStart =
      c.kind.isStart := by
    rw [← isStart_bare c.kind]
    exact congrArg (fun q => q.2.isStart) hlook
  rw [← hkind, ← hglyph]
  unfold kindBehind
  by_cases hmarked : c₀.look.1 = '.' ∧ ((glyphs row).take x).count '\x60' ≤ 1
  · rw [if_pos hmarked]
    exact ⟨fun _ => hmarked, fun _ => rfl⟩
  · rw [if_neg hmarked, hplain]
    exact ⟨fun h => absurd h Bool.false_ne_true, fun h => absurd h hmarked⟩

/-- A dot of a row that is no directive is a starting point if at most one backtick
    stands in front of it, and only then. -/
theorem mem_starts_of_row {shelf : Shelf} {program : String} {w : World} {x y : Nat}
    {row : List Cell} (h : build shelf program = .ok w) (hrow : w.rows[y]? = some row)
    (hopen : isDirective row = false) (hdot : (glyphs row)[x]? = some '.') :
    (⟨x, y⟩ : Pos) ∈ w.starts ↔ ((glyphs row).take x).count '\x60' ≤ 1 := by
  obtain ⟨rows, hrows, hmarked⟩ := build_marks h
  have hrow' := hrow
  rw [hmarked, List.getElem?_map] at hrow'
  obtain ⟨row₀, hrow₀, rfl⟩ := Option.map_eq_some_iff.mp hrow'
  unfold glyphs at hdot
  rw [List.getElem?_map] at hdot
  obtain ⟨c, hc, hglyph⟩ := Option.map_eq_some_iff.mp hdot
  have hstart := markStarts_isStart_iff (hrows row₀ (List.mem_of_getElem? hrow₀)) hc
  rw [glyphs_markStarts, mem_starts_iff]
  constructor
  · rintro ⟨c', hat, hstart'⟩
    obtain ⟨row', hrow', -, hc'⟩ := hat.found
    cases hrow.symm.trans hrow'
    cases hc.symm.trans hc'
    exact (hstart.mp hstart').2
  · intro hfew
    exact ⟨c, ⟨⟨Int.natCast_nonneg x, Int.natCast_nonneg y⟩, _, hrow, hopen, hc⟩,
      hstart.mpr ⟨hglyph, hfew⟩⟩

/-! ## Inline comments -/

/-- Column `x` of the row lies between the two backticks of an inline comment: an
    odd number of backticks is to the left of it, and another one follows. -/
def InComment (row : List Char) (x : Nat) : Prop :=
  (row.take x).count '\x60' % 2 = 1 ∧ '\x60' ∈ row.drop (x + 1)

instance (row : List Char) (x : Nat) : Decidable (InComment row x) :=
  inferInstanceAs (Decidable (_ ∧ _))

/-- A dot of a program is a starting point exactly if at most one backtick stands to
    its left in its row.  So inline comments hide the dots that they should, and no
    others, exactly at the dots in front of all comments, behind a backtick without
    a second one, and in comments other than the first of their row. -/
theorem dots_start_up_to_second_backtick {shelf : Shelf} {program : String} {w : World}
    {x y : Nat} {front rest : List Char} (h : build shelf program = .ok w)
    (hline : (Text.splitOn '\n' program.toList)[y]? = some (front ++ rest))
    (hcut : CommentFollows front rest) (hopen : front.head? ≠ some '%')
    (hdot : front[x]? = some '.') :
    ((⟨x, y⟩ : Pos) ∈ w.starts ↔ (front.take x).count '\x60' ≤ 1) ∧
      (((⟨x, y⟩ : Pos) ∈ w.starts ↔ ¬ InComment front x) ↔
        (front.take x).count '\x60' = 0 ∨
        ((front.take x).count '\x60' = 1 ∧ '\x60' ∉ front.drop (x + 1)) ∨
        (2 ≤ (front.take x).count '\x60' ∧ InComment front x)) := by
  have hx : x < front.length := (List.getElem?_eq_some_iff.mp hdot).1
  obtain ⟨row, hrow, hglyphs⟩ := build_row h hline hcut
  have hdirective : isDirective row = false := by
    rw [isDirective_eq, ← glyphs_eq_looks, hglyphs]
    unfold startsWithPercent
    rw [List.head?_append_of_ne_nil front (List.ne_nil_of_length_pos (Nat.zero_lt_of_lt hx))]
    exact beq_false_of_ne hopen
  have hstarts : (⟨x, y⟩ : Pos) ∈ w.starts ↔ (front.take x).count '\x60' ≤ 1 := by
    rw [mem_starts_of_row h hrow hdirective (by rw [hglyphs, List.getElem?_append_left hx, hdot]),
      hglyphs, List.take_append_of_le_length (Nat.le_of_lt hx)]
  refine ⟨hstarts, ?_⟩
  rw [hstarts]
  unfold InComment
  -- How many backticks there are before the dot, and whether one follows, is all that
  -- matters now.
  generalize (front.take x).count '\x60' = n
  by_cases hmore : '\x60' ∈ front.drop (x + 1)
  · simp only [hmore, not_true_eq_false, and_true, and_false, false_or]
    omega
  · simp only [hmore, and_false, not_false_eq_true, iff_true, and_true, or_false]
    omega

/-- A row with two inline comments and a comment at its end, and a dot everywhere. -/
def dottedRow : String := ".\x60.\x60.\x60.\x60-\x60\x60."

/-- The first dot of the row is no comment and starts; the one in the second inline
    comment does not.  Between them the marks are the wrong way round. -/
theorem starts_of_dottedRow :
    ∃ w, build ⟨⟨[]⟩, []⟩ dottedRow = .ok w ∧ w.starts = [⟨0, 0⟩, ⟨2, 0⟩] ∧
      ((⟨(0 : Nat), (0 : Nat)⟩ : Pos) ∈ w.starts ↔
        ¬ InComment ['.', '\x60', '.', '\x60', '.', '\x60', '.', '\x60', '-'] 0) ∧
      ((⟨(6 : Nat), (0 : Nat)⟩ : Pos) ∈ w.starts ↔
        ¬ InComment ['.', '\x60', '.', '\x60', '.', '\x60', '.', '\x60', '-'] 6) := by
  have hline : (Text.splitOn '\n' dottedRow.toList)[0]? =
      some (['.', '\x60', '.', '\x60', '.', '\x60', '.', '\x60', '-'] ++
        ['\x60', '\x60', '.']) := by
    decide +kernel
  have hcut : CommentFollows ['.', '\x60', '.', '\x60', '.', '\x60', '.', '\x60', '-']
      ['\x60', '\x60', '.'] :=
    ⟨by decide, by decide⟩
  have hrun : (build ⟨⟨[]⟩, []⟩ dottedRow).toOption.map starts = some [⟨0, 0⟩, ⟨2, 0⟩] := by
    decide +kernel
  obtain ⟨w, hw, hstarts⟩ := exists_build_of_map hrun
  refine ⟨w, hw, hstarts, ?_, ?_⟩
  · exact (dots_start_up_to_second_backtick (x := 0) hw hline hcut (by decide) rfl).2.mpr
      (by decide)
  · exact (dots_start_up_to_second_backtick (x := 6) hw hline hcut (by decide) rfl).2.mpr
      (by decide)

/-- A dot in an inline comment and one behind it. -/
def commentThenDot : String := "\x60.\x60."

/-- The dot in the comment starts, and the one behind it does not. -/
theorem commented_dot_starts :
    (build ⟨⟨[]⟩, []⟩ commentThenDot).toOption.map starts = some [⟨1, 0⟩] ∧
      InComment commentThenDot.toList 1 ∧ ¬ InComment commentThenDot.toList 3 := by
  decide +kernel

end DotPaths.World
