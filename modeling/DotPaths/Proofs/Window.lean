import DotPaths.Proofs.Cells
import DotPaths.Proofs.Requests
import Mathlib.Data.List.Induction
import Mathlib.Data.List.TakeWhile

/-! # The window

    At every tick the drawing is put into the window cell by cell.  The rows on
    the screen are not those of the drawing: of blank rows that follow each other
    only the first is shown, and both sides are cut.  So the rows of the screen
    are numbered by themselves, and `screenRows` says which row of the drawing
    each of them is.

    Of all cells that have a place on the screen each is put exactly once, at its
    place and inside the window, and nothing else is put.
-/

namespace DotPaths

/-! ## Numbered lists -/

section numbered
variable {α β : Type}

theorem zipIdx_concat (l : List α) (a : α) : (l ++ [a]).zipIdx = l.zipIdx ++ [(a, l.length)] := by
  rw [List.zipIdx_append, Nat.zero_add]
  rfl

/-- If what comes of a member bears the number of the member, all that bears one
    number comes of one member. -/
theorem filter_flatMap_zipIdx {f : α × Nat → List β} {number : β → Nat}
    (hf : ∀ a n, ∀ b ∈ f (a, n), number b = n) (l : List α) (i : Nat) :
    (l.zipIdx.flatMap f).filter (fun b => number b == i) =
      (l[i]?).toList.flatMap fun a => f (a, i) := by
  -- A member added at the end does not change the numbers of the others.
  induction l using List.reverseRecOn with
  | nil => rfl
  | append_singleton l a ih =>
    rw [zipIdx_concat, List.flatMap_append, List.filter_append, ih, List.flatMap_singleton]
    by_cases hi : i = l.length
    · subst hi
      have hall : (f (a, l.length)).filter (fun b => number b == l.length) = f (a, l.length) := by
        refine List.filter_eq_self.mpr fun b hb => ?_
        rw [hf a _ b hb, beq_self_eq_true]
      rw [hall, List.getElem?_concat_length, List.getElem?_eq_none (Nat.le_refl _)]
      simp
    · have hnone : (f (a, l.length)).filter (fun b => number b == i) = [] := by
        refine List.filter_eq_nil_iff.mpr fun b hb => ?_
        rw [hf a _ b hb, beq_iff_eq]
        exact Ne.symm hi
      have hsame : (l ++ [a])[i]? = l[i]? := by
        rcases Nat.lt_or_gt_of_ne hi with hi | hi
        · exact List.getElem?_append_left hi
        · rw [List.getElem?_eq_none (Nat.le_of_lt hi), List.getElem?_eq_none]
          rw [List.length_append, List.length_singleton]
          exact hi
      rw [hnone, List.append_nil, hsame]

end numbered

/-! ## Rows of the screen -/

namespace View

/-- Has the row with this number nothing but blanks? -/
def blankAt (rows : List (List Cell)) (y : Nat) : Bool :=
  (rows[y]?).any fun row => row.all fun c => Text.isBlank c.glyph

/-- Is the row with this number no blank row that follows a blank row? -/
def stands (rows : List (List Cell)) (y : Nat) : Bool :=
  !(blankAt rows y && (0 < y && blankAt rows (y - 1)))

/-- The rows of the drawing that are on the screen, from the top: of each run of
    blank rows the first, and one less than the view has lines. -/
def screenRows (viewLines : Int) (rows : List (List Cell)) : List Nat :=
  ((List.range rows.length).filter (stands rows)).take (max 0 (viewLines - 1)).toNat

theorem isBlankRow_eq (row : List Cell) :
    isBlankRow row = row.all fun c => Text.isBlank c.glyph := by
  unfold isBlankRow Text.trimRight World.glyphs
  rw [List.isEmpty_reverse, Bool.eq_iff_iff, List.isEmpty_iff, List.dropWhile_eq_nil_iff]
  simp

theorem blankAt_append_left {rows : List (List Cell)} {y : Nat} (hy : y < rows.length)
    (rows' : List (List Cell)) : blankAt (rows ++ rows') y = blankAt rows y := by
  unfold blankAt
  rw [List.getElem?_append_left hy]

/-- Is the last of these rows blank?  Without rows it is as `before` says. -/
def endsBlank (before : Bool) (rows : List (List Cell × Nat)) : Bool :=
  (rows.getLast?.map fun row => isBlankRow row.1).getD before

/-- A row at the end is shown unless it is blank and follows a blank one. -/
theorem collapse_concat (before : Bool) (rows : List (List Cell × Nat)) (row : List Cell)
    (y : Nat) :
    collapse before (rows ++ [(row, y)]) = collapse before rows ++
      if isBlankRow row && endsBlank before rows then [] else [(row, y)] := by
  induction rows generalizing before with
  | nil => cases before <;> cases hrow : isBlankRow row <;> simp [collapse, endsBlank, hrow]
  | cons first rows ih =>
    -- For the rows behind it, all that counts of the first row is whether it is blank.
    have hends : endsBlank before (first :: rows) = endsBlank (isBlankRow first.1) rows := by
      unfold endsBlank
      rw [List.getLast?_cons]
      cases rows.getLast? with
      | none => rfl
      | some last => rfl
    rw [hends, List.cons_append, collapse, collapse]
    cases hfirst : isBlankRow first.1 with
    | true => cases before <;> simp [ih]
    | false => simp [ih]

theorem endsBlank_zipIdx (rows : List (List Cell)) :
    endsBlank false rows.zipIdx = (decide (0 < rows.length) && blankAt rows (rows.length - 1)) := by
  rcases List.eq_nil_or_concat rows with rfl | ⟨rows, row, rfl⟩
  · rfl
  · simp [endsBlank, blankAt, List.zipIdx_append, isBlankRow_eq]

/-- The rows that are left of a drawing have the numbers of those that stand. -/
theorem map_snd_collapse (rows : List (List Cell)) :
    (collapse false rows.zipIdx).map Prod.snd = (List.range rows.length).filter (stands rows) := by
  -- The rows are added at the end, where the one before decides about the new one.
  induction rows using List.reverseRecOn with
  | nil => rfl
  | append_singleton rows row ih =>
    have hbefore : ∀ y ∈ List.range rows.length, stands (rows ++ [row]) y = stands rows y := by
      intro y hy
      have hlt := List.mem_range.mp hy
      unfold stands
      rw [blankAt_append_left hlt, blankAt_append_left (Nat.lt_of_le_of_lt (Nat.sub_le y 1) hlt)]
    have hlast : stands (rows ++ [row]) rows.length =
        !(isBlankRow row && endsBlank false rows.zipIdx) := by
      have hrow : blankAt (rows ++ [row]) rows.length = isBlankRow row := by
        unfold blankAt
        rw [List.getElem?_concat_length, isBlankRow_eq]
        rfl
      unfold stands
      rw [hrow, endsBlank_zipIdx]
      cases hlength : decide (0 < rows.length) with
      | false => rfl
      | true =>
        have hpos := of_decide_eq_true hlength
        rw [blankAt_append_left (Nat.sub_lt hpos Nat.one_pos)]
    rw [zipIdx_concat, List.length_append, List.length_singleton, List.range_succ,
      List.filter_append, List.filter_congr hbefore, ← ih, collapse_concat, List.map_append,
      List.filter_cons, hlast, List.filter_nil]
    cases isBlankRow row && endsBlank false rows.zipIdx with
    | true => rfl
    | false => rfl

theorem mem_of_mem_collapse {before : Bool} {rows : List (List Cell × Nat)}
    {shown : List Cell × Nat} (h : shown ∈ collapse before rows) : shown ∈ rows := by
  induction rows generalizing before with
  | nil => cases h
  | cons first rows ih =>
    have hsub : shown = first ∨ ∃ b, shown ∈ collapse b rows := by
      rw [collapse] at h
      split at h
      · split at h
        · exact .inr ⟨_, h⟩
        · exact (List.mem_cons.mp h).imp_right fun h => ⟨_, h⟩
      · exact (List.mem_cons.mp h).imp_right fun h => ⟨_, h⟩
    rcases hsub with rfl | ⟨b, hb⟩
    · exact List.mem_cons_self
    · exact List.mem_cons_of_mem _ (ih hb)

/-- The rows that are shown are those with the numbers of the screen. -/
theorem shownRows_getElem?_iff {viewLines : Int} {rows : List (List Cell)} {i y : Nat}
    {row : List Cell} : (shownRows viewLines rows)[i]? = some (row, y) ↔
      (screenRows viewLines rows)[i]? = some y ∧ rows[y]? = some row := by
  have hscreen : (screenRows viewLines rows)[i]? =
      ((shownRows viewLines rows)[i]?).map Prod.snd := by
    have hlines : (max 0 (viewLines - 1)).toNat = (viewLines - 1).toNat := by omega
    unfold screenRows shownRows
    rw [hlines, ← map_snd_collapse, ← List.map_take, List.getElem?_map]
  -- A row keeps the number that it has in the drawing.
  have hrows : ∀ shown, (shownRows viewLines rows)[i]? = some shown →
      rows[shown.2]? = some shown.1 := by
    intro shown hshown
    have hmem := mem_of_mem_collapse (List.mem_of_mem_take (List.mem_of_getElem? hshown))
    exact List.mem_zipIdx_iff_getElem?.mp hmem
  rw [hscreen]
  constructor
  · intro h
    rw [h]
    exact ⟨rfl, hrows _ h⟩
  · rintro ⟨hy, hrow⟩
    obtain ⟨⟨row', y'⟩, hshown, rfl⟩ := Option.map_eq_some_iff.mp hy
    obtain rfl : row' = row := Option.some.inj ((hrows _ hshown).symm.trans hrow)
    exact hshown

/-- The cell `c` in the row `y` of the drawing has a place on the screen. -/
structure Displays (d : Display) (w : World) (row column y : Nat) (c : Cell) : Prop where
  line : (screenRows d.viewLines w.rows)[row]? = some y
  cell : w.cell? ⟨column, y⟩ = some c
  room : (column : Int) < d.columns - 1

theorem Displays.inside {d : Display} {w : World} {row column y : Nat} {c : Cell}
    (h : Displays d w row column y c) : (row : Int) < d.viewLines ∧ (column : Int) < d.columns := by
  have hroom := h.room
  have hrow : row < (max 0 (d.viewLines - 1)).toNat := by
    have hlength := (List.getElem?_eq_some_iff.mp h.line).1
    exact Nat.lt_of_lt_of_le hlength (List.length_take_le _ _)
  omega

end View

/-! ## Cells that are put -/

/-- A cell that is put into the window. -/
structure Put where
  row : Nat
  column : Nat
  glyph : Char
  colour : Nat
  deriving DecidableEq, Repr

/-- Is it put at this place? -/
def Put.isAt (p : Put) (row column : Nat) : Bool := p.row == row && p.column == column

/-- What the event puts into the window. -/
def Event.put? : Event → Option Put
  | .call (.windowPut row column glyph colour) => some ⟨row, column, glyph, colour⟩
  | _ => none

namespace Console

/-- What has been put into the window, the first first. -/
def puts (c : Console) : List Put := (c.events.filterMap Event.put?).reverse

end Console

namespace View

/-- A patch in a row of the screen. -/
def Patch.put (row : Nat) (p : Patch) : Put := ⟨row, p.column, p.glyph, p.colour⟩

/-- What is put into the window to draw it. -/
def picture (d : Display) (w : World) (dots : List Pos) : List Put :=
  (frame d.columns d.viewLines w dots).zipIdx.flatMap fun (row, i) => row.map (Patch.put i)

theorem patch_column (dots : List Pos) (p : Pos) (c : Cell) :
    (patch dots p c).column = p.x.toNat := by
  unfold patch
  split <;> rfl

theorem colourOf_ne_one (c : Cell) : colourOf c ≠ 1 := by
  unfold colourOf
  repeat' split
  all_goals decide

/-- The colour of dots is seen where a dot is. -/
theorem patch_colour_eq_one_iff {dots : List Pos} {p : Pos} {c : Cell} :
    (patch dots p c).colour = 1 ↔ p ∈ dots := by
  unfold patch
  split
  · next hdot => exact iff_of_true rfl (List.contains_iff_mem.mp hdot)
  · next hdot =>
    exact iff_of_false (colourOf_ne_one c) fun hp => hdot (List.contains_iff_mem.mpr hp)

theorem patch_glyph (dots : List Pos) (p : Pos) (c : Cell) :
    (patch dots p c).glyph = if p ∈ dots ∧ c.isBlank = true then '.' else c.glyph := by
  unfold patch
  split
  · next hdot =>
    simp only [List.contains_iff_mem.mp hdot, true_and]
    rfl
  · next hdot =>
    rw [if_neg fun h => hdot (List.contains_iff_mem.mpr h.1)]

/-- What is put at a place of the screen. -/
theorem filter_picture (d : Display) (w : World) (dots : List Pos) (i x : Nat) :
    (picture d w dots).filter (·.isAt i x) =
      ((shownRows d.viewLines w.rows)[i]?).toList.flatMap fun (row, y) =>
        ((row.take (d.columns - 1).toNat)[x]?).toList.flatMap fun c =>
          [(patch dots ⟨(x : Int), (y : Int)⟩ c).put i] := by
  -- The row is singled out first, by its number on the screen, and then the column.
  have hsplit : (picture d w dots).filter (·.isAt i x) =
      ((picture d w dots).filter (·.row == i)).filter (·.column == x) := by
    rw [List.filter_filter]
    refine List.filter_congr fun p _ => ?_
    exact Bool.and_comm _ _
  have hrow : ∀ (row : List Patch) (n : Nat), ∀ p ∈ row.map (Patch.put n), p.row = n := by
    intro row n p hp
    obtain ⟨_, -, rfl⟩ := List.mem_map.mp hp
    rfl
  rw [hsplit, picture, filter_flatMap_zipIdx hrow, frame, List.getElem?_map]
  cases (shownRows d.viewLines w.rows)[i]? with
  | none => rfl
  | some shown =>
    obtain ⟨row, y⟩ := shown
    have hcolumn : ∀ (c : Cell) (n : Nat), ∀ p ∈ [(patch dots ⟨(n : Int), (y : Int)⟩ c).put i],
        p.column = n := by
      intro c n p hp
      rw [List.mem_singleton.mp hp]
      exact patch_column _ _ _
    have hcells : (shownRow d.columns dots row y).map (Patch.put i) =
        (row.take (d.columns - 1).toNat).zipIdx.flatMap fun cell =>
          [(patch dots ⟨(cell.2 : Int), (y : Int)⟩ cell.1).put i] := by
      rw [shownRow, List.map_map, List.map_eq_flatMap]
      rfl
    simp only [Option.map_some, Option.toList_some, List.flatMap_singleton]
    rw [hcells, filter_flatMap_zipIdx hcolumn]

theorem displays_iff {d : Display} {w : World} {i x y : Nat} {c : Cell} :
    Displays d w i x y c ↔ ∃ row, (shownRows d.viewLines w.rows)[i]? = some (row, y) ∧
      (row.take (d.columns - 1).toNat)[x]? = some c := by
  have hcell : w.cell? ⟨(x : Int), (y : Int)⟩ = (w.rows[y]?).bind fun row => row[x]? := rfl
  constructor
  · rintro ⟨hline, hc, hroom⟩
    rw [hcell] at hc
    obtain ⟨row, hrow, hx⟩ := Option.bind_eq_some_iff.mp hc
    refine ⟨row, shownRows_getElem?_iff.mpr ⟨hline, hrow⟩, ?_⟩
    rw [List.getElem?_take_of_lt (by omega), hx]
  · rintro ⟨row, hshown, hx⟩
    obtain ⟨hline, hrow⟩ := shownRows_getElem?_iff.mp hshown
    have hroom : x < (d.columns - 1).toNat :=
      Nat.lt_of_lt_of_le (List.getElem?_eq_some_iff.mp hx).1 (List.length_take_le _ _)
    rw [List.getElem?_take_of_lt hroom] at hx
    refine ⟨hline, ?_, by omega⟩
    rw [hcell, hrow]
    exact hx

/-- A cell that has a place on the screen is put there, and once. -/
theorem Displays.filter_picture {d : Display} {w : World} {i x y : Nat} {c : Cell}
    (h : Displays d w i x y c) (dots : List Pos) :
    (picture d w dots).filter (·.isAt i x) = [(patch dots ⟨(x : Int), (y : Int)⟩ c).put i] := by
  obtain ⟨row, hshown, hx⟩ := displays_iff.mp h
  rw [View.filter_picture, hshown]
  simp only [Option.toList_some, List.flatMap_singleton, hx]

/-- Nothing else is put. -/
theorem exists_displays_of_mem {d : Display} {w : World} {dots : List Pos} {p : Put}
    (hp : p ∈ picture d w dots) : ∃ y c, Displays d w p.row p.column y c := by
  have hat : p ∈ (picture d w dots).filter (·.isAt p.row p.column) :=
    List.mem_filter.mpr ⟨hp, by simp [Put.isAt]⟩
  rw [filter_picture] at hat
  obtain ⟨⟨row, y⟩, hshown, hrow⟩ := List.mem_flatMap.mp hat
  obtain ⟨c, hc, -⟩ := List.mem_flatMap.mp hrow
  exact ⟨y, c, displays_iff.mpr ⟨row, Option.mem_toList.mp hshown, Option.mem_toList.mp hc⟩⟩

end View

/-! ## Ticks -/

namespace Console

theorem forM_call (calls : List Call) (c : Console) :
    calls.forM call c = .ok () { c with events := (calls.map Event.call).reverse ++ c.events } := by
  induction calls generalizing c with
  | nil => rfl
  | cons k calls ih =>
    rw [List.forM_eq_forM] at ih ⊢
    rw [List.forM_cons, bind_of_ok (rfl : call k c = .ok () _), ih]
    simp

theorem forM_forM_call {α : Type} (f : α → List Call) (l : List α) :
    (l.forM fun a => (f a).forM call) = (l.flatMap f).forM call := by
  induction l with
  | nil => rfl
  | cons a l ih =>
    simp only [List.forM_eq_forM] at ih ⊢
    rw [List.forM_cons, List.flatMap_cons, List.forM_append, ih]

/-- Drawing puts the picture into the window. -/
theorem puts_draw {d : Display} (hview : d.view = .windowed) (w : World) (dots : List Pos)
    (c : Console) : ∃ t, draw d w dots c = .ok () t ∧ t.service = c.service ∧
      t.puts = c.puts ++ View.picture d w dots := by
  have hdraw : draw d w dots = call .windowRefresh >>= fun _ =>
      ((View.frame d.columns d.viewLines w dots).zipIdx.flatMap fun (row, y) =>
        View.windowRow row y).forM call := by
    unfold draw
    rw [if_neg (by rw [hview]; decide), ← forM_forM_call]
  rw [hdraw, bind_of_ok (rfl : call .windowRefresh c = .ok () _), forM_call]
  refine ⟨_, rfl, rfl, ?_⟩
  have hrow : ∀ (row : List View.Patch) (i : Nat),
      ((View.windowRow row i).map Event.call).filterMap Event.put? =
        row.map (View.Patch.put i) := by
    intro row i
    unfold View.windowRow
    rw [List.map_map, List.filterMap_map]
    exact congrFun (List.filterMap_eq_map' (f := View.Patch.put i)) row
  unfold puts View.picture
  rw [List.filterMap_append, List.filterMap_reverse, List.reverse_append, List.reverse_reverse,
    List.map_flatMap, List.filterMap_flatMap]
  simp only [hrow]
  rfl

/-- What has been put into the window does not change but by drawing. -/
theorem indifferent_puts (d : Display) (before : List Put) :
    Indifferent fun c => c.service = .terminal d ∧ c.puts = before where
  terminal h := ⟨d, h.1⟩
  idle := by
    rintro c e ⟨hservice, hputs⟩ he
    refine ⟨hservice, ?_⟩
    have hnone : e.put? = none := by
      unfold Event.put?
      split
      · exact he.elim
      · rfl
    unfold puts
    rw [List.filterMap_cons_none hnone]
    exact hputs
  aside _ _ _ _ _ _ h := h

section windowed
variable {d : Display} (hview : d.view = .windowed) (hloud : d.silent = false)
include hview hloud

theorem output_keeps_puts (before : List Put) (p : Payload) :
    Keeps (fun c => c.service = .terminal d ∧ c.puts = before) (output p) := by
  rintro c ⟨hservice, hputs⟩
  obtain ⟨left, hlimit | ⟨text, -, hprinted⟩⟩ := endState_output hservice hview hloud p
  · rw [hlimit]
    exact ⟨hservice, hputs⟩
  · rw [hprinted]
    exact ⟨hservice, hputs⟩

/-- At a tick the picture is put into the window, and no more. -/
theorem puts_tick {c : Console} (hservice : c.service = .terminal d) (w : World)
    (dots : List Pos) :
    (endState (tick w dots c)).puts = c.puts ++ View.picture d w dots := by
  obtain ⟨t, hdraw, hservice', hputs⟩ :=
    puts_draw hview w dots { c with ticks := c.ticks + 1 }
  have hshow : Observed.showStep d w dots = draw d w dots >>= fun _ => waitStep d := by
    unfold Observed.showStep
    rw [hview, hloud]
    rfl
  rw [tick_eq hservice, hshow, bind_assoc, bind_of_ok hdraw]
  -- After the drawing there is only waiting and, at the limit, a last output.
  have hI := indifferent_puts d (c.puts ++ View.picture d w dots)
  have hkeeps := (hI.inattentive.waitStep d).bind fun _ =>
    hI.countTick (output_keeps_puts hview hloud _ (.text "QUITTING next step!\n"))
  exact (hkeeps t ⟨hservice'.trans hservice, hputs⟩).2

end windowed

end Console

/-! ## The window at a tick -/

open Scene

/-- At every tick, whether it completes or stops the run, everything that is put into
    the window lies inside it and is a cell of the drawing with a place on the screen;
    and each such cell is put exactly once.  It has the colour of dots just if a dot
    stands there that is not dead, and with such a dot a blank cell is seen as a dot. -/
theorem tick_puts_displayed_cells_once {s : Scene} {d : Display}
    (hservice : s.console.service = .terminal d) (hview : d.view = .windowed)
    (hloud : d.silent = false) (w : World) :
    ∃ drawn, (endState (tick w s)).console.puts = s.console.puts ++ drawn ∧
      (∀ p ∈ drawn, (p.row : Int) < d.viewLines ∧ (p.column : Int) < d.columns) ∧
      (∀ p ∈ drawn, ∃ y c, View.Displays d w p.row p.column y c) ∧
      ∀ row column y c, View.Displays d w row column y c →
        ∃ p, drawn.filter (·.isAt row column) = [p] ∧
          (p.colour = 1 ↔ ∃ dot ∈ s.dots, dot.isDead = false ∧ dot.pos = ⟨column, y⟩) ∧
          (p.colour = 1 → c.isBlank = true → p.glyph = '.') ∧
          (p.colour ≠ 1 ∨ c.isBlank = false → p.glyph = c.glyph) := by
  have hputs : (endState (tick w s)).console.puts =
      s.console.puts ++ View.picture d w (positions s.dots) := by
    obtain ⟨t, -, hconsole, htick⟩ := tick_eq w s
    rw [htick, endState_onConsole, hconsole]
    exact Console.puts_tick hview hloud hservice w _
  refine ⟨_, hputs, ?_, fun p hp => View.exists_displays_of_mem hp, ?_⟩
  · intro p hp
    obtain ⟨y, c, hdisplays⟩ := View.exists_displays_of_mem hp
    exact hdisplays.inside
  · intro row column y c hdisplays
    -- The view is given the positions of the dots that are not dead.
    have hdot : (⟨column, y⟩ : Pos) ∈ positions s.dots ↔
        ∃ dot ∈ s.dots, dot.isDead = false ∧ dot.pos = ⟨column, y⟩ := by
      simp [positions, and_assoc]
    refine ⟨_, hdisplays.filter_picture _, ?_, ?_, ?_⟩
    · rw [← hdot]
      exact View.patch_colour_eq_one_iff
    · intro hcolour hblank
      have hp := View.patch_colour_eq_one_iff.mp hcolour
      exact (View.patch_glyph _ _ _).trans (if_pos ⟨hp, hblank⟩)
    · intro hplain
      refine (View.patch_glyph _ _ _).trans (if_neg ?_)
      rintro ⟨hp, hblank⟩
      rcases hplain with hcolour | hno
      · exact hcolour (View.patch_colour_eq_one_iff.mpr hp)
      · rw [hblank] at hno
        cases hno

/-- A drawing with three blank rows in the middle. -/
def gappedDrawing : String := "-*-\n  \n\n \n/-."

/-- A window with room for three rows and two columns of the drawing. -/
def smallWindow : Display :=
  { view := .windowed, silent := false, columns := 3, lines := 8, viewLines := 4,
    autostep := .int 1 }

/-- A dot on a blank cell, one on a path, and a dead one. -/
def threeDots : Scene where
  dots :=
    [{ pos := ⟨0, 1⟩, spawn := ⟨2, 4⟩, dir := .up },
     { pos := ⟨1, 4⟩, spawn := ⟨2, 4⟩, dir := .left },
     { pos := ⟨0, 4⟩, spawn := ⟨2, 4⟩, dir := .left, phase := .dead }]
  console := .start (.terminal smallWindow) 0 0 [] [] []

/-- The last row of the drawing is the third of the screen.  There the dot that is
    not dead is seen on its path, while the other one is not; and the dot in the row
    above is seen on its blank cell. -/
theorem threeDots_in_smallWindow :
    ∃ w drawn, World.build ⟨⟨[]⟩, []⟩ gappedDrawing = .ok w ∧
      View.screenRows smallWindow.viewLines w.rows = [0, 1, 4] ∧
      (endState (tick w threeDots)).console.puts = drawn ∧
      (∃ p, drawn.filter (·.isAt 1 0) = [p] ∧ p.colour = 1 ∧ p.glyph = '.') ∧
      (∃ p, drawn.filter (·.isAt 2 1) = [p] ∧ p.colour = 1 ∧ p.glyph = '-') ∧
      (∃ p, drawn.filter (·.isAt 2 0) = [p] ∧ p.colour ≠ 1 ∧ p.glyph = '/') := by
  obtain ⟨w, hw⟩ : ∃ w, World.build ⟨⟨[]⟩, []⟩ gappedDrawing = .ok w :=
    ⟨_, World.build_of_isSome (by decide +kernel)⟩
  have hrows : (World.build ⟨⟨[]⟩, []⟩ gappedDrawing).toOption.all (fun w =>
      View.screenRows smallWindow.viewLines w.rows = [0, 1, 4] ∧
        w.cell? ⟨0, 1⟩ = some ⟨' ', .plain⟩ ∧ w.cell? ⟨1, 4⟩ = some ⟨'-', .plain⟩ ∧
        w.cell? ⟨0, 4⟩ = some ⟨'/', .plain⟩) = true := by
    decide +kernel
  rw [hw] at hrows
  obtain ⟨hscreen, hblank, hpath, hmirror⟩ := of_decide_eq_true hrows
  obtain ⟨drawn, hputs, -, -, honce⟩ :=
    tick_puts_displayed_cells_once (s := threeDots) (d := smallWindow) rfl rfl rfl w
  refine ⟨w, drawn, hw, hscreen, hputs, ?_, ?_, ?_⟩
  · obtain ⟨p, hp, hcolour, hdot, -⟩ := honce 1 0 1 _ ⟨by rw [hscreen]; rfl, hblank, by decide⟩
    have hone := hcolour.mpr (by decide)
    exact ⟨p, hp, hone, hdot hone rfl⟩
  · obtain ⟨p, hp, hcolour, -, hglyph⟩ := honce 2 1 4 _ ⟨by rw [hscreen]; rfl, hpath, by decide⟩
    exact ⟨p, hp, hcolour.mpr (by decide), hglyph (.inr rfl)⟩
  · obtain ⟨p, hp, hcolour, -, hglyph⟩ := honce 2 0 4 _ ⟨by rw [hscreen]; rfl, hmirror, by decide⟩
    exact ⟨p, hp, hcolour.not.mpr (by decide), hglyph (.inr rfl)⟩

end DotPaths
