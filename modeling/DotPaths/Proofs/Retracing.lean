import DotPaths.Proofs.Literals
import DotPaths.Proofs.Solo

/-! # Walking a path backwards

    On a path that is drawn with `-`, `|`, `/`, `\` and `+`, what a dot does depends
    on its direction alone.  Each wall turns a dot that comes from the other side
    back into the way that the first one came by, and a straight piece lets pass in
    both directions or in neither.

    So a dot that is put on the last cell of a walk and faces the way back walks over
    the same cells in the opposite order, and ends with the opposite of the direction
    in which the walk began.
-/

namespace DotPaths

/-! ## Pieces of path -/

namespace Cell

/-- A plain cell that is a piece of path. -/
def isPathPiece (c : Cell) : Bool :=
  decide (c.kind = .plain) && ['-', '|', '/', '\\', '+'].contains c.glyph

/-- Does a straight piece of path let a dot pass in this direction? -/
def lets (c : Cell) (dir : Pos) : Bool :=
  !(c.glyph == '-' && dir.isVertical) && !(c.glyph == '|' && dir.isHorizontal)

variable {c : Cell} {dir : Pos}

theorem isPathPiece_iff :
    c.isPathPiece = true ↔ c.kind = .plain ∧
      (c.glyph = '-' ∨ c.glyph = '|' ∨ c.glyph = '/' ∨ c.glyph = '\\' ∨ c.glyph = '+') := by
  simp [isPathPiece]

theorem isBlank_of_isPathPiece (h : c.isPathPiece = true) : c.isBlank = false := by
  obtain ⟨-, hglyph⟩ := isPathPiece_iff.mp h
  rcases hglyph with hc | hc | hc | hc | hc <;> rw [isBlank, hc] <;> decide

end Cell

namespace Dot

section
variable {c : Cell} {dir : Pos}

/-- A wall turns whoever comes back into the direction that it was left by. -/
theorem turn_neg_turn (h : c.isPathPiece = true) : turn c (-turn c dir) = -dir := by
  obtain ⟨-, hglyph⟩ := Cell.isPathPiece_iff.mp h
  rcases hglyph with hc | hc | hc | hc | hc <;> simp [turn, hc]
  · rfl
  · rfl

/-- What lets pass in one direction lets pass in the way back. -/
theorem lets_neg_turn (h : c.isPathPiece = true) (hlets : c.lets dir = true) :
    c.lets (-turn c dir) = true := by
  obtain ⟨-, hglyph⟩ := Cell.isPathPiece_iff.mp h
  rcases hglyph with hc | hc | hc | hc | hc <;>
    simp_all [Cell.lets, turn, Pos.isVertical, Pos.isHorizontal]

variable {w : World} {d : Dot}

theorem travelPhase_of_piece (h : c.isPathPiece = true) :
    d.travelPhase c = if c.lets d.dir then .travel else .dead := by
  obtain ⟨hkind, hglyph⟩ := Cell.isPathPiece_iff.mp h
  rcases hglyph with hc | hc | hc | hc | hc <;>
    simp [travelPhase, isBracket, Cell.lets, hc, hkind, CellKind.bracket?]
  · cases d.dir.isVertical <;> rfl
  · cases d.dir.isHorizontal <;> rfl

theorem travelDeed_of_piece (h : c.isPathPiece = true) :
    d.travelDeed w c = .become { d with dir := turn c d.dir }.move := by
  obtain ⟨hkind, hglyph⟩ := Cell.isPathPiece_iff.mp h
  rcases hglyph with hc | hc | hc | hc | hc <;>
    simp [travelDeed, isTurn, turn, hc, hkind, CellKind.warp?]

theorem choose_of_piece (h : c.isPathPiece = true) (hphase : d.phase = .travel) :
    d.choose c = .ok (if c.lets d.dir then .travel else .dead) := by
  simp only [choose, hphase, travelPhase_of_piece h]

theorem deed_of_piece (h : c.isPathPiece = true) (hphase : d.phase = .travel) :
    d.deed w c = .become { d with dir := turn c d.dir }.move := by
  simp only [deed, hphase, travelDeed_of_piece h]

end

/-! ## Walks -/

/-- The dot after a step over a piece of path; `none` if it does not travel, stands
    on something else, or dies there before it can act. -/
def pathStep? (w : World) (d : Dot) : Option Dot :=
  match (w.cell? d.pos).filter Cell.isPathPiece with
  | none => none
  | some c =>
    match d.phase, d.choose c, d.deed w c with
    | .travel, .ok .travel, .become d' => some (d'.settled w)
    | _, _, _ => none

/-- The next `n` steps, if all of them go over pieces of path: the places that the
    dot acts on, and what it is afterwards. -/
def walk? (w : World) : Nat → Dot → Option (List Pos × Dot)
  | 0, d => some ([], d)
  | n + 1, d =>
    (d.pathStep? w).bind fun d' => (d'.walk? w n).map fun (ps, d'') => (d.pos :: ps, d'')

section
variable {w : World} {d d' : Dot} {n : Nat} {ps : List Pos}

theorem pathStep?_eq_some_iff :
    d.pathStep? w = some d' ↔
      ∃ c, w.cell? d.pos = some c ∧ c.isPathPiece = true ∧ d.phase = .travel ∧
        c.lets d.dir = true ∧ d' = { d with dir := turn c d.dir }.move.settled w := by
  unfold pathStep?
  cases hc : w.cell? d.pos with
  | none => simp
  | some c =>
    by_cases hpiece : c.isPathPiece = true
    · simp only [Option.filter, hpiece, if_true]
      cases hphase : d.phase with
      | travel =>
        rw [choose_of_piece hpiece hphase, deed_of_piece hpiece hphase, hphase]
        cases hlets : c.lets d.dir with
        | true =>
          constructor
          · intro h
            exact ⟨c, rfl, hpiece, rfl, hlets, (Option.some.inj h).symm⟩
          · rintro ⟨x, hx, -, -, -, rfl⟩
            cases hx
            rfl
        | false => simp [hlets]
      | _ => simp
    · simp [Option.filter, hpiece]

theorem walk?_succ_iff :
    d.walk? w (n + 1) = some (ps, d') ↔
      ∃ e qs, d.pathStep? w = some e ∧ e.walk? w n = some (qs, d') ∧ ps = d.pos :: qs := by
  simp only [walk?, Option.bind_eq_some_iff, Option.map_eq_some_iff]
  constructor
  · rintro ⟨e, he, ⟨qs, _⟩, hwalk, heq⟩
    cases heq
    exact ⟨e, qs, he, hwalk, rfl⟩
  · rintro ⟨e, qs, he, hwalk, rfl⟩
    exact ⟨e, he, (qs, d'), hwalk, rfl⟩

/-- A walk with one more step at its end. -/
theorem walk?_concat_iff :
    d.walk? w (n + 1) = some (ps, d') ↔
      ∃ e qs, d.walk? w n = some (qs, e) ∧ e.pathStep? w = some d' ∧ ps = qs ++ [e.pos] := by
  induction n generalizing d ps with
  | zero =>
    rw [walk?_succ_iff]
    constructor
    · rintro ⟨e, qs, he, hwalk, rfl⟩
      cases hwalk
      exact ⟨d, [], rfl, he, rfl⟩
    · rintro ⟨e, qs, hwalk, he, rfl⟩
      cases hwalk
      exact ⟨d', [], he, rfl, rfl⟩
  | succ n ih =>
    constructor
    · intro h
      obtain ⟨e, qs, he, hwalk, rfl⟩ := walk?_succ_iff.mp h
      obtain ⟨f, rs, hrest, hlast, rfl⟩ := ih.mp hwalk
      exact ⟨f, d.pos :: rs, walk?_succ_iff.mpr ⟨e, rs, he, hrest, rfl⟩, hlast, rfl⟩
    · rintro ⟨f, qs, hwalk, hlast, rfl⟩
      obtain ⟨e, rs, he, hrest, rfl⟩ := walk?_succ_iff.mp hwalk
      exact walk?_succ_iff.mpr ⟨e, rs ++ [f.pos], he, ih.mpr ⟨f, rs, hrest, hlast, rfl⟩, rfl⟩

theorem length_of_walk (h : d.walk? w n = some (ps, d')) : ps.length = n := by
  induction n generalizing d ps with
  | zero =>
    cases h
    rfl
  | succ n ih =>
    obtain ⟨e, qs, -, hwalk, rfl⟩ := walk?_succ_iff.mp h
    rw [List.length_cons, ih hwalk]

/-- After a step, a dot is one cell further in its new direction. -/
theorem pos_of_pathStep (h : d.pathStep? w = some d') : d'.pos = d.pos + d'.dir := by
  obtain ⟨c, -, -, -, -, rfl⟩ := pathStep?_eq_some_iff.mp h
  rw [settled_pos, settled_dir]
  rfl

/-- It travels on if something is drawn there. -/
theorem phase_of_pathStep {c : Cell} (h : d.pathStep? w = some d') (hc : w.cell? d'.pos = some c)
    (hblank : c.isBlank = false) : d'.phase = .travel := by
  obtain ⟨x, -, -, hphase, -, rfl⟩ := pathStep?_eq_some_iff.mp h
  rw [settled_pos] at hc
  have hlost : Turn.isLost w { d with dir := turn x d.dir }.move = false := by
    rw [World.isLost_eq (by simp [hphase, Phase.isPrinting]), World.isVoid_of_cell hc, hblank]
  rw [settled_of_not_lost hlost]
  exact hphase

/-- The step back: over the same cell, into the way that the first dot came by. -/
theorem pathStep_back {y : Dot} (h : d.pathStep? w = some d') (hphase : y.phase = .travel)
    (hpos : y.pos = d.pos) (hdir : y.dir = -d'.dir) :
    ∃ y', y.pathStep? w = some y' ∧ y'.dir = -d.dir := by
  obtain ⟨c, hc, hpiece, -, hlets, rfl⟩ := pathStep?_eq_some_iff.mp h
  rw [settled_dir, move_dir] at hdir
  refine ⟨{ y with dir := turn c y.dir }.move.settled w, ?_, ?_⟩
  · refine pathStep?_eq_some_iff.mpr ⟨c, by rw [hpos, hc], hpiece, hphase, ?_, rfl⟩
    rw [hdir]
    exact lets_neg_turn hpiece hlets
  · rw [settled_dir, move_dir]
    show turn c y.dir = _
    rw [hdir, turn_neg_turn hpiece]

/-- The way back over a whole walk. -/
theorem walk_back {y : Dot} (hn : 1 ≤ n) (h : d.walk? w n = some (ps, d'))
    (hphase : y.phase = .travel) (hpos : ps.getLast? = some y.pos) (hdir : y.dir = -d'.dir) :
    ∃ y', y.walk? w n = some (ps.reverse, y') ∧ y'.dir = -d.dir := by
  -- From the first cell on: the way back over the rest leads to the first cell.
  induction n generalizing d ps with
  | zero => omega
  | succ n ih =>
    obtain ⟨e, qs, he, hwalk, rfl⟩ := walk?_succ_iff.mp h
    cases n with
    | zero =>
      cases hwalk
      obtain ⟨y', hy', hback⟩ := pathStep_back he hphase (Option.some.inj hpos).symm hdir
      refine ⟨y', walk?_succ_iff.mpr ⟨y', [], hy', rfl, ?_⟩, hback⟩
      rw [← Option.some.inj hpos]
      rfl
    | succ n =>
      obtain ⟨f, rs, he', -, rfl⟩ := walk?_succ_iff.mp hwalk
      rw [List.getLast?_cons_cons] at hpos
      obtain ⟨y', hy', hback⟩ := ih (by omega) hwalk hpos
      obtain ⟨z, qs', -, hlast, hqs⟩ := walk?_concat_iff.mp hy'
      have hz : z.pos = e.pos := by
        rw [List.reverse_cons] at hqs
        simpa using (List.append_inj_right' hqs rfl).symm
      have hplace : y'.pos = d.pos := by
        rw [pos_of_pathStep hlast, hz, pos_of_pathStep he, hback]
        show Pos.mk _ _ = d.pos
        simp
      -- The first cell is drawn, so the dot is not lost there and takes the last step.
      obtain ⟨c, hc, hpiece, -, -, -⟩ := pathStep?_eq_some_iff.mp he
      have hlive : y'.phase = .travel :=
        phase_of_pathStep hlast (hplace ▸ hc) (Cell.isBlank_of_isPathPiece hpiece)
      obtain ⟨y'', hy'', hdir''⟩ := pathStep_back he hlive hplace hback
      refine ⟨y'', walk?_concat_iff.mpr ⟨y', (e.pos :: rs).reverse, hy', hy'', ?_⟩, hdir''⟩
      rw [hplace, List.reverse_cons (a := d.pos)]

end

end Dot

/-! ## Walks in the machine -/

namespace Machine

/-- The dot `d` goes over the places `ps` in `n` steps and is `d'` then, step by step
    and in parallel ticks with any other dots around. -/
structure WalksOver (w : World) (d : Dot) (n : Nat) (ps : List Pos) (d' : Dot) : Prop where
  /-- Steps that are taken on end complete, and concern this dot only. -/
  alone : ∀ (s : Scene) (i : Nat), s.dots[i]? = some d →
    (List.range n).forM (fun _ => Turn.stepOnce w i) s =
      .ok () { s with dots := s.dots.set i d' }
  /-- In each tick it travels on at the next place. -/
  parallel : ∀ {m : Nat} (run : Stretch w m) (i : Nat), n ≤ m → run.Has i 0 d →
    (∀ k p, ps[k]? = some p → ∃ x, run.Has i k x ∧ x.pos = p ∧ x.phase = .travel ∧
      x.chosen w = .ok x) ∧ run.Makes i n d'

section
variable {w : World} {d d' : Dot} {n : Nat} {ps : List Pos}

/-- A step over a piece of path concerns only the dot that takes it. -/
theorem stepOnce_of_pathStep {s : Scene} {i : Nat} (h : d.pathStep? w = some d')
    (hd : s.dots[i]? = some d) :
    Turn.stepOnce w i s = .ok () { s with dots := s.dots.set i d' } := by
  obtain ⟨c, hc, hpiece, hphase, hlets, rfl⟩ := Dot.pathStep?_eq_some_iff.mp h
  have hchoose : d.choose c = .ok .travel := by
    rw [Dot.choose_of_piece hpiece hphase, if_pos hlets]
  have hsame : { d with phase := .travel } = d := by rw [← hphase]
  have hi := (List.getElem?_eq_some_iff.mp hd).1
  rw [Turn.stepOnce_inside hd hc]
  rcases Turn.step_cases hd hc with ⟨why, herror, -⟩ | ⟨phase, hchosen, hrest⟩
  · rw [hchoose] at herror
    cases herror
  · cases hchoose.symm.trans hchosen
    rw [hsame, Dot.deed_of_piece hpiece hphase] at hrest
    rcases hrest with ⟨e, t, hp, -⟩ | ⟨t, o, hp, ho, hstep⟩
    · cases hp
    · cases hp
      simp only [List.set_set, List.getElem?_set_self hi, Option.some.injEq] at ho
      subst ho
      rw [bind_of_ok hstep]
      simp only [List.set_set]
      rfl

/-- Whatever walks over pieces of path does so in the machine. -/
theorem walksOver_of_walk (hphase : d.phase = .travel) (h : d.walk? w n = some (ps, d')) :
    WalksOver w d n ps d' := by
  induction n generalizing d' ps with
  | zero =>
    cases h
    refine ⟨?_, ?_⟩
    · intro s i hd
      obtain ⟨hi, rfl⟩ := List.getElem?_eq_some_iff.mp hd
      show EStateM.Result.ok () s = _
      simp
    · intro m run i _ hhas
      refine ⟨by simp, ?_⟩
      unfold Stretch.Makes
      rw [if_neg (by simp [Dot.isDead, hphase, Phase.isDead])]
      exact hhas
  | succ n ih =>
    obtain ⟨e, qs, hwalk, he, rfl⟩ := Dot.walk?_concat_iff.mp h
    have hgoes := ih hwalk
    obtain ⟨c, hc, hpiece, hetravel, hlets, heq⟩ := Dot.pathStep?_eq_some_iff.mp he
    have hsame : { e with phase := .travel } = e := by rw [← hetravel]
    have hchoose : e.choose c = .ok .travel := by
      rw [Dot.choose_of_piece hpiece hetravel, if_pos hlets]
    have hblank := Cell.isBlank_of_isPathPiece hpiece
    refine ⟨?_, ?_⟩
    · intro s i hd
      have hi := (List.getElem?_eq_some_iff.mp hd).1
      rw [forM_range_succ, bind_of_ok (hgoes.alone s i hd),
        stepOnce_of_pathStep he (List.getElem?_set_self hi)]
      simp only [List.set_set]
    · intro m run i hm hhas
      obtain ⟨hplaces, hmakes⟩ := hgoes.parallel run i (by omega) hhas
      -- It travels before the last step, so it is still there.
      have hthere : run.Has i n e := by
        unfold Stretch.Makes at hmakes
        rw [if_neg (by simp [Dot.isDead, hetravel, Phase.isDead])] at hmakes
        exact hmakes
      constructor
      · intro k p hk
        rcases Nat.lt_or_ge k qs.length with hlt | hge
        · rw [List.getElem?_append_left hlt] at hk
          exact hplaces k p hk
        · have hlength : qs.length = n := Dot.length_of_walk hwalk
          have hbound := (List.getElem?_eq_some_iff.mp hk).1
          rw [List.length_append, List.length_singleton] at hbound
          obtain rfl : k = n := by omega
          rw [← hlength, List.getElem?_concat_length, Option.some.injEq] at hk
          have hchosen : e.chosen w = .ok e := by
            simp [Dot.chosen, hc, hchoose, hblank, Except.map, hsame]
          exact ⟨e, hthere, hk, hetravel, hchosen⟩
      · rw [heq]
        refine hthere.become (by omega) hc hblank hchoose (fun _ => Phase.noConfusion) ?_
        rw [hsame]
        exact Dot.deed_of_piece hpiece hetravel

end

/-- A walk over pieces of path can be walked backwards.

    A dot has gone over the places `ps`, and has the direction of `d'` after the last of
    them.  Then a travelling dot `y` on the last place that faces the opposite way goes
    over the same places in the opposite order, whatever happened to the first dot behind
    the last place, and has the opposite of the first direction after the last of them. -/
theorem walk_retraced {w : World} {n : Nat} {d d' y : Dot} {ps : List Pos} (hn : 1 ≤ n)
    (h : d.walk? w n = some (ps, d')) (hphase : y.phase = .travel)
    (hpos : ps.getLast? = some y.pos) (hdir : y.dir = -d'.dir) :
    WalksOver w d n ps d' ∧
      ∃ y', y.walk? w n = some (ps.reverse, y') ∧ y'.dir = -d.dir ∧
        WalksOver w y n ps.reverse y' := by
  have htravel : d.phase = .travel := by
    obtain ⟨k, rfl⟩ := Nat.exists_eq_add_of_le' hn
    obtain ⟨e, qs, he, -, -⟩ := Dot.walk?_succ_iff.mp h
    obtain ⟨c, -, -, hphase, -, -⟩ := Dot.pathStep?_eq_some_iff.mp he
    exact hphase
  obtain ⟨y', hback, hdir'⟩ := Dot.walk_back hn h hphase hpos hdir
  exact ⟨walksOver_of_walk htravel h, y', hback, hdir', walksOver_of_walk hphase hback⟩

/-- A path with both walls, both straight pieces and a crossing. -/
@[irreducible] def hairpin : Machine × Option Stop := launchAlone ".-\\\n  |\n  +\n--/"

/-- The dot of this program after its first tick. -/
def intoHairpin : Dot := { pos := ⟨1, 0⟩, spawn := ⟨0, 0⟩, dir := .right }

/-- A dot at the end of the path, where the first one leaves the drawing. -/
def outOfHairpin : Dot := { pos := ⟨0, 3⟩, spawn := ⟨0, 3⟩, dir := .right }

theorem hairpin_walked :
    hairpin.2 = none ∧ (nextScene hairpin.1.world hairpin.1.scene).dots = [intoHairpin] ∧
      intoHairpin.walk? hairpin.1.world 7 =
        some ([⟨1, 0⟩, ⟨2, 0⟩, ⟨2, 1⟩, ⟨2, 2⟩, ⟨2, 3⟩, ⟨1, 3⟩, ⟨0, 3⟩],
          { pos := ⟨-1, 3⟩, spawn := ⟨0, 0⟩, dir := .left, phase := .dead }) := by
  decide +kernel

/-- The first dot dies behind the end of the path; the other one comes out on the other
    side. -/
theorem hairpin_retraced :
    (nextScene hairpin.1.world hairpin.1.scene).dots = [intoHairpin] ∧
      ∃ y, outOfHairpin.walk? hairpin.1.world 7 =
          some ([⟨0, 3⟩, ⟨1, 3⟩, ⟨2, 3⟩, ⟨2, 2⟩, ⟨2, 1⟩, ⟨2, 0⟩, ⟨1, 0⟩], y) ∧
        y.dir = .left ∧
        WalksOver hairpin.1.world outOfHairpin 7
          [⟨0, 3⟩, ⟨1, 3⟩, ⟨2, 3⟩, ⟨2, 2⟩, ⟨2, 1⟩, ⟨2, 0⟩, ⟨1, 0⟩] y := by
  obtain ⟨-, hdots, hwalk⟩ := hairpin_walked
  obtain ⟨-, y, hback, hdir, hgoes⟩ :=
    walk_retraced (y := outOfHairpin) (by decide) hwalk rfl rfl (by decide)
  exact ⟨hdots, y, hback, hdir, hgoes⟩

end Machine

end DotPaths
