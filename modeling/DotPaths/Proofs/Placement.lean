import DotPaths.Proofs.Choice
import DotPaths.Proofs.Turn

/-! # Where dots stand

    A dot that is alive moves in one of the four directions and stands on a cell
    of the drawing, which is not blank unless the dot is printing.  If it waits,
    it waits for what the cell is there for, and it is a master exactly if it
    moves in the right direction.

    Choosing a phase, doing a deed, waiting and meeting preserve this, one dot
    at a time.  Between the choosing and the acting of a single step a dot may
    stand on a blank cell; a dot is *poised* if the rest is in order.
-/

namespace DotPaths

/-! ## Directions -/

namespace Pos

variable {dir : Pos}

theorem mem_directions : dir ∈ directions ↔ dir = up ∨ dir = right ∨ dir = down ∨ dir = left := by
  simp [directions]

theorem isVertical_iff (h : dir ∈ directions) : dir.isVertical = true ↔ dir = up ∨ dir = down := by
  rcases mem_directions.mp h with rfl | rfl | rfl | rfl <;> decide

theorem isHorizontal_iff (h : dir ∈ directions) :
    dir.isHorizontal = true ↔ dir = left ∨ dir = right := by
  rcases mem_directions.mp h with rfl | rfl | rfl | rfl <;> decide

end Pos

/-- Walls and arrows turn a direction into another one. -/
theorem Dot.turn_mem {c : Cell} {dir : Pos} (h : dir ∈ Pos.directions) :
    turn c dir ∈ Pos.directions := by
  -- The two slanted walls exchange the axes.
  have hback : (⟨dir.y, dir.x⟩ : Pos) ∈ Pos.directions ∧
      (⟨-dir.y, -dir.x⟩ : Pos) ∈ Pos.directions := by
    rcases Pos.mem_directions.mp h with rfl | rfl | rfl | rfl <;> decide
  unfold turn
  repeat' split
  · exact hback.1
  · exact hback.2
  · decide
  · decide
  · decide
  · decide
  · decide
  · decide
  · exact h

/-! ## Dots in their places -/

/-- A dot with this direction waits on the cell for what the cell is there for,
    in the role that its direction gives it. -/
def Meeting.Fits (m : Meeting) (c : Cell) (dir : Pos) : Prop :=
  match m.purpose with
  | .none => False
  | .square => c.kind = .operator (some .square) ∧ (m.master = true ↔ dir = .up ∨ dir = .down)
  | .curly => c.kind = .operator (some .curly) ∧ (m.master = true ↔ dir = .left ∨ dir = .right)
  | .switch => c.glyph = '~' ∧ (m.master = true ↔ dir = .left ∨ dir = .right)

namespace Dot

/-- A dot that is in its place. -/
structure Placed (w : World) (d : Dot) : Prop where
  dir : d.dir ∈ Pos.directions
  ground : ∃ c, w.cell? d.pos = some c ∧ (c.isBlank = true → d.phase.isPrinting = true) ∧
    ∀ m, d.phase = .meet m → m.Fits c d.dir

/-- The dot is dead or in its place. -/
def Stands (w : World) (d : Dot) : Prop := d.isDead = false → d.Placed w

/-- The dot is dead or in its place, but for a blank cell. -/
structure Poised (w : World) (d : Dot) : Prop where
  dir : d.isDead = false → d.dir ∈ Pos.directions
  fits : ∀ m c, d.phase = .meet m → w.cell? d.pos = some c → m.Fits c d.dir

variable {w : World} {c : Cell} {d d' : Dot}

theorem isDead_of_meet {m : Meeting} (h : d.phase = .meet m) : d.isDead = false := by
  simp [isDead, Phase.isDead, h]

theorem stands_of_dead (h : d.phase = .dead) : d.Stands w := by
  intro hlive
  simp [isDead, Phase.isDead, h] at hlive

theorem Stands.poised (h : d.Stands w) : d.Poised w := by
  refine ⟨fun hlive => (h hlive).dir, ?_⟩
  intro m c hm hc
  obtain ⟨c', hc', -, hfits⟩ := (h (isDead_of_meet hm)).ground
  cases hc.symm.trans hc'
  exact hfits m hm

/-- A poised dot stands if it is not lost. -/
theorem Poised.stands (h : d.Poised w) (hlost : d.isDead = false → Turn.isLost w d = false) :
    d.Stands w := by
  intro hlive
  refine ⟨h.dir hlive, ?_⟩
  have hlost := hlost hlive
  unfold Turn.isLost at hlost
  cases hc : w.cell? d.pos with
  | none =>
    rw [hc] at hlost
    cases hlost
  | some c =>
    rw [hc] at hlost
    refine ⟨c, rfl, ?_, fun m hm => h.fits m c hm hc⟩
    intro hblank
    simpa [hblank] using hlost

theorem Poised.settled (h : d.Poised w) : (d.settled w).Stands w := by
  cases hlost : Turn.isLost w d with
  | true =>
    rw [settled_of_lost hlost]
    exact stands_of_dead rfl
  | false =>
    rw [settled_of_not_lost hlost]
    exact h.stands fun _ => hlost

/-! ## Choosing -/

theorem Begins.fits {m : Meeting} (h : d.Begins c m) (hdir : d.dir ∈ Pos.directions) :
    m.Fits c d.dir := by
  have hkind : ∀ b, c.kind.bracket? = some b → c.kind = .operator (some b) := by
    intro b hb
    cases hk : c.kind with
    | operator b' => rw [hk] at hb; cases hb; rfl
    | _ => rw [hk] at hb; cases hb
  obtain ⟨p, onId, hbelongs, rfl⟩ := h
  cases p with
  | none => exact hbelongs
  | square => exact ⟨hkind _ hbelongs, Pos.isVertical_iff hdir⟩
  | curly => exact ⟨hkind _ hbelongs, Pos.isHorizontal_iff hdir⟩
  | switch => exact ⟨hbelongs, Pos.isHorizontal_iff hdir⟩

theorem Stands.choose {phase : Phase} (h : d.Stands w) (hc : w.cell? d.pos = some c)
    (hphase : d.choose c = .ok phase) : Poised w { d with phase := phase } := by
  -- A dead dot stays dead, so what chooses to live was alive.
  have hlive : phase.isDead = false → d.isDead = false := by
    intro hlive
    cases hdead : d.isDead with
    | false => rfl
    | true =>
      unfold Dot.choose at hphase
      rw [isDead_iff.mp hdead] at hphase
      cases hphase
      cases hlive
  refine ⟨fun hl => (h (hlive hl)).dir, ?_⟩
  intro m c' hm hc'
  cases hc.symm.trans hc'
  obtain rfl : phase = .meet m := hm
  have hplaced := h (hlive rfl)
  rcases choose_meet hphase with hsame | ⟨-, hbegins⟩
  · exact h.poised.fits m c hsame hc
  · exact hbegins.fits hplaced.dir

theorem Stands.chosen (h : d.Stands w) (hd' : d.chosen w = .ok d') : d'.Stands w := by
  rcases chosen_ok hd' with rfl | ⟨c, phase, hc, hphase, -, rfl⟩
  · exact stands_of_dead rfl
  · exact (h.choose hc hphase).stands (isLost_chosen hd')

/-! ## Acting -/

/-- The dots that set out at a crossing are in their places. -/
theorem placed_of_mem_copies {o : Dot} (h : o ∈ d.copies w) : o.Placed w := by
  unfold copies at h
  split at h
  · unfold branches at h
    obtain ⟨dir, hdir, rfl⟩ := List.mem_map.mp h
    obtain ⟨hmem, hfree⟩ := List.mem_filter.mp hdir
    simp only [Bool.and_eq_true, Option.any_eq_true] at hfree
    obtain ⟨-, c, hc, hblank⟩ := hfree
    refine ⟨hmem, c, hc, ?_, ?_⟩
    · intro hb
      rw [hb] at hblank
      cases hblank
    · intro m hm
      cases hm
  · cases h

/-- What a meeting makes of a master keeps one of the four directions. -/
theorem outcome_dir {m : Meeting} {n : Number} (h : m.outcome c d n = .ok d')
    (hdir : d.dir ∈ Pos.directions) : d'.dir ∈ Pos.directions := by
  rcases Meeting.outcome_cases h with ⟨-, rfl⟩ | ⟨-, -, b, -, rfl⟩
  · split
    · exact hdir
    · exact Pos.mem_directions.mpr (.inl rfl)
  · rwa [setStake_dir]

end Dot

/-- What a turn makes of a poised dot is poised, and every other dot is as
    before, dead, or in its place. -/
theorem Turn.Does.poised {w : World} {c : Cell} {i : Nat} {d d' : Dot} {dots rest : List Dot}
    (h : Turn.Does w c i d dots rest d') (hd : d.Poised w) :
    d'.Poised w ∧
      ∀ (k : Nat) (o : Dot), rest[k]? = some o → dots[k]? = some o ∨ o.Stands w := by
  cases h with
  | @alone _ new hphase hgoes hdead =>
    refine ⟨⟨?_, fun m _ hm _ => absurd hm (hgoes.phase m)⟩, ?_⟩
    · intro hlive
      -- A dead dot would have stayed as it was.
      have hdir : d.dir ∈ Pos.directions := by
        apply hd.dir
        cases hd₀ : d.isDead with
        | false => rfl
        | true =>
          rw [hdead (Dot.isDead_iff.mp hd₀), hd₀] at hlive
          cases hlive
      rcases hgoes.dir with heq | heq
      · rw [heq]; exact hdir
      · rw [heq]; exact Dot.turn_mem hdir
    · intro k o ho
      by_cases hk : k < dots.length
      · rw [List.getElem?_append_left hk] at ho
        exact .inl ho
      · rw [List.getElem?_append_right (by omega), hgoes.new] at ho
        exact .inr fun _ => Dot.placed_of_mem_copies (List.mem_of_getElem? ho)
  | @wait m hphase _ =>
    -- Only the age of the meeting changes.
    refine ⟨⟨fun _ => hd.dir (Dot.isDead_of_meet hphase), ?_⟩, fun k o ho => .inl ho⟩
    intro m' x hm' hx
    cases hm'
    exact hd.fits m x hphase hx
  | @meet m n j o d₁ hphase _ _ _ _ _ hout =>
    have hdir := Dot.outcome_dir hout (hd.dir (Dot.isDead_of_meet hphase))
    refine ⟨⟨fun _ => hdir, fun _ _ hm => by cases hm⟩, ?_⟩
    intro k o' ho'
    by_cases hkj : k = j
    · subst hkj
      rw [List.getElem?_set_self' ] at ho'
      obtain ⟨_, -, rfl⟩ := Option.map_eq_some_iff.mp ho'
      exact .inr (Dot.stands_of_dead rfl)
    · rw [List.getElem?_set_ne (Ne.symm hkj)] at ho'
      exact .inl ho'

/-! ## All dots -/

/-- Every dot is dead or in its place. -/
def AllStand (w : World) (dots : List Dot) : Prop := ∀ d ∈ dots, d.Stands w

section
variable {w : World} {dots : List Dot} {s s' : Scene} {i : Nat}

theorem AllStand.get {k : Nat} {d : Dot} (h : AllStand w dots) (hd : dots[k]? = some d) :
    d.Stands w :=
  h d (List.mem_of_getElem? hd)

theorem AllStand.set {d : Dot} (h : AllStand w dots) (hd : d.Stands w) :
    AllStand w (dots.set i d) := by
  intro o ho
  rcases List.mem_or_eq_of_mem_set ho with hmem | rfl
  · exact h o hmem
  · exact hd

/-- After the turn of a poised dot all stand, if all others did. -/
theorem Turn.Does.allStand {c : Cell} {d d' : Dot} {rest : List Dot}
    (h : Turn.Does w c i d dots rest d') (hd : d.Poised w)
    (hothers : ∀ (k : Nat) (o : Dot), k ≠ i → dots[k]? = some o → o.Stands w) :
    AllStand w (rest.set i (d'.settled w)) := by
  obtain ⟨hd', hrest⟩ := h.poised hd
  intro o ho
  obtain ⟨k, hk⟩ := List.mem_iff_getElem?.mp ho
  by_cases hki : k = i
  · subst hki
    rw [List.getElem?_set_self'] at hk
    obtain ⟨_, -, rfl⟩ := Option.map_eq_some_iff.mp hk
    exact hd'.settled
  · rw [List.getElem?_set_ne (Ne.symm hki)] at hk
    rcases hrest k o hk with hold | hstands
    · exact hothers k o hki hold
    · exact hstands

namespace Turn

theorem choose_allStand (h : choose w i s = .ok () s') (hs : AllStand w s.dots) :
    AllStand w s'.dots := by
  obtain ⟨d, d', hd, hd', rfl⟩ := choose_ok_iff.mp h
  exact hs.set ((hs.get hd).chosen hd')

theorem act_allStand (h : act w i s = .ok () s') (hs : AllStand w s.dots) :
    AllStand w s'.dots := by
  obtain ⟨d, hd, hcases⟩ := act_ok h
  rcases hcases with ⟨-, hdots⟩ | ⟨c, rest, d', -, hdoes, hdots⟩
  · rw [hdots]
    exact hs.set (Dot.stands_of_dead rfl)
  · rw [hdots]
    exact hdoes.allStand (hs.get hd).poised fun k o _ ho => hs.get ho

theorem step_allStand {c : Cell} {b : Bool} {d : Dot} (h : step w i c s = .ok b s')
    (hs : AllStand w s.dots) (hd : s.dots[i]? = some d) (hc : w.cell? d.pos = some c) :
    AllStand w s'.dots := by
  obtain ⟨d₁, phase, hd₁, hphase, hdo⟩ := step_ok h
  cases hd.symm.trans hd₁
  obtain ⟨rest, d', hdoes, hdots⟩ := hdo hc
  rw [hdots]
  -- The dot itself is only poised here, so the others are taken one by one.
  refine hdoes.allStand ((hs.get hd).choose hc hphase) ?_
  intro k o hki ho
  rw [List.getElem?_set_ne (Ne.symm hki)] at ho
  exact hs.get ho

end Turn

end

end DotPaths
