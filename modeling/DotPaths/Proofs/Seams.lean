import DotPaths.Proofs.Expansion
import DotPaths.Proofs.Notes

/-! # Seams

    The rows of a world are those of several texts, one directly below the
    other.  Where two texts come together there is a seam, and nothing marks it:
    a dot that walks down from the last row of a text comes to the first row of
    the next one, and if there is something for it to stand on, it goes on there.

    These are the only ways from text to text apart from the warps.  The step of
    a dot that stands on no warp leads to another text exactly if it crosses a
    seam.
-/

namespace DotPaths.World

/-! ## Seats -/

/-- The number of rows of a text. -/
def FileUse.height (u : FileUse) : Nat := (rowsOf u.text).length

theorem FileUse.height_pos (u : FileUse) : 0 < u.height := by
  unfold FileUse.height rowsOf
  rw [List.length_map]
  exact List.length_pos_iff.mpr (Text.splitOn_ne_nil _ _)

/-- A row of an expansion: the number of the text, and the row in it. -/
structure Seat where
  text : Nat
  row : Nat
  deriving DecidableEq

/-- The seat of a row of the whole drawing. -/
def seat? : List FileUse → Nat → Option Seat
  | [], _ => none
  | u :: uses, y =>
    if y < u.height then some ⟨0, y⟩
    else (seat? uses (y - u.height)).map fun t => ⟨t.text + 1, t.row⟩

/-- The number of rows of the text with a number. -/
def heightOf (uses : List FileUse) (k : Nat) : Nat := (uses[k]?.map FileUse.height).getD 0

section
variable {uses : List FileUse} {y : Nat} {t t' : Seat}

theorem seat?_isSome (h : y < (uses.flatMap fun u => rowsOf u.text).length) :
    ∃ t, seat? uses y = some t := by
  induction uses generalizing y with
  | nil => cases h
  | cons u uses ih =>
    unfold seat?
    by_cases hy : y < u.height
    · exact ⟨_, if_pos hy⟩
    · rw [List.flatMap_cons, List.length_append] at h
      change y < u.height + _ at h
      obtain ⟨t, ht⟩ := ih (y := y - u.height) (by omega)
      exact ⟨_, by rw [if_neg hy, ht]; rfl⟩

/-- The row below is the next one of the same text, or the first one of the next
    text. -/
theorem seat?_below (h : seat? uses y = some t) (h' : seat? uses (y + 1) = some t') :
    (t' = ⟨t.text, t.row + 1⟩ ∧ t.row + 1 < heightOf uses t.text) ∨
      (t' = ⟨t.text + 1, 0⟩ ∧ t.row + 1 = heightOf uses t.text) := by
  induction uses generalizing y t t' with
  | nil => cases h
  | cons u uses ih =>
    unfold seat? at h h'
    by_cases hy : y < u.height
    · rw [if_pos hy] at h
      cases h
      by_cases hy' : y + 1 < u.height
      · rw [if_pos hy'] at h'
        cases h'
        exact .inl ⟨rfl, hy'⟩
      · -- The next text begins here, and it has a first row.
        rw [if_neg hy', show y + 1 - u.height = 0 by omega] at h'
        refine .inr ⟨?_, show y + 1 = u.height by omega⟩
        cases uses with
        | nil => cases h'
        | cons v uses =>
          rw [seat?, if_pos v.height_pos] at h'
          cases h'
          rfl
    · rw [if_neg hy] at h
      rw [if_neg (by omega), show y + 1 - u.height = y - u.height + 1 by omega] at h'
      obtain ⟨s, hs, rfl⟩ := Option.map_eq_some_iff.mp h
      obtain ⟨s', hs', rfl⟩ := Option.map_eq_some_iff.mp h'
      rcases ih hs hs' with ⟨rfl, hrow⟩ | ⟨rfl, hrow⟩
      · exact .inl ⟨rfl, hrow⟩
      · exact .inr ⟨rfl, hrow⟩

end

end DotPaths.World

namespace DotPaths

/-! ## The steps of a run -/

/-- An observer who keeps the steps of the dots: each dot as it acts, and as it is
    after that. -/
def stepKeeper : Observer (List (Dot × Dot)) where
  stepped i s t steps :=
    steps ++ (s.dots[i]?.bind fun d => t.dots[i]?.map fun d' => (d, d')).toList

/-- What is known about a step in any run. -/
structure IsStep (w : World) (d d' : Dot) : Prop where
  moves : ∃ o, d.Moves w o ∧ d' = o.settled w
  ground : ∃ c, w.cell? d.pos = some c
  stands : d'.Stands w

/-- A dot that is alive after its step has moved. -/
theorem IsStep.moved {w : World} {d d' : Dot} (h : IsStep w d d') (hlive : d'.isDead = false) :
    d.Moves w d' := by
  obtain ⟨o, hmoves, rfl⟩ := h.moves
  rw [Dot.settled_of_live hlive]
  exact hmoves

/-- The steps of a run of at most `fuel` ticks. -/
def Machine.steps (m : Machine) (fuel : Nat) : List (Dot × Dot) :=
  Observed.notes (Observed.loop stepKeeper m.world m.parallel fuel (m.scene, []))

/-- All that is kept are steps. -/
def StepsKept (w : World) (_ : List Dot) (steps : List (Dot × Dot)) : Prop :=
  ∀ x ∈ steps, IsStep w x.1 x.2

theorem stepKeeper_maintains (w : World) : stepKeeper.Maintains w (StepsKept w) where
  deaf := ⟨fun _ _ => rfl, fun _ _ => rfl⟩
  ticked _ _ := rfl
  moved _ _ := rfl
  rephased _ h _ := h
  erased _ h := h
  swept _ h := h
  stepped := by
    intro s t steps i c d d' rest h hacts x hx
    rcases List.mem_append.mp hx with hold | hnew
    · exact h x hold
    · have hi := hacts.does.lt_length (List.getElem?_eq_some_iff.mp hacts.dot).1
      have hafter : t.dots[i]? = some (d'.settled w) := by
        rw [hacts.dots]
        exact List.getElem?_set_self hi
      rw [hacts.dot, hafter] at hnew
      obtain rfl : x = (d, d'.settled w) := by simpa using hnew
      have hpoised := (hacts.does.poised hacts.poised).1
      exact ⟨⟨d', hacts.moves, rfl⟩, ⟨c, hacts.cell⟩, hpoised.settled⟩

/-! ## Crossing a seam -/

open World

/-- The dot goes over the seam between two texts: down from the last row of the
    one to the first row of the next, or up the same way. -/
def CrossesSeam (uses : List FileUse) (d d' : Dot) (t t' : Seat) : Prop :=
  d'.pos = d.pos + d'.dir ∧
    ((d'.dir = .down ∧ t.row + 1 = heightOf uses t.text ∧ t' = ⟨t.text + 1, 0⟩) ∨
      (d'.dir = .up ∧ t'.row + 1 = heightOf uses t'.text ∧ t = ⟨t'.text + 1, 0⟩))

/-- A position on a cell has a seat. -/
theorem World.cell?_seat {w : World} {uses : List FileUse} {p : Pos} {c : Cell}
    (hrows : w.rows.map glyphs = uses.flatMap fun u => rowsOf u.text) (hc : w.cell? p = some c) :
    0 ≤ p.y ∧ ∃ t, seat? uses p.y.toNat = some t := by
  unfold World.cell? at hc
  split at hc
  · cases hc
  · next hneg =>
    obtain ⟨row, hrow, -⟩ := Option.bind_eq_some_iff.mp hc
    have hlt := (List.getElem?_eq_some_iff.mp hrow).1
    rw [← List.length_map glyphs, hrows] at hlt
    refine ⟨?_, seat?_isSome hlt⟩
    simp at hneg
    exact hneg.2

/-- A dot that stands on no warp comes to another text exactly by crossing a
    seam. -/
theorem IsStep.text_changes_iff {w : World} {uses : List FileUse} {d d' : Dot} (h : IsStep w d d')
    (hrows : w.rows.map glyphs = uses.flatMap fun u => rowsOf u.text)
    (hlive : d'.isDead = false) (hplain : ∀ c, w.cell? d.pos = some c → c.kind.isWarp = false) :
    ∃ t t', seat? uses d.pos.y.toNat = some t ∧ seat? uses d'.pos.y.toNat = some t' ∧
      (t'.text ≠ t.text ↔ CrossesSeam uses d d' t t') := by
  obtain ⟨c, hc⟩ := h.ground
  have hplaced := h.stands hlive
  obtain ⟨c', hc', -, -⟩ := hplaced.ground
  obtain ⟨hy, t, ht⟩ := cell?_seat hrows hc
  obtain ⟨hy', t', ht'⟩ := cell?_seat hrows hc'
  refine ⟨t, t', ht, ht', ?_⟩
  -- Whoever crosses a seam comes to another text.
  have hcross : CrossesSeam uses d d' t t' → t'.text ≠ t.text := by
    rintro ⟨-, ⟨-, -, rfl⟩ | ⟨-, -, rfl⟩⟩
    · exact Nat.succ_ne_self t.text
    · exact (Nat.succ_ne_self t'.text).symm
  refine ⟨?_, hcross⟩
  intro hne
  have hnot : ∀ v, c.kind ≠ .warp v := by
    intro v hv
    have hwarp := hplain c hc
    rw [hv] at hwarp
    cases hwarp
  have hnone : ∀ p, d.passage? w ≠ some p := by
    intro p hp
    cases hover : d.travelsOver c with
    | false =>
      rw [Dot.passage?_of_not_over hc hover] at hp
      cases hp
    | true =>
      rw [Dot.passage?_of_over hc hover] at hp
      cases hk : c.kind with
      | warp v => exact hnot v hk
      | _ =>
        rw [hk] at hp
        cases hp
  have hleft : d'.pos.y ≠ d.pos.y := by
    intro hsame
    rw [hsame, ht] at ht'
    cases ht'
    exact hne rfl
  cases h.moved hlive with
  | stay _ hpos => exact absurd (by rw [hpos]) hleft
  | warp _ hcell hkind =>
    cases hc.symm.trans hcell
    exact absurd hkind (hnot _)
  | enter hpassage => exact absurd hpassage (hnone _)
  | leave hpassage => exact absurd hpassage (hnone _)
  | walk _ hpos =>
    refine ⟨hpos, ?_⟩
    have hrow : d'.pos.y = d.pos.y + d'.dir.y := by rw [hpos]; rfl
    rcases Pos.mem_directions.mp hplaced.dir with hdir | hdir | hdir | hdir
    · -- Up: seen from above, the dot comes from the row below.
      rw [hdir] at hrow
      have hbelow : d.pos.y.toNat = d'.pos.y.toNat + 1 := by
        simp only [Pos.up] at hrow
        omega
      rw [hbelow] at ht
      rcases seat?_below ht' ht with ⟨rfl, -⟩ | ⟨rfl, hlast⟩
      · exact absurd rfl hne
      · exact .inr ⟨hdir, hlast, rfl⟩
    · rw [hdir] at hrow
      exact absurd (by simpa [Pos.right] using hrow) hleft
    · rw [hdir] at hrow
      have hbelow : d'.pos.y.toNat = d.pos.y.toNat + 1 := by
        simp only [Pos.down] at hrow
        omega
      rw [hbelow] at ht'
      rcases seat?_below ht ht' with ⟨rfl, -⟩ | ⟨rfl, hlast⟩
      · exact absurd rfl hne
      · exact .inl ⟨hdir, hlast, rfl⟩
    · rw [hdir] at hrow
      exact absurd (by simpa [Pos.left] using hrow) hleft

namespace Machine

/-- In every run, of either schedule and however it ends, the dots come from text
    to text over warps and across seams only: the step of a dot that stands on no
    warp, and is alive afterwards, leads to another text exactly if the dot
    crosses a seam.  It then stands on a cell that is not blank, or it is
    printing. -/
theorem text_changes_at_seams {shelf : Shelf} {program : String} {parallel : Bool}
    {console : Console} {traced : Nat} {m : Machine}
    (hlaunch : launch shelf program parallel console traced = (m, none)) :
    ∃ uses, IsExpansion shelf program.toList uses ∧
      ∀ fuel d d', (d, d') ∈ m.steps fuel → d'.isDead = false →
        (∀ c, m.world.cell? d.pos = some c → c.kind.isWarp = false) →
        ∃ t t' c', seat? uses d.pos.y.toNat = some t ∧ seat? uses d'.pos.y.toNat = some t' ∧
          (t'.text ≠ t.text ↔ CrossesSeam uses d d' t t') ∧
          m.world.cell? d'.pos = some c' ∧ (c'.isBlank = true → d'.phase.isPrinting = true) := by
  obtain ⟨hbuild, -⟩ := launch_ok hlaunch
  obtain ⟨blocks, uses, bonds, huses, hrows, hexpanded⟩ := build_ok hbuild
  refine ⟨uses, huses, ?_⟩
  intro fuel d d' hmem hlive hplain
  have hstep : IsStep m.world d d' := by
    have hkept : Observed.Kept m.world (StepsKept m.world) (m.scene, []) :=
      ⟨(Reachable.launched hlaunch rfl).allStand, fun x hx => by cases hx⟩
    obtain ⟨dots, hall⟩ :=
      (Observed.loop_maintained (stepKeeper_maintains m.world) m.parallel fuel hkept).exists_dots
    exact hall (d, d') hmem
  obtain ⟨t, t', ht, ht', hiff⟩ :=
    hstep.text_changes_iff (hrows ▸ hexpanded.rows_glyphs) hlive hplain
  obtain ⟨c', hc', hblank, -⟩ := (hstep.stands hlive).ground
  exact ⟨t, t', c', ht, ht', hiff, hc', hblank⟩

/-! ## A dot that walks out of its text -/

/-- A path at the end of the program, and one at the beginning of a library. -/
def gluedProgram : String := "%!l.dots L\n.L\n|"

def gluedShelf : Shelf := ⟨⟨[(["l.dots"], ['|'])]⟩, []⟩

/-- The texts of the expansion. -/
def gluedUses : List FileUse := [⟨[], gluedProgram.toList⟩, ⟨['L'], ['|']⟩]

theorem glued_isExpansion : IsExpansion gluedShelf gluedProgram.toList gluedUses := by
  have hprogram : aliasesUsed gluedProgram.toList = ['L'] := by decide +kernel
  have hlibrary : aliasesUsed ['|'] = [] := by decide +kernel
  have hfile : fileFor? gluedProgram.toList 'L' = some "l.dots" := by decide +kernel
  have htext : gluedShelf.text? "l.dots" = some ['|'] := by decide +kernel
  have hbelow : Imports gluedShelf ([] ++ ['L']) ['|'] (aliasesUsed ['|']) [] := by
    rw [hlibrary]
    exact .nil
  refine ⟨[⟨['L'], ['|']⟩], ?_, rfl⟩
  rw [hprogram]
  exact .cons hfile htext hbelow .nil

/-- The machine of the glued program. -/
def glued : Machine × Option Stop :=
  launch gluedShelf gluedProgram true (.start .recorder 0 0 [] [] []) 0

/-- In the second tick the dot goes from the last row of the program to the first
    row of the library. -/
theorem glued_steps :
    ∃ m s d d', glued = (m, none) ∧ loop m.world m.parallel 2 m.scene = .ok () s ∧
      (d, d') ∈ m.steps 2 ∧ d.isDead = false ∧ d'.isDead = false ∧
      (∀ c, m.world.cell? d.pos = some c → c.kind.isWarp = false) ∧
      seat? gluedUses d.pos.y.toNat = some ⟨0, 2⟩ ∧ seat? gluedUses d'.pos.y.toNat = some ⟨1, 0⟩ := by
  have htrial : noteTrial stepKeeper (fun _ => []) glued 2 (fun w steps => steps.any fun x =>
      !x.1.isDead && !x.2.isDead && (w.cell? x.1.pos).all (fun c => !c.kind.isWarp) &&
        decide (seat? gluedUses x.1.pos.y.toNat = some ⟨0, 2⟩) &&
        decide (seat? gluedUses x.2.pos.y.toNat = some ⟨1, 0⟩)) = true := by
    decide +kernel
  obtain ⟨m, s, steps, hm, hrun, hcheck⟩ := exists_of_noteTrial htrial
  obtain ⟨⟨d, d'⟩, hmem, hcheck⟩ := List.any_eq_true.mp hcheck
  simp only [Bool.and_eq_true, Bool.not_eq_true', Option.all_eq_true, decide_eq_true_eq] at hcheck
  obtain ⟨⟨⟨⟨hlive, hlive'⟩, hplain⟩, ht⟩, ht'⟩ := hcheck
  have hsteps : m.steps 2 = steps := by
    unfold Machine.steps
    rw [hrun]
    rfl
  exact ⟨m, s, d, d', hm, (Observed.loop_follows stepKeeper _ _ 2).ok hrun, hsteps ▸ hmem, hlive,
    hlive', hplain, ht, ht'⟩

/-- The texts are not isolated from each other: in a run whose ticks complete, a
    dot may come from one to another alive, and not from a warp. -/
theorem texts_not_isolated :
    ¬ ∀ (shelf : Shelf) (program : String) (parallel : Bool) (console : Console) (traced : Nat)
        (uses : List FileUse) (m : Machine) (fuel : Nat) (s : Scene),
      IsExpansion shelf program.toList uses →
      launch shelf program parallel console traced = (m, none) →
      loop m.world m.parallel fuel m.scene = .ok () s →
      ∀ d d' t t', (d, d') ∈ m.steps fuel → d.isDead = false → d'.isDead = false →
        seat? uses d.pos.y.toNat = some t → seat? uses d'.pos.y.toNat = some t' →
        t'.text ≠ t.text → ∃ c, m.world.cell? d.pos = some c ∧ c.kind.isWarp = true := by
  intro hisolated
  obtain ⟨m, s, d, d', hm, hruns, hmem, hlive, hlive', hplain, ht, ht'⟩ := glued_steps
  obtain ⟨c, hc, hwarp⟩ := hisolated _ _ _ _ _ _ m 2 s glued_isExpansion hm hruns d d' _ _ hmem
    hlive hlive' ht ht' (by decide)
  rw [hplain c hc] at hwarp
  cases hwarp

/-- The step of the glued program is one across a seam. -/
theorem text_changes_at_glued :
    ∃ m d d', glued = (m, none) ∧ (d, d') ∈ m.steps 2 ∧ d'.isDead = false ∧
      CrossesSeam gluedUses d d' ⟨0, 2⟩ ⟨1, 0⟩ := by
  obtain ⟨m, s, d, d', hm, -, hmem, -, hlive, hplain, ht, ht'⟩ := glued_steps
  obtain ⟨uses, huses, hall⟩ := text_changes_at_seams hm
  obtain rfl := huses.unique glued_isExpansion
  obtain ⟨r, r', -, hr, hr', hiff, -⟩ := hall 2 d d' hmem hlive hplain
  cases ht.symm.trans hr
  cases ht'.symm.trans hr'
  exact ⟨m, d, d', hm, hmem, hlive, hiff.mp (by decide)⟩

end Machine

end DotPaths
