import DotPaths.Proofs.Turn

/-! # Moves and passages

    A step may change where a dot stands and which entrances it remembers.  A
    dot that waits or is dead stays where it is, and most others go on to the
    next cell.  Only a dot that travels over a warp, and is neither turned nor
    copied there, gets anywhere else.

    Over the entrance of a library it makes a passage into the library, and the
    entrance is remembered; over an exposed cell it makes a passage out, and the
    entrance that it remembers last is where it comes out.  Nothing else touches
    what a dot remembers.
-/

namespace DotPaths

/-- A dot goes into a library by an entrance, or out of one. -/
inductive Passage where
  | into (entrance : Pos)
  | out
  deriving DecidableEq

namespace Dot

/-- Does the dot travel over the cell, neither turned nor copied by it? -/
def travelsOver (d : Dot) (c : Cell) : Bool :=
  decide (d.phase = .travel) && !isTurn c d.dir && c.glyph != '*'

/-- The passage that the dot makes when it acts. -/
def passage? (w : World) (d : Dot) : Option Passage :=
  match (w.cell? d.pos).filter d.travelsOver |>.bind fun c => c.kind.warp? with
  | some v =>
    if v.role = .exposed then some .out
    else if v.role.isRemembered then some (.into d.pos) else none
  | none => none

/-- What a step does to the place of a dot and to what it remembers. -/
inductive Moves (w : World) (d d' : Dot) : Prop where
  | stay (hpassage : d.passage? w = none) (hpos : d'.pos = d.pos) (hstack : d'.stack = d.stack)
  | walk (hpassage : d.passage? w = none) (hpos : d'.pos = d.pos + d'.dir)
      (hstack : d'.stack = d.stack)
  /-- It passes a warp that it does not remember. -/
  | warp {c : Cell} {v : Warp} (hpassage : d.passage? w = none) (hcell : w.cell? d.pos = some c)
      (hkind : c.kind = .warp v) (hstack : d'.stack = d.stack)
  /-- It goes into a library. -/
  | enter {c : Cell} {v : Warp} {q : Pos} (hpassage : d.passage? w = some (.into d.pos))
      (hcell : w.cell? d.pos = some c) (hkind : c.kind = .warp v)
      (hrole : v.role.isRemembered = true) (hreturn : v.role.isReturn = false)
      (htarget : v.target = some q)
      (hpos : d'.pos = q + d.dir) (hstack : d'.stack = d.pos :: d.stack)
  /-- It comes out of a library by the entrance `p`. -/
  | leave {p : Pos} {stack : List Pos} (hpassage : d.passage? w = some .out)
      (hbefore : d.stack = p :: stack) (hdir : d'.dir = d.dir) (hpos : d'.pos = p + d.dir)
      (hstack : d'.stack = stack)

section deeds
variable {w : World} {c : Cell} {d : Dot}

theorem passage?_of_phase (h : d.phase ≠ .travel) : d.passage? w = none := by
  have hover : ∀ c, d.travelsOver c = false := by
    intro c
    simp [travelsOver, h]
  unfold passage?
  cases w.cell? d.pos with
  | none => rfl
  | some c => simp [Option.filter, hover c]

theorem passage?_of_not_over (hc : w.cell? d.pos = some c) (h : d.travelsOver c = false) :
    d.passage? w = none := by
  unfold passage?
  simp [hc, Option.filter, h]

theorem passage?_of_over (hc : w.cell? d.pos = some c) (h : d.travelsOver c = true) :
    d.passage? w =
      match c.kind.warp? with
      | some v =>
        if v.role = .exposed then some .out
        else if v.role.isRemembered then some (.into d.pos) else none
      | none => none := by
  unfold passage?
  simp [hc, Option.filter, h]

/-- A dot that travels goes on over the cell, unless the cell turns it or makes it
    branch. -/
theorem travelsOver_of_travel (hp : d.phase = .travel) (hturn : ¬ isTurn c d.dir = true)
    (hstar : ¬ (c.glyph == '*') = true) : d.travelsOver c = true := by
  simp [travelsOver, hp]
  exact ⟨by simpa using hturn, by simpa using hstar⟩

theorem travelDeed_moves (hp : d.phase = .travel) (hc : w.cell? d.pos = some c) :
    (d.travelDeed w c).Ensures fun d' _ => d.Moves w d' := by
  unfold travelDeed
  split
  · next hturn =>
    have hover : d.travelsOver c = false := by simp [travelsOver, hturn]
    exact .walk (passage?_of_not_over hc hover) rfl rfl
  · next hturn =>
    split
    · next hstar =>
      have hover : d.travelsOver c = false := by simpa [travelsOver] using fun _ _ => hstar
      exact .walk (passage?_of_not_over hc hover) rfl rfl
    · next hstar =>
      have hpassage := passage?_of_over hc (travelsOver_of_travel hp hturn hstar)
      -- Nothing turns the dot, so it goes where the cell leads.
      cases hkind : c.kind with
      | warp v =>
        simp only [hkind, CellKind.warp?] at hpassage ⊢
        by_cases hexposed : v.role = .exposed
        · simp only [hexposed, if_true] at hpassage
          rw [if_pos (by simp [hexposed])]
          unfold Dot.leave
          split
          · split <;> trivial
          · next hstack => exact .leave hpassage hstack rfl rfl rfl
        · simp only [if_neg hexposed] at hpassage
          rw [if_neg (by simpa using hexposed)]
          unfold warpThrough
          simp only [hkind, CellKind.target]
          by_cases hreturn : v.role.isReturn = true
          · rw [if_pos hreturn]
            trivial
          · rw [if_neg hreturn]
            have hreturn : v.role.isReturn = false := by simpa using hreturn
            cases htarget : v.target with
            | none => trivial
            | some q =>
              by_cases hrole : v.role.isRemembered = true
              · rw [if_pos hrole] at hpassage ⊢
                exact .enter hpassage hc hkind hrole hreturn htarget rfl rfl
              · rw [if_neg hrole] at hpassage ⊢
                exact .warp hpassage hc hkind rfl
      | _ =>
        simp only [hkind, CellKind.warp?] at hpassage ⊢
        exact .walk hpassage rfl rfl

/-- One cell on, with everything remembered. -/
def WalksOn (d d' : Dot) : Prop := d'.pos = d.pos + d'.dir ∧ d'.stack = d.stack

theorem entryDeed_walksOn {e : Entry} {a : Number} {set : Dot → Number → Dot}
    {phase : Entry → Phase}
    (hset : ∀ n, (set d n).pos = d.pos ∧ (set d n).stack = d.stack) :
    (d.entryDeed c e a set phase).Ensures fun d' _ => d.WalksOn d' := by
  have hmove : ∀ n, d.WalksOn (set d n).move := by
    intro n
    obtain ⟨hpos, hstack⟩ := hset n
    exact ⟨by rw [move_pos, move_dir, hpos], hstack⟩
  unfold entryDeed
  split
  · exact ⟨rfl, rfl⟩
  · split
    · exact hmove _
    · split
      · exact ⟨rfl, rfl⟩
      · split
        · exact fun n => hmove (.int n)
        · exact ⟨rfl, rfl⟩

theorem printDeed_walksOn {p : Printing} :
    (d.printDeed c p).Ensures fun d' _ => d.WalksOn d' := by
  have hnumber : ∀ a, (d.printNumber p a).Ensures fun d' _ => d.WalksOn d' := by
    intro a
    unfold printNumber
    split
    · exact ⟨rfl, rfl⟩
    · trivial
  unfold printDeed
  repeat' split
  · exact ⟨rfl, rfl⟩
  · exact ⟨rfl, rfl⟩
  · exact ⟨rfl, rfl⟩
  · exact hnumber d.value
  · exact hnumber d.id
  · exact ⟨rfl, rfl⟩

theorem quoteDeed_walksOn {q : Quoting} :
    (d.quoteDeed c q).Ensures fun d' _ => d.WalksOn d' := by
  unfold quoteDeed doubleDeed singleDeed
  dsimp only
  repeat' split
  all_goals exact ⟨rfl, rfl⟩

/-- A dot that waits for nobody moves by its deed. -/
theorem deed_moves (hp : ∀ m, d.phase ≠ .meet m) (hc : w.cell? d.pos = some c) :
    (d.deed w c).Ensures fun d' _ => d.Moves w d' := by
  -- Outside the phase of travelling there are no passages.
  have hwalk : ∀ {deed : Deed}, d.phase ≠ .travel → deed.Ensures (fun d' _ => d.WalksOn d') →
      deed.Ensures fun d' _ => d.Moves w d' := by
    intro deed hphase hdeed
    exact hdeed.mono fun d' _ h => .walk (passage?_of_phase hphase) h.1 h.2
  unfold deed
  cases hphase : d.phase with
  | blank => trivial
  | travel => exact travelDeed_moves hphase hc
  | value e => exact hwalk (by simp [hphase]) (entryDeed_walksOn fun _ => ⟨rfl, rfl⟩)
  | ident e => exact hwalk (by simp [hphase]) (entryDeed_walksOn fun _ => ⟨rfl, rfl⟩)
  | print p => exact hwalk (by simp [hphase]) printDeed_walksOn
  | quote q => exact hwalk (by simp [hphase]) quoteDeed_walksOn
  | meet m => exact absurd hphase (hp m)
  | dead => exact .stay (passage?_of_phase (by simp [hphase])) rfl rfl
  | exit => trivial

/-- What becomes of the master of a meeting stands where it was. -/
theorem outcome_moves {m : Meeting} {n : Number} {d' : Dot} (hp : d.phase = .meet m)
    (h : m.outcome c d n = .ok d') : d.Moves w { d' with phase := .travel }.move := by
  have hplace : d'.pos = d.pos ∧ d'.stack = d.stack := by
    rcases Meeting.outcome_cases h with ⟨-, rfl⟩ | ⟨-, -, b, -, rfl⟩
    · split <;> exact ⟨rfl, rfl⟩
    · exact ⟨d.setStake_pos m _, d.setStake_stack m _⟩
  refine .walk (passage?_of_phase (by simp [hp])) ?_ hplace.2
  rw [move_pos, move_dir, hplace.1]

end deeds

end Dot

namespace Turn

open Scene

/-- Performing its deed, a dot does one of the three things, and moves. -/
theorem perform_moves {w : World} {c : Cell} {i : Nat} {d : Dot} {s s' : Scene}
    (hd : s.dots[i]? = some d) (hc : w.cell? d.pos = some c)
    (h : perform c i (d.deed w c) s = .ok () s') :
    ∃ rest d', Does w c i d s.dots rest d' ∧ d.Moves w d' ∧ s'.dots = rest.set i d' := by
  by_cases hphase : ∃ m, d.phase = .meet m
  · obtain ⟨m, hm⟩ := hphase
    have hnone : d.passage? w = none := Dot.passage?_of_phase (by simp [hm])
    obtain ⟨rest, d', hdoes, hdots⟩ := perform_does hd hc h
    refine ⟨rest, d', hdoes, ?_, hdots⟩
    cases hdoes with
    | alone hmeet => exact absurd hm (hmeet m)
    | wait => exact .stay hnone rfl rfl
    | meet hphase _ _ _ _ _ hout => exact Dot.outcome_moves hphase hout
  · have hphase : ∀ m, d.phase ≠ .meet m := fun m hm => hphase ⟨m, hm⟩
    have hgoes := Dot.deed_goesOn hphase hc
    obtain ⟨d', new, hleads, hdots⟩ := perform_leads hgoes.ne_meet h
    exact ⟨_, d', .alone hphase (hgoes.leads hleads) (Dot.eq_of_dead_leads hleads),
      (Dot.deed_moves hphase hc).leads hleads, hdots⟩

end Turn

end DotPaths
