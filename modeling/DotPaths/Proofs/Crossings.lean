import DotPaths.Proofs.RoundEnd
import DotPaths.Proofs.Notes

/-! # Crossings

    A travelling dot that comes to a crossing goes straight on, and for each
    direction across its own in which there is something to stand on, a copy of it
    sets out.  The copies are added after all other dots.

    A copy has the stack, the value and the id of the dot, with one exception: a
    zero that is no integer becomes the integer zero.  Where the dot would print
    `0.0`, its copy prints `0`.
-/

namespace DotPaths

/-! ## What a copy has of a dot -/

/-- A zero that is no integer: a double with either sign, or a complex number. -/
def Number.IsFloatZero (a : Number) : Prop := a.isZero = true ∧ a ≠ .int 0

instance (a : Number) : Decidable a.IsFloatZero := inferInstanceAs (Decidable (_ ∧ _))

theorem Number.orZero_of_isFloatZero {a : Number} (h : a.IsFloatZero) : a.orZero = .int 0 := by
  unfold orZero
  rw [if_pos h.1]

/-- The zeros that are no integers are the only numbers that are changed. -/
theorem Number.orZero_eq_self_iff {a : Number} : a.orZero = a ↔ ¬ a.IsFloatZero := by
  constructor
  · intro hsame hzero
    exact hzero.2 (hsame.symm.trans (orZero_of_isFloatZero hzero))
  · intro hnot
    unfold orZero
    by_cases hzero : a.isZero = true
    · rw [if_pos hzero]
      have hint : a = .int 0 := Decidable.not_not.mp fun hne => hnot ⟨hzero, hne⟩
      exact hint.symm
    · rw [if_neg hzero]

/-- The number `b` of a copy is the number `a` of the dot, unless that is a zero
    and no integer. -/
def Number.CopiedTo (a b : Number) : Prop :=
  (b = a ↔ ¬ a.IsFloatZero) ∧ (a.IsFloatZero → b = .int 0)

theorem Number.copiedTo_orZero (a : Number) : a.CopiedTo a.orZero :=
  ⟨orZero_eq_self_iff, orZero_of_isFloatZero⟩

/-- The two directions are at right angles. -/
def Pos.isAcross (a b : Pos) : Bool := a.x * b.x + a.y * b.y == 0

theorem Pos.isAcross_iff {a b : Pos} (ha : a ∈ directions) (hb : b ∈ directions) :
    a.isAcross b = (a != b && -a != b) := by
  rcases mem_directions.mp ha with rfl | rfl | rfl | rfl <;>
    rcases mem_directions.mp hb with rfl | rfl | rfl | rfl <;> decide

namespace Dot

/-- The directions across that of the dot in which there is something to stand
    on, from above and then clockwise. -/
def waysAcross (w : World) (d : Dot) : List Pos :=
  Pos.directions.filter fun dir =>
    dir.isAcross d.dir && (w.cell? (d.pos + dir)).any fun c => !c.isBlank

/-- The dot `e` sets out from `d` as its copy, in its own direction. -/
structure IsCopyOf (e d : Dot) : Prop where
  pos : e.pos = d.pos + e.dir
  phase : e.phase = .travel
  stack : e.stack = d.stack
  value : d.value.CopiedTo e.value
  id : d.id.CopiedTo e.id

variable {w : World} {d : Dot}

theorem branches_dir (hdir : d.dir ∈ Pos.directions) :
    (d.branches w).map Dot.dir = d.waysAcross w := by
  unfold branches waysAcross
  have hid : Dot.dir ∘ d.branch = fun dir => dir := rfl
  rw [List.map_map, hid, List.map_id']
  apply List.filter_congr
  intro dir hmem
  rw [Pos.isAcross_iff hmem hdir]

theorem isCopyOf_of_mem_branches {e : Dot} (he : e ∈ d.branches w) : e.IsCopyOf d := by
  obtain ⟨dir, -, rfl⟩ := List.mem_map.mp he
  exact ⟨rfl, rfl, rfl, Number.copiedTo_orZero d.value, Number.copiedTo_orZero d.id⟩

theorem travelDeed_crossing {c : Cell} (hp : d.phase = .travel) (hstar : c.glyph = '*') :
    d.deed w c = .branch (d.branches w) d.move := by
  have hturn : isTurn c d.dir = false := by simp [isTurn, hstar]
  simp [deed, hp, travelDeed, hturn, hstar]

end Dot

/-! ## The turn of a dot at a crossing -/

/-- Of these dots, the one with number `i` is `d`; it travels, and it stands on a
    crossing. -/
structure Crosses (w : World) (dots : List Dot) (i : Nat) (d : Dot) : Prop where
  dot : dots[i]? = some d
  phase : d.phase = .travel
  crossing : w.hasGlyph d.pos '*' = true

instance (w : World) (dots : List Dot) (i : Nat) (d : Dot) : Decidable (Crosses w dots i d) :=
  decidable_of_iff (dots[i]? = some d ∧ d.phase = .travel ∧ w.hasGlyph d.pos '*' = true)
    ⟨fun h => ⟨h.1, h.2.1, h.2.2⟩, fun h => ⟨h.1, h.2, h.3⟩⟩

/-- The dots before and after the turn of the dot `d` with number `i` at a
    crossing: its copies are added in order, and it goes straight on itself,
    unless it is lost there. -/
def Duplicates (w : World) (i : Nat) (d : Dot) (before after : List Dot) : Prop :=
  ∃ copies : List Dot, after = (before ++ copies).set i (d.move.settled w) ∧
    copies.map Dot.dir = d.waysAcross w ∧ ∀ e ∈ copies, e.IsCopyOf d

section
variable {w : World} {i : Nat} {c : Cell} {d : Dot} {s t : Scene}

theorem Crosses.cell (h : Crosses w s.dots i d) : ∃ c, w.cell? d.pos = some c ∧ c.glyph = '*' := by
  have hcrossing := h.crossing
  unfold World.hasGlyph at hcrossing
  cases hc : w.cell? d.pos with
  | none => simp [hc] at hcrossing
  | some c => exact ⟨c, rfl, by simpa [hc] using hcrossing⟩

theorem Crosses.perform (h : Crosses w s.dots i d) (hc : w.cell? d.pos = some c) :
    Turn.perform c i (d.deed w c) s =
      .ok () { s with dots := (s.dots ++ d.branches w).set i d.move } := by
  obtain ⟨c', hc', hstar⟩ := h.cell
  cases hc.symm.trans hc'
  rw [Dot.travelDeed_crossing h.phase hstar]
  rfl

theorem Crosses.lt_length (h : Crosses w s.dots i d) : i < (s.dots ++ d.branches w).length := by
  have hi := (List.getElem?_eq_some_iff.mp h.dot).1
  rw [List.length_append]
  omega

/-- The turn of a dot at a crossing completes. -/
theorem Crosses.act_completes (h : Crosses w s.dots i d) : ∃ t, Turn.act w i s = .ok () t := by
  obtain ⟨c, hc, -⟩ := h.cell
  have hset := List.getElem?_set_self (a := d.move) h.lt_length
  exact ⟨_, Turn.act_of_perform h.dot hc (h.perform hc) hset⟩

/-- So does its step, when dots move one at a time. -/
theorem step_completes_at_crossing (hd : s.dots[i]? = some d) (hc : w.cell? d.pos = some c)
    (hchoose : d.choose c = .ok .travel) (hstar : c.glyph = '*') :
    ∃ goes t, Turn.step w i c s = .ok goes t := by
  have hi := (List.getElem?_eq_some_iff.mp hd).1
  -- The scene after the choice, which is to travel on.
  let s₁ : Scene := { s with dots := s.dots.set i { d with phase := .travel } }
  have hcross : Crosses w s₁.dots i { d with phase := .travel } :=
    ⟨List.getElem?_set_self hi, rfl, by simp [World.hasGlyph, hc, hstar]⟩
  have hmoved := List.getElem?_set_self (a := Dot.move { d with phase := .travel }) hcross.lt_length
  have hset : Scene.setDot i { d with phase := .travel } s = .ok () s₁ := rfl
  unfold Turn.step
  rw [bind_of_ok (Scene.dotAt_apply hd)]
  simp only [hchoose]
  rw [bind_of_ok hset, bind_of_ok (Scene.dotAt_apply hcross.dot), bind_of_ok (hcross.perform hc),
    bind_of_ok (Scene.dotAt_apply hmoved)]
  have hlive : (Dot.move { d with phase := .travel }).isDead = false := rfl
  rw [hlive, if_neg (by simp)]
  by_cases hlost : Turn.isLost w (Dot.move { d with phase := .travel }) = true
  · rw [if_pos hlost]
    exact ⟨_, _, rfl⟩
  · rw [if_neg hlost]
    exact ⟨_, _, rfl⟩

/-- What a dot at a crossing does, in any run. -/
theorem Turn.Acts.duplicates {d' : Dot} {rest : List Dot} (h : Turn.Acts w i c d d' rest s t)
    (hcross : Crosses w s.dots i d) : Duplicates w i d s.dots t.dots := by
  obtain ⟨r, hp, hr⟩ := h.performed
  rw [hcross.perform h.cell] at hp
  cases hp
  have hi := h.does.lt_length (List.getElem?_eq_some_iff.mp h.dot).1
  -- Both sides are the same list, with the dot itself at its place.
  have hself : d' = d.move := by
    have hget := congrArg (fun dots => dots[i]?) hr
    simp only [List.getElem?_set_self hcross.lt_length, List.getElem?_set_self hi] at hget
    exact (Option.some.inj hget).symm
  have hdir : d.dir ∈ Pos.directions :=
    h.poised.dir (by simp [Dot.isDead, Phase.isDead, hcross.phase])
  refine ⟨d.branches w, ?_, Dot.branches_dir hdir, fun e he => Dot.isCopyOf_of_mem_branches he⟩
  calc t.dots = rest.set i (d'.settled w) := h.dots
    _ = (rest.set i d').set i (d'.settled w) := (List.set_set _).symm
    _ = (s.dots ++ d.branches w).set i (d.move.settled w) := by rw [← hr, List.set_set, hself]

end

/-! ## All turns of a run -/

/-- A turn: the number of the dot whose turn it is, and the dots before and
    after it. -/
structure Action where
  number : Nat
  before : List Dot
  after : List Dot

/-- An observer who keeps all turns. -/
def actionKeeper : Observer (List Action) where
  stepped i s t actions := actions ++ [⟨i, s.dots, t.dots⟩]

/-- The turns of a run of at most `fuel` ticks, each from the moment at which the
    dot has chosen its phase. -/
def Machine.actions (m : Machine) (fuel : Nat) : List Action :=
  Observed.notes (Observed.loop actionKeeper m.world m.parallel fuel (m.scene, []))

/-- At crossings the turns that were kept are as they should be. -/
def CrossingsKept (w : World) (_ : List Dot) (actions : List Action) : Prop :=
  ∀ a ∈ actions, ∀ d, Crosses w a.before a.number d → Duplicates w a.number d a.before a.after

theorem actionKeeper_maintains (w : World) : actionKeeper.Maintains w (CrossingsKept w) where
  deaf := ⟨fun _ _ => rfl, fun _ _ => rfl⟩
  ticked _ _ := rfl
  moved _ _ := rfl
  rephased _ h _ := h
  erased _ h := h
  swept _ h := h
  stepped := by
    intro s t actions i c d d' rest h hacts a ha o hcross
    rcases List.mem_append.mp ha with hold | hnew
    · exact h a hold o hcross
    · obtain rfl := List.mem_singleton.mp hnew
      cases hacts.dot.symm.trans hcross.dot
      exact hacts.duplicates hcross

/-- What happens at the crossings of a machine. -/
structure CrossingLaw (m : Machine) : Prop where
  /-- Whenever a dot travels over a crossing in a run, its copies set out. -/
  duplicates : ∀ fuel, ∀ a ∈ m.actions fuel, ∀ d, Crosses m.world a.before a.number d →
    Duplicates m.world a.number d a.before a.after
  /-- Such a turn never stops the run, when all dots move at once ... -/
  act_completes : ∀ (s : Scene) i d, Crosses m.world s.dots i d →
    ∃ t, Turn.act m.world i s = .ok () t
  /-- ... and when they move one at a time. -/
  step_completes : ∀ (s : Scene) i d c, s.dots[i]? = some d → m.world.cell? d.pos = some c →
    d.choose c = .ok .travel → c.glyph = '*' → ∃ goes t, Turn.step m.world i c s = .ok goes t

namespace Machine

/-- In every run, of either schedule and however it ends, a dot that travels over
    a crossing goes straight on, and exactly one copy sets out in each direction
    across its own that has something to stand on.  The copies have the stack, the
    value and the id of the dot, but for zeros that are no integers. -/
theorem crossings_duplicate {shelf : Shelf} {program : String} {parallel : Bool}
    {console : Console} {traced : Nat} {m : Machine}
    (hlaunch : launch shelf program parallel console traced = (m, none)) : CrossingLaw m where
  act_completes _ _ _ h := h.act_completes
  step_completes _ _ _ _ hd hc hchoose hstar := step_completes_at_crossing hd hc hchoose hstar
  duplicates := by
    intro fuel
    have hkept : Observed.Kept m.world (CrossingsKept m.world) (m.scene, []) :=
      ⟨(Reachable.launched hlaunch rfl).allStand, fun a ha => by cases ha⟩
    obtain ⟨dots, hall⟩ :=
      (Observed.loop_maintained (actionKeeper_maintains m.world) m.parallel fuel hkept).exists_dots
    exact hall

/-! ## A copy with another value -/

/-- The dot from the left is divided by the other one, `0 / 1`, and comes to the
    crossing with the value `0.0`. -/
def quotientProgram : String := "   .\n   |\n   #\n   1\n.-\x7b/\x7d-*-\n      $\n      #"

/-- The machine of this program. -/
def quotient : Machine × Option Stop :=
  launch ⟨⟨[]⟩, []⟩ quotientProgram true (.start .recorder 0 0 [] [] []) 0

/-- At the crossing, the dot has the value `0.0` and its copy the value `0`. -/
theorem quotient_actions :
    ∃ m a d e, quotient = (m, none) ∧ a ∈ m.actions 8 ∧ Crosses m.world a.before a.number d ∧
      d.waysAcross m.world = [.down] ∧ d.value = .real 0.0 ∧ a.after[a.before.length]? = some e ∧
      e.value = .int 0 := by
  have htrial : noteTrial actionKeeper (fun _ => []) quotient 8 (fun w actions =>
      actions.any fun a => (a.before[a.number]?).any fun d =>
        decide (Crosses w a.before a.number d) && decide (d.waysAcross w = [.down]) &&
          decide (d.value = .real 0.0) &&
            (a.after[a.before.length]?).any fun e => decide (e.value = .int 0)) = true := by
    decide +kernel
  obtain ⟨m, s, actions, hm, hrun, hcheck⟩ := exists_of_noteTrial htrial
  obtain ⟨a, ha, hcheck⟩ := List.any_eq_true.mp hcheck
  have hactions : m.actions 8 = actions := by
    unfold Machine.actions
    rw [hrun]
    rfl
  cases hd : a.before[a.number]? with
  | none => simp [hd] at hcheck
  | some d =>
    cases he : a.after[a.before.length]? with
    | none => simp [hd, he] at hcheck
    | some e =>
      simp only [hd, he, Option.any_some, Bool.and_eq_true, decide_eq_true_eq] at hcheck
      obtain ⟨⟨⟨hcross, hways⟩, hvalue⟩, hzero⟩ := hcheck
      exact ⟨m, a, d, e, hm, hactions ▸ ha, hcross, hways, hvalue, he, hzero⟩

/-- A copy does not always have the value of the dot that it is a copy of. -/
theorem copies_may_differ :
    ¬ ∀ (shelf : Shelf) (program : String) (parallel : Bool) (console : Console) (traced : Nat)
        (m : Machine) (fuel : Nat) (a : Action) (d : Dot),
      launch shelf program parallel console traced = (m, none) → a ∈ m.actions fuel →
      Crosses m.world a.before a.number d →
      ∀ e ∈ a.after.drop a.before.length, e.value = d.value := by
  intro hfaithful
  obtain ⟨m, a, d, e, hm, ha, hcross, -, hvalue, he, hzero⟩ := quotient_actions
  have hmem : e ∈ a.after.drop a.before.length := by
    apply List.mem_of_getElem? (i := 0)
    rw [List.getElem?_drop]
    exact he
  have hsame := hfaithful _ _ _ _ _ m 8 a d hm ha hcross e hmem
  rw [hvalue, hzero] at hsame
  cases hsame

/-- The law at the crossing of this program: one copy sets out, downwards, with the
    integer zero as its value. -/
theorem duplicates_at_quotient :
    ∃ m a d e, quotient = (m, none) ∧ a ∈ m.actions 8 ∧ Crosses m.world a.before a.number d ∧
      a.after = (a.before ++ [e]).set a.number (d.move.settled m.world) ∧ e.IsCopyOf d ∧
      e.dir = .down ∧ d.value.IsFloatZero := by
  obtain ⟨m, a, d, -, hm, ha, hcross, hways, hvalue, -, -⟩ := quotient_actions
  obtain ⟨copies, hafter, hdirs, hall⟩ := (crossings_duplicate hm).duplicates 8 a ha d hcross
  rw [hways] at hdirs
  obtain ⟨e, rfl, hdir⟩ := List.map_eq_singleton_iff.mp hdirs
  have hzero : d.value.IsFloatZero := by
    rw [hvalue]
    decide +kernel
  exact ⟨m, a, d, e, hm, ha, hcross, hafter, hall e (List.mem_singleton.mpr rfl), hdir, hzero⟩

end Machine

end DotPaths
