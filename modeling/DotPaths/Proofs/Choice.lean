import DotPaths.Dot.Choice

/-! # How waiting begins

    A dot waits because of the cell that it stands on: an operator between
    brackets or a switch.  Its role follows from its direction.  Once it waits,
    it goes on waiting for the same meeting.
-/

namespace DotPaths

/-- The purpose is that of the cell. -/
def Purpose.Belongs (p : Purpose) (c : Cell) : Prop :=
  match p with
  | .none => False
  | .square => c.kind.bracket? = some .square
  | .curly => c.kind.bracket? = some .curly
  | .switch => c.glyph = '~'

/-- If this is a phase of waiting, `P` holds of the meeting. -/
def Phase.Awaits (P : Meeting → Prop) : Phase → Prop
  | .meet m => P m
  | _ => True

theorem Phase.Awaits.ite {P : Meeting → Prop} {b : Prop} [Decidable b] {x y : Phase}
    (hx : b → x.Awaits P) (hy : ¬ b → y.Awaits P) : (if b then x else y).Awaits P := by
  split
  · next hb => exact hx hb
  · next hb => exact hy hb

namespace Dot

variable {d : Dot} {c : Cell} {m : Meeting}

/-- The dot has just come to a meeting for which the cell is there. -/
def Begins (d : Dot) (c : Cell) (m : Meeting) : Prop :=
  ∃ (p : Purpose) (onId : Bool), p.Belongs c ∧ m = .start p d.dir onId

theorem begins_switch (h : (c.glyph == '~') = true) (onId : Bool) :
    d.Begins c (.start .switch d.dir onId) :=
  ⟨.switch, onId, by simpa [Purpose.Belongs] using h, rfl⟩

theorem begins_square (h : (c.kind.bracket? == some .square) = true) (onId : Bool) :
    d.Begins c (.start .square d.dir onId) :=
  ⟨.square, onId, by simpa [Purpose.Belongs] using h, rfl⟩

theorem begins_curly (h : (c.kind.bracket? == some .curly) = true) (onId : Bool) :
    d.Begins c (.start .curly d.dir onId) :=
  ⟨.curly, onId, by simpa [Purpose.Belongs] using h, rfl⟩

theorem travelPhase_begins : (d.travelPhase c).Awaits (d.Begins c) := by
  unfold travelPhase
  refine .ite (fun _ => trivial) fun _ => ?_
  refine .ite (fun _ => trivial) fun _ => ?_
  refine .ite (fun hglyph => begins_switch hglyph false) fun _ => ?_
  refine .ite (fun _ => trivial) fun _ => ?_
  refine .ite (fun _ => trivial) fun _ => ?_
  refine .ite (fun _ => trivial) fun _ => ?_
  refine .ite (fun _ => trivial) fun _ => ?_
  refine .ite (fun hsquare => begins_square hsquare false) fun _ => ?_
  refine .ite (fun hcurly => begins_curly hcurly false) fun _ => ?_
  -- What is left ends the dot or lets it travel on.
  refine .ite (fun _ => trivial) fun _ => .ite (fun _ => trivial) fun _ => ?_
  exact .ite (fun _ => trivial) fun _ => .ite (fun _ => trivial) fun _ => trivial

theorem identPhase_begins {e : Entry} : (d.identPhase e c).Awaits (d.Begins c) := by
  unfold identPhase
  refine .ite (fun _ => trivial) fun _ => ?_
  refine .ite (fun _ => travelPhase_begins) fun _ => ?_
  refine .ite (fun _ => .ite (fun _ => trivial) fun _ => trivial) fun _ => ?_
  refine .ite (fun hsquare => begins_square hsquare true) fun _ => ?_
  refine .ite (fun hcurly => begins_curly hcurly true) fun _ => ?_
  refine .ite (fun hglyph => begins_switch hglyph true) fun _ => ?_
  refine .ite (fun _ => .ite (fun _ => trivial) fun _ => trivial) fun _ => ?_
  exact .ite (fun _ => .ite (fun _ => trivial) fun _ => trivial) fun _ => travelPhase_begins

theorem printPhase_begins {p : Printing} : (d.printPhase p c).Awaits (d.Begins c) := by
  unfold printPhase
  refine .ite (fun _ => travelPhase_begins) fun _ => ?_
  refine .ite (fun _ => trivial) fun _ => .ite (fun _ => trivial) fun _ => ?_
  refine .ite (fun _ => trivial) fun _ => .ite (fun _ => trivial) fun _ => ?_
  exact travelPhase_begins

/-- A dot that waits has waited before, or begins to. -/
theorem choose_meet (h : d.choose c = .ok (.meet m)) :
    d.phase = .meet m ∨ (∀ n, d.phase ≠ .meet n) ∧ d.Begins c m := by
  have hbegins : ∀ phase : Phase, phase.Awaits (d.Begins c) → phase = .meet m → d.Begins c m := by
    rintro _ hawaits rfl
    exact hawaits
  unfold choose at h
  cases hphase : d.phase with
  | travel =>
    simp only [hphase, Except.ok.injEq] at h
    exact .inr ⟨by simp, hbegins _ travelPhase_begins h⟩
  | value e =>
    simp only [hphase, Except.ok.injEq] at h
    refine .inr ⟨by simp, hbegins _ ?_ h⟩
    exact .ite (fun _ => trivial) fun _ => travelPhase_begins
  | ident e =>
    simp only [hphase, Except.ok.injEq] at h
    exact .inr ⟨by simp, hbegins _ identPhase_begins h⟩
  | print p =>
    simp only [hphase, Except.ok.injEq] at h
    exact .inr ⟨by simp, hbegins _ printPhase_begins h⟩
  | quote q =>
    simp only [hphase, Except.ok.injEq] at h
    refine .inr ⟨by simp, hbegins _ ?_ h⟩
    exact .ite (fun _ => travelPhase_begins) fun _ => trivial
  | meet n =>
    simp only [hphase, Except.ok.injEq] at h
    exact .inl h
  | _ => simp [hphase] at h

/-- A dot cannot choose if it has no phase, and it does not if it ends the
    run. -/
theorem choose_error {why : Stop} (h : d.choose c = .error why) :
    why = .fault .cannotChoose ∨ why = .exit := by
  unfold choose at h
  cases hphase : d.phase with
  | blank =>
    simp only [hphase] at h
    cases h
    exact .inl rfl
  | exit =>
    simp only [hphase] at h
    cases h
    exact .inr rfl
  | _ => simp [hphase] at h

end Dot

end DotPaths
