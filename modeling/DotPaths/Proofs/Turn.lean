import DotPaths.Machine.Turn
import DotPaths.Proofs.Deed
import DotPaths.Proofs.Oldest
import DotPaths.Proofs.Scene

/-! # What happens in a turn

    One statement for each part of a turn says everything that the part can do
    to the dots.  Choosing replaces one dot.  Acting does one of three things:

    - a dot that waits for nobody does its deed, and new dots may set out;
    - a waiting dot waits on;
    - a waiting master meets another dot, which is gone.

    Whatever becomes of the dot whose turn it is, it dies if it is lost.
-/

namespace DotPaths

/-! ## Choosing and settling a single dot -/

namespace Dot

/-- The dot after it has chosen its phase. -/
def chosen (w : World) (d : Dot) : Except Stop Dot :=
  match w.cell? d.pos with
  | none => .ok d.die
  | some c =>
    (d.choose c).map fun phase =>
      { d with phase := if c.isBlank && !phase.isPrinting then .dead else phase }

/-- The dot after its deed: dead if it is lost. -/
def settled (w : World) (d : Dot) : Dot :=
  if Turn.isLost w d then d.die else d

/-- The dot after one more turn of waiting. -/
def waitOn (d : Dot) (m : Meeting) : Dot :=
  { d with phase := .meet { m with age := m.age + 1 } }

@[simp] theorem die_phase (d : Dot) : d.die.phase = .dead := rfl
@[simp] theorem die_pos (d : Dot) : d.die.pos = d.pos := rfl
@[simp] theorem die_dir (d : Dot) : d.die.dir = d.dir := rfl
@[simp] theorem waitOn_pos (d : Dot) (m : Meeting) : (d.waitOn m).pos = d.pos := rfl
@[simp] theorem waitOn_dir (d : Dot) (m : Meeting) : (d.waitOn m).dir = d.dir := rfl
@[simp] theorem waitOn_phase (d : Dot) (m : Meeting) :
    (d.waitOn m).phase = .meet { m with age := m.age + 1 } := rfl

theorem isDead_iff {d : Dot} : d.isDead = true ↔ d.phase = .dead := by
  unfold isDead Phase.isDead
  split <;> simp_all

theorem settled_of_lost {w : World} {d : Dot} (h : Turn.isLost w d = true) :
    d.settled w = d.die := by
  simp [settled, h]

theorem settled_of_not_lost {w : World} {d : Dot} (h : Turn.isLost w d = false) :
    d.settled w = d := by
  simp [settled, h]

theorem die_of_dead {d : Dot} (h : d.phase = .dead) : d.die = d := by
  cases d
  cases h
  rfl

theorem settled_of_dead {w : World} {d : Dot} (h : d.phase = .dead) : d.settled w = d := by
  unfold settled
  split
  · exact die_of_dead h
  · rfl

/-- A dot that chooses dies, or takes the phase that the cell asks for; on a
    blank cell this is only a phase of printing. -/
theorem chosen_ok {w : World} {d d' : Dot} (h : d.chosen w = .ok d') :
    d' = d.die ∨
      ∃ c phase, w.cell? d.pos = some c ∧ d.choose c = .ok phase ∧
        (c.isBlank = true → phase.isPrinting = true) ∧ d' = { d with phase := phase } := by
  unfold chosen at h
  cases hc : w.cell? d.pos with
  | none =>
    rw [hc] at h
    cases h
    exact .inl rfl
  | some c =>
    rw [hc] at h
    cases hch : d.choose c with
    | error why => simp [hch, Except.map] at h
    | ok phase =>
      simp only [hch, Except.map, Except.ok.injEq] at h
      subst h
      cases hb : c.isBlank && !phase.isPrinting with
      | true => exact .inl (by simp [die])
      | false =>
        refine .inr ⟨c, phase, rfl, hch, ?_, by simp⟩
        intro hblank
        simpa [hblank] using hb

/-- A dot that has chosen to live is not lost. -/
theorem isLost_chosen {w : World} {d d' : Dot} (h : d.chosen w = .ok d')
    (hlive : d'.isDead = false) : Turn.isLost w d' = false := by
  rcases chosen_ok h with rfl | ⟨c, phase, hc, -, hblank, rfl⟩
  · simp [isDead, Phase.isDead] at hlive
  · unfold Turn.isLost
    simp only [hc]
    cases hb : c.isBlank with
    | true => simp [hblank hb]
    | false => rfl

/-- Settling changes nothing about a dot but its phase, and that only to
    death. -/
theorem settled_eq (w : World) (d : Dot) : d.settled w = d ∨ d.settled w = d.die := by
  unfold settled
  split
  · exact .inr rfl
  · exact .inl rfl

/-- Whatever does not depend on the phase is kept. -/
theorem settled_keeps {α : Type} {f : Dot → α} {d : Dot} (w : World) (hf : f d.die = f d) :
    f (d.settled w) = f d := by
  rcases d.settled_eq w with h | h
  · rw [h]
  · rw [h, hf]

@[simp] theorem settled_pos (w : World) (d : Dot) : (d.settled w).pos = d.pos :=
  settled_keeps (f := pos) w rfl

@[simp] theorem settled_dir (w : World) (d : Dot) : (d.settled w).dir = d.dir :=
  settled_keeps (f := dir) w rfl

@[simp] theorem settled_stack (w : World) (d : Dot) : (d.settled w).stack = d.stack :=
  settled_keeps (f := stack) w rfl

/-- A dot does not begin to wait by settling. -/
theorem settled_ne_meet {w : World} {d : Dot} (h : ∀ m, d.phase ≠ .meet m) (m : Meeting) :
    (d.settled w).phase ≠ .meet m := by
  rcases d.settled_eq w with heq | heq
  · rw [heq]
    exact h m
  · rw [heq]
    exact Phase.noConfusion

/-- A dot that is alive when it has settled is the one that it was. -/
theorem settled_of_live {w : World} {d : Dot} (h : (d.settled w).isDead = false) :
    d.settled w = d := by
  rcases d.settled_eq w with heq | heq
  · exact heq
  · rw [heq] at h
    cases h

end Dot

namespace Turn

open Scene

theorem choose_ok_iff {w : World} {i : Nat} {s s' : Scene} :
    choose w i s = .ok () s' ↔
      ∃ d d', s.dots[i]? = some d ∧ d.chosen w = .ok d' ∧
        s' = { s with dots := s.dots.set i d' } := by
  unfold choose
  rw [bind_ok_iff]
  simp only [dotAt_ok_iff]
  constructor
  · rintro ⟨d, t, ⟨hd, rfl⟩, h⟩
    cases hc : w.cell? d.pos with
    | none =>
      rw [hc] at h
      cases h
      exact ⟨d, d.die, hd, by simp [Dot.chosen, hc], rfl⟩
    | some c =>
      rw [hc] at h
      cases hch : d.choose c with
      | error why =>
        simp only [hch] at h
        exact absurd h throw_ne_ok
      | ok phase =>
        simp only [hch] at h
        cases h
        exact ⟨d, _, hd, by simp [Dot.chosen, hc, hch, Except.map], rfl⟩
  · rintro ⟨d, d', hd, hch, rfl⟩
    refine ⟨d, s, ⟨hd, rfl⟩, ?_⟩
    unfold Dot.chosen at hch
    cases hc : w.cell? d.pos with
    | none =>
      rw [hc] at hch
      cases hch
      rfl
    | some c =>
      rw [hc] at hch
      cases hp : d.choose c with
      | error why => simp [hp, Except.map] at hch
      | ok phase =>
        simp only [hp, Except.map, Except.ok.injEq] at hch
        rw [← hch]
        simp only [hp]
        rfl

theorem settle_ok {w : World} {i : Nat} {s s' : Scene} (h : settle w i s = .ok () s') :
    ∃ d, s.dots[i]? = some d ∧ s' = { s with dots := s.dots.set i (d.settled w) } := by
  unfold settle at h
  rw [bind_ok_iff] at h
  obtain ⟨d, t, hd, h⟩ := h
  obtain ⟨hd, rfl⟩ := dotAt_ok_iff.mp hd
  refine ⟨d, hd, ?_⟩
  cases hl : isLost w d with
  | true =>
    rw [Dot.settled_of_lost hl]
    rw [if_pos hl] at h
    cases h; rfl
  | false =>
    rw [Dot.settled_of_not_lost hl]
    rw [if_neg (by simp [hl])] at h
    obtain ⟨-, rfl⟩ := pure_ok_iff.mp h
    obtain ⟨hi, rfl⟩ := List.getElem?_eq_some_iff.mp hd
    simp

end Turn

/-! ## What comes of a meeting -/

@[simp] theorem Dot.setStake_pos (d : Dot) (m : Meeting) (n : Number) :
    (d.setStake m n).pos = d.pos := by
  unfold setStake
  split <;> rfl

@[simp] theorem Dot.setStake_dir (d : Dot) (m : Meeting) (n : Number) :
    (d.setStake m n).dir = d.dir := by
  unfold setStake
  split <;> rfl

@[simp] theorem Dot.setStake_stack (d : Dot) (m : Meeting) (n : Number) :
    (d.setStake m n).stack = d.stack := by
  unfold setStake
  split <;> rfl

/-- What a meeting makes of its master: at a switch it may turn it upwards, and at an
    operator it puts the result in the place of the number that the master takes part
    with. -/
theorem Meeting.outcome_cases {m : Meeting} {c : Cell} {d r : Dot} {a : Number}
    (h : m.outcome c d a = .ok r) :
    (m.purpose = .switch ∧ r = if a.isZero then d else { d with dir := .up }) ∨
      (m.purpose = .square ∨ m.purpose = .curly) ∧ c.kind.isOperator = true ∧
        ∃ b, Operator.calculate (String.singleton c.glyph) (d.stake m) a = .ok b ∧
          r = d.setStake m b.toNumber := by
  unfold Meeting.outcome at h
  cases hp : m.purpose with
  | none =>
    rw [hp] at h
    cases h
  | switch =>
    rw [hp] at h
    exact .inl ⟨rfl, (Except.ok.inj h).symm⟩
  | square | curly =>
    rw [hp] at h
    simp only at h
    split at h
    · next hoperator =>
      split at h
      · next b hb => exact .inr ⟨by simp, hoperator, b, hb, (Except.ok.inj h).symm⟩
      · cases h
    · cases h

/-! ## Performing a deed -/

namespace Turn

open Scene

/-- A deed that is performed without a second dot. -/
theorem perform_leads {c : Cell} {i : Nat} {deed : Deed} {s s' : Scene}
    (hdeed : ∀ m, deed ≠ .meet m) (h : perform c i deed s = .ok () s') :
    ∃ d' new, deed.Leads d' new ∧ s'.dots = (s.dots ++ new).set i d' := by
  unfold perform at h
  cases deed with
  | become d =>
    cases h
    exact ⟨d, [], .become d, by simp⟩
  | print p before after =>
    simp only [bind_ok_iff] at h
    obtain ⟨_, t, ht, _, t', ht', h⟩ := h
    cases ht
    cases h
    have hdots := onConsole_dots ht'
    exact ⟨after, [], .print p before after, by simp [hdots]⟩
  | read byCode after =>
    simp only [bind_ok_iff] at h
    obtain ⟨n, t, ht, h⟩ := h
    cases h
    have hdots := onConsole_dots ht
    exact ⟨after n, [], .read byCode after n, by simp [hdots]⟩
  | branch new d =>
    simp only [bind_ok_iff] at h
    obtain ⟨_, t, ht, h⟩ := h
    cases ht
    cases h
    exact ⟨d, new, .branch new d, rfl⟩
  | meet m => exact absurd rfl (hdeed m)
  | stop d why =>
    simp only [bind_ok_iff] at h
    obtain ⟨_, t, _, h⟩ := h
    exact absurd h throw_ne_ok

/-! ## Acting -/

/-- What the dot `d` with number `i` can do on a cell `c`, by the rest of the
    dots after it and by what becomes of `d` itself. -/
inductive Does (w : World) (c : Cell) (i : Nat) (d : Dot) (dots : List Dot) :
    List Dot → Dot → Prop where
  /-- It does what it does without a second dot, or nothing if it is dead. -/
  | alone {d' : Dot} {new : List Dot} (hphase : ∀ m, d.phase ≠ .meet m)
      (hgoes : d.GoesOn w c d' new) (hdead : d.phase = .dead → d' = d) :
      Does w c i d dots (dots ++ new) d'
  /-- It waits on: it is no master, or not the one whose turn it is, or there
      is nobody to meet. -/
  | wait {m : Meeting} (hphase : d.phase = .meet m)
      (hnone : m.master = true → Meeting.oldest? d.pos true dots = some i →
        Meeting.oldest? d.pos false dots = none) :
      Does w c i d dots dots (d.waitOn m)
  /-- It meets the dot `o` with number `j`. -/
  | meet {m n : Meeting} {j : Nat} {o d' : Dot} (hphase : d.phase = .meet m)
      (hmaster : m.master = true) (hfirst : Meeting.oldest? d.pos true dots = some i)
      (hother : Meeting.oldest? d.pos false dots = some j) (ho : dots[j]? = some o)
      (hn : o.phase = .meet n) (hout : m.outcome c d (o.stake n) = .ok d') :
      Does w c i d dots (dots.set j o.die) { d' with phase := .travel }.move

/-- A meeting either takes place or is waited for. -/
theorem meeting_does {w : World} {c : Cell} {i : Nat} {m : Meeting} {d : Dot} {s s' : Scene}
    (hd : s.dots[i]? = some d) (hphase : d.phase = .meet m)
    (h : Meeting.perform c i m s = .ok () s') :
    ∃ rest d', Does w c i d s.dots rest d' ∧ s'.dots = rest.set i d' := by
  unfold Meeting.perform at h
  rw [bind_ok_iff] at h
  obtain ⟨d₁, t, hd₁, h⟩ := h
  obtain ⟨hd₁, rfl⟩ := dotAt_ok_iff.mp hd₁
  cases hd.symm.trans hd₁
  rw [bind_ok_iff] at h
  obtain ⟨s₁, t, hget, h⟩ := h
  cases hget
  cases hm : m.master with
  | false =>
    simp only [hm, Bool.false_eq_true, if_false] at h
    cases h
    refine ⟨_, _, .wait hphase ?_, by simp [Dot.waitOn, hm]⟩
    intro hmaster
    rw [hm] at hmaster
    cases hmaster
  | true =>
    simp only [hm, if_true] at h
    cases hj : Meeting.oldest? d.pos false t.dots with
    | none =>
      simp only [hj] at h
      cases h
      exact ⟨_, _, .wait hphase (fun _ _ => hj), by simp [Dot.waitOn, hm]⟩
    | some j =>
      simp only [hj] at h
      by_cases hfirst : Meeting.oldest? d.pos true t.dots = some i
      · simp only [hfirst, if_true, bind_ok_iff] at h
        obtain ⟨o, _, ho, d', _, hout, _, t', ht, h⟩ := h
        obtain ⟨ho, rfl⟩ := dotAt_ok_iff.mp ho
        -- The partner that was found does wait, so its number is its stake.
        obtain ⟨o', n, ho', hn, -, -⟩ := Meeting.exists_of_oldest? hj
        cases ho.symm.trans ho'
        obtain ⟨hres, rfl⟩ := orFail_ok_iff.mp hout
        simp only [hn, Phase.meeting?] at hres
        cases ht
        cases h
        exact ⟨_, _, .meet hphase hm hfirst hj ho hn hres, rfl⟩
      · simp only [hfirst, if_false] at h
        cases h
        exact ⟨_, _, .wait hphase (fun _ h => absurd h hfirst), by simp [Dot.waitOn, hm]⟩

/-- Performing its deed, a dot does one of the three things. -/
theorem perform_does {w : World} {c : Cell} {i : Nat} {d : Dot} {s s' : Scene}
    (hd : s.dots[i]? = some d) (hc : w.cell? d.pos = some c)
    (h : perform c i (d.deed w c) s = .ok () s') :
    ∃ rest d', Does w c i d s.dots rest d' ∧ s'.dots = rest.set i d' := by
  by_cases hphase : ∃ m, d.phase = .meet m
  · obtain ⟨m, hm⟩ := hphase
    have hdeed : d.deed w c = .meet m := by simp [Dot.deed, hm]
    rw [hdeed] at h
    exact meeting_does hd hm h
  · have hphase : ∀ m, d.phase ≠ .meet m := fun m hm => hphase ⟨m, hm⟩
    have hdeed := Dot.deed_goesOn hphase hc
    obtain ⟨d', new, hleads, hdots⟩ := perform_leads hdeed.ne_meet h
    exact ⟨_, d', .alone hphase (hdeed.leads hleads) (Dot.eq_of_dead_leads hleads), hdots⟩

/-- The dot whose turn it is keeps its number. -/
theorem Does.lt_length {w : World} {c : Cell} {i : Nat} {d d' : Dot} {dots rest : List Dot}
    (h : Does w c i d dots rest d') (hi : i < dots.length) : i < rest.length := by
  cases h with
  | alone => rw [List.length_append]; omega
  | wait => exact hi
  | meet => simpa using hi

/-- The turn of a dot when all dots move at once. -/
theorem act_ok {w : World} {i : Nat} {s s' : Scene} (h : act w i s = .ok () s') :
    ∃ d, s.dots[i]? = some d ∧
      ((w.cell? d.pos = none ∧ s'.dots = s.dots.set i d.die) ∨
        ∃ c rest d', w.cell? d.pos = some c ∧ Does w c i d s.dots rest d' ∧
          s'.dots = rest.set i (d'.settled w)) := by
  unfold act at h
  rw [bind_ok_iff] at h
  obtain ⟨d, t, hd, h⟩ := h
  obtain ⟨hd, rfl⟩ := dotAt_ok_iff.mp hd
  refine ⟨d, hd, ?_⟩
  cases hc : w.cell? d.pos with
  | none =>
    simp only [hc] at h
    cases h
    exact .inl ⟨rfl, rfl⟩
  | some c =>
    simp only [hc, bind_ok_iff] at h
    obtain ⟨_, t', hp, h⟩ := h
    obtain ⟨rest, d', hdoes, hrest⟩ := perform_does hd hc hp
    obtain ⟨d₁, hd₁, rfl⟩ := settle_ok h
    have hi := hdoes.lt_length (List.getElem?_eq_some_iff.mp hd).1
    rw [hrest, List.getElem?_set_self hi] at hd₁
    cases hd₁
    refine .inr ⟨c, rest, d', rfl, hdoes, ?_⟩
    simp [hrest]

/-- The turn of a dot that waits for nobody does its deed, and the dot settles. -/
theorem act_leads {w : World} {c : Cell} {i : Nat} {d : Dot} {s t : Scene}
    (h : act w i s = .ok () t) (hd : s.dots[i]? = some d)
    (hc : w.cell? d.pos = some c) (hphase : ∀ m, d.phase ≠ .meet m) :
    ∃ d' new, (d.deed w c).Leads d' new ∧ t.dots = (s.dots ++ new).set i (d'.settled w) := by
  unfold act at h
  rw [bind_of_ok (dotAt_apply hd)] at h
  simp only [hc, bind_ok_iff] at h
  obtain ⟨_, u, hp, hsettle⟩ := h
  obtain ⟨d', new, hleads, hdots⟩ := perform_leads (Dot.deed_goesOn hphase hc).ne_meet hp
  obtain ⟨d₁, hd₁, rfl⟩ := settle_ok hsettle
  have hi : i < (s.dots ++ new).length := by
    have hlt := (List.getElem?_eq_some_iff.mp hd).1
    rw [List.length_append]
    omega
  rw [hdots, List.getElem?_set_self hi] at hd₁
  cases hd₁
  refine ⟨d', new, hleads, ?_⟩
  simp only [hdots, List.set_set]

/-- A step of a dot when dots move one at a time. -/
theorem step_ok {w : World} {i : Nat} {c : Cell} {s s' : Scene} {b : Bool}
    (h : step w i c s = .ok b s') :
    ∃ d phase, s.dots[i]? = some d ∧ d.choose c = .ok phase ∧
      (w.cell? d.pos = some c →
        ∃ rest d', Does w c i { d with phase := phase } (s.dots.set i { d with phase := phase })
            rest d' ∧
          s'.dots = rest.set i (d'.settled w)) := by
  unfold step at h
  rw [bind_ok_iff] at h
  obtain ⟨d, t, hd, h⟩ := h
  obtain ⟨hd, rfl⟩ := dotAt_ok_iff.mp hd
  have hi := (List.getElem?_eq_some_iff.mp hd).1
  cases hch : d.choose c with
  | error why =>
    simp only [hch] at h
    rw [bind_ok_iff] at h
    obtain ⟨_, _, h, -⟩ := h
    exact absurd h throw_ne_ok
  | ok phase =>
    refine ⟨d, phase, hd, hch, ?_⟩
    intro hc
    simp only [hch, bind_ok_iff, dotAt_ok_iff] at h
    obtain ⟨_, t, ht, d₁, _, ⟨hd₁, rfl⟩, _, t', hp, d₂, _, ⟨hd₂, rfl⟩, h⟩ := h
    cases ht
    simp only [List.getElem?_set_self hi] at hd₁
    cases hd₁
    obtain ⟨rest, d', hdoes, hrest⟩ :=
      perform_does (d := { d with phase := phase }) (List.getElem?_set_self hi) hc hp
    have hi' := hdoes.lt_length (by simpa using hi)
    rw [hrest, List.getElem?_set_self hi'] at hd₂
    obtain rfl : d' = d₂ := Option.some.inj hd₂
    refine ⟨rest, d', hdoes, ?_⟩
    -- What is left of the step is that the dot settles.
    cases hdead : d'.isDead with
    | true =>
      simp only [hdead, if_true] at h
      obtain ⟨-, rfl⟩ := pure_ok_iff.mp h
      rw [Dot.settled_of_dead (Dot.isDead_iff.mp hdead)]
      exact hrest
    | false =>
      simp only [hdead, Bool.false_eq_true, if_false] at h
      cases hlost : isLost w d' with
      | true =>
        simp only [hlost, if_true, bind_ok_iff] at h
        obtain ⟨_, t, ht, h⟩ := h
        cases ht
        obtain ⟨-, rfl⟩ := pure_ok_iff.mp h
        rw [Dot.settled_of_lost hlost]
        simp [hrest]
      | false =>
        simp only [hlost, Bool.false_eq_true, if_false] at h
        obtain ⟨-, rfl⟩ := pure_ok_iff.mp h
        rw [Dot.settled_of_not_lost hlost]
        exact hrest

end Turn

end DotPaths
