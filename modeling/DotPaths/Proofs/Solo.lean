import DotPaths.Proofs.Alike
import DotPaths.Proofs.RoundEnd
import DotPaths.Proofs.History
import DotPaths.Proofs.Invariant

/-! # A single dot

    The two schedules go through a step of a dot in different ways.  In a
    parallel tick the dot chooses, and a check follows; then it acts, and another
    check follows.  A dot that runs on does both in one go, with a check at the
    end, and its turn is over when it waits or comes to a place where it has been
    in this turn.

    For a program with a single dot that never sets out copies this makes no
    difference: step by step the two schedules go through the same scenes, and
    their runs end in the same way.
-/

namespace DotPaths

/-! ## One step -/

namespace Dot

/-- Does a dot go on at once? -/
def goesOn (d : Dot) : Bool := !d.isDead && !d.phase.isWaiting

theorem isDead_of_goesOn {d : Dot} (h : d.goesOn = true) : d.isDead = false := by
  unfold goesOn at h
  rw [Bool.and_eq_true, Bool.not_eq_true'] at h
  exact h.1

/-- On a blank cell a dot in its place goes on printing or dies. -/
theorem Stands.choose_blank {w : World} {c : Cell} {d : Dot} {phase : Phase} (h : d.Stands w)
    (hc : w.cell? d.pos = some c) (hblank : c.isBlank = true) (hphase : d.choose c = .ok phase) :
    phase.isPrinting = true ∨ phase = .dead := by
  have hglyph : c.glyph = ' ' := by simpa [Cell.isBlank] using hblank
  have htravel : d.travelPhase c = .dead := by simp [travelPhase, hglyph]
  cases hdead : d.isDead with
  | true =>
    have hd := isDead_iff.mp hdead
    simp only [Dot.choose, hd, Except.ok.injEq] at hphase
    exact .inr hphase.symm
  | false =>
    -- Whoever is alive on a blank cell is printing.
    obtain ⟨c', hc', hprinting, -⟩ := (h hdead).ground
    cases hc.symm.trans hc'
    have hprinting := hprinting hblank
    unfold Dot.choose at hphase
    cases hp : d.phase with
    | print p =>
      simp only [hp, Except.ok.injEq] at hphase
      have hends : d.printPhase p c = .dead := by
        simp [printPhase, continuesPrinting, hglyph, htravel]
      exact .inr (hphase.symm.trans hends)
    | quote q =>
      simp only [hp, Except.ok.injEq, htravel] at hphase
      by_cases hdone : q.done = true
      · rw [if_pos hdone] at hphase
        exact .inr hphase.symm
      · rw [if_neg hdone] at hphase
        rw [← hphase]
        exact .inl rfl
    | _ =>
      rw [hp] at hprinting
      cases hprinting

/-- So the check after the choosing changes nothing. -/
theorem Stands.chosen_eq {w : World} {c : Cell} {d : Dot} {phase : Phase} (h : d.Stands w)
    (hc : w.cell? d.pos = some c) (hphase : d.choose c = .ok phase) :
    d.chosen w = .ok { d with phase := phase } := by
  unfold Dot.chosen
  simp only [hc, hphase, Except.map]
  by_cases hcheck : (c.isBlank && !phase.isPrinting) = true
  · obtain ⟨hblank, hnot⟩ : c.isBlank = true ∧ phase.isPrinting = false := by
      simpa using hcheck
    rcases h.choose_blank hc hblank hphase with hprinting | hdead
    · rw [hnot] at hprinting
      cases hprinting
    · rw [if_pos hcheck, hdead]
  · rw [if_neg hcheck]

end Dot

namespace Turn

open Scene

variable {w : World} {c : Cell} {i : Nat} {s : Scene} {d : Dot}

/-- The three ways in which a step can end: the dot does not choose, its deed
    stops the run, or it settles. -/
theorem step_cases (hd : s.dots[i]? = some d) (hc : w.cell? d.pos = some c) :
    (∃ why, d.choose c = .error why ∧ step w i c s = .error why s) ∨
      ∃ phase, d.choose c = .ok phase ∧
        ((∃ e t, perform c i (Dot.deed w { d with phase := phase } c)
              { s with dots := s.dots.set i { d with phase := phase } } = .error e t ∧
            step w i c s = .error e t) ∨
          ∃ t o, perform c i (Dot.deed w { d with phase := phase } c)
              { s with dots := s.dots.set i { d with phase := phase } } = .ok () t ∧
            t.dots[i]? = some o ∧
            step w i c s =
              .ok (o.settled w).goesOn { t with dots := t.dots.set i (o.settled w) }) := by
  have hi := (List.getElem?_eq_some_iff.mp hd).1
  unfold step
  rw [bind_of_ok (dotAt_apply hd)]
  cases hphase : d.choose c with
  | error why => exact .inl ⟨why, rfl, rfl⟩
  | ok phase =>
    have hd₁ : (s.dots.set i { d with phase := phase })[i]? = some { d with phase := phase } :=
      List.getElem?_set_self hi
    refine .inr ⟨phase, rfl, ?_⟩
    simp only
    rw [bind_of_ok (setDot_apply i _ s), bind_of_ok (dotAt_apply hd₁)]
    cases hp : perform c i (Dot.deed w { d with phase := phase } c)
        { s with dots := s.dots.set i { d with phase := phase } } with
    | error e t => exact .inl ⟨e, t, rfl, bind_of_error hp⟩
    | ok u t =>
      -- The dot is still there, and what follows is its settling.
      obtain ⟨rest, o, hdoes, hrest⟩ :=
        perform_does (d := { d with phase := phase }) hd₁ hc hp
      have ho : t.dots[i]? = some o := by
        rw [hrest]
        exact List.getElem?_set_self (hdoes.lt_length (by simpa using hi))
      refine .inr ⟨t, o, rfl, ho, ?_⟩
      have hsame : t.dots.set i o = t.dots := by
        obtain ⟨ht, rfl⟩ := List.getElem?_eq_some_iff.mp ho
        simp
      rw [bind_of_ok hp, bind_of_ok (dotAt_apply ho)]
      by_cases hdead : o.isDead = true
      · have hgoes : o.goesOn = false := by simp [Dot.goesOn, hdead]
        rw [if_pos hdead, Dot.settled_of_dead (Dot.isDead_iff.mp hdead), hsame, hgoes]
        rfl
      · rw [if_neg hdead]
        by_cases hlost : isLost w o = true
        · rw [if_pos hlost, Dot.settled_of_lost hlost]
          rfl
        · have hgoes : o.goesOn = !o.phase.isWaiting := by simp [Dot.goesOn, hdead]
          rw [if_neg hlost, Dot.settled_of_not_lost (by simpa using hlost), hsame, hgoes]
          rfl

/-- The result of a step tells whether the dot goes on. -/
theorem step_goes {goes : Bool} {t : Scene} (hd : s.dots[i]? = some d)
    (hc : w.cell? d.pos = some c) (h : step w i c s = .ok goes t) :
    ∃ o, t.dots[i]? = some o ∧ goes = o.goesOn := by
  rcases step_cases hd hc with ⟨why, -, hstep⟩ | ⟨phase, -, hrest⟩
  · rw [h] at hstep
    cases hstep
  · rcases hrest with ⟨e, t', -, hstep⟩ | ⟨t', o, -, ho, hstep⟩
    · rw [h] at hstep
      cases hstep
    · rw [h] at hstep
      cases hstep
      exact ⟨o.settled w, List.getElem?_set_self (List.getElem?_eq_some_iff.mp ho).1, rfl⟩

theorem stepOnce_outside (hd : s.dots[i]? = some d) (hc : w.cell? d.pos = none) :
    stepOnce w i s = .ok () { s with dots := s.dots.set i d.die } := by
  unfold stepOnce
  rw [bind_of_ok (dotAt_apply hd), hc]
  rfl

theorem stepOnce_inside (hd : s.dots[i]? = some d) (hc : w.cell? d.pos = some c) :
    stepOnce w i s = (step w i c >>= fun _ => pure ()) s := by
  unfold stepOnce
  rw [bind_of_ok (dotAt_apply hd), hc]
  simp only [discard_eq]

/-- For a dot in its place, to choose and then to act is to take a step. -/
theorem choose_act_eq_stepOnce (hd : s.dots[i]? = some d) (hstands : d.Stands w) :
    (choose w i >>= fun _ => act w i) s = stepOnce w i s := by
  have hi := (List.getElem?_eq_some_iff.mp hd).1
  cases hc : w.cell? d.pos with
  | none =>
    -- Outside the drawing it dies once, or twice.
    have hchoose : choose w i s = .ok () { s with dots := s.dots.set i d.die } :=
      choose_ok_iff.mpr ⟨d, d.die, hd, by simp [Dot.chosen, hc], rfl⟩
    rw [bind_of_ok hchoose, act_outside (d := d.die) (List.getElem?_set_self hi) hc,
      stepOnce_outside hd hc]
    show EStateM.Result.ok () { s with dots := (s.dots.set i d.die).set i d.die } = _
    rw [List.set_set]
  | some c =>
    rw [stepOnce_inside hd hc]
    rcases step_cases hd hc with ⟨why, hphase, hstep⟩ | ⟨phase, hphase, hrest⟩
    · have hchoose : choose w i s = .error why s := by
        unfold choose
        rw [bind_of_ok (dotAt_apply hd)]
        simp only [hc, hphase]
        rfl
      rw [bind_of_error hchoose, bind_of_error hstep]
    · have hchoose : choose w i s =
          .ok () { s with dots := s.dots.set i { d with phase := phase } } :=
        choose_ok_iff.mpr ⟨d, _, hd, hstands.chosen_eq hc hphase, rfl⟩
      have hd₁ : (s.dots.set i { d with phase := phase })[i]? = some { d with phase := phase } :=
        List.getElem?_set_self hi
      rw [bind_of_ok hchoose]
      rcases hrest with ⟨e, t, hp, hstep⟩ | ⟨t, o, hp, ho, hstep⟩
      · have hact : act w i { s with dots := s.dots.set i { d with phase := phase } } =
            .error e t := by
          unfold act
          rw [bind_of_ok (dotAt_apply hd₁)]
          simp only [hc]
          exact bind_of_error hp
        rw [hact, bind_of_error hstep]
      · rw [act_of_perform (d := { d with phase := phase }) hd₁ hc hp ho, bind_of_ok hstep]
        rfl

end Turn

namespace Machine

open Scene
open Observed (Abreast noting quietly quietly_of_ok moveAll sweepDots moved_of_ok moved_of_error
  tick_unnoted moveAll_unnoted)

variable {w : World} {s a p t : Scene} {d : Dot} {e : Stop}

/-! ## One tick -/

/-- In no tick of the parallel run that begins with the scene does a dot set out
    copies. -/
def NeverBranches (w : World) (s : Scene) : Prop :=
  ∀ n t c, loop w true n s = .ok () t → chooseAll w t.dots.length t = .ok () c →
    ∀ d ∈ c.dots, d.copies w = []

/-- The scene has a single dot, which is dead or in its place and will always be
    alone. -/
structure Solo (w : World) (s : Scene) : Prop where
  one : s.dots.length = 1
  stands : AllStand w s.dots
  alone : NeverBranches w s

theorem chooseAll_one (w : World) : chooseAll w 1 = Turn.choose w 0 := by
  unfold chooseAll
  rw [forM_range_succ]
  rfl

theorem actAll_one (w : World) : actAll w 1 = Turn.act w 0 := by
  unfold actAll
  rw [forM_range_succ]
  rfl

theorem NeverBranches.tick (h : NeverBranches w s) (hdots : s.dots ≠ [])
    (htick : parallelTick w s = .ok () t) : NeverBranches w t := by
  intro n t' c hloop
  apply h (n + 1) t' c
  rw [loop_of_dots hdots]
  exact (bind_of_ok htick).trans hloop

namespace Solo

theorem dot (h : Solo w s) : ∃ d, s.dots = [d] :=
  List.length_eq_one_iff.mp h.one

theorem dots_ne_nil (h : Solo w s) : s.dots ≠ [] := by
  intro hnil
  simpa [hnil] using h.one

/-- The round of turns of a single dot is a step. -/
theorem round (h : Solo w s) :
    (chooseAll w s.dots.length >>= fun _ => actAll w s.dots.length) s = Turn.stepOnce w 0 s := by
  obtain ⟨d, hd⟩ := h.dot
  have hget : s.dots[0]? = some d := by rw [hd]; rfl
  rw [h.one, chooseAll_one, actAll_one]
  exact Turn.choose_act_eq_stepOnce hget (h.stands.get hget)

/-- No dot is added in a step. -/
theorem step_length (h : Solo w s) (hstep : Turn.stepOnce w 0 s = .ok () t) :
    t.dots.length = 1 := by
  have hround := h.round
  rw [hstep, h.one, chooseAll_one, actAll_one] at hround
  obtain ⟨_, c, hchoose, hact⟩ := bind_ok_iff.mp hround
  have hlength : c.dots.length = 1 := by
    obtain ⟨d, d', -, -, rfl⟩ := Turn.choose_ok_iff.mp hchoose
    simpa using h.one
  have hcopies : ∀ d ∈ c.dots, d.copies w = [] := by
    apply h.alone 0 s c rfl
    rw [h.one, chooseAll_one]
    exact hchoose
  obtain ⟨d, hd, hends⟩ := Turn.act_ok hact
  rcases hends with ⟨-, hdots⟩ | ⟨cell, rest, d', -, hdoes, hdots⟩
  · rw [hdots, List.length_set]
    exact hlength
  · rw [hdots, List.length_set]
    cases hdoes with
    | alone _ hgoes _ =>
      rw [hgoes.new, hcopies d (List.mem_of_getElem? hd), List.append_nil]
      exact hlength
    | wait _ _ => exact hlength
    | meet _ _ _ _ _ _ _ =>
      rw [List.length_set]
      exact hlength

/-- An observed tick is a step that is written down, and then the dot is taken
    away if it is dead. -/
theorem observed_tick (h : Solo w s) (seen : List Snapshot) :
    Observed.loop snapshotKeeper w true 1 (s, seen) =
      (noting snapshotKeeper.moved (quietly (Turn.stepOnce w 0)) >>= fun _ =>
        sweepDots snapshotKeeper 1 >>= fun _ => quietly (Scene.tick w)) (s, seen) := by
  have hround := h.round
  rw [h.one] at hround
  have hone : Observed.loop snapshotKeeper w true 1 (s, seen) =
      Observed.parallelTick snapshotKeeper w (s, seen) := by
    rw [Observed.loop_of_dots h.dots_ne_nil]
    exact congrFun (bind_pure_unit (x := Observed.parallelTick snapshotKeeper w)) (s, seen)
  have hlook : Observed.parallelTick snapshotKeeper w (s, seen) =
      (moveAll snapshotKeeper w s.dots.length >>= fun _ =>
        sweepDots snapshotKeeper s.dots.length >>= fun _ =>
          Observed.tick snapshotKeeper w) (s, seen) := rfl
  rw [hone, hlook, h.one, tick_unnoted, moveAll_unnoted]
  -- In this scene the round of turns is the single step.
  show EStateM.bind _ _ _ = EStateM.bind _ _ _
  unfold EStateM.bind noting quietly
  simp only [hround]

/-- A step that stops is a tick that stops. -/
theorem tick_of_error (h : Solo w p) (hagree : a.Agree p)
    (hstep : Turn.stepOnce w 0 a = .error e t) :
    ∃ p', t.Agree p' ∧ ∀ seen, Observed.loop snapshotKeeper w true 1 (p, seen) =
      .error e (p', seen ++ [t.snapshot]) := by
  obtain ⟨p', hp', ht⟩ := (Turn.stepOnce_alike w 0 a p hagree).error_left hstep
  refine ⟨p', ht, fun seen => ?_⟩
  rw [h.observed_tick, bind_of_error (moved_of_error hp'), ht.snapshot]

end Solo

/-- What is left of the scene `t` when the dot is taken away if it is dead. -/
structure Swept (w : World) (t p : Scene) : Prop where
  one : t.dots.length = 1
  dots : p.dots = t.dots.filter (fun d => !d.isDead)
  console : t.console.Agree p.console
  stands : AllStand w p.dots
  alone : NeverBranches w p

namespace Swept

/-- A dot that is alive is not taken away. -/
theorem of_live (hp : Solo w p) (hagree : a.Agree p) (hlive : ∀ d ∈ p.dots, d.isDead = false) :
    Swept w a p := by
  obtain ⟨hdots, hconsole⟩ := hagree
  refine ⟨hdots ▸ hp.one, ?_, hconsole, hp.stands, hp.alone⟩
  rw [hdots]
  refine (List.filter_eq_self.mpr ?_).symm
  intro d hd
  rw [hlive d hd]
  rfl

theorem live (h : Swept w t p) : ∀ d ∈ p.dots, d.isDead = false := by
  intro d hd
  rw [h.dots] at hd
  simpa using (List.mem_filter.mp hd).2

/-- With a dot that is alive the scene is the same as before. -/
theorem solo (h : Swept w t p) (hd : t.dots = [d]) (hlive : d.isDead = false) :
    Solo w p ∧ t.Agree p := by
  have hdots : p.dots = t.dots := by
    rw [h.dots, hd]
    simp [hlive]
  exact ⟨⟨hdots ▸ h.one, h.stands, h.alone⟩, hdots.symm, h.console⟩

/-- After a step with which the turn goes on the dot is alive, hence still there. -/
theorem solo_of_goes {c : Cell} (h : Swept w t p) (hd : a.dots[0]? = some d)
    (hc : w.cell? d.pos = some c) (hstep : Turn.step w 0 c a = .ok true t) :
    Solo w p ∧ t.Agree p := by
  obtain ⟨o, ho, hgoes⟩ := Turn.step_goes hd hc hstep
  have hone : t.dots = [o] := by
    obtain ⟨o', ho'⟩ := List.length_eq_one_iff.mp h.one
    rw [ho'] at ho
    cases ho
    exact ho'
  exact h.solo hone (Dot.isDead_of_goesOn hgoes.symm)

theorem empty (h : Swept w t p) (hd : t.dots = [d]) (hdead : d.isDead = true) : p.dots = [] := by
  rw [h.dots, hd]
  simp [hdead]

end Swept

/-- A step that completes is a tick that completes. -/
theorem Solo.tick_of_ok (h : Solo w p) (hagree : a.Agree p)
    (hstep : Turn.stepOnce w 0 a = .ok () t) :
    ∃ p', Swept w t p' ∧ ∀ seen, Observed.loop snapshotKeeper w true 1 (p, seen) =
      .ok () (p', seen ++ [t.snapshot]) := by
  obtain ⟨p₁, hp₁, hdots, hconsole⟩ := (Turn.stepOnce_alike w 0 a p hagree).ok_left hstep
  have hlength := h.step_length hp₁
  -- The sweep leaves what is alive, and the tick only counts.
  have hswept : sweep 1 p₁.dots = p₁.dots.filter (fun d => !d.isDead) := by
    obtain ⟨o, ho⟩ := List.length_eq_one_iff.mp hlength
    rw [ho]
    exact List.append_nil _
  have hself : Scene.Agree { p₁ with dots := sweep 1 p₁.dots } { p₁ with dots := sweep 1 p₁.dots } :=
    ⟨rfl, hconsole.symm.trans hconsole⟩
  obtain ⟨p', htick, hdots', hconsole'⟩ := Scene.tick_agree w hself
  have hp' : ∀ seen, Observed.loop snapshotKeeper w true 1 (p, seen) =
      .ok () (p', seen ++ [p₁.snapshot]) := by
    intro seen
    rw [h.observed_tick, bind_of_ok (moved_of_ok hp₁)]
    exact quietly_of_ok htick
  have hloop : loop w true 1 p = .ok () p' :=
    (Observed.loop_follows snapshotKeeper w true 1).ok (hp' [])
  obtain ⟨p'', hparallel, hzero⟩ := loop_succ_ok hloop
  cases hzero
  refine ⟨p', ⟨hdots ▸ hlength, ?_, hconsole.trans hconsole'.symm, ?_, ?_⟩, fun seen => ?_⟩
  · rw [hdots', hdots]
    exact hswept
  · exact (keeps_parallelTick h.stands).allStand hparallel
  · exact h.alone.tick h.dots_ne_nil hparallel
  · rw [hp', Scene.Agree.snapshot ⟨hdots, hconsole⟩]

/-! ## One turn -/

/-- The turn of a dot that runs on goes through the same scenes as a number of
    ticks.  The first step of a turn is always taken. -/
theorem runOn_follows (fuel : Nat) (past : List Pos) (seen : List Snapshot) (hp : Solo w p)
    (hagree : a.Agree p) (hstart : (fuel ≠ 0 ∧ past = []) ∨ ∀ d ∈ p.dots, d.isDead = false) :
    ∃ k, (fuel ≠ 0 ∧ past = [] → 1 ≤ k) ∧
      Abreast (Swept w) (Observed.runOn snapshotKeeper w 0 fuel past (a, seen))
        (Observed.loop snapshotKeeper w true k (p, seen)) := by
  -- By induction on the fuel: a turn is a step and a turn, a run is a tick and a run.
  induction fuel generalizing a p past seen with
  | zero =>
    have hlive := hstart.resolve_left fun h => h.1 rfl
    exact ⟨0, fun h => absurd rfl h.1, .ok (.of_live hp hagree hlive)⟩
  | succ fuel ih =>
    obtain ⟨d, hd⟩ := hp.dot
    obtain ⟨a₁, htick, hagree₁⟩ := tick_agree w hagree
    have hd₁ : a₁.dots[0]? = some d := by
      rw [hagree₁.1, hd]
      rfl
    rw [Observed.runOn_succ htick hd₁]
    by_cases hpast : past.contains d.pos = true
    · -- The dot has been there in this turn, so the turn is over.
      have hne : past ≠ [] := by
        intro hnil
        rw [hnil] at hpast
        cases hpast
      have hlive := hstart.resolve_left fun h => hne h.2
      rw [if_pos hpast]
      exact ⟨0, fun h => absurd h.2 hne, .ok (.of_live hp hagree₁ hlive)⟩
    · rw [if_neg hpast]
      cases hc : w.cell? d.pos with
      | none =>
        have houtside := Turn.stepOnce_outside hd₁ hc
        obtain ⟨p', hswept, hp'⟩ := hp.tick_of_ok hagree₁ houtside
        refine ⟨1, fun _ => Nat.le_refl 1, ?_⟩
        rw [hp']
        exact .ok hswept
      | some c =>
        have honce := Turn.stepOnce_inside hd₁ hc
        simp only
        cases hstep : Turn.step w 0 c a₁ with
        | error e t =>
          rw [bind_of_error hstep] at honce
          obtain ⟨p', ht, hp'⟩ := hp.tick_of_error hagree₁ honce
          refine ⟨1, fun _ => Nat.le_refl 1, ?_⟩
          rw [hp', bind_of_error (moved_of_error hstep)]
          exact .error ht
        | ok goes t =>
          rw [bind_of_ok hstep] at honce
          obtain ⟨p', hswept, hp'⟩ := hp.tick_of_ok hagree₁ honce
          rw [bind_of_ok (moved_of_ok hstep)]
          cases goes with
          | true =>
            obtain ⟨hsolo, hagree'⟩ := hswept.solo_of_goes hd₁ hc hstep
            obtain ⟨k, -, hrest⟩ := ih (d.pos :: past) (seen ++ [t.snapshot]) hsolo hagree'
              (.inr hswept.live)
            refine ⟨1 + k, fun _ => Nat.le_add_right 1 k, ?_⟩
            rw [if_pos rfl, Observed.loop_add, bind_of_ok (hp' seen)]
            exact hrest
          | false =>
            refine ⟨1, fun _ => Nat.le_refl 1, ?_⟩
            rw [if_neg Bool.false_ne_true, hp']
            exact .ok hswept

/-! ## Runs -/

/-- The scenes agree, and there is at most one dot. -/
structure Paired (w : World) (a p : Scene) : Prop where
  agree : a.Agree p
  few : p.dots = [] ∨ Solo w p

/-- A tick in which a single dot has its turn goes through the same scenes as a
    number of parallel ticks. -/
theorem asyncTick_follows (seen : List Snapshot) (hp : Solo w p) (hagree : a.Agree p) :
    ∃ k, 1 ≤ k ∧ Abreast (Paired w) (Observed.asyncTick snapshotKeeper w (a, seen))
      (Observed.loop snapshotKeeper w true k (p, seen)) := by
  have hstart : w.area + 1 ≠ 0 ∧ ([] : List Pos) = [] := ⟨Nat.succ_ne_zero _, rfl⟩
  obtain ⟨k, hk, hturn⟩ := runOn_follows (w.area + 1) [] seen hp hagree (.inl hstart)
  refine ⟨k, hk hstart, ?_⟩
  have hlook : Observed.asyncTick snapshotKeeper w (a, seen) =
      Observed.turns snapshotKeeper w a.dots.length 0 (a, seen) := rfl
  have hlen : a.dots.length = 1 := by
    rw [hagree.1]
    exact hp.one
  have hloop : Observed.loop snapshotKeeper w true k (p, seen) =
      (Observed.loop snapshotKeeper w true k >>= fun _ => pure ()) (p, seen) :=
    congrFun bind_pure_unit.symm (p, seen)
  rw [hlook, hlen, hloop]
  unfold Observed.turns
  refine hturn.bind fun t p' seen h => ?_
  -- After the turn the dot is taken away if it is dead.
  obtain ⟨d, hd⟩ := List.length_eq_one_iff.mp h.one
  have hd₀ : t.dots[0]? = some d := by
    rw [hd]
    rfl
  rw [bind_of_ok (quietly_of_ok (dotAt_apply hd₀))]
  by_cases hdead : d.isDead = true
  · have hempty := h.empty hd hdead
    have herase : t.dots.eraseIdx 0 = p'.dots := by
      rw [hd, hempty]
      rfl
    rw [if_pos hdead]
    exact .ok ⟨⟨herase, h.console⟩, .inl hempty⟩
  · obtain ⟨hsolo, hagree'⟩ := h.solo hd (by simpa using hdead)
    rw [if_neg hdead]
    exact .ok ⟨hagree', .inr hsolo⟩

/-- A run of ticks in which a single dot has its turns goes through the same
    scenes as a run of parallel ticks, which takes at least as many. -/
theorem loop_follows (n : Nat) (seen : List Snapshot) (h : Paired w a p) :
    ∃ k, n ≤ k ∧ Abreast (Paired w) (Observed.loop snapshotKeeper w false n (a, seen))
      (Observed.loop snapshotKeeper w true k (p, seen)) := by
  induction n generalizing a p seen with
  | zero => exact ⟨0, Nat.le_refl 0, .ok h⟩
  | succ n ih =>
    rcases h.few with hempty | hsolo
    · -- No dot is left, and both stop.
      have hempty' : a.dots = [] := h.agree.1.trans hempty
      refine ⟨n + 1, Nat.le_refl _, ?_⟩
      rw [Observed.loop_of_empty hempty, Observed.loop_of_empty hempty']
      exact .error h.agree
    · obtain ⟨j, hj, htick⟩ := asyncTick_follows seen hsolo h.agree
      have hdots : a.dots ≠ [] := by
        rw [h.agree.1]
        exact hsolo.dots_ne_nil
      rw [Observed.loop_of_dots hdots]
      generalize hx : Observed.asyncTick snapshotKeeper w (a, seen) = x,
        hy : Observed.loop snapshotKeeper w true j (p, seen) = y at htick
      have hx' : Observed.tickBy snapshotKeeper w false (a, seen) = x := hx
      cases htick with
      | error hagree =>
        refine ⟨n + j, by omega, ?_⟩
        rw [Nat.add_comm n j, Observed.loop_add, bind_of_error hx', bind_of_error hy]
        exact .error hagree
      | ok hpaired =>
        obtain ⟨k, hk, hrest⟩ := ih _ hpaired
        refine ⟨j + k, by omega, ?_⟩
        rw [Observed.loop_add, bind_of_ok hx', bind_of_ok hy]
        exact hrest

end Machine

end DotPaths
