import DotPaths.Proofs.Ledger
import DotPaths.Proofs.Stopping

/-! # What every run keeps

    All dots stand in their places from the launch of a program on, through the
    ticks of both schedules.  The invariant is carried through an action
    together with the reason why the action may stop: as long as all dots stand
    in their places, no cell is asked in vain to calculate.
-/

namespace DotPaths.Machine

open Scene

/-- From the scene `s`, the action completes with all dots in their places, or
    it stops, but not for want of a calculation. -/
def Keeps {α : Type} (w : World) (a : Act α) (s : Scene) : Prop :=
  match a s with
  | .ok _ s' => AllStand w s'.dots
  | .error e _ => e.lacksCalculation = false

namespace Keeps

variable {α β : Type} {w : World} {a : Act α} {s s' : Scene}

theorem of_parts (hok : ∀ x s', a s = .ok x s' → AllStand w s'.dots)
    (herror : ∀ e s', a s = .error e s' → e.lacksCalculation = false) : Keeps w a s := by
  unfold Keeps
  cases h : a s with
  | ok x s' => exact hok x s' h
  | error e s' => exact herror e s' h

theorem allStand {x : α} (h : Keeps w a s) (hok : a s = .ok x s') : AllStand w s'.dots := by
  unfold Keeps at h
  rw [hok] at h
  exact h

theorem stop {e : Stop} (h : Keeps w a s) (herror : a s = .error e s') :
    e.lacksCalculation = false := by
  unfold Keeps at h
  rw [herror] at h
  exact h

theorem pure {x : α} (h : AllStand w s.dots) : Keeps w (Pure.pure x) s := h

/-- The invariant goes through a composite action from part to part. -/
theorem bind {f : α → Act β} (ha : Keeps w a s)
    (hf : ∀ x s', a s = .ok x s' → AllStand w s'.dots → Keeps w (f x) s') :
    Keeps w (a >>= f) s := by
  apply of_parts
  · intro y t hok
    obtain ⟨x, s', hx, hy⟩ := bind_ok_iff.mp hok
    exact (hf x s' hx (ha.allStand hx)).allStand hy
  · intro e t herror
    rcases bind_error_iff.mp herror with hx | ⟨x, s', hx, hy⟩
    · exact ha.stop hx
    · exact (hf x s' hx (ha.allStand hx)).stop hy

theorem discard (h : Keeps w a s) : Keeps w (Functor.discard a) s := by
  rw [discard_eq]
  exact h.bind fun _ _ _ hs' => pure hs'

/-- An action that begins by looking at a dot. -/
theorem dotAt_bind {i : Nat} {f : Dot → Act β} (hf : ∀ d, s.dots[i]? = some d → Keeps w (f d) s) :
    Keeps w (dotAt i >>= f) s := by
  apply of_parts
  · intro y t hok
    obtain ⟨d, s', hd, hy⟩ := bind_ok_iff.mp hok
    obtain ⟨hd, rfl⟩ := dotAt_ok_iff.mp hd
    exact (hf d hd).allStand hy
  · intro e t herror
    rcases dotAt_bind_error herror with rfl | ⟨d, hd, hy⟩
    · rfl
    · exact (hf d hd).stop hy

/-- A row of actions that each keep the invariant. -/
theorem forM {γ : Type} {f : γ → Act PUnit} (hf : ∀ x s, AllStand w s.dots → Keeps w (f x) s)
    (l : List γ) (h : AllStand w s.dots) : Keeps w (l.forM f) s := by
  induction l generalizing s with
  | nil => exact h
  | cons x l ih =>
    simp only [List.forM_eq_forM, List.forM_cons] at ih ⊢
    exact (hf x s h).bind fun _ s' _ hs' => ih hs'

end Keeps

section
variable {w : World} {s : Scene} {i : Nat}

/-! ## Turns -/

theorem keeps_die {d : Dot} (h : AllStand w s.dots) : Keeps w (setDot i d.die) s :=
  h.set (Dot.stands_of_dead rfl)

theorem keeps_tick (h : AllStand w s.dots) : Keeps w (Scene.tick w) s := by
  apply Keeps.of_parts
  · intro _ s' hok
    rw [tick_dots hok]
    exact h
  · exact fun e s' herror => (Scene.tick_stops w s e s' herror).not_lacks

theorem keeps_choose (h : AllStand w s.dots) : Keeps w (Turn.choose w i) s := by
  apply Keeps.of_parts
  · exact fun _ _ hok => Turn.choose_allStand hok h
  · exact fun e s' herror => (Turn.choose_stops w i s e s' herror).not_lacks

theorem keeps_act (h : AllStand w s.dots) : Keeps w (Turn.act w i) s := by
  apply Keeps.of_parts
  · exact fun _ _ hok => Turn.act_allStand hok h
  · intro e s' herror
    rcases Turn.act_error h herror with hmachine | hhalts
    · exact hmachine.not_lacks
    · exact hhalts.not_lacks

theorem keeps_step {c : Cell} {d : Dot} (h : AllStand w s.dots) (hd : s.dots[i]? = some d)
    (hc : w.cell? d.pos = some c) : Keeps w (Turn.step w i c) s := by
  apply Keeps.of_parts
  · exact fun _ _ hok => Turn.step_allStand hok h hd hc
  · intro e s' herror
    rcases Turn.step_error h hd hc herror with hmachine | ⟨_, hhalts⟩
    · exact hmachine.not_lacks
    · exact hhalts.not_lacks

theorem keeps_stepOnce (h : AllStand w s.dots) : Keeps w (Turn.stepOnce w i) s := by
  refine .dotAt_bind fun d hd => ?_
  cases hc : w.cell? d.pos with
  | none => exact keeps_die h
  | some c => exact (keeps_step h hd hc).discard

theorem keeps_runOn {fuel : Nat} {past : List Pos} (h : AllStand w s.dots) :
    Keeps w (Turn.runOn w i fuel past) s := by
  induction fuel generalizing s past with
  | zero => exact h
  | succ fuel ih =>
    refine (keeps_tick h).bind fun _ t _ ht => .dotAt_bind fun d hd => ?_
    by_cases hpast : past.contains d.pos = true
    · rw [if_pos hpast]
      exact ht
    · rw [if_neg hpast]
      cases hc : w.cell? d.pos with
      | none => exact keeps_die ht
      | some c =>
        refine (keeps_step ht hd hc).bind fun goes t' _ ht' => ?_
        cases goes with
        | true => exact ih ht'
        | false => exact ht'

theorem keeps_simulate {runsOn : Bool} (h : AllStand w s.dots) :
    Keeps w (Turn.simulate w runsOn i) s := by
  unfold Turn.simulate
  split
  · exact keeps_runOn h
  · exact keeps_stepOnce h

/-! ## Ticks -/

theorem keeps_chooseAll {n : Nat} (h : AllStand w s.dots) : Keeps w (chooseAll w n) s :=
  Keeps.forM (fun _ _ => keeps_choose) _ h

theorem keeps_actAll {n : Nat} (h : AllStand w s.dots) : Keeps w (actAll w n) s :=
  Keeps.forM (fun _ _ => keeps_act) _ h

theorem keeps_parallelTick (h : AllStand w s.dots) : Keeps w (parallelTick w) s := by
  refine Keeps.bind (a := get) h fun s₀ _ _ h => ?_
  refine (keeps_chooseAll h).bind fun _ c _ hc => ?_
  refine (keeps_actAll hc).bind fun _ t _ ht => ?_
  refine Keeps.bind (a := modify _) ?_ fun _ t' _ ht' => keeps_tick ht'
  intro d hd
  rcases List.mem_append.mp hd with hd | hd
  · exact ht d (List.mem_of_mem_take (List.mem_filter.mp hd).1)
  · exact ht d (List.mem_of_mem_drop hd)

theorem keeps_turns {runsOn : Bool} {n : Nat} (h : AllStand w s.dots) :
    Keeps w (turns w runsOn n i) s := by
  induction n generalizing s i with
  | zero => exact h
  | succ n ih =>
    refine (keeps_simulate h).bind fun _ t _ ht => .dotAt_bind fun d hd => ?_
    by_cases hdead : d.isDead = true
    · rw [if_pos hdead]
      refine Keeps.bind (a := modify _) ?_ fun _ t' _ ht' => ih ht'
      intro o ho
      exact ht o (List.mem_of_mem_eraseIdx ho)
    · rw [if_neg hdead]
      exact ih ht

theorem keeps_asyncTick {runsOn : Bool} (h : AllStand w s.dots) :
    Keeps w (asyncTick w runsOn) s :=
  Keeps.bind (a := get) h fun _ _ _ h => keeps_turns h

end

/-! ## Runs -/

/-- A dot that has just been put at a starting point stands there. -/
theorem Born.stands {shelf : Shelf} {program : String} {w : World} {d : Dot}
    (hw : World.build shelf program = .ok w) (h : Born w d) : d.Stands w := by
  rcases h.state with ⟨hphase, hdir⟩ | hdead
  · intro _
    obtain ⟨c, hc, hstart⟩ := World.cell?_of_mem_starts h.start
    refine ⟨hdir, c, hc, ?_, fun m hm => absurd hm (h.not_waiting m)⟩
    intro hblank
    rw [Cell.isBlank, World.start_glyph hw hc hstart] at hblank
    cases hblank
  · exact Dot.stands_of_dead hdead

/-- In every scene that a program can come to, all dots are dead or in their
    places. -/
theorem Reachable.allStand {w : World} {s : Scene} (h : Reachable w s) : AllStand w s.dots := by
  induction h with
  | launched hm hworld =>
    subst hworld
    obtain ⟨hbuild, hborn⟩ := launch_ok hm
    intro d hd
    exact (hborn d hd).stands hbuild
  | parallel _ htick ih => exact (keeps_parallelTick ih).allStand htick
  | async _ htick ih => exact (keeps_asyncTick ih).allStand htick

/-- What holds after every tick of a program.  After a parallel tick all dots
    are alive and in their places, and, by the ledger of a parallel run, no dot
    is in the list twice: no two were put at the same starting point or set out in
    the same turn and direction.  After a tick of the other schedule all dots that are
    alive are in their places.  And no tick stops because a cell is to calculate
    that cannot. -/
theorem ticks_wellFormed {w : World} {s : Scene} (h : Reachable w s) :
    (∀ s', parallelTick w s = .ok () s' → ∀ d ∈ s'.dots, d.isDead = false ∧ d.Placed w) ∧
      (∀ l c t s', Chronicle w s l → Ticks w s c t s' →
        ((l.chosen s.dots c.dots).swept w c.dots t.dots).tickets.length = s'.dots.length ∧
        (((l.chosen s.dots c.dots).swept w c.dots t.dots).tickets.map Ticket.origin).Nodup) ∧
      (∀ runsOn s', asyncTick w runsOn s = .ok () s' →
        ∀ d ∈ s'.dots, d.isDead = false → d.Placed w) ∧
      ∀ e s', (parallelTick w s = .error e s' ∨ ∃ runsOn, asyncTick w runsOn s = .error e s') →
        e.lacksCalculation = false := by
  have hstand := h.allStand
  refine ⟨?_, ?_, ?_, ?_⟩
  · intro s' htick d hd
    obtain ⟨c, t, hticks⟩ := parallelTick_ok_iff.mp htick
    have hlive := hticks.alive hd
    exact ⟨hlive, (keeps_parallelTick hstand).allStand htick d hd hlive⟩
  · intro l c t s' hl htick
    have haccurate := (hl.ticked htick).accurate
    exact ⟨haccurate.length, haccurate.nodup⟩
  · intro runsOn s' htick
    exact (keeps_asyncTick hstand).allStand htick
  · rintro e s' (hstop | ⟨runsOn, hstop⟩)
    · exact (keeps_parallelTick hstand).stop hstop
    · exact (keeps_asyncTick hstand).stop hstop

/-- A dot comes to an operator between square brackets from the left. -/
def intoBrackets : String := ".-[+]"

/-- In its fourth tick the dot begins to wait at the operator, and after this
    tick it is in its place there. -/
theorem wellFormed_at_intoBrackets :
    ∃ m s c t s', launchAlone intoBrackets = (m, none) ∧ Reachable m.world s ∧
      Ticks m.world s c t s' ∧ Meeting.waited? ⟨3, 0⟩ false c.dots 0 = some 0 ∧
      ∀ d ∈ s'.dots, d.isDead = false ∧ d.Placed m.world := by
  have htrial : trial intoBrackets 3 (fun _ c _ =>
      Meeting.waited? ⟨3, 0⟩ false c.dots 0 == some 0) = true := by
    decide +kernel
  obtain ⟨m, s, c, t, s', hm, hs, htick, hcheck⟩ := exists_of_trial htrial
  have hreach : Reachable m.world s := (Reachable.launched hm rfl).loop hs
  refine ⟨m, s, c, t, s', hm, hreach, htick, by simpa using hcheck, ?_⟩
  exact (ticks_wellFormed hreach).1 s' (parallelTick_ok_iff.mpr ⟨c, t, htick⟩)

end DotPaths.Machine
