import DotPaths.Proofs.Lockstep

/-! # The clock

    A clock is an observer who writes down the scene at each tick, as it is when
    the console is told of the tick.  Since every round of turns has its tick, a
    run that goes on for so many rounds has had as many ticks.
-/

namespace DotPaths

open Scene

/-- An observer who keeps the scene of each tick, the first one first. -/
def clock : Observer (List Scene) where
  ticked s seen := seen ++ [s]

theorem clock_deaf : clock.IsDeaf where
  called _ _ := rfl
  asked _ _ := rfl

theorem clock_blind : clock.IsBlind where
  stepped _ _ _ _ := rfl
  erased _ _ := rfl
  swept _ _ _ := rfl

namespace Observed

variable {Q : List Scene → Console → Console → Prop}

/-- The clock has no part in what the console does. -/
theorem clock_lockstep {R : Scene × List Scene → Scene × List Scene → Prop}
    {D : Stop → Scene × List Scene → Scene × List Scene → Prop}
    (hdeaf : ∀ {α : Type} {a : Act α}, Deaf a → InStep R D (quietly a))
    (houtput : ∀ p, InStep R D (quietly (Scene.onConsole (Console.output p))))
    (hread : ∀ byCode, InStep R D (quietly (Scene.onConsole (Console.read byCode))))
    (hreport : ∀ text, InStep R D (quietly (Scene.onConsole (Console.report text))))
    (htick : ∀ w, InStep R D (tick clock w)) : Lockstep clock R D where
  blind := clock_blind
  moved h := by
    rw [noting_eq_self (f := clock.moved) fun _ _ => rfl]
    exact h
  deaf := hdeaf
  output p := by
    rw [output_eq_quietly clock_deaf]
    exact houtput p
  read byCode := by
    rw [read_eq_quietly clock_deaf]
    exact hread byCode
  report text := by
    rw [report_eq_quietly clock_deaf]
    exact hreport text
  tick := htick

theorem tick_clock (w : World) (x : Scene × List Scene) :
    tick clock w x = quietly (Scene.tick w) (x.1, x.2 ++ [x.1]) := by
  rw [tick_eq_note clock_deaf]
  rfl

/-- The console after a tick, and what the clock has written then. -/
theorem endState_tick (w : World) (x : Scene × List Scene) :
    (endState (tick clock w x)).1.console =
        endState (Console.tick w (positions x.1.dots) x.1.console) ∧
      (endState (tick clock w x)).2 = x.2 ++ [x.1] := by
  obtain ⟨t, -, hconsole, ht⟩ := tick_eq w x.1
  rw [tick_clock, endState_quietly, ht, endState_onConsole, hconsole]
  exact ⟨rfl, rfl⟩

/-- A tick that both consoles count. -/
theorem tick_abreast {D : Stop → Scene × List Scene → Scene × List Scene → Prop} {w : World}
    {x y : Scene × List Scene} {k k' : Console} (hdots : x.1.dots = y.1.dots)
    (hk : Console.tick w (positions x.1.dots) x.1.console = .ok () k)
    (hk' : Console.tick w (positions x.1.dots) y.1.console = .ok () k')
    (hQ : Q (y.2 ++ [y.1]) k k') :
    CutShort (Alongside fun _ => Q) D (tick clock w x) (tick clock w y) := by
  obtain ⟨s, hdots₁, hconsole₁, htick₁⟩ := Scene.tick_eq w x.1
  obtain ⟨t, hdots₂, hconsole₂, htick₂⟩ := Scene.tick_eq w y.1
  rw [← hconsole₁] at hk
  rw [← hconsole₂, hdots] at hk'
  rw [tick_clock, tick_clock, quietly, quietly, htick₁, htick₂]
  simp only [Scene.onConsole, hk, hk']
  exact .ok ⟨hdots₁.trans (hdots.trans hdots₂.symm), hQ⟩

/-- What holds of the console and of what the clock has written, and is kept by
    every request, holds throughout a run. -/
theorem clock_keeps {P : List Scene → Console → Prop}
    (houtput : ∀ p {seen c}, P seen c → P seen (endState (Console.output p c)))
    (hread : ∀ byCode {seen c}, P seen c → P seen (endState (Console.read byCode c)))
    (hreport : ∀ text {seen c}, P seen c → P seen (endState (Console.report text c)))
    (htick : ∀ w dots {seen c} u, P seen c → P (seen ++ [u]) (endState (Console.tick w dots c))) :
    Lockstep clock (Alongside fun _ _ _ _ => False) (Outlasts fun _ _ => P) := by
  refine clock_lockstep deaf_inStep (fun p => ?_) (fun byCode => ?_) (fun text => ?_) fun w => ?_
  · exact alike_inStep (fun _ _ _ _ h => h.elim) (houtput p)
  · exact alike_inStep (fun _ _ _ _ h => h.elim) (hread byCode)
  · exact alike_inStep (fun _ _ _ _ h => h.elim) (hreport text)
  · constructor
    · exact fun h => h.2.elim
    · intro e x y h
      obtain ⟨hconsole, hseen⟩ := endState_tick w y
      show P (endState (tick clock w y)).2 (endState (tick clock w y)).1.console
      rw [hconsole, hseen]
      exact htick w _ y.1 h

/-! ## Every round has its tick -/

section
variable {x y : Scene × List Scene} {k : Nat}

/-- What has been written stays written. -/
theorem written_lockstep (k : Nat) :
    Lockstep clock (Alongside fun _ _ _ _ => False)
      (Outlasts fun _ _ seen _ => k ≤ seen.length) := by
  refine clock_keeps (P := fun seen _ => k ≤ seen.length) ?_ ?_ ?_ ?_
  · exact fun _ _ _ h => h
  · exact fun _ _ _ h => h
  · exact fun _ _ _ h => h
  · intro w dots seen c u h
    rw [List.length_append]
    omega

theorem written_lasts {α : Type} {b : Observed Scene (List Scene) α}
    (h : InStep (Alongside fun _ _ _ _ => False) (Outlasts fun _ _ seen _ => k ≤ seen.length) b)
    (hx : k ≤ x.2.length) : k ≤ (endState (b x)).2.length :=
  h.lasting (e := .exit) (s := x) hx

/-- A dot that runs on is told of a tick first. -/
theorem runOn_writes (w : World) (i fuel : Nat) (past : List Pos) (x : Scene × List Scene) :
    x.2.length + 1 ≤ (endState (runOn clock w i (fuel + 1) past x)).2.length := by
  have hlockstep := written_lockstep (x.2.length + 1)
  refine endState_bind (P := fun y : Scene × List Scene => x.2.length + 1 ≤ y.2.length)
    (fun _ y hy => ?_) ?_
  · exact written_lasts (hlockstep.runOn_next (hlockstep.runOn w i fuel) past) hy
  · rw [(endState_tick w x).2]
    simp

theorem turns_writes (w : World) (n i : Nat) (x : Scene × List Scene) :
    x.2.length + 1 ≤ (endState (turns clock w (n + 1) i x)).2.length := by
  have hlockstep := written_lockstep (x.2.length + 1)
  refine endState_bind (P := fun y : Scene × List Scene => x.2.length + 1 ≤ y.2.length)
    (fun _ y hy => ?_) (runOn_writes w i w.area [] x)
  refine written_lasts ((hlockstep.dotAt i).bind fun d => ?_) hy
  cases d.isDead with
  | true => exact (hlockstep.eraseDot i).bind fun _ => hlockstep.turns w n i
  | false => exact hlockstep.turns w n (i + 1)

/-- A tick of the schedule that completes has been told to the console at least
    once. -/
theorem tickBy_writes {w : World} {parallel : Bool} (hdots : x.1.dots ≠ [])
    (h : tickBy clock w parallel x = .ok () y) : x.2.length < y.2.length := by
  cases parallel with
  | true =>
    have hlook : tickBy clock w true x = (moveAll clock w x.1.dots.length >>= fun _ =>
      sweepDots clock x.1.dots.length >>= fun _ => tick clock w) x := rfl
    rw [hlook] at h
    obtain ⟨_, s, hmove, h⟩ := bind_ok_iff.mp h
    obtain ⟨_, t, hsweep, htick⟩ := bind_ok_iff.mp h
    have hlockstep := written_lockstep x.2.length
    have hs : x.2.length ≤ s.2.length := by
      have hwritten := written_lasts (hlockstep.moveAll w x.1.dots.length) (Nat.le_refl _)
      rw [hmove] at hwritten
      exact hwritten
    have ht : x.2.length ≤ t.2.length := by
      have hwritten := written_lasts (hlockstep.sweepDots x.1.dots.length) hs
      rw [hsweep] at hwritten
      exact hwritten
    have hy : y.2 = t.2 ++ [t.1] := by
      have hend : endState (tick clock w t) = y := by rw [htick]; rfl
      rw [← hend, (endState_tick w t).2]
    rw [hy, List.length_append]
    exact Nat.lt_succ_of_le ht
  | false =>
    have hlook : tickBy clock w false x = turns clock w x.1.dots.length 0 x := rfl
    obtain ⟨n, hn⟩ := Nat.exists_eq_add_one_of_ne_zero (mt List.length_eq_zero_iff.mp hdots)
    rw [hlook, hn] at h
    have hwrites := turns_writes w n 0 x
    rw [h] at hwrites
    exact hwrites

/-- A run that has gone on for `n` rounds has had `n` ticks. -/
theorem loop_writes {w : World} {parallel : Bool} {n : Nat} {x y : Scene × List Scene}
    (h : loop clock w parallel n x = .ok () y) : x.2.length + n ≤ y.2.length := by
  induction n generalizing x with
  | zero =>
    cases h
    exact Nat.le_refl _
  | succ n ih =>
    obtain ⟨s, seen⟩ := x
    by_cases hdots : s.dots = []
    · rw [loop_of_empty hdots] at h
      cases h
    · rw [loop_of_dots hdots] at h
      obtain ⟨_, t, ht, hn⟩ := bind_ok_iff.mp h
      have hfirst := tickBy_writes hdots ht
      have hrest := ih hn
      omega

/-- A course that has gone on for so many rounds has had as many ticks. -/
theorem course_writes {w : World} {parallel : Bool} {fuel : Nat}
    (h : course clock w parallel fuel x = .ok () y) : fuel ≤ y.2.length := by
  obtain ⟨_, t, -, hloop⟩ := bind_ok_iff.mp h
  exact Nat.le_trans (Nat.le_add_left _ _) (loop_writes hloop)

end

end Observed

end DotPaths
