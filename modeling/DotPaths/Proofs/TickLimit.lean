import DotPaths.Proofs.Execution
import DotPaths.Proofs.Schedules

/-! # Limits of ticks

    An execution with a limit of ticks is an execution without one that is cut
    short.  Both go the same way until the tick that reaches the limit; there the
    limited one says that it quits, and ends.  Since every round of turns has its
    tick, it ends after as many rounds at the latest.
-/

namespace DotPaths

open Scene

namespace Console

/-! ## Before the limit -/

/-- The console `c` has a limit of `t` ticks, which is still ahead, and is
    otherwise the console `c'` without any limit. -/
structure Paced (t : Nat) (seen : List Scene) (c c' : Console) : Prop where
  free : c'.Unlimited seen
  ahead : seen.length < t
  same : c = { c' with ticksLeft := some (t - seen.length) }

namespace Paced

variable {t : Nat} {seen : List Scene} {c c' : Console}

theorem sameButLimits (h : c.Paced t seen c') : c.SameButLimits c' := ⟨_, _, h.same⟩

theorem prints (h : c.Paced t seen c') : c.JustPrints :=
  (h.free.toOrderly.of_same h.sameButLimits).prints

/-- A change that has nothing to do with the limits. -/
theorem update (h : c.Paced t seen c') (f : Console → Console) (hfree : (f c').Unlimited seen)
    (hlimit : ∀ left, f { c' with ticksLeft := left } = { f c' with ticksLeft := left }) :
    (f c).Paced t seen (f c') := by
  refine ⟨hfree, h.ahead, ?_⟩
  rw [h.same]
  exact hlimit _

theorem outputs_room (h : c.Paced t seen c') : countDown c.outputsLeft = (none, false) := by
  rw [h.same]
  exact h.free.outputs_room

theorem output_alike (p : Payload) : Alike (Paced t seen) (output p) (output p) := by
  intro c c' h
  have hfree := (h.free.output p).1
  cases hp : p.render with
  | error f =>
    rw [h.prints.output_of_error hp, h.free.prints.output_of_error hp]
    exact ⟨rfl, h⟩
  | ok text =>
    rw [h.free.prints.output_of_room hp h.free.outputs_room] at hfree ⊢
    rw [h.prints.output_of_room hp h.outputs_room]
    cases htext : text.isEncodable with
    | true =>
      rw [write_of_encodable htext] at hfree ⊢
      rw [write_of_encodable htext]
      exact ⟨rfl, h.update (fun c => { c with
        outputsLeft := none, events := .write text.shown :: c.events, texts := text :: c.texts })
        hfree fun _ => rfl⟩
    | false =>
      rw [write_of_not_encodable htext] at hfree ⊢
      rw [write_of_not_encodable htext]
      exact ⟨rfl, h.update (fun c => { c with outputsLeft := none, texts := text :: c.texts })
        hfree fun _ => rfl⟩

theorem read_alike (byCode : Bool) : Alike (Paced t seen) (read byCode) (read byCode) := by
  refine JustPrints.read_alike prints ?_ ?_ ?_ ?_
  · intro c c' h
    rw [h.same]
  · intro c c' h
    rw [h.same]
  · intro c c' rest h
    exact h.update (fun c => { c with input := rest }) (h.free.take rest) fun _ => rfl
  · intro c c' d h hd
    rw [h.same] at hd
    exact h.update (fun c => { c with events := questions d byCode ++ c.events })
      (h.free.ask hd byCode) fun _ => rfl

theorem report_alike (text : String) : Alike (Paced t seen) (report text) (report text) := by
  intro c c' h
  rw [h.prints.report_eq, h.free.prints.report_eq]
  exact (output_alike _).bind (fun _ => .throw _) c c' h

end Paced

/-! ## At the limit -/

/-- The scene `s` in which an execution quits that finds the scene `u` at the
    last of `t` ticks. -/
structure Quits (t : Nat) (u s : Scene) : Prop where
  dots : s.dots = u.dots
  texts : s.console.texts = CodeText.ofString "QUITTING next step!\n" :: u.console.texts
  events : s.console.events = .write "QUITTING next step!\n" :: u.console.events
  input : s.console.input = u.console.input
  ticks : s.console.ticks = t

/-- The execution has quit where the clock has written its tick with number `t`. -/
def QuitsAt (t : Nat) (s : Scene) (seen : List Scene) (_ : Console) : Prop :=
  ∃ u, seen[t - 1]? = some u ∧ Quits t u s

/-- The tick that reaches the limit. -/
theorem Paced.tick_at_limit {t : Nat} {seen : List Scene} {c c' : Console} (h : c.Paced t seen c')
    (hlast : t = seen.length + 1) (w : World) (dots : List Pos) :
    tick w dots c = .error .exit { c' with
      ticks := t, ticksLeft := none, outputsLeft := none,
      texts := CodeText.ofString "QUITTING next step!\n" :: c'.texts,
      events := .write "QUITTING next step!\n" :: c'.events } := by
  have hleft : countDown c.ticksLeft = (none, true) := by
    rw [h.same, hlast, Nat.add_sub_cancel_left]
    rfl
  have hticks : c'.ticks + 1 = t := by
    rw [h.free.counted, hlast]
  have hprints : JustPrints { c with ticks := c.ticks + 1, ticksLeft := none } :=
    h.prints.of_service rfl
  rw [h.prints.tick_at_limit w dots hleft,
    bind_of_ok ((hprints.output_of_room rfl h.outputs_room).trans
      (write_of_encodable (CodeText.isEncodable_ofString _) _)), h.same, ← hticks,
    CodeText.shown_ofString]
  rfl

/-- A tick before. -/
theorem Paced.tick_of_room {t : Nat} {seen : List Scene} {c c' : Console} (h : c.Paced t seen c')
    (hroom : seen.length + 1 < t) (w : World) (dots : List Pos) (u : Scene) :
    ∃ k k', tick w dots c = .ok () k ∧ tick w dots c' = .ok () k' ∧ k.Paced t (seen ++ [u]) k' := by
  have hleft : countDown c.ticksLeft = (some (t - (seen ++ [u]).length), false) := by
    rw [h.same]
    show countDown (some (t - seen.length)) = _
    rw [countDown, if_neg (by omega), List.length_append, List.length_singleton, Nat.sub_sub]
  obtain ⟨htick', hfree⟩ := h.free.tick w dots u
  refine ⟨_, _, h.prints.tick_of_room w dots hleft, htick', hfree, ?_, ?_⟩
  · rw [List.length_append, List.length_singleton]
    exact hroom
  · rw [h.same]

end Console

namespace Observed

open Console

/-- A tick is counted by both consoles, or it is the last one of the limited run. -/
theorem tick_paced (t : Nat) (w : World) :
    InStep (Alongside fun _ => Paced t) (Outlasts fun e x seen c => e = .exit ∧ QuitsAt t x.1 seen c)
      (tick clock w) := by
  constructor
  · rintro x y ⟨hdots, hpaced⟩
    by_cases hroom : y.2.length + 1 < t
    · obtain ⟨k, k', hk, hk', hnext⟩ := hpaced.tick_of_room hroom w (positions x.1.dots) y.1
      exact tick_abreast hdots hk hk' hnext
    · -- The scene that the clock writes now is the one in which the limited run quits.
      have hlast : t = y.2.length + 1 := by
        have hahead := hpaced.ahead
        omega
      obtain ⟨s, hdots₁, hconsole₁, htick₁⟩ := Scene.tick_eq w x.1
      have hquit := hpaced.tick_at_limit hlast w (positions x.1.dots)
      rw [← hconsole₁] at hquit
      rw [tick_clock, quietly, htick₁]
      simp only [Scene.onConsole, hquit]
      refine .cut ⟨rfl, y.1, ?_, hdots₁.trans hdots, rfl, rfl, rfl, rfl⟩
      rw [(endState_tick w y).2, hlast, Nat.add_sub_cancel, List.getElem?_concat_length]
  · rintro e x y ⟨hexit, u, hu, hquits⟩
    have hlt := (List.getElem?_eq_some_iff.mp hu).1
    refine ⟨hexit, u, ?_, hquits⟩
    rw [(endState_tick w y).2, List.getElem?_append_left hlt]
    exact hu

theorem paced_lockstep (t : Nat) :
    Lockstep clock (Alongside fun _ => Paced t)
      (Outlasts fun e x seen c => e = .exit ∧ QuitsAt t x.1 seen c) := by
  refine clock_lockstep deaf_inStep (fun p => ?_) (fun byCode => ?_) (fun text => ?_)
    (tick_paced t)
  · exact alike_inStep (fun _ _ => Paced.output_alike p) fun h => h
  · exact alike_inStep (fun _ _ => Paced.read_alike byCode) fun h => h
  · exact alike_inStep (fun _ _ => Paced.report_alike text) fun h => h

end Observed

/-! ## Whole executions -/

namespace Machine

/-- What a limit of `t` ticks makes of an execution.  For each number of rounds,
    `free` and `limited` are the executions without and with the limit, and
    `scenes` are the scenes at the ticks of the former. -/
structure TickLimited (t : Nat) (free limited : Nat → Machine × Option Stop)
    (scenes : Nat → List Scene) : Prop where
  /-- No tick is missing among the scenes. -/
  clocked : ∀ fuel, (scenes fuel).length = (free fuel).1.scene.console.ticks
  /-- The limited execution ends, and further rounds make no difference. -/
  ends : (limited t).2.isSome = true
  settled : ∀ fuel, t ≤ fuel → limited fuel = limited t
  bounded : ∀ fuel, (limited fuel).1.scene.console.ticks ≤ t
  /-- The limit is not felt before it is reached. -/
  same : ∀ fuel, (free fuel).1.scene.console.ticks < t → SameRun (limited fuel) (free fuel)
  /-- If the free execution does not end before, the limited one ends at the tick
      with number `t`. -/
  cut : (∀ fuel, (free fuel).2.isSome = true → t ≤ (free fuel).1.scene.console.ticks) →
    ∀ fuel, t ≤ fuel → ∃ u, (scenes fuel)[t - 1]? = some u ∧ (limited fuel).2 = some .exit ∧
      Console.Quits t u (limited fuel).1.scene

/-- What two executions have come to of which one has a limit of `t` ticks: both
    to the same, or the limited one to its end. -/
inductive Outcome (t : Nat) (limited free : Machine × Option Stop) (scenes : List Scene) :
    Prop where
  | same : SameRun limited free → free.1.scene.console.ticks < t → Outcome t limited free scenes
  | cut (u : Scene) : scenes[t - 1]? = some u → limited.2 = some .exit →
    Console.Quits t u limited.1.scene → Outcome t limited free scenes

variable {d : Display} {t : Nat}

theorem start_paced (hview : d.view = .off) (hloud : d.silent = false) (ht : 1 ≤ t)
    (input : List Char) (keys : List Int) (typed : List String) :
    (Console.start (.terminal d) t 0 input keys typed).Paced t []
      (.start (.terminal d) 0 0 input keys typed) := by
  refine ⟨⟨Console.start_orderly hview hloud 0 0 input keys typed, rfl, rfl⟩, ht, ?_⟩
  unfold Console.start
  rw [Console.limit_natCast ht]
  rfl

/-- The executions on a console with a limit and on the same console without. -/
theorem execute_outcome {c c' : Console} (h : c.Paced t [] c') (shelf : Shelf) (program : String)
    (parallel : Bool) (traced fuel : Nat) :
    Outcome t (execute shelf program parallel c traced fuel)
      (execute shelf program parallel c' traced fuel)
      (tickScenes shelf program parallel c' traced fuel) := by
  cases hbuild : World.build shelf program with
  | error f =>
    refine .same (.of_error hbuild h.sameButLimits) ?_
    rw [(execute_of_error hbuild).2]
    show c'.ticks < t
    rw [h.free.counted]
    exact h.ahead
  | ok w =>
    obtain ⟨hstop, hdots, hpaced⟩ | ⟨_, hstop, rfl, u, hu, hquits⟩ :=
      execute_lockstep (Observed.paced_lockstep t) hbuild h.prints.unwindowed
        h.free.prints.unwindowed [] [] ⟨rfl, h⟩
    · refine .same (.of_same hstop hdots hpaced.sameButLimits) ?_
      rw [hpaced.free.counted]
      exact hpaced.ahead
    · exact .cut u hu hstop hquits

section
variable {free limited : Nat → Machine × Option Stop} {scenes : Nat → List Scene}

/-- With as many rounds as ticks the limited execution has ended. -/
theorem isSome_of_outcome (houtcome : ∀ fuel, Outcome t (limited fuel) (free fuel) (scenes fuel))
    (hgoes : ∀ fuel, (free fuel).2 = none → fuel ≤ (free fuel).1.scene.console.ticks)
    {fuel : Nat} (hfuel : t ≤ fuel) : (limited fuel).2.isSome = true := by
  cases houtcome fuel with
  | cut u _ hexit _ => rw [hexit]; rfl
  | same hsame hticks =>
    cases hstop : (limited fuel).2 with
    | some e => rfl
    | none =>
      -- Both would go on, with a tick in each of at least `t` rounds.
      have hfree := hgoes fuel (hsame.ends.symm.trans hstop)
      omega

theorem TickLimited.of_outcome
    (houtcome : ∀ fuel, Outcome t (limited fuel) (free fuel) (scenes fuel))
    (hclocked : ∀ fuel, (scenes fuel).length = (free fuel).1.scene.console.ticks)
    (hgoes : ∀ fuel, (free fuel).2 = none → fuel ≤ (free fuel).1.scene.console.ticks)
    (hsettled : ∀ n k, (limited n).2.isSome = true → n ≤ k → limited k = limited n) :
    TickLimited t free limited scenes where
  clocked := hclocked
  ends := isSome_of_outcome houtcome hgoes (Nat.le_refl t)
  settled fuel hfuel :=
    hsettled t fuel (isSome_of_outcome houtcome hgoes (Nat.le_refl t)) hfuel
  bounded fuel := by
    cases houtcome fuel with
    | same hsame hticks =>
      rw [hsame.ticks]
      exact Nat.le_of_lt hticks
    | cut u _ _ hquits => exact Nat.le_of_eq hquits.ticks
  same fuel hfew := by
    cases houtcome fuel with
    | same hsame _ => exact hsame
    | cut u hu _ _ =>
      -- The tick that reaches the limit is among the few that there are.
      have hlt := (List.getElem?_eq_some_iff.mp hu).1
      rw [hclocked] at hlt
      omega
  cut hlong fuel hfuel := by
    cases houtcome fuel with
    | cut u hu hexit hquits => exact ⟨u, hu, hexit, hquits⟩
    | same hsame hticks =>
      have hends := isSome_of_outcome houtcome hgoes hfuel
      rw [hsame.ends] at hends
      have hmany := hlong fuel hends
      omega

end

/-- A limit of ticks truncates every execution on a terminal that just prints. -/
theorem tick_limit_truncates (hview : d.view = .off) (hloud : d.silent = false) (ht : 1 ≤ t)
    (shelf : Shelf) (program : String) (parallel : Bool) (input : List Char) (keys : List Int)
    (typed : List String) (traced : Nat) :
    TickLimited t
      (execute shelf program parallel (.start (.terminal d) 0 0 input keys typed) traced)
      (execute shelf program parallel (.start (.terminal d) t 0 input keys typed) traced)
      (tickScenes shelf program parallel (.start (.terminal d) 0 0 input keys typed) traced) := by
  have hpaced := start_paced hview hloud ht input keys typed
  apply TickLimited.of_outcome
  · exact execute_outcome hpaced shelf program parallel traced
  · exact fun fuel => length_tickScenes hpaced.free.toOrderly
  · exact fun fuel => fuel_le_ticks hpaced.free.toOrderly
  · exact fun n k => execute_settled

/-- A terminal on which `echoes` is given a 7 and a 0. -/
def tallyConsole (ticks : Int) : Console :=
  .start (.terminal plainDisplay) ticks 0 ['7', '\n', '0', '\n'] [] []

/-- By itself the run has 26 ticks, and the 7 is printed in its sixteenth; a limit
    of 17 lets it be printed. -/
theorem truncated_at_echoes :
    TickLimited 17 (execute ⟨⟨[]⟩, []⟩ echoes true (tallyConsole 0) 0)
        (execute ⟨⟨[]⟩, []⟩ echoes true (tallyConsole 17) 0)
        (tickScenes ⟨⟨[]⟩, []⟩ echoes true (tallyConsole 0) 0) ∧
      (execute ⟨⟨[]⟩, []⟩ echoes true (tallyConsole 0) 0 40).1.scene.console.ticks = 26 ∧
      (execute ⟨⟨[]⟩, []⟩ echoes true (tallyConsole 0) 0 40).1.scene.console.outputs = ["7\n"] ∧
      (execute ⟨⟨[]⟩, []⟩ echoes true (tallyConsole 17) 0 17).1.scene.console.outputs =
        ["QUITTING next step!\n", "7\n"] :=
  ⟨tick_limit_truncates rfl rfl (by decide) _ _ _ _ _ _ _, by decide +kernel, by decide +kernel,
    by decide +kernel⟩

end Machine

end DotPaths
