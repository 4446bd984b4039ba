import DotPaths.Proofs.Solo

/-! # The two schedules

    A program whose world has a single starting point, and whose dot never sets
    out copies, runs in the same way by both schedules: it comes through the same
    configurations, prints the same and reads the same, and one run ends exactly
    if the other does, for the same reason.
-/

namespace DotPaths.Machine

open Scene

/-! ## Launching -/

/-- The schedule has no part in the launch. -/
theorem launch_schedule (shelf : Shelf) (program : String) (parallel : Bool) (console : Console)
    (traced : Nat) :
    launch shelf program parallel console traced =
      ({ (launch shelf program true console traced).1 with parallel := parallel },
        (launch shelf program true console traced).2) := by
  unfold launch
  cases World.build shelf program with
  | error f => rfl
  | ok w =>
    simp only [perform]
    cases setUp w { dots := [], console := console, traceLeft := traced } with
    | ok u s => rfl
    | error e s => rfl

theorem addDot_alike (w : World) (d : Dot) (dir : Option Pos) :
    Alike Agree (addDot w d dir) (addDot w d dir) := by
  refine (orFail_alike _).bind fun phase => ?_
  simp only
  cases dir.orElse fun _ => Dot.findDirection? w d.pos with
  | some dir => exact addDots_alike _
  | none => exact (onConsole_alike (Console.report_alike _)).bind fun _ => addDots_alike _

theorem setUp_alike (w : World) : Alike Agree (setUp w) (setUp w) := by
  refine Alike.bind (Alike.modify ?_) fun _ => Alike.forM (fun p => addDot_alike w _ _) _
  intro s s' hs
  exact ⟨rfl, hs.2⟩

/-! ## Runs that end -/

/-- The machine comes to its end for the reason `why`, with `out` to be seen. -/
def EndsWith (m : Machine) (why : Stop) (out : Snapshot) : Prop :=
  ∃ fuel, (run fuel m).2 = some why ∧ (run fuel m).1.scene.snapshot = out

/-- The end of a run, once its ticks have stopped: the console is told. -/
def verdict : EStateM.Result Stop Scene Unit → Option (Stop × Snapshot)
  | .ok _ _ => none
  | .error why s =>
    match onConsole Console.finish s with
    | .ok _ s' => some (why, s'.snapshot)
    | .error why' s' => some (why', s'.snapshot)

/-- Runs that are abreast end in the same way. -/
theorem verdict_eq {R : Scene → Scene → Prop}
    {x y : EStateM.Result Stop (Scene × List Snapshot) Unit} (h : Observed.Abreast R x y) :
    verdict (Observed.plain x) = verdict (Observed.plain y) := by
  cases h with
  | ok => rfl
  | @error seen e s s' hagree =>
    have hfinish := onConsole_alike Console.finish_alike s s' hagree
    cases hs : onConsole Console.finish s with
    | ok u t =>
      obtain ⟨t', ht', ht⟩ := hfinish.ok_left hs
      simp only [Observed.plain, verdict, hs, ht', ht.snapshot]
    | error why t =>
      obtain ⟨t', ht', ht⟩ := hfinish.error_left hs
      simp only [Observed.plain, verdict, hs, ht', ht.snapshot]

/-- With more fuel a run that has come to its end comes to the same end. -/
theorem verdict_mono {w : World} {parallel : Bool} {n k : Nat} {s : Scene} {v : Stop × Snapshot}
    (h : verdict (loop w parallel n s) = some v) (hk : n ≤ k) :
    verdict (loop w parallel k s) = some v := by
  cases hn : loop w parallel n s with
  | ok u t =>
    rw [hn] at h
    cases h
  | error e t =>
    rw [loop_of_error hn hk, ← hn]
    exact h

theorem endsWith_iff {m : Machine} {why : Stop} {out : Snapshot} (hgo : m.shutdown = false) :
    m.EndsWith why out ↔
      ∃ fuel, verdict (loop m.world m.parallel fuel m.scene) = some (why, out) := by
  unfold EndsWith
  apply exists_congr
  intro fuel
  unfold run body perform verdict
  rw [hgo]
  simp only [Bool.false_eq_true, if_false]
  cases loop m.world m.parallel fuel m.scene with
  | ok u s => simp
  | error e s =>
    simp only [terminate]
    cases onConsole Console.finish s with
    | ok u s' => simp
    | error e' s' => simp

/-! ## Both schedules -/

/-- What the two machines have in common when they run. -/
structure SameRuns (m a : Machine) : Prop where
  /-- What the second comes through, the first comes through. -/
  within : ∀ n, ∃ k, history a.world a.parallel n a.scene = history m.world m.parallel k m.scene
  /-- What the first comes through, the second comes through. -/
  covers : ∀ n, ∃ k, history m.world m.parallel n m.scene <+: history a.world a.parallel k a.scene
  /-- They come to the same end or to none. -/
  ends : ∀ why out, m.EndsWith why out ↔ a.EndsWith why out

/-- A single dot that is alone in a calm scene fares the same by both
    schedules. -/
theorem Paired.sameRuns {m : Machine} (h : Paired m.world m.scene m.scene)
    (hparallel : m.parallel = true) (hgo : m.shutdown = false) :
    SameRuns m { m with parallel := false } := by
  have hgo' : { m with parallel := false }.shutdown = false := hgo
  -- A tick in which one dot runs on takes at least one tick of all at once.
  have hseen : ∀ n, ∃ k, n ≤ k ∧
      history m.world false n m.scene = history m.world true k m.scene ∧
      verdict (loop m.world false n m.scene) = verdict (loop m.world true k m.scene) := by
    intro n
    obtain ⟨k, hle, hk⟩ := loop_follows n [] h
    refine ⟨k, hle, hk.notes_eq, ?_⟩
    rw [← Observed.loop_follows snapshotKeeper _ _ n (m.scene, []),
      ← Observed.loop_follows snapshotKeeper _ _ k (m.scene, [])]
    exact verdict_eq hk
  refine ⟨?_, ?_, ?_⟩
  · intro n
    obtain ⟨k, -, hk, -⟩ := hseen n
    rw [hparallel]
    exact ⟨k, hk⟩
  · intro n
    obtain ⟨k, hle, hk, -⟩ := hseen n
    rw [hparallel]
    refine ⟨n, ?_⟩
    show history m.world true n m.scene <+: history m.world false n m.scene
    rw [hk]
    exact history_mono hle
  · intro why out
    rw [endsWith_iff hgo, endsWith_iff hgo', hparallel]
    constructor
    · intro ⟨n, hn⟩
      obtain ⟨k, hle, -, hk⟩ := hseen n
      exact ⟨n, hk.trans (verdict_mono hn hle)⟩
    · intro ⟨n, hn⟩
      obtain ⟨k, -, -, hk⟩ := hseen n
      exact ⟨k, hk.symm.trans hn⟩

/-- The launch of a program does not depend on the schedule.  If there is a
    single starting point, no dot ever sets out copies, and the console has no
    limit of ticks and shows nothing in between, the run does not depend on it
    either. -/
theorem schedules_agree {shelf : Shelf} {program : String} {console : Console} {traced : Nat}
    {m : Machine} {stop : Option Stop}
    (hlaunch : launch shelf program true console traced = (m, stop))
    (hone : m.world.starts.length = 1) (hcalm : console.IsCalm)
    (halone : NeverBranches m.world m.scene) :
    launch shelf program false console traced = ({ m with parallel := false }, stop) ∧
      (stop = none → SameRuns m { m with parallel := false }) := by
  refine ⟨?_, ?_⟩
  · rw [launch_schedule, hlaunch]
  · intro hstop
    subst hstop
    obtain ⟨-, hparallel, hgo, hsetUp⟩ := launch_setUp hlaunch
    have hself : Scene.Agree { dots := [], console := console, traceLeft := traced }
        { dots := [], console := console, traceLeft := traced } :=
      ⟨rfl, hcalm, console.ticks, rfl⟩
    obtain ⟨s', hs', hagree⟩ := (setUp_alike m.world _ _ hself).ok_left hsetUp
    rw [hsetUp] at hs'
    cases hs'
    have hlen : m.scene.dots.length = m.world.starts.length := by
      rw [← (setUp_ok hsetUp).1, List.length_map]
    have hsolo : Solo m.world m.scene :=
      ⟨hlen.trans hone, (Reachable.launched hlaunch rfl).allStand, halone⟩
    exact Paired.sameRuns ⟨hagree, .inr hsolo⟩ hparallel hgo

/-! ## Staying alone -/

/-- Does the parallel run come to an end within `n` ticks without any copies? -/
def staysAlone (w : World) : Nat → Scene → Bool
  | 0, s => s.dots.isEmpty
  | n + 1, s =>
    s.dots.isEmpty ||
      ((after? (chooseAll w s.dots.length) s).all fun c =>
        c.dots.all fun d => (d.copies w).isEmpty) &&
      (after? (parallelTick w) s).all (staysAlone w n)

theorem NeverBranches.of_empty {w : World} {s : Scene} (h : s.dots = []) : NeverBranches w s := by
  intro n t c hloop hchoose d hd
  cases n with
  | zero =>
    cases hloop
    rw [h] at hchoose
    cases hchoose
    rw [h] at hd
    cases hd
  | succ n =>
    rw [loop_of_no_dots h] at hloop
    cases hloop

theorem NeverBranches.of_staysAlone {w : World} {n : Nat} {s : Scene}
    (h : staysAlone w n s = true) : NeverBranches w s := by
  induction n generalizing s with
  | zero => exact .of_empty (List.isEmpty_iff.mp h)
  | succ n ih =>
    simp only [staysAlone, Bool.or_eq_true, Bool.and_eq_true, Option.all_eq_true,
      after?_eq_some_iff, List.all_eq_true, List.isEmpty_iff] at h
    rcases h with hempty | ⟨hcopies, hrest⟩
    · exact .of_empty hempty
    · intro k t c hloop hchoose
      cases k with
      | zero =>
        cases hloop
        exact hcopies c hchoose
      | succ k =>
        obtain ⟨s', htick, hloop⟩ := loop_succ_ok hloop
        exact ih (hrest s' htick) k t c hloop hchoose

/-- A dot goes round and prints the numbers that it reads, up to a zero. -/
def echoes : String := ".->-#?-:-\\\n  |      |\n  \\-#$---/"

/-- The program with the input 7 and 0. -/
def launchEchoes (parallel : Bool) : Machine × Option Stop :=
  launch ⟨⟨[]⟩, []⟩ echoes parallel (Console.start .recorder 0 0 ['7', '\n', '0', '\n'] [] []) 0

/-- By both schedules it prints the 7 and ends at the 0. -/
theorem schedules_agree_at_echoes :
    ∃ m, launchEchoes true = (m, none) ∧ launchEchoes false = ({ m with parallel := false }, none) ∧
      SameRuns m { m with parallel := false } ∧
      ∃ out, { m with parallel := false }.EndsWith .exit out ∧
        out.console.outputs = ["<finish>", "7\n"] ∧ out.console.input = [] := by
  have hstop : (launchEchoes true).2 = none := by decide +kernel
  have hone : (launchEchoes true).1.world.starts.length = 1 := by decide +kernel
  have hstays : staysAlone (launchEchoes true).1.world 30 (launchEchoes true).1.scene = true := by
    decide +kernel
  have hend : (run 30 (launchEchoes true).1).2 = some .exit := by decide +kernel
  have hseen : (run 30 (launchEchoes true).1).1.scene.snapshot.console.outputs =
      ["<finish>", "7\n"] ∧ (run 30 (launchEchoes true).1).1.scene.snapshot.console.input = [] := by
    decide +kernel
  have hlaunch : launchEchoes true = ((launchEchoes true).1, none) := by
    rw [← hstop]
  obtain ⟨hfalse, hsame⟩ := schedules_agree hlaunch hone ⟨rfl, fun _ h => nomatch h⟩
    (.of_staysAlone hstays)
  have hsame := hsame rfl
  refine ⟨_, hlaunch, hfalse, hsame, _, (hsame.ends _ _).mp ⟨30, hend, rfl⟩, hseen⟩

end DotPaths.Machine
