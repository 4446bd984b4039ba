import DotPaths.Machine.Run
import DotPaths.Proofs.Round

/-! # Ticks and runs

    A parallel tick that completes has three parts: the choosing, the round of
    turns, and the sweep that takes the dead dots away.  A run is a number of
    such ticks; a scene is reachable if a program can come to it.
-/

namespace DotPaths

/-- The scene in which an action completes, if it does. -/
def after? (a : Act Unit) (s : Scene) : Option Scene :=
  match a s with
  | .ok _ s' => some s'
  | .error _ _ => none

theorem after?_eq_some_iff {a : Act Unit} {s s' : Scene} :
    after? a s = some s' ↔ a s = .ok () s' := by
  unfold after?
  cases a s with
  | ok u t => simp
  | error e t => simp

namespace Machine

/-! ## Parallel ticks -/

/-- A parallel tick from the scene `s` that completes in `s'`: the dots choose
    and make it `c`, and act and make it `t`. -/
structure Ticks (w : World) (s c t s' : Scene) : Prop where
  choosing : chooseAll w s.dots.length s = .ok () c
  acting : actAll w s.dots.length c = .ok () t
  closing : Scene.tick w { t with dots := sweep s.dots.length t.dots } = .ok () s'

theorem parallelTick_ok_iff {w : World} {s s' : Scene} :
    parallelTick w s = .ok () s' ↔ ∃ c t, Ticks w s c t s' := by
  unfold parallelTick
  simp only [bind_ok_iff]
  constructor
  · rintro ⟨_, _, hget, _, c, hc, _, t, ht, _, _, hsweep, hclose⟩
    cases hget
    cases hsweep
    exact ⟨c, t, hc, ht, hclose⟩
  · rintro ⟨c, t, h⟩
    exact ⟨s, s, rfl, (), c, h.choosing, (), t, h.acting, (), _, rfl, h.closing⟩

namespace Ticks

variable {w : World} {s c t s' : Scene}

theorem length (h : Ticks w s c t s') : c.dots.length = s.dots.length :=
  (chooseAll_ok h.choosing).1

theorem round (h : Ticks w s c t s') : Round w c c.dots.length t := by
  apply actAll_round (steady_chooseAll h.choosing) (Nat.le_refl _)
  rw [h.length]
  exact h.acting

theorem dots (h : Ticks w s c t s') : s'.dots = sweep s.dots.length t.dots := by
  rw [Scene.tick_dots h.closing]

/-- No dead dot is left: the old ones are swept away, and the new ones travel. -/
theorem alive (h : Ticks w s c t s') {d : Dot} (hd : d ∈ s'.dots) : d.isDead = false := by
  rw [h.dots, ← h.length] at hd
  rcases List.mem_append.mp hd with hold | hnew
  · simpa using (List.mem_filter.mp hold).2
  · obtain ⟨k, hk⟩ := List.mem_iff_getElem?.mp hnew
    rw [List.getElem?_drop] at hk
    simp [Dot.isDead, Phase.isDead, h.round.new_phase (by omega) hk]

end Ticks

/-! ## Runs -/

/-- A scene that a program can come to by ticks that complete, of either
    schedule. -/
inductive Reachable (w : World) : Scene → Prop where
  | launched {shelf : Shelf} {program : String} {parallel : Bool} {console : Console}
      {traced : Nat} {m : Machine} :
      launch shelf program parallel console traced = (m, none) → m.world = w →
      Reachable w m.scene
  | parallel {s s' : Scene} : Reachable w s → parallelTick w s = .ok () s' → Reachable w s'
  | async {s s' : Scene} {runsOn : Bool} : Reachable w s → asyncTick w runsOn s = .ok () s' →
      Reachable w s'

theorem loop_of_dots {w : World} {parallel : Bool} {n : Nat} {s : Scene} (h : s.dots ≠ []) :
    loop w parallel (n + 1) s = (tickBy w parallel >>= fun _ => loop w parallel n) s := by
  have hempty : ¬ s.dots.isEmpty = true := by simpa using h
  show (if s.dots.isEmpty then (throw .exit >>= fun _ : PUnit => _)
    else tickBy w parallel >>= fun _ => loop w parallel n : Act Unit) s = _
  rw [if_neg hempty]

theorem loop_of_no_dots {w : World} {parallel : Bool} {n : Nat} {s : Scene} (h : s.dots = []) :
    loop w parallel (n + 1) s = .error .exit s := by
  have hempty : s.dots.isEmpty = true := by simp [h]
  show (if s.dots.isEmpty then (throw .exit >>= fun _ : PUnit => _)
    else tickBy w parallel >>= fun _ => loop w parallel n : Act Unit) s = _
  rw [if_pos hempty]
  rfl

theorem loop_succ_ok {w : World} {parallel : Bool} {n : Nat} {s s' : Scene}
    (h : loop w parallel (n + 1) s = .ok () s') :
    ∃ t, tickBy w parallel s = .ok () t ∧ loop w parallel n t = .ok () s' := by
  by_cases hdots : s.dots = []
  · rw [loop_of_no_dots hdots] at h
    cases h
  · rw [loop_of_dots hdots, bind_ok_iff] at h
    obtain ⟨_, t, ht, h⟩ := h
    exact ⟨t, ht, h⟩

/-- A run goes on where it was left. -/
theorem loop_add {w : World} {parallel : Bool} {n : Nat} {s t : Scene}
    (h : loop w parallel n s = .ok () t) (k : Nat) :
    loop w parallel (n + k) s = loop w parallel k t := by
  induction n generalizing s with
  | zero =>
    cases h
    rw [Nat.zero_add]
  | succ n ih =>
    have hdots : s.dots ≠ [] := by
      intro hnil
      rw [loop_of_no_dots hnil] at h
      cases h
    obtain ⟨u, hu, hn⟩ := loop_succ_ok h
    rw [Nat.add_right_comm, loop_of_dots hdots, bind_of_ok hu]
    exact ih hn

/-- The scenes of a run are reachable. -/
theorem Reachable.loop {w : World} {parallel : Bool} {n : Nat} {s s' : Scene}
    (h : Reachable w s) (hn : Machine.loop w parallel n s = .ok () s') : Reachable w s' := by
  induction n generalizing s with
  | zero => cases hn; exact h
  | succ n ih =>
    obtain ⟨t, ht, hn⟩ := loop_succ_ok hn
    cases parallel with
    | true => exact ih (h.parallel ht) hn
    | false => exact ih (h.async ht) hn

/-! ## Trials

    A trial runs a program by itself, without any files and on a console that
    only keeps records, and looks at one of its ticks. -/

/-- The machine for a program by itself. -/
def launchAlone (program : String) : Machine × Option Stop :=
  launch ⟨⟨[]⟩, []⟩ program true (Console.start .recorder 0 0 [] [] []) 0

/-- Does the tick after the first `n` ones complete, and do its scenes pass the
    check? -/
def trial (program : String) (n : Nat) (check : Scene → Scene → Scene → Bool) : Bool :=
  match launchAlone program with
  | (m, none) =>
    (after? (Machine.loop m.world true n) m.scene).any fun s =>
      (after? (chooseAll m.world s.dots.length) s).any fun c =>
        (after? (actAll m.world s.dots.length) c).any fun t =>
          (after? (Scene.tick m.world) { t with dots := sweep s.dots.length t.dots }).any fun _ =>
            check s c t
  | _ => false

theorem exists_of_trial {program : String} {n : Nat} {check : Scene → Scene → Scene → Bool}
    (h : trial program n check = true) :
    ∃ m s c t s', launchAlone program = (m, none) ∧
      Machine.loop m.world true n m.scene = .ok () s ∧ Ticks m.world s c t s' ∧
      check s c t = true := by
  unfold trial at h
  split at h
  · next m hm =>
    simp only [Option.any_eq_true, after?_eq_some_iff] at h
    obtain ⟨s, hs, c, hc, t, ht, s', hs', hcheck⟩ := h
    exact ⟨m, s, c, t, s', hm, hs, ⟨hc, ht, hs'⟩, hcheck⟩
  · cases h

end Machine

end DotPaths
