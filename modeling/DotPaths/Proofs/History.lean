import DotPaths.Proofs.Lockstep

/-! # Histories

    The history of a run is what an observer writes down who takes a snapshot
    after each step of a dot: after each turn of a dot that runs on, and after
    each round of turns in which all dots move at once.

    A history only grows when the run goes on.
-/

namespace DotPaths

/-- What is written down: the dots, and the console without its count of
    ticks. -/
structure Snapshot where
  dots : List Dot
  console : Console

/-- What there is to be written down of a scene. -/
def Scene.snapshot (s : Scene) : Snapshot := ⟨s.dots, { s.console with ticks := 0 }⟩

theorem Scene.Agree.snapshot {s s' : Scene} (h : s.Agree s') : s.snapshot = s'.snapshot := by
  obtain ⟨hdots, hconsole⟩ := h
  obtain ⟨n, hn⟩ := hconsole.same
  unfold Scene.snapshot
  rw [hdots, hn]

/-- An observer who keeps a snapshot of every move, the first one first. -/
def snapshotKeeper : Observer (List Snapshot) where
  moved s seen := seen ++ [s.snapshot]

theorem snapshotKeeper_deaf : snapshotKeeper.IsDeaf where
  called _ _ := rfl
  asked _ _ := rfl

namespace Observed

open Scene

/-! ## Steps -/

/-- A note of a move. -/
theorem moved_of_ok {α : Type} {a : Act α} {x : α} {s t : Scene} {seen : List Snapshot}
    (h : a s = .ok x t) :
    noting snapshotKeeper.moved (quietly a) (s, seen) = .ok x (t, seen ++ [t.snapshot]) :=
  noting_of_ok (quietly_of_ok h)

theorem moved_of_error {α : Type} {a : Act α} {e : Stop} {s t : Scene} {seen : List Snapshot}
    (h : a s = .error e t) :
    noting snapshotKeeper.moved (quietly a) (s, seen) = .error e (t, seen ++ [t.snapshot]) :=
  noting_of_error (quietly_of_error h)

theorem step_unnoted (w : World) (i : Nat) (c : Cell) :
    step snapshotKeeper w i c = quietly (Turn.step w i c) :=
  step_eq_quietly snapshotKeeper_deaf (fun _ _ _ _ => rfl) w i c

theorem tick_unnoted (w : World) : tick snapshotKeeper w = quietly (Scene.tick w) :=
  tick_eq_quietly snapshotKeeper_deaf (fun _ _ => rfl) w

/-- All dots move, and this is one move. -/
theorem moveAll_unnoted (w : World) (n : Nat) :
    moveAll snapshotKeeper w n = noting snapshotKeeper.moved
      (quietly (Machine.chooseAll w n >>= fun _ => Machine.actAll w n)) := by
  unfold moveAll
  congr 1
  refine Still.eq_quietly ?_ ((Follows.quietly _).bind fun _ => .forM (act_follows _ w) _)
  refine (Still.quietly _).bind fun _ => .forM (fun i => ?_) _
  rw [act_eq_quietly snapshotKeeper_deaf fun _ _ _ _ => rfl]
  exact .quietly _

/-- An iteration of a turn: a tick, a look at the dot, and a step unless the dot
    has been there before. -/
theorem runOn_succ {w : World} {i fuel : Nat} {past : List Pos} {s t : Scene} {d : Dot}
    {seen : List Snapshot} (htick : Scene.tick w s = .ok () t) (hd : t.dots[i]? = some d) :
    runOn snapshotKeeper w i (fuel + 1) past (s, seen) =
      (if past.contains d.pos then pure ()
      else
        match w.cell? d.pos with
        | none => noting snapshotKeeper.moved (quietly (setDot i d.die))
        | some c =>
          noting snapshotKeeper.moved (quietly (Turn.step w i c)) >>= fun goes =>
            if goes then runOn snapshotKeeper w i fuel (d.pos :: past) else pure ()) (t, seen) := by
  simp only [← step_unnoted]
  show (tick snapshotKeeper w >>= fun _ => quietly (dotAt i) >>= _) (s, seen) = _
  rw [tick_unnoted, bind_of_ok (quietly_of_ok htick)]
  exact bind_of_ok (quietly_of_ok (dotAt_apply hd))

/-! ## Side by side -/

/-- Two runs have written the same.  Both complete, with scenes that are related,
    or both stop for the same reason, with scenes that agree. -/
inductive Abreast (R : Scene → Scene → Prop) :
    EStateM.Result Stop (Scene × List Snapshot) Unit →
    EStateM.Result Stop (Scene × List Snapshot) Unit → Prop where
  | ok {seen : List Snapshot} {s s' : Scene} (h : R s s') :
      Abreast R (.ok () (s, seen)) (.ok () (s', seen))
  | error {seen : List Snapshot} {e : Stop} {s s' : Scene} (h : s.Agree s') :
      Abreast R (.error e (s, seen)) (.error e (s', seen))

namespace Abreast

variable {R R' : Scene → Scene → Prop}

theorem notes_eq {x y : EStateM.Result Stop (Scene × List Snapshot) Unit} (h : Abreast R x y) :
    notes x = notes y := by
  cases h with
  | ok => rfl
  | error => rfl

theorem bind {a b f g : Observed Scene (List Snapshot) Unit} {x y : Scene × List Snapshot}
    (h : Abreast R (a x) (b y))
    (hf : ∀ t t' seen, R t t' → Abreast R' (f (t, seen)) (g (t', seen))) :
    Abreast R' ((a >>= fun _ => f) x) ((b >>= fun _ => g) y) := by
  generalize hx : a x = r, hy : b y = r' at h
  cases h with
  | ok ht =>
    rw [bind_of_ok hx, bind_of_ok hy]
    exact hf _ _ _ ht
  | error h =>
    rw [bind_of_error hx, bind_of_error hy]
    exact .error h

end Abreast

/-! ## Histories -/

/-- Snapshots are added at the end. -/
theorem snapshots_lockstep (seen : List Snapshot) :
    Lockstep snapshotKeeper (fun _ _ => False) (fun _ _ y => seen <+: y.2) := by
  have hquiet : ∀ {α : Type} (a : Act α), InStep (fun _ _ => False) (fun _ _ y => seen <+: y.2)
      (quietly a : Observed Scene (List Snapshot) α) := by
    intro α a
    refine ⟨False.elim, ?_⟩
    intro e x y h
    rw [endState_quietly]
    exact h
  refine ⟨⟨?_, ?_, ?_⟩, ?_, fun _ => hquiet _, ?_, ?_, ?_, ?_⟩
  · exact fun _ _ _ _ => rfl
  · exact fun _ _ => rfl
  · exact fun _ _ _ => rfl
  · intro α b hb
    refine ⟨False.elim, ?_⟩
    intro e x y h
    have hends := hb.lasting (e := e) (s := x) h
    cases hy : b y with
    | ok r t =>
      rw [hy] at hends
      rw [noting_of_ok hy]
      exact hends.trans (List.prefix_append _ _)
    | error e t =>
      rw [hy] at hends
      rw [noting_of_error hy]
      exact hends.trans (List.prefix_append _ _)
  · intro p
    rw [output_eq_quietly snapshotKeeper_deaf]
    exact hquiet _
  · intro byCode
    rw [read_eq_quietly snapshotKeeper_deaf]
    exact hquiet _
  · intro text
    rw [report_eq_quietly snapshotKeeper_deaf]
    exact hquiet _
  · intro w
    rw [tick_unnoted]
    exact hquiet _

end Observed

namespace Machine

/-- The snapshots of a run, the first one first. -/
def history (w : World) (parallel : Bool) (fuel : Nat) (s : Scene) : List Snapshot :=
  Observed.notes (Observed.loop snapshotKeeper w parallel fuel (s, []))

/-- A longer run has the longer history. -/
theorem history_mono {w : World} {parallel : Bool} {n k : Nat} {s : Scene} (h : n ≤ k) :
    history w parallel n s <+: history w parallel k s := by
  obtain ⟨j, rfl⟩ := Nat.exists_eq_add_of_le h
  have hlater := (Observed.snapshots_lockstep (history w parallel n s)).loop w parallel j
  show _ <+: (endState (Observed.loop snapshotKeeper w parallel (n + j) (s, []))).2
  rw [Observed.loop_add]
  refine endState_bind (P := fun y : Scene × List Snapshot => history w parallel n s <+: y.2) ?_ ?_
  · exact fun _ y hy => hlater.lasting (e := .exit) (s := y) hy
  · exact List.prefix_refl _

/-- What has stopped stays as it is when there is more fuel. -/
theorem loop_of_error {w : World} {parallel : Bool} {n k : Nat} {s s' : Scene} {e : Stop}
    (h : loop w parallel n s = .error e s') (hk : n ≤ k) :
    loop w parallel k s = .error e s' := by
  obtain ⟨j, rfl⟩ := Nat.exists_eq_add_of_le hk
  -- An observer who notes nothing is present all the time.
  have hfollows := fun fuel => Observed.loop_follows (γ := Unit) {} w parallel fuel (s, ())
  rw [← hfollows n] at h
  rw [← hfollows (n + j), Observed.loop_add]
  cases hn : Observed.loop {} w parallel n (s, ()) with
  | ok u t =>
    rw [hn] at h
    cases h
  | error e' t =>
    rw [hn] at h
    rw [bind_of_error hn]
    exact h

end Machine

end DotPaths
