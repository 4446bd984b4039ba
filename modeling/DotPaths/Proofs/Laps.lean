import Mathlib.Data.List.Perm.Subperm
import DotPaths.Proofs.Launch
import DotPaths.Proofs.Run

/-! # Dots that run on come to an end

    A dot that runs on goes through laps: the console is told of a step, and the
    dot takes one, unless it has been where it stands.  The loop says nothing
    about how many laps there may be.

    Every lap but the last begins on a cell on which no lap of this turn has
    begun.  So there is at most one lap more than there are cells, whatever the
    dot does on its way, and no matter who else is in the scene.
-/

namespace DotPaths

/-! ## Cells that have been visited -/

namespace World

variable {w : World}

theorem length_located (rows : List (List Cell)) : (located rows).length = rows.flatten.length := by
  unfold located
  rw [List.length_flatMap, List.length_flatten]
  -- Numbering the rows, and the cells of each row, changes no length.
  conv_rhs => rw [← List.zipIdx_map_fst 0 rows, List.map_map]
  congr 1
  apply List.map_congr_left
  intro x _
  simp

/-- Positions of the drawing, each of them once. -/
structure Visited (w : World) (past : List Pos) : Prop where
  nodup : past.Nodup
  inside : ∀ p ∈ past, (w.cell? p).isSome = true

theorem Visited.nil : w.Visited [] := ⟨.nil, fun _ h => nomatch h⟩

theorem Visited.cons {p : Pos} {past : List Pos} (h : w.Visited past) (hp : p ∉ past)
    (hcell : (w.cell? p).isSome = true) : w.Visited (p :: past) := by
  refine ⟨List.nodup_cons.mpr ⟨hp, h.nodup⟩, ?_⟩
  intro q hq
  rcases List.mem_cons.mp hq with rfl | hq
  · exact hcell
  · exact h.inside q hq

/-- No more positions can have been visited than there are cells. -/
theorem Visited.length_le {past : List Pos} (h : w.Visited past) : past.length ≤ w.area := by
  have hsub : past ⊆ (located w.rows).map Prod.fst := by
    intro p hp
    obtain ⟨c, hc⟩ := Option.isSome_iff_exists.mp (h.inside p hp)
    exact List.mem_map.mpr ⟨(p, c), mem_located hc, rfl⟩
  have hlength := (List.subperm_of_subset h.nodup hsub).length_le
  rw [List.length_map, length_located] at hlength
  exact hlength

end World

/-! ## Laps -/

open Scene

namespace Turn

/-- One lap of a dot that runs on.  The result is where the dot stood, if it goes
    on. -/
def lap (w : World) (i : Nat) (past : List Pos) : Act (Option Pos) := do
  tick w
  let d ← dotAt i
  if past.contains d.pos then pure none
  else
    match w.cell? d.pos with
    | none => do
      setDot i d.die
      pure none
    | some c => do
      if ← step w i c then pure (some d.pos) else pure none

/-- The laps of a dot that runs on, after those that began at the positions
    `past`: how many there are, and how the last one ends. -/
inductive RunsOn (w : World) (i : Nat) :
    List Pos → Scene → Nat → EStateM.Result Stop Scene Unit → Prop where
  /-- The dot has died, waits, or has been there. -/
  | ends {past : List Pos} {s t : Scene} :
      lap w i past s = .ok none t → RunsOn w i past s 1 (.ok () t)
  /-- The lap stops the run. -/
  | stops {past : List Pos} {s t : Scene} {e : Stop} :
      lap w i past s = .error e t → RunsOn w i past s 1 (.error e t)
  /-- Another lap follows. -/
  | goes {past : List Pos} {s t : Scene} {p : Pos} {n : Nat}
      {r : EStateM.Result Stop Scene Unit} :
      lap w i past s = .ok (some p) t → RunsOn w i (p :: past) t n r →
      RunsOn w i past s (n + 1) r

variable {w : World} {i : Nat} {past : List Pos} {s t : Scene}

/-- A turn is a lap, and another turn if the dot goes on. -/
theorem runOn_succ (w : World) (i fuel : Nat) (past : List Pos) :
    runOn w i (fuel + 1) past = (lap w i past >>= fun stood =>
      match stood with
      | some p => runOn w i fuel (p :: past)
      | none => pure ()) := by
  rw [runOn]
  unfold lap
  simp only [bind_assoc]
  -- Both sides tell the console and look at the dot; then they branch alike.
  congr 1
  funext _
  congr 1
  funext d
  cases past.contains d.pos with
  | true => rfl
  | false =>
    cases w.cell? d.pos with
    | none => rfl
    | some c =>
      simp only [Bool.false_eq_true, if_false, bind_assoc]
      congr 1
      funext goes
      cases goes <;> rfl

/-- If the dot goes on, it stood on a cell where it had not been. -/
theorem lap_goes {p : Pos} (h : lap w i past s = .ok (some p) t) :
    p ∉ past ∧ (w.cell? p).isSome = true := by
  unfold lap at h
  simp only [bind_ok_iff, dotAt_ok_iff] at h
  obtain ⟨_, u, -, d, _, ⟨-, rfl⟩, h⟩ := h
  by_cases hpast : past.contains d.pos = true
  · rw [if_pos hpast] at h
    cases h
  · rw [if_neg hpast] at h
    cases hc : w.cell? d.pos with
    | none =>
      simp only [hc] at h
      cases h
    | some c =>
      simp only [hc, bind_ok_iff] at h
      obtain ⟨goes, _, -, h⟩ := h
      cases goes with
      | false => cases h
      | true =>
        cases h
        rw [hc]
        exact ⟨by simpa using hpast, rfl⟩

namespace RunsOn

variable {n : Nat} {r : EStateM.Result Stop Scene Unit}

/-- With fuel for all laps, the turn goes through them and ends in the same way. -/
theorem runOn_eq (h : RunsOn w i past s n r) {fuel : Nat} (hfuel : n ≤ fuel) :
    runOn w i fuel past s = r := by
  induction h generalizing fuel with
  | ends hlap =>
    obtain ⟨fuel, rfl⟩ := Nat.exists_eq_add_one_of_ne_zero (Nat.ne_of_gt hfuel)
    rw [runOn_succ, bind_of_ok hlap]
    rfl
  | stops hlap =>
    obtain ⟨fuel, rfl⟩ := Nat.exists_eq_add_one_of_ne_zero (Nat.ne_of_gt hfuel)
    rw [runOn_succ, bind_of_error hlap]
  | goes hlap _ ih =>
    obtain ⟨fuel, rfl⟩ := Nat.exists_eq_add_one_of_ne_zero (n := fuel) (by omega)
    rw [runOn_succ, bind_of_ok hlap]
    -- What is left of the fuel is enough for the laps that are left.
    exact ih (by omega)

/-- Every lap but the last begins on a cell that is new, so together with those
    before there is at most one lap more than there are cells. -/
theorem length_le (h : RunsOn w i past s n r) (hpast : w.Visited past) :
    past.length + n ≤ w.area + 1 := by
  induction h with
  | ends => exact Nat.succ_le_succ hpast.length_le
  | stops => exact Nat.succ_le_succ hpast.length_le
  | goes hlap _ ih =>
    -- For the laps that follow, this one is among those before.
    obtain ⟨hnew, hcell⟩ := lap_goes hlap
    have hrest := ih (hpast.cons hnew hcell)
    rw [List.length_cons] at hrest
    omega

end RunsOn

/-- The laps come to an end. -/
theorem exists_runsOn (hpast : w.Visited past) : ∃ n r, RunsOn w i past s n r := by
  -- By induction on the number of cells where no lap has begun.
  obtain ⟨free, hfree⟩ : ∃ free, w.area < past.length + free := ⟨w.area + 1, by omega⟩
  induction free generalizing past s with
  | zero => exact absurd hpast.length_le (by omega)
  | succ free ih =>
    cases hlap : lap w i past s with
    | error e t => exact ⟨1, _, .stops hlap⟩
    | ok stood t =>
      cases stood with
      | none => exact ⟨1, _, .ends hlap⟩
      | some p =>
        obtain ⟨hnew, hcell⟩ := lap_goes hlap
        have hfewer : w.area < (p :: past).length + free := by
          rw [List.length_cons]
          omega
        obtain ⟨n, r, hrest⟩ := ih (hpast.cons hnew hcell) hfewer
        exact ⟨n + 1, r, .goes hlap hrest⟩

theorem RunsOn.simulate_eq {n : Nat} {r : EStateM.Result Stop Scene Unit}
    (h : RunsOn w i [] s n r) : r = simulate w true i s := by
  -- The fuel of a turn is one more than there are cells.
  have hle := h.length_le .nil
  exact (h.runOn_eq (by simpa using hle)).symm

end Turn

/-! ## Turns -/

namespace Machine

open Turn

/-- The turn of the dot with number `i` is over, and it is taken away if it is
    dead.  The result is the number of the dot whose turn is next. -/
def passOn (i : Nat) : Act Nat := do
  let d ← dotAt i
  if d.isDead then do
    modify fun s => { s with dots := s.dots.eraseIdx i }
    pure i
  else pure (i + 1)

/-- The turns of `n` dots from number `i` on, each of them running on: how many
    laps there are in all, and how the last turn ends. -/
inductive TakeTurns (w : World) :
    Nat → Nat → Scene → Nat → EStateM.Result Stop Scene Unit → Prop where
  /-- All have had their turns. -/
  | done {i : Nat} {s : Scene} : TakeTurns w 0 i s 0 (.ok () s)
  /-- A turn stops the run. -/
  | stops {n i k : Nat} {s t : Scene} {e : Stop} :
      RunsOn w i [] s k (.error e t) → TakeTurns w (n + 1) i s k (.error e t)
  /-- There is no such dot. -/
  | fails {n i k : Nat} {s t u : Scene} {e : Stop} :
      RunsOn w i [] s k (.ok () t) → passOn i t = .error e u →
      TakeTurns w (n + 1) i s k (.error e u)
  /-- It is the next one's turn. -/
  | next {n i j k l : Nat} {s t u : Scene} {r : EStateM.Result Stop Scene Unit} :
      RunsOn w i [] s k (.ok () t) → passOn i t = .ok j u → TakeTurns w n j u l r →
      TakeTurns w (n + 1) i s (k + l) r

theorem turns_succ (w : World) (runsOn : Bool) (n i : Nat) :
    turns w runsOn (n + 1) i = (simulate w runsOn i >>= fun _ => passOn i >>= fun j =>
      turns w runsOn n j) := by
  rw [turns]
  unfold passOn
  simp only [bind_assoc]
  congr 1
  funext _
  congr 1
  funext d
  cases d.isDead <;> rfl

variable {w : World} {n i k : Nat} {s : Scene} {r : EStateM.Result Stop Scene Unit}

namespace TakeTurns

theorem turns_eq (h : TakeTurns w n i s k r) : r = turns w true n i s := by
  induction h with
  | done => rfl
  | stops hturn => rw [turns_succ, bind_of_error hturn.simulate_eq.symm]
  | fails hturn hpass =>
    rw [turns_succ, bind_of_ok hturn.simulate_eq.symm, bind_of_error hpass]
  | next hturn hpass _ ih =>
    rw [turns_succ, bind_of_ok hturn.simulate_eq.symm, bind_of_ok hpass]
    exact ih

/-- No turn has more than one lap more than there are cells. -/
theorem laps_le (h : TakeTurns w n i s k r) : k ≤ n * (w.area + 1) := by
  induction h with
  | done => exact Nat.zero_le _
  | stops hturn | fails hturn =>
    have hfirst := hturn.length_le .nil
    rw [List.length_nil] at hfirst
    rw [Nat.succ_mul]
    omega
  | next hturn _ _ ih =>
    have hfirst := hturn.length_le .nil
    rw [List.length_nil] at hfirst
    rw [Nat.succ_mul]
    omega

end TakeTurns

/-- The turns come to an end. -/
theorem exists_takeTurns (w : World) (n i : Nat) (s : Scene) : ∃ k r, TakeTurns w n i s k r := by
  induction n generalizing i s with
  | zero => exact ⟨0, _, .done⟩
  | succ n ih =>
    obtain ⟨k, r, hturn⟩ := exists_runsOn (i := i) (s := s) (World.Visited.nil (w := w))
    cases r with
    | error e t => exact ⟨k, _, .stops hturn⟩
    | ok u t =>
      cases hpass : passOn i t with
      | error e v => exact ⟨k, _, .fails hturn hpass⟩
      | ok j v =>
        obtain ⟨l, r, hrest⟩ := ih j v
        exact ⟨k + l, r, .next hturn hpass hrest⟩

/-- Whatever the drawing and the dots are, the loop of a dot that runs on ends, by
    itself and as the turn of the dot does, after at most one lap more than there
    are cells; and so do the loops of all dots in a tick, one after the other. -/
theorem laps_end (w : World) (s : Scene) :
    (∀ i, (∃ k, RunsOn w i [] s k (simulate w true i s)) ∧
      ∀ k r, RunsOn w i [] s k r → k ≤ w.area + 1 ∧ r = simulate w true i s) ∧
    (∃ k, TakeTurns w s.dots.length 0 s k (asyncTick w true s)) ∧
      ∀ k r, TakeTurns w s.dots.length 0 s k r →
        k ≤ s.dots.length * (w.area + 1) ∧ r = asyncTick w true s := by
  refine ⟨fun i => ⟨?_, ?_⟩, ?_, ?_⟩
  · obtain ⟨k, r, h⟩ := exists_runsOn (i := i) (s := s) (World.Visited.nil (w := w))
    exact ⟨k, h.simulate_eq ▸ h⟩
  · intro k r h
    have hle := h.length_le .nil
    exact ⟨by simpa using hle, h.simulate_eq⟩
  · obtain ⟨k, r, h⟩ := exists_takeTurns w s.dots.length 0 s
    have heq : r = asyncTick w true s := h.turns_eq
    exact ⟨k, heq ▸ h⟩
  · exact fun k r h => ⟨h.laps_le, h.turns_eq⟩

/-- Four walls that send a dot round and round. -/
def ring : World := ⟨[[⟨'/', .plain⟩, ⟨'\\', .plain⟩], [⟨'\\', .plain⟩, ⟨'/', .plain⟩]], 0⟩

/-- A dot in the ring, and a console that counts. -/
def inRing : Scene :=
  { dots := [{ pos := ⟨0, 0⟩, spawn := ⟨0, 0⟩, dir := .up }]
    console := Console.start .recorder 0 0 [] [] [] }

/-- In the ring a dot goes through all cells and comes back, so the bound is
    reached. -/
theorem laps_end_at_ring :
    ring.area = 4 ∧ (after? (asyncTick ring true) inRing).map (·.console.ticks) = some 5 ∧
      ∃ k, k ≤ 5 ∧ TakeTurns ring 1 0 inRing k (asyncTick ring true inRing) := by
  refine ⟨by decide, by decide +kernel, ?_⟩
  obtain ⟨-, ⟨k, hk⟩, hbound⟩ := laps_end ring inRing
  exact ⟨k, (hbound k _ hk).1, hk⟩

end Machine

end DotPaths
