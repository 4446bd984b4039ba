import Mathlib.Logic.Function.Iterate
import DotPaths.Proofs.Regions

/-! # Visits to a library

    A number of parallel ticks on end, seen from the rows of a library: who goes in
    by an alias, and who goes out.

    - `Stretch`: ticks on end, with the scenes before, within and after them.
    - `Stretch.Visits`: certain dots go in by an alias, and nobody else is there.
    - `Stretch.departures`: how the dots are that go out.
    - `Stretch.Visits.comers_perm`: those that come in are the visitors, each one cell
      on from where the alias leads.
-/

namespace DotPaths

/-- How a dot goes out of a library. -/
structure Departure where
  pos : Pos
  dir : Pos
  value : Number
  id : Number
  stack : List Pos
  deriving DecidableEq

/-- The dot as it goes out.  Whether it is lost there does not count. -/
def Dot.departure (d : Dot) : Departure :=
  { pos := d.pos, dir := d.dir, value := d.value, id := d.id, stack := d.stack }

@[simp] theorem Dot.departure_settled (w : World) (d : Dot) :
    (d.settled w).departure = d.departure :=
  settled_keeps w rfl

/-- The dot in a library, one cell on from the exposed cell at `q`, when it has come in
    by the alias on which it stood. -/
def Dot.entered (q : Pos) (d : Dot) : Dot :=
  { d with pos := q, stack := d.pos :: d.stack }.move

/-- A dot that goes into a library goes to where the alias leads. -/
theorem Dot.deed_of_into {w : World} {p : Pos} {d : Dot} (h : d.passage? w = some (.into p)) :
    d.pos = p ∧ d.phase = .travel ∧ ∃ c v, w.cell? p = some c ∧ c.kind = .warp v ∧
      ∀ q, v.target = some q → v.role.isReturn = false → d.deed w c = .become (d.entered q) := by
  cases hc : w.cell? d.pos with
  | none => simp [passage?, hc] at h
  | some c =>
    by_cases hover : d.travelsOver c = true
    · rw [passage?_of_over hc hover] at h
      cases hkind : c.kind with
      | warp v =>
        simp only [hkind, CellKind.warp?] at h
        -- It is no exposed cell, and it is remembered.
        split at h
        · cases h
        · next hexposed =>
          split at h
          · next hremembered =>
            obtain rfl : d.pos = p := Passage.into.inj (Option.some.inj h)
            simp only [travelsOver, Bool.and_eq_true, decide_eq_true_eq, Bool.not_eq_true',
              bne_iff_ne] at hover
            obtain ⟨⟨hphase, hturn⟩, hstar⟩ := hover
            refine ⟨rfl, hphase, c, v, hc, hkind, ?_⟩
            intro q htarget hreturn
            simp [deed, hphase, travelDeed, hturn, hstar, hkind, CellKind.warp?, hexposed,
              warpThrough, CellKind.target, hreturn, htarget, hremembered, entered]
          · cases h
      | _ => simp [hkind, CellKind.warp?] at h
    · rw [passage?_of_not_over hc (by simpa using hover)] at h
      cases h

namespace Machine

/-- Parallel ticks on end.  In tick `j` the dots choose and make the scene
    `chosen j`, and act and make it `acted j`. -/
structure Stretch (w : World) (n : Nat) where
  before : Nat → Scene
  chosen : Nat → Scene
  acted : Nat → Scene
  ticks : ∀ j, j < n → Ticks w (before j) (chosen j) (acted j) (before (j + 1))

/-! The ticks from a scene, if they complete. -/

/-- The scene in which an action ends, whether it completes or stops. -/
def sceneOf : EStateM.Result Stop Scene Unit → Scene
  | .ok _ s => s
  | .error _ s => s

@[irreducible] def chosenScene (w : World) (s : Scene) : Scene := sceneOf (chooseAll w s.dots.length s)

@[irreducible] def actedScene (w : World) (s : Scene) : Scene :=
  sceneOf (actAll w s.dots.length (chosenScene w s))

@[irreducible] def nextScene (w : World) (s : Scene) : Scene := sceneOf (parallelTick w s)

theorem ticks_of_completes {w : World} {s : Scene} (h : (after? (parallelTick w) s).isSome = true) :
    Ticks w s (chosenScene w s) (actedScene w s) (nextScene w s) := by
  obtain ⟨s', hs'⟩ := Option.isSome_iff_exists.mp h
  have hok := after?_eq_some_iff.mp hs'
  obtain ⟨c, t, hticks⟩ := parallelTick_ok_iff.mp hok
  have hc : chosenScene w s = c := by
    unfold chosenScene
    rw [hticks.choosing]
    rfl
  have ht : actedScene w s = t := by
    unfold actedScene
    rw [hc, hticks.acting]
    rfl
  have hnext : nextScene w s = s' := by
    unfold nextScene
    rw [hok]
    rfl
  rw [hc, ht, hnext]
  exact hticks

/-- The stretch from a scene on. -/
def Stretch.ofScene (w : World) (n : Nat) (s : Scene)
    (h : ∀ j, j < n → (after? (parallelTick w) ((nextScene w)^[j] s)).isSome = true) :
    Stretch w n where
  before j := (nextScene w)^[j] s
  chosen j := chosenScene w ((nextScene w)^[j] s)
  acted j := actedScene w ((nextScene w)^[j] s)
  ticks := by
    intro j hj
    rw [Function.iterate_succ_apply']
    exact ticks_of_completes (h j hj)

namespace Stretch

variable {w : World} {n : Nat}

/-- The dots that come into the region in tick `j`. -/
def comers (run : Stretch w n) (R : Region) (j : Nat) : List Dot :=
  Machine.comers w R (run.chosen j) (run.acted j)

/-- The dots of the region that go out of a library in tick `j`. -/
def leavers (run : Stretch w n) (R : Region) (j : Nat) : List Dot :=
  Machine.leavers w R (run.chosen j) (run.acted j)

/-- How the dots are that go out, tick by tick. -/
def departures (run : Stretch w n) (R : Region) : List Departure :=
  (List.range n).flatMap fun j => (run.leavers R j).map Dot.departure

/-- The visitors go into the library in the rows `R` by the alias at `p`, each in its
    tick.  There is nobody in these rows before, and nobody else comes in. -/
structure Visits (run : Stretch w n) (R : Region) (p : Pos) (visitors : List (Nat × Dot)) :
    Prop where
  empty : inside R (run.before 0).dots = []
  enter : ∀ x ∈ visitors, x.2 ∈ (run.chosen x.1).dots ∧ x.2.passage? w = some (.into p)
  alone : ∀ j, j < n → (run.comers R j).length = (visitors.filter (·.1 == j)).length

end Stretch

/-- A dot that goes into a library comes in there. -/
theorem Ticks.mem_comers {w : World} {R : Region} {s c t s' : Scene} {p q : Pos} {d : Dot}
    {x : Cell} {v : Warp} (h : Ticks w s c t s') (hd : d ∈ c.dots)
    (hinto : d.passage? w = some (.into p)) (hx : w.cell? p = some x) (hv : x.kind = .warp v)
    (htarget : v.target = some q) (hreturn : v.role.isReturn = false) (hout : R p = false)
    (hin : ((d.entered q).settled w).isIn R = true) :
    (d.entered q).settled w ∈ comers w R c t := by
  obtain ⟨hpos, hphase, x', v', hx', hv', hdeed⟩ := Dot.deed_of_into hinto
  cases hx.symm.trans hx'
  cases hv.symm.trans hv'
  have hbecome := hdeed q htarget hreturn
  obtain ⟨k, hk⟩ := List.mem_iff_getElem?.mp hd
  have hne : ∀ m, d.phase ≠ .meet m := by
    intro m
    rw [hphase]
    exact nofun
  have hsilent : d.isSilent w = true := by
    unfold Dot.isSilent
    rw [hpos, hx]
    show (d.deed w x).isSilent = true
    rw [hbecome]
    rfl
  obtain ⟨d', hafter, hd'⟩ := moving_at_end (steady_chooseAll h.choosing) h.actingAll hk hne hsilent
  -- After the round it stands where the alias leads.
  obtain rfl : d' = (d.entered q).settled w := by
    rw [Dot.afterRound?_alone (by rw [hpos]; exact hx) hne, hbecome] at hafter
    exact (Option.some.inj hafter).symm
  have hzip : (d, (d.entered q).settled w) ∈ c.dots.zip t.dots :=
    List.mem_of_getElem? (List.getElem?_zip_eq_some.mpr ⟨hk, hd'⟩)
  refine List.mem_flatMap.mpr ⟨_, List.mem_filter.mpr ⟨hzip, ?_⟩, ?_⟩
  · show (!R d.pos) = true
    rw [hpos, hout]
    rfl
  · exact List.mem_filter.mpr ⟨List.mem_cons_self, hin⟩

/-- If the visitors of a tick are alive where they come in, and no two of them are
    alike there, they are all who come in. -/
theorem Stretch.Visits.comers_perm {w : World} {n : Nat} {run : Stretch w n} {R : Region} {p q : Pos}
    {visitors : List (Nat × Dot)} {x : Cell} {v : Warp} {j : Nat} (h : run.Visits R p visitors)
    (hj : j < n) (hx : w.cell? p = some x) (hv : x.kind = .warp v) (htarget : v.target = some q)
    (hreturn : v.role.isReturn = false) (hout : R p = false) {arrived : List Dot}
    (harrived : arrived = (visitors.filter (·.1 == j)).map fun y => (y.2.entered q).settled w)
    (hnodup : arrived.Nodup) (hin : ∀ d ∈ arrived, d.isIn R = true) :
    (run.comers R j).Perm arrived := by
  have hsub : arrived ⊆ run.comers R j := by
    intro d hd
    have hlive := hin d hd
    rw [harrived] at hd
    obtain ⟨y, hy, rfl⟩ := List.mem_map.mp hd
    obtain ⟨hmem, htick⟩ := List.mem_filter.mp hy
    obtain ⟨hdots, hinto⟩ := h.enter y hmem
    rw [beq_iff_eq.mp htick] at hdots
    exact (run.ticks j hj).mem_comers hdots hinto hx hv htarget hreturn hout hlive
  have hlen : (run.comers R j).length = arrived.length := by
    rw [h.alone j hj, harrived, List.length_map]
  exact ((List.subperm_of_subset hnodup hsub).perm_of_length_le (Nat.le_of_eq hlen)).symm

/-- Nobody goes out where nobody is. -/
theorem Stretch.departures_eq_nil {w : World} {n : Nat} {R : Region} (run : Stretch w n)
    (h : ∀ j, j ≤ n → inside R (run.before j).dots = []) : run.departures R = [] := by
  apply List.flatMap_eq_nil_iff.mpr
  intro j hj
  have hj := List.mem_range.mp hj
  have hticks := run.ticks j hj
  have hchosen : inside R (run.chosen j).dots = [] := by
    have hboth := hticks.inside_chosen (R := R)
    rw [h j (Nat.le_of_lt hj)] at hboth
    generalize inside R (run.chosen j).dots = dots at hboth
    cases hboth
    rfl
  have hnone : run.leavers R j = [] := by
    show Machine.leavers w R (run.chosen j) (run.acted j) = []
    rw [hticks.leavers_eq, hchosen]
    · rfl
    · rw [hchosen]
      exact .nil
    · rw [hchosen]
      exact fun d hd => nomatch hd
  rw [hnone]
  rfl

/-! ## Trials

    Whether the ticks from a known scene complete, and how many dots come in, is found
    out by computation. -/

/-- The ticks from the scene complete, and so many dots come into the region in
    them. -/
def isolated (w : World) (R : Region) : List Nat → Scene → Bool
  | [], _ => true
  | k :: counts, s => (after? (parallelTick w) s).isSome &&
      ((comers w R (chosenScene w s) (actedScene w s)).length == k &&
        isolated w R counts (nextScene w s))

theorem isolated_get {w : World} {R : Region} {counts : List Nat} {s : Scene} {j k : Nat}
    (h : isolated w R counts s = true) (hj : counts[j]? = some k) :
    (after? (parallelTick w) ((nextScene w)^[j] s)).isSome = true ∧
      (comers w R (chosenScene w ((nextScene w)^[j] s))
        (actedScene w ((nextScene w)^[j] s))).length = k := by
  induction counts generalizing s j with
  | nil => cases hj
  | cons k₀ counts ih =>
    unfold isolated at h
    rw [Bool.and_eq_true, Bool.and_eq_true, beq_iff_eq] at h
    obtain ⟨hdone, hcount, hrest⟩ := h
    cases j with
    | zero =>
      cases hj
      exact ⟨hdone, hcount⟩
    | succ j =>
      rw [Function.iterate_succ_apply]
      exact ih hrest hj

/-- If nobody comes in but the visitors, the ticks are a stretch with their visits. -/
theorem exists_visits {w : World} {R : Region} {p : Pos} {visitors : List (Nat × Dot)} {n : Nat}
    {s : Scene}
    (h : isolated w R ((List.range n).map fun j => (visitors.filter (·.1 == j)).length) s = true)
    (hempty : inside R s.dots = [])
    (henter : ∀ x ∈ visitors, x.2 ∈ (chosenScene w ((nextScene w)^[x.1] s)).dots ∧
      x.2.passage? w = some (.into p)) :
    ∃ run : Stretch w n, run.Visits R p visitors ∧ ∀ j, run.before j = (nextScene w)^[j] s := by
  have hget : ∀ j, j < n → ((List.range n).map fun j => (visitors.filter (·.1 == j)).length)[j]? =
      some (visitors.filter (·.1 == j)).length := by
    intro j hj
    rw [List.getElem?_map, List.getElem?_range hj]
    rfl
  refine ⟨.ofScene w n s fun j hj => (isolated_get h (hget j hj)).1, ?_, fun _ => rfl⟩
  exact ⟨hempty, henter, fun j hj => (isolated_get h (hget j hj)).2⟩

/-- The ticks from the scene complete, and nobody is in the region before or after any
    of them. -/
def deserted (w : World) (R : Region) : Nat → Scene → Bool
  | 0, s => (inside R s.dots).isEmpty
  | n + 1, s => (inside R s.dots).isEmpty &&
      ((after? (parallelTick w) s).isSome && deserted w R n (nextScene w s))

theorem deserted_get {w : World} {R : Region} {n : Nat} {s : Scene} (h : deserted w R n s = true) :
    (∀ j, j < n → (after? (parallelTick w) ((nextScene w)^[j] s)).isSome = true) ∧
      ∀ j, j ≤ n → inside R ((nextScene w)^[j] s).dots = [] := by
  induction n generalizing s with
  | zero =>
    refine ⟨fun j hj => absurd hj (Nat.not_lt_zero j), ?_⟩
    intro j hj
    rw [Nat.le_zero.mp hj]
    exact List.isEmpty_iff.mp h
  | succ n ih =>
    unfold deserted at h
    rw [Bool.and_eq_true, Bool.and_eq_true, List.isEmpty_iff] at h
    obtain ⟨hnobody, hdone, hrest⟩ := h
    obtain ⟨hlater, hnobody'⟩ := ih hrest
    constructor
    · intro j hj
      cases j with
      | zero => exact hdone
      | succ j =>
        rw [Function.iterate_succ_apply]
        exact hlater j (by omega)
    · intro j hj
      cases j with
      | zero => exact hnobody
      | succ j =>
        rw [Function.iterate_succ_apply]
        exact hnobody' j (by omega)

/-- A stretch in which nobody is in the region. -/
theorem exists_deserted {w : World} {R : Region} {n : Nat} {s : Scene}
    (h : deserted w R n s = true) :
    ∃ run : Stretch w n, (∀ j, run.before j = (nextScene w)^[j] s) ∧
      (∀ j, j ≤ n → inside R (run.before j).dots = []) ∧ run.departures R = [] := by
  obtain ⟨hdone, hnobody⟩ := deserted_get h
  let run : Stretch w n := .ofScene w n s hdone
  exact ⟨run, fun _ => rfl, hnobody, run.departures_eq_nil hnobody⟩

end Machine

end DotPaths
