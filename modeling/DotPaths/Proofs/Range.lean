import Mathlib.Data.Int.Range
import DotPaths.Proofs.SymbolicRuns

/-! # Counting with the range library

    The library `for_in_range.dots` is a loop.  A dot that comes in from one side
    brings the number at which the counting begins, a dot from the other side the
    number before which it ends; what comes out are the numbers in between.

    Inside there are four dots that wait for each other, copy themselves and fall
    into step during the first laps.  From the fourth lap on every lap is like the
    one before, but for the number that is counted up.  Each kind of lap is
    computed once; that the loop counts to its end follows by induction.
-/

namespace DotPaths

open Symbolic

/-! ## The program -/

/-- A program that prints the numbers that come out of the loop and stops at its
    end.  The loop is used at the letter `f`. -/
def rangeProgram : String :=
  "%!for_in_range.dots f\n\n       /-$#\n       |\n.-*-#1-f-\\\n  \\-#10+-/\n       |\n       \\-&\n"

/-- Is this the place of an alias, where dots go into a library? -/
def World.isAlias (w : World) (p : Pos) : Bool :=
  (w.cell? p).any fun c => c.kind.role? == some .entrance

/-- The world of the program. -/
@[irreducible] def rangeWorld : World := (World.build ⟨⟨[]⟩, []⟩ rangeProgram).toOption.getD default

namespace RangeLoop

/-- A dot without its number: `counts` says that this is the one which is counted
    up, and not the bound. -/
structure LoopDot where
  pos : Pos
  dir : Pos
  counts : Bool
  phase : Phase := .travel
  spawn : Pos := ⟨0, 0⟩
  stack : List Pos := [⟨7, 4⟩]

/-- The dot with its number. -/
def LoopDot.dot (n bound : Int) (p : LoopDot) : Dot :=
  { pos := p.pos, spawn := p.spawn, dir := p.dir, value := .int (if p.counts then n else bound),
    phase := p.phase, stack := p.stack }

/-- Two dots, in the one order or in the other. -/
def inOrder (swapped : Bool) (p q : LoopDot) : List LoopDot :=
  if swapped then [q, p] else [p, q]

/-- The two dots that come in. -/
def entering (swapped : Bool) : List LoopDot :=
  inOrder swapped { pos := ⟨6, 4⟩, dir := .right, counts := true, stack := [] }
    { pos := ⟨8, 4⟩, dir := .left, counts := false, stack := [] }

/-- The dot that is left when the loop has ended. -/
def leaving : LoopDot := { pos := ⟨9, 7⟩, dir := .right, counts := false, stack := [] }

/-- The kinds of laps. -/
inductive Lap where
  | first | second | third | later
  deriving DecidableEq

namespace Lap

def all : List Lap := [.first, .second, .third, .later]

theorem mem_all (lap : Lap) : lap ∈ all := by
  cases lap <;> simp [all]

/-- The lap after this one. -/
def next : Lap → Lap
  | .first => .second
  | .second => .third
  | .third | .later => .later

/-- The dots at the beginning of a lap, just before the number is compared with the
    bound.  The two that came in first are in the order of their coming. -/
def dots (swapped : Bool) : Lap → List LoopDot
  | .first =>
    -- The number waits at the switch on its way and at the comparison.
    inOrder swapped
      { pos := ⟨10, 29⟩, dir := .right, counts := true, phase := .meet ⟨.switch, true, false, 4⟩ }
      { pos := ⟨6, 32⟩, dir := .left, counts := false } ++
    [{ pos := ⟨7, 31⟩, dir := .right, counts := true, phase := .meet ⟨.curly, true, false, 5⟩,
       spawn := ⟨4, 29⟩ },
     { pos := ⟨7, 31⟩, dir := .up, counts := false, spawn := ⟨7, 32⟩ }]
  | .second =>
    -- From now on it is the bound that waits for the number.
    inOrder swapped { pos := ⟨9, 29⟩, dir := .right, counts := true }
      { pos := ⟨10, 34⟩, dir := .right, counts := false } ++ compared 10
  | .third =>
    inOrder swapped { pos := ⟨9, 29⟩, dir := .right, counts := true } (bound 2) ++ compared 20
  | .later =>
    -- All dots have waited as long as they will ever wait.
    inOrder swapped { pos := ⟨9, 29⟩, dir := .right, counts := true } (bound 4) ++ compared 22
where
  /-- The bound at the switch on its way. -/
  bound (age : Nat) : LoopDot :=
    { pos := ⟨12, 32⟩, dir := .left, counts := false, phase := .meet ⟨.switch, true, false, age⟩ }
  /-- The bound has waited at the comparison, and the number comes to it. -/
  compared (age : Nat) : List LoopDot :=
    [{ pos := ⟨7, 31⟩, dir := .up, counts := false, phase := .meet ⟨.curly, false, false, age⟩,
       spawn := ⟨7, 32⟩ },
     { pos := ⟨7, 31⟩, dir := .right, counts := true, spawn := ⟨4, 29⟩ }]

/-- What is asked about the numbers in a lap, where 100 stands in for the number and
    998 for the bound. -/
def asked : Lap → List Query
  | .first =>
    [.operate '>' 100 998 0, .zero 0, .digit 1, .operate '+' 100 1 101, .zero 0, .print 100]
  | _ => [.operate '>' 100 998 0, .zero 0, .zero 0, .digit 1, .operate '+' 100 1 101, .print 100]

/-- After how many ticks the last dot is about to stop the run, in the lap in which
    the loop ends. -/
def ticksToEnd : Lap → Nat
  | .first => 30
  | .second => 20
  | .third | .later => 18

end Lap

/-! ## Symbolic runs -/

theorem entering_checked : ∀ swapped ∈ [false, true],
    ticks rangeWorld 17 ((entering swapped).map (LoopDot.dot 100 999)) =
      some ((Lap.first.dots swapped).map (LoopDot.dot 100 998),
        [.digit 1, .operate '-' 999 1 998]) := by
  decide +kernel

theorem lap_checked : ∀ lap ∈ Lap.all, ∀ swapped ∈ [false, true],
    ticks rangeWorld 34 ((lap.dots swapped).map (LoopDot.dot 100 998)) =
      some ((lap.next.dots swapped).map (LoopDot.dot 101 998), lap.asked) := by
  decide +kernel

theorem leaving_checked : ∀ lap ∈ Lap.all, ∀ swapped ∈ [false, true],
    ticks rangeWorld lap.ticksToEnd ((lap.dots swapped).map (LoopDot.dot 1000 998)) =
      some ([leaving].map (LoopDot.dot 1000 998),
        [.operate '>' 1000 998 1, .zero 1, .zero 1]) := by
  decide +kernel

/-- Landmarks of the world: it is built, the loop is used at one place and no other,
    and there is a cell that stops the run. -/
theorem rangeWorld_landmarks :
    (World.build ⟨⟨[]⟩, []⟩ rangeProgram).toOption.isSome = true ∧
      rangeWorld.isAlias ⟨7, 4⟩ = true ∧
      ((World.located rangeWorld.rows).all fun (p, c) =>
        c.kind.role? != some .entrance || p == ⟨7, 4⟩) = true ∧
      ((rangeWorld.cell? ⟨9, 7⟩).any fun c => c.glyph == '&' && !c.kind.isOperator) = true := by
  decide +kernel

/-! ## Numbers -/

/-- The numbers that the stand-ins stand for: the number of the lap and the one after
    it, and the bound.  The loop compares with the number before the bound. -/
def standsFor (i bound n : Int) : Int :=
  if n = 100 ∨ n = 1000 then i
  else if n = 101 then i + 1
  else if n = 998 then bound - 1
  else if n = 999 then bound
  else n

section holds
variable {i bound : Int}

theorem entering_holds : ∀ q ∈ [Query.digit 1, .operate '-' 999 1 998],
    q.Holds (standsFor i bound) := by
  have hsub : (Query.operate '-' 999 1 998).Holds (standsFor i bound) :=
    Query.holds_sub (by simp [standsFor])
  have hdigit : (Query.digit 1).Holds (standsFor i bound) := by simp [Query.Holds, standsFor]
  simp [hsub, hdigit]

/-- As long as the number is below the bound, it is not beyond the one before. -/
theorem asked_holds (h : i < bound) (lap : Lap) : ∀ q ∈ lap.asked, q.Holds (standsFor i bound) := by
  have hgt : (Query.operate '>' 100 998 0).Holds (standsFor i bound) := by
    have hle : compare i (bound - 1) ≠ .gt := by
      rw [ne_eq, compare_gt_iff_gt]
      omega
    exact Query.holds_gt (by simp [standsFor, hle])
  have hadd : (Query.operate '+' 100 1 101).Holds (standsFor i bound) :=
    Query.holds_add (by simp [standsFor])
  have hzero : (Query.zero 0).Holds (standsFor i bound) := by simp [Query.Holds, standsFor]
  have hdigit : (Query.digit 1).Holds (standsFor i bound) := by simp [Query.Holds, standsFor]
  have hprint : (Query.print 100).Holds (standsFor i bound) := trivial
  cases lap <;> simp [Lap.asked, hgt, hadd, hzero, hdigit, hprint]

theorem leaving_holds (h : bound ≤ i) : ∀ q ∈ [Query.operate '>' 1000 998 1, .zero 1, .zero 1],
    q.Holds (standsFor i bound) := by
  have hgt : (Query.operate '>' 1000 998 1).Holds (standsFor i bound) := by
    have hmore : compare i (bound - 1) = .gt := by
      rw [compare_gt_iff_gt]
      omega
    exact Query.holds_gt (by simp [standsFor, hmore])
  have hzero : (Query.zero 1).Holds (standsFor i bound) := by simp [Query.Holds, standsFor]
  simp [hgt, hzero]

theorem printed_asked (lap : Lap) : printed (standsFor i bound) lap.asked = [i] := by
  cases lap <;> simp [Lap.asked, printed, standsFor]

end holds

/-! ## Scenes of the loop -/

theorem LoopDot.models_iff {ρ : Int → Int} {n bound : Int} {p : LoopDot} {e : Dot} :
    (p.dot n bound).Models ρ e ↔ (p.dot (ρ n) (ρ bound)).Models id e := by
  have hvalue : (∃ k, (p.dot n bound).value = .int k ∧ e.value = .int (ρ k)) ↔
      ∃ k, (p.dot (ρ n) (ρ bound)).value = .int k ∧ e.value = .int (id k) := by
    cases hcounts : p.counts <;> simp [LoopDot.dot, hcounts]
  constructor
  · intro h
    exact ⟨h.pos, h.dir, h.phase, h.stack, hvalue.mp h.value⟩
  · intro h
    exact ⟨h.pos, h.dir, h.phase, h.stack, hvalue.mpr h.value⟩

theorem models_loopDots_iff {ρ : Int → Int} {n bound : Int} {loopDots : List LoopDot}
    {actual : List Dot} :
    List.Forall₂ (Dot.Models ρ) (loopDots.map (LoopDot.dot n bound)) actual ↔
      List.Forall₂ (Dot.Models id) (loopDots.map (LoopDot.dot (ρ n) (ρ bound))) actual := by
  rw [List.forall₂_map_left_iff, List.forall₂_map_left_iff]
  constructor
  · exact List.Forall₂.imp fun _ _ h => LoopDot.models_iff.mp h
  · exact List.Forall₂.imp fun _ _ h => LoopDot.models_iff.mpr h

/-- The scene has these dots, with the number that is counted up and
    the bound that it is compared with. -/
structure SceneOf (loopDots : List LoopDot) (n bound : Int) (s : Scene) : Prop where
  takes : s.console.Takes
  dots : List.Forall₂ (Dot.Models id) (loopDots.map (LoopDot.dot n bound)) s.dots

/-- What has been computed with stand-ins happens with the numbers themselves. -/
theorem SceneOf.concludes {ρ : Int → Int} {w : World} {m : Nat} {loopDots loopDots' : List LoopDot}
    {n bound n' bound' : Int} {qs : List Query} {ns : List Int} {s : Scene}
    (hticks : ticks w m (loopDots.map (LoopDot.dot n bound)) =
      some (loopDots'.map (LoopDot.dot n' bound'), qs))
    (hholds : ∀ q ∈ qs, q.Holds ρ) (h : SceneOf loopDots (ρ n) (ρ bound) s)
    (hrest : ∀ t : Scene, SceneOf loopDots' (ρ n') (ρ bound') t → Concludes w ns t) :
    Concludes w (printed ρ qs ++ ns) s := by
  have hconf := loop_conforms hticks hholds h.takes (models_loopDots_iff.mpr h.dots)
  apply Concludes.of_conforms hconf
  intro t ht htakes
  exact hrest t ⟨htakes, models_loopDots_iff.mp ht⟩

/-- The dot that has left the loop stops the run. -/
theorem leaving_concludes {n bound : Int} {s : Scene} (h : SceneOf [leaving] n bound s) :
    Concludes rangeWorld [] s := by
  obtain ⟨e, he, hdots⟩ : ∃ e : Dot, (leaving.dot n bound).Models id e ∧ s.dots = [e] := by
    have hone := h.dots
    generalize s.dots = actual at hone
    cases hone with
    | cons he hnil =>
      cases hnil
      exact ⟨_, he, rfl⟩
  obtain ⟨c, hc, hglyph, hplain⟩ : ∃ c, rangeWorld.cell? e.pos = some c ∧ c.glyph = '&' ∧
      c.kind.isOperator = false := by
    have hpos : e.pos = ⟨9, 7⟩ := he.pos
    rw [hpos]
    obtain ⟨-, -, -, hexit⟩ := rangeWorld_landmarks
    simpa [Option.any_eq_true] using hexit
  refine ⟨1, .exit, { s with dots := [{ e with phase := .exit }] }, ?_, h.takes.refl, rfl,
    { e with phase := .exit }, List.mem_singleton_self _, rfl, ?_⟩
  · rw [Machine.loop_of_dots (by simp [hdots])]
    exact bind_of_error (tick_of_exit hdots he.phase hc hglyph hplain)
  · show rangeWorld.hasGlyph e.pos '&' = true
    simp [World.hasGlyph, hc, hglyph]

theorem range_cons {i bound : Int} (h : i < bound) :
    Int.range i bound = [i] ++ Int.range (i + 1) bound := by
  unfold Int.range
  rw [show (bound - i).toNat = (bound - (i + 1)).toNat + 1 by omega, List.range_succ_eq_map,
    List.map_cons, List.map_map, List.singleton_append]
  congr 1
  · simp
  · apply List.map_congr_left
    intro k _
    simp
    omega

theorem range_nil {i bound : Int} (h : bound ≤ i) : Int.range i bound = [] := by
  unfold Int.range
  rw [Int.toNat_of_nonpos (by omega)]
  rfl

theorem range_append {i n bound : Int} (hi : i ≤ n) (hn : n ≤ bound) :
    Int.range i bound = Int.range i n ++ Int.range n bound := by
  induction hk : (n - i).toNat generalizing i with
  | zero =>
    obtain rfl : i = n := by omega
    rw [range_nil (Int.le_refl i), List.nil_append]
  | succ k ih =>
    rw [range_cons (show i < bound by omega), range_cons (show i < n by omega),
      ih (by omega) (by omega), List.append_assoc]

/-- The loop counts on from any lap.  The induction is on how far the number is from
    the bound. -/
theorem lap_concludes {lap : Lap} {swapped : Bool} {i bound : Int} {s : Scene}
    (h : SceneOf (lap.dots swapped) i (bound - 1) s) :
    Concludes rangeWorld (Int.range i bound) s := by
  induction hk : (bound - i).toNat generalizing lap i s with
  | zero =>
    -- The number is beyond the one before the bound, and the loop ends.
    have hle : bound ≤ i := by omega
    have hticks := leaving_checked lap lap.mem_all swapped (by simp)
    rw [range_nil hle]
    exact SceneOf.concludes (ρ := standsFor i bound) hticks (leaving_holds hle) h
      fun t ht => leaving_concludes ht
  | succ k ih =>
    -- The number is printed, and the next lap has the one after it.
    have hlt : i < bound := by omega
    have hticks := lap_checked lap lap.mem_all swapped (by simp)
    rw [range_cons hlt, ← printed_asked lap]
    refine SceneOf.concludes (ρ := standsFor i bound) hticks (asked_holds hlt lap) h ?_
    intro t ht
    have hnext : SceneOf (lap.next.dots swapped) (i + 1) (bound - 1) t := ht
    exact ih hnext (by omega)

theorem entering_concludes {swapped : Bool} {a b : Int} {s : Scene}
    (h : SceneOf (entering swapped) a b s) : Concludes rangeWorld (Int.range a b) s := by
  have hticks := entering_checked swapped (by simp)
  exact SceneOf.concludes (ρ := standsFor a b) hticks entering_holds h
    fun t ht => lap_concludes ht

end RangeLoop

/-! ## The run -/

open RangeLoop

theorem build_range : World.build ⟨⟨[]⟩, []⟩ rangeProgram = .ok rangeWorld := by
  unfold rangeWorld
  exact World.build_of_isSome rangeWorld_landmarks.1

/-- The loop is used at one place. -/
theorem alias_eq {p : Pos} (h : rangeWorld.isAlias p = true) : p = ⟨7, 4⟩ := by
  obtain ⟨c, hc, hrole⟩ := Option.any_eq_true _ _ |>.mp h
  obtain ⟨-, -, hothers, -⟩ := rangeWorld_landmarks
  have hone := List.all_eq_true.mp hothers (p, c) (World.mem_located hc)
  simpa [beq_iff_eq.mp hrole] using hone

/-- The dot is one step away from the position, with the number `n` and outside of any
    library. -/
structure Dot.ComesTo (d : Dot) (p dir : Pos) (n : Int) : Prop where
  pos : d.pos + dir = p
  dir : d.dir = dir
  value : d.value = .int n
  phase : d.phase = .travel
  stack : d.stack = []

theorem eq_of_add_eq {p q r dir : Pos} (h : p + dir = r) (hq : q + dir = r) : p = q := by
  have hsum := h.trans hq.symm
  have hx : p.x + dir.x = q.x + dir.x := congrArg Pos.x hsum
  have hy : p.y + dir.y = q.y + dir.y := congrArg Pos.y hsum
  obtain ⟨x, y⟩ := p
  obtain ⟨x', y'⟩ := q
  simp only [Pos.mk.injEq]
  simp only at hx hy
  omega

namespace Machine

variable {m : Machine} {p : Pos} {d e : Dot} {a b : Int}

theorem plays_entering (hp : rangeWorld.isAlias p = true) (hd : d.ComesTo p .right a)
    (he : e.ComesTo p .left b) (hconsole : m.scene.console.Takes)
    (hdots : m.scene.dots = [d, e] ∨ m.scene.dots = [e, d]) :
    ∃ swapped, SceneOf (entering swapped) a b m.scene := by
  obtain rfl := alias_eq hp
  have hdpos : d.pos = ⟨6, 4⟩ := eq_of_add_eq hd.pos rfl
  have hepos : e.pos = ⟨8, 4⟩ := eq_of_add_eq he.pos rfl
  have hcounter : (LoopDot.dot a b { pos := ⟨6, 4⟩, dir := .right, counts := true, stack := [] }).Models
      id d := ⟨hdpos, hd.dir, hd.phase, hd.stack, a, rfl, hd.value⟩
  have hbound : (LoopDot.dot a b { pos := ⟨8, 4⟩, dir := .left, counts := false, stack := [] }).Models
      id e := ⟨hepos, he.dir, he.phase, he.stack, b, rfl, he.value⟩
  rcases hdots with hdots | hdots
  · refine ⟨false, hconsole, ?_⟩
    rw [hdots]
    exact .cons hcounter (.cons hbound .nil)
  · refine ⟨true, hconsole, ?_⟩
    rw [hdots]
    exact .cons hbound (.cons hcounter .nil)

theorem range_concludes (hworld : World.build ⟨⟨[]⟩, []⟩ rangeProgram = .ok m.world)
    (hconsole : m.scene.console.Takes) (hp : m.world.isAlias p = true)
    (hd : d.ComesTo p .right a) (he : e.ComesTo p .left b)
    (hdots : m.scene.dots = [d, e] ∨ m.scene.dots = [e, d]) :
    Concludes m.world (Int.range a b) m.scene := by
  have hsame : m.world = rangeWorld := Except.ok.inj (hworld.symm.trans build_range)
  rw [hsame] at hp ⊢
  obtain ⟨swapped, hplays⟩ := plays_entering hp hd he hconsole hdots
  exact entering_concludes hplays

/-- Two dots come to the loop from its two sides, with the numbers `a` and `b`.  If
    all the numbers from `a` to the one before `b` can be written, the run prints
    them in this order, each on its line, and comes to a cell that stops it.
    Otherwise it prints those before the first that cannot be written, and stops with
    a fault there. -/
theorem range_counts (hworld : World.build ⟨⟨[]⟩, []⟩ rangeProgram = .ok m.world)
    (hparallel : m.parallel = true) (hgo : m.shutdown = false)
    (hconsole : m.scene.console.Takes) (hp : m.world.isAlias p = true)
    (hd : d.ComesTo p .right a) (he : e.ComesTo p .left b)
    (hdots : m.scene.dots = [d, e] ∨ m.scene.dots = [e, d]) :
    ∃ fuel why t, (run fuel m).2 = some why ∧
      loop m.world m.parallel fuel m.scene = .error why t ∧
      ((∀ n, a ≤ n → n < b → Integer.isTooLong n = false) →
        why = .exit ∧ (∃ x ∈ t.dots, x.phase = .exit ∧ m.world.hasGlyph x.pos '&' = true) ∧
        t.console.outputs.reverse =
          m.scene.console.outputs.reverse ++ (Int.range a b).map line) ∧
      ∀ n, a ≤ n → n < b → Integer.isTooLong n = true →
        (∀ k, a ≤ k → k < n → Integer.isTooLong k = false) →
        why = .fault (.arith .tooManyDigits) ∧
        t.console.outputs.reverse =
          m.scene.console.outputs.reverse ++ (Int.range a n).map line := by
  obtain ⟨fuel, why, t, hloop, htook, hend⟩ :=
    range_concludes hworld hconsole hp hd he hdots
  have hloop' : loop m.world m.parallel fuel m.scene = .error why t := by
    rw [hparallel]
    exact hloop
  have houtputs : t.console.outputs.reverse =
      m.scene.console.outputs.reverse ++ (lines (Int.range a b)).1 := by
    rw [htook.outputs, List.reverse_append, List.reverse_reverse]
  refine ⟨fuel, why, t, run_of_loop hgo hloop' htook.takes, hloop', ?_, ?_⟩
  · intro hshort
    have hlines : lines (Int.range a b) = ((Int.range a b).map line, none) := by
      apply lines_of_short
      intro n hn
      obtain ⟨ha, hb⟩ := Int.mem_range_iff.mp hn
      exact hshort n ha hb
    rw [hlines] at hend houtputs
    exact ⟨hend.1, hend.2, houtputs⟩
  · intro n ha hb hlong hfirst
    -- The numbers before the first long one are printed, and no number after it.
    have hlines : lines (Int.range a b) = ((Int.range a n).map line, some .tooManyDigits) := by
      rw [range_append ha (by omega), range_cons hb]
      apply lines_of_long _ hlong
      intro k hk
      obtain ⟨hak, hkn⟩ := Int.mem_range_iff.mp hk
      exact hfirst k hak hkn
    rw [hlines] at hend houtputs
    exact ⟨hend, houtputs⟩

/-- A dot that comes to the loop. -/
def comer (pos dir : Pos) (n id : Int) : Dot :=
  { pos := pos, spawn := pos, dir := dir, value := .int n, id := .int id }

/-- A machine in which two dots come to the loop. -/
def rangeMachine (a b : Int) : Machine :=
  { world := rangeWorld, parallel := true,
    scene := { dots := [comer ⟨8, 4⟩ .left b 7, comer ⟨6, 4⟩ .right a 5],
               console := Console.start .recorder 0 0 [] [] [] } }

theorem rangeMachine_takes (a b : Int) : (rangeMachine a b).scene.console.Takes where
  calm := ⟨rfl, fun _ h => nomatch h⟩
  unlimited := rfl
  serves := fun h => nomatch h

theorem range_counts_across_zero :
    ∃ fuel t, (run fuel (rangeMachine (-1) 2)).2 = some .exit ∧
      loop rangeWorld true fuel (rangeMachine (-1) 2).scene = .error .exit t ∧
      t.console.outputs.reverse = ["-1\n", "0\n", "1\n"] := by
  obtain ⟨fuel, why, t, hrun, hloop, hshort, -⟩ :=
    range_counts (m := rangeMachine (-1) 2) (p := ⟨7, 4⟩) (d := comer ⟨6, 4⟩ .right (-1) 5)
      (e := comer ⟨8, 4⟩ .left 2 7) build_range rfl rfl (rangeMachine_takes _ _)
      rangeWorld_landmarks.2.1 ⟨rfl, rfl, rfl, rfl, rfl⟩ ⟨rfl, rfl, rfl, rfl, rfl⟩ (.inr rfl)
  have hwritten : ∀ n : Int, -1 ≤ n → n < 2 → Integer.isTooLong n = false := by decide +kernel
  obtain ⟨rfl, -, houtputs⟩ := hshort hwritten
  refine ⟨fuel, t, hrun, hloop, ?_⟩
  have hlines : (Int.range (-1) 2).map line = ["-1\n", "0\n", "1\n"] := by decide +kernel
  rw [houtputs, hlines]
  rfl

/-- If the first number cannot be written, nothing is printed. -/
theorem rangeMachine_faults {n : Int} (h : Integer.isTooLong n = true) :
    ∃ fuel t, (run fuel (rangeMachine n (n + 1))).2 = some (.fault (.arith .tooManyDigits)) ∧
      loop rangeWorld true fuel (rangeMachine n (n + 1)).scene =
        .error (.fault (.arith .tooManyDigits)) t ∧
      t.console.outputs = [] := by
  have hlines : lines (Int.range n (n + 1)) = ([], some .tooManyDigits) := by
    rw [range_cons (by omega), List.singleton_append]
    exact lines_cons_error (text_of_long h) _
  obtain ⟨fuel, why, t, hloop, htook, hend⟩ :=
    range_concludes (m := rangeMachine n (n + 1)) (p := ⟨7, 4⟩)
      (d := comer ⟨6, 4⟩ .right n 5) (e := comer ⟨8, 4⟩ .left (n + 1) 7) build_range
      (rangeMachine_takes _ _) rangeWorld_landmarks.2.1 ⟨rfl, rfl, rfl, rfl, rfl⟩
      ⟨rfl, rfl, rfl, rfl, rfl⟩ (.inr rfl)
  rw [hlines] at htook hend
  obtain rfl : why = .fault (.arith .tooManyDigits) := hend
  exact ⟨fuel, t, run_of_loop rfl hloop htook.takes, hloop, htook.outputs⟩

/-- The number has 4301 digits.  It is not printed, and the run does not come to the
    cell that stops it. -/
theorem range_may_fault :
    ∃ fuel t, (run fuel (rangeMachine (-tenTo 4300) (-tenTo 4300 + 1))).2 =
        some (.fault (.arith .tooManyDigits)) ∧
      loop rangeWorld true fuel (rangeMachine (-tenTo 4300) (-tenTo 4300 + 1)).scene =
        .error (.fault (.arith .tooManyDigits)) t ∧
      t.console.outputs = [] := by
  have hlong : Integer.isTooLong (-tenTo 4300) = true := by
    show decide (tenTo 4300 ≤ (-((tenTo 4300 : Nat) : Int)).natAbs) = true
    rw [Int.natAbs_neg, Int.natAbs_natCast]
    exact decide_eq_true (Nat.le_refl _)
  exact rangeMachine_faults hlong

end Machine

end DotPaths
