import DotPaths.Proofs.Specimens

/-! # Negation with the neg library

    A dot that goes into the library `neg.dots` comes out on the other side, with the
    opposite of its value.  Inside it is copied; the copy takes up a zero, waits for
    the original at an operator and has it subtracted.  The way is another one for
    each of the four directions, but it always takes as long.

    The way is computed once for each direction, at a specimen of the library and
    with a number that stands in for the value.
-/

namespace DotPaths

open World Symbolic

/-- The text of the library. -/
def negText : List Char := Text.joinWith '\n' (Library.neg.map String.toList)

namespace Negation

/-- The library in a world of its own. -/
@[irreducible] def negWorld : World := specimenWorld "neg.dots"

/-- Its rows there. -/
abbrev negRows : Region := band 2 24

/-- Where dots come in and go out. -/
def exposedCell : Pos := ⟨2, 8⟩

/-- A dot that has come in, with the value 100. -/
def entering (dir : Pos) : Dot :=
  { pos := exposedCell + dir, spawn := ⟨0, 0⟩, dir := dir, value := .int 100, stack := [⟨0, 1⟩] }

/-- The dot that is about to go out. -/
def leaving (v : Int) (dir : Pos) : Dot := { entering dir with pos := exposedCell, value := .int v }

/-- The way through the library. -/
def way (dir : Pos) : Way where
  start := entering dir
  length := 16
  comes _ := []
  outs k := if k = 15 then [leaving (-100) dir] else []
  ends := []
  waits := [⟨1, 19⟩, ⟨6, 12⟩]
  asked := [.digit 0, .operate '-' 0 100 (-100)]

/-- Nobody leaves the way inside of the library. -/
abbrev nowhere (_ : Pos) : Bool := false

/-! ## Symbolic runs -/

theorem neg_specimen : Specimen negWorld negText exposedCell := by
  unfold negWorld
  exact specimen_of_isSpecimen (by decide +kernel)

theorem rowsOf_negText : (rowsOf negText).length = 24 := by decide +kernel

theorem ways_checked : ∀ dir ∈ Pos.directions,
    (way dir).isChecked negWorld negRows nowhere = true := by
  decide +kernel

/-- The first row of the library is blank. -/
theorem first_row_blank : (negWorld.rows[2]?).any (·.all Cell.isBlank) = true := by
  decide +kernel

/-! ## Numbers -/

/-- The numbers that the stand-ins stand for. -/
def standsFor (v n : Int) : Int := if n = 100 then v else if n = -100 then -v else n

theorem asked_holds (v : Int) (dir : Pos) : ∀ q ∈ (way dir).asked, q.Holds (standsFor v) := by
  have hdigit : (Query.digit 0).Holds (standsFor v) := by simp [Query.Holds, standsFor]
  have hsub : (Query.operate '-' 0 100 (-100)).Holds (standsFor v) :=
    Query.holds_sub (by simp [standsFor])
  simp [way, hdigit, hsub]

/-! ## The way through the library -/

section plan
variable {w : World} {R : Region} {v : Int} {dir : Pos}

/-- The dots in the library before each tick.  In the first tick the dot comes in. -/
def dots (v : Int) (dir : Pos) : Nat → List Dot
  | 0 => []
  | k + 1 => (way dir).dots negWorld negRows nowhere (standsFor v) k

theorem dots_succ (v : Int) (dir : Pos) (k : Nat) :
    dots v dir (k + 1) = (way dir).dots negWorld negRows nowhere (standsFor v) k := rfl

theorem dots_end (hdir : dir ∈ Pos.directions) : dots v dir 17 = [] := by
  rw [dots_succ]
  exact Way.dots_end (ways_checked dir hdir) (Nat.succ_pos 15)

/-- Only in the last tick somebody goes out. -/
theorem outs_way (v : Int) (dir : Pos) (k : Nat) :
    ((way dir).outs k).map (Dot.valued (standsFor v)) =
      if k + 1 = 16 then [leaving (-v) dir] else [] := by
  show (if k = 15 then _ else _ : List Dot).map _ = _
  by_cases hk : k = 15
  · rw [if_pos hk, if_pos (by omega)]
    rfl
  · rw [if_neg hk, if_neg (by omega)]
    rfl

/-- The plan for the 17 ticks. -/
def plan (S : Embedding negWorld negRows w R) (v : Int) (hmemory : ∀ stack, S.memory stack ≠ [])
    (hdir : dir ∈ Pos.directions) : S.Plan 17 where
  dots := dots v dir
  enter j := if j = 0 then [(entering dir).valued (standsFor v)] else []
  outs j := if j = 16 then [leaving (-v) dir] else []
  start := rfl
  steps := by
    intro j hj
    cases j with
    | zero => exact ⟨[], fun _ => False, .nil, .refl _⟩
    | succ k =>
      have hstep := Way.step (ways_checked dir hdir) (show k < 16 by omega) S.ids_orZero
        (asked_holds v dir)
      rw [outs_way] at hstep
      refine ⟨_, _, hstep, ?_⟩
      rw [if_neg (Nat.succ_ne_zero k), List.append_nil]
      show (dots v dir (k + 1 + 1)).Perm (_ ++ [])
      rw [List.append_nil, dots_succ]
  remember := fun _ _ o _ => hmemory o.stack

end plan

section passing
variable {w : World} {R : Region} {p : Pos} {d : Dot} {v i : Int} {top : Nat}

/-- All dots in the library remember the alias `p`, and all have the id `i`. -/
def embedding {δ : Pos} (h : Replica negWorld negRows w R δ) (p : Pos) (stack : List Pos)
    (i : Int) :
    Embedding negWorld negRows w R where
  shift := δ
  memory _ := p :: stack
  ids _ a := a = .int i
  ids_orZero := by
    rintro _ _ rfl
    exact Number.orZero_int i
  replica := h

/-- Nobody lives on the first row of the library. -/
theorem lost_on_first_row (h : Replica negWorld negRows w R (offset 2 top)) {x : Dot}
    (hy : x.pos.y = top) (hphase : x.phase = .travel) : Turn.isLost w x = true := by
  have hpos : x.pos = ⟨x.pos.x, 2⟩ + offset 2 top := by
    obtain ⟨⟨a, b⟩, _, _, _, _, _, _⟩ := x
    obtain rfl : b = top := hy
    show Pos.mk a top = Pos.mk (a + 0) (2 + ((top : Int) - 2))
    rw [Int.add_zero, Int.add_comm, Int.sub_add_cancel]
  have hrow : negRows ⟨x.pos.x, 2⟩ = true := rfl
  unfold Turn.isLost
  rw [hpos, hphase]
  cases hc : negWorld.cell? ⟨x.pos.x, 2⟩ with
  | none => rw [h.cell_of_none hrow hc]
  | some c =>
    obtain ⟨c', hc', hcc⟩ := h.cell_of_some hrow hc
    -- All cells of the row are blank, in the specimen and so here.
    have hblank : c.isBlank = true := by
      obtain ⟨row, hrow₂, hall⟩ := (Option.any_eq_true _ _).mp first_row_blank
      unfold World.cell? at hc
      split at hc
      · cases hc
      · obtain ⟨row', hrow', hmem⟩ := Option.bind_eq_some_iff.mp hc
        cases hrow₂.symm.trans hrow'
        exact List.all_eq_true.mp hall c (List.mem_of_getElem? hmem)
    rw [hc']
    show (c'.isBlank && true) = true
    rw [hcc.isBlank, hblank]
    rfl

/-- Who goes out is not in the rows of the library after that. -/
theorem leaver_outside (h : Replica negWorld negRows w R (offset 2 top)) (hrows : R = band top 24)
    (habove : p.y < top) {stack : List Pos} {o d' : Dot} (hdir : o.dir ∈ Pos.directions)
    (hphase : o.phase = .travel) (hleaves : (embedding h p stack i).Leaves o d') :
    d'.isIn R = false := by
  by_cases hout : R (p + o.dir) = false
  · exact hleaves.isIn_false rfl hout
  · -- Then the dot goes down, from the row above the library.
    obtain ⟨x, rfl, hpos, -, -, hxphase, -⟩ := hleaves.exists_settled rfl
    have hy : x.pos.y = top := by
      rw [hrows, band, Bool.not_eq_false, decide_eq_true_eq, Pos.add_y] at hout
      have hdown : o.dir.y ≤ 1 := by
        have hall : ∀ dir ∈ Pos.directions, dir.y ≤ 1 := by decide
        exact hall _ hdir
      rw [hpos, Pos.add_y]
      omega
    have hlost := lost_on_first_row h hy (hxphase.trans hphase)
    unfold Dot.settled
    rw [hlost]
    simp [Dot.isIn, Dot.isDead, Dot.die, Phase.isDead]

/-- A dot that goes in is all who comes in. -/
theorem comers_represented (h : Replica negWorld negRows w R (offset 2 top))
    (hdir : d.dir ∈ Pos.directions)
    (hvalue : d.value = .int v) (hid : d.id = .int i) {run : Machine.Stretch w 17}
    (hleads : (embedding h p d.stack i).Leads p exposedCell) (hvisits : run.Visits R p [(0, d)])
    {j : Nat} (hj : j < 17) :
    (embedding h p d.stack i).Represents
      (if j = 0 then [(entering d.dir).valued (standsFor v)] else []) (run.comers R j) := by
  obtain ⟨-, hinto⟩ := hvisits.enter (0, d) (List.mem_singleton_self _)
  obtain ⟨hpos, hphase, -⟩ := Dot.deed_of_into hinto
  by_cases hzero : j = 0
  · subst hzero
    rw [if_pos rfl]
    refine hleads.represents_comers hvisits hj (.cons ?_ .nil) (List.nodup_singleton _)
    exact {
      pos := rfl
      dir := rfl
      phase := hphase.symm
      value := ⟨v, rfl, hvalue⟩
      memory := by
        show p :: d.stack = d.pos :: d.stack
        rw [hpos]
      id := hid
      lands := Way.lands_of_start (ways_checked d.dir hdir) rfl rfl }
  · rw [if_neg hzero]
    refine hleads.represents_comers hvisits hj ?_ List.nodup_nil
    have hnone : ([(0, d)] : List (Nat × Dot)).filter (·.1 == j) = [] := by
      simpa using fun h => hzero h.symm
    rw [hnone]
    exact .nil

/-- The dot goes through the library. -/
theorem goes_through (h : Replica negWorld negRows w R (offset 2 top)) (hrows : R = band top 24)
    (habove : p.y < top) (hdir : d.dir ∈ Pos.directions) (hvalue : d.value = .int v)
    (hid : d.id = .int i) (hleads : (embedding h p d.stack i).Leads p exposedCell)
    (run : Machine.Stretch w 17) (hvisits : run.Visits R p [(0, d)]) :
    run.departures R = [⟨p + d.dir, d.dir, .int (-v), .int i, d.stack⟩] ∧
      inside R (run.before 17).dots = [] := by
  have hmemory : ∀ stack, (embedding h p d.stack i).memory stack ≠ [] :=
    fun _ => List.cons_ne_nil _ _
  let P := plan (embedding h p d.stack i) v hmemory hdir
  have hcomers : ∀ j, j < 17 → (embedding h p d.stack i).Represents (P.enter j) (run.comers R j) :=
    fun j hj => comers_represented h hdir hvalue hid hleads hvisits hj
  -- By the plan one dot goes out, in the last tick.
  have houts : ∀ j, ∀ o ∈ P.outs j, o = leaving (-v) d.dir := by
    intro j o ho
    have ho : o ∈ if j = 16 then [leaving (-v) d.dir] else [] := ho
    split at ho
    · exact List.mem_singleton.mp ho
    · cases ho
  have hrepr : ∀ j, j ≤ 17 → (embedding h p d.stack i).Represents (P.dots j)
      (inside R (run.before j).dots) := by
    intro j hj
    apply P.represents hvisits.empty hcomers hj
    intro k _ o ho d' hleaves
    have hodir : o.dir ∈ Pos.directions := by
      rw [houts k o ho]
      exact hdir
    have hophase : o.phase = .travel := by
      rw [houts k o ho]
      rfl
    exact leaver_outside h hrows habove hodir hophase hleaves
  constructor
  · have hdepartures : run.departures R = (List.range 17).flatMap fun j => (P.outs j).map fun _ =>
        ⟨p + d.dir, d.dir, .int (-v), .int i, d.stack⟩ := by
      apply P.departures _ _ _ hcomers fun j hj => hrepr j (by omega)
      · intro j _
        show (if j = 16 then _ else _ : List Dot).length ≤ 1
        split
        · exact Nat.le_refl 1
        · exact Nat.zero_le 1
      · intro j _ o ho d' hleaves
        rw [houts j o ho] at hleaves
        obtain ⟨hids, hdeparture⟩ := hleaves.departure rfl rfl
        rw [hdeparture, show d'.id = .int i from hids]
        rfl
    rw [hdepartures]
    rfl
  · have hend := hrepr 17 (Nat.le_refl 17)
    rw [show P.dots = dots v d.dir from rfl, dots_end hdir] at hend
    exact Embedding.eq_nil_of_represents hend

end passing

end Negation

namespace Machine

open Negation

/-- Whenever the dot `d` goes by the alias at `p` into the library in the rows `R`, and
    nobody else is there for `n` ticks, one dot has gone out after them, which is so,
    and there is nobody left. -/
def GoesThrough (w : World) (R : Region) (p : Pos) (n : Nat) (d : Dot) (e : Departure) : Prop :=
  ∀ run : Stretch w n, run.Visits R p [(0, d)] →
    run.departures R = [e] ∧ inside R (run.before n).dots = []

theorem goesThrough_neg {shelf : Shelf} {program : String} {w : World} {uses : List FileUse}
    {p : Pos} {a : OpenWarp} {d : Dot} {v i : Int} (hbuild : build shelf program = .ok w)
    (huses : IsExpansion shelf program.toList uses) (ha : LibraryAlias w uses negText p a)
    (hdir : d.dir ∈ Pos.directions) (hvalue : d.value = .int v) (hid : d.id = .int i) :
    GoesThrough w (a.libraryRows uses) p 17 d
      ⟨p + d.dir, d.dir, .int (-v), .int i, d.stack⟩ := by
  obtain ⟨top, hreplica, hrows, htarget, habove⟩ := neg_specimen.replica hbuild huses ha
  have hleads : (embedding (rowsOf_negText ▸ hreplica) p d.stack i).Leads p exposedCell :=
    ha.leads hrows htarget habove
  rw [rowsOf_negText] at hreplica hrows
  intro run hvisits
  exact goes_through hreplica hrows habove hdir hvalue hid hleads run hvisits

/-- A dot with an integer `v` as its value and an integer as its id comes to an alias
    for the library, in any of the four directions, and goes in.  Then after 17 ticks
    one dot has gone out by the same alias in the same direction, with the value `-v`,
    and with the id and the memory with which the dot came; and nobody is left in the
    library.  Whoever goes through the library with this value leaves it with `v`. -/
theorem neg_negates {shelf : Shelf} {program : String} {w : World} {uses : List FileUse}
    {p : Pos} {a : OpenWarp} {d : Dot} {v i : Int} (hbuild : build shelf program = .ok w)
    (huses : IsExpansion shelf program.toList uses) (ha : LibraryAlias w uses negText p a)
    (hdir : d.dir ∈ Pos.directions) (hvalue : d.value = .int v) (hid : d.id = .int i) :
    GoesThrough w (a.libraryRows uses) p 17 d
        ⟨p + d.dir, d.dir, .int (-v), .int i, d.stack⟩ ∧
      ∀ p' a' d', LibraryAlias w uses negText p' a' → d'.dir ∈ Pos.directions →
        d'.value = .int (-v) → d'.id = .int i →
        GoesThrough w (a'.libraryRows uses) p' 17 d'
          ⟨p' + d'.dir, d'.dir, .int v, .int i, d'.stack⟩ := by
  refine ⟨goesThrough_neg hbuild huses ha hdir hvalue hid, ?_⟩
  intro p' a' d' ha' hdir' hvalue' hid'
  have hback := goesThrough_neg hbuild huses ha' hdir' hvalue' hid'
  rw [Int.neg_neg] at hback
  exact hback

/-! ## Twice through the library -/

/-- The expansion of a program that uses the library alone. -/
theorem isExpansion_neg {program : String} {c : Char} (haliases : aliasesUsed program.toList = [c])
    (hfile : fileFor? program.toList c = some "neg.dots") :
    IsExpansion ⟨⟨[]⟩, []⟩ program.toList [⟨[], program.toList⟩, ⟨[c], negText⟩] :=
  isExpansion_single haliases hfile (by decide +kernel) (by decide +kernel)

/-- A path with two aliases for the library. -/
def twiceProgram : String := "%!neg.dots n\n-n-n-"

def twiceUses : List FileUse := [⟨[], twiceProgram.toList⟩, ⟨['n'], negText⟩]

@[irreducible] def twiceWorld : World := (build ⟨⟨[]⟩, []⟩ twiceProgram).toOption.getD default

/-- A dot on the first alias. -/
def firstVisitor : Dot :=
  { pos := ⟨1, 1⟩, spawn := ⟨0, 1⟩, dir := .right, value := .int 5, id := .int 7 }

/-- A dot on the second alias.  It was made in the library. -/
def secondVisitor : Dot :=
  { pos := ⟨3, 1⟩, spawn := ⟨2, 11⟩, dir := .right, value := .int (-5), id := .int 7 }

def twiceScene : Scene :=
  { dots := [firstVisitor], console := Console.start .recorder 0 0 [] [] [] }

theorem twice_landmarks :
    aliasesUsed twiceProgram.toList = ['n'] ∧
      fileFor? twiceProgram.toList 'n' = some "neg.dots" ∧
      (build ⟨⟨[]⟩, []⟩ twiceProgram).toOption.isSome = true ∧
      hasEntrance twiceWorld ⟨1, 1⟩ 'n' (fun _ => true) = true ∧
      hasEntrance twiceWorld ⟨3, 1⟩ 'n' (fun _ => true) = true ∧
      (owners twiceUses)[1]? = some [] := by
  decide +kernel

theorem twice_checked :
    isolated twiceWorld (rowsAt twiceUses ['n'])
        ((List.range 17).map fun j => ([(0, firstVisitor)].filter (·.1 == j)).length)
        twiceScene = true ∧
      isolated twiceWorld (rowsAt twiceUses ['n'])
        ((List.range 17).map fun j => ([(0, secondVisitor)].filter (·.1 == j)).length)
        ((nextScene twiceWorld)^[18] twiceScene) = true ∧
      inside (rowsAt twiceUses ['n']) twiceScene.dots = [] ∧
      inside (rowsAt twiceUses ['n']) ((nextScene twiceWorld)^[18] twiceScene).dots = [] ∧
      firstVisitor ∈ (chosenScene twiceWorld twiceScene).dots ∧
      firstVisitor.passage? twiceWorld = some (.into ⟨1, 1⟩) ∧
      secondVisitor ∈ (chosenScene twiceWorld ((nextScene twiceWorld)^[18] twiceScene)).dots ∧
      secondVisitor.passage? twiceWorld = some (.into ⟨3, 1⟩) := by
  decide +kernel

/-- The dot passes the library twice, and has its value again. -/
theorem negated_twice :
    ∃ (w : World) (run run' : Stretch w 17), build ⟨⟨[]⟩, []⟩ twiceProgram = .ok w ∧
      run.before 0 = twiceScene ∧ run'.before 0 = nextScene w (run.before 17) ∧
      run.departures (rowsAt twiceUses ['n']) = [⟨⟨2, 1⟩, .right, .int (-5), .int 7, []⟩] ∧
      run'.departures (rowsAt twiceUses ['n']) = [⟨⟨4, 1⟩, .right, .int 5, .int 7, []⟩] := by
  obtain ⟨haliases, hfile, hbuilt, hfirst, hsecond, howner⟩ := twice_landmarks
  obtain ⟨halone, halone', hempty, hempty', hfirst', hinto, hsecond', hinto'⟩ := twice_checked
  have hbuild : build ⟨⟨[]⟩, []⟩ twiceProgram = .ok twiceWorld := by
    unfold twiceWorld
    exact build_of_isSome hbuilt
  have himported : ⟨[] ++ ['n'], negText⟩ ∈ twiceUses := by simp [twiceUses]
  obtain ⟨v, ha, -⟩ := libraryAlias_of_hasEntrance hfirst howner himported
  obtain ⟨v', ha', -⟩ := libraryAlias_of_hasEntrance hsecond howner himported
  obtain ⟨run, hvisits, hscenes⟩ := exists_visits (p := ⟨1, 1⟩) halone hempty (by
    intro x hx
    rw [List.mem_singleton.mp hx]
    exact ⟨hfirst', hinto⟩)
  obtain ⟨run', hvisits', hscenes'⟩ := exists_visits (p := ⟨3, 1⟩) halone' hempty' (by
    intro x hx
    rw [List.mem_singleton.mp hx]
    exact ⟨hsecond', hinto'⟩)
  obtain ⟨hthrough, hback⟩ := neg_negates (d := firstVisitor) hbuild
    (isExpansion_neg haliases hfile) ha (by decide) rfl rfl
  refine ⟨twiceWorld, run, run', hbuild, ?_, ?_, ?_, ?_⟩
  · exact hscenes 0
  · rw [hscenes, hscenes', Function.iterate_zero_apply, Function.iterate_succ_apply']
  · exact (hthrough run hvisits).1
  · exact (hback ⟨3, 1⟩ _ secondVisitor ha' (by decide) rfl rfl run' hvisits').1

/-! ## An alias that does not let the dot pass -/

/-- The alias for the library is an arrow. -/
def arrowProgram : String := "%!neg.dots ^\n.-#5-^-$#"

def arrowUses : List FileUse := [⟨[], arrowProgram.toList⟩, ⟨['^'], negText⟩]

@[irreducible] def arrowLaunch : Machine × Option Stop :=
  launch ⟨⟨[]⟩, []⟩ arrowProgram true (.start .recorder 0 0 [] [] []) 0

/-- The dot that has come to the alias. -/
def turnedVisitor : Dot :=
  { pos := ⟨5, 1⟩, spawn := ⟨0, 1⟩, dir := .right, value := .int 5 }

theorem arrow_checked :
    (aliasesUsed arrowProgram.toList = ['^'] ∧
        fileFor? arrowProgram.toList '^' = some "neg.dots") ∧
      arrowLaunch.2 = none ∧ hasEntrance arrowLaunch.1.world ⟨5, 1⟩ '^' (fun _ => true) = true ∧
      (owners arrowUses)[1]? = some [] ∧
      deserted arrowLaunch.1.world (rowsAt arrowUses ['^']) 7 arrowLaunch.1.scene = true ∧
      ((nextScene arrowLaunch.1.world)^[5] arrowLaunch.1.scene).dots = [turnedVisitor] ∧
      ((nextScene arrowLaunch.1.world)^[7] arrowLaunch.1.scene).dots = [] := by
  decide +kernel

/-- A dot with the value 5 comes to the alias from the left.  The arrow turns it, so it
    never goes into the library.  It is lost two ticks later; nobody has gone out, and
    there are no dots left. -/
theorem arrow_turns_visitor :
    ∃ m a, launch ⟨⟨[]⟩, []⟩ arrowProgram true (.start .recorder 0 0 [] [] []) 0 = (m, none) ∧
      IsExpansion ⟨⟨[]⟩, []⟩ arrowProgram.toList arrowUses ∧
      LibraryAlias m.world arrowUses negText turnedVisitor.pos a ∧
      ∃ run : Stretch m.world 7, run.before 0 = m.scene ∧ (run.before 5).dots = [turnedVisitor] ∧
        (∀ j, j ≤ 7 → inside (a.libraryRows arrowUses) (run.before j).dots = []) ∧
        run.departures (a.libraryRows arrowUses) = [] ∧ (run.before 7).dots = [] := by
  obtain ⟨⟨haliases, hfile⟩, hlaunched, hentrance, howner, hdeserted, hcomes, hlost⟩ :=
    arrow_checked
  have hlaunch : launch ⟨⟨[]⟩, []⟩ arrowProgram true (.start .recorder 0 0 [] [] []) 0 =
      (arrowLaunch.1, none) := by
    unfold arrowLaunch at hlaunched ⊢
    rw [← hlaunched]
  have himported : ⟨[] ++ ['^'], negText⟩ ∈ arrowUses := by simp [arrowUses]
  obtain ⟨v, ha, -⟩ := libraryAlias_of_hasEntrance hentrance howner himported
  obtain ⟨run, hscenes, hnobody, hnone⟩ := exists_deserted hdeserted
  rw [← hscenes] at hcomes hlost
  exact ⟨_, _, hlaunch, isExpansion_neg haliases hfile, ha, run, hscenes 0, hcomes, hnobody, hnone,
    hlost⟩

end Machine

end DotPaths
