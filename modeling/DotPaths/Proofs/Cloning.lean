import DotPaths.Proofs.CloneWays

/-! # Cloning with the clone library

    A dot that goes into the library `clone.dots` from the left is cloned as many times
    as a dot from the right says.  Its clones go out upwards one after the other, and
    at last it goes out downwards.

    - `plan`: what the two loops do is a plan for the dots in the library.
    - `Machine.clone_clones`: it does not matter when the two dots come.
-/

namespace DotPaths

open World Symbolic

namespace Cloning

section plan
variable {w : World} {R : Region} {x : Int} {a b m : Nat}

/-- The two loops as a plan. -/
def plan (S : Embedding cloneWorld cloneRows w R) (x : Int) (a b m : Nat)
    (hmemory : ∀ stack, S.memory stack ≠ []) : S.Plan (duration a b m) where
  dots j := (State.next^[j] (start a b m)).dots x
  enter j := (State.next^[j] (start a b m)).enters x
  outs j := (State.next^[j] (start a b m)).original.out.map (leaving x)
  start := rfl
  steps := by
    intro j _
    rw [Function.iterate_succ_apply']
    exact State.step S.ids_orZero ((ordered_start a b m).iterate j)
  remember := fun _ _ o _ => hmemory o.stack

/-- Each of the two comes in at its time. -/
theorem enters_run (j : Nat) :
    (State.next^[j] (start a b m)).enters x =
      (if a = j then [original x] else []) ++ if b = j then [counter ((m : Int) + 1)] else [] := by
  have hfirst : (State.next^[j] (start a b m)).original.enters x =
      if a = j then [original x] else [] := by
    by_cases ha : a = j
    · rw [if_pos ha, (original_away_iff a b m j 0).mpr (by omega)]
      rfl
    · rw [if_neg ha]
      have haway := mt (original_away_iff a b m j 0).mp (by omega)
      unfold Original.enters
      split
      · next heq => exact absurd heq haway
      · rfl
  have hsecond : (State.next^[j] (start a b m)).counter.enters =
      if b = j then [counter ((m : Int) + 1)] else [] := by
    by_cases hb : b = j
    · rw [if_pos hb, (counter_away_iff a b m j 0 m).mpr ⟨by omega, rfl⟩]
      rfl
    · rw [if_neg hb]
      unfold Counter.enters
      split
      · next m' heq =>
        obtain ⟨hb', -⟩ := (counter_away_iff a b m j 0 m').mp heq
        omega
      · rfl
  unfold State.enters
  rw [hfirst, hsecond]

theorem nodup_enters (j : Nat) :
    (((State.next^[j] (start a b m)).enters x).map Dot.pos).Nodup := by
  have hboth : [exposedCell + .right, exposedCell + .left].Nodup := by decide
  rw [enters_run]
  split <;> split
  · exact hboth
  · exact List.nodup_singleton _
  · exact List.nodup_singleton _
  · exact List.nodup_nil

end plan

section visit
variable {w : World} {R : Region} {p : Pos} {d e : Dot} {x i : Int} {a b m top : Nat}

/-- The dot that is cloned has the id `i`, and both remember the alias `p`. -/
def embedding {δ : Pos} (h : Replica cloneWorld cloneRows w R δ) (p : Pos) (stack stack' : List Pos)
    (i : Int) : Embedding cloneWorld cloneRows w R where
  shift := δ
  memory s := p :: if s = originalMemory then stack else stack'
  ids s a := s = originalMemory → a = .int i
  ids_orZero := by
    intro s a hid hs
    rw [hid hs]
    exact Number.orZero_int i
  replica := h

/-- Two dots come to the alias: from the left one that is to be cloned, and from the
    right one that says how many times. -/
structure Arriving (d e : Dot) (x i : Int) (m : Nat) : Prop where
  right : d.dir = .right
  value : d.value = .int x
  id : d.id = .int i
  left : e.dir = .left
  number : e.value = .int ((m : Int) + 1)

theorem receives_original {δ : Pos} (h : Replica cloneWorld cloneRows w R δ)
    (harriving : Arriving d e x i m) (hinto : d.passage? w = some (.into p)) :
    (embedding h p d.stack e.stack i).Receives exposedCell d (original x) where
  pos := by
    rw [harriving.right]
    rfl
  dir := harriving.right.symm
  phase := (Dot.deed_of_into hinto).2.1.symm
  value := ⟨x, rfl, harriving.value⟩
  memory := by
    show (p :: if originalMemory = originalMemory then d.stack else e.stack) = d.pos :: d.stack
    rw [if_pos rfl, (Dot.deed_of_into hinto).1]
  id := fun _ => harriving.id
  lands := original_lands x

theorem receives_counter {δ : Pos} (h : Replica cloneWorld cloneRows w R δ)
    (harriving : Arriving d e x i m) (hinto : e.passage? w = some (.into p)) :
    (embedding h p d.stack e.stack i).Receives exposedCell e (counter ((m : Int) + 1)) where
  pos := by
    rw [harriving.left]
    rfl
  dir := harriving.left.symm
  phase := (Dot.deed_of_into hinto).2.1.symm
  value := ⟨_, rfl, harriving.number⟩
  memory := by
    show (p :: if counterMemory = originalMemory then d.stack else e.stack) = e.pos :: e.stack
    rw [if_neg (by decide), (Dot.deed_of_into hinto).1]
  id := fun hsame => absurd (show counterMemory = originalMemory from hsame) (by decide)
  lands := counter_lands _

/-- One visitor, and the dot that receives it. -/
theorem forall₂_visitor {α β : Type} {r : Nat × α → β → Prop} {j k : Nat} {y : α} {z : β}
    (h : r (k, y) z) :
    List.Forall₂ r ([(k, y)].filter (·.1 == j)) (if k = j then [z] else []) := by
  by_cases hj : k = j
  · have hkeeps : [(k, y)].filter (·.1 == j) = [(k, y)] := by simp [hj]
    rw [if_pos hj, hkeeps]
    exact .cons h .nil
  · have hdrops : [(k, y)].filter (·.1 == j) = [] := by simp [hj]
    rw [if_neg hj, hdrops]
    exact .nil

/-- Those who come in are the two. -/
theorem comers_represented {δ : Pos} (h : Replica cloneWorld cloneRows w R δ)
    (harriving : Arriving d e x i m)
    (hleads : (embedding h p d.stack e.stack i).Leads p exposedCell) {K j : Nat}
    {run : Machine.Stretch w K} (hvisits : run.Visits R p [(a, d), (b, e)]) (hj : j < K) :
    (embedding h p d.stack e.stack i).Represents ((State.next^[j] (start a b m)).enters x)
      (run.comers R j) := by
  have hd := receives_original h harriving (hvisits.enter (a, d) (by simp)).2
  have he := receives_counter h harriving (hvisits.enter (b, e) (by simp)).2
  refine hleads.represents_comers hvisits hj ?_ (nodup_enters j)
  rw [enters_run, show [(a, d), (b, e)] = [(a, d)] ++ [(b, e)] from rfl, List.filter_append]
  exact List.rel_append (forall₂_visitor hd) (forall₂_visitor he)

/-! ## Going out -/

/-- How the clones and the dot itself go out. -/
def departure (p : Pos) (x i : Int) (stack : List Pos) (dir : Pos) : Departure :=
  ⟨p + dir, dir, .int x, .int i, stack⟩

section leaving
variable {δ : Pos} {h : Replica cloneWorld cloneRows w R δ} {stack stack' : List Pos} {dir : Pos}
  {d' : Dot}

theorem memory_leaving :
    (embedding h p stack stack' i).memory (leaving x dir).stack = p :: stack := by
  show (p :: if originalMemory = originalMemory then stack else stack') = p :: stack
  rw [if_pos rfl]

theorem departure_of_leaves (hleaves : (embedding h p stack stack' i).Leaves (leaving x dir) d') :
    d'.departure = departure p x i stack dir := by
  obtain ⟨hids, hdeparture⟩ := hleaves.departure memory_leaving rfl
  rw [hdeparture, hids rfl]
  rfl

/-- Nobody who goes out upwards is back in the library. -/
theorem upwards_outside (hrows : R = band top 14) (habove : p.y < top)
    (hleaves : (embedding h p stack stack' i).Leaves (leaving x .up) d') : d'.isIn R = false := by
  have hout : R (p + .up) = false := by
    rw [hrows, band, decide_eq_false_iff_not, Pos.add_y]
    show ¬ ((top : Int) ≤ p.y + -1 ∧ _)
    omega
  exact hleaves.isIn_false memory_leaving hout

end leaving

/-- Before the last tick only clones go out. -/
theorem outs_upwards {j : Nat} (hj : j + 1 < duration a b m) {o : Dot}
    (ho : o ∈ (State.next^[j] (start a b m)).original.out.map (leaving x)) : o = leaving x .up := by
  obtain ⟨dir, hdir, rfl⟩ := List.mem_map.mp ho
  rcases Original.mem_out hdir with rfl | rfl
  · rfl
  · have hlast := State.remaining_of_down hdir
    rw [remaining_run] at hlast
    omega

/-- What is left in the library when all have gone out: nobody, unless the alias is on
    the row above it. -/
def AllOut (R : Region) (p : Pos) (dots : List Dot) (e : Departure) : Prop :=
  inside R dots = [] ∨ R (p + .down) = true ∧ ∃ d, inside R dots = [d] ∧ d.departure = e

/-- The last one has gone out downwards. -/
theorem allOut_of_leaves {δ : Pos} {h : Replica cloneWorld cloneRows w R δ} {stack stack' : List Pos}
    {d' : Dot} {dots : List Dot}
    (hleaves : (embedding h p stack stack' i).Leaves (leaving x .down) d')
    (hinside : (inside R dots).Perm ([d'].filter (Dot.isIn R))) :
    AllOut R p dots (departure p x i stack .down) := by
  by_cases hin : d'.isIn R = true
  · right
    have hdown : R (p + .down) = true := by
      by_contra hout
      have hnot := hleaves.isIn_false memory_leaving (Bool.eq_false_iff.mpr hout)
      rw [hnot] at hin
      cases hin
    rw [List.filter_cons_of_pos hin, List.filter_nil] at hinside
    exact ⟨hdown, d', List.perm_singleton.mp hinside, departure_of_leaves hleaves⟩
  · left
    rw [List.filter_cons_of_neg hin, List.filter_nil] at hinside
    exact hinside.eq_nil

section run
variable {δ : Pos} {h : Replica cloneWorld cloneRows w R δ}
  {run : Machine.Stretch w (duration a b m)}

/-- The plan for the two dots. -/
abbrev planFor (h : Replica cloneWorld cloneRows w R δ) (p : Pos) (d e : Dot) (x i : Int)
    (a b m : Nat) : (embedding h p d.stack e.stack i).Plan (duration a b m) :=
  plan _ x a b m fun _ => List.cons_ne_nil _ _

/-- The run keeps to the plan. -/
theorem represents_run (hrows : R = band top 14) (habove : p.y < top)
    (harriving : Arriving d e x i m)
    (hleads : (embedding h p d.stack e.stack i).Leads p exposedCell)
    (hvisits : run.Visits R p [(a, d), (b, e)]) {j : Nat} (hj : j < duration a b m) :
    (embedding h p d.stack e.stack i).Represents ((planFor h p d e x i a b m).dots j)
      (inside R (run.before j).dots) := by
  apply Embedding.Plan.represents hvisits.empty
    (fun j hj => comers_represented h harriving hleads hvisits hj)
    (Nat.le_of_lt hj)
  -- Whoever has gone out before the last tick was a clone.
  intro k hk o ho d' hleaves
  rw [outs_upwards (by omega) ho] at hleaves
  exact upwards_outside hrows habove hleaves

/-- The clones go out one after the other, and then the dot itself. -/
theorem departures_run (hrows : R = band top 14) (habove : p.y < top)
    (harriving : Arriving d e x i m)
    (hleads : (embedding h p d.stack e.stack i).Leads p exposedCell)
    (hvisits : run.Visits R p [(a, d), (b, e)]) :
    run.departures R = List.replicate (m + 1) (departure p x i d.stack .up) ++
      [departure p x i d.stack .down] := by
  have hdepartures : run.departures R = (List.range (duration a b m)).flatMap fun j =>
      ((planFor h p d e x i a b m).outs j).map fun o => departure p x i d.stack o.dir := by
    apply Embedding.Plan.departures _ _ _
      (fun j hj => comers_represented h harriving hleads hvisits hj)
      fun j hj => represents_run hrows habove harriving hleads hvisits hj
    · intro j _
      show ((State.next^[j] (start a b m)).original.out.map (leaving x)).length ≤ 1
      rw [List.length_map]
      exact Original.length_out_le _
    · intro j _ o ho d' hleaves
      obtain ⟨dir, -, rfl⟩ := List.mem_map.mp ho
      exact departure_of_leaves hleaves
  -- The plan follows the states of the loop, one for each tick.
  have houts : ∀ j, ((planFor h p d e x i a b m).outs j).map
        (fun o => departure p x i d.stack o.dir) =
      (State.next^[j] (start a b m)).original.out.map (departure p x i d.stack) := by
    intro j
    show ((State.next^[j] (start a b m)).original.out.map (leaving x)).map _ = _
    rw [List.map_map]
    rfl
  simp only [hdepartures, houts]
  rw [← List.map_flatMap, out_of_run, List.map_append, List.map_replicate]
  rfl

theorem allOut_run (hrows : R = band top 14) (habove : p.y < top) (harriving : Arriving d e x i m)
    (hleads : (embedding h p d.stack e.stack i).Leads p exposedCell)
    (hvisits : run.Visits R p [(a, d), (b, e)]) :
    AllOut R p (run.before (duration a b m)).dots (departure p x i d.stack .down) := by
  have hlast : duration a b m - 1 + 1 = duration a b m := by
    unfold duration
    omega
  have hlt : duration a b m - 1 < duration a b m := by omega
  obtain ⟨shown, L, hshown, hinside, hL, hleavers⟩ := (planFor h p d e x i a b m).step hlt
    (comers_represented h harriving hleads hvisits hlt)
    (represents_run hrows habove harriving hleads hvisits hlt)
  rw [hlast] at hshown hinside
  -- After the last tick nobody is left in the plan.
  have hparts : (planFor h p d e x i a b m).dots (duration a b m) = [] := by
    show (State.next^[duration a b m] (start a b m)).dots x = []
    rw [run_over]
    rfl
  -- In the last tick the dot itself goes out.
  have houts : (planFor h p d e x i a b m).outs (duration a b m - 1) = [leaving x .down] := by
    have hremaining : (State.next^[duration a b m - 1] (start a b m)).remaining = 1 := by
      rw [remaining_run]
      omega
    show (State.next^[duration a b m - 1] (start a b m)).original.out.map (leaving x) = _
    rw [State.out_of_remaining hremaining]
    rfl
  rw [hparts] at hshown
  rw [Embedding.eq_nil_of_represents hshown, List.nil_append] at hinside
  rw [houts] at hL
  cases hL with
  | cons hleaves hnil =>
    cases hnil
    exact allOut_of_leaves hleaves (hinside.trans (hleavers.filter _))

end run

end visit

end Cloning

namespace Machine

open Cloning

/-- A dot `d` comes to an alias for the library from the left, after `j` ticks, and a dot
    `e` with a number `n` from the right, after `k` ticks; both go in.  Then `n` dots go
    out upwards by the same alias, and after them one downwards, all with the value, the
    id and the memory of `d`, and nobody is left in the library.  But where the alias is
    on the row above the library, the last one may stand on its first row. -/
theorem clone_clones {shelf : Shelf} {program : String} {w : World} {uses : List FileUse}
    {p : Pos} {a : OpenWarp} {d e : Dot} {x i : Int} {n j k : Nat}
    (hbuild : build shelf program = .ok w) (huses : IsExpansion shelf program.toList uses)
    (ha : LibraryAlias w uses cloneText p a) (hright : d.dir = .right) (hvalue : d.value = .int x)
    (hid : d.id = .int i) (hleft : e.dir = .left) (hnumber : e.value = .int n) (hpos : 1 ≤ n)
    (run : Stretch w (max (j + 4 * n + 11) (k + 24 * n + 8)))
    (hvisits : run.Visits (a.libraryRows uses) p [(j, d), (k, e)]) :
    run.departures (a.libraryRows uses) =
        List.replicate n ⟨p + .up, .up, .int x, .int i, d.stack⟩ ++
          [⟨p + .down, .down, .int x, .int i, d.stack⟩] ∧
      AllOut (a.libraryRows uses) p (run.before (max (j + 4 * n + 11) (k + 24 * n + 8))).dots
        ⟨p + .down, .down, .int x, .int i, d.stack⟩ := by
  obtain ⟨m, rfl⟩ := Nat.exists_eq_add_of_le' hpos
  obtain ⟨top, hreplica, hrows, htarget, habove⟩ := clone_specimen.replica hbuild huses ha
  have hleads : (embedding (rowsOf_cloneText ▸ hreplica) p d.stack e.stack i).Leads p exposedCell :=
    ha.leads hrows htarget habove
  rw [rowsOf_cloneText] at hreplica hrows
  have harriving : Arriving d e x i m := ⟨hright, hvalue, hid, hleft, hnumber⟩
  exact ⟨departures_run hrows habove harriving hleads hvisits,
    allOut_run hrows habove harriving hleads hvisits⟩

/-! ## Two clones -/

/-- The expansion of a program that uses the library alone. -/
theorem isExpansion_clone {program : String} {c : Char} (haliases : aliasesUsed program.toList = [c])
    (hfile : fileFor? program.toList c = some "clone.dots") :
    IsExpansion ⟨⟨[]⟩, []⟩ program.toList [⟨[], program.toList⟩, ⟨[c], cloneText⟩] :=
  isExpansion_single haliases hfile (by decide +kernel) (by decide +kernel)

/-- A path with an alias for the library. -/
def pathProgram : String := "%!clone.dots c\n\n--c---\n\n"

def pathUses : List FileUse := [⟨[], pathProgram.toList⟩, ⟨['c'], cloneText⟩]

@[irreducible] def pathWorld : World := (build ⟨⟨[]⟩, []⟩ pathProgram).toOption.getD default

/-- A dot on the alias that is to be cloned. -/
def leftVisitor : Dot :=
  { pos := ⟨2, 2⟩, spawn := ⟨0, 2⟩, dir := .right, value := .int 5, id := .int 7 }

/-- A dot that says how many times, when it has come to the alias. -/
def rightVisitor : Dot := { pos := ⟨2, 2⟩, spawn := ⟨5, 2⟩, dir := .left, value := .int 2 }

/-- It comes two ticks later. -/
def pathScene : Scene :=
  { dots := [leftVisitor, { rightVisitor with pos := ⟨4, 2⟩ }]
    console := Console.start .recorder 0 0 [] [] [] }

theorem path_landmarks :
    aliasesUsed pathProgram.toList = ['c'] ∧
      fileFor? pathProgram.toList 'c' = some "clone.dots" ∧
      (build ⟨⟨[]⟩, []⟩ pathProgram).toOption.isSome = true ∧
      hasEntrance pathWorld ⟨2, 2⟩ 'c' (fun _ => true) = true ∧
      (owners pathUses)[2]? = some [] ∧ rowsAt pathUses ['c'] ⟨2, 3⟩ = false := by
  decide +kernel

theorem path_checked :
    isolated pathWorld (rowsAt pathUses ['c'])
        ((List.range 58).map fun j =>
          ([(0, leftVisitor), (2, rightVisitor)].filter (·.1 == j)).length)
        pathScene = true ∧
      inside (rowsAt pathUses ['c']) pathScene.dots = [] ∧
      (leftVisitor ∈ (chosenScene pathWorld pathScene).dots ∧
        leftVisitor.passage? pathWorld = some (.into ⟨2, 2⟩)) ∧
      rightVisitor ∈ (chosenScene pathWorld ((nextScene pathWorld)^[2] pathScene)).dots ∧
        rightVisitor.passage? pathWorld = some (.into ⟨2, 2⟩) := by
  decide +kernel

/-- The dot with the value 5 is cloned twice. -/
theorem cloned_twice :
    ∃ (w : World) (run : Stretch w 58), build ⟨⟨[]⟩, []⟩ pathProgram = .ok w ∧
      run.before 0 = pathScene ∧
      run.departures (rowsAt pathUses ['c']) =
        [⟨⟨2, 1⟩, .up, .int 5, .int 7, []⟩, ⟨⟨2, 1⟩, .up, .int 5, .int 7, []⟩,
          ⟨⟨2, 3⟩, .down, .int 5, .int 7, []⟩] ∧
      inside (rowsAt pathUses ['c']) (run.before 58).dots = [] := by
  obtain ⟨haliases, hfile, hbuilt, hentrance, howner, hbelow⟩ := path_landmarks
  obtain ⟨halone, hempty, hleft, hright⟩ := path_checked
  have hbuild : build ⟨⟨[]⟩, []⟩ pathProgram = .ok pathWorld := by
    unfold pathWorld
    exact build_of_isSome hbuilt
  have himported : ⟨[] ++ ['c'], cloneText⟩ ∈ pathUses := by simp [pathUses]
  obtain ⟨v, ha, -⟩ := libraryAlias_of_hasEntrance hentrance howner himported
  obtain ⟨run, hvisits, hscenes⟩ := exists_visits (p := ⟨2, 2⟩) halone hempty (by
    intro x hx
    rcases List.mem_cons.mp hx with rfl | hx
    · exact hleft
    · rw [List.mem_singleton.mp hx]
      exact hright)
  obtain ⟨hdepartures, hout⟩ := clone_clones (d := leftVisitor) (e := rightVisitor) (n := 2) (j := 0)
    (k := 2) hbuild (isExpansion_clone haliases hfile) ha rfl rfl rfl rfl rfl (by decide) run hvisits
  refine ⟨pathWorld, run, hbuild, hscenes 0, hdepartures, ?_⟩
  rcases hout with hnone | ⟨hrow, -⟩
  · exact hnone
  · -- The row below the alias is not one of the library.
    have hrow : rowsAt pathUses ['c'] ⟨2, 3⟩ = true := hrow
    rw [hbelow] at hrow
    cases hrow

/-! ## Aliases where dots are not cloned or do not stay out -/

/-- The dots in the next two programs that have come to the alias. -/
def firstComer : Dot := { pos := ⟨2, 3⟩, spawn := ⟨0, 3⟩, dir := .right, value := .int 0 }

def secondComer : Dot := { pos := ⟨2, 3⟩, spawn := ⟨7, 3⟩, dir := .left, value := .int 1 }

/-- The alias for the library is an arrow. -/
def vaneProgram : String := "%!clone.dots ^\n  #\n  $\n.-^-1#-.\n\n"

def vaneUses : List FileUse := [⟨[], vaneProgram.toList⟩, ⟨['^'], cloneText⟩]

@[irreducible] def vaneLaunch : Machine × Option Stop := launchAlone vaneProgram

theorem vane_checked :
    (aliasesUsed vaneProgram.toList = ['^'] ∧
        fileFor? vaneProgram.toList '^' = some "clone.dots") ∧
      vaneLaunch.2 = none ∧ hasEntrance vaneLaunch.1.world ⟨2, 3⟩ '^' (fun _ => true) = true ∧
      (owners vaneUses)[3]? = some [] ∧
      deserted vaneLaunch.1.world (rowsAt vaneUses ['^']) 9 vaneLaunch.1.scene = true ∧
      firstComer ∈ ((nextScene vaneLaunch.1.world)^[2] vaneLaunch.1.scene).dots ∧
      secondComer ∈ ((nextScene vaneLaunch.1.world)^[5] vaneLaunch.1.scene).dots ∧
      ((nextScene vaneLaunch.1.world)^[9] vaneLaunch.1.scene).dots = [] := by
  decide +kernel

/-- The alias is on the row above the library. -/
def brinkProgram : String := "%!clone.dots c\n  #\n  $\n.-c-1#-."

def brinkUses : List FileUse := [⟨[], brinkProgram.toList⟩, ⟨['c'], cloneText⟩]

@[irreducible] def brinkLaunch : Machine × Option Stop := launchAlone brinkProgram

/-- The dot that has gone out downwards. -/
def fallenDot : Dot := { pos := ⟨2, 4⟩, spawn := ⟨3, 11⟩, dir := .down, value := .int 0 }

theorem brink_checked :
    (aliasesUsed brinkProgram.toList = ['c'] ∧
        fileFor? brinkProgram.toList 'c' = some "clone.dots") ∧
      brinkLaunch.2 = none ∧ hasEntrance brinkLaunch.1.world ⟨2, 3⟩ 'c' (fun _ => true) = true ∧
      (owners brinkUses)[3]? = some [] ∧
      isolated brinkLaunch.1.world (rowsAt brinkUses ['c'])
        ((List.range 37).map fun j =>
          ([(2, firstComer), (5, secondComer)].filter (·.1 == j)).length)
        brinkLaunch.1.scene = true ∧
      inside (rowsAt brinkUses ['c']) brinkLaunch.1.scene.dots = [] ∧
      (firstComer ∈ (chosenScene brinkLaunch.1.world
          ((nextScene brinkLaunch.1.world)^[2] brinkLaunch.1.scene)).dots ∧
        firstComer.passage? brinkLaunch.1.world = some (.into ⟨2, 3⟩)) ∧
      (secondComer ∈ (chosenScene brinkLaunch.1.world
          ((nextScene brinkLaunch.1.world)^[5] brinkLaunch.1.scene)).dots ∧
        secondComer.passage? brinkLaunch.1.world = some (.into ⟨2, 3⟩)) ∧
      ((nextScene brinkLaunch.1.world)^[37] brinkLaunch.1.scene).dots = [fallenDot] ∧
      inside (rowsAt brinkUses ['c']) [fallenDot] = [fallenDot] := by
  decide +kernel

/-- Two dots come to an alias from the left and from the right, the second with a 1.  An
    arrow turns them both, so they never go into the library, and after nine ticks all
    dots are gone and nobody has gone out.  By an alias on the row above the library they
    go in, but when all have gone out, the last one stands on the first row of it. -/
theorem clone_exceptions :
    (∃ m a, launchAlone vaneProgram = (m, none) ∧
      IsExpansion ⟨⟨[]⟩, []⟩ vaneProgram.toList vaneUses ∧
      LibraryAlias m.world vaneUses cloneText ⟨2, 3⟩ a ∧
      ∃ run : Stretch m.world 9, run.before 0 = m.scene ∧
        firstComer ∈ (run.before 2).dots ∧ secondComer ∈ (run.before 5).dots ∧
        (∀ j, j ≤ 9 → inside (a.libraryRows vaneUses) (run.before j).dots = []) ∧
        run.departures (a.libraryRows vaneUses) = [] ∧ (run.before 9).dots = []) ∧
    ∃ m a, launchAlone brinkProgram = (m, none) ∧
      IsExpansion ⟨⟨[]⟩, []⟩ brinkProgram.toList brinkUses ∧
      LibraryAlias m.world brinkUses cloneText ⟨2, 3⟩ a ∧
      ∃ run : Stretch m.world 37, run.before 0 = m.scene ∧
        run.Visits (a.libraryRows brinkUses) ⟨2, 3⟩ [(2, firstComer), (5, secondComer)] ∧
        (run.before 37).dots = [fallenDot] ∧
        inside (a.libraryRows brinkUses) (run.before 37).dots = [fallenDot] := by
  constructor
  · obtain ⟨⟨haliases, hfile⟩, hlaunched, hentrance, howner, hdeserted, hfirst, hsecond, hgone⟩ :=
      vane_checked
    have hlaunch : launchAlone vaneProgram = (vaneLaunch.1, none) := by
      unfold vaneLaunch at hlaunched ⊢
      rw [← hlaunched]
    have himported : ⟨[] ++ ['^'], cloneText⟩ ∈ vaneUses := by simp [vaneUses]
    obtain ⟨v, ha, -⟩ := libraryAlias_of_hasEntrance hentrance howner himported
    obtain ⟨run, hscenes, hnobody, hnone⟩ := exists_deserted hdeserted
    rw [← hscenes] at hfirst hsecond hgone
    exact ⟨_, _, hlaunch, isExpansion_clone haliases hfile, ha, run, hscenes 0, hfirst, hsecond,
      hnobody, hnone, hgone⟩
  · obtain ⟨⟨haliases, hfile⟩, hlaunched, hentrance, howner, halone, hempty, hfirst, hsecond, hlast,
      hrow⟩ := brink_checked
    have hlaunch : launchAlone brinkProgram = (brinkLaunch.1, none) := by
      unfold brinkLaunch at hlaunched ⊢
      rw [← hlaunched]
    have himported : ⟨[] ++ ['c'], cloneText⟩ ∈ brinkUses := by simp [brinkUses]
    obtain ⟨v, ha, -⟩ := libraryAlias_of_hasEntrance hentrance howner himported
    obtain ⟨run, hvisits, hscenes⟩ := exists_visits (p := ⟨2, 3⟩) halone hempty (by
      intro x hx
      rcases List.mem_cons.mp hx with rfl | hx
      · exact hfirst
      · rw [List.mem_singleton.mp hx]
        exact hsecond)
    rw [← hscenes] at hlast
    exact ⟨_, _, hlaunch, isExpansion_clone haliases hfile, ha, run, hscenes 0, hvisits, hlast,
      by rw [hlast]; exact hrow⟩

end Machine

end DotPaths
