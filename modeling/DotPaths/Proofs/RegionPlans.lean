import Mathlib.Data.List.Nodup
import DotPaths.Proofs.SymbolicRegions
import DotPaths.Proofs.Replicas
import DotPaths.Proofs.Visits

/-! # Plans for a region

    What has been found out about a region in one world, with dots that are known,
    is carried over to a replica of the region in another world and to the dots that
    are there in a run.

    - `Embedding`: the replica, and what the dots there remember and are called.
    - `Embedding.Represents`: the dots there are represented by a list of symbolic ones.
    - `Embedding.Plan`: the symbolic dots tick by tick, with those that come in and go out.
    - `Plan.step`, `Plan.represents`: a run keeps to the plan.
    - `Symbolic.regionTicks`: plans for some ticks on end are found by computation.
    - `Symbolic.Way`: what is known about some ticks on end that start with one dot.
-/

namespace DotPaths

/-- A replica of a region.  Where the memory of a dot in the region is `stack`, the dot
    in the replica has the memory `memory stack` and an id with the property
    `ids stack`. -/
structure Embedding (w₀ : World) (R₀ : Region) (w : World) (R : Region) where
  shift : Pos
  memory : List Pos → List Pos
  ids : List Pos → Number → Prop
  ids_orZero : ∀ stack a, ids stack a → ids stack a.orZero
  replica : Replica w₀ R₀ w R shift

namespace Embedding

variable {w₀ w : World} {R₀ R : Region} (S : Embedding w₀ R₀ w R)

/-- The dot in the replica. -/
def embed (d : Dot) : Dot := d.recast S.shift S.memory

/-- The dots are those that `X` represents, in any order. -/
def Represents (X dots : List Dot) : Prop :=
  ∃ F, List.Forall₂ (Dot.Represents S.ids id) X F ∧ dots.Perm (F.map S.embed)

/-- The dot `d` is what becomes of one that `o` represents and that goes out. -/
def Leaves (o d : Dot) : Prop :=
  ∃ g, o.Represents S.ids id g ∧ (S.embed g).out?.map (Dot.settled w) = some d

variable {S} {X Y N O dots dots' : List Dot} {W : Pos → Prop}

theorem represents_nil : S.Represents [] [] := ⟨[], .nil, .refl _⟩

theorem eq_nil_of_represents (h : S.Represents [] dots) : dots = [] := by
  obtain ⟨F, hF, hperm⟩ := h
  cases hF
  exact hperm.eq_nil

theorem Represents.append (h : S.Represents X dots) (h' : S.Represents Y dots') :
    S.Represents (X ++ Y) (dots ++ dots') := by
  obtain ⟨F, hF, hperm⟩ := h
  obtain ⟨F', hF', hperm'⟩ := h'
  refine ⟨F ++ F', List.rel_append hF hF', ?_⟩
  rw [List.map_append]
  exact hperm.append hperm'

theorem Represents.perm (h : S.Represents X dots) (hX : Y.Perm X) : S.Represents Y dots := by
  obtain ⟨F, hF, hperm⟩ := h
  obtain ⟨F', hF', hperm'⟩ := List.perm_comp_forall₂ hX hF
  exact ⟨F', hF', hperm.trans (hperm'.symm.map _)⟩

theorem Represents.perm_dots (h : S.Represents X dots) (hdots : dots'.Perm dots) :
    S.Represents X dots' := by
  obtain ⟨F, hF, hperm⟩ := h
  exact ⟨F, hF, hdots.trans hperm⟩

/-- A dot that goes out stands one cell on from its alias, and it may be lost there. -/
theorem Leaves.exists_settled {o d : Dot} {p : Pos} {stack : List Pos} (h : S.Leaves o d)
    (hmemory : S.memory o.stack = p :: stack) :
    ∃ x : Dot, d = x.settled w ∧ x.pos = p + o.dir ∧ x.dir = o.dir ∧ x.stack = stack ∧
      x.phase = o.phase ∧ S.ids o.stack x.id ∧ ∃ n, o.value = .int n ∧ x.value = .int n := by
  obtain ⟨g, hg, hd⟩ := h
  have hstack : (S.embed g).stack = p :: stack := by
    show S.memory g.stack = p :: stack
    rw [hg.models.stack, hmemory]
  unfold Dot.out? at hd
  rw [hstack] at hd
  refine ⟨_, (Option.some.inj hd).symm, ?_, hg.models.dir, rfl, hg.models.phase, ?_,
    hg.models.value⟩
  · show p + g.dir = p + o.dir
    rw [hg.models.dir]
  · rw [← hg.models.stack]
    exact hg.id

/-- How a dot goes out. -/
theorem Leaves.departure {o d : Dot} {p : Pos} {stack : List Pos} {n : Int} (h : S.Leaves o d)
    (hmemory : S.memory o.stack = p :: stack) (hvalue : o.value = .int n) :
    S.ids o.stack d.id ∧ d.departure = ⟨p + o.dir, o.dir, .int n, d.id, stack⟩ := by
  obtain ⟨x, rfl, hpos, hdir, hstack, -, hids, k, hk, hxk⟩ := h.exists_settled hmemory
  cases hvalue.symm.trans hk
  have hkeeps := Dot.departure_settled w x
  have hid : (x.settled w).id = x.id := congrArg Departure.id hkeeps
  rw [hkeeps, hid]
  refine ⟨hids, ?_⟩
  show Departure.mk x.pos x.dir x.value x.id x.stack = _
  rw [hpos, hdir, hxk, hstack]

/-- A dot that goes out of a region that it does not come to is not in it. -/
theorem Leaves.isIn_false {o d : Dot} {p : Pos} {stack : List Pos} (h : S.Leaves o d)
    (hmemory : S.memory o.stack = p :: stack) (hout : R (p + o.dir) = false) :
    d.isIn R = false := by
  obtain ⟨x, rfl, hpos, -⟩ := h.exists_settled hmemory
  have hkeeps := congrArg Departure.pos (Dot.departure_settled w x)
  unfold Dot.isIn
  rw [show (x.settled w).pos = p + o.dir from hkeeps.trans hpos, hout, Bool.false_and]

/-- If a symbolic dot goes out and remembers where it came in, whoever it represents
    does go out. -/
theorem exists_leaves {G : List Dot} (h : List.Forall₂ (Dot.Represents S.ids id) O G)
    (hO : ∀ o ∈ O, S.memory o.stack ≠ []) :
    ∃ L, List.Forall₂ S.Leaves O L ∧
      L = G.filterMap fun d => (S.embed d).out?.map (Dot.settled w) := by
  induction h with
  | nil => exact ⟨[], .nil, rfl⟩
  | @cons o g O G hog _ ih =>
    obtain ⟨L, hL, hLeq⟩ := ih fun o ho => hO o (List.mem_cons_of_mem _ ho)
    obtain ⟨p, stack, hmemory⟩ := List.exists_cons_of_ne_nil (hO o List.mem_cons_self)
    have hstack : (S.embed g).stack = p :: stack := by
      show S.memory g.stack = p :: stack
      rw [hog.models.stack, hmemory]
    obtain ⟨d, hd⟩ : ∃ d, (S.embed g).out?.map (Dot.settled w) = some d := by
      unfold Dot.out?
      rw [hstack]
      exact ⟨_, rfl⟩
    refine ⟨d :: L, .cons ⟨g, hog, hd⟩ hL, ?_⟩
    rw [List.filterMap_cons, hd, hLeq]

/-! ## A tick -/

/-- What a tick makes of the dots in the replica, and who goes out. -/
theorem Represents.tick {s c t s' : Scene} (h : S.Represents X (inside R s.dots))
    (hticks : Machine.Ticks w s c t s') (hstep : Step w₀ R₀ S.ids X N O W)
    (hO : ∀ o ∈ O, S.memory o.stack ≠ []) :
    ∃ rest L, S.Represents N rest ∧ (inside R s'.dots).Perm (rest ++
        ((Machine.leavers w R c t).filter (Dot.isIn R) ++ Machine.comers w R c t)) ∧
      List.Forall₂ S.Leaves O L ∧ (Machine.leavers w R c t).Perm L := by
  obtain ⟨F, hF, hperm⟩ := h
  obtain ⟨C, N', hturned, -, hN', hnext, hout⟩ := hstep.turns F hF
  have hwithin : ∀ d ∈ F, R₀ d.pos = true := by
    intro d hd
    obtain ⟨x, hx, hxd⟩ := forall₂_mem_right hF d hd
    rw [hxd.models.pos]
    exact hstep.within x hx
  have hchosen : ∀ d ∈ C, R₀ d.pos = true := by
    intro d hd
    obtain ⟨d₀, hd₀, hchoose⟩ := forall₂_mem_right hturned.chooses d hd
    -- Choosing does not move a dot.
    rcases Dot.chosen_ok hchoose with rfl | ⟨_, _, -, -, -, rfl⟩
    · exact hwithin d₀ hd₀
    · exact hwithin d₀ hd₀
  have hsilent : ∀ d ∈ C.map S.embed, d.isSilent w = true := by
    intro d hd
    obtain ⟨d₀, hd₀, rfl⟩ := List.mem_map.mp hd
    exact S.replica.isSilent_recast (hchosen d₀ hd₀) (hturned.silent d₀ hd₀)
  obtain ⟨hinside, hleavers⟩ := hticks.tells hperm
    (S.replica.forall₂_chosen_recast hwithin hturned.chooses)
    (Replica.orderly_recast hturned.orderly) hsilent
  rw [S.replica.nextInside_recast hturned.orderly hchosen] at hinside
  rw [S.replica.outFrom_recast hchosen] at hleavers
  obtain ⟨L, hL, hLeq⟩ := exists_leaves hout hO
  refine ⟨(nextInside w₀ R₀ C).map S.embed, L, ⟨N', hN', hnext.map _⟩, hinside, hL, ?_⟩
  rw [hLeq]
  exact hleavers

/-! ## Coming in -/

/-- A dot that goes in by its alias, which leads to `q`, is represented by `x` in the
    region. -/
structure Receives (S : Embedding w₀ R₀ w R) (q : Pos) (d x : Dot) : Prop where
  pos : x.pos = q + d.dir
  dir : x.dir = d.dir
  phase : x.phase = d.phase
  value : ∃ n, x.value = .int n ∧ d.value = .int n
  memory : S.memory x.stack = d.pos :: d.stack
  id : S.ids x.stack d.id
  /-- There is a way on. -/
  lands : Turn.isLost w₀ x = false ∧ x.isIn R₀ = true

theorem represents_of_receives {q : Pos} {d x : Dot} (h : S.Receives q d x) :
    ∃ f, x.Represents S.ids id f ∧ S.embed f = (d.entered (q + S.shift)).settled w ∧
      (S.embed f).isIn R = true := by
  let f : Dot := { d with pos := q + d.dir, spawn := d.spawn - S.shift, stack := x.stack }
  have hrepr : x.Represents S.ids id f :=
    ⟨⟨h.pos.symm, h.dir.symm, h.phase.symm, rfl, h.value⟩, h.id⟩
  have hembed : S.embed f = d.entered (q + S.shift) := by
    have hspawn : d.spawn - S.shift + S.shift = d.spawn := by
      show Pos.mk _ _ = _
      simp
    show Dot.mk (q + d.dir + S.shift) (d.spawn - S.shift + S.shift) d.dir d.value d.id d.phase
        (S.memory x.stack) =
      Dot.mk (q + S.shift + d.dir) d.spawn d.dir d.value d.id d.phase (d.pos :: d.stack)
    rw [hspawn, h.memory, Pos.add_right_comm]
  have hisIn : f.isIn R₀ = true := by
    rw [hrepr.models.isIn]
    exact h.lands.2
  -- It is not lost in the region, and so it is not in the replica.
  have hsettled : f.settled w₀ = f := by
    have hlost : Turn.isLost w₀ f = Turn.isLost w₀ x := by
      unfold Turn.isLost
      rw [hrepr.models.pos, hrepr.models.phase]
    unfold Dot.settled
    rw [hlost, h.lands.1]
    rfl
  have hreplica := S.replica.settled_recast (σ := S.memory) f
  rw [hsettled, List.filter_cons_of_pos hisIn, List.filter_nil] at hreplica
  have hmem : S.embed f ∈ [(S.embed f).settled w].filter (Dot.isIn R) := by
    rw [show [(S.embed f).settled w].filter (Dot.isIn R) = [S.embed f] from hreplica]
    exact List.mem_singleton_self _
  obtain ⟨hsame, hlive⟩ := List.mem_filter.mp hmem
  refine ⟨f, hrepr, ?_, hlive⟩
  rw [← hembed]
  exact List.mem_singleton.mp hsame

theorem exists_represents_of_receives {q : Pos} {arriving : List (Nat × Dot)}
    (h : List.Forall₂ (fun y x => S.Receives q y.2 x) arriving X) :
    ∃ F, List.Forall₂ (Dot.Represents S.ids id) X F ∧
      F.map S.embed = arriving.map (fun y => (y.2.entered (q + S.shift)).settled w) ∧
      ∀ d ∈ F.map S.embed, d.isIn R = true := by
  induction h with
  | nil => exact ⟨[], .nil, rfl, fun d hd => nomatch hd⟩
  | cons hyx _ ih =>
    obtain ⟨f, hrepr, hembed, hlive⟩ := represents_of_receives hyx
    obtain ⟨F, hF, heq, hin⟩ := ih
    refine ⟨f :: F, .cons hrepr hF, ?_, ?_⟩
    · rw [List.map_cons, List.map_cons, hembed, heq]
    · intro d hd
      rcases List.mem_cons.mp hd with rfl | hd
      · exact hlive
      · exact hin d hd

/-- The alias at `p` stands outside of the replica.  It leads to the position that
    corresponds to `q`. -/
structure Leads (S : Embedding w₀ R₀ w R) (p q : Pos) : Prop where
  outside : R p = false
  warp : ∃ c v, w.cell? p = some c ∧ c.kind = .warp v ∧ v.target = some (q + S.shift) ∧
    v.role.isReturn = false

/-- The visitors of a tick are represented by those that receive them. -/
theorem Leads.represents_comers {K j : Nat} {run : Machine.Stretch w K} {p q : Pos}
    {visitors : List (Nat × Dot)} (h : S.Leads p q) (hvisits : run.Visits R p visitors) (hj : j < K)
    (hparts : List.Forall₂ (fun y x => S.Receives q y.2 x) (visitors.filter (·.1 == j)) X)
    (hnodup : (X.map Dot.pos).Nodup) : S.Represents X (run.comers R j) := by
  obtain ⟨c, v, hc, hv, htarget, hreturn⟩ := h.warp
  obtain ⟨F, hF, harrived, hin⟩ := exists_represents_of_receives hparts
  have hpos : (F.map S.embed).map Dot.pos = (X.map Dot.pos).map (· + S.shift) := by
    clear harrived hin hparts hnodup
    induction hF with
    | nil => rfl
    | @cons x f _ _ hxf _ ih =>
      have hhead : (S.embed f).pos = x.pos + S.shift := by
        show f.pos + S.shift = _
        rw [hxf.models.pos]
      simp only [List.map_cons, hhead]
      rw [ih]
  have hnodup' : (F.map S.embed).Nodup := by
    apply List.Nodup.of_map Dot.pos
    rw [hpos]
    exact hnodup.map fun _ _ heq => Pos.add_left_inj.mp heq
  exact ⟨F, hF, hvisits.comers_perm hj hc hv htarget hreturn h.outside harrived hnodup' hin⟩

/-! ## Plans -/

/-- The symbolic dots in the region before each tick, those who come in during the
    tick, and those who go out. -/
structure Plan (S : Embedding w₀ R₀ w R) (K : Nat) where
  dots : Nat → List Dot
  enter : Nat → List Dot
  outs : Nat → List Dot
  start : dots 0 = []
  steps : ∀ j, j < K → ∃ N W, Step w₀ R₀ S.ids (dots j) N (outs j) W ∧
    (dots (j + 1)).Perm (N ++ enter j)
  remember : ∀ j, j < K → ∀ o ∈ outs j, S.memory o.stack ≠ []

namespace Plan

variable {K : Nat} {P : S.Plan K} {run : Machine.Stretch w K}

/-- One tick of a run that keeps to the plan. -/
theorem step {j : Nat} (hj : j < K) (hcomers : S.Represents (P.enter j) (run.comers R j))
    (h : S.Represents (P.dots j) (inside R (run.before j).dots)) :
    ∃ shown L, S.Represents (P.dots (j + 1)) shown ∧
      (inside R (run.before (j + 1)).dots).Perm
        (shown ++ (run.leavers R j).filter (Dot.isIn R)) ∧
      List.Forall₂ S.Leaves (P.outs j) L ∧ (run.leavers R j).Perm L := by
  obtain ⟨N, W, hstep, hnext⟩ := P.steps j hj
  obtain ⟨rest, L, hrest, hinside, hL, hleavers⟩ := h.tick (run.ticks j hj) hstep (P.remember j hj)
  refine ⟨rest ++ run.comers R j, L, (hrest.append hcomers).perm hnext, ?_, hL, hleavers⟩
  refine hinside.trans ?_
  rw [List.append_assoc]
  exact List.perm_append_comm.append_left rest

/-- The run keeps to the plan as long as nobody who goes out is back in the region at
    once. -/
theorem represents (hempty : inside R (run.before 0).dots = [])
    (hcomers : ∀ j, j < K → S.Represents (P.enter j) (run.comers R j)) {k : Nat} (hk : k ≤ K)
    (hback : ∀ j, j < k → ∀ o ∈ P.outs j, ∀ d, S.Leaves o d → d.isIn R = false) :
    S.Represents (P.dots k) (inside R (run.before k).dots) := by
  induction k with
  | zero =>
    rw [P.start, hempty]
    exact represents_nil
  | succ k ih =>
    have hbefore := ih (by omega) fun j hj => hback j (by omega)
    obtain ⟨shown, L, hshown, hinside, hL, hleavers⟩ := P.step hk (hcomers k hk) hbefore
    have hnone : (run.leavers R k).filter (Dot.isIn R) = [] := by
      apply List.filter_eq_nil_iff.mpr
      intro d hd
      obtain ⟨o, ho, hod⟩ := forall₂_mem_right hL d (hleavers.mem_iff.mp hd)
      rw [hback k (by omega) o ho d hod]
      exact Bool.false_ne_true
    rw [hnone, List.append_nil] at hinside
    exact hshown.perm_dots hinside

/-- If one dot goes out at a time, the departures are those of the plan. -/
theorem departures (f : Dot → Departure) (hone : ∀ j, j < K → (P.outs j).length ≤ 1)
    (hf : ∀ j, j < K → ∀ o ∈ P.outs j, ∀ d, S.Leaves o d → d.departure = f o)
    (hcomers : ∀ j, j < K → S.Represents (P.enter j) (run.comers R j))
    (hrepr : ∀ j, j < K → S.Represents (P.dots j) (inside R (run.before j).dots)) :
    run.departures R = (List.range K).flatMap fun j => (P.outs j).map f := by
  unfold Machine.Stretch.departures
  apply List.flatMap_congr
  intro j hj
  have hj := List.mem_range.mp hj
  obtain ⟨-, L, -, -, hL, hleavers⟩ := P.step hj (hcomers j hj) (hrepr j hj)
  have hmap : L.map Dot.departure = (P.outs j).map f := by
    have hall := hf j hj
    clear hleavers
    generalize P.outs j = O at hL hall
    induction hL with
    | nil => rfl
    | cons hod _ ih =>
      rw [List.map_cons, List.map_cons, hall _ List.mem_cons_self _ hod,
        ih fun o ho => hall o (List.mem_cons_of_mem _ ho)]
  rw [← hmap]
  have hlen : L.length ≤ 1 := by
    rw [← hL.length_eq]
    exact hone j hj
  -- A list of one at most has only one order.
  by_cases hnil : L = []
  · rw [hnil] at hleavers ⊢
    rw [hleavers.eq_nil]
  · obtain ⟨d, rfl⟩ := List.length_eq_one_iff.mp
      (Nat.le_antisymm hlen (List.length_pos_iff.mpr hnil))
    rw [List.perm_singleton.mp hleavers]

end Plan

end Embedding

/-! ## Computed plans -/

namespace Symbolic

/-- One tick in a region, without any others: who is left, who goes out, where dots
    wait, and what is asked. -/
structure RegionTick where
  left : List Dot
  out : List Dot
  waits : List Pos
  asked : List Query

/-- The tick of these dots. -/
def regionTick? (w : World) (R : Region) (X : List Dot) : Option RegionTick :=
  (turns? w X).map fun (C, qs) =>
    { left := nextInside w R C, out := C.filter (Dot.comesOut w),
      waits := (C.filter (·.phase.isWaiting)).map Dot.pos, asked := qs }

/-- Those who are left, but for those who have come to certain positions. -/
def following (w : World) (R : Region) (apart : Pos → Bool) (X : List Dot) : List Dot :=
  ((regionTick? w R X).map fun e => e.left.filter fun d => !apart d.pos).getD []

/-- Some ticks on end.  Those who come to certain positions are left out from there
    on. -/
def regionTicks (w : World) (R : Region) (apart : Pos → Bool) :
    Nat → List Dot → Option (List RegionTick)
  | 0, _ => some []
  | n + 1, X => (regionTick? w R X).bind fun e =>
      (regionTicks w R apart n (e.left.filter fun d => !apart d.pos)).map (e :: ·)

variable {w : World} {R : Region} {apart : Pos → Bool} {n k : Nat} {X : List Dot} {e : RegionTick}
  {es : List RegionTick}

theorem following_of_regionTick (h : regionTick? w R X = some e) :
    following w R apart X = e.left.filter fun d => !apart d.pos := by
  unfold following
  rw [h]
  rfl

theorem regionTick?_of_regionTicks (h : regionTicks w R apart n X = some es)
    (he : es[k]? = some e) :
    regionTick? w R ((following w R apart)^[k] X) = some e := by
  induction n generalizing X es k with
  | zero =>
    cases h
    cases he
  | succ n ih =>
    unfold regionTicks at h
    obtain ⟨e₀, he₀, h⟩ := Option.bind_eq_some_iff.mp h
    obtain ⟨es', hes', rfl⟩ := Option.map_eq_some_iff.mp h
    cases k with
    | zero =>
      cases he
      exact he₀
    | succ k =>
      rw [Function.iterate_succ_apply, following_of_regionTick he₀]
      exact ih hes' he

theorem length_of_regionTicks (h : regionTicks w R apart n X = some es) : es.length = n := by
  induction n generalizing X es with
  | zero =>
    cases h
    rfl
  | succ n ih =>
    obtain ⟨e₀, -, h⟩ := Option.bind_eq_some_iff.mp h
    obtain ⟨es', hes', rfl⟩ := Option.map_eq_some_iff.mp h
    rw [List.length_cons, ih hes']

/-- The dots before the next tick. -/
theorem iterate_succ_of_regionTicks (h : regionTicks w R apart n X = some es)
    (he : es[k]? = some e) :
    (following w R apart)^[k + 1] X = e.left.filter fun d => !apart d.pos := by
  rw [Function.iterate_succ_apply']
  exact following_of_regionTick (regionTick?_of_regionTicks h he)

/-- All who are left are in the region. -/
theorem following_within (X : List Dot) : ∀ d ∈ following w R apart X, R d.pos = true := by
  intro d hd
  unfold following at hd
  cases he : regionTick? w R X with
  | none => simp [he] at hd
  | some e =>
    rw [he] at hd
    have hleft := List.mem_of_mem_filter hd
    obtain ⟨⟨C, qs⟩, -, rfl⟩ := Option.map_eq_some_iff.mp he
    -- What is left of a turn is alive in the region.
    obtain ⟨x, -, hx⟩ := List.mem_flatMap.mp hleft
    have hisIn := List.of_mem_filter hx
    exact (Bool.and_eq_true_iff.mp hisIn).1

theorem iterate_within (hX : ∀ d ∈ X, R d.pos = true) (k : Nat) :
    ∀ d ∈ (following w R apart)^[k] X, R d.pos = true := by
  cases k with
  | zero => exact hX
  | succ k =>
    rw [Function.iterate_succ_apply']
    exact following_within _

end Symbolic

/-- A tick that has been computed. -/
theorem Step.of_regionTick {w : World} {R : Region} {ι : List Pos → Number → Prop} {ρ : Int → Int}
    {X : List Dot} {e : Symbolic.RegionTick} (hι : ∀ stack a, ι stack a → ι stack a.orZero)
    (h : Symbolic.regionTick? w R X = some e) (hholds : ∀ q ∈ e.asked, q.Holds ρ)
    (hwithin : ∀ x ∈ X, R x.pos = true) :
    Step w R ι (X.map (Dot.valued ρ)) (e.left.map (Dot.valued ρ)) (e.out.map (Dot.valued ρ))
      (· ∈ e.waits) := by
  obtain ⟨⟨C, qs⟩, hturns, rfl⟩ := Option.map_eq_some_iff.mp h
  refine Step.of_turns hι hturns hholds hwithin ?_
  intro d hd hwaits
  exact List.mem_map.mpr ⟨d, List.mem_filter.mpr ⟨hd, hwaits⟩, rfl⟩

namespace Symbolic

/-- The way of a dot, with all who are copied from it on the way.  Those who come to
    certain positions have left the way.  The numbers are stand-ins. -/
structure Way where
  start : Dot
  length : Nat
  /-- Those who leave the way in a tick. -/
  comes : Nat → List Dot
  /-- Those who go out in a tick. -/
  outs : Nat → List Dot
  /-- Those who are on the way after the last tick. -/
  ends : List Dot
  waits : List Pos
  asked : List Query

namespace Way

/-- The tick `k` of the way is this one. -/
def agrees (y : Way) (apart : Pos → Bool) (k : Nat) (e : RegionTick) : Bool :=
  decide ((e.left.filter fun d => apart d.pos).map Dot.bare = y.comes k) &&
    (decide (e.out.map Dot.bare = y.outs k) &&
    (decide (k + 1 = y.length → (e.left.filter fun d => !apart d.pos).map Dot.bare = y.ends) &&
    (e.waits.all (fun p => decide (p ∈ y.waits)) && e.asked.all fun q => decide (q ∈ y.asked))))

/-- The dot is not lost where it starts. -/
def lands (w : World) (R : Region) (y : Way) : Bool := y.start.isIn R && !Turn.isLost w y.start

/-- The way has been found to be so. -/
def isChecked (w : World) (R : Region) (apart : Pos → Bool) (y : Way) : Bool :=
  y.lands w R && (regionTicks w R apart y.length [y.start]).any fun es =>
    es.zipIdx.all fun (e, k) => y.agrees apart k e

/-- Those who are on the way before the tick `k`. -/
def dots (w : World) (R : Region) (apart : Pos → Bool) (y : Way) (ρ : Int → Int) (k : Nat) :
    List Dot :=
  (((following w R apart)^[k] [y.start]).map (Dot.valued ρ)).map Dot.bare

variable {w : World} {R : Region} {apart : Pos → Bool} {y : Way} {ρ : Int → Int} {k : Nat}

theorem map_bare_valued (X : List Dot) :
    (X.map (Dot.valued ρ)).map Dot.bare = (X.map Dot.bare).map (Dot.valued ρ) := by
  rw [List.map_map, List.map_map]
  rfl

/-- Nor is any other dot lost there. -/
theorem lands_of_start {d : Dot} (h : y.isChecked w R apart = true) (hpos : d.pos = y.start.pos)
    (hphase : d.phase = y.start.phase) : Turn.isLost w d = false ∧ d.isIn R = true := by
  have hlands := (Bool.and_eq_true_iff.mp h).1
  unfold lands Dot.isIn Turn.isLost at hlands
  rw [Bool.and_eq_true, Bool.not_eq_true'] at hlands
  unfold Dot.isIn Turn.isLost
  rw [hpos]
  unfold Dot.isDead at hlands ⊢
  rw [hphase]
  exact ⟨hlands.2, hlands.1⟩

/-- The tick `k` of a way. -/
theorem exists_regionTick (h : y.isChecked w R apart = true) (hk : k < y.length) :
    ∃ e, regionTick? w R ((following w R apart)^[k] [y.start]) = some e ∧
      y.agrees apart k e = true ∧
      (following w R apart)^[k + 1] [y.start] = e.left.filter fun d => !apart d.pos := by
  obtain ⟨es, hes, hall⟩ := (Option.any_eq_true _ _).mp (Bool.and_eq_true_iff.mp h).2
  have hlt : k < es.length := by
    rw [length_of_regionTicks hes]
    exact hk
  have he : es[k]? = some es[k] := List.getElem?_eq_getElem hlt
  refine ⟨es[k], regionTick?_of_regionTicks hes he, ?_, iterate_succ_of_regionTicks hes he⟩
  exact List.all_eq_true.mp hall (es[k], k) (List.mem_zipIdx_iff_getElem?.mpr he)

/-- One tick on the way. -/
theorem step {ι : List Pos → Number → Prop} (h : y.isChecked w R apart = true)
    (hk : k < y.length) (hι : ∀ stack a, ι stack a → ι stack a.orZero)
    (hholds : ∀ q ∈ y.asked, q.Holds ρ) :
    Step w R ι (y.dots w R apart ρ k)
      (y.dots w R apart ρ (k + 1) ++ (y.comes k).map (Dot.valued ρ))
      ((y.outs k).map (Dot.valued ρ)) (· ∈ y.waits) := by
  obtain ⟨e, hregion, hagrees, hnext⟩ := exists_regionTick h hk
  simp only [agrees, Bool.and_eq_true, decide_eq_true_eq, List.all_eq_true] at hagrees
  obtain ⟨hcomes, houts, -, hwaits, hasked⟩ := hagrees
  have hwithin : ∀ d ∈ [y.start], R d.pos = true := by
    intro d hd
    rw [List.mem_singleton.mp hd]
    exact (Bool.and_eq_true_iff.mp (lands_of_start h rfl rfl).2).1
  have hstep := (Step.of_regionTick hι hregion (fun q hq => hholds q (hasked q hq))
    (iterate_within hwithin k)).bare
  -- Those who are left are on the way still, or they leave it.
  have hleft : (y.dots w R apart ρ (k + 1) ++ (y.comes k).map (Dot.valued ρ)).Perm
      ((e.left.map (Dot.valued ρ)).map Dot.bare) := by
    unfold dots
    rw [hnext, map_bare_valued, map_bare_valued, ← hcomes, ← List.map_append, ← List.map_append]
    exact ((List.perm_append_comm.trans (List.filter_append_perm _ _)).map _).map _
  rw [← houts, ← map_bare_valued]
  exact (hstep.mono hwaits).perm_next hleft

/-- Those who are on the way at its end. -/
theorem dots_end (h : y.isChecked w R apart = true) (hlength : 0 < y.length) :
    y.dots w R apart ρ y.length = y.ends.map (Dot.valued ρ) := by
  obtain ⟨e, -, hagrees, hnext⟩ := exists_regionTick h (Nat.sub_lt hlength Nat.one_pos)
  have hlast : y.length - 1 + 1 = y.length := Nat.sub_add_cancel hlength
  rw [hlast] at hnext
  simp only [agrees, Bool.and_eq_true, decide_eq_true_eq] at hagrees
  unfold dots
  rw [hnext, map_bare_valued, hagrees.2.2.1 hlast]

end Way

end Symbolic

end DotPaths
