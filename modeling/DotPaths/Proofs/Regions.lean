import Mathlib.Data.List.Perm.Basic
import DotPaths.Proofs.Order
import DotPaths.Proofs.Passage

/-! # Regions of a drawing

    Dots have to do with each other only where they wait on the same cell.  So what
    goes on in a part of the drawing can be told from the dots that stand there,
    whatever the dots elsewhere do: after a tick there are in the region those that
    the tick has left of the dots in it, and those that have come in.

    A dot that goes out of a library by its entrance is counted on its own, even if
    its way leads back into the region at once.

    - `nextInside`: what a tick leaves of the dots of a region.
    - `nextInside_perm`, `nextInside_append`: neither their order matters nor other
      dots that wait elsewhere.
    - `Ticks.tells`: the dots of the region after a tick, and those that go out in it.
-/

namespace DotPaths

/-- A part of the drawing. -/
abbrev Region := Pos → Bool

/-- The dots that stand in the region. -/
def inside (R : Region) (dots : List Dot) : List Dot := dots.filter fun d => R d.pos

@[simp] theorem mem_inside {R : Region} {dots : List Dot} {d : Dot} :
    d ∈ inside R dots ↔ d ∈ dots ∧ R d.pos = true := List.mem_filter

/-- The dot is alive in the region. -/
def Dot.isIn (R : Region) (d : Dot) : Bool := R d.pos && !d.isDead

/-- Does the dot go out of a library? -/
def Dot.comesOut (w : World) (d : Dot) : Bool := d.passage? w == some .out

/-- A dot goes out where it travels over an exposed cell. -/
theorem Dot.comesOut_iff {w : World} {d : Dot} :
    d.comesOut w = true ↔ ∃ c v, w.cell? d.pos = some c ∧ d.travelsOver c = true ∧
      c.kind.warp? = some v ∧ v.role = .exposed := by
  unfold comesOut
  rw [beq_iff_eq]
  constructor
  · intro h
    cases hc : w.cell? d.pos with
    | none => simp [passage?, hc] at h
    | some c =>
      by_cases hover : d.travelsOver c = true
      · rw [passage?_of_over hc hover] at h
        split at h
        · next v hv =>
          by_cases hrole : v.role = .exposed
          · exact ⟨c, v, rfl, hover, hv, hrole⟩
          · rw [if_neg hrole] at h
            split at h
            · cases h
            · cases h
        · cases h
      · rw [passage?_of_not_over hc (by simpa using hover)] at h
        cases h
  · rintro ⟨c, v, hc, hover, hv, hrole⟩
    rw [passage?_of_over hc hover]
    simp only [hv, if_pos hrole]

/-- A dot that goes out is not at a crossing. -/
theorem Dot.copies_of_comesOut {w : World} {d : Dot} (h : d.comesOut w = true) :
    d.copies w = [] := by
  obtain ⟨c, v, hc, hover, -, -⟩ := comesOut_iff.mp h
  apply copies_of_glyph_ne hc
  simp only [travelsOver, Bool.and_eq_true, bne_iff_ne] at hover
  exact hover.2

/-- The dot where it comes out, one cell on from the entrance that it went in by. -/
def Dot.out? (d : Dot) : Option Dot :=
  match d.stack with
  | [] => none
  | p :: stack => some { d with pos := p, stack := stack }.move

theorem Dot.deed_of_comesOut {w : World} {d : Dot} (h : d.comesOut w = true) :
    ∃ c, w.cell? d.pos = some c ∧ d.phase = .travel ∧ d.deed w c = d.leave := by
  obtain ⟨c, v, hc, hover, hv, hrole⟩ := comesOut_iff.mp h
  simp only [travelsOver, Bool.and_eq_true, decide_eq_true_eq, Bool.not_eq_true', bne_iff_ne] at hover
  obtain ⟨⟨hphase, hturn⟩, hstar⟩ := hover
  exact ⟨c, hc, hphase, by simp [deed, hphase, travelDeed, hturn, hstar, hv, hrole]⟩

theorem Dot.isSilent_of_comesOut {w : World} {d : Dot} (h : d.comesOut w = true) :
    d.isSilent w = true := by
  obtain ⟨c, hc, -, hdeed⟩ := deed_of_comesOut h
  unfold isSilent
  rw [hc]
  show (d.deed w c).isSilent = true
  rw [hdeed]
  unfold leave
  split
  · split
    · rfl
    · rfl
  · rfl

theorem Dot.afterRound?_of_comesOut {w : World} {dots : List Dot} {d : Dot}
    (h : d.comesOut w = true) :
    d.afterRound? w dots = d.out?.map (settled w) := by
  obtain ⟨c, hc, hphase, hdeed⟩ := deed_of_comesOut h
  have hresult : d.leave.result? = d.out? := by
    unfold leave out?
    cases d.stack with
    | nil =>
      dsimp only
      split
      · rfl
      · rfl
    | cons p stack => rfl
  unfold afterRound?
  simp [hc, hphase, Phase.meeting?, hdeed, hresult]

/-- What the turn of a dot leaves in the region: itself and its copies. -/
def Dot.remains (w : World) (R : Region) (dots : List Dot) (d : Dot) : List Dot :=
  ((d.afterRound? w dots).toList ++ d.copies w).filter (Dot.isIn R)

/-- What a tick leaves in the region, from what the dots there chose.  Those that go
    out of a library are left out. -/
def nextInside (w : World) (R : Region) (dots : List Dot) : List Dot :=
  (dots.filter fun d => !d.comesOut w).flatMap (Dot.remains w R dots)

/-- The dots that go out of a library, as they are after the tick. -/
def outFrom (w : World) (dots : List Dot) : List Dot :=
  (dots.filter (Dot.comesOut w)).filterMap (Dot.afterRound? w dots)

section
variable {w : World} {R : Region} {dots dots' A B : List Dot} {p : Pos} {d : Dot}

/-- Only for a dot that waits the others count, and only by who meets at its cell. -/
theorem Dot.afterRound?_eq_of_pair?
    (h : d.phase.isWaiting = true → pair? d.pos dots = pair? d.pos dots') :
    d.afterRound? w dots = d.afterRound? w dots' := by
  by_cases hwaits : d.phase.isWaiting = true
  · exact Dot.afterRound?_congr (h hwaits)
  · have hnone : d.phase.meeting? = none := by
      simpa [Phase.isWaiting] using hwaits
    unfold afterRound?
    simp only [hnone]

/-- The order of the dots does not matter. -/
theorem nextInside_perm (horder : Orderly dots) (hperm : dots.Perm dots') :
    (nextInside w R dots).Perm (nextInside w R dots') := by
  have hremains : ∀ d : Dot, d.remains w R dots = d.remains w R dots' := by
    intro d
    unfold Dot.remains
    rw [Dot.afterRound?_congr (pair?_perm horder hperm)]
  unfold nextInside
  rw [show Dot.remains w R dots = Dot.remains w R dots' from funext hremains]
  exact (hperm.filter _).flatMap_right _

theorem outFrom_eq :
    outFrom w dots = (dots.filter (Dot.comesOut w)).filterMap fun d => d.out?.map (Dot.settled w) := by
  unfold outFrom
  apply List.filterMap_congr
  intro d hd
  exact Dot.afterRound?_of_comesOut (List.of_mem_filter hd)

theorem outFrom_perm (hperm : dots.Perm dots') : (outFrom w dots).Perm (outFrom w dots') := by
  rw [outFrom_eq, outFrom_eq]
  exact (hperm.filter _).filterMap _

/-! Dots that wait at different cells have nothing to do with each other. -/

/-- No dot of the one list waits where a dot of the other list does. -/
def WaitApart (A B : List Dot) : Prop :=
  ∀ a ∈ A, ∀ b ∈ B, a.phase.isWaiting = true → b.phase.isWaiting = true → a.pos ≠ b.pos

theorem WaitApart.symm (h : WaitApart A B) : WaitApart B A := by
  intro b hb a ha hbw haw hpos
  exact h a ha b hb haw hbw hpos.symm

theorem Dot.isWaiting_of_waitsAt {role : Bool} (h : d.waitsAt p role = true) :
    d.phase.isWaiting = true := by
  obtain ⟨m, hm, -, -⟩ := waitsAt_iff.mp h
  rw [hm]
  rfl

theorem WaitApart.orderly (h : WaitApart A B) (hA : Orderly A) (hB : Orderly B) :
    Orderly (A ++ B) := by
  refine List.pairwise_append.mpr ⟨hA, hB, ?_⟩
  intro a ha b hb
  have hnot : ∀ role role', a.waitsAt a.pos role = true → ¬ b.waitsAt a.pos role' = true := by
    intro role role' haw hbw
    exact h a ha b hb (Dot.isWaiting_of_waitsAt haw) (Dot.isWaiting_of_waitsAt hbw)
      (Dot.waitsAt_pos hbw).symm
  exact ⟨fun hboth => hnot true true hboth.1 hboth.2, fun haw hbw => absurd hbw (hnot _ _ haw)⟩

theorem WaitApart.afterRound?_left (h : WaitApart A B) (hA : Orderly A) (hB : Orderly B)
    (hd : d ∈ A) :
    d.afterRound? w (A ++ B) = d.afterRound? w A := by
  apply Dot.afterRound?_eq_of_pair?
  intro hwaits
  refine pair?_eq_of_waiting ((h.orderly hA hB).orderlyAt _) (hA.orderlyAt _) ?_
  intro role o ho
  rw [List.mem_append]
  refine ⟨fun hmem => hmem.resolve_right ?_, .inl⟩
  intro hB'
  exact h d hd o hB' hwaits (Dot.isWaiting_of_waitsAt ho) (Dot.waitsAt_pos ho).symm

theorem WaitApart.afterRound?_right (h : WaitApart A B) (hA : Orderly A) (hB : Orderly B)
    (hd : d ∈ B) :
    d.afterRound? w (A ++ B) = d.afterRound? w B := by
  rw [← h.symm.afterRound?_left hB hA hd]
  exact Dot.afterRound?_congr (pair?_perm (h.orderly hA hB) List.perm_append_comm)

theorem nextInside_append (h : WaitApart A B) (hA : Orderly A) (hB : Orderly B) :
    nextInside w R (A ++ B) = nextInside w R A ++ nextInside w R B := by
  unfold nextInside
  rw [List.filter_append, List.flatMap_append]
  congr 1
  · apply List.flatMap_congr
    intro d hd
    unfold Dot.remains
    rw [h.afterRound?_left hA hB (List.mem_of_mem_filter hd)]
  · apply List.flatMap_congr
    intro d hd
    unfold Dot.remains
    rw [h.afterRound?_right hA hB (List.mem_of_mem_filter hd)]

end

namespace Machine

/-- The dots that come into the region in a tick, where `c` and `t` are the scenes
    before and after the turns: they stood elsewhere, or were copied elsewhere. -/
def comers (w : World) (R : Region) (c t : Scene) : List Dot :=
  ((c.dots.zip t.dots).filter fun x => !R x.1.pos).flatMap fun x =>
    (x.2 :: x.1.copies w).filter (Dot.isIn R)

/-- The dots of the region that go out of a library in a tick, as they are after it. -/
def leavers (w : World) (R : Region) (c t : Scene) : List Dot :=
  ((c.dots.zip t.dots).filter fun x => R x.1.pos && x.1.comesOut w).map Prod.snd

namespace Ticks

variable {w : World} {R : Region} {s c t s' : Scene}

theorem actingAll (h : Ticks w s c t s') : actAll w c.dots.length c = .ok () t := by
  rw [h.length]
  exact h.acting

/-- The dots of the region choose, and stay where they are. -/
theorem inside_chosen (h : Ticks w s c t s') :
    List.Forall₂ (fun d d' : Dot => d.chosen w = .ok d') (inside R s.dots) (inside R c.dots) := by
  refine List.rel_filter ?_ (chooseAll_ok_iff.mp h.choosing).1
  intro d d' hchosen
  have hpos : d'.pos = d.pos := by
    rcases Dot.chosen_ok hchosen with rfl | ⟨_, _, -, -, -, rfl⟩
    · rfl
    · rfl
  show R d.pos = true ↔ R d'.pos = true
  rw [hpos]

/-- After the tick: the survivors of the turns, and behind them the copies. -/
theorem dots_eq (h : Ticks w s c t s') :
    s'.dots = ((c.dots.zip t.dots).map Prod.snd).filter (fun d => !d.isDead) ++
      c.dots.flatMap (Dot.copies w) := by
  have hround := h.round
  have hnew := hround.new
  rw [List.take_length] at hnew
  have hzip : (c.dots.zip t.dots).map Prod.snd = t.dots.take c.dots.length := by
    rw [List.zip_eq_zip_take_min, Nat.min_eq_left hround.length, List.take_length]
    exact List.map_snd_zip (by rw [List.length_take]; omega)
  rw [h.dots, ← h.length, sweep, hnew, hzip]

/-- The dots of the region after the tick, by the turns that they come from. -/
theorem inside_perm_turns (h : Ticks w s c t s') :
    (inside R s'.dots).Perm
      ((c.dots.zip t.dots).flatMap fun x => (x.2 :: x.1.copies w).filter (Dot.isIn R)) := by
  -- Copies are alive, so only the dots themselves may be swept away.
  have hlive : ∀ d : Dot, ∀ e ∈ d.copies w, e.isDead = false := by
    intro d e he
    unfold Dot.copies at he
    split at he
    · obtain ⟨dir, -, rfl⟩ := List.mem_map.mp he
      rfl
    · cases he
  have hself : ((c.dots.zip t.dots).map Prod.snd).filter (Dot.isIn R) =
      (c.dots.zip t.dots).flatMap fun x => [x.2].filter (Dot.isIn R) := by
    rw [List.map_eq_flatMap, List.filter_flatMap]
  have hcopies : (c.dots.flatMap (Dot.copies w)).filter (fun d => R d.pos) =
      (c.dots.zip t.dots).flatMap fun x => (x.1.copies w).filter (Dot.isIn R) := by
    have hfst := List.map_fst_zip h.round.length
    conv_lhs => rw [← hfst]
    rw [List.flatMap_map, List.filter_flatMap]
    congr 1
    funext x
    apply List.filter_congr
    intro e he
    simp [Dot.isIn, hlive x.1 e he]
  have hparts : inside R s'.dots = ((c.dots.zip t.dots).map Prod.snd).filter (Dot.isIn R) ++
      (c.dots.flatMap (Dot.copies w)).filter fun d => R d.pos := by
    unfold inside
    rw [h.dots_eq, List.filter_append, List.filter_filter]
    rfl
  rw [hparts, hself, hcopies]
  refine (List.flatMap_append_perm _ _ _).trans ?_
  simp only [← List.filter_append, List.singleton_append]
  exact .refl _

/-- Some dots of the region, found by their turns. -/
theorem filter_inside (h : Ticks w s c t s') (f : Dot → Bool) :
    (inside R c.dots).filter f =
      ((c.dots.zip t.dots).filter fun x => R x.1.pos && f x.1).map Prod.fst := by
  have hfst := List.map_fst_zip h.round.length
  unfold inside
  conv_lhs => rw [← hfst]
  rw [List.filter_filter, List.filter_map]
  simp only [Function.comp_def, Bool.and_comm]

theorem orderlyAt_of_inside (horder : Orderly (inside R c.dots)) {p : Pos} (hp : R p = true) :
    OrderlyAt p c.dots := by
  refine (List.pairwise_filter.mp horder).imp ?_
  intro a b hab ha hb
  exact hab (ha ▸ hp) (hb ▸ hp)

/-- In an orderly region the dots meet as they would if there were no others. -/
theorem pair?_inside (horder : Orderly (inside R c.dots)) {p : Pos} (hp : R p = true) :
    pair? p (inside R c.dots) = pair? p c.dots := by
  refine pair?_eq_of_waiting (horder.orderlyAt p) (orderlyAt_of_inside horder hp) ?_
  intro role d hwaits
  rw [mem_inside, Dot.waitsAt_pos hwaits]
  exact and_iff_left hp

/-- The turn of a dot in an orderly and silent region makes of it what is settled. -/
theorem afterRound_inside (h : Ticks w s c t s') (horder : Orderly (inside R c.dots))
    (hsilent : ∀ d ∈ inside R c.dots, d.isSilent w = true) {x : Dot × Dot}
    (hx : x ∈ c.dots.zip t.dots) (hR : R x.1.pos = true) :
    x.1.afterRound? w (inside R c.dots) = some x.2 := by
  obtain ⟨k, hk⟩ := List.mem_iff_getElem?.mp hx
  obtain ⟨hc, ht⟩ := List.getElem?_zip_eq_some.mp hk
  have horder' := orderlyAt_of_inside horder hR
  have hmem : x.1 ∈ inside R c.dots := mem_inside.mpr ⟨List.mem_of_getElem? hc, hR⟩
  obtain ⟨d', hafter, hd'⟩ := dot_at_end (steady_chooseAll h.choosing) horder' (hsilent _ hmem)
    h.actingAll hc
  cases ht.symm.trans hd'
  rw [Dot.afterRound?_congr (pair?_inside horder hR)]
  exact hafter

/-- The dots of an orderly and silent region after a tick: what is left of those in
    it, those that went out of a library and back in at once, and those that came in. -/
theorem inside_perm (h : Ticks w s c t s') (horder : Orderly (inside R c.dots))
    (hsilent : ∀ d ∈ inside R c.dots, d.isSilent w = true) :
    (inside R s'.dots).Perm (nextInside w R (inside R c.dots) ++
      ((leavers w R c t).filter (Dot.isIn R) ++ comers w R c t)) := by
  -- The turns are those of the dots that stay in the region, that go out, and that are outside.
  let turnsOf (f : Dot × Dot → Bool) : List Dot :=
    ((c.dots.zip t.dots).filter f).flatMap fun x => (x.2 :: x.1.copies w).filter (Dot.isIn R)
  have hsplit : ((c.dots.zip t.dots).flatMap fun x =>
      (x.2 :: x.1.copies w).filter (Dot.isIn R)).Perm
        (turnsOf (fun x => R x.1.pos && !x.1.comesOut w) ++
          (turnsOf (fun x => R x.1.pos && x.1.comesOut w) ++ turnsOf fun x => !R x.1.pos)) := by
    have hin := (List.filter_append_perm (fun x : Dot × Dot => !x.1.comesOut w)
      ((c.dots.zip t.dots).filter fun x => R x.1.pos)).flatMap_right fun x =>
        (x.2 :: x.1.copies w).filter (Dot.isIn R)
    have hall := (List.filter_append_perm (fun x : Dot × Dot => R x.1.pos)
      (c.dots.zip t.dots)).flatMap_right fun x => (x.2 :: x.1.copies w).filter (Dot.isIn R)
    rw [List.flatMap_append] at hin hall
    simp only [List.filter_filter, Bool.not_not] at hin
    refine hall.symm.trans ?_
    rw [← List.append_assoc]
    refine List.Perm.append_right _ ?_
    simp only [Bool.and_comm] at hin
    exact hin.symm
  refine h.inside_perm_turns.trans (hsplit.trans ?_)
  have hstay : turnsOf (fun x => R x.1.pos && !x.1.comesOut w) =
      nextInside w R (inside R c.dots) := by
    unfold nextInside
    rw [h.filter_inside, List.flatMap_map]
    apply List.flatMap_congr
    intro x hx
    obtain ⟨hmem, hstays⟩ := List.mem_filter.mp hx
    have hR : R x.1.pos = true := by
      rw [Bool.and_eq_true] at hstays
      exact hstays.1
    simp [Dot.remains, h.afterRound_inside horder hsilent hmem hR]
  have hout : turnsOf (fun x => R x.1.pos && x.1.comesOut w) =
      (leavers w R c t).filter (Dot.isIn R) := by
    unfold leavers
    rw [List.map_eq_flatMap, List.filter_flatMap]
    apply List.flatMap_congr
    intro x hx
    obtain ⟨-, hleaves⟩ := List.mem_filter.mp hx
    -- A dot that passes a warp is not at a crossing.
    have hnone : x.1.copies w = [] := by
      rw [Bool.and_eq_true] at hleaves
      exact Dot.copies_of_comesOut hleaves.2
    rw [hnone]
  rw [hstay, hout]
  exact .refl _

/-- The dots that go out of an orderly and silent region in a tick. -/
theorem leavers_eq (h : Ticks w s c t s') (horder : Orderly (inside R c.dots))
    (hsilent : ∀ d ∈ inside R c.dots, d.isSilent w = true) :
    leavers w R c t = outFrom w (inside R c.dots) := by
  unfold leavers outFrom
  rw [h.filter_inside, List.filterMap_map]
  symm
  rw [← List.filterMap_eq_map]
  apply List.filterMap_congr
  intro x hx
  obtain ⟨hmem, hleaves⟩ := List.mem_filter.mp hx
  rw [Bool.and_eq_true] at hleaves
  exact h.afterRound_inside horder hsilent hmem hleaves.1

/-- Equal choices, in any order. -/
theorem chosen_perm {L L' E C : List Dot} (hL : List.Forall₂ (fun d d' : Dot => d.chosen w = .ok d') L L')
    (hE : List.Forall₂ (fun d d' : Dot => d.chosen w = .ok d') E C) (hperm : L.Perm E) :
    L'.Perm C := by
  have hmap : ∀ {l l' : List Dot}, List.Forall₂ (fun d d' : Dot => d.chosen w = .ok d') l l' →
      l.map (Dot.chosen w) = l'.map Except.ok := by
    intro l l' h
    induction h with
    | nil => rfl
    | cons hd _ ih => rw [List.map_cons, List.map_cons, hd, ih]
  have hok := hperm.map (Dot.chosen w)
  rw [hmap hL, hmap hE] at hok
  exact (List.map_perm_map_iff fun _ _ h => Except.ok.inj h).mp hok

/-- If the dots of the region are known before a tick, up to their order, and what
    they choose is orderly and silent, then those after the tick are known, and those
    that go out. -/
theorem tells {E C : List Dot} (h : Ticks w s c t s') (hE : (inside R s.dots).Perm E)
    (hC : List.Forall₂ (fun d d' : Dot => d.chosen w = .ok d') E C) (horder : Orderly C)
    (hsilent : ∀ d ∈ C, d.isSilent w = true) :
    (inside R s'.dots).Perm (nextInside w R C ++
        ((leavers w R c t).filter (Dot.isIn R) ++ comers w R c t)) ∧
      (leavers w R c t).Perm (outFrom w C) := by
  have hperm := chosen_perm h.inside_chosen hC hE
  have horder' := horder.perm hperm.symm
  have hsilent' : ∀ d ∈ inside R c.dots, d.isSilent w = true :=
    fun d hd => hsilent d (hperm.mem_iff.mp hd)
  constructor
  · exact (h.inside_perm horder' hsilent').trans ((nextInside_perm horder' hperm).append_right _)
  · rw [h.leavers_eq horder' hsilent']
    exact outFrom_perm hperm

end Ticks

end Machine

end DotPaths
