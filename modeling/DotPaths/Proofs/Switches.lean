import DotPaths.Proofs.SymbolicRegions

/-! # Queues at a switch

    At a switch a dot that moves horizontally waits for one that moves vertically.  It
    is turned aside if the other brings a number that is not zero, and goes straight
    on otherwise.  Here many others may be waiting at the switch, but one such master
    at most.  If they have come one well after the other, the master meets the one
    that came first, and the rest wait on.

    - `Switch.step_waiting`: without a master all others wait on.
    - `Switch.step_alone`: a master that finds nobody waits on.
    - `Switch.step_meeting`: the master meets the first of the queue.
-/

namespace DotPaths

/-- There is a switch at the position, in the region. -/
structure Switch (w : World) (R : Region) (p : Pos) : Prop where
  cell : ∃ c, w.cell? p = some c ∧ c.glyph = '~'
  within : R p = true

namespace Switch

/-- The phase of a dot that came to a switch so many turns ago. -/
def awaiting (master : Bool) (age : Nat) : Phase :=
  if age = 0 then .travel else .meet ⟨.switch, master, false, age⟩

/-- A dot that came upwards to the switch at `p`, by its number and its age. -/
def other (p : Pos) (stack : List Pos) (q : Int × Nat) : Dot :=
  { pos := p, spawn := ⟨0, 0⟩, dir := .up, value := .int q.1, phase := awaiting false q.2,
    stack := stack }

/-- A dot that came to the switch from the left. -/
def master (p : Pos) (stack : List Pos) (q : Int × Nat) : Dot :=
  { pos := p, spawn := ⟨0, 0⟩, dir := .right, value := .int q.1, phase := awaiting true q.2,
    stack := stack }

/-- The dot where it has been turned aside, or where it has gone straight on. -/
def passed (p : Pos) (stack : List Pos) (x : Int) (dir : Pos) : Dot :=
  { pos := p + dir, spawn := ⟨0, 0⟩, dir := dir, value := .int x, stack := stack }

/-- One turn older. -/
def older (q : Int × Nat) : Int × Nat := (q.1, q.2 + 1)

/-- The first came two turns before the second, at least, and so on. -/
def Spaced (queue : List (Int × Nat)) : Prop := queue.Pairwise fun a b => b.2 + 2 ≤ a.2

/-! ## Choosing -/

/-- The dot has chosen to wait. -/
def ready (role : Bool) (age : Nat) (d : Dot) : Dot :=
  { d with phase := .meet ⟨.switch, role, false, age⟩ }

/-- The other dot has chosen to wait. -/
abbrev readyOther (p : Pos) (stack : List Pos) (q : Int × Nat) : Dot :=
  ready false q.2 (other p stack q)

/-- The master has chosen to wait. -/
abbrev readyMaster (p : Pos) (stack : List Pos) (q : Int × Nat) : Dot :=
  ready true q.2 (master p stack q)

section choosing
variable {w : World} {R : Region} {p : Pos} {stack : List Pos} {d : Dot} {age : Nat}

theorem choose_awaiting (h : Switch w R p) (hpos : d.pos = p)
    (hphase : d.phase = awaiting d.dir.isHorizontal age) :
    Symbolic.choose w d = some (ready d.dir.isHorizontal age d) := by
  obtain ⟨c, hc, hglyph⟩ := h.cell
  have hchoose : d.choose c = .ok (.meet ⟨.switch, d.dir.isHorizontal, false, age⟩) := by
    unfold Dot.choose
    rw [hphase]
    unfold awaiting
    by_cases hage : age = 0
    · rw [if_pos hage, hage]
      simp [Dot.travelPhase, hglyph, Meeting.start, Purpose.isMaster]
    · rw [if_neg hage]
  have hchosen : d.chosen w = .ok (ready d.dir.isHorizontal age d) := by
    unfold Dot.chosen
    rw [show w.cell? d.pos = some c by rw [hpos, hc]]
    simp [hchoose, Except.map, Cell.isBlank, hglyph, ready]
  unfold Symbolic.choose
  have hident : ∀ e, d.phase ≠ .ident e := by
    intro e
    rw [hphase]
    unfold awaiting
    split <;> exact Phase.noConfusion
  split
  · next e he => exact absurd he (hident e)
  · rw [hpos, hc, hchosen]
    simp [hglyph, Except.toOption]

theorem chooseAll_append {X Y X' Y' : List Dot} (hX : Symbolic.chooseAll w X = some X')
    (hY : Symbolic.chooseAll w Y = some Y') : Symbolic.chooseAll w (X ++ Y) = some (X' ++ Y') := by
  induction X generalizing X' with
  | nil =>
    cases hX
    exact hY
  | cons x X ih =>
    unfold Symbolic.chooseAll at hX
    obtain ⟨x', hx', hX⟩ := Option.bind_eq_some_iff.mp hX
    obtain ⟨X₁, hX₁, rfl⟩ := Option.map_eq_some_iff.mp hX
    rw [List.cons_append, Symbolic.chooseAll, hx', Option.bind_some, ih hX₁]
    rfl

theorem chooseAll_others (h : Switch w R p) (queue : List (Int × Nat)) :
    Symbolic.chooseAll w (queue.map (other p stack)) = some (queue.map (readyOther p stack)) := by
  induction queue with
  | nil => rfl
  | cons q queue ih =>
    have hq : Symbolic.choose w (other p stack q) = some (readyOther p stack q) :=
      h.choose_awaiting rfl rfl
    rw [List.map_cons, Symbolic.chooseAll, hq, Option.bind_some, ih]
    rfl

theorem chooseAll_master (h : Switch w R p) (q : Int × Nat) :
    Symbolic.chooseAll w [master p stack q] = some [readyMaster p stack q] := by
  have hq : Symbolic.choose w (master p stack q) = some (readyMaster p stack q) :=
    h.choose_awaiting rfl rfl
  rw [Symbolic.chooseAll, hq]
  rfl

end choosing

/-! ## Who meets -/

section meeting
variable {w : World} {R : Region} {p : Pos} {stack stack' : List Pos} {queue : List (Int × Nat)}
  {a q : Int × Nat}

/-- Who is ready waits in one role only. -/
theorem waitsAt_ready {role role' : Bool} {age : Nat} {d : Dot} (hpos : d.pos = p) :
    (ready role age d).waitsAt p role' = true ↔ role' = role := by
  rw [Dot.waitsAt_iff]
  constructor
  · rintro ⟨m, hm, -, rfl⟩
    cases hm
    rfl
  · rintro rfl
    exact ⟨_, rfl, hpos, rfl⟩

theorem orderly_others (h : Spaced queue) : Orderly (queue.map (readyOther p stack)) := by
  unfold Orderly
  rw [List.pairwise_map]
  refine h.imp ?_
  intro a b hab
  constructor
  · rintro ⟨ha, -⟩
    cases (waitsAt_ready rfl).mp ha
  · intro _ _
    exact .inr hab

theorem orderly_meeting (h : Spaced queue) :
    Orderly (queue.map (readyOther p stack) ++ [readyMaster p stack' a]) := by
  refine List.pairwise_append.mpr ⟨orderly_others h, List.pairwise_singleton _ _, ?_⟩
  intro d hd e he
  obtain ⟨q, -, rfl⟩ := List.mem_map.mp hd
  rw [List.mem_singleton.mp he]
  constructor
  · rintro ⟨hq, -⟩
    cases (waitsAt_ready rfl).mp hq
  · intro _ ha
    cases (waitsAt_ready rfl).mp ha

theorem pair?_others : pair? p (queue.map (readyOther p stack)) = none := by
  have hnone : eldest? p true (queue.map (readyOther p stack)) = none := by
    apply eldest?_eq_none_iff.mpr
    intro d hd
    obtain ⟨q, -, rfl⟩ := List.mem_map.mp hd
    apply Bool.eq_false_iff.mpr
    intro hwaits
    cases (waitsAt_ready rfl).mp hwaits
  unfold pair?
  rw [hnone]
  rfl

theorem pair?_master : pair? p [readyMaster p stack a] = none := by
  have hnone : eldest? p false [readyMaster p stack a] = none := by
    apply eldest?_eq_none_iff.mpr
    intro d hd
    rw [List.mem_singleton.mp hd]
    apply Bool.eq_false_iff.mpr
    intro hwaits
    cases (waitsAt_ready rfl).mp hwaits
  unfold pair?
  rw [hnone]
  cases eldest? p true [readyMaster p stack a] <;> rfl

/-- The master and the first of the queue meet. -/
theorem pair?_meeting (h : Spaced (q :: queue)) :
    pair? p ((q :: queue).map (readyOther p stack) ++ [readyMaster p stack' a]) =
      some (readyMaster p stack' a, readyOther p stack q) := by
  have horder : OrderlyAt p ((q :: queue).map (readyOther p stack) ++ [readyMaster p stack' a]) :=
    (orderly_meeting h).orderlyAt p
  have hmem : ∀ d ∈ (q :: queue).map (readyOther p stack) ++ [readyMaster p stack' a],
      (∃ b ∈ q :: queue, d = readyOther p stack b) ∨ d = readyMaster p stack' a := by
    intro d hd
    rcases List.mem_append.mp hd with hd | hd
    · obtain ⟨b, hb, rfl⟩ := List.mem_map.mp hd
      exact .inl ⟨b, hb, rfl⟩
    · exact .inr (List.mem_singleton.mp hd)
  refine pair?_eq_some_iff.mpr ⟨?_, ?_⟩
  · refine (eldest?_eq_some_iff horder).mpr ⟨by simp, (waitsAt_ready rfl).mpr rfl, ?_⟩
    intro d hd hwaits
    rcases hmem d hd with ⟨b, -, rfl⟩ | rfl
    · cases (waitsAt_ready rfl).mp hwaits
    · exact .inl rfl
  · refine (eldest?_eq_some_iff horder).mpr ⟨by simp, (waitsAt_ready rfl).mpr rfl, ?_⟩
    intro d hd hwaits
    rcases hmem d hd with ⟨b, hb, rfl⟩ | rfl
    · rcases List.mem_cons.mp hb with rfl | hb
      · exact .inl rfl
      · exact .inr (List.rel_of_pairwise_cons h hb)
    · cases (waitsAt_ready rfl).mp hwaits

end meeting

/-! ## Ticks -/

section rounds
variable {w : World} {R : Region} {p : Pos} {stack stack' : List Pos} {queue : List (Int × Nat)}
  {a q : Int × Nat} {C : List Dot}

theorem comesOut_of_waiting {d : Dot} (h : d.phase ≠ .travel) : d.comesOut w = false := by
  unfold Dot.comesOut
  rw [Dot.passage?_of_phase h]
  rfl

/-- Of dots that all wait there remains what the round makes of each. -/
theorem nextInside_waiting (h : ∀ d ∈ C, d.phase ≠ .travel) :
    nextInside w R C = C.flatMap fun d => (d.afterRound? w C).toList.filter (Dot.isIn R) := by
  have hstay : (C.filter fun d => !d.comesOut w) = C := by
    apply List.filter_eq_self.mpr
    intro d hd
    rw [comesOut_of_waiting (h d hd)]
    rfl
  unfold nextInside
  rw [hstay]
  apply List.flatMap_congr
  intro d hd
  unfold Dot.remains
  rw [Dot.copies_of_phase_ne (h d hd), List.append_nil]

/-- A dot waits on where nobody meets. -/
theorem afterRound?_alone (h : Switch w R p) {role : Bool} {age : Nat} {d : Dot} (hpos : d.pos = p)
    (hpair : pair? p C = none) :
    (ready role age d).afterRound? w C = some { d with phase := awaiting role (age + 1) } := by
  obtain ⟨c, hc, -⟩ := h.cell
  have hready : (ready role age d).pos = p := hpos
  exact Dot.afterRound?_unpaired (by rw [hready, hc]) rfl (by rw [hready, hpair])

/-- The other dot waits on when someone before it is met. -/
theorem afterRound?_other_behind (h : Switch w R p) {d : Dot} {b : Int × Nat}
    (hpair : pair? p C = some (d, readyOther p stack q)) (hage : b.2 + 2 ≤ q.2) :
    (readyOther p stack b).afterRound? w C = some (other p stack (older b)) := by
  obtain ⟨c, hc, -⟩ := h.cell
  have hpos : (readyOther p stack b).pos = p := rfl
  have hne : readyOther p stack q ≠ readyOther p stack b := by
    intro heq
    have hsame : (readyOther p stack q).age = (readyOther p stack b).age := by rw [heq]
    have hsame : q.2 = b.2 := hsame
    omega
  exact Dot.afterRound?_behind (by rw [hpos, hc]) rfl rfl (by rw [hpos, hpair]) hne

theorem pos_of_mem_others {x : Dot} (hx : x ∈ queue.map (other p stack)) : x.pos = p := by
  obtain ⟨b, -, rfl⟩ := List.mem_map.mp hx
  rfl

theorem waiting_of_mem_others {d : Dot} (hd : d ∈ queue.map (readyOther p stack)) :
    d.pos = p ∧ d.phase ≠ .travel := by
  obtain ⟨b, -, rfl⟩ := List.mem_map.mp hd
  exact ⟨rfl, Phase.noConfusion⟩

theorem isIn_of_pos (h : Switch w R p) {d : Dot} (hpos : d.pos = p) (hlive : d.isDead = false) :
    d.isIn R = true := by
  unfold Dot.isIn
  rw [hpos, h.within, hlive]
  rfl

/-- A queue whose dots all wait on grows older. -/
theorem flatMap_others (h : Switch w R p)
    (hafter : ∀ b ∈ queue,
      (readyOther p stack b).afterRound? w C = some (other p stack (older b))) :
    ((queue.map (readyOther p stack)).flatMap fun d =>
        (d.afterRound? w C).toList.filter (Dot.isIn R)) =
      (queue.map older).map (other p stack) := by
  induction queue with
  | nil => rfl
  | cons q queue ih =>
    obtain ⟨hq, hqueue⟩ := List.forall_mem_cons.mp hafter
    rw [List.map_cons, List.flatMap_cons, ih hqueue, hq]
    show [other p stack (older q)].filter (Dot.isIn R) ++ _ = _
    rw [List.filter_cons_of_pos (h.isIn_of_pos rfl rfl)]
    rfl

/-- The direction in which the master goes on. -/
def onward (v : Int) : Pos := if v = 0 then .right else .up

/-- The master goes on, turned aside if the number is not zero. -/
theorem afterRound?_master_meeting (h : Switch w R p) {d : Dot}
    (hpair : pair? p C = some (d, readyOther p stack q)) :
    (readyMaster p stack' a).afterRound? w C =
      some ((passed p stack' a.1 (onward q.1)).settled w) := by
  obtain ⟨c, hc, -⟩ := h.cell
  rw [Dot.afterRound?_master hc rfl rfl hpair]
  have hoffer : (readyOther p stack q).offer = .int q.1 := rfl
  rw [hoffer]
  unfold onward
  by_cases hzero : q.1 = 0
  · rw [if_pos hzero, hzero]
    rfl
  · have hisZero : (Number.int q.1).isZero = false := by simpa [Number.isZero] using hzero
    rw [if_neg hzero]
    simp only [Meeting.outcome, hisZero]
    rfl

end rounds

section steps
variable {w : World} {R : Region} {p : Pos} {stack stack' : List Pos} {queue : List (Int × Nat)}
  {a q : Int × Nat} {C : List Dot} {ι : List Pos → Number → Prop}

theorem askedAll_append {ds es : List Dot} {qs qs' : List Query}
    (h : Symbolic.askedAll w C ds = some qs) (h' : Symbolic.askedAll w C es = some qs') :
    Symbolic.askedAll w C (ds ++ es) = some (qs ++ qs') := by
  induction ds generalizing qs with
  | nil =>
    cases h
    exact h'
  | cons d ds ih =>
    unfold Symbolic.askedAll at h
    obtain ⟨qs₀, hqs₀, h⟩ := Option.bind_eq_some_iff.mp h
    obtain ⟨qs₁, hqs₁, rfl⟩ := Option.map_eq_some_iff.mp h
    rw [List.cons_append, Symbolic.askedAll, hqs₀, Option.bind_some, ih hqs₁, List.append_assoc]
    rfl

/-- Nothing is asked about a dot that finds nobody to meet. -/
theorem asked_alone {d : Dot} {c : Cell} {m : Meeting} (hc : w.cell? d.pos = some c)
    (hphase : d.phase = .meet m) (hpair : pair? d.pos C = none) :
    Symbolic.asked w C d = some [] := by
  have hwaits : d.phase ≠ .travel := by
    rw [hphase]
    exact Phase.noConfusion
  simp [Symbolic.asked, comesOut_of_waiting hwaits, hc, hphase, Phase.meeting?, hpair]

/-- About a pair it is asked in the turn of the master. -/
theorem asked_pair {d : Dot} {c : Cell} {m : Meeting} {pair : Dot × Dot}
    (hc : w.cell? d.pos = some c) (hphase : d.phase = .meet m)
    (hpair : pair? d.pos C = some pair) :
    Symbolic.asked w C d =
      if m.master then (Symbolic.outcome c d m pair.2).map Prod.snd else some [] := by
  have hwaits : d.phase ≠ .travel := by
    rw [hphase]
    exact Phase.noConfusion
  simp [Symbolic.asked, comesOut_of_waiting hwaits, hc, hphase, Phase.meeting?, hpair]

/-- Nothing is asked about the others. -/
theorem askedAll_others (h : Switch w R p) (queue : List (Int × Nat)) :
    Symbolic.askedAll w C (queue.map (readyOther p stack)) = some [] := by
  obtain ⟨c, hc, -⟩ := h.cell
  induction queue with
  | nil => rfl
  | cons q queue ih =>
    have hq : Symbolic.asked w C (readyOther p stack q) = some [] := by
      cases hpair : pair? p C with
      | none => exact asked_alone (d := readyOther p stack q) hc rfl hpair
      | some pair =>
        rw [asked_pair (d := readyOther p stack q) hc rfl hpair]
        exact if_neg Bool.false_ne_true
    rw [List.map_cons, Symbolic.askedAll, hq, Option.bind_some, ih]
    rfl

theorem map_valued_id (X : List Dot) : X.map (Dot.valued id) = X := by
  have hid : ∀ d : Dot, d.valued id = d := by
    intro d
    obtain ⟨pos, spawn, dir, value, id, phase, stack⟩ := d
    cases value <;> rfl
  rw [show Dot.valued id = fun d => d from funext hid, List.map_id']

/-- A tick in which all dots wait at the switch.  What is left of them is what the
    round makes of each. -/
theorem step_of_ready {X : List Dot} {qs : List Query} (h : Switch w R p)
    (hι : ∀ stack a, ι stack a → ι stack a.orZero)
    (hX : ∀ x ∈ X, x.pos = p) (hchoose : Symbolic.chooseAll w X = some C) (horder : Orderly C)
    (hasked : Symbolic.askedAll w C C = some qs) (hholds : ∀ q ∈ qs, q.Holds id)
    (hC : ∀ d ∈ C, d.pos = p ∧ d.phase ≠ .travel) :
    Step w R ι X (C.flatMap fun d => (d.afterRound? w C).toList.filter (Dot.isIn R)) []
      (· = p) := by
  have hturns : Symbolic.turns? w X = some (C, qs) := by
    unfold Symbolic.turns?
    rw [hchoose, Option.bind_some, if_pos horder, hasked]
    rfl
  have hwithin : ∀ x ∈ X, R x.pos = true := by
    intro x hx
    rw [hX x hx]
    exact h.within
  have hstep : Step w R ι _ _ _ (· = p) :=
    Step.of_turns (ρ := id) hι hturns hholds hwithin fun d hd _ => (hC d hd).1
  have hnone : C.filter (Dot.comesOut w) = [] := by
    apply List.filter_eq_nil_iff.mpr
    intro d hd
    rw [comesOut_of_waiting (hC d hd).2]
    exact Bool.false_ne_true
  rw [map_valued_id, map_valued_id, map_valued_id, hnone,
    nextInside_waiting fun d hd => (hC d hd).2] at hstep
  exact hstep

/-- The others wait on as long as there is no master. -/
theorem step_waiting (h : Switch w R p) (hι : ∀ stack a, ι stack a → ι stack a.orZero)
    (hspaced : Spaced queue) :
    Step w R ι (queue.map (other p stack)) ((queue.map older).map (other p stack)) [] (· = p) := by
  have hstep : Step w R ι (queue.map (other p stack)) _ [] (· = p) :=
    step_of_ready h hι (fun x hx => pos_of_mem_others hx) (h.chooseAll_others queue)
      (orderly_others hspaced) (h.askedAll_others queue) (fun q hq => absurd hq List.not_mem_nil)
      fun d hd => waiting_of_mem_others hd
  rw [h.flatMap_others fun b _ => h.afterRound?_alone rfl pair?_others] at hstep
  exact hstep

/-- A master waits on as long as there is nobody else. -/
theorem step_alone (h : Switch w R p) (hι : ∀ stack a, ι stack a → ι stack a.orZero) :
    Step w R ι [master p stack a] [master p stack (older a)] [] (· = p) := by
  obtain ⟨c, hc, -⟩ := h.cell
  have hasked : Symbolic.askedAll w [readyMaster p stack a] [readyMaster p stack a] = some [] := by
    have hnobody : pair? p [readyMaster p stack a] = none := pair?_master
    rw [Symbolic.askedAll, asked_alone (d := readyMaster p stack a) hc rfl hnobody]
    rfl
  have hstep : Step w R ι [master p stack a] _ [] (· = p) :=
    step_of_ready h hι (by simp [master]) (h.chooseAll_master a) (List.pairwise_singleton _ _)
      hasked (fun q hq => absurd hq List.not_mem_nil) (by
        intro d hd
        rw [List.mem_singleton.mp hd]
        exact ⟨rfl, Phase.noConfusion⟩)
  have hleft : ((readyMaster p stack a).afterRound? w
      [readyMaster p stack a]).toList.filter (Dot.isIn R) =
      [master p stack (older a)] := by
    rw [h.afterRound?_alone rfl pair?_master]
    exact List.filter_cons_of_pos (h.isIn_of_pos rfl rfl)
  rw [List.flatMap_singleton, hleft] at hstep
  exact hstep

/-- In a meeting it is asked whether the number of the first of the queue is zero. -/
theorem askedAll_meeting (h : Switch w R p)
    (hpair : pair? p C = some (readyMaster p stack' a, readyOther p stack q)) :
    Symbolic.askedAll w C (queue.map (readyOther p stack) ++ [readyMaster p stack' a]) =
      some [.zero q.1] := by
  obtain ⟨c, hc, -⟩ := h.cell
  have hmaster : Symbolic.askedAll w C [readyMaster p stack' a] = some [.zero q.1] := by
    rw [Symbolic.askedAll, asked_pair (d := readyMaster p stack' a) hc rfl hpair]
    rfl
  exact askedAll_append (h.askedAll_others queue) hmaster

/-- Of a meeting there remain the master on its way and the rest of the queue. -/
theorem flatMap_lots_meeting (h : Switch w R p) (hspaced : Spaced (q :: queue))
    (hpair : pair? p C = some (readyMaster p stack' a, readyOther p stack q))
    (hlands : Turn.isLost w (passed p stack' a.1 (onward q.1)) = false ∧
      (passed p stack' a.1 (onward q.1)).isIn R = true) :
    (((q :: queue).map (readyOther p stack) ++ [readyMaster p stack' a]).flatMap fun d =>
      (d.afterRound? w C).toList.filter (Dot.isIn R)) =
        (queue.map older).map (other p stack) ++ [passed p stack' a.1 (onward q.1)] := by
  obtain ⟨c, hc, -⟩ := h.cell
  have hpos : (readyOther p stack q).pos = p := rfl
  have hfirst : ((readyOther p stack q).afterRound? w C).toList.filter (Dot.isIn R) = [] := by
    rw [Dot.afterRound?_other (by rw [hpos, hc]) rfl rfl (by rw [hpos, hpair])]
    simp [Dot.isIn, Dot.isDead, Phase.isDead]
  have hrest := h.flatMap_others fun b hb =>
    h.afterRound?_other_behind hpair (List.rel_of_pairwise_cons hspaced hb)
  have hmaster : ((readyMaster p stack' a).afterRound? w C).toList.filter (Dot.isIn R) =
      [passed p stack' a.1 (onward q.1)] := by
    rw [h.afterRound?_master_meeting hpair, Dot.settled_of_not_lost hlands.1]
    exact List.filter_cons_of_pos hlands.2
  rw [List.map_cons, List.cons_append, List.flatMap_cons, List.flatMap_append,
    List.flatMap_singleton, hfirst, hrest, hmaster, List.nil_append]

/-- The master meets the first of the queue, which is gone then. -/
theorem step_meeting (h : Switch w R p) (hι : ∀ stack a, ι stack a → ι stack a.orZero)
    (hspaced : Spaced (q :: queue))
    (hlands : Turn.isLost w (passed p stack' a.1 (onward q.1)) = false ∧
      (passed p stack' a.1 (onward q.1)).isIn R = true) :
    Step w R ι ((q :: queue).map (other p stack) ++ [master p stack' a])
      ((queue.map older).map (other p stack) ++ [passed p stack' a.1 (onward q.1)]) [] (· = p) := by
  have hpair : pair? p ((q :: queue).map (readyOther p stack) ++ [readyMaster p stack' a]) =
      some (readyMaster p stack' a, readyOther p stack q) := pair?_meeting hspaced
  have hX : ∀ x ∈ (q :: queue).map (other p stack) ++ [master p stack' a], x.pos = p := by
    intro x hx
    rcases List.mem_append.mp hx with hx | hx
    · exact pos_of_mem_others hx
    · rw [List.mem_singleton.mp hx]
      rfl
  have hC : ∀ d ∈ (q :: queue).map (readyOther p stack) ++ [readyMaster p stack' a],
      d.pos = p ∧ d.phase ≠ .travel := by
    intro d hd
    rcases List.mem_append.mp hd with hd | hd
    · exact waiting_of_mem_others hd
    · rw [List.mem_singleton.mp hd]
      exact ⟨rfl, Phase.noConfusion⟩
  have hholds : ∀ x ∈ [Query.zero q.1], x.Holds id := by
    intro x hx
    rw [List.mem_singleton.mp hx]
    exact Iff.rfl
  have hstep := step_of_ready h hι hX
    (chooseAll_append (h.chooseAll_others _) (h.chooseAll_master a)) (orderly_meeting hspaced)
    (h.askedAll_meeting hpair) hholds hC
  rw [h.flatMap_lots_meeting hspaced hpair hlands] at hstep
  exact hstep

end steps

end Switch

end DotPaths
