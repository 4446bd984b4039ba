import DotPaths.Proofs.Whereabouts

/-! # Who may change what

    A dot carries two numbers, remembers entrances, faces a direction and stands
    somewhere.  In a parallel tick each of these changes on its own grounds only:

    - a number, when the dot takes it up, or when it is the master at an operator
      that works on this number;
    - what it remembers, when it travels over a warp that dots remember;
    - the direction, when it travels over a wall or an arrow, or when it is the
      master at a switch;
    - and it is one cell further in its direction, unless it waits on or travels over
      a warp.

    The phase meant here is the one that the dot chose in this tick.  What other dots
    do in the same tick is no ground for anything, a meeting apart.
-/

namespace DotPaths

namespace Dot

/-- The walls and arrows that may turn a dot. -/
def turnGlyphs : List Char := ['\\', '/', '(', ')', '>', '<', '^', 'v']

theorem mem_turnGlyphs_of_isTurn {c : Cell} {dir : Pos} (h : isTurn c dir = true) :
    c.glyph ∈ turnGlyphs := by
  simp only [isTurn, Bool.or_eq_true, Bool.and_eq_true, beq_iff_eq] at h
  simp only [turnGlyphs, List.mem_cons, List.not_mem_nil, or_false]
  tauto

/-! ## A deed without a second dot -/

/-- `d'` differs from `d` only where a dot in the phase of `d` may change on the cell
    `c`. -/
structure ActsWithin (c : Cell) (d d' : Dot) : Prop where
  value : d'.value ≠ d.value → ∃ e, d.phase = .value e
  id : d'.id ≠ d.id → ∃ e, d.phase = .ident e
  stack : d'.stack ≠ d.stack → d.phase = .travel ∧ c.kind.isRememberedWarp = true
  dir : d'.dir ≠ d.dir → d.phase = .travel ∧ c.glyph ∈ turnGlyphs
  pos : d'.pos ≠ d.pos + d'.dir → d.phase = .travel ∧ c.kind.isWarp = true

section
variable {w : World} {c : Cell} {d d' : Dot}

/-- One cell on, and nothing else. -/
theorem ActsWithin.of_walksOn (hwalk : d.WalksOn d')
    (hkeeps : (d'.value, d'.id, d'.dir) = (d.value, d.id, d.dir)) : ActsWithin c d d' := by
  obtain ⟨hpos, hstack⟩ := hwalk
  simp only [Prod.mk.injEq] at hkeeps
  obtain ⟨hvalue, hid, hdir⟩ := hkeeps
  exact ⟨absurd hvalue, absurd hid, absurd hstack, absurd hdir, absurd hpos⟩

theorem travelDeed_actsWithin (hp : d.phase = .travel) :
    (d.travelDeed w c).Ensures fun d' _ => ActsWithin c d d' := by
  unfold travelDeed
  split
  · next hturn =>
    exact ⟨absurd rfl, absurd rfl, absurd rfl, fun _ => ⟨hp, mem_turnGlyphs_of_isTurn hturn⟩,
      absurd rfl⟩
  · split
    · exact .of_walksOn ⟨rfl, rfl⟩ rfl
    · split
      · next v hv =>
        have hwarp : c.kind.isWarp = true := by simp [CellKind.isWarp, hv]
        have hremembered : v.role.isRemembered = true → c.kind.isRememberedWarp = true := by
          intro hrole
          simp [CellKind.isRememberedWarp, CellKind.role?, hv, hrole]
        split
        · next hexposed =>
          have hrole : v.role.isRemembered = true := by
            rw [beq_iff_eq.mp hexposed]
            rfl
          unfold leave
          split
          · split <;> trivial
          · exact ⟨absurd rfl, absurd rfl, fun _ => ⟨hp, hremembered hrole⟩, absurd rfl,
              fun _ => ⟨hp, hwarp⟩⟩
        · unfold warpThrough
          dsimp only
          split
          · trivial
          · trivial
          · cases hrole : v.role.isRemembered with
            | true =>
              exact ⟨absurd rfl, absurd rfl, fun _ => ⟨hp, hremembered hrole⟩, absurd rfl,
                fun _ => ⟨hp, hwarp⟩⟩
            | false =>
              exact ⟨absurd rfl, absurd rfl, absurd rfl, absurd rfl, fun _ => ⟨hp, hwarp⟩⟩
      · exact .of_walksOn ⟨rfl, rfl⟩ rfl

/-- What a dot that waits for nobody may change by its deed. -/
theorem deed_actsWithin (hmeet : ∀ m, d.phase ≠ .meet m) (hdead : d.phase ≠ .dead)
    {new : List Dot} (h : (d.deed w c).Leads d' new) : ActsWithin c d d' := by
  unfold deed at h
  cases hphase : d.phase with
  | blank | exit =>
    simp only [hphase] at h
    cases h
  | travel =>
    simp only [hphase] at h
    exact (travelDeed_actsWithin hphase).leads h
  | value e =>
    simp only [hphase] at h
    obtain ⟨hpos, hstack⟩ := (entryDeed_walksOn fun _ => ⟨rfl, rfl⟩).leads h
    have hid := (entryDeed_keeps (f := Dot.id) (fun _ _ _ => rfl) fun _ => rfl).leads h
    have hdir := (entryDeed_keeps (f := Dot.dir) (fun _ _ _ => rfl) fun _ => rfl).leads h
    exact ⟨fun _ => ⟨e, hphase⟩, absurd hid, absurd hstack, absurd hdir, absurd hpos⟩
  | ident e =>
    simp only [hphase] at h
    obtain ⟨hpos, hstack⟩ := (entryDeed_walksOn fun _ => ⟨rfl, rfl⟩).leads h
    have hvalue := (entryDeed_keeps (f := Dot.value) (fun _ _ _ => rfl) fun _ => rfl).leads h
    have hdir := (entryDeed_keeps (f := Dot.dir) (fun _ _ _ => rfl) fun _ => rfl).leads h
    exact ⟨absurd hvalue, fun _ => ⟨e, hphase⟩, absurd hstack, absurd hdir, absurd hpos⟩
  | print p =>
    simp only [hphase] at h
    exact .of_walksOn (printDeed_walksOn.leads h)
      ((printDeed_keeps (f := fun d => (d.value, d.id, d.dir)) fun _ _ _ => rfl).leads h)
  | quote q =>
    simp only [hphase] at h
    exact .of_walksOn (quoteDeed_walksOn.leads h)
      ((quoteDeed_keeps (f := fun d => (d.value, d.id, d.dir)) fun _ _ _ => rfl).leads h)
  | meet m => exact absurd hphase (hmeet m)
  | dead => exact absurd hphase hdead

end

end Dot

/-! ## A tick -/

namespace Machine

open Scene

section
variable (w : World) (c : Scene) (k : Nat)

/-- In the round from the scene `c`, the dot with number `k` performs an operation as
    the master, on its id or on its value. -/
def Operates (onId : Bool) : Prop :=
  ∃ j e, Meets w c k j e ∧ (e.mine.purpose = .square ∨ e.mine.purpose = .curly) ∧
    e.mine.onId = onId

/-- In the round from the scene `c`, the dot with number `k` is the master at a
    switch. -/
def PassesSwitch : Prop :=
  ∃ j e, Meets w c k j e ∧ e.mine.purpose = .switch

/-- The dot with number `k` was `d` before the tick and chose to be `e`, and each
    thing in which it differs as `d'` afterwards has a ground. -/
structure ChangesWithin (d e d' : Dot) : Prop where
  value : d'.value ≠ d.value → (∃ n, e.phase = .value n) ∨ Operates w c k false
  id : d'.id ≠ d.id → (∃ n, e.phase = .ident n) ∨ Operates w c k true
  stack : d'.stack ≠ d.stack →
    e.phase = .travel ∧ ∃ x, w.cell? d.pos = some x ∧ x.kind.isRememberedWarp = true
  dir : d'.dir ≠ d.dir →
    (e.phase = .travel ∧ ∃ x, w.cell? d.pos = some x ∧ x.glyph ∈ Dot.turnGlyphs) ∨
      PassesSwitch w c k
  pos : d'.pos ≠ d.pos + d'.dir →
    (∃ m, e.phase = .meet m ∧ d' = e.waitOn m) ∨
      e.phase = .travel ∧ ∃ x, w.cell? d.pos = some x ∧ x.kind.isWarp = true

end

section
variable {w : World} {s c t s' : Scene} {k l : Nat} {d e d' : Dot}

/-- Choosing changes nothing but the phase. -/
theorem ChangesWithin.of_chosen (hchosen : d.chosen w = .ok e) (h : ChangesWithin w c k e e d') :
    ChangesWithin w c k d e d' := by
  rcases Dot.chosen_ok hchosen with rfl | ⟨-, phase, -, -, -, rfl⟩
  · exact ⟨h.value, h.id, h.stack, h.dir, h.pos⟩
  · exact ⟨h.value, h.id, h.stack, h.dir, h.pos⟩

theorem ChangesWithin.of_actsWithin {x : Cell} (hx : w.cell? e.pos = some x)
    (h : e.ActsWithin x d') : ChangesWithin w c k e e d' where
  value hne := .inl (h.value hne)
  id hne := .inl (h.id hne)
  stack hne := ⟨(h.stack hne).1, x, hx, (h.stack hne).2⟩
  dir hne := .inl ⟨(h.dir hne).1, x, hx, (h.dir hne).2⟩
  pos hne := .inr ⟨(h.pos hne).1, x, hx, (h.pos hne).2⟩

/-- The master of a meeting changes the number that it takes part with, or its
    direction, and goes one cell on. -/
theorem ChangesWithin.of_meets {j : Nat} {m : Encounter} (hmeets : Meets w c k j m)
    (hmaster : m.master = e) (hd' : d' = { m.result with phase := .travel }.move) :
    ChangesWithin w c k e e d' := by
  have ⟨_, _, _, _, _, he⟩ := hmeets
  subst hmaster hd'
  rcases Meeting.outcome_cases he.performed with ⟨hswitch, hr⟩ | ⟨hoperates, -, b, -, hr⟩
  · have hsame : m.result.value = m.master.value ∧ m.result.id = m.master.id ∧
        m.result.stack = m.master.stack ∧ m.result.pos = m.master.pos := by
      rw [hr]
      split <;> exact ⟨rfl, rfl, rfl, rfl⟩
    obtain ⟨hvalue, hid, hstack, hpos⟩ := hsame
    refine ⟨absurd hvalue, absurd hid, absurd hstack, fun _ => .inr ⟨j, m, hmeets, hswitch⟩, ?_⟩
    refine absurd ?_
    rw [Dot.move_pos, Dot.move_dir, hpos]
  · have hstack : m.result.stack = m.master.stack := by rw [hr, Dot.setStake_stack]
    have hdir : m.result.dir = m.master.dir := by rw [hr, Dot.setStake_dir]
    have hpos : m.result.pos = m.master.pos := by rw [hr, Dot.setStake_pos]
    -- Of the two numbers only the stake is replaced.
    refine ⟨?_, ?_, absurd hstack, absurd hdir, ?_⟩
    · intro hne
      cases hon : m.mine.onId with
      | false => exact .inr ⟨j, m, hmeets, hoperates, hon⟩
      | true => exact absurd (by rw [Dot.move_value, hr]; simp [Dot.setStake, hon]) hne
    · intro hne
      cases hon : m.mine.onId with
      | true => exact .inr ⟨j, m, hmeets, hoperates, hon⟩
      | false => exact absurd (by rw [Dot.move_id, hr]; simp [Dot.setStake, hon]) hne
    · refine absurd ?_
      rw [Dot.move_pos, Dot.move_dir, hpos]

theorem ChangesWithin.of_waitOn {m : Meeting} (hphase : e.phase = .meet m) :
    ChangesWithin w c k e e (e.waitOn m) :=
  ⟨absurd rfl, absurd rfl, absurd rfl, absurd rfl, fun _ => .inl ⟨m, hphase, rfl⟩⟩

/-- At the end of the round, each dot that is alive has changed within its grounds. -/
theorem Ticks.changesWithin (h : Ticks w s c t s') (he : c.dots[k]? = some e)
    (hd' : t.dots[k]? = some d') (hlive : d'.isDead = false) : ChangesWithin w c k e e d' := by
  have hk := (List.getElem?_eq_some_iff.mp he).1
  have hsettled : ∀ {o : Dot}, t.dots[k]? = some (o.settled w) → d' = o := by
    intro o ho
    obtain rfl : d' = o.settled w := Option.some.inj (hd'.symm.trans ho)
    exact Dot.settled_of_live hlive
  have hlost : e.isDead = false → Turn.isLost w e = false :=
    steady_chooseAll h.choosing e (List.mem_of_getElem? he)
  by_cases hmeet : ∃ m, e.phase = .meet m
  · obtain ⟨m, hphase⟩ := hmeet
    obtain ⟨o, ho, hstanding⟩ := h.round.dot k e he
    obtain rfl : d' = o := Option.some.inj (hd'.symm.trans ho)
    by_cases hmet : HasMet w c c.dots.length k
    · -- The other dot of a meeting is dead, so this one is the master.
      obtain ⟨i, j, enc, hi, hmeets, hside⟩ := hmet
      obtain ⟨hmaster, hother⟩ := hmeets.at_end (h.length ▸ hi) h.acting
      rcases hside with rfl | rfl
      · have hchosen := hmeets.master_chosen (steady_chooseAll h.choosing)
        exact .of_meets hmeets (Option.some.inj (hchosen.symm.trans he)) (hsettled hmaster)
      · rw [Option.some.inj (hd'.symm.trans hother)] at hlive
        cases hlive
    · have hwaits := hstanding.waiting m hphase hmet
      rw [if_pos hk] at hwaits
      rw [hwaits]
      exact .of_waitOn hphase
  · have hphase : ∀ m, e.phase ≠ .meet m := fun m hm => hmeet ⟨m, hm⟩
    -- A dot that chose to be dead is dead at the end, too.
    have hdead : e.phase ≠ .dead := by
      intro hdead
      obtain ⟨u, -, hu, -, ho⟩ := h.turn he hphase
      have hend := actAll_keeps (Nat.le_of_lt hk) hu h.actingAll ho hphase (.inr hdead)
      obtain rfl : d' = e := Option.some.inj (hd'.symm.trans hend)
      simp [Dot.isDead, Phase.isDead, hdead] at hlive
    have hx : ∃ x, w.cell? e.pos = some x := by
      have hin := hlost (Bool.eq_false_iff.mpr (mt Dot.isDead_iff.mp hdead))
      unfold Turn.isLost at hin
      split at hin
      · cases hin
      · next x hx => exact ⟨x, hx⟩
    obtain ⟨x, hx⟩ := hx
    obtain ⟨o, new, hleads, ho⟩ := h.leads he hphase hx
    rw [hsettled ho]
    exact .of_actsWithin hx (Dot.deed_actsWithin hphase hdead hleads)

end

/-- In a parallel tick that completes, from any scene at all, every dot that is there
    before and after changes within its grounds. -/
theorem tick_changesWithin {w : World} {s s' : Scene} (h : parallelTick w s = .ok () s') :
    ∃ c t, Ticks w s c t s' ∧
      ∀ k d, s.dots[k]? = some d → ∃ e, c.dots[k]? = some e ∧ d.chosen w = .ok e ∧
        ∀ l d', numberAfter t.dots k = some l → s'.dots[l]? = some d' →
          ChangesWithin w c k d e d' := by
  obtain ⟨c, t, htick⟩ := parallelTick_ok_iff.mp h
  refine ⟨c, t, htick, ?_⟩
  intro k d hd
  have hk := (List.getElem?_eq_some_iff.mp hd).1
  obtain ⟨e, he, hchosen⟩ := exists_chosen htick.choosing hd
  refine ⟨e, he, hchosen, ?_⟩
  intro l d' hl hd'
  -- The number after the tick is that of a dot which is alive at the end of the round.
  have hend : ∃ o, t.dots[k]? = some o := by
    unfold numberAfter at hl
    split at hl
    · next o ho => exact ⟨o, ho⟩
    · cases hl
  obtain ⟨o, ho⟩ := hend
  have hafter := htick.numberAfter_eq hk ho
  cases hdead : o.isDead with
  | true =>
    rw [hdead, if_pos rfl, hl] at hafter
    cases hafter
  | false =>
    rw [hdead, if_neg (by simp)] at hafter
    obtain ⟨l', hl', ho'⟩ := hafter
    cases hl.symm.trans hl'
    cases hd'.symm.trans ho'
    exact (htick.changesWithin he ho hdead).of_chosen hchosen

/-- The dot from above has the value two before the seventh tick and three after it,
    and the ground is that it was the master at the operator. -/
theorem changesWithin_at_onePlusTwo :
    ∃ m s s' c t d e d', launchAlone onePlusTwo = (m, none) ∧ Reachable m.world s ∧
      parallelTick m.world s = .ok () s' ∧ Ticks m.world s c t s' ∧
      s.dots[0]? = some d ∧ c.dots[0]? = some e ∧ numberAfter t.dots 0 = some 0 ∧
      s'.dots[0]? = some d' ∧ d.value = .int 2 ∧ d'.value = .int 3 ∧
      Operates m.world c 0 false ∧ ChangesWithin m.world c 0 d e d' := by
  have htrial : trial onePlusTwo 6 (fun s c t =>
      decide (s.dots.map Dot.value = [.int 2, .int 1]) &&
        decide (c.dots.map (fun d => d.phase.isWaiting) = [true, true]) &&
        decide (t.dots.map Dot.value = [.int 3, .int 1]) &&
        decide (numberAfter t.dots 0 = some 0)) = true := by
    decide +kernel
  obtain ⟨m, s, c, t, s', hm, hs, htick, hcheck⟩ := exists_of_trial htrial
  simp only [Bool.and_eq_true, decide_eq_true_eq, List.map_eq_cons_iff] at hcheck
  obtain ⟨⟨⟨⟨d, ds, hsdots, hvalue, -⟩, e, es, hcdots, hwaits, -⟩, o, os, htdots, hresult, -⟩,
    hnumber⟩ := hcheck
  have hd : s.dots[0]? = some d := by rw [hsdots]; rfl
  have he : c.dots[0]? = some e := by rw [hcdots]; rfl
  have ho : t.dots[0]? = some o := by rw [htdots]; rfl
  have hs' := parallelTick_ok_iff.mpr ⟨c, t, htick⟩
  -- It has a number after the sweep, so it is alive.
  have hd' : s'.dots[0]? = some o := by
    have hafter := htick.numberAfter_eq (List.getElem?_eq_some_iff.mp hd).1 ho
    cases hdead : o.isDead with
    | true =>
      rw [hdead, if_pos rfl, hnumber] at hafter
      cases hafter
    | false =>
      rw [hdead, if_neg (by simp)] at hafter
      obtain ⟨l, hl, hlast⟩ := hafter
      cases hnumber.symm.trans hl
      exact hlast
  obtain ⟨c', t', htick', hall⟩ := tick_changesWithin hs'
  cases htick.choosing.symm.trans htick'.choosing
  cases htick.acting.symm.trans htick'.acting
  obtain ⟨e', he', -, hwithin⟩ := hall 0 d hd
  cases he.symm.trans he'
  have hchanges := hwithin 0 o hnumber hd'
  refine ⟨m, s, s', c, t, d, e, o, hm, (Reachable.launched hm rfl).loop hs, hs', htick, hd, he,
    hnumber, hd', hvalue, hresult, ?_, hchanges⟩
  rcases hchanges.value (by rw [hvalue, hresult]; decide) with ⟨n, hn⟩ | hoperates
  · rw [hn] at hwaits
    cases hwaits
  · exact hoperates

end Machine

end DotPaths
