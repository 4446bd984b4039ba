import DotPaths.Proofs.Ledger

/-! # Who is served first

    Dots that wait on a cell ought to be served in the order in which they came.
    The master that meets is indeed one that came first.  The dot that it meets
    is not always: a dot whose turn is before that of the master has counted the
    present tick already, and one whose turn is after it has not, so that the
    former looks one tick older than it is.

    The main statement gives the exact condition.  Only the first of those
    behind the master can be passed over, and only by one that came a single
    tick later.
-/

namespace DotPaths.Machine

open Meeting

/-- By the ledger, the dot with number `j` came no later than anybody who waits
    at the position in the role. -/
def CameFirst (l : Ledger) (dots : List Dot) (p : Pos) (role : Bool) (j : Nat) : Prop :=
  ∃ τ, l.arrival? j = some τ ∧
    ∀ k a, waited? p role dots k = some a → ∃ σ, l.arrival? k = some σ ∧ τ ≤ σ

/-- Of those who wait for a master, the earliest came in the tick `τ`, its turn
    is after that of the dot with number `i`, and the earliest of those whose
    turn is before it came in the tick after `τ`. -/
structure Overtaken (l : Ledger) (dots : List Dot) (p : Pos) (i τ : Nat) : Prop where
  behind : ∃ k a, i < k ∧ waited? p false dots k = some a ∧ l.arrival? k = some τ
  ahead : ∃ k a, k < i ∧ waited? p false dots k = some a ∧ l.arrival? k = some (τ + 1)
  earliest : ∀ k a σ, waited? p false dots k = some a → l.arrival? k = some σ →
    τ ≤ σ ∧ (k < i → τ < σ)

section
variable {w : World} {c u : Scene} {l : Ledger} {i j k a : Nat} {p : Pos} {role : Bool}

/-- In the middle of a round, an age is one too high if the turn is over. -/
theorem Round.arrival?_eq (hround : Round w c i u) (hl : l.Accurate c.dots)
    (hw : waited? p role u.dots k = some a) :
    ∃ τ, l.arrival? k = some τ ∧ τ + a = l.clock + if k < i then 1 else 0 := by
  obtain ⟨-, b, hb, rfl⟩ := hround.waited?_iff.mp hw
  obtain ⟨τ, hτ, hage⟩ := hl.arrival?_eq hb
  exact ⟨τ, hτ, by omega⟩

/-- The oldest master, when it is its turn, came first. -/
theorem Round.master_cameFirst (hround : Round w c i u) (hl : l.Accurate c.dots)
    (hold : oldest? p true u.dots = some i) : CameFirst l u.dots p true i := by
  obtain ⟨a, ha⟩ := oldest?_eq_some_iff.mp hold
  obtain ⟨τ, hτ, hage⟩ := hround.arrival?_eq hl ha.waits
  rw [if_neg (Nat.lt_irrefl i)] at hage
  refine ⟨τ, hτ, ?_⟩
  intro k b hb
  obtain ⟨σ, hσ, hage'⟩ := hround.arrival?_eq hl hb
  refine ⟨σ, hσ, ?_⟩
  by_cases hk : k < i
  · -- It has counted one tick more, and still it is younger.
    have := ha.first k b hk hb
    rw [if_pos hk] at hage'
    omega
  · have := ha.longest k b hb
    rw [if_neg hk] at hage'
    omega

/-- The oldest other dot came no later than anybody who waits, but for the one
    tick that it may have counted already. -/
theorem Round.other_arrival (hround : Round w c i u) (hl : l.Accurate c.dots)
    (hold : oldest? p false u.dots = some j) (hw : waited? p false u.dots k = some a) :
    ∃ τ σ, l.arrival? j = some τ ∧ l.arrival? k = some σ ∧ τ ≤ σ + 1 ∧
      (j < i ∧ i ≤ k ∨ τ ≤ σ) := by
  obtain ⟨b, hb⟩ := oldest?_eq_some_iff.mp hold
  obtain ⟨τ, hτ, hage⟩ := hround.arrival?_eq hl hb.waits
  obtain ⟨σ, hσ, hage'⟩ := hround.arrival?_eq hl hw
  have hle := hb.longest k a hw
  refine ⟨τ, σ, hτ, hσ, ?_⟩
  by_cases hj : j < i
  · by_cases hk : k < i
    · rw [if_pos hj] at hage
      rw [if_pos hk] at hage'
      omega
    · rw [if_pos hj] at hage
      rw [if_neg hk] at hage'
      omega
  · rw [if_neg hj] at hage
    have : σ + a ≥ l.clock := by omega
    omega

/-- The oldest other dot came first, unless somebody was overtaken. -/
theorem Round.other_cameFirst_iff (hround : Round w c i u) (hl : l.Accurate c.dots)
    (hi : ∀ b, waited? p false u.dots i ≠ some b) (hold : oldest? p false u.dots = some j) :
    CameFirst l u.dots p false j ↔ ¬ ∃ τ, Overtaken l u.dots p i τ := by
  obtain ⟨b, hb⟩ := oldest?_eq_some_iff.mp hold
  constructor
  · rintro ⟨τ, hτ, hfirst⟩ ⟨τ₀, hover⟩
    obtain ⟨k, a, hik, hk, hkτ⟩ := hover.behind
    obtain ⟨σ, hσ, hle⟩ := hfirst k a hk
    cases hkτ.symm.trans hσ
    obtain ⟨hge, hlt⟩ := hover.earliest j b τ hb.waits hτ
    have hij : i < j := by
      have hne : j ≠ i := by
        rintro rfl
        exact hi b hb.waits
      omega
    -- It looks as old as the first of those ahead, which is before it.
    obtain ⟨k', a', hk'i, hk', hkτ'⟩ := hover.ahead
    have hyounger := hb.first k' a' (by omega) hk'
    obtain ⟨τ₁, hτ₁, hage⟩ := hround.arrival?_eq hl hb.waits
    cases hτ.symm.trans hτ₁
    obtain ⟨σ₁, hσ₁, hage'⟩ := hround.arrival?_eq hl hk'
    cases hkτ'.symm.trans hσ₁
    rw [if_neg (by omega)] at hage
    rw [if_pos hk'i] at hage'
    omega
  · intro hnone
    obtain ⟨τ, hτ, -⟩ := hround.arrival?_eq hl hb.waits
    refine ⟨τ, hτ, ?_⟩
    intro k a hk
    obtain ⟨τ₁, σ, hτ₁, hσ, hnear, hcases⟩ := hround.other_arrival hl hold hk
    cases hτ.symm.trans hτ₁
    refine ⟨σ, hσ, ?_⟩
    by_cases hle : τ ≤ σ
    · exact hle
    · -- The one that is served came a tick later: then `k` was overtaken.
      obtain rfl : τ = σ + 1 := by omega
      have hki : k ≠ i := by
        rintro rfl
        exact hi a hk
      refine absurd ⟨σ, ⟨k, a, by omega, hk, hσ⟩, ⟨j, b, by omega, hb.waits, hτ⟩, ?_⟩ hnone
      intro k₂ a₂ σ₂ hk₂ hσ₂
      obtain ⟨τ₂, σ', hτ₂, hσ', hnear₂, hcases₂⟩ := hround.other_arrival hl hold hk₂
      cases hτ.symm.trans hτ₂
      cases hσ₂.symm.trans hσ'
      omega

end

/-! ## The order of service -/

/-- In every parallel run and every meeting, the master is one that came first
    of those who wait there, and the dot that it meets came at most one tick
    later than any other that waits there for a master.  It came first if and
    only if nobody was overtaken. -/
theorem served_in_order_iff {w : World} {s c u : Scene} {l : Ledger} {i j : Nat} {e : Encounter}
    (h : Chronicle w s l) (hc : chooseAll w s.dots.length s = .ok () c)
    (hu : actAll w i c = .ok () u) (hmeets : Meets w c i j e) :
    CameFirst (l.chosen s.dots c.dots) u.dots e.master.pos true i ∧
      (CameFirst (l.chosen s.dots c.dots) u.dots e.master.pos false j ↔
        ¬ ∃ τ, Overtaken (l.chosen s.dots c.dots) u.dots e.master.pos i τ) ∧
      ∀ k a, waited? e.master.pos false u.dots k = some a →
        ∃ τ σ, (l.chosen s.dots c.dots).arrival? j = some τ ∧
          (l.chosen s.dots c.dots).arrival? k = some σ ∧ τ ≤ σ + 1 := by
  have hsteady := steady_chooseAll hc
  obtain ⟨hmaster, hother⟩ := hmeets.oldest hsteady hu
  obtain ⟨hi, u₁, u', hu₁, -, he⟩ := hmeets
  cases hu.symm.trans hu₁
  have hround := actAll_round hsteady (by omega) hu
  have hl := h.accurate.chosen hc
  have hnot : ∀ b, waited? e.master.pos false u.dots i ≠ some b := by
    intro b hb
    obtain ⟨d, m, hd, hm, -, hrole, -⟩ := waited?_eq_some_iff.mp hb
    cases hd.symm.trans he.master_here
    cases hm.symm.trans he.master_waits
    rw [he.is_master] at hrole
    cases hrole
  refine ⟨hround.master_cameFirst hl hmaster, hround.other_cameFirst_iff hl hnot hother, ?_⟩
  intro k a hk
  obtain ⟨τ, σ, hτ, hσ, hnear, -⟩ := hround.other_arrival hl hother hk
  exact ⟨τ, σ, hτ, hσ, hnear⟩

/-- A master comes to a switch from the left, and two dots from above and from
    below, the upper one a tick before the others. -/
def topFirst : String := "   .\n   |\n.--~-\n   |\n   |\n   ."

/-- With the upper dot first, the dots are served in order. -/
theorem in_order_at_topFirst :
    ∃ m s l c u e, launchAlone topFirst = (m, none) ∧ Chronicle m.world s l ∧
      chooseAll m.world s.dots.length s = .ok () c ∧ actAll m.world 1 c = .ok () u ∧
      Meets m.world c 1 0 e ∧
      (l.chosen s.dots c.dots).arrival? 0 = some 2 ∧
      (l.chosen s.dots c.dots).arrival? 2 = some 3 ∧
      waited? e.master.pos false u.dots 2 = some 0 ∧
      CameFirst (l.chosen s.dots c.dots) u.dots e.master.pos true 1 ∧
      CameFirst (l.chosen s.dots c.dots) u.dots e.master.pos false 0 := by
  have htrial : trialTurn topFirst 3 1 (fun l c u =>
      decide (1 < c.dots.length) && l.arrival? 0 == some 2 && l.arrival? 2 == some 3 &&
        waited? ⟨3, 2⟩ false u.dots 0 == some 2 && waited? ⟨3, 2⟩ false u.dots 2 == some 0 &&
        decide (u.dots.length = 3) &&
        oldest? ⟨3, 2⟩ true u.dots == some 1 && oldest? ⟨3, 2⟩ false u.dots == some 0) = true := by
    decide +kernel
  obtain ⟨m, s, l, c, u, u', hm, hl, hc, hu, hu', hcheck⟩ := exists_of_trialTurn htrial
  simp only [Bool.and_eq_true, beq_iff_eq, decide_eq_true_eq] at hcheck
  obtain ⟨⟨⟨⟨⟨⟨⟨hlt, hfirst⟩, hsecond⟩, hwait₀⟩, hwait₂⟩, hlen⟩, hmaster⟩, hother⟩ := hcheck
  obtain ⟨e, hmeets, hpos⟩ :=
    meets_of_oldest (steady_chooseAll hc) hlt hu hu' hmaster hother
  obtain ⟨hmasters, hothers, -⟩ := served_in_order_iff hl hc hu hmeets
  refine ⟨m, s, l, c, u, e, hm, hl, hc, hu, hmeets, hfirst, hsecond, hpos ▸ hwait₂, hmasters, ?_⟩
  apply hothers.mpr
  rintro ⟨τ, hover⟩
  -- The only dot behind the one that was met came later than it did.
  obtain ⟨k, a, hk, hka, hkτ⟩ := hover.behind
  have hk₂ : k = 2 := by
    have := waited?_lt_length hka
    omega
  rw [hk₂, hsecond] at hkτ
  cases hkτ
  have := (hover.earliest 0 2 2 (hpos ▸ hwait₀) hfirst).1
  omega

/-- The same with the lower dot first: its turn is after that of the master. -/
def bottomFirst : String := "   .\n   |\n   |\n.--~-\n   |\n   ."

/-- With the lower dot first, the upper one is served before it. -/
theorem overtaken_at_bottomFirst :
    ∃ m s l c u e, launchAlone bottomFirst = (m, none) ∧ Chronicle m.world s l ∧
      chooseAll m.world s.dots.length s = .ok () c ∧ actAll m.world 1 c = .ok () u ∧
      Meets m.world c 1 0 e ∧
      (l.chosen s.dots c.dots).arrival? 0 = some 3 ∧
      (l.chosen s.dots c.dots).arrival? 2 = some 2 ∧
      waited? e.master.pos false u.dots 2 = some 1 ∧
      ¬ CameFirst (l.chosen s.dots c.dots) u.dots e.master.pos false 0 := by
  have htrial : trialTurn bottomFirst 3 1 (fun l c u =>
      decide (1 < c.dots.length) && l.arrival? 0 == some 3 && l.arrival? 2 == some 2 &&
        waited? ⟨3, 3⟩ false u.dots 2 == some 1 &&
        oldest? ⟨3, 3⟩ true u.dots == some 1 && oldest? ⟨3, 3⟩ false u.dots == some 0) = true := by
    decide +kernel
  obtain ⟨m, s, l, c, u, u', hm, hl, hc, hu, hu', hcheck⟩ := exists_of_trialTurn htrial
  simp only [Bool.and_eq_true, beq_iff_eq, decide_eq_true_eq] at hcheck
  obtain ⟨⟨⟨⟨⟨hlt, hlate⟩, hearly⟩, hwait⟩, hmaster⟩, hother⟩ := hcheck
  obtain ⟨e, hmeets, hpos⟩ :=
    meets_of_oldest (steady_chooseAll hc) hlt hu hu' hmaster hother
  have hwait' : waited? e.master.pos false u.dots 2 = some 1 := hpos ▸ hwait
  refine ⟨m, s, l, c, u, e, hm, hl, hc, hu, hmeets, hlate, hearly, hwait', ?_⟩
  rintro ⟨τ, hτ, hfirst⟩
  obtain ⟨σ, hσ, hle⟩ := hfirst 2 1 hwait'
  cases hlate.symm.trans hτ
  cases hearly.symm.trans hσ
  omega

end DotPaths.Machine
