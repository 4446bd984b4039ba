import DotPaths.Proofs.Run

/-! # When a pair is stuck

    Where a master and another dot wait on the same cell, one would expect a
    meeting in the very next round.  But a master counts a turn of waiting as
    soon as its own turn is over, so one that came a tick later and whose turn
    comes first looks as old as the older one when the older one looks.  Then
    each of the two leaves the meeting to the other.

    The main statement says exactly when a meeting takes place: if and only if
    some master is *foremost*.
-/

namespace DotPaths.Machine

open Meeting

/-- The dot with number `i` is a master at the position, every master before it
    has waited at least two turns less, and no master after it has waited
    longer. -/
def IsForemost (p : Pos) (dots : List Dot) (i : Nat) : Prop :=
  ∃ a, waited? p true dots i = some a ∧
    (∀ j b, j < i → waited? p true dots j = some b → b + 1 < a) ∧
    ∀ j b, i < j → waited? p true dots j = some b → b ≤ a

theorem IsForemost.lt_length {p : Pos} {dots : List Dot} {i : Nat} (h : IsForemost p dots i) :
    i < dots.length := by
  obtain ⟨a, ha, -⟩ := h
  exact waited?_lt_length ha

theorem isForemost_iff {p : Pos} {dots : List Dot} {i : Nat} :
    IsForemost p dots i ↔
      ∃ a ∈ waited? p true dots i, ∀ j < dots.length, ∀ b ∈ waited? p true dots j,
        (j < i → b + 1 < a) ∧ (i < j → b ≤ a) := by
  constructor
  · rintro ⟨a, ha, hbefore, hbehind⟩
    exact ⟨a, ha, fun j _ b hb => ⟨fun hj => hbefore j b hj hb, fun hj => hbehind j b hj hb⟩⟩
  · rintro ⟨a, ha, h⟩
    exact ⟨a, ha, fun j b hj hb => (h j (waited?_lt_length hb) b hb).1 hj,
      fun j b hj hb => (h j (waited?_lt_length hb) b hb).2 hj⟩

instance (p : Pos) (dots : List Dot) (i : Nat) : Decidable (IsForemost p dots i) :=
  decidable_of_iff _ isForemost_iff.symm

section
variable {w : World} {c s : Scene} {i j k : Nat} {p : Pos} {role : Bool} {e : Encounter}

/-- Whoever has met has met on the cell where it waited. -/
theorem HasMet.at_place {a : Nat} (hsteady : Steady w c.dots) (h : HasMet w c i k)
    (hw : waited? p role c.dots k = some a) :
    ∃ l j e, l < i ∧ Meets w c l j e ∧ e.master.pos = p := by
  obtain ⟨d, m, hd, -, hpos, -, -⟩ := waited?_eq_some_iff.mp hw
  obtain ⟨l, j, e, hl, hmeets, hk⟩ := h
  refine ⟨l, j, e, hl, hmeets, ?_⟩
  rcases hk with rfl | rfl
  · have := hmeets.master_chosen hsteady
    cases hd.symm.trans this
    exact hpos
  · obtain ⟨o, n, ho, -, heq⟩ := hmeets.other_chosen hsteady
    cases hd.symm.trans ho
    obtain ⟨-, t, t', -, -, he⟩ := hmeets
    rw [← he.same_place, heq]
    split <;> exact hpos

/-! ## The first meeting at a cell -/

/-- Before the first meeting at a cell, the ages of its dots are those at the
    beginning of the round and one more for each whose turn is over. -/
theorem Round.waited?_before {a : Nat} (hsteady : Steady w c.dots) (h : Round w c i s)
    (hfirst : ∀ l j e, l < i → Meets w c l j e → e.master.pos ≠ p) :
    waited? p role s.dots k = some a ↔
      ∃ b, waited? p role c.dots k = some b ∧ a = b + if k < i then 1 else 0 := by
  rw [h.waited?_iff]
  constructor
  · exact And.right
  · rintro ⟨b, hb, rfl⟩
    refine ⟨?_, b, hb, rfl⟩
    intro hmet
    obtain ⟨l, j, e, hl, hmeets, hpos⟩ := hmet.at_place hsteady hb
    exact hfirst l j e hl hmeets hpos

/-- Before the first meeting at a cell, the master whose turn it is is the
    oldest one exactly if it is foremost. -/
theorem Round.oldest_iff_foremost (hsteady : Steady w c.dots) (h : Round w c i s)
    (hfirst : ∀ l j e, l < i → Meets w c l j e → e.master.pos ≠ p) :
    oldest? p true s.dots = some i ↔ IsForemost p c.dots i := by
  have hwaited : ∀ {k a}, waited? p true s.dots k = some a ↔
      ∃ b, waited? p true c.dots k = some b ∧ a = b + if k < i then 1 else 0 :=
    h.waited?_before hsteady hfirst
  rw [oldest?_eq_some_iff]
  constructor
  · rintro ⟨a, hold⟩
    obtain ⟨b, hb, hab⟩ := hwaited.mp hold.waits
    rw [if_neg (by omega)] at hab
    refine ⟨b, hb, ?_, ?_⟩
    · intro j b' hj hb'
      have := hold.first j _ hj (hwaited.mpr ⟨b', hb', rfl⟩)
      rw [if_pos hj] at this
      omega
    · intro j b' hj hb'
      have := hold.longest j _ (hwaited.mpr ⟨b', hb', rfl⟩)
      rw [if_neg (by omega)] at this
      omega
  · -- Those before it have counted this round, those behind it have not.
    rintro ⟨a, ha, hbefore, hbehind⟩
    refine ⟨a, ⟨hwaited.mpr ⟨a, ha, by simp⟩, ?_, ?_⟩⟩
    · intro j b hj
      obtain ⟨b', hb', rfl⟩ := hwaited.mp hj
      rcases Nat.lt_trichotomy j i with hlt | rfl | hgt
      · have := hbefore j b' hlt hb'
        rw [if_pos hlt]
        omega
      · rw [ha] at hb'
        cases hb'
        simp
      · have := hbehind j b' hgt hb'
        rw [if_neg (by omega)]
        omega
    · intro j b hlt hj
      obtain ⟨b', hb', rfl⟩ := hwaited.mp hj
      have := hbefore j b' hlt hb'
      rw [if_pos hlt]
      omega

/-- A master that is foremost meets somebody in its turn, unless there has been
    a meeting on its cell before. -/
theorem meets_of_foremost {n : Nat} (hsteady : Steady w c.dots) (h : actAll w n c = .ok () s)
    (hn : c.dots.length = n) (hforemost : IsForemost p c.dots i)
    (hother : ∃ k a, waited? p false c.dots k = some a) :
    ∃ l j e, Meets w c l j e ∧ e.master.pos = p := by
  by_cases hbefore : ∃ l j e, l < i ∧ Meets w c l j e ∧ e.master.pos = p
  · obtain ⟨l, j, e, -, hmeets, hpos⟩ := hbefore
    exact ⟨l, j, e, hmeets, hpos⟩
  · have hfirst : ∀ l j e, l < i → Meets w c l j e → e.master.pos ≠ p :=
      fun l j e hl hmeets hpos => hbefore ⟨l, j, e, hl, hmeets, hpos⟩
    have hi := hforemost.lt_length
    obtain ⟨t, t', ht, hturn⟩ := actAll_turn h (show i < n by omega)
    have hround := actAll_round hsteady (by omega) ht
    have hmaster := (hround.oldest_iff_foremost hsteady hfirst).mpr hforemost
    cases hold : oldest? p false t.dots with
    | none =>
      -- Nobody to meet: but the other dot has not gone anywhere.
      obtain ⟨k, b, hb⟩ := hother
      have hwaits := (hround.waited?_before hsteady hfirst).mpr ⟨b, hb, rfl⟩
      rw [oldest?_eq_none_iff.mp hold k] at hwaits
      cases hwaits
    | some j =>
      obtain ⟨e, hmeets, hpos⟩ := meets_of_oldest hsteady hi ht hturn hmaster hold
      exact ⟨i, j, e, hmeets, hpos⟩

/-- The first meeting on a cell is that of a foremost master. -/
theorem foremost_of_meets (hsteady : Steady w c.dots) (h : Meets w c i j e)
    (hpos : e.master.pos = p) : ∃ l, IsForemost p c.dots l := by
  induction i using Nat.strongRecOn generalizing j e with
  | ind i ih =>
    by_cases hbefore : ∃ l j e, l < i ∧ Meets w c l j e ∧ e.master.pos = p
    · obtain ⟨l, j, e, hl, hmeets, hpos⟩ := hbefore
      exact ih l hl hmeets hpos
    · have hfirst : ∀ l j e, l < i → Meets w c l j e → e.master.pos ≠ p :=
        fun l j e hl hmeets hpos => hbefore ⟨l, j, e, hl, hmeets, hpos⟩
      have ⟨hi, t, _, ht, _⟩ := h
      have hround := actAll_round hsteady (by omega) ht
      have holdest := (h.oldest hsteady ht).1
      rw [hpos] at holdest
      exact ⟨i, (hround.oldest_iff_foremost hsteady hfirst).mp holdest⟩

end

/-! ## The condition -/

/-- In a parallel tick, where a master and another dot wait on the same cell
    after the choosing, there is a meeting on this cell if and only if one of
    its masters is foremost. -/
theorem meeting_iff_foremost {w : World} {s s' : Scene} (h : parallelTick w s = .ok () s') :
    ∃ c t, Ticks w s c t s' ∧
      ∀ p, (∃ k a, waited? p true c.dots k = some a) →
        (∃ k a, waited? p false c.dots k = some a) →
        ((∃ i j e, Meets w c i j e ∧ e.master.pos = p) ↔ ∃ i, IsForemost p c.dots i) := by
  obtain ⟨c, t, htick⟩ := parallelTick_ok_iff.mp h
  have hsteady := steady_chooseAll htick.choosing
  refine ⟨c, t, htick, ?_⟩
  intro p _ hother
  constructor
  · rintro ⟨i, j, e, hmeets, hpos⟩
    exact foremost_of_meets hsteady hmeets hpos
  · rintro ⟨i, hforemost⟩
    exact meets_of_foremost hsteady htick.acting htick.length hforemost hother

/-- Two masters come to a switch from its two sides, the left one a tick
    earlier, and then a dot from below. -/
def leftFirst : String := ".-~--.\n  |\n  |\n  ."

/-- With the left master first, there is a meeting at the switch in the fourth
    tick. -/
theorem meeting_at_leftFirst :
    ∃ m s c t s', launchAlone leftFirst = (m, none) ∧ loop m.world true 3 m.scene = .ok () s ∧
      parallelTick m.world s = .ok () s' ∧ Ticks m.world s c t s' ∧
      waited? ⟨2, 0⟩ true c.dots 0 = some 1 ∧ waited? ⟨2, 0⟩ true c.dots 1 = some 0 ∧
      waited? ⟨2, 0⟩ false c.dots 2 = some 0 ∧
      ∃ i j e, Meets m.world c i j e ∧ e.master.pos = ⟨2, 0⟩ := by
  have htrial : trial leftFirst 3 (fun _ c _ =>
      waited? ⟨2, 0⟩ true c.dots 0 == some 1 && waited? ⟨2, 0⟩ true c.dots 1 == some 0 &&
        waited? ⟨2, 0⟩ false c.dots 2 == some 0 && decide (IsForemost ⟨2, 0⟩ c.dots 0)) = true := by
    decide +kernel
  obtain ⟨m, s, c, t, s', hm, hs, htick, hcheck⟩ := exists_of_trial htrial
  simp only [Bool.and_eq_true, beq_iff_eq, decide_eq_true_eq] at hcheck
  obtain ⟨⟨⟨hleft, hright⟩, hbelow⟩, hforemost⟩ := hcheck
  have hs' := parallelTick_ok_iff.mpr ⟨c, t, htick⟩
  obtain ⟨c', t', htick', hiff⟩ := meeting_iff_foremost hs'
  cases htick.choosing.symm.trans htick'.choosing
  refine ⟨m, s, c, t, s', hm, hs, hs', htick, hleft, hright, hbelow, ?_⟩
  exact (hiff ⟨2, 0⟩ ⟨0, 1, hleft⟩ ⟨2, 0, hbelow⟩).mpr ⟨0, hforemost⟩

/-- The same from the other side: the master whose turn comes first comes a
    tick later. -/
def rightFirst : String := ".--~-.\n   |\n   |\n   ."

/-- With the right master first, the fourth tick comes and goes without a
    meeting, although two masters and another dot wait at the switch. -/
theorem stuck_at_rightFirst :
    ∃ m s c t s', launchAlone rightFirst = (m, none) ∧ loop m.world true 3 m.scene = .ok () s ∧
      Ticks m.world s c t s' ∧
      waited? ⟨3, 0⟩ true c.dots 0 = some 0 ∧ waited? ⟨3, 0⟩ true c.dots 1 = some 1 ∧
      waited? ⟨3, 0⟩ false c.dots 2 = some 0 ∧
      ¬ ∃ i j e, Meets m.world c i j e ∧ e.master.pos = ⟨3, 0⟩ := by
  have htrial : trial rightFirst 3 (fun _ c _ =>
      waited? ⟨3, 0⟩ true c.dots 0 == some 0 && waited? ⟨3, 0⟩ true c.dots 1 == some 1 &&
        waited? ⟨3, 0⟩ false c.dots 2 == some 0 &&
        decide (∀ i < c.dots.length, ¬ IsForemost ⟨3, 0⟩ c.dots i)) = true := by
    decide +kernel
  obtain ⟨m, s, c, t, s', hm, hs, htick, hcheck⟩ := exists_of_trial htrial
  simp only [Bool.and_eq_true, beq_iff_eq, decide_eq_true_eq] at hcheck
  obtain ⟨⟨⟨hleft, hright⟩, hbelow⟩, hnone⟩ := hcheck
  refine ⟨m, s, c, t, s', hm, hs, htick, hleft, hright, hbelow, ?_⟩
  rintro ⟨i, j, e, hmeets, hpos⟩
  obtain ⟨l, hl⟩ := foremost_of_meets (steady_chooseAll htick.choosing) hmeets hpos
  exact hnone l hl.lt_length hl

end DotPaths.Machine
