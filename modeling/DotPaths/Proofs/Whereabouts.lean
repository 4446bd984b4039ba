import DotPaths.Proofs.Visits

/-! # Following a dot

    The list of dots is all that tells one dot from another, and a dot changes its
    number when others before it are taken away.  In ticks on end, a dot is followed
    by its number: after each tick it stands behind those of the dots before it that
    are left, and once it is dead it has no number any more.

    A dot that waits for nobody does in a tick what its choice and its deed make of
    it, whatever the other dots do.
-/

namespace DotPaths.Machine

open Scene

/-! ## The number of a dot -/

/-- The number that the dot with number `i` has when the dead dots are taken away;
    `none` if it is one of them. -/
def numberAfter (dots : List Dot) (i : Nat) : Option Nat :=
  match dots[i]? with
  | some d => if d.isDead then none else some ((dots.take i).filter fun d => !d.isDead).length
  | none => none

namespace Stretch

variable {w : World} {n : Nat}

/-- The number that the dot with number `i` has after `j` ticks; `none` when it has
    been taken away. -/
def number (run : Stretch w n) (i : Nat) : Nat → Option Nat
  | 0 => some i
  | j + 1 => (run.number i j).bind (numberAfter (run.acted j).dots)

/-- After `j` ticks, the dot with number `i` is still there, and it is `d`. -/
def Has (run : Stretch w n) (i j : Nat) (d : Dot) : Prop :=
  ∃ k, run.number i j = some k ∧ (run.before j).dots[k]? = some d

/-- After `j` ticks, the dot with number `i` is `d`, or it has been taken away if
    `d` is dead. -/
def Makes (run : Stretch w n) (i j : Nat) (d : Dot) : Prop :=
  if d.isDead then run.number i j = none else run.Has i j d

end Stretch

/-! ## One tick -/

section
variable {w : World} {s c t s' : Scene} {k : Nat} {d : Dot}

/-- In a tick, a dot that has chosen not to wait is as it chose until its turn. -/
theorem Ticks.turn (h : Ticks w s c t s') (hd : c.dots[k]? = some d)
    (hphase : ∀ m, d.phase ≠ .meet m) :
    ∃ u u', actAll w k c = .ok () u ∧ Turn.act w k u = .ok () u' ∧ u.dots[k]? = some d := by
  have hk := (List.getElem?_eq_some_iff.mp hd).1
  obtain ⟨u, u', hu, hturn⟩ := actAll_turn h.actingAll hk
  obtain ⟨d₁, hd₁, hstanding⟩ :=
    (actAll_round (steady_chooseAll h.choosing) (by omega) hu).dot k d hd
  obtain rfl : d₁ = d := (hstanding.moving hphase).2 (Nat.le_refl k)
  exact ⟨u, u', hu, hturn, hd₁⟩

/-- In a tick, a dot that has chosen not to wait does its deed and settles. -/
theorem Ticks.leads {x : Cell} (h : Ticks w s c t s') (hd : c.dots[k]? = some d)
    (hphase : ∀ m, d.phase ≠ .meet m) (hx : w.cell? d.pos = some x) :
    ∃ d' new, (d.deed w x).Leads d' new ∧ t.dots[k]? = some (d'.settled w) := by
  have hk := (List.getElem?_eq_some_iff.mp hd).1
  obtain ⟨u, u', hu, hturn, hd₁⟩ := h.turn hd hphase
  obtain ⟨d', new, hleads, hdots⟩ := Turn.act_leads hturn hd₁ hx hphase
  refine ⟨d', new, hleads, ?_⟩
  -- Nobody touches it after its turn, since it does not wait then either.
  have hlt : k < (u.dots ++ new).length := by
    have hku := (List.getElem?_eq_some_iff.mp hd₁).1
    rw [List.length_append]
    omega
  have hd' : u'.dots[k]? = some (d'.settled w) := by
    rw [hdots]
    exact List.getElem?_set_self hlt
  have hne : ∀ m, (d'.settled w).phase ≠ .meet m :=
    Dot.settled_ne_meet ((Dot.deed_goesOn hphase hx).leads hleads).phase
  have hu' : actAll w (k + 1) c = .ok () u' := actAll_succ_ok.mpr ⟨u, hu, hturn⟩
  exact actAll_keeps hk hu' h.actingAll hd' hne (.inl (Nat.lt_succ_self k))

/-- The dot that a sweep leaves is found by its new number. -/
theorem Ticks.numberAfter_eq (h : Ticks w s c t s') (hk : k < s.dots.length)
    (hd : t.dots[k]? = some d) :
    if d.isDead then numberAfter t.dots k = none
    else ∃ l, numberAfter t.dots k = some l ∧ s'.dots[l]? = some d := by
  cases hdead : d.isDead with
  | true => simp [numberAfter, hd, hdead]
  | false =>
    have hnumber : numberAfter t.dots k =
        some ((t.dots.take k).filter fun d => !d.isDead).length := by
      simp [numberAfter, hd, hdead]
    refine ⟨_, hnumber, ?_⟩
    rw [h.dots]
    exact sweep_getElem? hk hd hdead

end

namespace Stretch

variable {w : World} {n : Nat} {run : Stretch w n} {i j : Nat} {d d' : Dot} {x : Cell}

/-- In each tick, a dot that chooses not to wait becomes what its deed leads to. -/
theorem Has.tick (h : run.Has i j d) (hj : j < n) (hd' : d.chosen w = .ok d')
    (hphase : ∀ m, d'.phase ≠ .meet m) (hx : w.cell? d'.pos = some x) :
    ∃ o new, (d'.deed w x).Leads o new ∧ run.Makes i (j + 1) (o.settled w) := by
  obtain ⟨k, hnumber, hd⟩ := h
  have htick := run.ticks j hj
  have hk := (List.getElem?_eq_some_iff.mp hd).1
  obtain ⟨e, hchosen, he⟩ := exists_chosen htick.choosing hd
  obtain rfl : e = d' := Except.ok.inj (he.symm.trans hd')
  obtain ⟨o, new, hleads, ho⟩ := htick.leads hchosen hphase hx
  refine ⟨o, new, hleads, ?_⟩
  have hafter := htick.numberAfter_eq hk ho
  unfold Makes Has number
  rw [hnumber]
  cases hdead : (o.settled w).isDead with
  | true =>
    rw [hdead] at hafter
    exact hafter
  | false =>
    rw [hdead] at hafter
    exact hafter

/-- A dot that is neither dead nor lost is there. -/
theorem Makes.has (h : run.Makes i j (d.settled w)) (hlive : d.isDead = false)
    (hlost : Turn.isLost w d = false) : run.Has i j d := by
  rw [Dot.settled_of_not_lost hlost] at h
  unfold Makes at h
  rw [if_neg (by simp [hlive])] at h
  exact h

/-- A dot that is lost is there no more. -/
theorem Makes.gone (h : run.Makes i j (d.settled w)) (hlost : Turn.isLost w d = true) :
    run.number i j = none := by
  rw [Dot.settled_of_lost hlost] at h
  exact h

/-- A dot that goes on by itself. -/
theorem Has.become {phase : Phase} {o : Dot} (h : run.Has i j d) (hj : j < n)
    (hx : w.cell? d.pos = some x) (hblank : x.isBlank = false) (hchoose : d.choose x = .ok phase)
    (hphase : ∀ m, phase ≠ .meet m)
    (hdeed : Dot.deed w { d with phase := phase } x = .become o) :
    run.Makes i (j + 1) (o.settled w) := by
  have hchosen : d.chosen w = .ok { d with phase := phase } := by
    simp [Dot.chosen, hx, hchoose, hblank, Except.map]
  obtain ⟨o', new, hleads, hmakes⟩ := h.tick hj hchosen hphase hx
  rw [hdeed] at hleads
  cases hleads
  exact hmakes

end Stretch

end DotPaths.Machine
