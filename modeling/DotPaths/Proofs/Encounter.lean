import DotPaths.Proofs.Turn

/-! # Encounters

    In its turn a master may meet another dot.  An encounter records the two
    dots and what becomes of the master.  The statement that it happens speaks
    about the dots before and after the turn only: both waited on the same cell,
    the operation was performed, the other dot is gone and the master has gone
    on.

    A turn of a waiting dot either has exactly one encounter, between the oldest
    master and the oldest other dot of the cell, or the dot waits on.
-/

namespace DotPaths

/-- Two dots that meet, what each of them waits for, the cell, and what the
    operation makes of the master. -/
structure Encounter where
  master : Dot
  mine : Meeting
  other : Dot
  theirs : Meeting
  cell : Cell
  result : Dot

/-- An encounter happens in the turn of the dot with number `i`, with the dot
    with number `j`, which takes the dots to `dots'`. -/
structure Encounter.Happens (w : World) (dots : List Dot) (i j : Nat) (dots' : List Dot)
    (e : Encounter) : Prop where
  master_here : dots[i]? = some e.master
  master_waits : e.master.phase = .meet e.mine
  is_master : e.mine.master = true
  other_here : dots[j]? = some e.other
  other_waits : e.other.phase = .meet e.theirs
  not_master : e.theirs.master = false
  same_place : e.other.pos = e.master.pos
  on_cell : w.cell? e.master.pos = some e.cell
  /-- The operation is performed on the numbers that the two take part with. -/
  performed : e.mine.outcome e.cell e.master (e.other.stake e.theirs) = .ok e.result
  /-- The other dot is gone, and the master goes on. -/
  after : dots' = (dots.set j e.other.die).set i ({ e.result with phase := .travel }.move.settled w)

namespace Encounter.Happens

variable {w : World} {dots dots' : List Dot} {i j : Nat} {e : Encounter}

theorem ne (h : e.Happens w dots i j dots') : i ≠ j := by
  rintro rfl
  have hd : e.master = e.other := Option.some.inj (h.master_here.symm.trans h.other_here)
  have hm : e.mine = e.theirs := by
    have hphase := h.master_waits.symm.trans (hd ▸ h.other_waits)
    exact Phase.meet.inj hphase
  have hmaster := h.is_master
  rw [hm, h.not_master] at hmaster
  cases hmaster

theorem master_lt (h : e.Happens w dots i j dots') : i < dots.length :=
  (List.getElem?_eq_some_iff.mp h.master_here).1

theorem other_lt (h : e.Happens w dots i j dots') : j < dots.length :=
  (List.getElem?_eq_some_iff.mp h.other_here).1

/-- The other dot is dead afterwards. -/
theorem other_after (h : e.Happens w dots i j dots') : dots'[j]? = some e.other.die := by
  rw [h.after, List.getElem?_set_ne h.ne, List.getElem?_set_self h.other_lt]

/-- The master has gone on afterwards. -/
theorem master_after (h : e.Happens w dots i j dots') :
    dots'[i]? = some ({ e.result with phase := .travel }.move.settled w) := by
  rw [h.after, List.getElem?_set_self (by simpa using h.master_lt)]

/-- No other dot is touched. -/
theorem rest_after (h : e.Happens w dots i j dots') {k : Nat} (hi : k ≠ i) (hj : k ≠ j) :
    dots'[k]? = dots[k]? := by
  rw [h.after, List.getElem?_set_ne (Ne.symm hi), List.getElem?_set_ne (Ne.symm hj)]

/-- A dot that was waiting and is not the master changes only if it is the
    other one. -/
theorem other_changed (h : e.Happens w dots i j dots') : dots'[j]? ≠ dots[j]? := by
  rw [h.other_after, h.other_here]
  intro heq
  have hphase := congrArg Dot.phase (Option.some.inj heq)
  rw [h.other_waits] at hphase
  cases hphase

/-- One turn has at most one encounter. -/
theorem unique {j' : Nat} {e' : Encounter} (h : e.Happens w dots i j dots')
    (h' : e'.Happens w dots i j' dots') : j = j' ∧ e = e' := by
  have hj : j = j' := by
    by_cases heq : j = j'
    · exact heq
    · exact absurd (h'.rest_after (Ne.symm h.ne) heq) h.other_changed
  subst hj
  refine ⟨rfl, ?_⟩
  -- All parts of an encounter can be read off the dots before the turn.
  have hmaster := Option.some.inj (h.master_here.symm.trans h'.master_here)
  have hother := Option.some.inj (h.other_here.symm.trans h'.other_here)
  have hmine : e.mine = e'.mine :=
    Phase.meet.inj (h.master_waits.symm.trans (hmaster ▸ h'.master_waits))
  have htheirs : e.theirs = e'.theirs :=
    Phase.meet.inj (h.other_waits.symm.trans (hother ▸ h'.other_waits))
  have hcell : e.cell = e'.cell :=
    Option.some.inj (h.on_cell.symm.trans (hmaster ▸ h'.on_cell))
  have hresult : e.result = e'.result := by
    have hperformed := h.performed
    rw [hmine, hcell, hmaster, hother, htheirs, h'.performed] at hperformed
    exact (Except.ok.inj hperformed).symm
  cases e
  cases e'
  simp_all

end Encounter.Happens

namespace Turn

variable {w : World} {i : Nat} {s s' : Scene} {d : Dot}

/-- A waiting dot is not lost where it waits, nor after one more turn. -/
theorem isLost_waitOn {m : Meeting} (hphase : d.phase = .meet m) (h : isLost w d = false) :
    isLost w (d.waitOn m) = false := by
  unfold isLost at h ⊢
  simpa [hphase, Phase.isPrinting] using h

/-- The turn of a dot that waits for nobody: the others stay as they are, new
    dots come after them, and the dot itself does not begin to wait. -/
theorem act_alone (h : act w i s = .ok () s') (hd : s.dots[i]? = some d)
    (hphase : ∀ m, d.phase ≠ .meet m) :
    (∀ j (e : Encounter), ¬ e.Happens w s.dots i j s'.dots) ∧
      ∃ d', (∀ m, d'.phase ≠ .meet m) ∧ s'.dots = (s.dots ++ d.copies w).set i d' := by
  constructor
  · intro j e he
    cases hd.symm.trans he.master_here
    exact hphase e.mine he.master_waits
  · obtain ⟨d₁, hd₁, hcases⟩ := act_ok h
    cases hd.symm.trans hd₁
    rcases hcases with ⟨hc, hdots⟩ | ⟨c, rest, d', hc, hdoes, hdots⟩
    · -- Outside the drawing there is no crossing to set out from.
      refine ⟨d.die, by simp, ?_⟩
      have hnone : d.copies w = [] := by simp [Dot.copies, World.hasGlyph, hc]
      rw [hnone, List.append_nil]
      exact hdots
    · cases hdoes with
      | alone _ hgoes _ =>
        exact ⟨d'.settled w, Dot.settled_ne_meet hgoes.phase, hgoes.new ▸ hdots⟩
      | wait hm _ => exact absurd hm (hphase _)
      | meet hm => exact absurd hm (hphase _)

/-- The turn of a waiting dot.  There is an encounter exactly when the dot is
    the oldest master of its cell and somebody else waits there. -/
theorem act_waiting {m : Meeting} (h : act w i s = .ok () s') (hd : s.dots[i]? = some d)
    (hphase : d.phase = .meet m) (hlost : isLost w d = false) :
    ((∀ j (e : Encounter), ¬ e.Happens w s.dots i j s'.dots) ∧ s'.dots = s.dots.set i (d.waitOn m) ∧
        (m.master = true → Meeting.oldest? d.pos true s.dots = some i →
          Meeting.oldest? d.pos false s.dots = none)) ∨
      ∃ j, ∃ e : Encounter, e.Happens w s.dots i j s'.dots ∧
        Meeting.oldest? d.pos true s.dots = some i ∧
        Meeting.oldest? d.pos false s.dots = some j := by
  obtain ⟨d₁, hd₁, hcases⟩ := act_ok h
  cases hd.symm.trans hd₁
  rcases hcases with ⟨hc, -⟩ | ⟨c, rest, d', hc, hdoes, hdots⟩
  · simp [isLost, hc] at hlost
  · cases hdoes with
    | alone hne => exact absurd hphase (hne m)
    | wait hm hnone =>
      cases hphase.symm.trans hm
      rw [Dot.settled_of_not_lost (isLost_waitOn hphase hlost)] at hdots
      refine .inl ⟨?_, hdots, hnone⟩
      intro j e he
      -- The other dot of an encounter would be the only one that changed.
      apply he.other_changed
      rw [hdots, List.getElem?_set_ne he.ne]
    | @meet m' n j o result hm hmaster hfirst hother ho hn hout =>
      cases hphase.symm.trans hm
      obtain ⟨o', n', ho', hn', hpos, hmaster'⟩ := Meeting.exists_of_oldest? hother
      cases ho.symm.trans ho'
      cases hn.symm.trans hn'
      refine .inr ⟨j, ⟨d, m, o, n, c, result⟩, ?_, hfirst, hother⟩
      exact ⟨hd, hphase, hmaster, ho, hn, hmaster', hpos, hc, hout, hdots⟩

/-- Only the oldest master of a cell meets, and it meets the oldest other dot. -/
theorem happens_oldest {j : Nat} {e : Encounter} (h : act w i s = .ok () s')
    (hlost : isLost w e.master = false) (he : e.Happens w s.dots i j s'.dots) :
    Meeting.oldest? e.master.pos true s.dots = some i ∧
      Meeting.oldest? e.master.pos false s.dots = some j := by
  rcases act_waiting h he.master_here he.master_waits hlost with
    ⟨hnone, -, -⟩ | ⟨j', e', he', hfirst, hother⟩
  · exact absurd he (hnone j e)
  · rw [(he.unique he').1]
    exact ⟨hfirst, hother⟩

end Turn

end DotPaths
